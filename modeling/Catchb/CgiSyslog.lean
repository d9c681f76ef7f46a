import Catchb.Cgi

/-! The handlers of the syslog server's settings, and the script that keeps them. -/

namespace Catchb
open Lib

structure LogServerConfig where
  pID : ID
  pIP : IP
  pComment : Comment

namespace Syslog

/-- The first word, as `sscanf(t, "%s")` reads it. -/
def sscanf (t : Text) : Text := (t.dropWhile isspace).takeWhile (fun c => !isspace c)

def trim (t : Text) : Text := ((t.dropWhile isspace).reverse.dropWhile isspace).reverse

/-- What is behind the first word and the character after it. A line always has the latter. -/
def value (pBuffer : Text) : Text :=
  trim (((pBuffer.dropWhile isspace).dropWhile (fun c => !isspace c)).drop 1)

def loadLine (xConfig : LogServerConfig) (pBuffer : Text) : LogServerConfig :=
  let pName := sscanf pBuffer
  if strcasecmp pName "id".toList then { xConfig with pID := .copy 64 (value pBuffer) }
  else if strcasecmp pName "ip".toList then { xConfig with pIP := .copy 24 (value pBuffer) }
  else if strcasecmp pName "comment".toList then
    { xConfig with pComment := .copy 64 (value pBuffer) }
  else xConfig

/-- The handlers' loop over the output of `server.sh get`. -/
def load (xConfig : LogServerConfig) (output : Text) : LogServerConfig :=
  (fgets 256 [] output).foldl loadLine xConfig

/-- The fields of a line, as `awk` splits it. -/
def fields (line : Text) : List Text :=
  ((line.map (fun c => if c = '\t' then ' ' else c)).splitOn ' ').filter (fun w => w ≠ [])

/-- What is printed of a line that has the fields. -/
def row (w : List Text) : Text :=
  if w.getD 1 [] ∈ ["ip", "id", "comment"].map String.toList then
    w.getD 1 [] ++ ' ' :: (w.getD 2 [] ++ ['\n'])
  else []

/-- What `server.sh get` prints of the settings' file. -/
def get (file : Text) : Text := ((file.splitOn '\n').map fields).flatMap row

/-- No blank stands in a text that `awk` takes as one field. -/
def Clear (t : Text) : Prop := ∀ c ∈ t, c ≠ ' ' ∧ c ≠ '\t'

theorem clear_fields {line w : Text} (h : w ∈ fields line) : Clear w := by
  intro c hc
  have hsplit := (List.mem_filter.mp h).1
  have hmem : c ∈ line.map (fun c => if c = '\t' then ' ' else c) := by
    have hall := mem_intercalate [' '] hsplit hc
    rwa [List.intercalate_splitOn] at hall
  obtain ⟨d, -, hd⟩ := List.mem_map.mp hmem
  refine ⟨fun he => not_mem_of_mem_splitOn hsplit (he ▸ hc), ?_⟩
  rintro rfl
  split at hd
  · cases hd
  · rename_i hne
    exact hne hd

theorem mem_of_mem_fields {line w : Text} {c : Char} (h : w ∈ fields line) (hc : c ∈ w) :
    c ∈ line := by
  have hsplit := (List.mem_filter.mp h).1
  have hmem : c ∈ line.map (fun c => if c = '\t' then ' ' else c) := by
    have hall := mem_intercalate [' '] hsplit hc
    rwa [List.intercalate_splitOn] at hall
  obtain ⟨d, hd, heq⟩ := List.mem_map.mp hmem
  split at heq
  · exact absurd heq.symm (clear_fields h c hc).1
  · exact heq ▸ hd

/-- A field's name, a blank and what is set. -/
def Entry (l : Text) : Prop :=
  Clear l ∨ ∃ n v, l = n ++ ' ' :: v ∧ (∀ c ∈ n, isspace c = false) ∧ Clear v

theorem entry_of_infix {l n v : Text} (hn : ∀ c ∈ n, isspace c = false) (hv : Clear v)
    (h : l <:+: n ++ ' ' :: v) : Entry l := by
  have hclear : ∀ t : Text, (∀ c ∈ t, c ∈ n) → Clear t := by
    intro t ht c hc
    have hspace := hn c (ht c hc)
    refine ⟨?_, ?_⟩ <;> rintro rfl <;> cases hspace
  obtain ⟨a, b, heq⟩ := h
  rw [List.append_assoc] at heq
  rcases List.append_eq_append_iff.mp heq with ⟨m, hm, hlb⟩ | ⟨m, hm, hlb⟩
  · rcases List.append_eq_append_iff.mp hlb.symm with ⟨k, hk, hrest⟩ | ⟨k, hk, hrest⟩
    · cases k with
      | nil => exact .inl (hclear l (fun c hc => by simp_all))
      | cons d k =>
        obtain ⟨rfl, hk'⟩ := List.cons.inj hrest
        refine .inr ⟨m, k, hk, fun c hc => hn c (by simp [hm, hc]), ?_⟩
        exact fun c hc => hv c (by simp [hk', hc])
    · exact .inl (hclear l (fun c hc => by simp [hm, hk, hc]))
  · cases m with
    | nil =>
      cases l with
      | nil => exact .inl (hclear [] (fun c hc => by cases hc))
      | cons d l =>
        obtain ⟨rfl, hl⟩ := List.cons.inj hlb
        exact .inr ⟨[], l, rfl, by simp, fun c hc => hv c (by simp [hl, hc])⟩
    | cons d m =>
      obtain ⟨rfl, hl⟩ := List.cons.inj hlb
      exact .inl (fun c hc => hv c (by simp [hl, hc]))

theorem clear_value {l : Text} (h : Entry l) : Clear (value l) := by
  have htrim : ∀ (t : Text) (c : Char), c ∈ trim t → c ∈ t := by
    intro t c hc
    have hrev := List.mem_reverse.mp hc
    have hdrop := List.mem_reverse.mp ((List.dropWhile_sublist _).mem hrev)
    exact (List.dropWhile_sublist _).mem hdrop
  intro c hc
  have hmem := htrim _ c hc
  have hsub : ∀ t : Text, c ∈ ((t.dropWhile isspace).dropWhile (fun c => !isspace c)).drop 1 →
      c ∈ t := by
    intro t ht
    exact (List.dropWhile_sublist _).mem ((List.dropWhile_sublist _).mem (List.mem_of_mem_drop ht))
  rcases h with hclear | ⟨n, v, rfl, hn, hv⟩
  · exact hclear c (hsub _ hmem)
  · refine hv c ?_
    cases n with
    | nil =>
      have hdrop : (([] ++ ' ' :: v).dropWhile isspace) = v.dropWhile isspace := rfl
      rw [hdrop] at hmem
      exact hsub v hmem
    | cons d n =>
      have hd : isspace d = false := hn d List.mem_cons_self
      have hskip : ((d :: n ++ ' ' :: v).dropWhile isspace) = d :: n ++ ' ' :: v := by
        simp [hd]
      have hname : ((d :: n ++ ' ' :: v).dropWhile (fun c => !isspace c)) = ' ' :: v := by
        rw [List.dropWhile_append_of_pos (fun c hc => by simp [hn c hc])]
        rfl
      rwa [hskip, hname, List.drop_one, List.tail_cons] at hmem

theorem entry_rows {rows : List (List Text)} (hrows : ∀ w ∈ rows, ∀ t ∈ w, Clear t ∧ '\n' ∉ t) :
    ∀ l ∈ fgets 256 [] (rows.flatMap row), Entry l := by
  induction rows with
  | nil =>
    intro l hl
    cases hl
  | cons w rows ih =>
    intro l hl
    have htail := ih (fun u hu => hrows u (List.mem_cons_of_mem _ hu))
    have hfield : ∀ k, Clear (w.getD k []) ∧ '\n' ∉ w.getD k [] := by
      intro k
      rw [List.getD_eq_getElem?_getD]
      cases hk : w[k]? with
      | none => simp [Clear]
      | some t => exact hrows w List.mem_cons_self t (List.mem_of_getElem? hk)
    rw [List.flatMap_cons, row] at hl
    split at hl
    · rename_i hname
      have hn : ∀ c ∈ w.getD 1 [], isspace c = false := by
        simp only [List.map_cons, List.map_nil, List.mem_cons, List.not_mem_nil, or_false] at hname
        rcases hname with h | h | h <;> rw [h] <;> simp [isspace]
      have hline : '\n' ∉ w.getD 1 [] ++ ' ' :: w.getD 2 [] := by
        intro h
        rcases List.mem_append.mp h with h | h
        · exact (hfield 1).2 h
        · rcases List.mem_cons.mp h with h | h
          · cases h
          · exact (hfield 2).2 h
      have hsplit : w.getD 1 [] ++ ' ' :: (w.getD 2 [] ++ ['\n']) ++ rows.flatMap row =
          (w.getD 1 [] ++ ' ' :: w.getD 2 []) ++ '\n' :: rows.flatMap row := by simp
      rw [hsplit, fgets_line hline, List.mem_append] at hl
      rcases hl with hl | hl
      · have hv : Clear (w.getD 2 [] ++ ['\n']) := by
          intro c hc
          rcases List.mem_append.mp hc with hc | hc
          · exact (hfield 2).1 c hc
          · rw [List.mem_singleton.mp hc]
            decide
        refine entry_of_infix hn hv ?_
        simpa using infix_of_mem_fgets hl
      · exact htail l hl
    · exact htail l hl

theorem entry_get {file l : Text} (h : l ∈ fgets 256 [] (get file)) : Entry l := by
  refine entry_rows ?_ l h
  intro w hw t ht
  obtain ⟨line, hline, rfl⟩ := List.mem_map.mp hw
  refine ⟨clear_fields ht, fun hn => ?_⟩
  exact not_mem_of_mem_splitOn hline (mem_of_mem_fields ht hn)

/-- The ID is the one there was, or one that the file gives, without a blank. -/
theorem pID_load (xConfig : LogServerConfig) (file : Text) :
    (load xConfig (get file)).pID = xConfig.pID ∨ Clear (load xConfig (get file)).pID.val := by
  have hlines : ∀ (ls : List Text) (x : LogServerConfig), (∀ l ∈ ls, Entry l) →
      (x.pID = xConfig.pID ∨ Clear x.pID.val) →
      ((ls.foldl loadLine x).pID = xConfig.pID ∨ Clear (ls.foldl loadLine x).pID.val) := by
    intro ls
    induction ls with
    | nil => intro x _ hx; exact hx
    | cons l ls ih =>
      intro x hls hx
      refine ih _ (fun m hm => hls m (List.mem_cons_of_mem _ hm)) ?_
      unfold loadLine
      simp only
      split_ifs
      · refine .inr (fun c hc => ?_)
        exact clear_value (hls l List.mem_cons_self) c (List.mem_of_mem_take hc)
      · exact hx
      · exact hx
      · exact hx
  exact hlines _ _ (fun l hl => entry_get hl) (.inl rfl)

end Syslog

namespace Cgi
open Syslog

def script : Text := "/usr/bin/server.sh".toList

def getCommand : Text := script ++ " get".toList

/-- `/usr/bin/server.sh add %s %s "%s"` -/
def addCommand (xConfig : LogServerConfig) : Text :=
  script ++ " add ".toList ++ xConfig.pID.val ++ ' ' :: xConfig.pIP.val ++
    ' ' :: '\x22' :: xConfig.pComment.val ++ ['\x22']

/-- `/usr/bin/server.sh del %s` -/
def delCommand (pID : Text) : Text := script ++ " del ".toList ++ pID

/-- `/usr/bin/server.sh add %s %s %s` -/
def setCommand (xConfig : LogServerConfig) : Text :=
  script ++ " add ".toList ++ xConfig.pID.val ++ ' ' :: xConfig.pIP.val ++
    ' ' :: xConfig.pComment.val

/-- The command's first word has to be `ok`. -/
def runScript (pCommand : Text) : Cgi Unit := do
  match ← popen pCommand with
  | none => check retError
  | some pResult => if strcasecmp (sscanf pResult) "ok".toList then check retOK else check retError

/-- The session ID that every one of these handlers verifies first. -/
def verified (pReqRoot : Json) : Cgi Text := do
  let ssid := pReqRoot.getSSID false []
  check ssid.xRet
  let _ ← call ssid.value .ssidVerify
  pure ssid.value

def syslogAdd (pReqRoot : Json) : Cgi Unit := do
  let _ ← verified pReqRoot
  let id := pReqRoot.getID false []
  check id.xRet
  let ip := pReqRoot.getIP true []
  check ip.xRet
  let comment := pReqRoot.getComment true []
  check comment.xRet
  runScript (addCommand ⟨.copy 64 id.value, .copy 24 ip.value, .copy 64 comment.value⟩)

def syslogDel (pReqRoot : Json) : Cgi Unit := do
  let _ ← verified pReqRoot
  let id := pReqRoot.getID false []
  check id.xRet
  runScript (delCommand id.value)

def syslogGet (pReqRoot : Json) : Cgi Unit := do
  let _ ← verified pReqRoot
  let id := pReqRoot.getID false []
  check id.xRet
  match ← popen getCommand with
  | none => check retError
  | some _ => check retOK

/-- The script's ID takes the place of the one asked for. -/
def syslogSet (pReqRoot : Json) : Cgi Unit := do
  let _ ← verified pReqRoot
  let id := pReqRoot.getID false []
  check id.xRet
  match ← popen getCommand with
  | none => check retError
  | some output =>
    let xConfig := load ⟨.copy 64 id.value, .empty 24, .empty 64⟩ output
    let ip := pReqRoot.getIP false xConfig.pIP.val
    let comment := pReqRoot.getComment false xConfig.pComment.val
    runScript (setCommand
      { xConfig with pIP := .copy 24 ip.value, pComment := .copy 64 comment.value })

def syslogGetIDList (pReqRoot : Json) : Cgi Unit := do
  let _ ← verified pReqRoot
  malloc 20 retOK
  let index := pReqRoot.getIndex true 0
  let count := pReqRoot.getCount false 20
  check (index.xRet ||| count.xRet)
  match ← popen getCommand with
  | none => check retError
  | some _ => check retOK

end Cgi
end Catchb
