import Catchb.Webadmin

/-! When the web server's settings are read back as they were set. -/

namespace Catchb.Proofs.ProfileKept
open Lib Shell Cgi Webadmin
open Syslog (sscanf trim)

section
variable {v e : Text} {stored : Text → Text}

theorem dropWhile_space (v : Text) : (' ' :: v).dropWhile isspace = v.dropWhile isspace := rfl

/-- What stands around a value in its line is trimmed. -/
theorem trim_line (v : Text) : trim (' ' :: v ++ ['\n']) = trim v := by
  have hdrop : (v ++ ['\n']).dropWhile isspace =
      if v.dropWhile isspace = [] then [] else v.dropWhile isspace ++ ['\n'] := by
    rw [List.dropWhile_append]
    cases v.dropWhile isspace <;> rfl
  rw [trim, trim, List.cons_append, dropWhile_space, hdrop]
  split
  · rename_i hnil
    rw [hnil]
  · rw [List.reverse_append]
    rfl

theorem digits_nonneg (t : Text) : 0 ≤ digits t := by
  have hfold : ∀ (ds : Text) (n : Int), 0 ≤ n → (∀ c ∈ ds, c.isDigit = true) →
      0 ≤ ds.foldl (fun (n : Int) (c : Char) => 10 * n + (c.toNat - '0'.toNat)) n := by
    intro ds
    induction ds with
    | nil => exact fun n hn _ => hn
    | cons c ds ih =>
      intro n hn hds
      have hc : 48 ≤ c.toNat := by
        have hdigit := hds c List.mem_cons_self
        simp only [Char.isDigit, Bool.and_eq_true, decide_eq_true_eq] at hdigit
        exact hdigit.1
      refine ih _ ?_ (fun d hd => hds d (List.mem_cons_of_mem _ hd))
      have hzero : '0'.toNat = 48 := rfl
      simp only [hzero]
      omega
  exact hfold _ 0 (Int.le_refl 0) (fun c hc => List.mem_takeWhile_imp hc)

/-- A number without a sign. -/
theorem atol_nonneg (hne : v ≠ []) (hv : ∀ c ∈ v, c.isDigit = true) :
    0 ≤ atol (' ' :: v ++ ['\n']) := by
  cases v with
  | nil => exact absurd rfl hne
  | cons c v =>
    have hc := hv c List.mem_cons_self
    have hspace : isspace c = false := by
      rw [Bool.eq_false_iff]
      intro h
      simp only [isspace, List.mem_cons, List.not_mem_nil, or_false, decide_eq_true_eq] at h
      rcases h with rfl | rfl | rfl | rfl | rfl | rfl <;> cases hc
    rw [atol, List.cons_append, dropWhile_space, List.cons_append,
      List.dropWhile_cons_of_neg (by simp [hspace])]
    split
    · rename_i heq
      cases heq
      cases hc
    · exact digits_nonneg _
    · exact digits_nonneg _

/-- A line that fits the buffer is read as a whole. -/
theorem fgets_short {size : Nat} (line : Text) (he : '\n' ∉ e)
    (hsize : line.length + e.length + 1 < size) :
    fgets size line (e ++ ['\n']) = [line ++ e ++ ['\n']] := by
  induction e generalizing line with
  | nil => simp [fgets]
  | cons c e ih =>
    obtain ⟨hc, he⟩ := List.ne_and_not_mem_of_not_mem_cons he
    have hmore : ¬(c = '\n' ∨ size ≤ (line ++ [c]).length + 1) := by
      rintro (h | h)
      · exact hc h.symm
      · simp only [List.length_append, List.length_cons, List.length_nil] at h hsize
        omega
    rw [List.cons_append, fgets]
    simp only [if_neg hmore]
    rw [ih (line ++ [c]) he (by
      simp only [List.length_append, List.length_cons, List.length_nil] at hsize ⊢
      omega)]
    simp

/-- The tag of a printed line, and what is behind it. -/
theorem tag_line {tag : Text} (htag : tag.all (fun c => !isspace c) = true) (hne : tag ≠ [])
    (v : Text) :
    sscanf (line tag v) = tag ∧ (line tag v).drop tag.length = ' ' :: v ++ ['\n'] := by
  have hline : line tag v = tag ++ (' ' :: v ++ ['\n']) := by simp [line]
  constructor
  · cases tag with
    | nil => exact absurd rfl hne
    | cons c tag =>
      have hall := List.all_eq_true.mp htag
      have hc : isspace c = false := by simpa using hall c List.mem_cons_self
      rw [hline, sscanf, List.cons_append, List.dropWhile_cons_of_neg (by simp [hc]),
        ← List.cons_append, List.takeWhile_append_of_pos hall]
      exact List.append_nil _
  · rw [hline, List.drop_left]

theorem fgets_printed {tag : Text} (htag : '\n' ∉ tag) (hv : '\n' ∉ v)
    (hsize : tag.length + v.length ≤ 500) (rest : Text) :
    fgets 512 [] (line tag v ++ rest) = line tag v :: fgets 512 [] rest := by
  have hline : line tag v ++ rest = (tag ++ ' ' :: v) ++ '\n' :: rest := by simp [line]
  have hmem : '\n' ∉ tag ++ ' ' :: v := by
    rw [List.mem_append, List.mem_cons]
    rintro (h | h | h)
    · exact htag h
    · cases h
    · exact hv h
  rw [hline, fgets_line hmem, fgets_short [] hmem (by
    simp only [List.length_nil, List.length_append, List.length_cons]
    omega)]
  simp [line]

theorem profileLine_tag {tag : Text} (htag : tag.all (fun c => !isspace c) = true)
    (hne : tag ≠ []) (hhash : tag.head? ≠ some '#') (v : Text) (xProfile : Profile) :
    profileLine xProfile (line tag v) =
      if tag = "location:".toList then { xProfile with pLocation := .copy 63 (trim v) }
      else if tag = "userid:".toList then { xProfile with pUserID := .copy 63 (trim v) }
      else if tag = "passwd:".toList then { xProfile with pPasswd := .copy 63 (trim v) }
      else if tag = "timeout:".toList ∧ atol (' ' :: v ++ ['\n']) < 0 then
        { xProfile with ulTimeout := .ofInt (atol (' ' :: v ++ ['\n'])) }
      else xProfile := by
  obtain ⟨hscan, hrest⟩ := tag_line htag hne v
  have hhead : (line tag v).head? ≠ some '#' := by
    cases tag with
    | nil => exact absurd rfl hne
    | cons c tag => exact hhash
  simp only [profileLine, if_neg hhead, hscan, hrest, trim_line]

/-- The settings that are read back from what is printed. -/
theorem read_printed (h : Printable stored) :
    (fgets 512 [] (printed stored)).foldl profileLine ⟨.empty 63, .empty 63, .empty 63, 0⟩ =
      ⟨.copy 63 (trim (stored "LOCATION".toList)), .copy 63 (trim (stored "USERID".toList)),
        .copy 63 (trim (stored "PASSWD".toList)), 0⟩ := by
  have hfits : ∀ name ∈ "TIMEOUT".toList :: texts, ∀ tag : Text, tag.length ≤ 9 → '\n' ∉ tag →
      ∀ rest, fgets 512 [] (line tag (stored name) ++ rest) =
        line tag (stored name) :: fgets 512 [] rest := by
    intro name hname tag hlen htag
    obtain ⟨hle, hnewline⟩ := h.fits name hname
    exact fgets_printed htag hnewline (by omega)
  have hlast :=
    hfits "TIMEOUT".toList (by simp [texts]) "timeout:".toList (by decide) (by decide) []
  rw [List.append_nil] at hlast
  have hlines : fgets 512 [] (printed stored) =
      [line "location:".toList (stored "LOCATION".toList),
        line "userid:".toList (stored "USERID".toList),
        line "passwd:".toList (stored "PASSWD".toList),
        line "timeout:".toList (stored "TIMEOUT".toList)] := by
    rw [printed, List.append_assoc, List.append_assoc,
      hfits _ (by simp [texts]) _ (by decide) (by decide),
      hfits _ (by simp [texts]) _ (by decide) (by decide),
      hfits _ (by simp [texts]) _ (by decide) (by decide), hlast]
    rfl
  have htimeout : ∀ xProfile,
      profileLine xProfile (line "timeout:".toList (stored "TIMEOUT".toList)) = xProfile := by
    intro xProfile
    have hnonneg := Int.not_lt.mpr (atol_nonneg h.number.1 h.number.2)
    rw [profileLine_tag (by decide) (by decide) (by decide), if_neg (by decide),
      if_neg (by decide), if_neg (by decide), if_neg (fun h => hnonneg h.2)]
  rw [hlines, List.foldl_cons, List.foldl_cons, List.foldl_cons, List.foldl_cons, List.foldl_nil,
    htimeout, profileLine_tag (by decide) (by decide) (by decide),
    profileLine_tag (by decide) (by decide) (by decide),
    profileLine_tag (by decide) (by decide) (by decide)]
  rfl

end

section
variable {σ α β : Type} {host : Host σ} {stored : σ → Text → Text} {s s' : σ}

/-- A handler that goes on after another one. -/
theorem ends_bind (host : Host σ) (s : σ) (p : Cgi α) (f : α → Cgi β) :
    host.ends s (p >>= f) = match host.ends s p with
      | (.ok a, s') => host.ends s' (f a)
      | (.error e, s') => (.error e, s') := by
  induction p generalizing s with
  | done a => rfl
  | fail e => rfl
  | ask q k ih => exact ih _ _

theorem ends_check_bind (host : Host σ) (s : σ) (xRet : RetCode) (f : Unit → Cgi α) :
    host.ends s (check xRet >>= f) =
      if xRet = retOK then host.ends s (f ()) else (.error xRet, s) := by
  unfold check
  split
  · rfl
  · rfl

/-- A call changes nothing on the host. -/
theorem ends_call_bind (host : Host σ) (s : σ) (pSSID : Text) (c : ClientCall)
    (f : c.Reply → Cgi α) :
    (∃ e, host.ends s (call pSSID c >>= f) = (.error e, s)) ∨
      ∃ value, host.ends s (call pSSID c >>= f) = host.ends s (f value) := by
  let resp : Reading c.Reply := host.answer s (.call pSSID c)
  have hask : host.ends s (call pSSID c >>= f) = host.ends s
      ((if resp.xRet = retOK then .done resp.value else .fail resp.xRet : Cgi c.Reply) >>= f) := rfl
  rw [hask]
  split
  · exact .inr ⟨resp.value, rfl⟩
  · exact .inl ⟨resp.xRet, rfl⟩

theorem popen_one {line : Text} {c : Shell.Command} (h : simple host.env host.home line = some [c])
    (s : σ) : host.popen line s = host.exec c s := by
  simp [Host.popen, h, Host.execAll]

theorem simple_get (env : Env) (home : Word → Text) :
    simple env home "/etc/init.d/webadmin get".toList = some [get] := by
  have hwords : words "/etc/init.d/webadmin get".toList =
      some [[bare path, bare "get".toList]] := rfl
  have hassigns : assigns (bare path) = none := rfl
  rw [simple, hwords, Option.map_some, List.map_singleton, command_args hassigns]
  rw [List.flatMap_cons, fields_literal env (w := bare path) rfl, List.flatMap_cons,
    fields_literal env (w := bare "get".toList) rfl]
  rfl

theorem ends_get (host : Host σ) (s : σ) : host.ends s profileGet =
    (.ok ((fgets 512 [] (host.exec get s).1).foldl profileLine
      ⟨.empty 63, .empty 63, .empty 63, 0⟩), (host.exec get s).2) := by
  have hpopen := popen_one (simple_get host.env host.home) s
  have hends : host.ends s profileGet =
      (.ok ((fgets 512 [] (host.popen "/etc/init.d/webadmin get".toList s).1).foldl profileLine
        ⟨.empty 63, .empty 63, .empty 63, 0⟩),
        (host.popen "/etc/init.d/webadmin get".toList s).2) := rfl
  rw [hends, hpopen]

theorem ends_set (host : Host σ) (s : σ) (xProfile : Profile) :
    host.ends s (profileSet xProfile) = (.ok (), (host.popen (profileCommand xProfile) s).2) := rfl

/-- What is read back of settings that can be printed. -/
theorem ends_get_printed (hkeeps : Keeps host stored) (h : Printable (stored s)) :
    host.ends s profileGet = (.ok ⟨.copy 63 (trim (stored s "LOCATION".toList)),
      .copy 63 (trim (stored s "USERID".toList)), .copy 63 (trim (stored s "PASSWD".toList)), 0⟩,
      (host.exec get s).2) := by
  rw [ends_get, hkeeps.printed s h, read_printed h]

end

/-- A value that stands for itself in the command line, and is read back without loss: no blank,
line break or character that the shell gives a meaning, no tilde at its beginning or behind a
colon, and no white space at its ends. -/
def Kept (v : Text) : Prop := v.all taken = true ∧ tilded true (bare v) = false ∧ trim v = v

/-- The settings are read back as they were set, whatever the shell looks up and whatever was stored
before. -/
def Returned (xProfile : Profile) : Prop :=
  ∀ (σ : Type) (host : Host σ) (stored : σ → Text → Text), Keeps host stored → ∀ s,
    (host.ends s (do
      profileSet xProfile
      profileGet)).1 = .ok xProfile

/-- A new password is all that a successful `FTM_CGI_POST_SYS_setPasswd` changes. -/
def OnlyPasswd (xProfile : Profile) (pNewPasswd : Field 63) : Prop :=
  ∀ (σ : Type) (host : Host σ) (stored : σ → Text → Text), Keeps host stored → ∀ s pReqRoot,
    .copy 63 (Json.getNewPasswd pReqRoot false []).value = pNewPasswd →
    (host.ends s (do
      profileSet xProfile
      sysSetPasswd pReqRoot)).1 = .ok () →
    (host.ends s (do
      profileSet xProfile
      sysSetPasswd pReqRoot
      profileGet)).1 = .ok { xProfile with pPasswd := pNewPasswd }

section
variable {xProfile : Profile}

/-- The words of the assignments. -/
def assignments (xProfile : Profile) : List Text :=
  ["LOCATION=".toList ++ xProfile.pLocation.val, "USERID=".toList ++ xProfile.pUserID.val,
    "PASSWD=".toList ++ xProfile.pPasswd.val]

/-- The settings are not empty, so that each of them is set. -/
structure Full (xProfile : Profile) : Prop where
  location : xProfile.pLocation.val ≠ []
  userID : xProfile.pUserID.val ≠ []
  passwd : xProfile.pPasswd.val ≠ []

def number (xProfile : Profile) : Text := Nat.toDigits 10 xProfile.ulTimeout.toNat

theorem profileCommand_eq (h : Full xProfile) : profileCommand xProfile =
    lead (assignments xProfile) ++ ("TIMEOUT=".toList ++ number xProfile ++
      ' ' :: ' ' :: (lead [path] ++ "update".toList)) := by
  simp only [profileCommand, assignment, if_neg h.location, if_neg h.userID, if_neg h.passwd,
    assignments, number, lead, List.flatMap_cons, List.flatMap_nil, List.append_assoc]
  rfl

theorem taken_digits (n : Nat) : (Nat.toDigits 10 n).all taken = true := by
  rw [List.all_eq_true]
  intro c hc
  have hdigit := Nat.isDigit_of_mem_toDigits (by decide) (by decide) hc
  have hne : ∀ d : Char, d.isDigit = false → c ≠ d := by
    rintro d hd rfl
    rw [hdigit] at hd
    cases hd
  simp [taken, kind, hne ' ' rfl, hne '\t' rfl, hne '\n' rfl, hne ';' rfl, hne '&' rfl, hne '|' rfl,
    hne '<' rfl, hne '>' rfl, hne '(' rfl, hne ')' rfl, hne '$' rfl, hne '\x60' rfl,
    hne '\x27' rfl, hne '\x22' rfl, hne '\\' rfl, hne '#' rfl]

/-- The variables that are assigned where the texts need no quotation. -/
def vars (home : Word → Text) (xProfile : Profile) : List (Text × Text) :=
  [("LOCATION".toList, assigned home (bare xProfile.pLocation.val)),
    ("USERID".toList, assigned home (bare xProfile.pUserID.val)),
    ("PASSWD".toList, assigned home (bare xProfile.pPasswd.val)),
    ("TIMEOUT".toList, assigned home (bare (number xProfile)))]

theorem literal_append {t v : Text} (ht : literal t = true) (hv : v.all taken = true) :
    literal (t ++ v) = true := by
  cases t with
  | nil => cases ht
  | cons c t =>
    obtain ⟨hc, htaken⟩ := (Bool.and_eq_true _ _).mp ht
    rw [List.cons_append, literal, hc, List.all_append, htaken, hv]
    rfl

theorem command_set (env : Env) (home : Word → Text) :
    command env home ((assignments xProfile ++ ["TIMEOUT=".toList ++ number xProfile, path,
      "update".toList]).map bare) = update (vars home xProfile) := by
  have hlocation : assigns (bare ("LOCATION=".toList ++ xProfile.pLocation.val)) =
      some ("LOCATION".toList, bare xProfile.pLocation.val) :=
    assigns_bare "LOCATION".toList xProfile.pLocation.val (by decide) rfl
  have huserID : assigns (bare ("USERID=".toList ++ xProfile.pUserID.val)) =
      some ("USERID".toList, bare xProfile.pUserID.val) :=
    assigns_bare "USERID".toList xProfile.pUserID.val (by decide) rfl
  have hpasswd : assigns (bare ("PASSWD=".toList ++ xProfile.pPasswd.val)) =
      some ("PASSWD".toList, bare xProfile.pPasswd.val) :=
    assigns_bare "PASSWD".toList xProfile.pPasswd.val (by decide) rfl
  have htimeout : assigns (bare ("TIMEOUT=".toList ++ number xProfile)) =
      some ("TIMEOUT".toList, bare (number xProfile)) :=
    assigns_bare "TIMEOUT".toList (number xProfile) (by decide) rfl
  simp only [assignments, List.cons_append, List.nil_append, List.map_cons, List.map_nil]
  rw [command_assigns hlocation, command_assigns huserID, command_assigns hpasswd,
    command_assigns htimeout,
    command_args (w := bare path) rfl, List.flatMap_cons, fields_literal env (w := bare path) rfl,
    List.flatMap_cons, fields_literal env (w := bare "update".toList) rfl]
  rfl

theorem simple_set (hfull : Full xProfile) (hlocation : xProfile.pLocation.val.all taken = true)
    (huserID : xProfile.pUserID.val.all taken = true)
    (hpasswd : xProfile.pPasswd.val.all taken = true) (env : Env) (home : Word → Text) :
    simple env home (profileCommand xProfile) = some [update (vars home xProfile)] := by
  have hlead : ∀ t ∈ assignments xProfile, literal t = true := by
    intro t ht
    simp only [assignments, List.mem_cons, List.not_mem_nil, or_false] at ht
    rcases ht with rfl | rfl | rfl
    · exact literal_append rfl hlocation
    · exact literal_append rfl huserID
    · exact literal_append rfl hpasswd
  have htimeout : literal ("TIMEOUT=".toList ++ number xProfile) = true :=
    literal_append rfl (taken_digits _)
  have hsteps : start.steps (lead (assignments xProfile)) =
      some ⟨[], [] ++ (assignments xProfile).map bare, .unquoted none⟩ := Reader.steps_lead hlead
  have hscript : ∀ u ∈ [path] ++ ["update".toList], literal u = true := by decide
  have hwords : words (profileCommand xProfile) =
      some [(assignments xProfile ++ ["TIMEOUT=".toList ++ number xProfile, path,
        "update".toList]).map bare] := by
    rw [profileCommand_eq hfull, words, Reader.read_append hsteps,
      Reader.read_append (Reader.steps_literal htimeout), Reader.read_tail hscript rfl]
    simp
  rw [simple, hwords, Option.map_some, List.map_singleton, command_set]

/-- What is stored once the variables have been given to the script. -/
theorem stored_update {σ : Type} {host : Host σ} {stored : σ → Text → Text}
    (hkeeps : Keeps host stored) (home : Word → Text) (xProfile : Profile) (s : σ) :
    stored (host.exec (update (vars home xProfile)) s).2 "LOCATION".toList =
        assigned home (bare xProfile.pLocation.val) ∧
      stored (host.exec (update (vars home xProfile)) s).2 "USERID".toList =
        assigned home (bare xProfile.pUserID.val) ∧
      stored (host.exec (update (vars home xProfile)) s).2 "PASSWD".toList =
        assigned home (bare xProfile.pPasswd.val) ∧
      stored (host.exec (update (vars home xProfile)) s).2 "TIMEOUT".toList =
        assigned home (bare (number xProfile)) := by
  refine ⟨?_, ?_, ?_, ?_⟩
  · rw [hkeeps.update]
    rfl
  · rw [hkeeps.update]
    rfl
  · rw [hkeeps.update]
    rfl
  · rw [hkeeps.update]
    rfl

theorem assigned_kept {v : Text} (h : Kept v) (home : Word → Text) :
    assigned home (bare v) = v := by
  rw [assigned, h.2.1, text_bare]
  rfl

theorem newline_of_taken {v : Text} (h : v.all taken = true) : '\n' ∉ v := by
  intro hmem
  have htaken := List.all_eq_true.mp h _ hmem
  cases htaken

/-- The settings that are read back right after they were set. -/
theorem ends_of_kept {σ : Type} {host : Host σ} {stored : σ → Text → Text} (hfull : Full xProfile)
    (hlocation : Kept xProfile.pLocation.val) (huserID : Kept xProfile.pUserID.val)
    (hpasswd : Kept xProfile.pPasswd.val) (htimeout : xProfile.ulTimeout = 0)
    (hkeeps : Keeps host stored) (s : σ) : ∃ s₁ s₂,
      host.ends s (profileSet xProfile) = (.ok (), s₁) ∧
        host.ends s₁ profileGet = (.ok xProfile, s₂) := by
  have hsimple := simple_set hfull hlocation.1 huserID.1 hpasswd.1 host.env host.home
  have hset := ends_set host s xProfile
  rw [popen_one hsimple] at hset
  obtain ⟨hl, hu, hp, ht⟩ := stored_update hkeeps host.home xProfile s
  rw [assigned_kept hlocation] at hl
  rw [assigned_kept huserID] at hu
  rw [assigned_kept hpasswd] at hp
  have hzero : number xProfile = "0".toList := by
    rw [number, htimeout]
    rfl
  have hassigned : assigned host.home (bare "0".toList) = "0".toList := rfl
  rw [hzero, hassigned] at ht
  have hprintable : Printable (stored (host.exec (update (vars host.home xProfile)) s).2) := by
    constructor
    · intro name hname
      simp only [texts, List.mem_cons, List.not_mem_nil, or_false] at hname
      rcases hname with rfl | rfl | rfl | rfl
      · rw [ht]
        decide
      · rw [hl]
        exact ⟨xProfile.pLocation.property, newline_of_taken hlocation.1⟩
      · rw [hu]
        exact ⟨xProfile.pUserID.property, newline_of_taken huserID.1⟩
      · rw [hp]
        exact ⟨xProfile.pPasswd.property, newline_of_taken hpasswd.1⟩
    · rw [ht]
      exact ⟨List.cons_ne_nil _ _, List.all_eq_true.mp rfl⟩
  have hget := ends_get_printed hkeeps hprintable
  rw [hl, hu, hp, hlocation.2.2, huserID.2.2, hpasswd.2.2, Field.copy_val, Field.copy_val,
    Field.copy_val, ← htimeout] at hget
  exact ⟨_, _, hset, hget⟩

end

instance (stored : Text → Text) : Decidable (Printable stored) :=
  decidable_of_iff
    ((∀ name ∈ "TIMEOUT".toList :: texts, (stored name).length ≤ 63 ∧ '\n' ∉ stored name) ∧
      stored "TIMEOUT".toList ≠ [] ∧ (stored "TIMEOUT".toList).all Char.isDigit = true)
    ⟨fun h => ⟨h.1, h.2.1, List.all_eq_true.mp h.2.2⟩,
      fun h => ⟨h.fits, h.number.1, List.all_eq_true.mpr h.number.2⟩⟩

/-- What a question is answered where nothing else is to be had. -/
def noAnswer : (q : Ask) → q.Answer
  | .call _ _ => ⟨retOK, default⟩
  | .popen _ => none
  | .fopen _ _ => none
  | .setTime _ => retOK
  | .measure => retOK
  | .malloc _ => false

/-- A host with nothing but the script, where the user has no directory. -/
def scriptHost : Host (Text → Text) where
  env := .still
  home := fun _ => []
  exec := fun c stored =>
    if c = get then (if Printable stored then printed stored else [], stored)
    else if c.args = [path, "update".toList] then
      ([], fun name => (c.value? name).getD (stored name))
    else ([], stored)
  unread := fun _ stored => ([], stored)
  answer := fun _ => noAnswer

theorem scriptHost_update (vars : List (Text × Text)) (stored : Text → Text) :
    scriptHost.exec (update vars) stored =
      ([], fun name => ((update vars).value? name).getD (stored name)) := by
  have hne : update vars ≠ get := by
    intro h
    have hargs : [path, "update".toList] = [path, "get".toList] := congrArg Shell.Command.args h
    exact absurd hargs (by decide)
  simp only [scriptHost, if_neg hne]
  rfl

theorem scriptHost_keeps : Keeps scriptHost id where
  update := by
    intro vars stored name
    rw [scriptHost_update]
    rfl
  printed := by
    intro stored h
    simp only [scriptHost, ↓reduceIte]
    exact if_pos h
  kept := fun _ => rfl

/-- What is stored after some commands was stored before them, or is given to the script by one. -/
theorem stored_execAll (cs : List Shell.Command) (stored : Text → Text) (name : Text) :
    (scriptHost.execAll cs stored).2 name = stored name ∨
      ∃ c ∈ cs, c.args = [path, "update".toList] ∧
        c.value? name = some ((scriptHost.execAll cs stored).2 name) := by
  induction cs generalizing stored with
  | nil => exact .inl rfl
  | cons c cs ih =>
    have hrest : (scriptHost.execAll (c :: cs) stored).2 =
        (scriptHost.execAll cs (scriptHost.exec c stored).2).2 := rfl
    rw [hrest]
    rcases ih (scriptHost.exec c stored).2 with hsame | ⟨c', hc', hargs, hvalue⟩
    · rw [hsame]
      by_cases hget : c = get
      · exact .inl (by simp only [scriptHost, if_pos hget])
      · by_cases hargs : c.args = [path, "update".toList]
        · simp only [scriptHost, if_neg hget, if_pos hargs]
          cases hvalue : c.value? name with
          | none => exact .inl rfl
          | some v => exact .inr ⟨c, List.mem_cons_self, hargs, hvalue⟩
        · exact .inl (by simp only [scriptHost, if_neg hget, if_neg hargs])
    · exact .inr ⟨c', List.mem_cons_of_mem _ hc', hargs, hvalue⟩

theorem length_trim_le (v : Text) : (trim v).length ≤ v.length := by
  rw [trim, List.length_reverse]
  have hback := (List.dropWhile_sublist (l := (v.dropWhile isspace).reverse) isspace).length_le
  have hfront := (List.dropWhile_sublist (l := v) isspace).length_le
  rw [List.length_reverse] at hback
  omega

theorem trim_of_copy {v : Text} (hv : v.length ≤ 63) {t : Field 63} (h : .copy 63 (trim v) = t) :
    trim v = t.val := by
  rw [← h]
  exact (List.take_of_length_le (Nat.le_trans (length_trim_le v) hv)).symm

section
variable {xProfile : Profile}

/-- What the script host stores for settings, where nothing was stored. -/
def storedAfter (xProfile : Profile) : Text → Text :=
  (scriptHost.popen (profileCommand xProfile) (fun _ => [])).2

/-- Settings that come back have been stored, up to white space around them. -/
theorem stored_of_returned (hfull : Full xProfile) (h : Returned xProfile) :
    Printable (storedAfter xProfile) ∧
      trim (storedAfter xProfile "LOCATION".toList) = xProfile.pLocation.val ∧
      trim (storedAfter xProfile "USERID".toList) = xProfile.pUserID.val ∧
      trim (storedAfter xProfile "PASSWD".toList) = xProfile.pPasswd.val ∧
      xProfile.ulTimeout = 0 := by
  have hends : (scriptHost.ends (storedAfter xProfile) profileGet).1 = .ok xProfile :=
    h _ scriptHost id scriptHost_keeps (fun _ => [])
  by_cases hprintable : Printable (storedAfter xProfile)
  · have hfits := hprintable.fits
    rw [ends_get_printed (s := storedAfter xProfile) scriptHost_keeps hprintable] at hends
    have heq := Except.ok.inj hends
    have hlocation := congrArg Profile.pLocation heq
    have huserID := congrArg Profile.pUserID heq
    have hpasswd := congrArg Profile.pPasswd heq
    exact ⟨hprintable, trim_of_copy (hfits _ (by simp [texts])).1 hlocation,
      trim_of_copy (hfits _ (by simp [texts])).1 huserID,
      trim_of_copy (hfits _ (by simp [texts])).1 hpasswd, (congrArg Profile.ulTimeout heq).symm⟩
  · have hnothing : scriptHost.exec get (storedAfter xProfile) = ([], storedAfter xProfile) := by
      simp only [scriptHost, ↓reduceIte, if_neg hprintable]
    rw [ends_get, hnothing] at hends
    have hempty : (Field.empty 63).val = xProfile.pLocation.val :=
      congrArg (fun xProfile => xProfile.pLocation.val) (Except.ok.inj hends)
    exact absurd hempty.symm hfull.location

/-- What is stored has come from words of the command line. -/
theorem word_of_stored {name : Text} (h : storedAfter xProfile name ≠ []) :
    ∃ css, words (profileCommand xProfile) = some css ∧
      (∃ w ∈ css.flatten, text w = name ++ '=' :: storedAfter xProfile name) ∧
      (∃ w ∈ css.flatten, text w = path) ∧ ∃ w ∈ css.flatten, text w = "update".toList := by
  cases hwords : words (profileCommand xProfile) with
  | none =>
    have hnothing : storedAfter xProfile = fun _ => [] := by
      simp only [storedAfter, Host.popen, simple, hwords, Option.map_none]
      rfl
    exact absurd (congrFun hnothing name) h
  | some css =>
    refine ⟨css, rfl, ?_⟩
    have hstored : storedAfter xProfile =
        (scriptHost.execAll (css.map (command .still fun _ => [])) fun _ => []).2 := by
      simp only [storedAfter, Host.popen, simple, hwords, Option.map_some]
      rfl
    rcases stored_execAll (css.map (command .still fun _ => [])) (fun _ => []) name with
      hnothing | ⟨c, hc, hargs, hvalue⟩
    · rw [← hstored] at hnothing
      exact absurd hnothing h
    · rw [← hstored] at hvalue
      obtain ⟨ws, hws, rfl⟩ := List.mem_map.mp hc
      have hflat : ∀ w ∈ ws, w ∈ css.flatten := fun w hw => List.mem_flatten.mpr ⟨ws, hws, hw⟩
      have harg : ∀ v ∈ [path, "update".toList], ∃ w ∈ css.flatten, text w = v := by
        intro v hv
        obtain ⟨w, hw, heq⟩ := word_of_arg (hargs ▸ hv)
        exact ⟨w, hflat w hw, heq⟩
      refine ⟨?_, harg _ (by simp), harg _ (by simp)⟩
      obtain ⟨w, hw, value, heq, hassigned⟩ := word_of_var (mem_of_value hvalue)
      refine ⟨w, hflat w hw, ?_⟩
      rw [assigned] at hassigned
      split at hassigned
      · exact absurd hassigned h
      · rw [heq, hassigned]

theorem number_of_zero (h : xProfile.ulTimeout = 0) : number xProfile = ['0'] := by
  rw [number, h]
  rfl

theorem length_names (v₁ v₂ v₃ v₄ : Text) :
    (lead ["LOCATION".toList ++ '=' :: v₁, "USERID".toList ++ '=' :: v₂,
      "PASSWD".toList ++ '=' :: v₃, "TIMEOUT".toList ++ '=' :: v₄, path,
      "update".toList]).length = v₁.length + v₂.length + v₃.length + v₄.length + 63 := by
  have hlocation : "LOCATION".toList.length = 8 := rfl
  have huserID : "USERID".toList.length = 6 := rfl
  have hpasswd : "PASSWD".toList.length = 6 := rfl
  have htimeout : "TIMEOUT".toList.length = 7 := rfl
  have hpath : path.length = 20 := rfl
  have hupdate : "update".toList.length = 6 := rfl
  rw [length_lead]
  simp only [List.map_cons, List.map_nil, List.sum_cons, List.sum_nil, List.length_append,
    List.length_cons, hlocation, huserID, hpasswd, htimeout, hpath, hupdate]
  omega

/-- What stands before the number. -/
theorem length_start (xProfile : Profile) :
    (lead (assignments xProfile) ++ "TIMEOUT=".toList).length =
      xProfile.pLocation.val.length + xProfile.pUserID.val.length +
        xProfile.pPasswd.val.length + 34 := by
  have hlocation : "LOCATION=".toList.length = 9 := rfl
  have huserID : "USERID=".toList.length = 7 := rfl
  have hpasswd : "PASSWD=".toList.length = 7 := rfl
  have htimeout : "TIMEOUT=".toList.length = 8 := rfl
  rw [List.length_append, length_lead]
  simp only [assignments, List.map_cons, List.map_nil, List.sum_cons, List.sum_nil,
    List.length_append, hlocation, huserID, hpasswd, htimeout]
  omega

theorem countP_start (xProfile : Profile) :
    (lead (assignments xProfile) ++ "TIMEOUT=".toList).countP (fun c => !taken c) =
      xProfile.pLocation.val.countP (fun c => !taken c) +
        xProfile.pUserID.val.countP (fun c => !taken c) +
        xProfile.pPasswd.val.countP (fun c => !taken c) + 3 := by
  have hlocation : "LOCATION=".toList.countP (fun c => !taken c) = 0 := rfl
  have huserID : "USERID=".toList.countP (fun c => !taken c) = 0 := rfl
  have hpasswd : "PASSWD=".toList.countP (fun c => !taken c) = 0 := rfl
  have htimeout : "TIMEOUT=".toList.countP (fun c => !taken c) = 0 := rfl
  have hblank : (!taken ' ') = true := rfl
  simp only [assignments, lead_cons, lead_nil, List.countP_append, List.countP_cons,
    List.countP_nil, hlocation, huserID, hpasswd, htimeout, hblank, ↓reduceIte]
  omega

/-- Settings that come back need no quotation: there are no more words than the assignments, the
script's name and what it is to do, and these have all the characters of the line. -/
theorem taken_of_returned (hfull : Full xProfile) (h : Returned xProfile) :
    xProfile.pLocation.val.all taken = true ∧ xProfile.pUserID.val.all taken = true ∧
      xProfile.pPasswd.val.all taken = true := by
  obtain ⟨hprintable, hl, hu, hp, hzero⟩ := stored_of_returned hfull h
  have hne : ∀ {v t : Text}, trim v = t → t ≠ [] → v ≠ [] := by
    rintro v t rfl ht rfl
    exact ht rfl
  obtain ⟨css, hwords, hlocation, hpath, hupdate⟩ := word_of_stored (hne hl hfull.location)
  have hother : ∀ {name : Text}, storedAfter xProfile name ≠ [] →
      ∃ w ∈ css.flatten, text w = name ++ '=' :: storedAfter xProfile name := by
    intro name hname
    obtain ⟨css', hwords', hword, -⟩ := word_of_stored hname
    rw [hwords] at hwords'
    cases hwords'
    exact hword
  have huserID := hother (hne hu hfull.userID)
  have hpasswd := hother (hne hp hfull.passwd)
  have htimeout := hother hprintable.number.1
  have hlen : 1 ≤ (storedAfter xProfile "TIMEOUT".toList).length :=
    List.length_pos_of_ne_nil hprintable.number.1
  have hlen₁ := length_trim_le (storedAfter xProfile "LOCATION".toList)
  have hlen₂ := length_trim_le (storedAfter xProfile "USERID".toList)
  have hlen₃ := length_trim_le (storedAfter xProfile "PASSWD".toList)
  rw [hl] at hlen₁
  rw [hu] at hlen₂
  rw [hp] at hlen₃
  generalize storedAfter xProfile "LOCATION".toList = v₁ at *
  generalize storedAfter xProfile "USERID".toList = v₂ at *
  generalize storedAfter xProfile "PASSWD".toList = v₃ at *
  generalize storedAfter xProfile "TIMEOUT".toList = v₄ at *
  let ts : List Text := ["LOCATION".toList ++ '=' :: v₁, "USERID".toList ++ '=' :: v₂,
    "PASSWD".toList ++ '=' :: v₃, "TIMEOUT".toList ++ '=' :: v₄, path, "update".toList]
  have hnodup : ts.Nodup := by
    have hheads : ts.map List.head? = [some 'L', some 'U', some 'P', some 'T', some '/', some 'u'] :=
      rfl
    apply List.Nodup.of_map List.head?
    rw [hheads]
    decide
  have hmem : ∀ t ∈ ts, ∃ w ∈ css.flatten, text w = t := by
    intro t ht
    simp only [ts, List.mem_cons, List.not_mem_nil, or_false] at ht
    rcases ht with rfl | rfl | rfl | rfl | rfl | rfl
    · exact hlocation
    · exact huserID
    · exact hpasswd
    · exact htimeout
    · exact hpath
    · exact hupdate
  have hweight : (lead ts).length = v₁.length + v₂.length + v₃.length + v₄.length + 63 :=
    length_names v₁ v₂ v₃ v₄
  have hrest : (lead [path] ++ "update".toList).length = 27 := rfl
  have hstart := length_start xProfile
  have hall := total_of_mem hnodup hmem
  have hmany : 6 ≤ css.flatten.length := length_le_flatten hnodup hmem
  have hsix : ts.length = 6 := rfl
  rw [profileCommand_eq hfull, number_of_zero hzero] at hwords
  have hread : start.read (lead (assignments xProfile) ++ "TIMEOUT=".toList ++
      '0' :: ' ' :: ' ' :: (lead [path] ++ "update".toList)) = some css := by
    rw [← hwords, words]
    simp
  obtain ⟨htotal, hcount⟩ := Reader.whole_of_total (by decide) rfl hread (by omega)
  have hnone : ∀ v : Text, v.countP (fun c => !taken c) = 0 → v.all taken = true := by
    intro v hv
    rw [List.all_eq_true]
    intro c hc
    simpa using List.countP_eq_zero.mp hv c hc
  have hone : [path].length = 1 := rfl
  rw [countP_start, hone] at hcount
  exact ⟨hnone _ (by omega), hnone _ (by omega), hnone _ (by omega)⟩

theorem kept_of_assigned {v : Text} (hne : v ≠ []) (htaken : v.all taken = true)
    (h : trim (assigned (fun _ => []) (bare v)) = v) : Kept v := by
  rw [assigned] at h
  split at h
  · exact absurd h.symm hne
  · rename_i htilde
    rw [text_bare] at h
    exact ⟨htaken, Bool.eq_false_iff.mpr htilde, h⟩

theorem kept_of_returned (hfull : Full xProfile) (h : Returned xProfile) :
    Kept xProfile.pLocation.val ∧ Kept xProfile.pUserID.val ∧ Kept xProfile.pPasswd.val ∧
      xProfile.ulTimeout = 0 := by
  obtain ⟨hl, hu, hp⟩ := taken_of_returned hfull h
  obtain ⟨-, hlocation, huserID, hpasswd, hzero⟩ := stored_of_returned hfull h
  have hstored : storedAfter xProfile =
      (scriptHost.exec (update (vars scriptHost.home xProfile)) fun _ => []).2 := by
    rw [storedAfter, popen_one (simple_set hfull hl hu hp scriptHost.env scriptHost.home)]
  obtain ⟨hl', hu', hp', -⟩ := stored_update scriptHost_keeps scriptHost.home xProfile fun _ => []
  rw [← hstored] at hl' hu' hp'
  exact ⟨kept_of_assigned hfull.location hl ((congrArg trim hl').symm.trans hlocation),
    kept_of_assigned hfull.userID hu ((congrArg trim hu').symm.trans huserID),
    kept_of_assigned hfull.passwd hp ((congrArg trim hp').symm.trans hpasswd), hzero⟩

/-- A handler that changes the password comes to nothing, or sets the settings that it has read
with the new password. -/
theorem setPasswd_cases {σ : Type} {host : Host σ} {s s' : σ}
    (hget : host.ends s profileGet = (.ok xProfile, s')) (pReqRoot : Json) :
    (∃ e s₁, host.ends s (sysSetPasswd pReqRoot) = (.error e, s₁)) ∨
      host.ends s (sysSetPasswd pReqRoot) = host.ends s' (profileSet
        { xProfile with pPasswd := .copy 63 (Json.getNewPasswd pReqRoot false []).value }) := by
  unfold sysSetPasswd
  simp only [ends_check_bind]
  split
  · split
    · split
      · rcases ends_call_bind host s (pReqRoot.getSSID false []).value .ssidVerify _ with
          ⟨e, herror⟩ | ⟨value, hgo⟩
        · exact .inl ⟨e, s, herror⟩
        · rw [hgo, ends_bind, hget]
          simp only
          split
          · exact .inl ⟨_, _, rfl⟩
          · split
            · exact .inl ⟨_, _, rfl⟩
            · exact .inr rfl
      · exact .inl ⟨_, _, rfl⟩
    · exact .inl ⟨_, _, rfl⟩
  · exact .inl ⟨_, _, rfl⟩

theorem returned_of_kept (hfull : Full xProfile) (hlocation : Kept xProfile.pLocation.val)
    (huserID : Kept xProfile.pUserID.val) (hpasswd : Kept xProfile.pPasswd.val)
    (htimeout : xProfile.ulTimeout = 0) : Returned xProfile := by
  intro σ host stored hkeeps s
  obtain ⟨s₁, s₂, hset, hget⟩ := ends_of_kept hfull hlocation huserID hpasswd htimeout hkeeps s
  rw [ends_bind, hset]
  simp only [hget]

theorem onlyPasswd_of_kept (hfull : Full xProfile) (hlocation : Kept xProfile.pLocation.val)
    (huserID : Kept xProfile.pUserID.val) (hpasswd : Kept xProfile.pPasswd.val)
    (htimeout : xProfile.ulTimeout = 0) {pNewPasswd : Field 63}
    (hnew : Returned { xProfile with pPasswd := pNewPasswd }) : OnlyPasswd xProfile pNewPasswd := by
  intro σ host stored hkeeps s pReqRoot hvalue hok
  obtain ⟨s₁, s₂, hset, hget⟩ := ends_of_kept hfull hlocation huserID hpasswd htimeout hkeeps s
  rw [ends_bind, hset] at hok ⊢
  simp only at hok ⊢
  rw [ends_bind]
  rcases setPasswd_cases hget pReqRoot with ⟨e, s₃, herror⟩ | hsets
  · rw [herror] at hok
    cases hok
  · rw [hsets, hvalue]
    have hreturned := hnew σ host stored hkeeps s₂
    rwa [ends_bind] at hreturned

/-- Settings that are not empty are read back as they were set if and only if each text stands for
itself in the command line, without white space at its ends, and the timeout is 0. -/
theorem profile_kept_iff (xProfile : Profile) (hfull : Full xProfile) :
    (Returned xProfile ∧ ∀ pNewPasswd, Returned { xProfile with pPasswd := pNewPasswd } →
      OnlyPasswd xProfile pNewPasswd) ↔
    Kept xProfile.pLocation.val ∧ Kept xProfile.pUserID.val ∧ Kept xProfile.pPasswd.val ∧
      xProfile.ulTimeout = 0 := by
  constructor
  · exact fun h => kept_of_returned hfull h.1
  · rintro ⟨hlocation, huserID, hpasswd, htimeout⟩
    exact ⟨returned_of_kept hfull hlocation huserID hpasswd htimeout,
      fun _ => onlyPasswd_of_kept hfull hlocation huserID hpasswd htimeout⟩

end

def office (ulTimeout : UInt32) : Profile :=
  ⟨Field.copy _ "Office".toList, Field.copy _ "admin".toList, Field.copy _ "secret12".toList,
    ulTimeout⟩

theorem office_full (ulTimeout : UInt32) : Full (office ulTimeout) where
  location := List.cons_ne_nil _ _
  userID := List.cons_ne_nil _ _
  passwd := List.cons_ne_nil _ _

/-- Settings without a timeout come back. -/
theorem office_returned : Full (office 0) ∧ Returned (office 0) :=
  ⟨office_full 0, ((profile_kept_iff (office 0) (office_full 0)).mpr
    ⟨⟨rfl, rfl, rfl⟩, ⟨rfl, rfl, rfl⟩, ⟨rfl, rfl, rfl⟩, rfl⟩).1⟩

/-- A timeout of ten minutes does not. -/
theorem timeout_lost : ¬∀ xProfile : Profile, Full xProfile →
    Returned xProfile ∧ ∀ pNewPasswd, Returned { xProfile with pPasswd := pNewPasswd } →
      OnlyPasswd xProfile pNewPasswd := by
  intro h
  have hreturned := (h (office 600) (office_full 600)).1
  have hzero := (stored_of_returned (office_full 600) hreturned).2.2.2.2
  cases hzero

end Catchb.Proofs.ProfileKept
