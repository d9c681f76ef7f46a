import Catchb.TelnetEvents

/-! The variables of an environment and the values of a server's status are read over themselves, and
come out as they were sent. A value that is missing at the end of a status is null pointers, and a
string at its end is followed by a byte that is not there. -/

namespace Catchb.Proofs.TelnetInPlace
open Lib Telnet
open InPlace (piece Follows)

section Environ

def isEsc (byte : UInt8) : Bool := byte = environEsc

/-- What ends the name of a variable. -/
def endsName (byte : UInt8) : Bool := isVar byte || byte = environValue

theorem piece_length (stop escape : UInt8 → Bool) (text : List UInt8) :
    (piece stop escape text).2.length ≤ text.length := by
  fun_induction piece stop escape text with
  | case1 => exact Nat.le_refl _
  | case2 => exact Nat.le_refl _
  | case3 => exact Nat.zero_le _
  | case4 a hs he b text ih => exact Nat.le_succ_of_le (Nat.le_succ_of_le ih)
  | case5 a text hs he ih => exact Nat.le_succ_of_le ih

/-- The variables of a text that begins with one. -/
def vars : List UInt8 → List EnvironVar
  | [] => []
  | type :: text =>
    let name := piece endsName isEsc text
    if name.2.head? = some environValue then
      let value := piece isVar isEsc name.2.tail
      ⟨type, string name.1, string value.1⟩ :: vars value.2
    else ⟨type, string name.1, []⟩ :: vars name.2
termination_by text => text.length
decreasing_by
  · have hname := piece_length endsName isEsc text
    have hvalue := piece_length isVar isEsc (piece endsName isEsc text).2.tail
    simp only [List.length_tail] at hvalue
    simp only [List.length_cons]
    omega
  · have hname := piece_length endsName isEsc text
    simp only [List.length_cons]
    omega

variable {text written : List UInt8} {s : InPlace UInt8} {c : UInt8}

theorem environCount_var (h : isVar c = true) (text : List UInt8) :
    environCount (c :: text) = environCount text + 1 := by
  cases text with
  | nil => simp [environCount, h]
  | cons next rest => simp [environCount, h]

theorem environCount_other (h : isVar c = false) (he : c ≠ environEsc) (text : List UInt8) :
    environCount (c :: text) = environCount text := by
  cases text with
  | nil => simp [environCount, h]
  | cons next rest => simp [environCount, h, he]

theorem environCount_esc (next : UInt8) (rest : List UInt8) :
    environCount (environEsc :: next :: rest) = environCount rest := by
  rw [environCount, if_neg (by decide), if_pos rfl]

theorem environCount_last : environCount [environEsc] = 0 := rfl

/-- No variable begins in a piece. -/
theorem environCount_piece (stop : UInt8 → Bool) (hstop : ∀ c, isVar c = true → stop c = true)
    (text : List UInt8) : environCount (piece stop isEsc text).2 = environCount text := by
  fun_induction piece stop isEsc text with
  | case1 => rfl
  | case2 => rfl
  | case3 a hs he =>
    obtain rfl : a = environEsc := by simpa [isEsc] using he
    exact environCount_last.symm
  | case4 a hs he b text ih =>
    obtain rfl : a = environEsc := by simpa [isEsc] using he
    rw [ih, environCount_esc]
  | case5 a text hs he ih =>
    have hvar : isVar a = false := Bool.eq_false_iff.mpr fun hv => hs (hstop a hv)
    have hesc : a ≠ environEsc := by simpa [isEsc] using he
    rw [ih, environCount_other hvar hesc]

theorem environCount_tail (h : text.head? = some environValue) :
    environCount text.tail = environCount text := by
  obtain ⟨tail, rfl⟩ := List.head?_eq_some_iff.mp h
  exact (environCount_other rfl (by decide) tail).symm

/-- What is left behind a piece begins with what ends it. -/
theorem piece_head (stop escape : UInt8 → Bool) (text : List UInt8) :
    ∀ c, (piece stop escape text).2.head? = some c → stop c = true := by
  fun_induction piece stop escape text with
  | case1 => simp
  | case2 a text hs =>
    rintro c hc
    obtain rfl : a = c := by simpa using hc
    exact hs
  | case3 => simp
  | case4 a hs he b text ih => exact ih
  | case5 a text hs he ih => exact ih

theorem string_append (name rest : List UInt8) : string (name ++ 0 :: rest) = string name := by
  induction name with
  | nil => simp [string]
  | cons c name ih =>
    unfold string at ih ⊢
    by_cases hc : c = 0
    · simp [hc]
    · simpa [hc] using ih

/-- A string that has been written, whatever is written behind it. -/
theorem stringAt_written {pre name post : List UInt8} {off size : Nat}
    (h : Follows text (pre ++ (name ++ 0 :: post)) s) (hoff : off = pre.length)
    (hsize : size = text.length) : stringAt size s off = string name := by
  have hlen : pre.length + (name.length + (post.length + 1)) ≤ size := by
    have hout := h.out
    have hbehind := h.behind
    have hwithin := h.within
    simp only [List.length_append, List.length_cons] at hout
    omega
  have hread : Circular.read s.cells off size = (name ++ [0]) ++
      Circular.read s.cells (off + (name ++ [0]).length) (size - (name ++ [0]).length) := by
    have hsplit : size = (name ++ [0]).length + (size - (name ++ [0]).length) := by
      simp only [List.length_append, List.length_singleton]
      omega
    have hhead : Circular.read s.cells off (name ++ [0]).length = name ++ [0] := by
      apply List.ext_getElem?
      intro i
      by_cases hi : i < (name ++ [0]).length
      · have hdone := h.done (off + i) (by
          simp only [List.length_append, List.length_cons, List.length_nil] at hi ⊢
          omega)
        rw [hoff, List.getElem?_append_right (by omega), Nat.add_sub_cancel_left,
          show name ++ 0 :: post = (name ++ [0]) ++ post by simp,
          List.getElem?_append_left hi] at hdone
        have hi' : i < name.length + 1 := by simpa using hi
        simp [Circular.read, hdone, hoff, List.getElem?_range hi']
      · have hi' : (name ++ [0]).length ≤ i := Nat.le_of_not_lt hi
        rw [List.getElem?_eq_none hi', List.getElem?_eq_none (by simpa [Circular.read] using hi')]
    conv_lhs => rw [hsplit]
    rw [← hhead]
    simp [Circular.read, List.range_add, Nat.add_assoc]
  rw [stringAt, hread, List.append_assoc]
  exact string_append name _

theorem piece_end {stop : UInt8 → Bool} (hlast : text.getLast? ≠ some environEsc) :
    ∀ a, text.getLast? = some a → stop a = false → isEsc a = false := by
  intro a ha _
  have hne : a ≠ environEsc := by
    rintro rfl
    exact hlast ha
  simpa [isEsc] using hne

/-- A string is copied and ended, and leaves room for what ends the next one. -/
theorem string_follows (stop : UInt8 → Bool) (hlast : text.getLast? ≠ some environEsc)
    (h : Follows text written s) (hgap : s.out + 2 ≤ s.c) :
    let t := (s.copyUntil stop isEsc text.length text.length).put 0
    let r := piece stop isEsc (text.drop s.c)
    Follows text (written ++ (r.1 ++ [0])) t ∧ text.drop t.c = r.2 ∧ t.out + 1 ≤ t.c := by
  obtain ⟨hf, hd, hg⟩ := InPlace.copyUntil_follows stop isEsc text.length (Nat.sub_le _ _)
    (piece_end hlast) h 2 hgap
  have hput := hf.put (by omega) 0
  rw [List.append_assoc] at hput
  refine ⟨hput, hd, ?_⟩
  simp only [InPlace.put_out, InPlace.put_c]
  omega

theorem vars_value {type : UInt8} (h : (piece endsName isEsc text).2.head? = some environValue) :
    vars (type :: text) =
      ⟨type, string (piece endsName isEsc text).1,
        string (piece isVar isEsc (piece endsName isEsc text).2.tail).1⟩ ::
      vars (piece isVar isEsc (piece endsName isEsc text).2.tail).2 := by
  rw [vars]
  simp [h]

theorem vars_other {type : UInt8} (h : (piece endsName isEsc text).2.head? ≠ some environValue) :
    vars (type :: text) = ⟨type, string (piece endsName isEsc text).1, []⟩ ::
      vars (piece endsName isEsc text).2 := by
  rw [vars]
  simp [h]

theorem head_cell (h : Follows text written s) (hc : s.c < text.length) :
    (text.drop s.c).head? = some s.get.1 := by
  rw [List.head?_drop, (h.get hc).1]

theorem environLoop_vars (count : Nat) (h : Follows text written s) (hgap : s.out + 1 ≤ s.c)
    (hlast : text.getLast? ≠ some environEsc)
    (hhead : ∀ c, (text.drop s.c).head? = some c → isVar c = true)
    (hcount : environCount (text.drop s.c) = count) :
    let r := environLoop text.length count s
    (∃ new, Follows text (written ++ new) r.2) ∧
      environValues text.length r.2 r.1 = vars (text.drop s.c) := by
  induction count generalizing s written with
  | zero =>
    have hnil : text.drop s.c = [] := by
      cases hd : text.drop s.c with
      | nil => rfl
      | cons c rest =>
        rw [hd] at hcount hhead
        rw [environCount_var (hhead c rfl)] at hcount
        cases hcount
    rw [hnil, vars]
    exact ⟨⟨[], by simpa [environLoop] using h⟩, rfl⟩
  | succ count ih =>
    have hc : s.c < text.length := by
      by_contra hend
      rw [List.drop_eq_nil_of_le (Nat.le_of_not_lt hend)] at hcount
      cases hcount
    obtain ⟨hget, hs⟩ := h.get hc
    have hnext := hs.skip hc
    have hdrop := InPlace.drop_cons hget
    rw [hdrop] at hhead hcount ⊢
    rw [environCount_var (hhead _ rfl)] at hcount
    obtain ⟨hname, hrest, hroom⟩ := string_follows endsName hlast hnext
      (by simp only [InPlace.skip_out, InPlace.get_out, InPlace.skip_c, InPlace.get_c]; omega)
    simp only [InPlace.skip_c, InPlace.get_c] at hrest hname hroom
    generalize hu : (s.get.2.skip.copyUntil endsName isEsc text.length text.length).put 0 = u at *
    have hcounted := environCount_piece endsName (by simp [endsName]; tauto) (text.drop (s.c + 1))
    by_cases hval : u.c < text.length ∧ u.get.1 = environValue
    · obtain ⟨hcu, hvalue⟩ := hval
      have hfirst : (piece endsName isEsc (text.drop (s.c + 1))).2.head? = some environValue := by
        rw [← hrest, head_cell hname hcu, hvalue]
      obtain ⟨hgetu, hus⟩ := hname.get hcu
      have htail : text.drop (u.c + 1) = (piece endsName isEsc (text.drop (s.c + 1))).2.tail := by
        rw [← hrest, List.tail_drop]
      obtain ⟨hvals, hrest', hroom'⟩ := string_follows isVar hlast (hus.skip hcu)
        (by simp only [InPlace.skip_out, InPlace.get_out, InPlace.skip_c, InPlace.get_c]; omega)
      simp only [InPlace.skip_c, InPlace.get_c, htail] at hrest' hvals hroom'
      generalize hv : (u.get.2.skip.copyUntil isVar isEsc text.length text.length).put 0 = v at *
      have hloop : environLoop text.length (count + 1) s =
          ((s.get.1, s.out, some u.out) :: (environLoop text.length count v).1,
            (environLoop text.length count v).2) := by
        subst hu hv
        rw [environLoop]
        exact if_pos ⟨hcu, hvalue⟩
      obtain ⟨⟨new, hnew⟩, hvars⟩ := ih hvals hroom'
        (by rw [hrest']; exact piece_head isVar isEsc _)
        (by rw [hrest', environCount_piece isVar (fun c => id), environCount_tail hfirst]; omega)
      rw [hrest'] at hvars
      rw [hloop, vars_value hfirst]
      refine ⟨⟨_, by simpa only [List.append_assoc] using hnew⟩, ?_⟩
      simp only [List.append_assoc, List.singleton_append] at hnew
      have hnamed := stringAt_written hnew h.out rfl
      have hnew' := hnew
      rw [← List.singleton_append, ← List.append_assoc, ← List.append_assoc] at hnew'
      have hvalued := stringAt_written (by simpa using hnew') hname.out rfl
      simp only [environValues] at hvars ⊢
      simp only [List.map_cons, hvars, hnamed, Option.map_some, hvalued, Option.getD_some]
    · have hfirst : (piece endsName isEsc (text.drop (s.c + 1))).2.head? ≠ some environValue := by
        rw [← hrest]
        intro hhead'
        have hcu : u.c < text.length := by
          by_contra hend
          rw [List.drop_eq_nil_of_le (Nat.le_of_not_lt hend)] at hhead'
          cases hhead'
        rw [head_cell hname hcu] at hhead'
        exact hval ⟨hcu, Option.some.inj hhead'⟩
      generalize hv : (if u.c < text.length then u.get.2 else u) = v
      have hv' : Follows text (written ++ ((piece endsName isEsc (text.drop (s.c + 1))).1 ++ [0])) v ∧
          v.c = u.c ∧ v.out = u.out := by
        subst hv
        split
        · rename_i hcu
          exact ⟨(hname.get hcu).2, rfl, rfl⟩
        · exact ⟨hname, rfl, rfl⟩
      obtain ⟨hfollows, hvc, hvout⟩ := hv'
      have hloop : environLoop text.length (count + 1) s =
          ((s.get.1, s.out, none) :: (environLoop text.length count v).1,
            (environLoop text.length count v).2) := by
        subst hu hv
        rw [environLoop]
        exact if_neg hval
      rw [← hvc] at hrest
      obtain ⟨⟨new, hnew⟩, hvars⟩ := ih hfollows (by omega)
        (by
          intro c hc
          have hends := piece_head endsName isEsc _ c (hrest ▸ hc)
          have hne : c ≠ environValue := by
            rintro rfl
            exact hfirst (hrest ▸ hc)
          simpa [endsName, hne] using hends)
        (by rw [hrest, hcounted]; omega)
      rw [hrest] at hvars
      rw [hloop, vars_other hfirst]
      refine ⟨⟨_, by simpa only [List.append_assoc] using hnew⟩, ?_⟩
      simp only [List.append_assoc, List.singleton_append] at hnew
      have hnamed := stringAt_written hnew h.out rfl
      simp only [environValues] at hvars ⊢
      simp only [List.map_cons, hvars, hnamed, Option.map_none, Option.getD_none]

/-- What a subnegotiation of an environment says. -/
def environEvents (type : UInt8) : List UInt8 → List Event
  | [] => []
  | c :: text =>
    if c ≠ environSend ∧ c ≠ environIs ∧ c ≠ environInfo then
      [teloptWarning type " subneg has invalid command".toList]
    else if text = [] then [.environ c []]
    else if !isVar (text.headD 0) then [teloptWarning type " subneg missing variable type".toList]
    else if text.getLast? = some environEsc then
      [teloptWarning type " subneg ends with ESC".toList]
    else [.environ c (vars text)]

theorem reader_follows (c : UInt8) (text : List UInt8) :
    Follows (c :: text) [] (reader (c :: text) 1) := by
  refine ⟨rfl, Nat.zero_le _, by simp [reader], by simp, ?_, by simp [reader]⟩
  intro i _ hi
  simp [reader, List.getElem?_eq_getElem hi]

/-- The strings that are written over the buffer are those of the variables in it, and no cell
behind it is accessed. -/
theorem environ_in_place (type : UInt8) (buffer : List UInt8) :
    (environTelnet type buffer).events = environEvents type buffer ∧
      (environTelnet type buffer).reach ≤ buffer.length := by
  cases buffer with
  | nil => exact ⟨rfl, Nat.le_refl _⟩
  | cons c text =>
    simp only [environTelnet, environEvents]
    by_cases hc : c ≠ environSend ∧ c ≠ environIs ∧ c ≠ environInfo
    · simp [hc]
    cases text with
    | nil => simp [hc]
    | cons v text =>
      by_cases hvar : isVar v = true
      · have hend : (c :: v :: text).getLast? = (v :: text).getLast? := List.getLast?_cons_cons
        by_cases hesc : (v :: text).getLast? = some environEsc
        · simp [hc, hvar, hend, hesc]
        · have hfollows := reader_follows c (v :: text)
          obtain ⟨⟨new, hnew⟩, hvars⟩ := environLoop_vars (environCount (v :: text)) hfollows
            (Nat.le_refl _) (hend ▸ hesc) (by simpa [reader] using hvar) rfl
          have hdrop : (c :: v :: text).drop (reader (c :: v :: text) 1).c = v :: text := rfl
          rw [hdrop] at hvars
          have hreach := hnew.reach
          simp only [List.length_cons] at hreach hvars
          simp [hc, hvar, hend, hesc, hvars, hreach]
      · simp [hc, hvar]

end Environ

section Mssp

def nextString (text : List UInt8) : List UInt8 × List UInt8 :=
  piece msspMarker (fun _ => false) text

theorem nextString_length (text : List UInt8) : (nextString text).2.length ≤ text.length :=
  piece_length _ _ text

/-- The values of a text whose first string has a type, behind a variable. -/
def pairs (var : List UInt8) (type : UInt8) : List UInt8 → List (List UInt8 × List UInt8)
  | [] => []
  | c :: text =>
    let next := nextString (c :: text)
    if type = msspVar then pairs next.1 (next.2.headD 0) next.2.tail
    else (string var, string next.1) :: pairs var (next.2.headD 0) next.2.tail
termination_by text => text.length
decreasing_by
  all_goals
    have hlen := nextString_length (c :: text)
    simp only [List.length_tail, List.length_cons] at hlen ⊢
    omega

variable {text written : List UInt8} {s : InPlace UInt8} {c type : UInt8}

theorem marker_cases (h : msspMarker c = true) : c = msspVar ∨ c = msspVal := by
  simpa [msspMarker] using h

/-- The byte behind a string begins the next one. -/
theorem next_marker (text : List UInt8) (h : (nextString text).2 ≠ []) :
    msspMarker ((nextString text).2.headD 0) = true := by
  obtain ⟨c, rest, hr⟩ := List.exists_cons_of_ne_nil h
  have hhead : (nextString text).2.head? = some c := by rw [hr, List.head?_cons]
  rw [hr]
  exact piece_head msspMarker _ text c hhead

/-- A string with nothing behind it has no marker in it. -/
theorem last_string (h : (nextString text).2 = []) :
    ∀ a ∈ text, msspMarker a = false := by
  rw [nextString, InPlace.piece_plain] at h
  simpa using h

/-- The variable that waits for values, as it is written. -/
def Waits (written : List UInt8) (var : List UInt8) (type : UInt8) (off : Option Nat) : Prop :=
  type = msspVal → ∃ pre post, off = some pre.length ∧ written = pre ++ (var ++ 0 :: post)

/-- What the loop leaves: the strings, and one byte too many that it has read if it has read a string
at the end. -/
structure Leaves (text written : List UInt8) (var : List UInt8) (type : UInt8)
    (s : InPlace UInt8) (r : Option (List (Nat × Nat)) × InPlace UInt8) : Prop where
  values : ∃ values, r.1 = some values ∧ values.map (fun v =>
      (stringAt text.length r.2 v.1, stringAt text.length r.2 v.2)) = pairs var type (text.drop s.c)
  cells : ∃ new f, Follows text (written ++ new) f ∧ f.cells = r.2.cells
  reach : r.2.reach ≤ text.length + 1
  past : r.2.reach = text.length + 1 ↔
    text.drop s.c ≠ [] ∧ ∃ last, text.getLast? = some last ∧ msspMarker last = false

theorem msspLoop_done (type : UInt8) (n : Nat) (off : Option Nat) (h : ¬s.c < text.length) :
    msspLoop text.length n off type s = (some [], s) := by
  cases n with
  | zero => rfl
  | succ n => rw [msspLoop, if_neg h]

theorem done_leaves (n : Nat) {var : List UInt8} {off : Option Nat} (h : Follows text written s)
    (hc : ¬s.c < text.length) :
    Leaves text written var type s (msspLoop text.length n off type s) := by
  rw [msspLoop_done type n off hc]
  have hdrop : text.drop s.c = [] := List.drop_eq_nil_of_le (Nat.le_of_not_lt hc)
  have hreach := h.reach
  refine ⟨⟨[], rfl, by rw [hdrop, pairs]; rfl⟩, ⟨[], s, by simpa using h, rfl⟩,
    Nat.le_succ_of_le hreach, ?_⟩
  constructor
  · intro he
    exact absurd (he ▸ hreach) (Nat.not_succ_le_self _)
  · rintro ⟨hne, -⟩
    exact absurd hdrop hne

/-- A string is copied and ended, and the reader is not behind the writer. -/
theorem nextString_follows (h : Follows text written s) (hgap : s.out + 1 ≤ s.c) :
    let t := (s.copyUntil msspMarker (fun _ => false) text.length text.length).put 0
    let r := nextString (text.drop s.c)
    Follows text (written ++ (r.1 ++ [0])) t ∧ text.drop t.c = r.2 ∧ t.out ≤ t.c := by
  obtain ⟨hf, hd, hg⟩ := InPlace.copyUntil_follows msspMarker (fun _ => false) text.length
    (Nat.sub_le _ _) (fun _ _ _ => rfl) h 1 hgap
  have hput := hf.put hg 0
  rw [List.append_assoc] at hput
  exact ⟨hput, hd, hg⟩

theorem pairs_var (var : List UInt8) (h : text ≠ []) : pairs var msspVar text =
    pairs (nextString text).1 ((nextString text).2.headD 0) (nextString text).2.tail := by
  obtain ⟨c, rest, rfl⟩ := List.exists_cons_of_ne_nil h
  rw [pairs]
  simp

theorem pairs_val (var : List UInt8) (h : text ≠ []) : pairs var msspVal text =
    (string var, string (nextString text).1) ::
      pairs var ((nextString text).2.headD 0) (nextString text).2.tail := by
  obtain ⟨c, rest, rfl⟩ := List.exists_cons_of_ne_nil h
  rw [pairs]
  simp [show msspVal ≠ msspVar by decide]

/-- The last string of a text that has no marker in it behind the reader. -/
theorem last_leaves {var str : List UInt8} {u : InPlace UInt8} (values : List (Nat × Nat))
    (h : Follows text (written ++ (str ++ [0])) u) (hc : s.c < text.length)
    (hend : u.c = text.length) (hrest : (nextString (text.drop s.c)).2 = [])
    (hvalues : values.map (fun v => (stringAt text.length u v.1, stringAt text.length u v.2)) =
      pairs var type (text.drop s.c)) :
    Leaves text written var type s (some values, u.next.2) := by
  have hdrop : text.drop s.c ≠ [] := by
    rw [ne_eq, List.drop_eq_nil_iff]
    exact Nat.not_le.mpr hc
  have hreach : u.next.2.reach = text.length + 1 := by
    have hle := h.reach
    change max u.reach (u.c + 1) = _
    omega
  refine ⟨⟨values, rfl, hvalues⟩, ⟨str ++ [0], u, h, rfl⟩, Nat.le_of_eq hreach, ?_⟩
  refine iff_of_true hreach ⟨hdrop, ?_⟩
  obtain ⟨last, hlast⟩ : ∃ last, (text.drop s.c).getLast? = some last :=
    ⟨_, List.getLast?_eq_some_getLast hdrop⟩
  refine ⟨last, ?_, last_string hrest last (List.mem_of_getLast? hlast)⟩
  rw [List.getLast?_drop] at hlast
  simpa [Nat.not_le.mpr hc] using hlast

/-- The strings behind the marker that follows a string. -/
theorem more_leaves {var var' str : List UInt8} {u : InPlace UInt8} {v : Option (Nat × Nat)}
    {r : Option (List (Nat × Nat)) × InPlace UInt8}
    (hc : s.c < text.length) (hu : u.c < text.length)
    (hmarker : msspMarker u.get.1 = true)
    (hr : Leaves text (written ++ (str ++ [0])) var' u.get.1 u.next.2 r)
    (hget : text[u.c]? = some u.get.1)
    (hvalues : pairs var type (text.drop s.c) =
      (v.map fun v => (stringAt text.length r.2 v.1, stringAt text.length r.2 v.2)).toList ++
        pairs var' u.get.1 (text.drop (u.c + 1))) :
    Leaves text written var type s (r.1.map (v.toList ++ ·), r.2) := by
  obtain ⟨⟨values, hsome, hmap⟩, ⟨new, f, hf, hcells⟩, hreach, hover⟩ := hr
  refine ⟨⟨v.toList ++ values, by rw [hsome]; rfl, ?_⟩, ⟨str ++ [0] ++ new, f, ?_, hcells⟩, hreach,
    hover.trans ?_⟩
  · rw [List.map_append, hmap, hvalues]
    cases v <;> rfl
  · simpa using hf
  · have hdrop : text.drop s.c ≠ [] := by
      rw [ne_eq, List.drop_eq_nil_iff]
      exact Nat.not_le.mpr hc
    refine and_congr_left fun ⟨last, hlast, hplain⟩ => iff_of_true ?_ hdrop
    intro hnil
    have hlen : text.length - 1 = u.c := by
      have hle := List.drop_eq_nil_iff.mp hnil
      change text.length ≤ u.c + 1 at hle
      omega
    rw [List.getLast?_eq_getElem?, hlen, hget] at hlast
    obtain rfl := Option.some.inj hlast
    simp [hplain] at hmarker

theorem stringAt_cells {f : InPlace UInt8} (h : f.cells = s.cells) (size off : Nat) :
    stringAt size s off = stringAt size f off := by
  rw [stringAt, stringAt, h]

theorem msspLoop_leaves (n : Nat) (hn : text.length - s.c ≤ n) (h : Follows text written s)
    (hgap : s.out + 1 ≤ s.c) (htype : msspMarker type = true) {var : List UInt8}
    {off : Option Nat} (hw : Waits written var type off) :
    Leaves text written var type s (msspLoop text.length n off type s) := by
  induction n generalizing s written type var off with
  | zero => exact done_leaves 0 h (by omega)
  | succ n ih =>
    by_cases hc : s.c < text.length
    · obtain ⟨hfollows, hrest, hroom⟩ := nextString_follows h hgap
      have hne : text.drop s.c ≠ [] := by
        rw [ne_eq, List.drop_eq_nil_iff]
        exact Nat.not_le.mpr hc
      rw [msspLoop, if_pos hc]
      generalize hu : (s.copyUntil msspMarker (fun _ => false) text.length text.length).put 0 = u at *
      by_cases hmore : u.c < text.length
      · -- another string follows
        obtain ⟨hget, hnext⟩ := hfollows.get hmore
        have hcons : (nextString (text.drop s.c)).2 = u.get.1 :: text.drop (u.c + 1) := by
          rw [← hrest, InPlace.drop_cons hget]
        have hmarker : msspMarker u.get.1 = true := by
          have hm := next_marker (text.drop s.c) (by simp [hcons])
          simpa [hcons] using hm
        have hlen := nextString_length (text.drop s.c)
        rw [← hrest, List.length_drop, List.length_drop] at hlen
        have hless : text.length - u.next.2.c ≤ n := by
          change text.length - (u.c + 1) ≤ n
          omega
        rcases marker_cases htype with rfl | rfl
        · have hw' : Waits (written ++ ((nextString (text.drop s.c)).1 ++ [0]))
              (nextString (text.drop s.c)).1 u.get.1 (some s.out) :=
            fun _ => ⟨written, [], by rw [h.out], rfl⟩
          have hr := ih hless (hnext.skip hmore) (Nat.succ_le_succ hroom) hmarker hw'
          have hvalues := pairs_var var hne
          rw [hcons] at hvalues
          have hall := more_leaves (v := none) hc hmore hmarker hr hget hvalues
          simp only [Option.toList_none, List.nil_append, Option.map_id'] at hall
          exact hall
        · obtain ⟨pre, post, rfl, hwritten⟩ := hw rfl
          have hw' : Waits (written ++ ((nextString (text.drop s.c)).1 ++ [0])) var u.get.1
              (some pre.length) :=
            fun _ => ⟨pre, post ++ ((nextString (text.drop s.c)).1 ++ [0]), rfl, by simp [hwritten]⟩
          have hr := ih hless (hnext.skip hmore) (Nat.succ_le_succ hroom) hmarker hw'
          obtain ⟨new, f, hf, hcells⟩ := hr.cells
          have hvar : stringAt text.length f pre.length = string var :=
            stringAt_written (by simpa [hwritten] using hf) rfl rfl
          have hstr : stringAt text.length f s.out = string (nextString (text.drop s.c)).1 :=
            stringAt_written (by simpa using hf) h.out rfl
          have hvalues := pairs_val var hne
          rw [hcons, ← hvar, ← hstr, ← stringAt_cells hcells, ← stringAt_cells hcells] at hvalues
          exact more_leaves (v := some (pre.length, s.out)) hc hmore hmarker hr hget hvalues
      · have hend : u.c = text.length := Nat.le_antisymm hfollows.within (Nat.le_of_not_lt hmore)
        have hnil : (nextString (text.drop s.c)).2 = [] := by
          rw [← hrest, hend, List.drop_length]
        have hover : ¬u.next.2.c < text.length := by
          change ¬u.c + 1 < text.length
          omega
        rcases marker_cases htype with rfl | rfl
        · have hvalues := pairs_var var hne
          rw [hnil, List.tail_nil, pairs] at hvalues
          have hlast := last_leaves [] hfollows hc hend hnil hvalues.symm
          rwa [← msspLoop_done u.get.1 n (some s.out) hover] at hlast
        · obtain ⟨pre, post, rfl, hwritten⟩ := hw rfl
          have hvar : stringAt text.length u pre.length = string var :=
            stringAt_written (by simpa [hwritten] using hfollows) rfl rfl
          have hstr : stringAt text.length u s.out = string (nextString (text.drop s.c)).1 :=
            stringAt_written hfollows h.out rfl
          have hvalues := pairs_val var hne
          rw [hnil, List.tail_nil, pairs, ← hvar, ← hstr] at hvalues
          have hlast := last_leaves [(pre.length, s.out)] hfollows hc hend hnil
            hvalues.symm
          have hdone := msspLoop_done u.get.1 n (some pre.length) hover
          change Leaves text written var msspVal s
            ((msspLoop text.length n (some pre.length) u.get.1 u.next.2).1.map
              ((pre.length, s.out) :: ·),
            (msspLoop text.length n (some pre.length) u.get.1 u.next.2).2)
          rwa [hdone]
    · exact done_leaves (n + 1) h hc

theorem nextString_append (text : List UInt8) :
    (nextString text).1 ++ (nextString text).2 = text := by
  rw [nextString, InPlace.piece_plain]
  exact List.takeWhile_append_dropWhile

theorem nextString_plain (text : List UInt8) :
    ∀ a ∈ (nextString text).1, msspMarker a = false := by
  intro a ha
  rw [nextString, InPlace.piece_plain] at ha
  simpa using List.mem_takeWhile_imp ha

/-- The markers of a text are those behind its first string. -/
theorem count_next (text : List UInt8) : text.count msspVal =
    (if (nextString text).2.headD 0 = msspVal then 1 else 0) +
      (nextString text).2.tail.count msspVal := by
  have hnone : (nextString text).1.count msspVal = 0 := by
    refine List.count_eq_zero.mpr fun hm => ?_
    simpa [msspMarker] using nextString_plain text msspVal hm
  conv_lhs => rw [← nextString_append text, List.count_append, hnone]
  cases (nextString text).2 with
  | nil => rfl
  | cons marker rest =>
    by_cases hm : marker = msspVal
    · simp [hm, Nat.add_comm]
    · simp [hm]

theorem last_next (type : UInt8) (h : text ≠ []) :
    (type :: text).getLast? = some msspVal ↔
      ((nextString text).2.headD 0 :: (nextString text).2.tail).getLast? = some msspVal := by
  have hcons : (type :: text).getLast? = text.getLast? := by
    obtain ⟨c, rest, rfl⟩ := List.exists_cons_of_ne_nil h
    exact List.getLast?_cons_cons
  rw [hcons]
  cases hr : (nextString text).2 with
  | nil =>
    refine iff_of_false (fun hlast => ?_) (by decide)
    have hplain := last_string hr msspVal (List.mem_of_getLast? hlast)
    simp [msspMarker] at hplain
  | cons marker rest =>
    have happend := nextString_append text
    rw [hr] at happend
    rw [← happend, List.getLast?_append_of_ne_nil _ (List.cons_ne_nil marker rest)]
    rfl

theorem next_type (text : List UInt8) : (nextString text).2.headD 0 = msspVar ∨
    (nextString text).2.headD 0 = msspVal ∨ (nextString text).2.tail = [] := by
  by_cases h : (nextString text).2 = []
  · simp [h]
  · rcases marker_cases (next_marker text h) with hm | hm
    · exact .inl hm
    · exact .inr (.inl hm)

/-- A value is missing when its marker is the last byte. -/
theorem pairs_count (var : List UInt8) (type : UInt8) (text : List UInt8)
    (htype : type = msspVar ∨ type = msspVal ∨ text = []) :
    (if type = msspVal then 1 else 0) + text.count msspVal = (pairs var type text).length +
      (if (type :: text).getLast? = some msspVal then 1 else 0) := by
  fun_induction pairs var type text with
  | case1 var type => simp
  | case2 var c text next ih =>
    have hrest := ih (next_type (c :: text))
    rw [← count_next] at hrest
    simp only [last_next msspVar (List.cons_ne_nil c text), Nat.zero_add,
      show msspVar ≠ msspVal by decide, ↓reduceIte]
    exact hrest
  | case3 var type c text next hvar ih =>
    have hrest := ih (next_type (c :: text))
    obtain rfl : type = msspVal := by simpa [hvar] using htype
    rw [← count_next] at hrest
    simp only [last_next msspVal (List.cons_ne_nil c text), List.length_cons, ↓reduceIte, next]
      at hrest ⊢
    omega

/-- The values are those of the text, and null pointers for one whose marker is the last byte. The
byte behind the buffer is read exactly when no marker is the last byte. -/
theorem mssp_in_place (text : List UInt8) :
    let r := msspTelnet (msspVar :: text)
    let missing := if text.getLast? = some msspVal then [none] else []
    r.events = [.mssp ((pairs [] msspVar text).map some ++ missing)] ∧
      r.reach ≤ text.length + 2 ∧
      (r.reach = text.length + 2 ↔
        ∃ last, text.getLast? = some last ∧ msspMarker last = false) := by
  have hfollows := reader_follows msspVar text
  have hw : Waits [] [] msspVar none := fun h => absurd h (by decide)
  obtain ⟨⟨values, hsome, hmap⟩, -, hreach, hover⟩ :=
    msspLoop_leaves (msspVar :: text).length (Nat.sub_le _ _) hfollows (Nat.le_refl _) rfl hw
  have hdrop : (msspVar :: text).drop (reader (msspVar :: text) 1).c = text := rfl
  rw [hdrop] at hmap hover
  have hcount := pairs_count [] msspVar text (.inl rfl)
  have hlast : ∀ p : UInt8, p ≠ msspVar →
      ((msspVar :: text).getLast? = some p ↔ text.getLast? = some p) := by
    intro p hp
    cases text with
    | nil => simp [Ne.symm hp]
    | cons c rest => rw [List.getLast?_cons_cons]
  have hlen : values.length = (pairs [] msspVar text).length := by rw [← hmap, List.length_map]
  generalize hr : msspLoop (msspVar :: text).length (msspVar :: text).length none msspVar
    (reader (msspVar :: text) 1) = r at hsome hmap hreach hover
  obtain ⟨found, s⟩ := r
  obtain rfl : found = some values := hsome
  have htelnet : msspTelnet (msspVar :: text) =
      ⟨false, Circular.read s.cells 0 (msspVar :: text).length,
        max (msspVar :: text).length s.reach,
        [.mssp (msspValues (msspVar :: text).length ((msspVar :: text).count msspVal) s values)]⟩ := by
    rw [msspTelnet]
    simp only [List.getD_cons_zero, hr]
    rfl
  have hvalues : msspValues (msspVar :: text).length ((msspVar :: text).count msspVal) s values =
      (pairs [] msspVar text).map some ++
        if text.getLast? = some msspVal then [none] else [] := by
    have hmissing : (msspVar :: text).count msspVal - values.length =
        if text.getLast? = some msspVal then 1 else 0 := by
      simp only [hlast msspVal (by decide), show msspVar ≠ msspVal by decide, ↓reduceIte] at hcount
      rw [List.count_cons_of_ne (by decide), hlen]
      omega
    rw [msspValues, hmissing, ← hmap, List.map_map]
    congr 1
    split <;> rfl
  rw [htelnet, hvalues]
  refine ⟨rfl, ?_⟩
  simp only [List.length_cons] at hreach hover ⊢
  refine ⟨by omega, ?_⟩
  constructor
  · intro he
    obtain ⟨hne, last, hl, hplain⟩ := hover.mp (by omega)
    have hne' : last ≠ msspVar := by
      rintro rfl
      simp [msspMarker] at hplain
    exact ⟨last, (hlast last hne').mp hl, hplain⟩
  · rintro ⟨last, hl, hplain⟩
    have hne : text ≠ [] := by
      rintro rfl
      cases hl
    have hne' : last ≠ msspVar := by
      rintro rfl
      simp [msspMarker] at hplain
    have hread := hover.mpr ⟨hne, last, (hlast last hne').mpr hl, hplain⟩
    omega

end Mssp

end Catchb.Proofs.TelnetInPlace
