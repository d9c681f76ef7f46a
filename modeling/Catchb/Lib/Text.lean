import Mathlib.Data.List.Basic
import Mathlib.Data.List.TakeWhile

namespace Catchb.Lib

/-- A C string, without its terminator. -/
abbrev Text := List Char

instance instLawfulBEqText : LawfulBEq Text := inferInstance

/-- What a `char x[n+1]` array holds: a string of at most `n` characters. -/
abbrev Field (n : Nat) := {t : Text // t.length ≤ n}

namespace Field
variable {n : Nat}

def empty (n : Nat) : Field n := ⟨[], Nat.zero_le n⟩

/-- `strncpy(x, t, n)` into a zeroed array of `n+1` characters. -/
def copy (n : Nat) (t : Text) : Field n := ⟨t.take n, List.length_take_le n t⟩

/-- A copy between arrays of one length loses nothing. -/
@[simp] theorem copy_val (t : Field n) : copy n t.val = t :=
  Subtype.ext (List.take_of_length_le t.property)

end Field

def lower (t : Text) : Text := t.map Char.toLower

@[simp] theorem length_lower (t : Text) : (lower t).length = t.length := by simp [lower]

/-- `strcasecmp(a, b) == 0`. -/
def strcasecmp (a b : Text) : Bool := lower a == lower b

@[simp] theorem strcasecmp_iff {a b : Text} : strcasecmp a b = true ↔ lower a = lower b := by
  simp [strcasecmp]

@[simp] theorem strcasecmp_false_iff {a b : Text} :
    strcasecmp a b = false ↔ lower a ≠ lower b := by
  simp [strcasecmp]

/-- `strncmp(a, b, n) == 0`. -/
def strncmp (n : Nat) (a b : Text) : Bool := a.take n == b.take n

theorem strncmp_iff {n : Nat} {a b : Text} (ha : a.length ≤ n) (hb : b.length ≤ n) :
    strncmp n a b = true ↔ a = b := by
  simp [strncmp, List.take_of_length_le ha, List.take_of_length_le hb]

/-- `%d`. -/
def decimal : Int → Text
  | .ofNat n => Nat.toDigits 10 n
  | .negSucc n => '-' :: Nat.toDigits 10 (n + 1)

/-- `strstr(t, s) != NULL`. -/
def strstr (t s : Text) : Bool := t.tails.any (fun u => s.isPrefixOf u)

/-- The tokens that repeated `strtok` calls return. -/
def strtok (sep : Char) (t : Text) : List Text := (t.splitOn sep).filter (fun w => w ≠ [])

theorem mem_intercalate {c : Char} (sep : Text) {w : Text} {ws : List Text} (hw : w ∈ ws) (hc : c ∈ w) :
    c ∈ sep.intercalate ws := by
  induction ws with
  | nil => cases hw
  | cons v vs ih =>
    cases vs with
    | nil =>
      rw [List.mem_singleton] at hw
      rw [List.intercalate_singleton]
      exact hw ▸ hc
    | cons u us =>
      rw [List.intercalate_cons_cons]
      rcases List.mem_cons.mp hw with rfl | hw
      · exact List.mem_append_left _ (List.mem_append_left _ hc)
      · exact List.mem_append_right _ (ih hw)

theorem mem_of_mem_strtok {c sep : Char} {t w : Text} (hw : w ∈ strtok sep t) (hc : c ∈ w) :
    c ∈ t := by
  have hsplit : w ∈ t.splitOn sep := (List.mem_filter.mp hw).1
  have hm := mem_intercalate [sep] hsplit hc
  rwa [List.intercalate_splitOn] at hm

theorem not_mem_of_mem_splitOn {sep : Char} {t w : Text} (hw : w ∈ t.splitOn sep) : sep ∉ w := by
  induction t generalizing w with
  | nil => simp_all
  | cons c t ih =>
    rw [List.splitOn_cons_eq_if_modifyHead] at hw
    split at hw
    · rcases List.mem_cons.mp hw with rfl | hw
      · exact List.not_mem_nil
      · exact ih hw
    · rename_i hc
      cases hsplit : t.splitOn sep with
      | nil => simp [hsplit] at hw
      | cons v vs =>
        rw [hsplit, List.modifyHead_cons] at hw
        rcases List.mem_cons.mp hw with rfl | hw
        · have hv := ih (hsplit ▸ List.mem_cons_self)
          have hne : sep ≠ c := fun h => hc (beq_iff_eq.mpr h.symm)
          exact List.not_mem_cons_of_ne_of_not_mem hne hv
        · exact ih (hsplit ▸ List.mem_cons_of_mem _ hw)

/-- The string that begins at some address. -/
def cstr (mem : List Char) : Text := mem.takeWhile (fun c => c ≠ '\x00')

/-- Copying a token and what follows it in its buffer, `n` characters in all. What is
behind the token's terminator is never read again. -/
def memcpy (n : Nat) (mem : List Char) (token : Text) : List Char :=
  let copied := (token ++ ['\x00']).take n
  copied ++ mem.drop copied.length

theorem not_mem_cstr (mem : List Char) : '\x00' ∉ cstr mem := by
  intro h
  simpa using List.mem_takeWhile_imp h

theorem cstr_append {t : Text} (ht : '\x00' ∉ t) (mem : List Char) :
    cstr (t ++ mem) = t ++ cstr mem := by
  apply List.takeWhile_append_of_pos
  intro c hc
  have hne : c ≠ '\x00' := fun h => ht (h ▸ hc)
  simpa using hne

/-- A shorter token is copied with its terminator. -/
theorem cstr_memcpy_short {n : Nat} {token : Text} (mem : List Char) (h0 : '\x00' ∉ token)
    (hn : token.length < n) : cstr (memcpy n mem token) = token := by
  have ht : (token ++ ['\x00']).take n = token ++ ['\x00'] :=
    List.take_of_length_le (by rw [List.length_append, List.length_singleton]; exact hn)
  rw [memcpy, ht, List.append_assoc, cstr_append h0]
  simp [cstr]

/-- A longer one without: the string goes on with what the memory held. -/
theorem cstr_memcpy_long {n : Nat} {token : Text} (mem : List Char) (h0 : '\x00' ∉ token)
    (hn : n ≤ token.length) :
    cstr (memcpy n mem token) = token.take n ++ cstr (mem.drop n) := by
  have ht : (token ++ ['\x00']).take n = token.take n := List.take_append_of_le_length hn
  have hl : (token.take n).length = n := List.length_take_of_le hn
  rw [memcpy, ht, hl, cstr_append (fun h => h0 (List.mem_of_mem_take h))]

/-- `strncpy(x, t, n)`, where `mem` is the memory from `x` on. A shorter text is filled up with
zeros. -/
def strncpy (n : Nat) (mem : List Char) (t : Text) : List Char :=
  t.take n ++ List.replicate (n - t.length) '\x00' ++ mem.drop n

theorem cstr_strncpy {n : Nat} {t : Text} (mem : List Char) (h0 : '\x00' ∉ t)
    (hn : t.length < n) : cstr (strncpy n mem t) = t := by
  obtain ⟨k, rfl⟩ : ∃ k, n = t.length + (k + 1) := ⟨n - t.length - 1, by omega⟩
  rw [strncpy, List.take_of_length_le (by omega), Nat.add_sub_cancel_left, List.append_assoc,
    cstr_append h0]
  simp [cstr, List.replicate_succ]

/-- The strings that repeated `fgets` calls with a buffer of `size` characters return;
`line` is what the present one has read. -/
def fgets (size : Nat) (line : Text) : List Char → List Text
  | [] => if line = [] then [] else [line]
  | c :: rest =>
    let line := line ++ [c]
    if c = '\n' ∨ size ≤ line.length + 1 then line :: fgets size [] rest
    else fgets size line rest

/-- What is read is part of the input. -/
theorem infix_of_mem_fgets {size : Nat} {line l : Text} {s : List Char} (h : l ∈ fgets size line s) :
    l <:+: line ++ s := by
  induction s generalizing line with
  | nil =>
    unfold fgets at h
    split at h
    · cases h
    · rw [List.mem_singleton] at h
      simp [h]
  | cons c s ih =>
    unfold fgets at h
    simp only at h
    have hmore : line ++ c :: s = (line ++ [c]) ++ s := by simp
    rw [hmore]
    split at h
    · rcases List.mem_cons.mp h with rfl | h
      · exact (List.prefix_append _ _).isInfix
      · exact (ih h).trans (List.suffix_append _ _).isInfix
    · exact ih h

/-- A line ends with its newline. -/
theorem fgets_line {size : Nat} {line e : Text} (he : '\n' ∉ e) (s : List Char) :
    fgets size line (e ++ '\n' :: s) = fgets size line (e ++ ['\n']) ++ fgets size [] s := by
  induction e generalizing line with
  | nil => simp [fgets]
  | cons c e ih =>
    have hrest : '\n' ∉ e := fun h => he (List.mem_cons_of_mem _ h)
    simp only [List.cons_append, fgets, ih hrest]
    split <;> rfl

end Catchb.Lib
