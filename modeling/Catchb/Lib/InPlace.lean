import Mathlib.Data.List.Basic

/-! A text that is rewritten in place: a writer follows a reader through the cells that hold it. -/

namespace Catchb.Lib

/-- `c` is the next cell that is read, `out` the next one that is written, and `reach` is one past
the last cell accessed. -/
structure InPlace (α : Type*) where
  cells : Nat → α
  c : Nat
  out : Nat
  reach : Nat

namespace InPlace
variable {α : Type*}

/-- `*c`. -/
def get (s : InPlace α) : α × InPlace α := (s.cells s.c, { s with reach := max s.reach (s.c + 1) })

/-- `++c`. -/
def skip (s : InPlace α) : InPlace α := { s with c := s.c + 1 }

/-- `*c++`. -/
def next (s : InPlace α) : α × InPlace α := (s.get.1, s.get.2.skip)

/-- `*out++ = a`. -/
def put (a : α) (s : InPlace α) : InPlace α :=
  { s with
    cells := fun i => if i = s.out then a else s.cells i
    out := s.out + 1
    reach := max s.reach (s.out + 1) }

/-- `*out++ = *c++`. -/
def copy (s : InPlace α) : InPlace α := s.next.2.put s.next.1

/-- Cells are copied up to one that ends the piece, each one that escapes its successor left
out. -/
def copyUntil (stop escape : α → Bool) (size : Nat) : Nat → InPlace α → InPlace α
  | 0, s => s
  | n + 1, s =>
    if s.c < size then
      let (a, s) := s.get
      if stop a then s
      else copyUntil stop escape size n (if escape a then s.skip else s).copy
    else s

/-- The piece at the front of a text, and what is behind it. -/
def piece (stop escape : α → Bool) : List α → List α × List α
  | [] => ([], [])
  | a :: text =>
    if stop a then ([], a :: text)
    else if escape a then
      match text with
      | [] => ([], [])
      | b :: text => (b :: (piece stop escape text).1, (piece stop escape text).2)
    else (a :: (piece stop escape text).1, (piece stop escape text).2)

theorem piece_stop {stop escape : α → Bool} {a : α} (hs : stop a = true) (text : List α) :
    piece stop escape (a :: text) = ([], a :: text) := by
  rw [piece.eq_def]
  simp [hs]

theorem piece_escape {stop escape : α → Bool} {a b : α} (hs : stop a = false)
    (he : escape a = true) (text : List α) : piece stop escape (a :: b :: text) =
      (b :: (piece stop escape text).1, (piece stop escape text).2) := by
  rw [piece.eq_def]
  simp [hs, he]

theorem piece_other {stop escape : α → Bool} {a : α} (hs : stop a = false)
    (he : escape a = false) (text : List α) : piece stop escape (a :: text) =
      (a :: (piece stop escape text).1, (piece stop escape text).2) := by
  rw [piece.eq_def]
  simp [hs, he]

/-- Where nothing is escaped a piece is what is in front of the first cell that ends it. -/
theorem piece_plain (stop : α → Bool) (text : List α) : piece stop (fun _ => false) text =
    (text.takeWhile fun a => !stop a, text.dropWhile fun a => !stop a) := by
  induction text with
  | nil => rfl
  | cons a text ih =>
    by_cases hs : stop a = true
    · simp [piece_stop hs, hs]
    · rw [Bool.not_eq_true] at hs
      rw [piece_other hs rfl, ih]
      simp [hs]

/-- The reader sees the text, and the cells behind the writer hold what it has written. -/
structure Follows (text written : List α) (s : InPlace α) : Prop where
  out : s.out = written.length
  behind : s.out ≤ s.c
  within : s.c ≤ text.length
  done : ∀ i, i < written.length → written[i]? = some (s.cells i)
  rest : ∀ i, s.c ≤ i → i < text.length → text[i]? = some (s.cells i)
  reach : s.reach ≤ text.length

variable {text written : List α} {s : InPlace α} {a : α}

theorem Follows.get (h : Follows text written s) (hc : s.c < text.length) :
    text[s.c]? = some s.get.1 ∧ Follows text written s.get.2 := by
  refine ⟨h.rest s.c (Nat.le_refl _) hc, h.out, h.behind, h.within, h.done, h.rest, ?_⟩
  exact Nat.max_le.mpr ⟨h.reach, hc⟩

theorem Follows.skip (h : Follows text written s) (hc : s.c < text.length) :
    Follows text written s.skip := by
  refine ⟨h.out, Nat.le_succ_of_le h.behind, hc, h.done, ?_, h.reach⟩
  intro i hi
  exact h.rest i (Nat.le_of_succ_le hi)

theorem Follows.put (h : Follows text written s) (hlt : s.out < s.c) (a : α) :
    Follows text (written ++ [a]) (s.put a) := by
  have hreach := Nat.lt_of_lt_of_le hlt h.within
  refine ⟨?_, hlt, h.within, ?_, ?_, Nat.max_le.mpr ⟨h.reach, hreach⟩⟩
  · simp [InPlace.put, h.out]
  · intro i hi
    simp only [List.length_append, List.length_singleton] at hi
    rcases Nat.lt_succ_iff_lt_or_eq.mp hi with hold | rfl
    · have hne : i ≠ s.out := by
        have := h.out
        omega
      simp [InPlace.put, hne, List.getElem?_append_left hold, h.done i hold]
    · simp [InPlace.put, h.out]
  · intro i hi hlen
    have hne : i ≠ s.out := by
      have hc : s.c ≤ i := hi
      omega
    simp [InPlace.put, hne, h.rest i hi hlen]

theorem Follows.copy (h : Follows text written s) (ha : text[s.c]? = some a) :
    Follows text (written ++ [a]) s.copy := by
  obtain ⟨hc, -⟩ := List.getElem?_eq_some_iff.mp ha
  obtain ⟨hget, hs⟩ := h.get hc
  obtain rfl : s.get.1 = a := Option.some.inj (hget.symm.trans ha)
  exact (hs.skip hc).put (Nat.lt_succ_of_le h.behind) _

@[simp] theorem get_c (s : InPlace α) : s.get.2.c = s.c := rfl

@[simp] theorem get_out (s : InPlace α) : s.get.2.out = s.out := rfl

@[simp] theorem skip_c (s : InPlace α) : s.skip.c = s.c + 1 := rfl

@[simp] theorem skip_out (s : InPlace α) : s.skip.out = s.out := rfl

@[simp] theorem copy_c (s : InPlace α) : s.copy.c = s.c + 1 := rfl

@[simp] theorem copy_out (s : InPlace α) : s.copy.out = s.out + 1 := rfl

@[simp] theorem put_c (a : α) (s : InPlace α) : (s.put a).c = s.c := rfl

@[simp] theorem put_out (a : α) (s : InPlace α) : (s.put a).out = s.out + 1 := rfl

theorem drop_cons (ha : text[s.c]? = some a) : text.drop s.c = a :: text.drop (s.c + 1) := by
  obtain ⟨hc, he⟩ := List.getElem?_eq_some_iff.mp ha
  rw [List.drop_eq_getElem_cons hc, he]

/-- The piece that is copied is the one in front of the reader, and the writer does not come
nearer to it. -/
theorem copyUntil_follows (stop escape : α → Bool) (n : Nat) (hn : text.length - s.c ≤ n)
    (hlast : ∀ a, text.getLast? = some a → stop a = false → escape a = false)
    (h : Follows text written s) (gap : Nat) (hgap : s.out + gap ≤ s.c) :
    let t := copyUntil stop escape text.length n s
    Follows text (written ++ (piece stop escape (text.drop s.c)).1) t ∧
      text.drop t.c = (piece stop escape (text.drop s.c)).2 ∧ t.out + gap ≤ t.c := by
  induction n generalizing s written with
  | zero =>
    have hc : s.c = text.length := Nat.le_antisymm h.within (by omega)
    simp [copyUntil, hc, piece, h, hc ▸ hgap]
  | succ n ih =>
    by_cases hc : s.c < text.length
    · obtain ⟨hget, hs⟩ := h.get hc
      simp only [copyUntil, hc, ↓reduceIte]
      rw [drop_cons hget]
      by_cases hstop : stop s.get.1 = true
      · simp [piece_stop hstop, hstop, hs, hgap, drop_cons hget]
      · rw [Bool.not_eq_true] at hstop
        simp only [hstop, Bool.false_eq_true, ↓reduceIte]
        by_cases hesc : escape s.get.1 = true
        · -- the escaped cell is inside the text, since the escape is not its last cell
          have hnext : s.c + 1 < text.length := by
            by_contra hend
            have hlen : text.length - 1 = s.c := by omega
            have hl : text.getLast? = some s.get.1 := by
              rw [List.getLast?_eq_getElem?, hlen, hget]
            simp [hlast _ hl hstop] at hesc
          obtain ⟨b, hb⟩ : ∃ b, text[s.c + 1]? = some b :=
            ⟨_, List.getElem?_eq_getElem hnext⟩
          have hskip := (hs.skip hc).copy (a := b) hb
          obtain ⟨hf, hd, hg⟩ := ih (s := s.get.2.skip.copy) (by simp; omega) hskip
            (by simp; omega)
          have hdrop : text.drop (s.c + 1) = b :: text.drop (s.c + 1 + 1) :=
            drop_cons (s := s.skip) hb
          simp only [copy_c, skip_c, get_c] at hf hd
          simp only [hesc, ↓reduceIte, hdrop, piece_escape hstop hesc]
          refine ⟨?_, hd, hg⟩
          simpa using hf
        · rw [Bool.not_eq_true] at hesc
          obtain ⟨hf, hd, hg⟩ := ih (s := s.get.2.copy) (by simp; omega) (hs.copy hget)
            (by simp; omega)
          simp only [copy_c, get_c] at hf hd
          simp only [hesc, Bool.false_eq_true, ↓reduceIte, piece_other hstop hesc]
          refine ⟨?_, hd, hg⟩
          simpa using hf
    · have hend : s.c = text.length := Nat.le_antisymm h.within (Nat.le_of_not_lt hc)
      simp [copyUntil, hend, piece, h, hend ▸ hgap]

end InPlace
end Catchb.Lib
