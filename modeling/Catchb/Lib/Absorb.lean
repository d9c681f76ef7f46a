import Mathlib.Data.List.Basic

/-! Functions of a message that go through it block by block. -/

namespace Catchb.Lib.Absorb
variable {σ α : Type*}

/-- `m` blocks of `n` elements. -/
def split (n : Nat) : Nat → List α → List (List α)
  | 0, _ => []
  | m + 1, xs => xs.take n :: split n m (xs.drop n)

/-- The whole blocks of a message. -/
def blocks (n : Nat) (xs : List α) : List (List α) := split n (xs.length / n) xs

/-- What is behind the last whole block. -/
def rest (n : Nat) (xs : List α) : List α := xs.drop (n * (xs.length / n))

/-- One more element of a block, which is compressed when it is full. -/
def push (n : Nat) (compress : σ → List α → σ) (s : σ × List α) (x : α) : σ × List α :=
  let block := s.2 ++ [x]
  if block.length = n then (compress s.1 block, []) else (s.1, block)

variable {n : Nat} {compress : σ → List α → σ} {xs ys block : List α}

theorem blocks_short (h : xs.length < n) : blocks n xs = [] := by
  rw [blocks, Nat.div_eq_of_lt h, split]

theorem rest_short (h : xs.length < n) : rest n xs = xs := by
  rw [rest, Nat.div_eq_of_lt h, Nat.mul_zero, List.drop_zero]

theorem length_append_div (hn : 0 < n) (h : block.length = n) :
    (block ++ xs).length / n = xs.length / n + 1 := by
  rw [List.length_append, h, Nat.add_comm, Nat.add_div_right _ hn]

theorem blocks_append (hn : 0 < n) (h : block.length = n) (xs : List α) :
    blocks n (block ++ xs) = block :: blocks n xs := by
  have htake : (block ++ xs).take n = block := by rw [← h, List.take_left]
  have hdrop : (block ++ xs).drop n = xs := by rw [← h, List.drop_left]
  rw [blocks, length_append_div hn h, split, htake, hdrop, blocks]

theorem rest_append (hn : 0 < n) (h : block.length = n) : rest n (block ++ xs) = rest n xs := by
  rw [rest, length_append_div hn h, Nat.mul_add, Nat.mul_one, Nat.add_comm, ← List.drop_drop]
  have hdrop : (block ++ xs).drop n = xs := by rw [← h, List.drop_left]
  rw [hdrop, rest]

theorem length_rest (hn : 0 < n) (xs : List α) : (rest n xs).length < n := by
  rw [rest, List.length_drop, ← Nat.mod_eq_sub_mul_div]
  exact Nat.mod_lt _ hn

/-- Element by element, a message leaves what its whole blocks leave. -/
theorem foldl_push (hn : 0 < n) (s : σ) {p : List α} (hp : p.length < n) (xs : List α) :
    xs.foldl (push n compress) (s, p) =
      ((blocks n (p ++ xs)).foldl compress s, rest n (p ++ xs)) := by
  induction xs generalizing s p with
  | nil => rw [List.append_nil, blocks_short hp, rest_short hp, List.foldl_nil, List.foldl_nil]
  | cons x xs ih =>
    have hsplit : p ++ x :: xs = (p ++ [x]) ++ xs := by simp
    have hnil : ([] : List α).length < n := hn
    rw [List.foldl_cons, hsplit]
    by_cases hfull : (p ++ [x]).length = n
    · have hpush : push n compress (s, p) x = (compress s (p ++ [x]), []) := if_pos hfull
      rw [hpush, ih _ hnil, blocks_append hn hfull, rest_append hn hfull]
      rfl
    · have hpush : push n compress (s, p) x = (s, p ++ [x]) := if_neg hfull
      have hlt : (p ++ [x]).length < n := by
        rw [List.length_append, List.length_singleton] at hfull ⊢
        omega
      rw [hpush, ih _ hlt]

/-- From the start of a message. -/
theorem foldl_push_nil (compress : σ → List α → σ) (hn : 0 < n) (s : σ) (xs : List α) :
    xs.foldl (push n compress) (s, []) = ((blocks n xs).foldl compress s, rest n xs) :=
  foldl_push hn s (p := []) hn xs

/-- What is behind the whole blocks goes on with the rest of the message. -/
theorem foldl_blocks_append (hn : 0 < n) (s : σ) (xs ys : List α) :
    (blocks n (xs ++ ys)).foldl compress s =
      (blocks n (rest n xs ++ ys)).foldl compress ((blocks n xs).foldl compress s) := by
  have hwhole : (xs ++ ys).foldl (push n compress) (s, []) = _ :=
    foldl_push_nil compress hn s (xs ++ ys)
  rw [List.foldl_append, foldl_push_nil compress hn s xs, foldl_push hn _ (length_rest hn xs)] at hwhole
  exact (congrArg Prod.fst hwhole).symm

end Catchb.Lib.Absorb
