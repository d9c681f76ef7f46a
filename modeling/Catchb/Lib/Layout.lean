import Mathlib.Data.List.Basic

/-! The sizes of C's types, on a machine of 32 bits. -/

namespace Catchb.Lib

structure CType where
  size : Nat
  align : Nat
  aligned : 0 < align

namespace CType

def char : CType := ⟨1, 1, by decide⟩
def uint16 : CType := ⟨2, 2, by decide⟩
def uint32 : CType := ⟨4, 4, by decide⟩
def long : CType := ⟨4, 4, by decide⟩
def double : CType := ⟨8, 8, by decide⟩

/-- With no elements, a flexible array member: it still aligns what it is in. -/
def array (t : CType) (n : Nat) : CType := ⟨t.size * n, t.align, t.aligned⟩

def roundUp (n a : Nat) : Nat := n + (a - n % a) % a

/-- Where fields end that are laid from `n` on. -/
def fieldsEnd (n : Nat) : List CType → Nat
  | [] => n
  | t :: ts => fieldsEnd (roundUp n t.align + t.size) ts

def maxAlign : List CType → Nat
  | [] => 1
  | t :: ts => max t.align (maxAlign ts)

theorem maxAlign_pos (ts : List CType) : 0 < maxAlign ts := by
  induction ts with
  | nil => exact Nat.one_pos
  | cons t ts ih => exact Nat.lt_of_lt_of_le ih (Nat.le_max_right _ _)

def struct (ts : List CType) : CType :=
  ⟨roundUp (fieldsEnd 0 ts) (maxAlign ts), maxAlign ts, maxAlign_pos ts⟩

theorem le_roundUp (n a : Nat) : n ≤ roundUp n a := Nat.le_add_right _ _

theorem le_fieldsEnd (n : Nat) (ts : List CType) : n ≤ fieldsEnd n ts := by
  induction ts generalizing n with
  | nil => exact Nat.le_refl n
  | cons t ts ih =>
    calc n ≤ roundUp n t.align := le_roundUp _ _
      _ ≤ roundUp n t.align + t.size := Nat.le_add_right _ _
      _ ≤ fieldsEnd (roundUp n t.align + t.size) ts := ih _

/-- A structure has room for its first field. -/
theorem head_le_struct (t : CType) (ts : List CType) : t.size ≤ (struct (t :: ts)).size := by
  have hend : t.size ≤ fieldsEnd 0 (t :: ts) := by
    apply Nat.le_trans _ (le_fieldsEnd _ ts)
    exact Nat.le_add_left _ _
  exact Nat.le_trans hend (le_roundUp _ _)

end CType
end Catchb.Lib
