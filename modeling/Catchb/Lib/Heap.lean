import Mathlib.Data.List.Perm.Basic
import Mathlib.Data.List.Nodup
import Mathlib.Logic.Function.Basic

/-! Memory that is handed out in blocks, and the blocks that one list owns. -/

namespace Catchb.Lib

/-- `allocated` are the blocks that are handed out. `fault` is set once any other block is used or
given back. -/
structure Heap (π β : Type*) where
  memory : π → β
  allocated : List π
  fault : Bool

namespace Heap
variable {π β : Type*}

/-- The blocks are those that are handed out, each listed once, and nothing else was used. -/
structure Owns (h : Heap π β) (ps : List π) : Prop where
  blocks : ps.Perm h.allocated
  distinct : ps.Nodup
  sound : h.fault = false

variable {h : Heap π β} {p : π} {ps qs : List π} {b : β}

theorem Owns.mem_allocated (ho : Owns h ps) (hp : p ∈ ps) : p ∈ h.allocated :=
  ho.blocks.mem_iff.mp hp

theorem Owns.perm (ho : Owns h ps) (hp : ps.Perm qs) : Owns h qs :=
  ⟨hp.symm.trans ho.blocks, hp.nodup_iff.mp ho.distinct, ho.sound⟩

variable [DecidableEq π]

/-- An answer that is handed out already stands for no memory, like none. -/
def malloc (h : Heap π β) (answer : Option π) : Option (π × Heap π β) :=
  match answer with
  | none => none
  | some p => if p ∈ h.allocated then none else some (p, { h with allocated := p :: h.allocated })

def touch (h : Heap π β) (p : π) : Heap π β :=
  if p ∈ h.allocated then h else { h with fault := true }

def write (h : Heap π β) (p : π) (b : β) : Heap π β :=
  { h.touch p with memory := Function.update h.memory p b }

def free (h : Heap π β) (p : π) : Heap π β :=
  if p ∈ h.allocated then { h with allocated := h.allocated.erase p } else { h with fault := true }

theorem Owns.touch (ho : Owns h ps) (hp : p ∈ ps) : h.touch p = h :=
  if_pos (ho.mem_allocated hp)

theorem Owns.write (ho : Owns h ps) (hp : p ∈ ps) : Owns (h.write p b) ps := by
  rw [Heap.write, ho.touch hp]
  exact ⟨ho.blocks, ho.distinct, ho.sound⟩

@[simp] theorem memory_write : (h.write p b).memory = Function.update h.memory p b := rfl

theorem Owns.malloc {answer : Option π} (ho : Owns h ps) (hm : (h.malloc answer).isSome) :
    ∃ p h', h.malloc answer = some (p, h') ∧ p ∉ ps ∧ Owns h' (ps ++ [p]) ∧
      h'.memory = h.memory := by
  cases answer with
  | none => cases hm
  | some p =>
    by_cases hp : p ∈ h.allocated
    · rw [Heap.malloc, if_pos hp] at hm
      cases hm
    · have hnew : p ∉ ps := fun hmem => hp (ho.mem_allocated hmem)
      refine ⟨p, { h with allocated := p :: h.allocated }, if_neg hp, hnew, ⟨?_, ?_, ho.sound⟩, rfl⟩
      · exact (List.perm_append_singleton p ps).trans (ho.blocks.cons p)
      · exact (List.perm_append_singleton p ps).nodup_iff.mpr
          (List.nodup_cons.mpr ⟨hnew, ho.distinct⟩)

theorem Owns.free (ho : Owns h ps) (hp : p ∈ ps) : Owns (h.free p) (ps.erase p) := by
  rw [Heap.free, if_pos (ho.mem_allocated hp)]
  exact ⟨ho.blocks.erase p, ho.distinct.erase p, ho.sound⟩

@[simp] theorem memory_free : (h.free p).memory = h.memory := by
  unfold Heap.free
  split <;> rfl

/-- A block that is given back once is not handed out afterwards. -/
theorem not_mem_allocated_free (hn : h.allocated.Nodup) : p ∉ (h.free p).allocated := by
  unfold Heap.free
  split
  · exact hn.not_mem_erase
  · assumption

/-- A block that is given back again stays what it is. -/
theorem not_mem_allocated_free_again (hp : p ∉ h.allocated) : p ∉ (h.free p).allocated := by
  rw [Heap.free, if_neg hp]
  exact hp

/-- What a list of blocks holds, after one that is not in it was written. -/
theorem map_update {f : π → β} (hp : p ∉ ps) : ps.map (Function.update f p b) = ps.map f := by
  apply List.map_congr_left
  intro q hq
  rw [Function.update_of_ne]
  rintro rfl
  exact hp hq

end Heap
end Catchb.Lib
