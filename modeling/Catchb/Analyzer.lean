import Catchb.Lib.Keyed
import Catchb.Types

/-! The list of camera IDs that the analyzer walks. -/

namespace Catchb.Analyzer
open Lib

/-- IDs are compared without regard to case here, and with regard to it in the camera list. -/
def key (id : ID) : Text := lower id.val

def attach (list : List ID) (id : ID) (allocID appendID : Bool) : Ret × List ID :=
  match Keyed.get key (key id) list with
  | some _ => (.ok, list)
  | none =>
    if !allocID then (.objectNotFound, list)
    else if !appendID then (.notEnoughMemory, list)
    else (.ok, list ++ [id])

def detach (list : List ID) (id : ID) : Ret × List ID :=
  match Keyed.get key (key id) list with
  | none => (.objectNotFound, list)
  | some _ => (.ok, Keyed.discard key (key id) list)

variable {list : List ID} {id : ID}

theorem attach_found {allocID appendID : Bool} (h : key id ∈ list.map key) :
    attach list id allocID appendID = (.ok, list) := by
  obtain ⟨x, hx⟩ := Option.isSome_iff_exists.mp (Keyed.get_isSome_iff_mem.mpr h)
  simp [attach, hx]

theorem attach_new (h : key id ∉ list.map key) :
    attach list id true true = (.ok, list ++ [id]) := by
  simp [attach, Keyed.get_eq_none_iff_not_mem.mpr h]

theorem detach_list : (detach list id).2 = Keyed.discard key (key id) list := by
  unfold detach
  split
  · rename_i h
    exact (Keyed.discard_of_get_none h).symm
  · rfl

end Catchb.Analyzer
