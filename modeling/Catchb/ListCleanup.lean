import Catchb.FtmShell

/-! The loops that remove items of a list while they iterate over it. -/

namespace Catchb
open Lib

/-- What a loop visited and what it removed, and the list that it leaves. -/
structure Cleanup (δ κ : Type) where
  visited : List δ
  removed : List δ
  list : IterList δ κ

namespace IterList
variable {δ κ : Type} [DecidableEq δ]

/-- A turn of the loop, and whether it removed its item. -/
def removeVisited (drop : δ → Bool) (l : IterList δ κ) (pItem : δ) : Option (Bool × IterList δ κ) :=
  if drop pItem then
    (l.remove pItem).map (fun (xRet, list) => (xRet = .ok, { l with toFtmList := list }))
  else some (false, l)

/-- The loop behind `FTM_LIST_iteratorStart`, which removes the items to `drop`. `none` is a loop
that has not ended. -/
def removeLoop (drop : δ → Bool) : Nat → IterList δ κ → Option (Cleanup δ κ)
  | 0, _ => none
  | n + 1, l =>
    match l.iteratorNext with
    | ((.ok, some pItem), l) => do
      let (removed, l) ← l.removeVisited drop pItem
      let rest ← removeLoop drop n l
      let removed := if removed then pItem :: rest.removed else rest.removed
      some ⟨pItem :: rest.visited, removed, rest.list⟩
    | (_, list) => some ⟨[], [], list⟩

end IterList

namespace FtmList
variable {δ κ : Type}

/-- The loop of `FTM_LIST_final`, with what it leaves allocated. -/
def freeFrom (l : FtmList δ κ) : Nat → Ptr → List Ptr → Option (List Ptr)
  | 0, _, _ => none
  | n + 1, p, allocated =>
    if p = l.xHead then some allocated else freeFrom l n (l.pNext p) (allocated.erase p)

def final (l : FtmList δ κ) : Option (FtmList δ κ) :=
  (l.freeFrom fuel (l.pNext l.xHead) l.allocated).map
    (fun allocated => { l.init with allocated })

end FtmList

/-- The commands are removed and freed, and then the list. The iterator's flag before its start
is not used. -/
def FtmShell.final (pShell : FtmShell) : Option FtmShell := do
  let l : IterList CmdEntry Text := { pShell.pCmdList with bIterator := false }
  let r ← l.iteratorStart.removeLoop (fun _ => true) FtmList.fuel
  let pCmdList ← r.list.final
  some ⟨pCmdList, (r.removed.map CmdEntry.address).foldl List.erase pShell.allocated⟩

end Catchb
