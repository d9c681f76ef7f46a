import Catchb.LinkedList

/-! The list as the threads share it, with its semaphore. -/

namespace Catchb

/-- What an operation does to the semaphore, in order. -/
inductive SemCall
  | wait
  | post
  deriving DecidableEq

/-- The semaphore's value after the calls. `none` is a wait that does not return. -/
def SemCall.run : Nat → List SemCall → Option Nat
  | n, [] => some n
  | 0, .wait :: _ => none
  | n + 1, .wait :: calls => run n calls
  | n, .post :: calls => run (n + 1) calls

/-- The operations that take the semaphore, with what `malloc` answers. -/
inductive ListCall (δ κ : Type)
  | seek (pKey : κ)
  | append (pItem : δ) (answer : Ptr)
  | insert (pItem : δ) (xPos : ListPos) (answer : Ptr)
  | remove (pItem : δ)
  | removeAt (ulPosition : UInt32)
  | get (pKey : κ)
  | getAt (ulPosition : UInt32)
  | iteratorStart
  | iteratorNext

/-- What an operation returns, what it writes to `ppElement`, the list that it leaves and its calls
on the semaphore. -/
structure Returned (δ κ : Type) where
  xRet : Ret
  pElement : Option δ
  list : IterList δ κ
  sem : List SemCall

namespace IterList
variable {δ κ : Type}

def seek (l : IterList δ κ) (pKey : κ) : Option Ret :=
  match l.fSeeker with
  | none => some .objectNotFound
  | some seek =>
    (l.scan (fun d => d.any (fun e => seek e pKey)) FtmList.fuel (l.pNext l.xHead)).map
      (fun pEntry => if pEntry = l.xHead then .objectNotFound else .ok)

/-- The way to the end of an operation. -/
def finish (l : IterList δ κ) (pElement : Option δ) (result : Ret × FtmList δ κ) : Returned δ κ :=
  ⟨result.1, pElement, { l with toFtmList := result.2 }, [.wait, .post]⟩

/-- Only an insertion that finds no place returns before the end. -/
def call [DecidableEq δ] (l : IterList δ κ) : ListCall δ κ → Option (Returned δ κ)
  | .seek pKey => (l.seek pKey).map (fun xRet => l.finish none (xRet, l.toFtmList))
  | .append pItem answer => some (l.finish none (l.append pItem answer))
  | .insert pItem xPos answer =>
    match l.pPrevOf pItem xPos with
    | .error xRet => some ⟨xRet, none, l, [.wait]⟩
    | .ok pPrev => pPrev.map (fun p => l.finish none (l.insertBehind p pItem answer))
  | .remove pItem => (l.remove pItem).map (l.finish none)
  | .removeAt ulPosition => (l.removeAt ulPosition).map (l.finish none)
  | .get pKey => (l.get pKey).map (fun r => l.finish r.2 (r.1, l.toFtmList))
  | .getAt ulPosition => (l.getAt ulPosition).map (fun r => l.finish r.2 (r.1, l.toFtmList))
  | .iteratorStart => some ⟨.ok, none, l.iteratorStart, [.wait, .post]⟩
  | .iteratorNext =>
    let r := l.iteratorNext
    some ⟨r.1.1, r.1.2, r.2, [.wait, .post]⟩

end IterList

/-- `xLock` is the semaphore's value. -/
structure SharedList (δ κ : Type) extends IterList δ κ where
  xLock : Nat

namespace SharedList
variable {δ κ : Type}

def init (l : SharedList δ κ) : SharedList δ κ :=
  { l with toFtmList := l.toFtmList.init, bIterator := false, xLock := 1 }

/-- An operation that waits for the semaphore for ever does not return. -/
def call [DecidableEq δ] (l : SharedList δ κ) (op : ListCall δ κ) :
    Option (Returned δ κ × SharedList δ κ) := do
  let r ← l.toIterList.call op
  let xLock ← SemCall.run l.xLock r.sem
  some (r, { r.list with xLock })

def step [DecidableEq δ] (l : SharedList δ κ) (op : ListCall δ κ) : SharedList δ κ :=
  ((l.call op).map Prod.snd).getD l

end SharedList
end Catchb
