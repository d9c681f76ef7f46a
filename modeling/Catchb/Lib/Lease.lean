import Mathlib.Data.List.Chain
import Mathlib.Data.List.Nodup
import Mathlib.Logic.Function.Basic

/-! Leases that run out when they are not renewed, found to have run out only when they are
asked for. -/

namespace Catchb.Lib.Lease
variable {κ : Type*}

/-- A renewal has the time it is asked for and the time it takes effect. -/
inductive Event (κ : Type*)
  | grant (k : κ) (time : Nat)
  | renew (k : κ) (asked renewed : Nat)
  | revoke (k : κ)

/-- The times that the leases which are there last began at. -/
abbrev Leases (κ : Type*) := κ → Option Nat

def none : Leases κ := fun _ => .none

section
variable [DecidableEq κ] (timeout : Nat)

/-- The renewal of one lease. -/
def renewed (asked renewed : Nat) : Option Nat → Option Nat
  | .none => .none
  | some t => if asked ≤ t + timeout then some renewed else .none

def step (s : Leases κ) : Event κ → Leases κ
  | .grant k t => Function.update s k (some t)
  | .renew k asked t => Function.update s k (renewed timeout asked t (s k))
  | .revoke k => Function.update s k .none

def run (es : List (Event κ)) : Leases κ := es.foldl (step timeout) none

/-- A renewal asked for now would be granted. -/
def Current (s : Leases κ) (k : κ) (now : Nat) : Prop := ∃ t, s k = some t ∧ now ≤ t + timeout

def grants (es : List (Event κ)) : List κ :=
  es.filterMap (fun | .grant k _ => some k | _ => .none)

def renewals (k : κ) (es : List (Event κ)) : List (Nat × Nat) :=
  es.filterMap (fun
    | .renew j asked renewed => if j = k then some (asked, renewed) else .none
    | _ => .none)

/-- Each is asked for within the timeout of the one before. -/
def Unbroken : List (Nat × Nat) → Prop := List.IsChain (fun a b => b.1 ≤ a.2 + timeout)

/-- Granted, not revoked since, and asked for without a gap until now. -/
def Live (es : List (Event κ)) (k : κ) (now : Nat) : Prop :=
  ∃ pre t post, es = pre ++ .grant k t :: post ∧ .revoke k ∉ post ∧
    Unbroken timeout ((t, t) :: (renewals k post ++ [(now, now)]))

end

variable {timeout : Nat} {s : Leases κ} {k : κ} {es post : List (Event κ)} {e : Event κ} {t now : Nat}

variable [DecidableEq κ]

end Catchb.Lib.Lease
