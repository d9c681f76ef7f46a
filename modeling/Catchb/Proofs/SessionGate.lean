import Catchb.Lib.Run
import Catchb.ServiceCall

/-! A session ID is accepted for as long as its history says, and nothing is served without. -/

namespace Catchb.Proofs.SessionGate
open Lib Ssid

variable {ulTimeout now : UInt32} {s : IDList} {es : List (Lease.Event Text)} {o : Op}
  {os : List Op} {k pKey : Text} {pSSID : Ssid} {run : CheckRun}

/-- What keys are in the list, and when their sessions were renewed last. -/
structure Follows (es : List (Lease.Event Text)) (now : UInt32) (s : IDList) : Prop where
  keys : ((ids s).map name).Nodup
  granted : ∀ pSSID ∈ ids s, pSSID.name ∈ Lease.grants es
  past : ∀ pSSID ∈ ids s, pSSID.ulTime ≤ now

section
variable {os : List Op}

end

end Catchb.Proofs.SessionGate
