import Catchb.Capture

/-! Whether the filter of a camera's packets fits the buffer that it is printed to. -/

namespace Catchb.Proofs.FilterFits
open Lib CaptureFilter

/-- With its terminator the expression fits 512 characters. -/
def Fits (xConfig : AnalyzerConfig) (pIP : IP) (pLocalIP : Text) : Prop :=
  (pOptions xConfig pIP pLocalIP).length + 1 ≤ 512

/-- The digits of the ports. -/
def digits : List UInt16 → Nat
  | [] => 0
  | p :: ports => (decimal p.toNat).length + digits ports

/-- What the ports leave room for in the addresses. -/
def Room (ports : List UInt16) (addresses : Nat) : Prop :=
  if ports = [] then addresses ≤ 473 else addresses + 13 * ports.length + digits ports ≤ 454

section
variable {ports : List UInt16}

/-- The ports behind the first one. -/
theorem length_later (ports : List UInt16) {k : Nat} (hk : 0 < k) :
    ((ports.zipIdx k).flatMap port).length = 13 * ports.length + digits ports := by
  induction ports generalizing k with
  | nil => rfl
  | cons p ports ih =>
    have hword : (" || src port ".toList).length = 13 := rfl
    have hport : (port (p, k)).length = 13 + (decimal p.toNat).length := by
      rw [port, if_neg (Nat.ne_of_gt hk), List.length_append, hword]
    rw [List.zipIdx_cons, List.flatMap_cons, List.length_append, hport, ih (Nat.succ_pos k),
      digits, List.length_cons]
    omega

theorem length_first (p : UInt16) (ports : List UInt16) :
    ((p :: ports).zipIdx.flatMap port).length =
      9 + 13 * ports.length + digits (p :: ports) := by
  have hword : ("src port ".toList).length = 9 := rfl
  have hport : (port (p, 0)).length = 9 + (decimal p.toNat).length := by
    rw [port, if_pos rfl, List.length_append, hword]
  have hlater : ((ports.zipIdx (0 + 1)).flatMap port).length = 13 * ports.length + digits ports :=
    length_later ports (Nat.succ_pos 0)
  rw [List.zipIdx_cons, List.flatMap_cons, List.length_append, hport, hlater, digits]
  omega

theorem length_ports (pPortList : PortList) : (CaptureFilter.ports pPortList).length =
    if pPortList.val = [] then 0
    else 19 + 13 * pPortList.val.length + digits pPortList.val := by
  have htcp : (" || (ip proto 6 && (".toList).length = 20 := rfl
  have hend : (" ))".toList).length = 3 := rfl
  unfold CaptureFilter.ports
  cases hlist : pPortList.val with
  | nil => rfl
  | cons p ports =>
    have hne : (p :: ports).length ≠ 0 := Nat.succ_ne_zero _
    rw [if_pos hne, if_neg (List.cons_ne_nil p ports), List.length_append, List.length_append,
      htcp, hend, length_first, List.length_cons]
    omega

theorem length_pOptions (xConfig : AnalyzerConfig) (pIP : IP) (pLocalIP : Text) :
    (pOptions xConfig pIP pLocalIP).length = 38 + (pIP.val.length + pLocalIP.length) +
      (CaptureFilter.ports xConfig.pPortList).length := by
  have hsrc : ("src host ".toList).length = 9 := rfl
  have hdst : (" && dst host ".toList).length = 13 := rfl
  have hicmp : (" && (ip proto 1".toList).length = 15 := rfl
  have hclose : (")".toList).length = 1 := rfl
  unfold pOptions
  generalize "src host ".toList = src at hsrc
  generalize " && dst host ".toList = dst at hdst
  generalize " && (ip proto 1".toList = icmp at hicmp
  generalize ")".toList = close at hclose
  simp only [List.length_append, hsrc, hdst, hicmp, hclose]
  omega

/-- The expression fits exactly if its ports and addresses are short enough together. -/
theorem filter_fits_iff (xConfig : AnalyzerConfig) (pIP : IP) (pLocalIP : Text) :
    Fits xConfig pIP pLocalIP ↔
      Room xConfig.pPortList.val (pIP.val.length + pLocalIP.length) := by
  unfold Fits Room
  rw [length_pOptions, length_ports]
  split <;> omega

end

/-- A configuration with as many ports as it can hold, of five digits each. -/
def crowded : Json := .object [("port".toList, .array (List.replicate 32 (.number 65535)))]

/-- It is loaded, and then the filter does not fit, however short the addresses are. -/
theorem crowded_overflows : ∃ xConfig, AnalyzerConfig.default.load crowded = some xConfig ∧
    ∀ pIP pLocalIP, ¬Fits xConfig pIP pLocalIP := by
  refine ⟨_, rfl, fun pIP pLocalIP h => ?_⟩
  have hports : (CaptureFilter.ports (AnalyzerConfig.ports (List.replicate 32
      (.number 65535)))).length = 595 := by
    rw [length_ports]
    rfl
  unfold Fits at h
  rw [length_pOptions, hports] at h
  omega

end Catchb.Proofs.FilterFits
