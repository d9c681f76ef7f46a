import Catchb.StringCalls
import Mathlib.Data.List.Basic

/-! Which strings of a body stay in the arrays that they are copied into. -/

namespace Catchb.Proofs.StringFits
open Lib StringCall

variable {call : StringCall} {pRoot : Json} {pValue : Text}

theorem strcpy_overrun (pValue t : Text) :
    (Stored.strcpy pValue t).overrun = [] ↔ t.length < pValue.length := by
  simp only [Stored.strcpy, List.drop_eq_nil_iff, List.length_append, List.length_singleton]
  exact Nat.succ_le_iff

/-- A string that is copied into its array is read from it. -/
theorem strcpy_reads {t : Text} (hlen : t.length < pValue.length) (hnul : ∀ c ∈ t, c ≠ '\x00') :
    (Stored.strcpy pValue t).pValue.takeWhile (· ≠ '\x00') = t := by
  have hbytes : (t ++ ['\x00']).take pValue.length = t ++ ['\x00'] := by
    apply List.take_of_length_le
    rw [List.length_append]
    exact hlen
  have hall : ∀ c ∈ t, (decide (c ≠ '\x00')) = true := fun c hc => decide_eq_true (hnul c hc)
  simp only [Stored.strcpy]
  rw [hbytes, List.append_assoc, List.takeWhile_append_of_pos hall]
  simp

/-- Nothing is written behind the array. A string that is too long for it, with its NUL, is refused,
and the array is what it was. -/
structure Fits (call : StringCall) (pRoot : Json) (pValue : Text) : Prop where
  inside : (call.getString pRoot pValue).overrun = []
  refused : ∀ t, pRoot.getObjectItem call.pTitle = some (.string t) → call.size < t.length + 1 →
    call.getString pRoot pValue = ⟨retInvalidArguments, pValue, []⟩

/-- The strings that a call copies, although its array is too short. -/
def TooLong (call : StringCall) (t : Text) : Prop :=
  call.size ≤ t.length ∧ t.length ≤ call.ulMaxLen

theorem getString_string {t : Text} (ht : pRoot.getObjectItem call.pTitle = some (.string t)) :
    call.getString pRoot pValue =
      if t.length > call.ulMaxLen then ⟨retInvalidArguments, pValue, []⟩
      else .strcpy pValue t := by
  rw [StringCall.getString, ht]

theorem getString_other (h : ∀ t, pRoot.getObjectItem call.pTitle ≠ some (.string t)) :
    (call.getString pRoot pValue).overrun = [] := by
  unfold StringCall.getString
  cases hitem : pRoot.getObjectItem call.pTitle with
  | none => rfl
  | some item =>
    cases item with
    | string t => exact absurd hitem (h t)
    | _ => rfl

/-- One call, whatever its numbers are. -/
theorem call_fits (hsize : pValue.length = call.size) : Fits call pRoot pValue ↔
    ∀ t, pRoot.getObjectItem call.pTitle = some (.string t) → ¬ TooLong call t := by
  constructor
  · intro h t ht hlong
    have hinside := h.inside
    rw [getString_string ht, if_neg (Nat.not_lt.mpr hlong.2), strcpy_overrun, hsize] at hinside
    exact absurd hinside (Nat.not_lt.mpr hlong.1)
  · intro h
    constructor
    · by_cases hstring : ∃ t, pRoot.getObjectItem call.pTitle = some (.string t)
      · obtain ⟨t, ht⟩ := hstring
        rw [getString_string ht]
        by_cases hmax : t.length > call.ulMaxLen
        · rw [if_pos hmax]
        · rw [if_neg hmax, strcpy_overrun, hsize]
          exact Nat.lt_of_not_le fun hle => h t ht ⟨hle, Nat.le_of_not_lt hmax⟩
      · exact getString_other (fun t ht => hstring ⟨t, ht⟩)
    · intro t ht hlong
      have hmax : t.length > call.ulMaxLen := by
        by_contra hle
        exact h t ht ⟨Nat.le_of_lt_succ hlong, Nat.le_of_not_lt hle⟩
      rw [getString_string ht, if_pos hmax]

/-- The string in an array. -/
def text (pValue : Text) : Text := pValue.takeWhile (· ≠ '\x00')

/-- Where the string fits, the array is left with what the reading of the body gives. -/
theorem getString_reads (h : Fits call pRoot pValue) (hsize : pValue.length = call.size)
    (hnul : ∀ t, pRoot.getObjectItem call.pTitle = some (.string t) → ∀ c ∈ t, c ≠ '\x00') :
    ⟨(call.getString pRoot pValue).xRet, text (call.getString pRoot pValue).pValue⟩ =
      pRoot.getString call.pTitle call.ulMaxLen call.bEmptyAllow (text pValue) := by
  have hfits := (call_fits hsize).mp h
  unfold StringCall.getString Json.getString Json.missing
  cases hitem : pRoot.getObjectItem call.pTitle with
  | none => cases call.bEmptyAllow <;> rfl
  | some item =>
    cases item with
    | string t =>
      by_cases hmax : t.length > call.ulMaxLen
      · simp only [if_pos hmax]
      · have hlen : t.length < pValue.length := by
          rw [hsize]
          exact Nat.lt_of_not_le fun hle => hfits t hitem ⟨hle, Nat.le_of_not_lt hmax⟩
        simp only [if_neg hmax, text, strcpy_reads hlen (hnul t hitem)]
        rfl
    | _ => rfl

/-- The calls whose maximum is not less than the size of the array. Most of them pass the size. -/
def wideCalls : List StringCall :=
  [⟨"cmd".toList, 33, false, 33⟩,
   ⟨"server".toList, 257, true, 257⟩, ⟨"userid".toList, 65, true, 65⟩,
   ⟨"passwd".toList, 33, true, 33⟩, ⟨"sender".toList, 33, true, 33⟩,
   ⟨"userid".toList, 64, true, 33⟩, ⟨"userid".toList, 64, false, 33⟩,
   ⟨"type".toList, 256, false, 256⟩, ⟨"policy".toList, 256, false, 256⟩]

theorem filter_stringCalls :
    stringCalls.filter (fun call => call.size ≤ call.ulMaxLen) = wideCalls := rfl

theorem mem_wideCalls (hcall : call ∈ stringCalls) (hwide : call.size ≤ call.ulMaxLen) :
    call ∈ wideCalls := by
  rw [← filter_stringCalls]
  exact List.mem_filter.mpr ⟨hcall, decide_eq_true hwide⟩

theorem wide_called (hwide : call ∈ wideCalls) : call ∈ stringCalls := by
  rw [← filter_stringCalls] at hwide
  exact (List.mem_filter.mp hwide).1

/-- Every string that a body gives fits, or is refused, but at nine calls. At these the strings
whose length is from the array's size to the maximum do not fit. -/
theorem fits_iff (hcall : call ∈ stringCalls) (pRoot : Json) (hsize : pValue.length = call.size) :
    Fits call pRoot pValue ↔ (call ∈ wideCalls →
      ∀ t, pRoot.getObjectItem call.pTitle = some (.string t) →
        t.length < call.size ∨ call.ulMaxLen < t.length) := by
  rw [call_fits hsize]
  constructor
  · intro h _ t ht
    by_contra hlong
    obtain ⟨hsize, hmax⟩ := not_or.mp hlong
    exact h t ht ⟨Nat.le_of_not_lt hsize, Nat.le_of_not_lt hmax⟩
  · intro h t ht hlong
    rcases h (mem_wideCalls hcall (Nat.le_trans hlong.1 hlong.2)) t ht with hshort | hmax
    · exact Nat.not_lt.mpr hlong.1 hshort
    · exact Nat.not_lt.mpr hlong.2 hmax

/-- `{"cmd":"get"}`. -/
theorem get_fits : Fits ⟨"cmd".toList, 33, false, 33⟩
    (.object [("cmd".toList, .string "get".toList)]) (List.replicate 33 '\x00') := by
  have hcall : ⟨"cmd".toList, 33, false, 33⟩ ∈ stringCalls := wide_called List.mem_cons_self
  refine (fits_iff hcall _ List.length_replicate).mpr ?_
  intro _ t ht
  injection ht with ht
  injection ht with ht
  subst ht
  exact .inl (by decide)

/-- A command of 33 characters has its NUL written behind the array. -/
theorem long_overrun : ¬ Fits ⟨"cmd".toList, 33, false, 33⟩
    (.object [("cmd".toList, .string (List.replicate 33 'a'))]) (List.replicate 33 '\x00') := by
  intro h
  have hinside : ['\x00'] = ([] : Text) := h.inside
  cases hinside

end Catchb.Proofs.StringFits
