import Catchb.Trace
import Mathlib.Algebra.GroupWithZero.Nat

/-! When the trace writes inside its arrays. -/

namespace Catchb.Proofs.TraceFits
open Lib Trace

variable {run : Run} {c : TraceConfig} {call : Trace.Call} {pConfig : TraceTypeConfig} {n : Nat}

def Inside (x : Store) : Prop := x.bytes = [] ∨ x.first + x.bytes.length ≤ x.target.size

/-- All that is written but the file's name. -/
def AllInside (stores : List Store) : Prop := ∀ x ∈ stores, x.target ≠ .pFileName → Inside x

/-- What a call writes is inside its arrays, and the line that it prints ends there. -/
structure Stays (run : Run) (c : TraceConfig) (call : Trace.Call) : Prop where
  inside : AllInside (out run c call).1
  ends : prints run c call ≠ none →
    ∃ k < 2048, (⟨.pBuffer, k, ['\x00']⟩ : Store) ∈ (out run c call).1

/-- Texts of these lengths are put together, from a length on, so that the line feed and the
terminator have a place. A text whose length is no `int` takes one off. -/
def Within (ulLen : Nat) : List Nat → Prop
  | [] => ulLen ≤ 2046
  | n :: ns => ulLen ≤ 2048 ∧
    if n ≤ 0x7FFFFFFF then Within (ulLen + n) ns else 0 < ulLen ∧ Within (ulLen - 1) ns

theorem Within.le {ns : List Nat} (h : Within n ns) : n ≤ 2048 := by
  cases ns with
  | nil => exact Nat.le_trans h (by decide)
  | cons m ns => exact h.1

/-- For lengths that are an `int` it is their sum that counts. -/
theorem within_iff {ns : List Nat} (hns : ∀ m ∈ ns, m ≤ 0x7FFFFFFF) :
    Within n ns ↔ n + ns.sum ≤ 2046 := by
  induction ns generalizing n with
  | nil => exact Iff.rfl
  | cons m ns ih =>
    obtain ⟨hm, hns⟩ := List.forall_mem_cons.mp hns
    rw [Within, if_pos hm, ih hns, List.sum_cons]
    omega

section Line

theorem allInside_append {xs ys : List Store} :
    AllInside (xs ++ ys) ↔ AllInside xs ∧ AllInside ys := by
  simp only [AllInside, List.mem_append, or_imp, forall_and]

theorem allInside_singleton {x : Store} :
    AllInside [x] ↔ (x.target ≠ .pFileName → Inside x) := by
  simp [AllInside]

theorem text_inside {target : Target} {t : Text} :
    Inside (Store.text target t) ↔ t.length < target.size := by
  simp [Inside, Store.text, Nat.succ_le_iff]

/-- `snprintf` writes its NUL behind the buffer as well, once the count is behind it. -/
theorem snprintf_inside {line : Line} {t : Text} : AllInside (line.snprintf run t).stores ↔
    AllInside line.stores ∧ line.ulLen.toNat ≤ 2048 := by
  have hword := line.ulLen.toNat_lt
  rw [Line.snprintf, allInside_append, allInside_singleton, and_congr_right_iff]
  intro _
  by_cases hle : line.ulLen.toNat ≤ 2048
  · have hroom : (2048 - line.ulLen).toNat = 2048 - line.ulLen.toNat :=
      UInt32.toNat_sub_of_le _ _ (UInt32.le_iff_toNat_le.mpr hle)
    refine iff_of_true (fun _ => ?_) hle
    by_cases hfull : (2048 : UInt32) - line.ulLen = 0
    · exact .inl (by simp only [if_pos hfull])
    · refine .inr ?_
      have hpos : 0 < (2048 - line.ulLen).toNat :=
        Nat.pos_of_ne_zero fun hzero => hfull (UInt32.toNat_inj.mp hzero)
      have hlen := List.length_take_le ((2048 - line.ulLen).toNat - 1)
        (if t.length ≤ 0x7FFFFFFF then t else run.failed t)
      simp only [if_neg hfull, List.length_append, List.length_singleton, Target.size]
      omega
  · refine iff_of_false (fun h => ?_) hle
    have hroom : (2048 : UInt32) - line.ulLen ≠ 0 := by
      intro hzero
      have hnat := congrArg UInt32.toNat hzero
      rw [UInt32.toNat_sub] at hnat
      have hsize : (2048 : UInt32).toNat = 2048 := rfl
      have hnone : (0 : UInt32).toNat = 0 := rfl
      omega
    have hother : Target.pBuffer ≠ .pFileName := by decide
    rcases h hother with hnil | hin
    · simp only [if_neg hroom] at hnil
      exact List.append_ne_nil_of_right_ne_nil _ (List.cons_ne_nil _ _) hnil
    · simp only [if_neg hroom, List.length_append, List.length_singleton, Target.size] at hin
      omega

theorem toNat_printed {ulLen : UInt32} (hle : ulLen.toNat ≤ 2048) (t : Text) :
    (ulLen + printed t).toNat =
      if t.length ≤ 0x7FFFFFFF then ulLen.toNat + t.length
      else if ulLen.toNat = 0 then 4294967295 else ulLen.toNat - 1 := by
  rw [UInt32.toNat_add, printed]
  by_cases hint : t.length ≤ 0x7FFFFFFF
  · rw [if_pos hint, if_pos hint, UInt32.toNat_ofNat']
    omega
  · rw [if_neg hint, if_neg hint]
    have hmax : (0xFFFFFFFF : UInt32).toNat = 4294967295 := rfl
    rw [hmax]
    split <;> omega

/-- The count, after a text, against its length. -/
theorem within_next {ulLen : UInt32} (hle : ulLen.toNat ≤ 2048) (t : Text) (ns : List Nat) :
    Within (ulLen + printed t).toNat ns ↔
      if t.length ≤ 0x7FFFFFFF then Within (ulLen.toNat + t.length) ns
      else 0 < ulLen.toNat ∧ Within (ulLen.toNat - 1) ns := by
  rw [toNat_printed hle]
  by_cases hint : t.length ≤ 0x7FFFFFFF
  · rw [if_pos hint, if_pos hint]
  · rw [if_neg hint, if_neg hint]
    by_cases hzero : ulLen.toNat = 0
    · rw [if_pos hzero]
      exact iff_of_false (fun h => absurd h.le (by decide)) (fun h => absurd h.1 (by omega))
    · rw [if_neg hzero, and_iff_right (Nat.pos_of_ne_zero hzero)]

/-- The two stores that nothing checks. -/
theorem finish_inside {line : Line} : AllInside line.finish ↔
    AllInside line.stores ∧ line.ulLen.toNat ≤ 2046 := by
  have hword := line.ulLen.toNat_lt
  have hone : (1 : UInt32).toNat = 1 := rfl
  rw [Line.finish, allInside_append, and_congr_right_iff]
  intro _
  have hnext : (line.ulLen + 1).toNat = (line.ulLen.toNat + 1) % 4294967296 := UInt32.toNat_add ..
  simp only [AllInside, List.mem_cons, List.not_mem_nil, or_false, forall_eq_or_imp, forall_eq,
    Inside, Target.size, List.cons_ne_nil, false_or, List.length_singleton, hnext, ne_eq,
    reduceCtorEq, not_false_eq_true, true_imp_iff]
  omega

/-- A whole line, from any count on. -/
theorem line_inside (pieces : List Piece) (line : Line)
    (hbefore : ∀ piece ∈ pieces, AllInside piece.before) :
    AllInside (pieces.foldl (Line.add run) line).finish ↔
      AllInside line.stores ∧
        Within line.ulLen.toNat (pieces.map (fun piece => piece.text.length)) := by
  induction pieces generalizing line with
  | nil => exact finish_inside
  | cons piece pieces ih =>
    obtain ⟨hpiece, hpieces⟩ := List.forall_mem_cons.mp hbefore
    rw [List.foldl_cons, ih _ hpieces, Line.add, snprintf_inside, allInside_append,
      and_iff_left hpiece, and_assoc, List.map_cons, Within, and_congr_right_iff]
    intro _
    rw [and_congr_right_iff]
    intro hle
    exact within_next hle piece.text _

end Line

section Fields

variable {f : TraceFieldConfig} {before : List Store} {value : Text}

theorem length_decimal (x : UInt32) : (decimal x.toNat).length ≤ 10 := by
  change (Nat.toDigits 10 x.toNat).length ≤ 10
  rw [Nat.length_toDigits_le_iff (by decide) (by decide)]
  exact Nat.lt_trans x.toNat_lt (by decide)

/-- The longest format has two numbers of ten digits. -/
theorem format_inside (f : TraceFieldConfig) : AllInside [.text .pOutputFormat f.format] := by
  rw [allInside_singleton, text_inside, TraceFieldConfig.format]
  intro _
  split
  · decide
  · have hdigits := length_decimal f.ulSize
    have hopen : "[%".toList.length = 2 := rfl
    have hdot : ".".toList.length = 1 := rfl
    have hclose : "s] ".toList.length = 3 := rfl
    simp only [List.length_append, Target.size]
    omega

theorem lineFormat_inside (f : TraceFieldConfig) :
    AllInside [.text .pOutputFormat f.lineFormat] := by
  rw [allInside_singleton, text_inside, TraceFieldConfig.lineFormat]
  intro _
  split
  · decide
  · have hdigits := length_decimal f.ulSize
    have hopen : "[%".toList.length = 2 := rfl
    have hclose : "u] ".toList.length = 3 := rfl
    simp only [List.length_append, Target.size]
    omega

theorem piece_inside (hbefore : AllInside before) :
    ∀ piece ∈ f.piece before value, AllInside piece.before := by
  intro piece hpiece
  rw [TraceFieldConfig.piece] at hpiece
  split at hpiece
  · obtain rfl := List.mem_singleton.mp hpiece
    exact allInside_append.mpr ⟨hbefore, format_inside _⟩
  · cases hpiece

theorem linePiece_inside (ulLine : UInt32) :
    ∀ piece ∈ f.linePiece ulLine, AllInside piece.before := by
  intro piece hpiece
  rw [TraceFieldConfig.linePiece] at hpiece
  split at hpiece
  · obtain rfl := List.mem_singleton.mp hpiece
    refine allInside_append.mpr ⟨?_, lineFormat_inside _⟩
    split
    · rw [allInside_singleton, text_inside]
      intro _
      exact Nat.lt_of_le_of_lt (length_decimal ulLine) (by decide)
    · exact fun _ hx => absurd hx List.not_mem_nil
  · cases hpiece

/-- The length of a field as it is printed: its brackets, its blank, and its size if it has one. -/
def fieldLength (f : TraceFieldConfig) (value : Text) : Nat :=
  3 + if (f.grow value).ulSize = 0 then value.length else (f.grow value).ulSize.toNat

/-- A number is not cut off. -/
def lineLength (f : TraceFieldConfig) (number : Text) : Nat :=
  3 + max (f.grow number).ulSize.toNat number.length

theorem length_pad (n : Nat) (t : Text) : (TraceFieldConfig.pad n t).length = max n t.length := by
  rw [TraceFieldConfig.pad, List.length_append, List.length_replicate]
  omega

theorem length_brackets (t : Text) : ("[".toList ++ t ++ "] ".toList).length = 3 + t.length := by
  have hopen : "[".toList.length = 1 := rfl
  have hclose : "] ".toList.length = 2 := rfl
  rw [List.length_append, List.length_append]
  omega

theorem map_piece (before : List Store) : (f.piece before value).map (fun p => p.text.length) =
    if f.bEnable then [fieldLength f value] else [] := by
  rw [TraceFieldConfig.piece]
  split
  · have hlen : ((f.grow value).print value).length = fieldLength f value := by
      rw [TraceFieldConfig.print, length_brackets, fieldLength]
      split
      · rfl
      · rw [length_pad, List.length_take]
        omega
    rw [List.map_singleton, hlen]
  · rfl

theorem map_linePiece (ulLine : UInt32) :
    (f.linePiece ulLine).map (fun p => p.text.length) =
      if f.bEnable then [lineLength f (decimal ulLine.toNat)] else [] := by
  rw [TraceFieldConfig.linePiece]
  split
  · rw [List.map_singleton, TraceFieldConfig.linePrint, length_brackets, length_pad]
    rfl
  · rfl

end Fields

/-- The lengths of the fields that are enabled, and of the message. -/
def lengths (run : Run) (pConfig : TraceTypeConfig) (call : Trace.Call) (pModuleName : Text) :
    List Nat :=
  (if pConfig.xTime.bEnable then [fieldLength pConfig.xTime run.pTime.val] else []) ++
  (if pConfig.xFunction.bEnable then
    [fieldLength pConfig.xFunction (call.pFunctionName.getD [])] else []) ++
  (if pConfig.xLine.bEnable then
    [lineLength pConfig.xLine (decimal call.ulLine.toNat)] else []) ++
  (if pConfig.xModule.bEnable then [fieldLength pConfig.xModule pModuleName] else []) ++
  (if pConfig.xLevel.bEnable then [fieldLength pConfig.xLevel call.xLevel.string] else []) ++
  [call.pMessage.length]

section Pieces

theorem map_pieces (run : Run) (pConfig : TraceTypeConfig) (call : Trace.Call)
    (pModuleName : Text) :
    (pieces run pConfig call pModuleName).map (fun piece => piece.text.length) =
      lengths run pConfig call pModuleName := by
  simp only [pieces, lengths, List.map_append, map_piece, map_linePiece, List.map_singleton]

theorem time_inside (run : Run) : AllInside [.text .pTimeString run.pTime.val] := by
  rw [allInside_singleton, text_inside]
  intro _
  exact Nat.lt_succ_of_le run.pTime.property

theorem pieces_inside (run : Run) (pConfig : TraceTypeConfig) (call : Trace.Call)
    (pModuleName : Text) :
    ∀ piece ∈ pieces run pConfig call pModuleName, AllInside piece.before := by
  have hnone : AllInside [] := fun _ hx => absurd hx List.not_mem_nil
  simp only [pieces, List.forall_mem_append, List.forall_mem_singleton]
  exact ⟨⟨⟨⟨⟨piece_inside (time_inside run), piece_inside hnone⟩, linePiece_inside _⟩,
    piece_inside hnone⟩, piece_inside hnone⟩, hnone⟩

end Pieces

section Rotate

/-- The file of the line is moved away first. -/
def Rotates (run : Run) (c : TraceConfig) (pConfig : TraceTypeConfig) : Prop :=
  pConfig.pFileName.val ≠ "console".toList ∧ c.ulFileSize ≤ run.ulFileSize

theorem length_move (pFileName : Text) (i : Nat) : (move pFileName i).length =
    27 + 2 * pFileName.length + ((decimal (i - 1)).length + (decimal i).length) := by
  have hmv : "mv -f ".toList.length = 6 := rfl
  have hdot : ".".toList.length = 1 := rfl
  have hblank : " ".toList.length = 1 := rfl
  have hnull : " > /dev/null 2>&1 ".toList.length = 18 := by simp
  unfold move
  simp only [List.length_append, hmv, hdot, hblank, hnull]
  omega

theorem length_moveLast (pFileName : Text) :
    (moveLast pFileName).length = 27 + 2 * pFileName.length := by
  have hmv : "mv -f ".toList.length = 6 := rfl
  have hblank : " ".toList.length = 1 := rfl
  have hnull : ".0 > /dev/null 2>&1 ".toList.length = 20 := by simp
  unfold moveLast
  simp only [List.length_append, hmv, hblank, hnull]
  omega

theorem length_fileName (c : TraceConfig) (pConfig : TraceTypeConfig) :
    (fileName c pConfig).length = c.pPath.val.length + 1 + pConfig.pFileName.val.length := by
  have hslash : "/".toList.length = 1 := rfl
  rw [fileName, List.length_append, List.length_append, hslash]

/-- The first command is the longest: its name has two digits. -/
theorem commands_inside (pFileName : Text) :
    AllInside (([10, 9, 8, 7, 6, 5, 4, 3, 2, 1].map (move pFileName) ++ [moveLast pFileName]).map
      (Store.text .pCommand)) ↔ pFileName.length ≤ 48 := by
  have hsize : Target.pCommand.size = 128 := rfl
  have hother : Target.pCommand ≠ .pFileName := by decide
  have hdigits : ∀ i ∈ [10, 9, 8, 7, 6, 5, 4, 3, 2, 1],
      (decimal ((i : Nat) - 1)).length + (decimal (i : Nat)).length ≤ 3 := by decide
  constructor
  · intro h
    have hfirst := text_inside.mp
      (h (.text .pCommand (move pFileName 10)) (List.mem_cons_self ..) hother)
    have hten : (decimal ((10 : Nat) - 1)).length + (decimal (10 : Nat)).length = 3 := by decide
    rw [length_move, hten, hsize] at hfirst
    omega
  · intro hle x hx _
    obtain ⟨t, ht, rfl⟩ := List.mem_map.mp hx
    rw [text_inside, hsize]
    rcases List.mem_append.mp ht with hmove | hlast
    · obtain ⟨i, hi, rfl⟩ := List.mem_map.mp hmove
      have hthree := hdigits i hi
      rw [length_move]
      omega
    · obtain rfl := List.mem_singleton.mp hlast
      rw [length_moveLast]
      omega

theorem rotate_inside (run : Run) (c : TraceConfig) (pConfig : TraceTypeConfig) :
    AllInside (rotate run c pConfig) ↔
      (Rotates run c pConfig → c.pPath.val.length + 1 + pConfig.pFileName.val.length ≤ 48) := by
  rw [rotate, Rotates]
  by_cases hconsole : pConfig.pFileName.val = "console".toList
  · rw [if_pos hconsole]
    exact iff_of_true (fun _ hx => absurd hx List.not_mem_nil) (fun h => absurd hconsole h.1)
  · have hname : AllInside [.text .pFileName (fileName c pConfig)] :=
      allInside_singleton.mpr (fun hne => absurd rfl hne)
    rw [if_neg hconsole, ← length_fileName, ← List.singleton_append, allInside_append,
      and_iff_right hname]
    by_cases hsize : c.ulFileSize ≤ run.ulFileSize
    · simp only [if_pos hsize, commands_inside]
      exact ⟨fun hle _ => hle, fun h => h ⟨hconsole, hsize⟩⟩
    · rw [if_neg hsize]
      exact iff_of_true (fun _ hx => absurd hx List.not_mem_nil) (fun h => absurd h.2 hsize)

/-- Where the path and the file's name are both as long as they can be, the NUL is one behind. -/
theorem fileName_inside : Inside (.text .pFileName (fileName c pConfig)) ↔
    c.pPath.val.length + pConfig.pFileName.val.length ≤ 767 := by
  rw [text_inside, length_fileName, Target.size]
  omega

end Rotate

section Call

variable {pModuleName : Text}

theorem memset_inside (target : Target) : AllInside [.memset target] := by
  rw [allInside_singleton]
  intro _
  refine .inr ?_
  rw [Store.memset, List.length_replicate, Nat.zero_add]

theorem out_of_prints (hprints : prints run c call = some pModuleName) : (out run c call).1 =
    ((pieces run (c.type call.xLevel) call pModuleName).foldl (Line.add run)
      ⟨0, [.memset .pOutputFormat, .memset .pBuffer]⟩).finish ++
        rotate run c (c.type call.xLevel) := by
  rw [out, hprints]

theorem out_inside (hprints : prints run c call = some pModuleName) :
    AllInside (out run c call).1 ↔
      Within 0 (lengths run (c.type call.xLevel) call pModuleName) ∧
        (Rotates run c (c.type call.xLevel) →
          c.pPath.val.length + 1 + (c.type call.xLevel).pFileName.val.length ≤ 48) := by
  have hstart : AllInside [.memset .pOutputFormat, .memset .pBuffer] := by
    rw [← List.singleton_append, allInside_append]
    exact ⟨memset_inside _, memset_inside _⟩
  rw [out_of_prints hprints, allInside_append, rotate_inside,
    line_inside _ _ (pieces_inside run _ call _), and_iff_right hstart, map_pieces]
  rfl

/-- The last store into the line is its terminator. -/
theorem finish_ends (line : Line) :
    (⟨.pBuffer, (line.ulLen + 1).toNat, ['\x00']⟩ : Store) ∈ line.finish := by
  rw [Line.finish]
  exact List.mem_append_right _ (List.mem_cons_of_mem _ (List.mem_singleton_self _))

theorem ends_of_inside (hprints : prints run c call = some pModuleName)
    (hin : AllInside (out run c call).1) :
    ∃ k < 2048, (⟨.pBuffer, k, ['\x00']⟩ : Store) ∈ (out run c call).1 := by
  have hother : Target.pBuffer ≠ .pFileName := by decide
  rw [out_of_prints hprints] at hin ⊢
  have hmem := List.mem_append_left (rotate run c (c.type call.xLevel)) (finish_ends
    ((pieces run (c.type call.xLevel) call pModuleName).foldl (Line.add run)
      ⟨0, [.memset .pOutputFormat, .memset .pBuffer]⟩))
  refine ⟨_, ?_, hmem⟩
  rcases hin _ hmem hother with hnil | hle
  · cases hnil
  · exact hle

theorem stays_of_prints (hprints : prints run c call = some pModuleName) :
    Stays run c call ↔ Within 0 (lengths run (c.type call.xLevel) call pModuleName) ∧
      (Rotates run c (c.type call.xLevel) →
        c.pPath.val.length + 1 + (c.type call.xLevel).pFileName.val.length ≤ 48) := by
  rw [← out_inside hprints]
  exact ⟨fun h => h.inside, fun hin => ⟨hin, fun _ => ends_of_inside hprints hin⟩⟩

/-- Without a line nothing is written. -/
theorem stays_of_none (hprints : prints run c call = none) : Stays run c call := by
  refine ⟨?_, fun hne => absurd hprints hne⟩
  rw [out, hprints]
  exact fun _ hx => absurd hx List.not_mem_nil

end Call

/-- A line and the commands that move its file stay in their arrays if and only if the fields and
the message have 2046 bytes, and the path and the file's name 48 with the slash. -/
theorem stays_iff (run : Run) (c : TraceConfig) (call : Trace.Call) :
    Stays run c call ↔ ∀ pModuleName, prints run c call = some pModuleName →
      Within 0 (lengths run (c.type call.xLevel) call pModuleName) ∧
        (Rotates run c (c.type call.xLevel) →
          c.pPath.val.length + 1 + (c.type call.xLevel).pFileName.val.length ≤ 48) := by
  cases hprints : prints run c call with
  | none => exact iff_of_true (stays_of_none hprints) (fun _ h => by cases h)
  | some pModuleName =>
    rw [stays_of_prints hprints]
    exact ⟨fun h _ hsome => Option.some.inj hsome ▸ h, fun h => h _ rfl⟩

section Body

/-- The CGI's line about the body of a request, a number of so many digits. -/
def bodyCall (n : Nat) : Trace.Call where
  xLevel := .info
  bEnable := true
  pFunctionName := some "FTM_CGI_POST_service".toList
  ulLine := 519
  pModuleName := some "cgi".toList
  pMessage := "BODY : ".toList ++ List.replicate n '1'

def bodyRun : Run where
  xModuleName := .initial
  pTime := Field.copy _ "2016-07-01 12:00:00".toList
  ulFileSize := 0
  failed := id

theorem body_prints (n : Nat) :
    prints bodyRun .default (bodyCall n) = some "cgi".toList := rfl

theorem body_lengths (n : Nat) :
    lengths bodyRun TraceConfig.default.xInfo (bodyCall n) "cgi".toList =
      [23, 27, 7, 11, 7, 7 + n] := by
  have hmessage : (bodyCall n).pMessage.length = 7 + n := by
    have hbody : "BODY : ".toList.length = 7 := rfl
    rw [bodyCall, List.length_append, List.length_replicate, hbody]
  have hline : lineLength TraceConfig.default.xInfo.xLine (decimal 519) = 7 := by decide
  have hnumber : decimal (bodyCall n).ulLine.toNat = decimal 519 := rfl
  rw [lengths, hmessage, hnumber, hline]
  rfl

/-- 1964 digits would still fit: here the NUL is stored behind the array. -/
theorem body_overrun : ¬ Stays bodyRun .default (bodyCall 1965) := by
  intro hstays
  have hwithin := ((stays_of_prints (body_prints 1965)).mp hstays).1
  change Within 0 (lengths bodyRun TraceConfig.default.xInfo (bodyCall 1965) "cgi".toList)
    at hwithin
  rw [body_lengths, within_iff (by decide)] at hwithin
  exact absurd hwithin (by decide)

end Body

end Catchb.Proofs.TraceFits
