import Catchb.Lib.Numerals
import Catchb.Trace

/-! What the files of a trace keep of it. -/

namespace Catchb.Proofs.TraceKept
open Lib TraceFiles
open Generations (append contents contents_cons Holds shift)

/-- The files that a full one is moved through, with itself in front. -/
def names (pFileName : Text) : List Text :=
  pFileName :: (List.range 11).map (numbered pFileName)

/-- Files whose names are not among those of the other one. -/
def Apart (name pFileName : Text) : Prop := ∀ k ∈ names name, k ∉ names pFileName

def run (files : TraceFiles) (ws : List TraceWrite) : TraceFiles := ws.foldl write files

/-- What is written to a file, as far as it is opened. -/
def lines (pFileName : Text) (ws : List TraceWrite) : Text :=
  ws.flatMap fun w => if w.pFileName.name = pFileName ∧ w.opened = true then w.pBuffer else []

variable {files : TraceFiles} {pFileName k : Text} {w : TraceWrite} {ws : List TraceWrite}

theorem numbered_injective (pFileName : Text) : Function.Injective (numbered pFileName) := by
  intro i j h
  have htail := List.append_cancel_left h
  exact Int.ofNat.inj (Numerals.decimal_injective (List.cons_injective htail))

theorem numbered_ne (pFileName : Text) (i : Nat) : numbered pFileName i ≠ pFileName := by
  intro h
  have hlen := congrArg List.length h
  rw [numbered, List.length_append, List.length_cons] at hlen
  omega

theorem names_nodup (pFileName : Text) : (names pFileName).Nodup := by
  refine List.nodup_cons.mpr ⟨?_, List.nodup_range.map (numbered_injective pFileName)⟩
  intro hmem
  obtain ⟨i, -, hi⟩ := List.mem_map.mp hmem
  exact numbered_ne pFileName i hi

/-- The commands are a shift of the files. -/
theorem rotate_shift (ran : Text → Bool) (files : TraceFiles) (pFileName : Text) :
    rotate ran files pFileName = shift ran (names pFileName) files := rfl

theorem contents_append (files : TraceFiles) (pFileName pBuffer : Text) :
    contents (names pFileName) (append pFileName pBuffer files) =
      contents (names pFileName) files ++ pBuffer := by
  obtain ⟨hout, -⟩ := List.nodup_cons.mp (names_nodup pFileName)
  have hrest : contents ((List.range 11).map (numbered pFileName))
      (append pFileName pBuffer files) =
      contents ((List.range 11).map (numbered pFileName)) files := by
    apply Generations.contents_congr
    intro k hk
    exact Generations.append_other fun he => hout (he ▸ hk)
  rw [names, contents_cons, contents_cons, hrest, Generations.append_self, Option.getD_some,
    List.append_assoc]

theorem getFileSize_contents (opened : Bool) (files : TraceFiles) (pFileName : Text) :
    contents (names pFileName) (getFileSize opened files pFileName).2 =
      contents (names pFileName) files := by
  unfold getFileSize
  split
  · rw [contents_append, List.append_nil]
  · rfl

theorem writeToFile_contents (opened : Bool) (files : TraceFiles) (pFileName pBuffer : Text) :
    contents (names pFileName) (writeToFile opened files pFileName pBuffer) =
      contents (names pFileName) files ++ if opened then pBuffer else [] := by
  unfold writeToFile
  split
  · exact contents_append files pFileName pBuffer
  · rw [List.append_nil]

/-- A call of another file's leaves the files alone. -/
theorem write_other (h : Apart w.pFileName.name pFileName) (hk : k ∈ names pFileName) :
    write files w k = files k := by
  have hout : k ∉ names w.pFileName.name := fun hmem => h k hmem hk
  have hne : k ≠ w.pFileName.name := fun he => hout (he ▸ List.mem_cons_self)
  have hsize : (getFileSize w.sized files w.pFileName.name).2 k = files k := by
    unfold getFileSize
    split
    · exact Generations.append_other hne
    · rfl
  simp only [write, writeToFile, rotate_shift]
  split <;> split
  · rw [Generations.append_other hne, Generations.shift_other hout, hsize]
  · rw [Generations.append_other hne, hsize]
  · rw [Generations.shift_other hout, hsize]
  · exact hsize

/-- Whatever fails of a call, what is left of what was there is in its order, with the line behind
it. -/
theorem write_sublist (files : TraceFiles) (w : TraceWrite) :
    (contents (names w.pFileName.name) (write files w)).Sublist
      (contents (names w.pFileName.name) files ++ if w.opened then w.pBuffer else []) := by
  simp only [write]
  rw [writeToFile_contents]
  refine List.Sublist.append_right ?_ _
  rw [← getFileSize_contents w.sized files]
  split
  · rw [rotate_shift]
    exact Generations.contents_shift (names_nodup _) _
  · exact List.Sublist.refl _

/-- Whichever of the commands and openings fail, the files hold lines of what has been written to
them in the order of the calls, and none of them twice. -/
theorem order_kept (pFileName : Text) (files : TraceFiles) (ws : List TraceWrite)
    (hws : ∀ w ∈ ws, w.pFileName.name = pFileName ∨ Apart w.pFileName.name pFileName) :
    (contents (names pFileName) (run files ws)).Sublist
      (contents (names pFileName) files ++ lines pFileName ws) := by
  induction ws generalizing files with
  | nil => simp [run, lines]
  | cons w ws ih =>
    obtain ⟨hw, hrest⟩ := List.forall_mem_cons.mp hws
    have hrun := ih (write files w) hrest
    refine hrun.trans ?_
    have hlines : lines pFileName (w :: ws) =
        (if w.pFileName.name = pFileName ∧ w.opened = true then w.pBuffer else []) ++
          lines pFileName ws := rfl
    rw [hlines, ← List.append_assoc]
    refine List.Sublist.append_right ?_ _
    rcases hw with rfl | hapart
    · simpa using write_sublist files w
    · have hsame : contents (names pFileName) (write files w) = contents (names pFileName) files :=
        Generations.contents_congr fun k hk => write_other hapart hk
      rw [hsame]
      exact List.sublist_append_left _ _

/-- A line of a trace whose files are moved away at two bytes. -/
def sample (pBuffer : Text) (ran : Text → Bool) : TraceWrite where
  pFileName := ⟨"/log/t".toList, by simp, by decide⟩
  ulFileSize := 2
  pBuffer := pBuffer
  sized := true
  ran := ran
  opened := true

theorem order_kept_without_a_move :
    let ran := fun k => k ≠ numbered "/log/t".toList 0
    let ws := [sample "a\n".toList ran, sample "b\n".toList ran, sample "c\n".toList ran]
    (contents (names "/log/t".toList) (run (fun _ => none) ws)).Sublist
      (contents (names "/log/t".toList) (fun _ => none) ++ lines "/log/t".toList ws) :=
  order_kept _ _ _ (by simp [sample])

/-- A call of which nothing fails, with bounds of the configured size and of the line. -/
structure Smooth (least most : UInt32) (longest : Nat) (w : TraceWrite) : Prop where
  sized : w.sized = true
  ran : ∀ k, w.ran k = true
  opened : w.opened = true
  least : least ≤ w.ulFileSize
  most : w.ulFileSize ≤ most
  line : w.pBuffer.length ≤ longest

/-- The files against all that was written to them: what is gone was in front, and has been gone
since there are eleven full ones. -/
structure Kept (least bound : Nat) (pFileName : Text) (files : TraceFiles) (total : Text)
    (gens : List Text) : Prop where
  holds : Holds ((List.range 11).map (numbered pFileName)) files gens
  suffix : contents (names pFileName) files <:+ total
  whole : contents (names pFileName) files = total ∨ gens.length = 11
  full : ∀ g ∈ gens, least ≤ g.length ∧ g.length ≤ bound
  newest : ((files pFileName).getD []).length ≤ bound

variable {least most : UInt32} {longest l bound : Nat} {total : Text} {gens : List Text}

theorem contents_gens (h : Holds ((List.range 11).map (numbered pFileName)) files gens) :
    contents (names pFileName) files = gens.reverse.flatten ++ (files pFileName).getD [] ∧
      gens.length ≤ 11 := by
  obtain ⟨hcontents, hlen⟩ := Generations.contents_holds h
  rw [names, contents_cons, hcontents]
  exact ⟨rfl, by simpa using hlen⟩

/-- Without the oldest ones, the files are the end of what they were. -/
theorem take_suffix (n : Nat) (gens : List Text) :
    (gens.take n).reverse.flatten <:+ gens.reverse.flatten := by
  have hsplit : gens.reverse = (gens.drop n).reverse ++ (gens.take n).reverse := by
    rw [← List.reverse_append, List.take_append_drop]
  rw [hsplit, List.flatten_append]
  exact List.suffix_append _ _

theorem append_holds (h : Holds ((List.range 11).map (numbered pFileName)) files gens)
    (pBuffer : Text) :
    Holds ((List.range 11).map (numbered pFileName)) (append pFileName pBuffer files) gens := by
  obtain ⟨hout, -⟩ := List.nodup_cons.mp (names_nodup pFileName)
  refine Generations.holds_congr (fun k hk => ?_) h
  have hne : k ≠ pFileName := fun he => hout (he ▸ hk)
  exact (Generations.append_other hne).symm

/-- A file that is not full takes the line. -/
theorem append_kept (h : Kept l bound pFileName files total gens) {pBuffer : Text}
    (hroom : ((files pFileName).getD []).length + pBuffer.length ≤ bound) :
    Kept l bound pFileName (append pFileName pBuffer files) (total ++ pBuffer) gens := by
  refine ⟨append_holds h.holds pBuffer, ?_, ?_, h.full, ?_⟩
  · rw [contents_append]
    obtain ⟨front, hfront⟩ := h.suffix
    exact ⟨front, by rw [← hfront, List.append_assoc]⟩
  · rw [contents_append]
    exact h.whole.imp (fun hw => by rw [hw]) id
  · rw [Generations.append_self, Option.getD_some, List.length_append]
    exact hroom

/-- A full one is moved away, and the oldest one with it where there are eleven. -/
theorem shift_kept (h : Kept l bound pFileName files total gens) {c : Text}
    (hc : files pFileName = some c) (hfull : l ≤ c.length) {ran : Text → Bool}
    (hran : ∀ k, ran k = true) :
    Kept l bound pFileName (shift ran (names pFileName) files) total ((c :: gens).take 11) ∧
      shift ran (names pFileName) files pFileName = none := by
  obtain ⟨hholds, hnone⟩ : Holds ((List.range 11).map (numbered pFileName))
      (shift ran (names pFileName) files) ((c :: gens).take 11) ∧
      ((List.range 11).map (numbered pFileName) ≠ [] →
        shift ran (names pFileName) files pFileName = none) :=
    Generations.shift_holds (names_nodup pFileName) hran hc h.holds
  have hempty := hnone (by simp)
  obtain ⟨hold, hlen⟩ := contents_gens h.holds
  obtain ⟨hnew, -⟩ := contents_gens hholds
  have hcons : contents (names pFileName) files = (c :: gens).reverse.flatten := by
    simp [hold, hc]
  rw [hempty, Option.getD_none, List.append_nil] at hnew
  refine ⟨⟨hholds, ?_, ?_, fun g hg => ?_, ?_⟩, hempty⟩
  · refine List.IsSuffix.trans ?_ h.suffix
    rw [hcons, hnew]
    exact take_suffix 11 (c :: gens)
  · by_cases hmany : gens.length = 11
    · right
      rw [List.length_take, List.length_cons]
      omega
    · left
      have hall : (c :: gens).take 11 = c :: gens := by
        rw [List.take_of_length_le]
        rw [List.length_cons]
        omega
      rw [hnew, hall, ← hcons]
      exact h.whole.resolve_right hmany
  · rcases List.mem_cons.mp (List.mem_of_mem_take hg) with rfl | hmem
    · have hle := h.newest
      rw [hc] at hle
      exact ⟨hfull, hle⟩
    · exact h.full g hmem
  · rw [hempty]
    exact Nat.zero_le _

theorem write_kept (h : Kept least.toNat (most.toNat + longest) w.pFileName.name files total gens)
    (hw : Smooth least most longest w) (hfit : most.toNat + longest < UInt32.size) :
    ∃ gens, Kept least.toNat (most.toNat + longest) w.pFileName.name (write files w)
      (total ++ w.pBuffer) gens := by
  have hline := hw.line
  have hcreated := @append_kept _ _ _ _ _ _ h [] (by simpa using h.newest)
  rw [List.append_nil] at hcreated
  have hsize : (UInt32.ofNat ((files w.pFileName.name).getD []).length).toNat =
      ((files w.pFileName.name).getD []).length :=
    Nat.mod_eq_of_lt (Nat.lt_of_le_of_lt h.newest hfit)
  have hleast := UInt32.le_iff_toNat_le.mp hw.least
  have hmost := UInt32.le_iff_toNat_le.mp hw.most
  have hfile : append w.pFileName.name [] files w.pFileName.name =
      some ((files w.pFileName.name).getD []) := by
    rw [Generations.append_self, List.append_nil]
  simp only [write, getFileSize, writeToFile, hw.sized, hw.opened, ↓reduceIte, rotate_shift]
  by_cases hfull : UInt32.ofNat ((files w.pFileName.name).getD []).length ≥ w.ulFileSize
  · have hle := UInt32.le_iff_toNat_le.mp hfull
    rw [hsize] at hle
    rw [if_pos hfull]
    obtain ⟨hshift, hempty⟩ := shift_kept hcreated hfile (Nat.le_trans hleast hle) hw.ran
    refine ⟨_, append_kept hshift ?_⟩
    rw [hempty, Option.getD_none, List.length_nil]
    omega
  · have hlt := UInt32.lt_iff_toNat_lt.mp (UInt32.not_le.mp hfull)
    rw [hsize] at hlt
    rw [if_neg hfull]
    refine ⟨gens, append_kept hcreated ?_⟩
    rw [hfile, Option.getD_some]
    omega

theorem other_kept (h : Kept l bound pFileName files total gens)
    (hapart : Apart w.pFileName.name pFileName) :
    Kept l bound pFileName (write files w) total gens := by
  have hsame : ∀ k ∈ names pFileName, write files w k = files k := fun k => write_other hapart
  have hcontents := Generations.contents_congr hsame
  refine ⟨?_, hcontents ▸ h.suffix, hcontents ▸ h.whole, h.full, ?_⟩
  · exact Generations.holds_congr (fun k hk => (hsame k (List.mem_cons_of_mem _ hk)).symm) h.holds
  · rw [hsame pFileName List.mem_cons_self]
    exact h.newest

theorem run_kept (h : Kept least.toNat (most.toNat + longest) pFileName files total gens)
    (hfit : most.toNat + longest < UInt32.size)
    (hws : ∀ w ∈ ws, w.pFileName.name = pFileName ∧ Smooth least most longest w ∨
      Apart w.pFileName.name pFileName) :
    ∃ gens, Kept least.toNat (most.toNat + longest) pFileName (run files ws)
      (total ++ lines pFileName ws) gens := by
  induction ws generalizing files total gens with
  | nil => exact ⟨gens, by simpa [run, lines] using h⟩
  | cons w ws ih =>
    obtain ⟨hw, hrest⟩ := List.forall_mem_cons.mp hws
    have hlines : lines pFileName (w :: ws) =
        (if w.pFileName.name = pFileName ∧ w.opened = true then w.pBuffer else []) ++
          lines pFileName ws := rfl
    rw [hlines, ← List.append_assoc]
    rcases hw with ⟨rfl, hsmooth⟩ | hapart
    · obtain ⟨gens, hkept⟩ := write_kept h hsmooth hfit
      rw [if_pos ⟨rfl, hsmooth.opened⟩]
      exact ih hkept hrest
    · have hne : w.pFileName.name ≠ pFileName := by
        intro he
        exact hapart pFileName (he ▸ List.mem_cons_self) List.mem_cons_self
      rw [if_neg fun hsame => hne hsame.1, List.append_nil]
      exact ih (other_kept h hapart) hrest

/-- Files of which each has so many bytes. -/
theorem length_flatten_bounds {m n : Nat} (h : ∀ g ∈ gens, m ≤ g.length ∧ g.length ≤ n) :
    gens.length * m ≤ gens.flatten.length ∧ gens.flatten.length ≤ gens.length * n := by
  induction gens with
  | nil => simp
  | cons g gens ih =>
    obtain ⟨⟨hlow, hhigh⟩, hrest⟩ := List.forall_mem_cons.mp h
    obtain ⟨hlows, hhighs⟩ := ih hrest
    rw [List.flatten_cons, List.length_append, List.length_cons, Nat.succ_mul, Nat.succ_mul]
    omega

/-- If nothing fails, the files hold the end of what has been written to them, in order and without
gaps: all of it, or eleven times the least configured size, and never more than twelve files of the
greatest one. -/
theorem newest_kept (pFileName : Text) (files : TraceFiles) (ws : List TraceWrite)
    (hfiles : ∀ k ∈ names pFileName, files k = none)
    (hfit : most.toNat + longest < UInt32.size)
    (hws : ∀ w ∈ ws, w.pFileName.name = pFileName ∧ Smooth least most longest w ∨
      Apart w.pFileName.name pFileName) :
    let kept := contents (names pFileName) (run files ws)
    kept <:+ lines pFileName ws ∧
      min (lines pFileName ws).length (11 * least.toNat) ≤ kept.length ∧
      kept.length ≤ 12 * (most.toNat + longest) := by
  have hholds : Holds ((List.range 11).map (numbered pFileName)) files [] :=
    Generations.holds_nil.mpr fun k hk => hfiles k (List.mem_cons_of_mem _ hk)
  have hnone := hfiles pFileName List.mem_cons_self
  have hempty : contents (names pFileName) files = [] := by
    rw [(contents_gens hholds).1, hnone]
    rfl
  have hstart : Kept least.toNat (most.toNat + longest) pFileName files [] [] := by
    refine ⟨hholds, ?_, .inl hempty, by simp, ?_⟩
    · simp [hempty]
    · rw [hnone]
      exact Nat.zero_le _
  obtain ⟨gens, hkept⟩ := run_kept hstart hfit hws
  rw [List.nil_append] at hkept
  obtain ⟨hcontents, hlen⟩ := contents_gens hkept.holds
  have hlength := congrArg List.length hcontents
  have hbounds := @length_flatten_bounds gens.reverse _ _
    (fun g hg => hkept.full g (List.mem_reverse.mp hg))
  rw [List.length_append] at hlength
  rw [List.length_reverse] at hbounds
  have hnewest := hkept.newest
  refine ⟨hkept.suffix, ?_, ?_⟩
  · rcases hkept.whole with hwhole | hmany
    · rw [hwhole]
      exact Nat.min_le_left _ _
    · rw [hmany] at hbounds
      omega
  · have hmul := Nat.mul_le_mul_right (most.toNat + longest) hlen
    omega

theorem newest_kept_of_three :
    let ws := [sample "a\n".toList fun _ => true, sample "b\n".toList fun _ => true,
      sample "c\n".toList fun _ => true]
    let kept := contents (names "/log/t".toList) (run (fun _ => none) ws)
    kept <:+ lines "/log/t".toList ws ∧
      min (lines "/log/t".toList ws).length (11 * (2 : UInt32).toNat) ≤ kept.length ∧
      kept.length ≤ 12 * ((2 : UInt32).toNat + 2) :=
  newest_kept _ _ _ (fun _ _ => rfl) (by decide) (by
    have hsmooth : ∀ c, Smooth 2 2 2 (sample [c, '\n'] fun _ => true) := fun c =>
      ⟨rfl, fun _ => rfl, rfl, UInt32.le_refl 2, UInt32.le_refl 2, Nat.le_refl 2⟩
    simp only [List.forall_mem_cons]
    exact ⟨.inl ⟨rfl, hsmooth 'a'⟩, .inl ⟨rfl, hsmooth 'b'⟩, .inl ⟨rfl, hsmooth 'c'⟩, by simp⟩)

end Catchb.Proofs.TraceKept
