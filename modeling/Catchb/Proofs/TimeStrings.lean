import Catchb.Proofs.TimeSums
import Catchb.TimeString

/-! Which strings a time can be set from, and to what. -/

namespace Catchb.Proofs.TimeStrings
open Lib Scan Numerals FtmTime TimeSums
open Nat (ofDigitChars)

variable {m : DataModel} {zone : Zone m} {xTM : Tm} {pString : Text} {pTime : FtmTime m}
  {ns : List (TmField × Nat)}

/-- The shapes of dates, with the numbers of their fields. Twelve digits lack the century. -/
inductive Shows : Text → List (TmField × Nat) → Prop
  | date {s ns} (h : Follows (items "%Y/%m/%d".toList) s ns) : Shows s ns
  | dateTime {s ns} (h : Follows (items "%Y/%m/%d/%H/%M".toList) s ns) : Shows s ns
  | timestamp {s ns} (h : Follows (items "%Y-%m-%d %H:%M:%S".toList) s ns) : Shows s ns
  | digits14 {s ns} (h : Follows (items "%Y%m%d%H%M%S".toList) s ns) : Shows s ns
  | digits12 {s ns} (h : Follows (items "%Y%m%d%H%M%S".toList) ("20".toList ++ s) ns) : Shows s ns

/-- The seconds that a string stands for. -/
inductive Denotes (zone : Zone m) : Text → Int → Prop
  | shown {s ns} (h : Shows s ns) : Denotes zone s (zone.mktime (Tm.zero.fill ns)).toInt
  | seconds {s} (hne : s ≠ []) (hds : Digits s) (htwelve : s.length ≠ 12)
    (hfourteen : s.length ≠ 14) : Denotes zone s (ofDigitChars 10 s 0)

/-- The time is set if the string stands for one, and otherwise stays as it was. -/
structure Meets (zone : Zone m) (xTM : Tm) (pString : Text) (pTime : FtmTime m) : Prop where
  denoted : ∀ t, Denotes zone pString t →
    (setString zone xTM pString pTime).1 = .ok ∧
      (setString zone xTM pString pTime).2.tv_sec.toInt = t ∧
      (setString zone xTM pString pTime).2.tv_usec = 0
  other : (∀ t, ¬Denotes zone pString t) →
    setString zone xTM pString pTime = (.invalidFormat, pTime)

/-- When the function does as it should, by the length of the string. -/
def Sound (zone : Zone m) (xTM : Tm) (pString : Text) : Prop :=
  if pString.length = 10 then (∀ ns, ¬Shows pString ns) ∧ ¬Digits pString
  else if pString.length = 16 then
    if separated [(4, '/'), (7, '/'), (10, '/'), (13, '/')] pString = true
    then ∃ ns, Shows pString ns else ¬Digits pString
  else if pString.length = 19 then
    if separated [(4, '-'), (7, '-'), (10, ' '), (13, ':'), (16, ':')] pString = true
    then ∃ ns, Shows pString ns else ¬Digits pString
  else if pString.length = 12 ∨ pString.length = 14 then
    Digits pString → ∃ ns, Shows pString ns ∧
      zone.mktime (xTM.fill ns) = zone.mktime (Tm.zero.fill ns)
  else
    Digits pString → pString ≠ [] ∧ ofDigitChars 10 pString 0 < m.limit ∧
      (zone.mktime (zone.localtime_r (.store m (ofDigitChars 10 pString 0)) xTM)).toInt =
        ofDigitChars 10 pString 0

theorem length_of_shows (h : Shows pString ns) :
    (pString.length = 10 ∧ Follows (items "%Y/%m/%d".toList) pString ns) ∨
    (pString.length = 16 ∧ Follows (items "%Y/%m/%d/%H/%M".toList) pString ns) ∨
    (pString.length = 19 ∧ Follows (items "%Y-%m-%d %H:%M:%S".toList) pString ns) ∨
    (pString.length = 14 ∧ Follows (items "%Y%m%d%H%M%S".toList) pString ns) ∨
    (pString.length = 12 ∧
      Follows (items "%Y%m%d%H%M%S".toList) ("20".toList ++ pString) ns) := by
  cases h with
  | date h => exact .inl ⟨length_of_follows h, h⟩
  | dateTime h => exact .inr (.inl ⟨length_of_follows h, h⟩)
  | timestamp h => exact .inr (.inr (.inl ⟨length_of_follows h, h⟩))
  | digits14 h => exact .inr (.inr (.inr (.inl ⟨length_of_follows h, h⟩)))
  | digits12 h =>
    have hlen : ("20".toList ++ pString).length = 14 := length_of_follows h
    rw [List.length_append] at hlen
    exact .inr (.inr (.inr (.inr ⟨Nat.add_left_cancel (n := 2) hlen, h⟩)))

theorem meets_of_refused (h : setString zone xTM pString pTime = (.invalidFormat, pTime)) :
    Meets zone xTM pString pTime ↔ ∀ t, ¬Denotes zone pString t := by
  constructor
  · intro hmeets t ht
    obtain ⟨hok, -⟩ := hmeets.denoted t ht
    rw [h] at hok
    cases hok
  · exact fun hnone => ⟨fun t ht => absurd ht (hnone t), fun _ => h⟩

theorem meets_of_accepted {v : Long m} (h : setString zone xTM pString pTime = (.ok, ⟨v, 0⟩)) :
    Meets zone xTM pString pTime ↔
      (∃ t, Denotes zone pString t) ∧ ∀ t, Denotes zone pString t → v.toInt = t := by
  constructor
  · intro hmeets
    constructor
    · by_contra hnone
      have hother := hmeets.other (not_exists.mp hnone)
      rw [h] at hother
      cases hother
    · intro t ht
      obtain ⟨-, hsec, -⟩ := hmeets.denoted t ht
      rwa [h] at hsec
  · intro hdenoted
    obtain ⟨⟨t, ht⟩, hsame⟩ := hdenoted
    refine ⟨fun u hu => ?_, fun hnone => absurd ht (hnone t)⟩
    rw [h]
    exact ⟨rfl, hsame u hu, rfl⟩

theorem strptime_of_follows {format : Text} (h : Follows (items format) pString ns) (tm : Tm) :
    strptime pString format tm = tm.fill ns := by
  rw [strptime, scan_of_follows h]

theorem all_iff : pString.all Char.isDigit = true ↔ Digits pString := List.all_eq_true

theorem separated_iff {marks : List (Nat × Char)} :
    separated marks pString = true ↔ ∀ p ∈ marks, pString[p.1]? = some p.2 := by
  simp only [separated, List.all_eq_true, beq_iff_eq]

/-- A character between the numbers is not a digit. -/
theorem not_digits_of_separated {marks : List (Nat × Char)} {i : Nat} {c : Char}
    (h : separated marks pString = true) (hmem : (i, c) ∈ marks) (hc : c.isDigit = false) :
    ¬Digits pString := by
  intro hds
  have hget : pString[i]? = some c := separated_iff.mp h (i, c) hmem
  have hdigit := hds c (List.mem_of_getElem? hget)
  rw [hc] at hdigit
  cases hdigit

/-- A string that follows a format has its characters between the numbers. -/
theorem separated_of_follows {format : Text} (h : Follows (items format) pString ns) :
    separated (marks 0 (items format)) pString = true := by
  rw [separated_iff]
  intro p hp
  exact getElem?_of_marks h (u := []) rfl hp

/-- A string that is told by its separators is converted on top of zeros. -/
theorem meets_of_separated (format : Text) {n : Nat} (hlen : pString.length = n) (hn : n ≠ 12)
    (hn' : n ≠ 14) (hpos : n ≠ 0) (hmark : ∃ p ∈ marks 0 (items format), p.2.isDigit = false)
    (hshows : ∀ ns, Shows pString ns → Follows (items format) pString ns)
    (hset : setString zone xTM pString pTime =
      if separated (marks 0 (items format)) pString = true
      then (.ok, ⟨zone.mktime (strptime pString format .zero), 0⟩) else (.invalidFormat, pTime)) :
    Meets zone xTM pString pTime ↔
      if separated (marks 0 (items format)) pString = true
      then ∃ ns, Shows pString ns else ¬Digits pString := by
  split
  · rename_i hsep
    rw [if_pos hsep] at hset
    obtain ⟨p, hp, hc⟩ := hmark
    have hdigits := not_digits_of_separated hsep hp hc
    rw [meets_of_accepted hset]
    constructor
    · intro h
      obtain ⟨⟨t, ht⟩, -⟩ := h
      cases ht with
      | shown h => exact ⟨_, h⟩
      | seconds hne hds => exact absurd hds hdigits
    · intro h
      obtain ⟨ns, hns⟩ := h
      refine ⟨⟨_, .shown hns⟩, fun t ht => ?_⟩
      cases ht with
      | shown h => rw [strptime_of_follows (hshows _ h)]
      | seconds hne hds => exact absurd hds hdigits
  · rename_i hsep
    rw [if_neg hsep] at hset
    rw [meets_of_refused hset]
    constructor
    · intro hnone hds
      have hne : pString ≠ [] := fun he => hpos (by rw [← hlen, he]; rfl)
      exact hnone _ (.seconds hne hds (by rwa [hlen]) (by rwa [hlen]))
    · intro hdigits t ht
      cases ht with
      | shown h => exact hsep (separated_of_follows (hshows _ h))
      | seconds hne hds => exact hdigits hds

/-- Fourteen digits follow the format once they have their separators. -/
theorem follows_formatted {t : Text} (h : Follows (items "%Y%m%d%H%M%S".toList) t ns) :
    Follows (items "%Y-%m-%d %H:%M:%S".toList) (formatted t) ns := by
  have hitems : items "%Y%m%d%H%M%S".toList =
      [.number .year 4 0 9999, .number .mon 2 1 12, .number .mday 2 1 31, .number .hour 2 0 23,
        .number .min 2 0 59, .number .sec 2 0 60] := rfl
  rw [hitems] at h
  obtain ⟨year, t1, ns1, hyear, h1, rfl, rfl⟩ := exists_of_follows_number h
  obtain ⟨mon, t2, ns2, hmon, h2, rfl, rfl⟩ := exists_of_follows_number h1
  obtain ⟨mday, t3, ns3, hmday, h3, rfl, rfl⟩ := exists_of_follows_number h2
  obtain ⟨hour, t4, ns4, hhour, h4, rfl, rfl⟩ := exists_of_follows_number h3
  obtain ⟨min, t5, ns5, hmin, h5, rfl, rfl⟩ := exists_of_follows_number h4
  obtain ⟨sec, t6, ns6, hsec, h6, rfl, rfl⟩ := exists_of_follows_number h5
  cases h6
  have hformatted : formatted (year ++ (mon ++ (mday ++ (hour ++ (min ++ (sec ++ [])))))) =
      year ++ '-' :: (mon ++ '-' :: (mday ++ ' ' :: (hour ++ ':' :: (min ++ ':' ::
        (sec ++ []))))) := by
    simp [formatted, List.drop_append, List.drop_of_length_le, List.take_of_length_le, hyear.len,
      hmon.len, hmday.len, hhour.len, hmin.len, hsec.len]
  rw [hformatted]
  exact .number _ hyear (.literal _ (.number _ hmon (.literal _ (.number _ hmday
    (.blank (hhour.dropWhile _) (.number _ hhour (.literal _ (.number _ hmin
      (.literal _ (.number _ hsec .nil))))))))))

/-- Digits of a date are converted on top of what the memory held. -/
theorem meets_of_digits {t : Text} (hlen : pString.length = 12 ∨ pString.length = 14)
    (hshows : ∀ ns, Shows pString ns → Follows (items "%Y%m%d%H%M%S".toList) t ns)
    (hdigits : Digits t → Digits pString)
    (hset : setString zone xTM pString pTime = if pString.all Char.isDigit = true
      then (.ok, ⟨zone.mktime (strptime (formatted t) "%Y-%m-%d %H:%M:%S".toList xTM), 0⟩)
      else (.invalidFormat, pTime)) :
    Meets zone xTM pString pTime ↔ (Digits pString → ∃ ns, Shows pString ns ∧
      zone.mktime (xTM.fill ns) = zone.mktime (Tm.zero.fill ns)) := by
  split at hset
  · rename_i hall
    have hds := all_iff.mp hall
    rw [meets_of_accepted hset]
    have hconverted : ∀ ns, Shows pString ns →
        strptime (formatted t) "%Y-%m-%d %H:%M:%S".toList xTM = xTM.fill ns :=
      fun ns hns => strptime_of_follows (follows_formatted (hshows ns hns)) xTM
    constructor
    · intro h _
      obtain ⟨⟨u, hu⟩, hsame⟩ := h
      cases hu with
      | @shown ns hns =>
        have heq := hsame _ (.shown hns)
        rw [hconverted ns hns] at heq
        exact ⟨ns, hns, BitVec.eq_of_toInt_eq heq⟩
      | seconds hne hds htwelve hfourteen => exact absurd hlen (not_or.mpr ⟨htwelve, hfourteen⟩)
    · intro h
      obtain ⟨ns, hns, heq⟩ := h hds
      refine ⟨⟨_, .shown hns⟩, fun u hu => ?_⟩
      cases hu with
      | @shown ns' hns' =>
        have hsame : ns' = ns := by
          rw [← scan_of_follows (hshows ns' hns'), scan_of_follows (hshows ns hns)]
        rw [hconverted ns hns, heq, hsame]
      | seconds hne hds htwelve hfourteen => exact absurd hlen (not_or.mpr ⟨htwelve, hfourteen⟩)
  · rename_i hall
    have hds : ¬Digits pString := fun hds => hall (all_iff.mpr hds)
    rw [meets_of_refused hset]
    refine iff_of_true (fun u hu => ?_) (fun h => absurd h hds)
    cases hu with
    | shown hns => exact hds (hdigits (digits_of_follows (k := 0) (hshows _ hns) rfl))
    | seconds hne h => exact hds h

theorem setString_eq {p : Prop} [Decidable p] {tm : Tm} (hten : pString.length ≠ 10)
    (h : brokenDown zone xTM pString = if p then some tm else none) :
    setString zone xTM pString pTime =
      if p then (.ok, ⟨zone.mktime tm, 0⟩) else (.invalidFormat, pTime) := by
  simp only [setString, hten, false_and, if_false, h]
  by_cases hp : p
  · rw [if_pos hp, if_pos hp]
  · rw [if_neg hp, if_neg hp]

/-- Neither a date nor digits of ten characters are accepted. -/
theorem setString_ten (hten : pString.length = 10) :
    setString zone xTM pString pTime = (.invalidFormat, pTime) := by
  unfold setString
  split
  · rfl
  · rename_i hsep
    rw [not_and, Bool.not_eq_false] at hsep
    have hds : pString.all Char.isDigit ≠ true := fun hall =>
      not_digits_of_separated (hsep hten) List.mem_cons_self rfl (all_iff.mp hall)
    simp [brokenDown, hten, hds]

theorem meets_ten (hten : pString.length = 10) : Meets zone xTM pString pTime ↔
    (∀ ns, ¬Shows pString ns) ∧ ¬Digits pString := by
  rw [meets_of_refused (setString_ten hten)]
  constructor
  · intro hnone
    refine ⟨fun ns hns => hnone _ (.shown hns), fun hds => ?_⟩
    have hne : pString ≠ [] := List.ne_nil_of_length_eq_add_one hten
    exact hnone _ (.seconds hne hds (by omega) (by omega))
  · intro h t ht
    obtain ⟨hshows, hdigits⟩ := h
    cases ht with
    | shown hns => exact hshows _ hns
    | seconds hne hds => exact hdigits hds

/-- A number of seconds is converted to a local time and back. -/
theorem meets_seconds (hshows : ∀ ns, ¬Shows pString ns) (htwelve : pString.length ≠ 12)
    (hfourteen : pString.length ≠ 14)
    (hset : setString zone xTM pString pTime = if pString.all Char.isDigit = true
      then (.ok, ⟨zone.mktime (zone.localtime_r (.store m (strtoul m pString)) xTM), 0⟩)
      else (.invalidFormat, pTime)) :
    Meets zone xTM pString pTime ↔ (Digits pString → pString ≠ [] ∧
      ofDigitChars 10 pString 0 < m.limit ∧
      (zone.mktime (zone.localtime_r (.store m (ofDigitChars 10 pString 0)) xTM)).toInt =
        ofDigitChars 10 pString 0) := by
  split at hset
  · rename_i hall
    have hds := all_iff.mp hall
    have hexact : ofDigitChars 10 pString 0 < m.limit →
        strtoul m pString = ofDigitChars 10 pString 0 :=
      fun hless => Nat.min_eq_left (by omega)
    rw [meets_of_accepted hset]
    constructor
    · intro h _
      obtain ⟨⟨u, hu⟩, hsame⟩ := h
      cases hu with
      | shown hns => exact absurd hns (hshows _)
      | seconds hne =>
        have heq := hsame _ (.seconds hne hds htwelve hfourteen)
        have hless : ofDigitChars 10 pString 0 < m.limit := by
          have hmax := long_lt (zone.mktime (zone.localtime_r (.store m (strtoul m pString)) xTM))
          omega
        rw [hexact hless] at heq
        exact ⟨hne, hless, heq⟩
    · intro h
      obtain ⟨hne, hless, heq⟩ := h hds
      refine ⟨⟨_, .seconds hne hds htwelve hfourteen⟩, fun u hu => ?_⟩
      cases hu with
      | shown hns => exact absurd hns (hshows _)
      | seconds => rw [hexact hless, heq]
  · rename_i hall
    have hds : ¬Digits pString := fun hds => hall (all_iff.mpr hds)
    rw [meets_of_refused hset]
    refine iff_of_true (fun u hu => ?_) (fun h => absurd h hds)
    cases hu with
    | shown hns => exact hshows _ hns
    | seconds hne h => exact hds h

theorem meets_sixteen (hlen : pString.length = 16) : Meets zone xTM pString pTime ↔
    if separated [(4, '/'), (7, '/'), (10, '/'), (13, '/')] pString = true
    then ∃ ns, Shows pString ns else ¬Digits pString := by
  have hbroken : brokenDown zone xTM pString =
      if separated [(4, '/'), (7, '/'), (10, '/'), (13, '/')] pString = true
      then some (strptime pString "%Y/%m/%d/%H/%M".toList .zero) else none := by
    unfold brokenDown
    rw [if_pos hlen]
  refine meets_of_separated "%Y/%m/%d/%H/%M".toList hlen (by decide) (by decide) (by decide)
    ⟨(4, '/'), by decide⟩ (fun ns hns => ?_) (setString_eq (by omega) hbroken)
  rcases length_of_shows hns with h | h | h | h | h <;> first | omega | exact h.2

theorem meets_nineteen (hlen : pString.length = 19) : Meets zone xTM pString pTime ↔
    if separated [(4, '-'), (7, '-'), (10, ' '), (13, ':'), (16, ':')] pString = true
    then ∃ ns, Shows pString ns else ¬Digits pString := by
  have hbroken : brokenDown zone xTM pString =
      if separated [(4, '-'), (7, '-'), (10, ' '), (13, ':'), (16, ':')] pString = true
      then some (strptime pString "%Y-%m-%d %H:%M:%S".toList .zero) else none := by
    unfold brokenDown
    rw [if_neg (by omega), if_pos hlen]
  refine meets_of_separated "%Y-%m-%d %H:%M:%S".toList hlen (by decide) (by decide) (by decide)
    ⟨(4, '-'), by decide⟩ (fun ns hns => ?_) (setString_eq (by omega) hbroken)
  rcases length_of_shows hns with h | h | h | h | h <;> first | omega | exact h.2

theorem meets_twelve (hlen : pString.length = 12) : Meets zone xTM pString pTime ↔
    (Digits pString → ∃ ns, Shows pString ns ∧
      zone.mktime (xTM.fill ns) = zone.mktime (Tm.zero.fill ns)) := by
  have hbroken : brokenDown zone xTM pString = if pString.all Char.isDigit = true
      then some (strptime (formatted ("20".toList ++ pString)) "%Y-%m-%d %H:%M:%S".toList xTM)
      else none := by
    unfold brokenDown
    rw [if_neg (by omega), if_neg (by omega), if_pos hlen]
  refine meets_of_digits (.inl hlen) (fun ns hns => ?_)
    (fun hds c hc => hds c (List.mem_append_right _ hc)) (setString_eq (by omega) hbroken)
  rcases length_of_shows hns with h | h | h | h | h <;> first | omega | exact h.2

theorem meets_fourteen (hlen : pString.length = 14) : Meets zone xTM pString pTime ↔
    (Digits pString → ∃ ns, Shows pString ns ∧
      zone.mktime (xTM.fill ns) = zone.mktime (Tm.zero.fill ns)) := by
  have hbroken : brokenDown zone xTM pString = if pString.all Char.isDigit = true
      then some (strptime (formatted pString) "%Y-%m-%d %H:%M:%S".toList xTM) else none := by
    unfold brokenDown
    rw [if_neg (by omega), if_neg (by omega), if_neg (by omega), if_pos hlen]
  refine meets_of_digits (.inr hlen) (fun ns hns => ?_) id (setString_eq (by omega) hbroken)
  rcases length_of_shows hns with h | h | h | h | h <;> first | omega | exact h.2

/-- The function does as it should exactly then, for every string, whatever the memory of the
broken-down time holds. -/
theorem setString_meets_iff (zone : Zone m) (xTM : Tm) (pString : Text) (pTime : FtmTime m) :
    Meets zone xTM pString pTime ↔ Sound zone xTM pString := by
  unfold Sound
  split
  · rename_i hten
    exact meets_ten hten
  rename_i hten
  split
  · rename_i hsixteen
    exact meets_sixteen hsixteen
  rename_i hsixteen
  split
  · rename_i hnineteen
    exact meets_nineteen hnineteen
  rename_i hnineteen
  split
  · rename_i hdigits
    rcases hdigits with htwelve | hfourteen
    · exact meets_twelve htwelve
    · exact meets_fourteen hfourteen
  rename_i hdigits
  obtain ⟨htwelve, hfourteen⟩ := not_or.mp hdigits
  have hbroken : brokenDown zone xTM pString = if pString.all Char.isDigit = true
      then some (zone.localtime_r (.store m (strtoul m pString)) xTM) else none := by
    unfold brokenDown
    rw [if_neg hsixteen, if_neg hnineteen, if_neg htwelve, if_neg hfourteen]
  refine meets_seconds (fun ns hns => ?_) htwelve hfourteen (setString_eq hten hbroken)
  rcases length_of_shows hns with h | h | h | h | h <;> omega

/-- Days since the first of March of the year 0. -/
def dayNumber (year mon mday : Int) : Int :=
  let y := if mon < 2 then year - 1 else year
  365 * y + y / 4 - y / 100 + y / 400 + (153 * ((mon + 10) % 12) + 2) / 5 + mday - 1

/-- The zone of Greenwich, whose clocks are never changed. -/
def utc : Zone .lp64 where
  mktime tm := .store .lp64 ((((dayNumber (tm.tm_year + 1900) tm.tm_mon tm.tm_mday - 719468) * 24 +
    tm.tm_hour) * 60 + tm.tm_min) * 60 + tm.tm_sec)
  localtime_r t _ :=
    let z := t.toInt / 86400 + 719468
    let day := z % 146097
    let year := (day - day / 1460 + day / 36524 - day / 146096) / 365
    let dayOfYear := day - (365 * year + year / 4 - year / 100)
    let month := (5 * dayOfYear + 2) / 153
    { tm_sec := t.toInt % 60
      tm_min := t.toInt / 60 % 60
      tm_hour := t.toInt / 3600 % 24
      tm_mday := dayOfYear - (153 * month + 2) / 5 + 1
      tm_mon := (month + 2) % 12
      tm_year := year + z / 146097 * 400 + (if 10 ≤ month then 1 else 0) - 1900
      tm_isdst := 0 }

example : setString utc .zero "2016-07-01 12:30:00".toList ⟨0, 0⟩ = (.ok, ⟨1467376200, 0⟩) := by
  decide +kernel

/-- A date alone is refused. -/
theorem date_refused : ¬Meets utc .zero "2016/07/01".toList ⟨0, 0⟩ := by
  have hyear : Numeral 4 0 9999 "2016".toList :=
    ⟨by decide, rfl, List.all_eq_true.mp rfl, by decide, by decide⟩
  have hmon : Numeral 2 1 12 "07".toList :=
    ⟨by decide, rfl, List.all_eq_true.mp rfl, by decide, by decide⟩
  have hmday : Numeral 2 1 31 "01".toList :=
    ⟨by decide, rfl, List.all_eq_true.mp rfl, by decide, by decide⟩
  have hfollows : Follows (items "%Y/%m/%d".toList) "2016/07/01".toList
      [(.year, 2016), (.mon, 7), (.mday, 1)] :=
    .number _ hyear (.literal _ (.number _ hmon (.literal _ (.number _ hmday .nil))))
  have hten : "2016/07/01".toList.length = 10 := rfl
  rw [meets_ten hten]
  exact fun h => h.1 _ (.date hfollows)

end Catchb.Proofs.TimeStrings
