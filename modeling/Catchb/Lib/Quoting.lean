import Catchb.Lib.Shell

/-! What has to be quoted in a command line, and what double quotes do not quote. -/

namespace Catchb.Lib.Shell

/-- A character that a word takes as it is, once there is a word. -/
def taken (c : Char) : Bool := kind c = .plain || kind c = .hash

/-- A text that is a word without any quotation. -/
def literal : Text → Bool
  | [] => false
  | c :: t => kind c = .plain && t.all taken

/-- An argument that needs no quotation. -/
def plain (t : Text) : Bool := literal t && !looked (bare t)

/-- A text that double quotes quote, and leave as it is. -/
def verbatim : Text → Bool
  | [] => true
  | '\\' :: c :: t => c ∉ inDouble && c ≠ '\n' && verbatim t
  | c :: t => c ∉ inDouble && verbatim t

/-- Texts with a blank behind each. -/
def lead (ts : List Text) : Text := ts.flatMap (fun t => t ++ [' '])

@[simp] theorem lead_nil : lead [] = [] := rfl

@[simp] theorem lead_cons (t : Text) (ts : List Text) : lead (t :: ts) = t ++ ' ' :: lead ts := by
  simp [lead]

@[simp] theorem bare_cons (c : Char) (t : Text) : bare (c :: t) = (c, false) :: bare t := rfl

@[simp] theorem quoted_cons (c : Char) (t : Text) : quoted (c :: t) = (c, true) :: quoted t := rfl

namespace Reader
variable {r r' : Reader} {c : Char} {t : Text} {ts : List Text} {w : Option Word}
  {done : List (List Word)} {args : List Word}

theorem step_taken (u : Word) (h : taken c = true) :
    step ⟨done, args, .unquoted (some u)⟩ c =
      some ⟨done, args, .unquoted (some (u ++ [(c, false)]))⟩ := by
  rcases (Bool.or_eq_true _ _).mp h with hk | hk
  · simp [step, unquoted, of_decide_eq_true hk]
  · simp [step, unquoted, of_decide_eq_true hk]

theorem steps_taken (u : Word) (h : t.all taken = true) :
    steps ⟨done, args, .unquoted (some u)⟩ t =
      some ⟨done, args, .unquoted (some (u ++ bare t))⟩ := by
  induction t generalizing u with
  | nil => simp [steps, bare]
  | cons c t ih =>
    obtain ⟨hc, ht⟩ := (Bool.and_eq_true _ _).mp (List.all_cons ▸ h)
    rw [steps, step_taken u hc]
    simpa using ih (u ++ [(c, false)]) ht

theorem steps_literal (h : literal t = true) :
    steps ⟨done, args, .unquoted none⟩ t = some ⟨done, args, .unquoted (some (bare t))⟩ := by
  cases t with
  | nil => cases h
  | cons c t =>
    obtain ⟨hc, ht⟩ := (Bool.and_eq_true _ _).mp h
    have hstep : step ⟨done, args, .unquoted none⟩ c =
        some ⟨done, args, .unquoted (some [(c, false)])⟩ := by
      simp [step, unquoted, of_decide_eq_true hc]
    rw [steps, hstep]
    exact steps_taken [(c, false)] ht

theorem step_blank (w : Option Word) : step ⟨done, args, .unquoted w⟩ ' ' =
    some ⟨done, args ++ w.toList, .unquoted none⟩ := rfl

theorem steps_lead (h : ∀ t ∈ ts, literal t = true) : steps ⟨done, args, .unquoted none⟩ (lead ts) =
    some ⟨done, args ++ ts.map bare, .unquoted none⟩ := by
  induction ts generalizing args with
  | nil => simp [steps]
  | cons t ts ih =>
    rw [lead_cons, steps_append, steps_literal (h t (by simp)), Option.bind_some, steps, step_blank,
      Option.bind_some, ih (fun t ht => h t (by simp [ht]))]
    simp

theorem steps_verbatim (u : Word) (h : verbatim t = true) :
    steps ⟨done, args, .double u⟩ t = some ⟨done, args, .double (u ++ quoted t)⟩ := by
  induction t using verbatim.induct generalizing u with
  | case1 => simp [steps, quoted]
  | case2 c t ih =>
    simp only [verbatim, Bool.and_eq_true, decide_eq_true_eq] at h
    obtain ⟨⟨hc, hn⟩, ht⟩ := h
    have hback : step ⟨done, args, .double u⟩ '\\' = some ⟨done, args, .doubleEscaped u⟩ := rfl
    have hstep : step ⟨done, args, .doubleEscaped u⟩ c =
        some ⟨done, args, .double (u ++ [('\\', true), (c, true)])⟩ := by
      simp only [step]
      rw [if_neg hn, if_neg hc]
    rw [steps, hback, Option.bind_some, steps, hstep, Option.bind_some, ih _ ht]
    simp
  | case3 c t hne ih =>
    simp only [verbatim, Bool.and_eq_true, decide_eq_true_eq] at h
    obtain ⟨hc, ht⟩ := h
    have hstep : step ⟨done, args, .double u⟩ c =
        some ⟨done, args, .double (u ++ [(c, true)])⟩ := by
      have hquote : c ≠ '\x22' := fun he => hc (he ▸ by decide)
      have hback : c ≠ '\\' := fun he => hc (he ▸ by decide)
      simp only [step]
      rw [if_neg hquote, if_neg hback, if_neg hc]
    rw [steps, hstep, Option.bind_some, ih _ ht]
    simp

/-- A character that nothing quotes makes a whole character, or the end of a word, only where it is
taken as it is, or ends one. -/
theorem step_exact (h : step ⟨done, args, .unquoted w⟩ c = some r')
    (hsize : size ⟨done, args, .unquoted w⟩ < r'.size) :
    (r' = ⟨done, args, .unquoted (some (w.getD [] ++ [(c, false)]))⟩ ∧
      if w = none then kind c = .plain else taken c = true) ∨
    ∃ u, w = some u ∧ r'.first = (done ++ [args ++ [u]]).headD [] ∧ ∃ v, r'.place = .unquoted v := by
  have hended : ∀ q : Reader, (q = endWord ⟨done, args, .unquoted w⟩ w ∨
      q = (endWord ⟨done, args, .unquoted w⟩ w).endLine) → size ⟨done, args, .unquoted w⟩ < q.size →
      ∃ u, w = some u ∧ q.first = (done ++ [args ++ [u]]).headD [] ∧ ∃ v, q.place = .unquoted v := by
    intro q hq hlt
    cases w with
    | none =>
      rcases hq with rfl | rfl
      · simp [size, endWord, Place.size] at hlt
      · rw [size_endLine] at hlt
        simp [size, endWord, Place.size] at hlt
    | some u =>
      refine ⟨u, rfl, ?_⟩
      rcases hq with rfl | rfl
      · exact ⟨rfl, none, rfl⟩
      · refine ⟨first_endLine, none, ?_⟩
        unfold endLine
        split <;> rfl
  simp only [step, unquoted] at h
  cases hk : kind c <;> simp only [hk, Option.some.injEq, reduceCtorEq] at h
  case blank => exact .inr (hended _ (.inl h.symm) hsize)
  case newline => exact .inr (hended _ (.inr h.symm) hsize)
  case separator => exact .inr (hended _ (.inr (endCommand_eq h)) hsize)
  case hash =>
    cases w with
    | none =>
      cases h
      exact absurd hsize (by simp [size, Place.size])
    | some u =>
      cases h
      exact .inl ⟨rfl, by simp [taken, hk]⟩
  case plain =>
    subst h
    refine .inl ⟨rfl, ?_⟩
    split
    · rfl
    · simp [taken, hk]
  all_goals
    subst h
    exact absurd hsize (by simp [size, Place.size])

/-- A text of which nothing is lost is taken as it is, unless the word ends within it. -/
theorem taken_or_short {u : Word} (h : steps ⟨[], args, .unquoted (some u)⟩ t = some r')
    (hsize : size ⟨[], args, .unquoted (some u)⟩ + t.length ≤ r'.size) :
    t.all taken = true ∨ ∃ v : Word, args ++ [v] <+: r'.first ∧ v.length < u.length + t.length := by
  induction t generalizing u with
  | nil => exact .inl rfl
  | cons c t ih =>
    obtain ⟨r₁, hstep, hrest⟩ := Option.bind_eq_some_iff.mp h
    have hle := steps_size hrest
    have hone := step_size hstep
    rw [List.length_cons] at hsize
    rcases step_exact hstep (by omega) with ⟨rfl, hkind⟩ | ⟨u', hu, hfirst, -⟩
    · simp only [reduceCtorEq, ↓reduceIte] at hkind
      rcases ih hrest (by omega) with ht | ⟨v, hv, hlt⟩
      · exact .inl (by simp [hkind, ht])
      · refine .inr ⟨v, hv, ?_⟩
        simp only [Option.getD_some, List.length_append, List.length_singleton] at hlt
        rw [List.length_cons]
        omega
    · cases hu
      refine .inr ⟨u, ?_, by simp⟩
      have hmore := steps_first hrest
      rwa [hfirst] at hmore

theorem literal_or_short (ht : t ≠ []) (h : steps ⟨[], args, .unquoted none⟩ t = some r')
    (hsize : size ⟨[], args, .unquoted none⟩ + t.length ≤ r'.size) :
    literal t = true ∨ ∃ v : Word, args ++ [v] <+: r'.first ∧ v.length < t.length := by
  cases t with
  | nil => exact absurd rfl ht
  | cons c t =>
    obtain ⟨r₁, hstep, hrest⟩ := Option.bind_eq_some_iff.mp h
    have hle := steps_size hrest
    have hone := step_size hstep
    rw [List.length_cons] at hsize
    rcases step_exact hstep (by omega) with ⟨rfl, hkind⟩ | ⟨u, hu, -⟩
    · simp only [↓reduceIte] at hkind
      rcases taken_or_short hrest (by omega) with ht | ⟨v, hv, hlt⟩
      · exact .inl (by simp [literal, hkind, ht])
      · refine .inr ⟨v, hv, ?_⟩
        simp only [Option.getD_none, List.nil_append, List.length_singleton] at hlt
        rw [List.length_cons]
        omega
    · cases hu

/-- Where nothing is lost and the words come out as the texts, each text is taken as it is. -/
theorem literal_of_lead {ws : List Word} (h : steps ⟨[], args, .unquoted none⟩ (lead ts) = some r')
    (hsize : size ⟨[], args, .unquoted none⟩ + (lead ts).length ≤ r'.size)
    (hfirst : r'.first <+: args ++ ws) (hts : ts <+: ws.map text) : ∀ t ∈ ts, literal t = true := by
  induction ts generalizing args ws with
  | nil => simp
  | cons t ts ih =>
    obtain ⟨v, ws, rfl⟩ : ∃ v vs, ws = v :: vs := by
      cases ws with
      | nil => simp at hts
      | cons v vs => exact ⟨v, vs, rfl⟩
    obtain ⟨hv, hts⟩ : t = text v ∧ ts <+: ws.map text := by
      simpa [List.cons_prefix_cons] using hts
    have hshort : ¬∃ u : Word, args ++ [u] <+: r'.first ∧ u.length < t.length := by
      rintro ⟨u, hu, hlt⟩
      have hall := hu.trans hfirst
      rw [List.prefix_append_right_inj, List.cons_prefix_cons] at hall
      rw [hv, hall.1, length_text] at hlt
      exact Nat.lt_irrefl _ hlt
    rw [lead_cons] at h hsize
    rw [steps_append] at h
    obtain ⟨r₁, hsteps, hrest⟩ := Option.bind_eq_some_iff.mp h
    have hle := steps_size hsteps
    have hle' := steps_size hrest
    rw [List.length_append] at hsize
    have ht : literal t = true := by
      by_cases hnil : t = []
      · -- the blank behind it would be lost
        subst hnil
        cases hsteps
        rw [steps, step_blank, Option.bind_some] at hrest
        have hmore := steps_size hrest
        simp [size, Place.size] at hmore hsize
        omega
      · rcases literal_or_short hnil hsteps (by omega) with ht | ⟨u, hu, hlt⟩
        · exact ht
        · exact absurd ⟨u, hu.trans (steps_first hrest), hlt⟩ hshort
    rw [steps_literal ht] at hsteps
    cases hsteps
    rw [steps, step_blank, Option.bind_some] at hrest
    have hword : bare t = v := by
      have hall := (steps_first hrest).trans hfirst
      simpa [first, List.prefix_append_right_inj, List.cons_prefix_cons] using hall
    have htail : ∀ u ∈ ts, literal u = true := by
      refine ih hrest ?_ ?_ hts
      · simp only [size, Place.size, List.length_cons, Option.toList_some,
          count_append, count_singleton, length_bare] at hsize ⊢
        omega
      · simpa [hword] using hfirst
    intro u hu
    rcases List.mem_cons.mp hu with rfl | hu
    · exact ht
    · exact htail u hu

theorem finish_exact {cs : List (List Word)} (h : r.finish = some cs) (hsize : r.size < total cs) :
    ∃ u, r.place = .unquoted (some u) := by
  rcases finish_cases h with ⟨w, hplace, rfl⟩ | ⟨hplace, rfl⟩
  · cases w with
    | none =>
      rw [total_endLine, size, hplace] at hsize
      simp [Place.size] at hsize
    | some u => exact ⟨u, hplace⟩
  · rw [total_endLine, size] at hsize
    omega

theorem count_of_text {ws : List Word} (h : ws.map text = ts) : count ws = (lead ts).length := by
  induction ws generalizing ts with
  | nil =>
    subst h
    rfl
  | cons w ws ih =>
    subst h
    have htail := ih rfl
    simp only [count, List.map_cons, List.sum_cons, lead_cons, List.length_append, List.length_cons,
      length_text] at htail ⊢
    omega

/-- The last word ends with the line. -/
theorem literal_of_read {ws : List Word}
    (h : read ⟨[], args, .unquoted none⟩ (lead ts ++ t) = some [args ++ ws])
    (htext : ws.map text = ts ++ [t]) : ∀ u ∈ ts ++ [t], literal u = true := by
  obtain ⟨r, hsteps, hfinish⟩ := Option.bind_eq_some_iff.mp h
  have hlead : lead (ts ++ [t]) = lead ts ++ t ++ [' '] := by simp [lead]
  have hcount : count ws = (lead ts ++ t).length + 1 := by
    rw [count_of_text htext, hlead, List.length_append]
    rfl
  have htotal : total [args ++ ws] = count args + (lead ts ++ t).length + 1 := by
    simp [total, hcount, Nat.add_assoc]
  have hstart : size ⟨[], args, .unquoted none⟩ = count args := by simp [size, Place.size, total]
  have hle := steps_size hsteps
  have hend := finish_size hfinish
  obtain ⟨u, hplace⟩ := finish_exact hfinish (by omega)
  obtain ⟨done, args', place⟩ := r
  subst hplace
  have hlast : steps ⟨[], args, .unquoted none⟩ (lead (ts ++ [t])) =
      some (endWord ⟨done, args', .unquoted (some u)⟩ (some u)) := by
    rw [hlead, steps_append, hsteps]
    rfl
  have hfirst := first_of_endLine (Option.some.inj hfinish)
  refine literal_of_lead hlast ?_ ⟨[], by simpa using hfirst⟩ ⟨[], by simpa using htext.symm⟩
  rw [hstart, hlead, List.length_append, List.length_singleton]
  simp only [size, endWord, Place.size, Option.toList_some, count_append, count_singleton,
    Option.getD_some, Option.getD_none, List.length_nil] at hend ⊢
  omega

/-- A double quote at the end of a line is one that ends a quotation. -/
theorem unquoted_cost {cs : List (List Word)} (h : r.place = .unquoted w)
    (hread : r.read (t ++ ['\x22']) = some cs) : total cs ≤ r.size + t.length + 1 := by
  induction t generalizing r w with
  | nil =>
    obtain ⟨done, args, place⟩ := r
    subst h
    cases hread
  | cons c t ih =>
    rw [List.cons_append, read_cons] at hread
    obtain ⟨r₁, hstep, hrest⟩ := Option.bind_eq_some_iff.mp hread
    have hone := step_size hstep
    rw [List.length_cons]
    by_cases hsize : r.size < r₁.size
    · obtain ⟨v, hv⟩ : ∃ v, r₁.place = .unquoted v := by
        obtain ⟨done, args, place⟩ := r
        subst h
        rcases step_exact hstep hsize with ⟨rfl, -⟩ | ⟨u, -, -, hv⟩
        · exact ⟨_, rfl⟩
        · exact hv
      have hcost := ih hv hrest
      omega
    · have hcost := read_size hrest
      rw [List.length_append, List.length_singleton] at hcost
      omega

theorem double_cost {u : Word} {cs : List (List Word)}
    (h : r.place = .double u ∨ r.place = .doubleEscaped u) (hread : r.read t = some cs) :
    total cs ≤ r.size + t.length := by
  induction t generalizing r u with
  | nil =>
    obtain ⟨done, args, place⟩ := r
    rcases h with h | h <;> subst h <;> cases hread
  | cons c t ih =>
    rw [read_cons] at hread
    obtain ⟨r₁, hstep, hrest⟩ := Option.bind_eq_some_iff.mp hread
    have hone := step_size hstep
    rw [List.length_cons]
    have hstays : (∃ v, r₁.place = .double v ∨ r₁.place = .doubleEscaped v) ∨ r₁.size = r.size := by
      obtain ⟨done, args, place⟩ := r
      rcases h with h | h <;> subst h
      · simp only [step] at hstep
        split_ifs at hstep <;> cases hstep
        · exact .inr rfl
        · exact .inl ⟨u, .inr rfl⟩
        · exact .inl ⟨_, .inl rfl⟩
      · simp only [step] at hstep
        split_ifs at hstep <;> cases hstep <;> exact .inl ⟨_, .inl rfl⟩
    rcases hstays with ⟨v, hv⟩ | hsame
    · have hcost := ih hv hrest
      omega
    · have hcost := read_size hrest
      omega

theorem single_cost {u : Word} {cs : List (List Word)} (h : r.place = .single u)
    (hread : r.read (t ++ ['\x22']) = some cs) : total cs ≤ r.size + t.length := by
  induction t generalizing r u with
  | nil =>
    obtain ⟨done, args, place⟩ := r
    subst h
    cases hread
  | cons c t ih =>
    obtain ⟨done, args, place⟩ := r
    subst h
    rw [List.cons_append, read_cons] at hread
    obtain ⟨r₁, hstep, hrest⟩ := Option.bind_eq_some_iff.mp hread
    simp only [step] at hstep
    split at hstep <;> cases hstep
    · have hcost := unquoted_cost rfl hrest
      simpa [size, Place.size, Nat.add_assoc] using hcost
    · have hcost := ih rfl hrest
      simp only [size, Place.size, List.length_append, List.length_cons, List.length_nil] at hcost ⊢
      omega

theorem comment_cost {cs : List (List Word)} (h : r.place = .comment)
    (hread : r.read ('\x22' :: (t ++ ['\x22'])) = some cs) : total cs ≤ r.size + t.length + 1 := by
  obtain ⟨done, args, place⟩ := r
  subst h
  obtain ⟨c, t', heq⟩ : ∃ c t', t ++ ['\x22'] = c :: t' := by
    cases t with
    | nil => exact ⟨_, _, rfl⟩
    | cons c t => exact ⟨c, t ++ ['\x22'], rfl⟩
  have hlength : t'.length = t.length := by simpa using (congrArg List.length heq).symm
  have hrest : read ⟨done, args, .comment⟩ (c :: t') = some cs := by
    rw [read_cons, heq] at hread
    exact hread
  rw [read_cons] at hrest
  obtain ⟨r₁, hstep, hend⟩ := Option.bind_eq_some_iff.mp hrest
  have hsize : r₁.size = size ⟨done, args, .comment⟩ := by
    simp only [step] at hstep
    split at hstep <;> cases hstep
    · rw [size_endLine, size, Place.size, Nat.add_zero]
    · rfl
  have hcost := read_size hend
  omega

/-- Two characters are lost where a text is put between double quotes. -/
theorem tail_cost {cs : List (List Word)} (hescaped : ∀ w, r.place ≠ .escaped w)
    (hdouble : ∀ u, r.place ≠ .doubleEscaped u)
    (hread : r.read ('\x22' :: (t ++ ['\x22'])) = some cs) : total cs ≤ r.size + t.length + 1 := by
  obtain ⟨done, args, place⟩ := r
  cases place with
  | unquoted w =>
    have hrest : read ⟨done, args, .double (w.getD [])⟩ (t ++ ['\x22']) = some cs := by
      rw [read_cons] at hread
      exact hread
    have hcost := double_cost (.inl rfl) hrest
    rwa [List.length_append] at hcost
  | escaped w => exact absurd rfl (hescaped w)
  | single u =>
    have hrest : read ⟨done, args, .single u⟩ (('\x22' :: t) ++ ['\x22']) = some cs := hread
    exact single_cost rfl hrest
  | double u =>
    have hrest : read ⟨done, args, .unquoted (some u)⟩ (t ++ ['\x22']) = some cs := by
      rw [read_cons] at hread
      exact hread
    have hcost := unquoted_cost rfl hrest
    exact hcost
  | doubleEscaped u => exact absurd rfl (hdouble u)
  | comment => exact comment_cost rfl hread

/-- Where no more is lost than the end of the quotation, the text is left as it is. -/
theorem verbatim_of_read {u : Word} {cs : List (List Word)} (h : r.place = .double u)
    (hread : r.read (t ++ ['\x22']) = some cs) (htotal : r.size + t.length + 1 ≤ total cs) :
    verbatim t = true := by
  induction t using verbatim.induct generalizing r u with
  | case1 => rfl
  | case2 c t ih =>
    obtain ⟨done, args, place⟩ := r
    subst h
    have hrest : read ⟨done, args, .doubleEscaped u⟩ (c :: (t ++ ['\x22'])) = some cs := by
      rw [List.cons_append, read_cons] at hread
      exact hread
    rw [read_cons] at hrest
    obtain ⟨r₁, hstep, hend⟩ := Option.bind_eq_some_iff.mp hrest
    simp only [size, Place.size, List.length_cons] at htotal
    simp only [step] at hstep
    split_ifs at hstep with hn hc <;> cases hstep
    · have hcost := double_cost (.inl rfl) hend
      simp only [size, Place.size, List.length_append, List.length_singleton] at hcost
      omega
    · have hcost := double_cost (.inl rfl) hend
      simp only [size, Place.size, List.length_append, List.length_singleton] at hcost
      omega
    · have ht := ih rfl hend (by
        simp only [size, Place.size, List.length_append, List.length_cons, List.length_nil]
        omega)
      simp [verbatim, hn, hc, ht]
  | case3 c t hne ih =>
    obtain ⟨done, args, place⟩ := r
    subst h
    rw [List.cons_append, read_cons] at hread
    obtain ⟨r₁, hstep, hend⟩ := Option.bind_eq_some_iff.mp hread
    simp only [size, Place.size, List.length_cons] at htotal
    simp only [step] at hstep
    split_ifs at hstep with hquote hback hc <;> cases hstep
    · have hcost := unquoted_cost rfl hend
      simp only [size, Place.size, Option.getD_some] at hcost
      omega
    · -- the backslash escapes the double quote behind the text
      cases t with
      | nil => cases hend
      | cons d t => exact (hne d t hback rfl).elim
    · have ht := ih rfl hend (by
        simp only [size, Place.size, List.length_append, List.length_singleton]
        omega)
      simp [verbatim, hc, ht]

theorem step_space_place (h : r.step ' ' = some r') :
    (∀ w, r'.place ≠ .escaped w) ∧ ∀ u, r'.place ≠ .doubleEscaped u := by
  obtain ⟨done, args, place⟩ := r
  cases place <;> cases h <;> exact ⟨fun _ => Place.noConfusion, fun _ => Place.noConfusion⟩

theorem lead_place (h : steps ⟨done, args, .unquoted none⟩ (lead ts) = some r') :
    (∀ w, r'.place ≠ .escaped w) ∧ ∀ u, r'.place ≠ .doubleEscaped u := by
  rcases List.eq_nil_or_concat ts with rfl | ⟨us, u, rfl⟩
  · cases h
    exact ⟨fun _ => Place.noConfusion, fun _ => Place.noConfusion⟩
  · have hlead : lead (us ++ [u]) = (lead us ++ u) ++ [' '] := by simp [lead]
    rw [List.concat_eq_append, hlead, steps_append] at h
    obtain ⟨r₁, -, hlast⟩ := Option.bind_eq_some_iff.mp h
    obtain ⟨r₂, hstep, hnil⟩ := Option.bind_eq_some_iff.mp hlast
    cases hnil
    exact step_space_place hstep

/-- A line of which only the two double quotes are lost. -/
theorem quoted_of_read {ws : List Word}
    (h : read start (lead ts ++ '\x22' :: (t ++ ['\x22'])) = some [ws])
    (htext : ws.map text = ts ++ [t]) :
    (∀ u ∈ ts, literal u = true) ∧ verbatim t = true := by
  obtain ⟨r, hsteps, hread⟩ : ∃ r, start.steps (lead ts) = some r ∧
      r.read ('\x22' :: (t ++ ['\x22'])) = some [ws] := by
    cases hsteps : start.steps (lead ts) with
    | none => simp [read, steps_append, hsteps] at h
    | some r => exact ⟨r, rfl, by rwa [read_append hsteps] at h⟩
  have htotal : total [ws] = (lead ts).length + t.length + 1 := by
    have hcount := count_of_text htext
    simpa [total, lead, Nat.add_assoc] using hcount
  have hle := steps_size hsteps
  obtain ⟨hescaped, hdouble⟩ := lead_place hsteps
  have hcost := tail_cost hescaped hdouble hread
  have hstart : size start = 0 := rfl
  have hlit : ∀ u ∈ ts, literal u = true := by
    refine literal_of_lead hsteps ?_ (read_first hread) ⟨[t], htext.symm⟩
    exact (by omega : start.size + (lead ts).length ≤ r.size)
  refine ⟨hlit, ?_⟩
  rw [start, steps_lead hlit] at hsteps
  cases hsteps
  rw [read_cons] at hread
  have hrest : read ⟨[], [] ++ ts.map bare, .double []⟩ (t ++ ['\x22']) = some [ws] := hread
  refine verbatim_of_read rfl hrest ?_
  have hbare : count (ts.map bare) = (lead ts).length := by
    refine count_of_text ?_
    simp [Function.comp_def]
  rw [htotal]
  simp [size, Place.size, total, hbare]

/-- Without a blank no second word of the command comes. -/
theorem step_inside (hargs : r.args ≠ []) (hdone : r.done = []) (h : r.step c = some r')
    (hc : kind c ≠ .blank) :
    (r'.done = [] ∧ r'.args = r.args) ∨ ∃ w : Option Word, r'.done = [r.args ++ w.toList] := by
  rcases step_cases h with ⟨hdone', hargs', -⟩ | ⟨w, -, ⟨hk, -⟩ | rfl⟩ | ⟨-, rfl⟩
  · exact .inl ⟨hdone'.trans hdone, hargs'⟩
  · exact absurd hk hc
  · exact .inr ⟨w, by simp [endLine, hargs, hdone]⟩
  · exact .inr ⟨none, by simp [endLine, hargs, hdone]⟩

theorem steps_inside (hargs : r.args ≠ []) (hdone : r.done = []) (h : r.steps t = some r')
    (ht : ∀ c ∈ t, kind c ≠ .blank) :
    (r'.done = [] ∧ r'.args = r.args) ∨ ∃ w : Option Word, [r.args ++ w.toList] <+: r'.done := by
  induction t generalizing r with
  | nil =>
    cases h
    exact .inl ⟨hdone, rfl⟩
  | cons c t ih =>
    obtain ⟨r₁, hstep, hrest⟩ := Option.bind_eq_some_iff.mp h
    rcases step_inside hargs hdone hstep (ht c (by simp)) with ⟨hdone₁, hargs₁⟩ | ⟨w, hw⟩
    · have hmore := ih (hargs₁ ▸ hargs) hdone₁ hrest (fun c hc => ht c (by simp [hc]))
      rwa [hargs₁] at hmore
    · exact .inr ⟨w, hw ▸ steps_done hrest⟩

theorem size_place (h : ∀ u, r.place ≠ .doubleEscaped u) : r.place.size = r.place.word.length := by
  obtain ⟨done, args, place⟩ := r
  cases place <;> first | rfl | exact absurd rfl (h _)

/-- A text without a blank is the next word of the command, when nothing is lost behind it. -/
theorem word_of_read {v : Word} {vs : List Word} (hargs : args ≠ []) (hvs : vs ≠ [])
    {s : Text} (hs : ∀ c ∈ s, kind c ≠ .blank)
    (h : read ⟨[], args, .unquoted none⟩ (s ++ ' ' :: t) = some [args ++ v :: vs])
    (hcount : t.length < count vs) :
    steps ⟨[], args, .unquoted none⟩ s = some ⟨[], args, .unquoted (some v)⟩ := by
  have hlong : ∀ (q : Reader) (u : Text) (w : Option Word), [args ++ w.toList] <+: q.done →
      q.read u ≠ some [args ++ v :: vs] := by
    intro q u w hq hread
    have heq : args ++ w.toList = args ++ v :: vs := by
      simpa using hq.trans (read_done hread)
    have htail := List.append_cancel_left heq
    cases w with
    | none => cases htail
    | some u => exact hvs (List.cons.inj htail).2.symm
  obtain ⟨r, hsteps, hread⟩ : ∃ r, steps ⟨[], args, .unquoted none⟩ s = some r ∧
      r.read (' ' :: t) = some [args ++ v :: vs] := by
    cases hsteps : steps ⟨[], args, .unquoted none⟩ s with
    | none => simp [read, steps_append, hsteps] at h
    | some r => exact ⟨r, rfl, by rwa [read_append hsteps] at h⟩
  rcases steps_inside hargs rfl hsteps hs with ⟨hdone, hsame⟩ | ⟨w, hw⟩
  · rw [read_cons] at hread
    obtain ⟨r₁, hstep, hrest⟩ := Option.bind_eq_some_iff.mp hread
    have hsize := read_size hrest
    -- the word has to be complete: what is behind it is too short for more
    have hopen : r₁.done = [] → r₁.args = args → False := by
      intro hdone₁ hargs₁
      have hword := word_prefix hdone₁ (hargs₁.symm ▸ hrest)
      have hplace := size_place (step_space_place hstep).2
      have hle := hword.length_le
      have hopened : r₁.size = count args + r₁.place.word.length := by
        rw [size, hdone₁, hargs₁, hplace, total, List.map_nil, List.sum_nil, Nat.zero_add]
      have htotal : total [args ++ v :: vs] = count args + (v.length + 1 + count vs) := by
        simp [total, count]
      omega
    rcases step_cases hstep with ⟨hdone₁, hargs₁, -⟩ | ⟨w, hplace, ⟨-, rfl⟩ | rfl⟩ | ⟨-, rfl⟩
    · exact (hopen (hdone₁.trans hdone) (hargs₁.trans hsame)).elim
    · cases w with
      | none => exact (hopen hdone (by simp [hsame])).elim
      | some u =>
        have hfirst := read_first hrest
        have huv : u = v := by
          simpa [first, hdone, hsame, List.prefix_append_right_inj, List.cons_prefix_cons] using hfirst
        obtain ⟨done', args', place⟩ := r
        simp only at hdone hsame hplace
        subst hdone hsame hplace huv
        exact hsteps
    · refine (hlong _ _ w ?_ hrest).elim
      simp [endLine, hdone, hsame, hargs]
    · refine (hlong _ _ none ?_ hrest).elim
      simp [endLine, hdone, hsame, hargs]
  · exact (hlong r _ w hw hread).elim

end Reader

section
variable {t : Text} {ts : List Text}

/-- Nothing looks like a pattern, and there are no such users. -/
def Env.still : Env := ⟨fun w => [text w]⟩

/-- Something is found for whatever is looked up. -/
def Env.moved : Env := ⟨fun w => ['x' :: text w]⟩

@[simp] theorem fields_still (w : Word) : Env.still.fields w = [text w] := by
  unfold Env.fields
  split <;> rfl

theorem fields_literal (env : Env) {w : Word} (h : looked w = false) : env.fields w = [text w] := by
  simp [Env.fields, h]

theorem pattern_quoted (t : Text) : pattern (quoted t) = false := by
  induction t with
  | nil => rfl
  | cons c t ih => simp [pattern, ih]

theorem looked_quoted (t : Text) : looked (quoted t) = false := by
  cases t with
  | nil => rfl
  | cons c t => simpa [looked] using pattern_quoted (c :: t)

theorem flatMap_still (ws : List Word) : ws.flatMap Env.still.fields = ws.map text := by
  induction ws with
  | nil => rfl
  | cons w ws ih => simp [ih]

theorem commands_still {line : Text} {as : List Text} (h : commands Env.still line = some [as]) :
    ∃ ws, words line = some [ws] ∧ ws.map text = as := by
  obtain ⟨cs, hcs, hmap⟩ := Option.map_eq_some_iff.mp h
  obtain ⟨ws, rfl, hws⟩ := List.map_eq_singleton_iff.mp hmap
  exact ⟨ws, hcs, by rwa [flatMap_still] at hws⟩

theorem commands_of_words {line : Text} {ws : List Word} (h : words line = some [ws]) (env : Env) :
    commands env line = some [ws.flatMap env.fields] := by
  simp [commands, h]

theorem flatMap_bare (env : Env) (h : ∀ t ∈ ts, looked (bare t) = false) :
    (ts.map bare).flatMap env.fields = ts := by
  induction ts with
  | nil => rfl
  | cons t ts ih =>
    have htail := ih (fun u hu => h u (by simp [hu]))
    simp [fields_literal env (h t (by simp)), htail]

/-- Words that come out as they are wherever the shell is run are never looked up. -/
theorem looked_of_moved {as : List Text}
    (h : (ts.map bare).flatMap Env.moved.fields ++ as = ts ++ as) :
    ∀ t ∈ ts, looked (bare t) = false := by
  induction ts with
  | nil => simp
  | cons t ts ih =>
    have hfields : Env.moved.fields (bare t) = [if looked (bare t) then 'x' :: t else t] := by
      unfold Env.fields
      split <;> simp_all [Env.moved]
    simp only [List.map_cons, List.flatMap_cons, hfields, List.cons_append, List.cons.injEq] at h
    have ht : looked (bare t) = false := by
      cases hl : looked (bare t) with
      | false => rfl
      | true => simp [hl] at h
    intro u hu
    rcases List.mem_cons.mp hu with rfl | hu
    · exact ht
    · exact ih h.2 u hu

theorem plain_iff : plain t = true ↔ literal t = true ∧ looked (bare t) = false := by
  simp [plain]

theorem words_lead (h : ∀ u ∈ ts ++ [t], literal u = true) :
    words (lead ts ++ t) = some [(ts ++ [t]).map bare] := by
  have hts : ∀ u ∈ ts, literal u = true := fun u hu => h u (by simp [hu])
  have hlead : start.steps (lead ts) = some ⟨[], [] ++ ts.map bare, .unquoted none⟩ :=
    Reader.steps_lead hts
  rw [words, Reader.read_append hlead, Reader.read, Reader.steps_literal (h t (by simp))]
  simp [Reader.finish, Reader.endWord, Reader.endLine]

/-- Arguments that are written as they are reach the command as they are just when none needs
quotation. -/
theorem commands_bare_iff : (∀ env, commands env (lead ts ++ t) = some [ts ++ [t]]) ↔
    ∀ u ∈ ts ++ [t], plain u = true := by
  constructor
  · intro h
    obtain ⟨ws, hwords, htext⟩ := commands_still (h Env.still)
    have hread : Reader.read ⟨[], [], .unquoted none⟩ (lead ts ++ t) = some [[] ++ ws] := hwords
    have hlit := Reader.literal_of_read hread htext
    have hmoved := (commands_of_words (words_lead hlit) Env.moved).symm.trans (h Env.moved)
    have hfields : ((ts ++ [t]).map bare).flatMap Env.moved.fields ++ [] = ts ++ [t] ++ [] := by
      simpa using hmoved
    have hlook := looked_of_moved hfields
    exact fun u hu => plain_iff.mpr ⟨hlit u hu, hlook u hu⟩
  · intro h env
    have hlit := words_lead (fun u hu => (plain_iff.mp (h u hu)).1)
    rw [commands_of_words hlit, flatMap_bare env (fun u hu => (plain_iff.mp (h u hu)).2)]

theorem words_quoted (hts : ∀ u ∈ ts, literal u = true) (ht : verbatim t = true) :
    words (lead ts ++ '\x22' :: (t ++ ['\x22'])) = some [ts.map bare ++ [quoted t]] := by
  have hlead : start.steps (lead ts) = some ⟨[], [] ++ ts.map bare, .unquoted none⟩ :=
    Reader.steps_lead hts
  have hquoted : Reader.steps ⟨[], [] ++ ts.map bare, .double []⟩ t =
      some ⟨[], [] ++ ts.map bare, .double ([] ++ quoted t)⟩ := Reader.steps_verbatim [] ht
  rw [words, Reader.read_append hlead, Reader.read_cons]
  refine (Reader.read_append hquoted ['\x22']).trans ?_
  simp [Reader.read, Reader.steps, Reader.step, Reader.finish, Reader.endWord, Reader.endLine]

/-- A last argument between double quotes. -/
theorem commands_quoted_iff :
    (∀ env, commands env (lead ts ++ '\x22' :: (t ++ ['\x22'])) = some [ts ++ [t]]) ↔
      (∀ u ∈ ts, plain u = true) ∧ verbatim t = true := by
  constructor
  · intro h
    obtain ⟨ws, hwords, htext⟩ := commands_still (h Env.still)
    obtain ⟨hlit, hverbatim⟩ := Reader.quoted_of_read hwords htext
    have hmoved := (commands_of_words (words_quoted hlit hverbatim) Env.moved).symm.trans (h Env.moved)
    have hfields : (ts.map bare).flatMap Env.moved.fields ++ [t] = ts ++ [t] := by
      simpa [fields_literal _ (looked_quoted t)] using hmoved
    have hlook := looked_of_moved hfields
    exact ⟨fun u hu => plain_iff.mpr ⟨hlit u hu, hlook u hu⟩, hverbatim⟩
  · rintro ⟨hts, ht⟩ env
    have hlit := words_quoted (fun u hu => (plain_iff.mp (hts u hu)).1) ht
    rw [commands_of_words hlit, List.flatMap_append,
      flatMap_bare env (fun u hu => (plain_iff.mp (hts u hu)).2)]
    simp [fields_literal env (looked_quoted t)]

/-- The word that a text is when it follows the words of a command, if it is one. -/
def asWord (ws : List Word) (s : Text) : Option Word :=
  match Reader.steps ⟨[], ws, .unquoted none⟩ s with
  | some ⟨[], vs, .unquoted (some w)⟩ => if vs = ws then some w else none
  | _ => none

theorem asWord_iff {ws : List Word} {s : Text} {w : Word} : asWord ws s = some w ↔
    Reader.steps ⟨[], ws, .unquoted none⟩ s = some ⟨[], ws, .unquoted (some w)⟩ := by
  unfold asWord
  split
  · rename_i vs v heq
    rw [heq]
    by_cases hvs : vs = ws <;> simp [hvs]
  · rename_i hne
    constructor
    · intro h
      cases h
    · intro h
      exact (hne ws w h).elim

theorem length_fields_moved (w : Word) : (Env.moved.fields w).length = 1 := by
  unfold Env.fields
  split <;> rfl

theorem words_word {xs ys : List Text} {s y : Text} {w : Word} (hxs : ∀ x ∈ xs, literal x = true)
    (hs : asWord (xs.map bare) s = some w) (hys : ∀ u ∈ ys ++ [y], literal u = true) :
    words (lead (xs ++ s :: ys) ++ y) = some [xs.map bare ++ w :: (ys ++ [y]).map bare] := by
  have hlead : start.steps (lead xs) = some ⟨[], [] ++ xs.map bare, .unquoted none⟩ :=
    Reader.steps_lead hxs
  have hline : lead (xs ++ s :: ys) ++ y = lead xs ++ (s ++ (' ' :: (lead ys ++ y))) := by simp [lead]
  have hlast : ∀ u ∈ ys, literal u = true := fun u hu => hys u (by simp [hu])
  rw [hline, words, Reader.read_append hlead, List.nil_append, Reader.read_append (asWord_iff.mp hs),
    Reader.read_cons, Reader.step_blank, Option.bind_some,
    Reader.read_append (Reader.steps_lead hlast), Reader.read,
    Reader.steps_literal (hys y (by simp))]
  simp [Reader.finish, Reader.endWord, Reader.endLine]

/-- One argument may be written otherwise than it is meant, if it is a single word and comes out as
what is meant. -/
theorem commands_word_iff {xs ys : List Text} {s id y : Text} (hxs : ∀ x ∈ xs, plain x = true)
    (hne : xs ≠ []) (hs : ∀ c ∈ s, kind c ≠ .blank) :
    (∀ env, commands env (lead (xs ++ s :: ys) ++ y) = some [xs ++ id :: (ys ++ [y])]) ↔
      (∃ w, asWord (xs.map bare) s = some w ∧ ∀ env : Env, env.fields w = [id]) ∧
        ∀ u ∈ ys ++ [y], plain u = true := by
  have hlit : ∀ x ∈ xs, literal x = true := fun x hx => (plain_iff.mp (hxs x hx)).1
  have hlook : ∀ x ∈ xs, looked (bare x) = false := fun x hx => (plain_iff.mp (hxs x hx)).2
  constructor
  · intro h
    obtain ⟨ws, hwords, htext⟩ := commands_still (h Env.still)
    have hlead : start.steps (lead xs) = some ⟨[], [] ++ xs.map bare, .unquoted none⟩ :=
      Reader.steps_lead hlit
    have hline : lead (xs ++ s :: ys) ++ y = lead xs ++ (s ++ (' ' :: (lead ys ++ y))) := by
      simp [lead]
    rw [hline, words, Reader.read_append hlead, List.nil_append] at hwords
    -- the words of the texts before it are known, so that the next one is its word
    obtain ⟨rest, rfl⟩ : ∃ rest, ws = xs.map bare ++ rest := by
      obtain ⟨rest, hrest⟩ := Reader.read_first hwords
      exact ⟨rest, hrest.symm⟩
    have hmap : rest.map text = id :: (ys ++ [y]) := by
      simpa [Function.comp_def] using htext
    obtain ⟨v, vs, rfl⟩ : ∃ v vs, rest = v :: vs := by
      cases rest with
      | nil => cases hmap
      | cons v vs => exact ⟨v, vs, rfl⟩
    obtain ⟨hv, hvs⟩ := List.cons.inj hmap
    have hcount : count vs = (lead ys ++ y).length + 1 := by
      rw [Reader.count_of_text hvs]
      simp [lead, Nat.add_assoc]
    have hword := Reader.word_of_read (by simpa using hne) (by
      rintro rfl
      simp at hvs) hs hwords (by omega)
    have hrest : Reader.read ⟨[], xs.map bare ++ [v], .unquoted none⟩ (lead ys ++ y) =
        some [xs.map bare ++ [v] ++ vs] := by
      rw [Reader.read_append hword, Reader.read_cons, Reader.step_blank] at hwords
      simpa using hwords
    have hlit' := Reader.literal_of_read hrest hvs
    have has := asWord_iff.mpr hword
    have hfields : ∀ env : Env, env.fields v ++ ((ys ++ [y]).map bare).flatMap env.fields =
        id :: (ys ++ [y]) := by
      intro env
      have heq := (commands_of_words (words_word hlit has hlit') env).symm.trans (h env)
      simpa [flatMap_bare env hlook] using heq
    have hmoved : ((ys ++ [y]).map bare).flatMap Env.moved.fields = ys ++ [y] := by
      have heq := hfields Env.moved
      obtain ⟨u, hu⟩ := List.length_eq_one_iff.mp (length_fields_moved v)
      rw [hu] at heq
      exact (List.cons.inj heq).2
    have hall : ((ys ++ [y]).map bare).flatMap Env.moved.fields ++ [] = ys ++ [y] ++ [] := by
      simpa using hmoved
    have hlook' := looked_of_moved hall
    refine ⟨⟨v, has, ?_⟩, fun u hu => plain_iff.mpr ⟨hlit' u hu, hlook' u hu⟩⟩
    intro env
    have heq : env.fields v ++ (ys ++ [y]) = [id] ++ (ys ++ [y]) := by
      have hall := hfields env
      rwa [flatMap_bare env hlook'] at hall
    exact List.append_cancel_right heq
  · rintro ⟨⟨w, has, hw⟩, hys⟩ env
    have hwords := words_word hlit has (fun u hu => (plain_iff.mp (hys u hu)).1)
    rw [commands_of_words hwords]
    have hlast := flatMap_bare env (fun u hu => (plain_iff.mp (hys u hu)).2)
    simp only [List.flatMap_append, List.flatMap_cons, flatMap_bare env hlook, hw env, hlast]
    simp

/-- An argument that comes out as it is written is one that needs no quotation. -/
theorem asWord_self_iff {ws : List Word} {s : Text} :
    (∃ w, asWord ws s = some w ∧ ∀ env : Env, env.fields w = [s]) ↔ plain s = true := by
  constructor
  · rintro ⟨w, hs, hfields⟩
    have hsteps := asWord_iff.mp hs
    have htext : text w = s := by simpa using hfields Env.still
    have hlength : w.length = s.length := by rw [← htext, length_text]
    have hne : s ≠ [] := by
      rintro rfl
      cases hsteps
    have hlit : literal s = true := by
      rcases Reader.literal_or_short hne hsteps (by
        simp [Reader.size, Place.size, total, hlength]) with h | ⟨v, hv, -⟩
      · exact h
      · have hle : ws.length + 1 ≤ ws.length := by simpa [Reader.first] using hv.length_le
        exact (Nat.not_succ_le_self _ hle).elim
    have hword : w = bare s := by
      have heq := hsteps.symm.trans (Reader.steps_literal hlit)
      simpa using heq
    have hmoved : ([s].map bare).flatMap Env.moved.fields ++ [] = [s] ++ [] := by
      simpa [hword] using hfields Env.moved
    exact plain_iff.mpr ⟨hlit, looked_of_moved hmoved s (by simp)⟩
  · intro h
    obtain ⟨hlit, hlook⟩ := plain_iff.mp h
    refine ⟨bare s, asWord_iff.mpr (Reader.steps_literal hlit), fun env => ?_⟩
    rw [fields_literal env hlook, text_bare]

end

end Catchb.Lib.Shell
