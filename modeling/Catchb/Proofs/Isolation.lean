import Mathlib.Data.List.Nodup
import Catchb.Lib.Numerals
import Catchb.Lib.Run
import Catchb.SwitchRules

/-! The sequences of two addresses on one switch. -/

namespace Catchb.Proofs.Isolation
open Lib

variable {owner : IPv4} {existing : OnExisting} {rules : List Rule} {cs : List Command}

def owned (owner : IPv4) (rs : List (RuleName × List Text)) : List Rule :=
  rs.map (fun r => ⟨r.1, r.2, owner⟩)

theorem addRule_fresh (existing : OnExisting) {new : Rule} (h : ∀ r ∈ rules, r.rule ≠ new.rule) :
    addRule existing new rules = some (rules ++ [new]) := by
  apply if_neg
  intro hmem
  obtain ⟨r, hr, he⟩ := List.mem_map.mp hmem
  exact h r hr he

/-- The creation of a rule that is there already changes nothing. -/
theorem addRule_present (existing : OnExisting) {new : Rule} (hnew : new ∈ rules)
    (hone : ∀ r ∈ rules, r.rule = new.rule → r = new) :
    addRule existing new rules = some rules ∨ addRule existing new rules = none := by
  have hmem : new.rule ∈ rules.map Rule.rule := List.mem_map_of_mem hnew
  cases existing with
  | replace =>
    have hsame : rules.map (fun r => if r.rule = new.rule then new else r) = rules := by
      rw [List.map_congr_left (g := id), List.map_id]
      intro r hr
      split
      · rename_i he
        exact (hone r hr he).symm
      · rfl
    exact Or.inl ((if_pos hmem).trans (congrArg some hsame))
  | refuse => exact Or.inl (if_pos hmem)
  | quit => exact Or.inr (if_pos hmem)

/-- Names that no rule bears are all created. -/
theorem exec_fresh (hno : removed cs = []) (hnodup : ((created cs).map Prod.fst).Nodup)
    (hfresh : ∀ r ∈ rules, r.rule ∉ (created cs).map Prod.fst) :
    exec existing owner cs rules = rules ++ owned owner (created cs) := by
  induction cs generalizing rules with
  | nil => exact (List.append_nil rules).symm
  | cons c cs ih =>
    cases c with
    | line text => exact ih hno hnodup hfresh
    | no rule => cases hno
    | create rule body =>
      rw [created, List.map_cons, List.nodup_cons] at hnodup
      simp only [created, List.map_cons, List.mem_cons, not_or] at hfresh
      have hadd : addRule existing ⟨rule, body, owner⟩ rules =
          some (rules ++ [⟨rule, body, owner⟩]) :=
        addRule_fresh existing (fun r hr => (hfresh r hr).1)
      have hleft : ∀ r ∈ rules ++ [⟨rule, body, owner⟩], r.rule ∉ (created cs).map Prod.fst := by
        intro r hr
        rcases List.mem_append.mp hr with hr | hr
        · exact (hfresh r hr).2
        · rw [List.mem_singleton.mp hr]
          exact hnodup.1
      have hrest := ih hno hnodup.2 hleft
      simp only [exec, hadd, hrest]
      rw [List.append_assoc]
      rfl

/-- Rules that are all there already stay as they are. -/
theorem exec_present (hno : removed cs = []) (hall : ∀ r ∈ owned owner (created cs), r ∈ rules)
    (hone : ∀ r ∈ owned owner (created cs), ∀ s ∈ rules, s.rule = r.rule → s = r) :
    exec existing owner cs rules = rules := by
  induction cs with
  | nil => rfl
  | cons c cs ih =>
    cases c with
    | line text => exact ih hno hall hone
    | no rule => cases hno
    | create rule body =>
      obtain ⟨hhere, hall⟩ := List.forall_mem_cons.mp hall
      obtain ⟨hsame, hone⟩ := List.forall_mem_cons.mp hone
      have hrest := ih hno hall hone
      rcases addRule_present existing hhere hsame with hadd | hadd
      · simp only [exec, hadd, hrest]
      · simp only [exec, hadd]

/-- Removals take the named rules out, whoever made them. -/
theorem exec_removed (hnone : created cs = []) :
    exec existing owner cs rules = rules.filter (fun r => r.rule ∉ removed cs) := by
  induction cs generalizing rules with
  | nil => exact (List.filter_eq_self.mpr (fun r _ => decide_eq_true List.not_mem_nil)).symm
  | cons c cs ih =>
    cases c with
    | line text => exact ih hnone
    | create rule body => cases hnone
    | no rule =>
      rw [exec, ih hnone, List.filter_filter]
      apply List.filter_congr
      intro r hr
      simp [removed, not_or, Bool.and_comm]

section Names
variable {ip a b : IPv4} {i j : Nat}

/-- The index is the last three octets. -/
theorem index_eq (ip : IPv4) :
    ip.index = ip.o₂.toNat * 65536 + ip.o₃.toNat * 256 + ip.o₄.toNat := by
  have h₂ := ip.o₂.toNat_lt
  have h₃ := ip.o₃.toNat_lt
  have h₄ := ip.o₄.toNat_lt
  have hmask : ip.value &&& 0xFFFFFF = ip.value % 2 ^ 24 :=
    Nat.and_two_pow_sub_one_eq_mod ip.value 24
  rw [IPv4.index, hmask, IPv4.value]
  omega

theorem index_inj : a.index = b.index ↔ (a.o₂, a.o₃, a.o₄) = (b.o₂, b.o₃, b.o₄) := by
  have ha₃ := a.o₃.toNat_lt
  have ha₄ := a.o₄.toNat_lt
  have hb₃ := b.o₃.toNat_lt
  have hb₄ := b.o₄.toNat_lt
  rw [index_eq, index_eq, Prod.mk.injEq, Prod.mk.injEq, ← UInt8.toNat_inj, ← UInt8.toNat_inj,
    ← UInt8.toNat_inj]
  omega

theorem decimal_inj (h : decimal (i : Int) = decimal (j : Int)) : i = j :=
  Int.ofNat.inj (Numerals.decimal_injective h)

theorem mainName_inj (h : Dasan.mainName i = Dasan.mainName j) : i = j :=
  decimal_inj (List.append_cancel_left h)

theorem plainName_inj (h : Dasan.plainName i = Dasan.plainName j) : i = j :=
  decimal_inj (List.append_cancel_left h)

/-- A number does not begin with the letters of `main_`. -/
theorem mainName_ne (i j : Nat) : Dasan.mainName i ≠ Dasan.plainName j := by
  intro h
  have hsplit : Dasan.mainName i = "catchb_".toList ++ ("main_".toList ++ decimal i) := rfl
  rw [hsplit] at h
  have hdigits : "main_".toList ++ decimal (i : Int) = Nat.toDigits 10 j := List.append_cancel_left h
  have hm : 'm' ∈ Nat.toDigits 10 j := by
    rw [← hdigits]
    exact List.mem_append_left _ (by decide)
  have hdigit := Nat.isDigit_of_mem_toDigits (by decide) (by decide) hm
  cases hdigit

def dasanNames (i : Nat) : List RuleName :=
  [⟨.flow, Dasan.mainName i⟩, ⟨.flow, Dasan.plainName i⟩, ⟨.policy, Dasan.mainName i⟩,
    ⟨.policy, Dasan.plainName i⟩]

theorem dasanNames_text {n : RuleName} (h : n ∈ dasanNames i) :
    n.name = Dasan.mainName i ∨ n.name = Dasan.plainName i := by
  simp only [dasanNames, List.mem_cons, List.not_mem_nil, or_false] at h
  rcases h with rfl | rfl | rfl | rfl
  · exact Or.inl rfl
  · exact Or.inr rfl
  · exact Or.inl rfl
  · exact Or.inr rfl

/-- The sequences of `FTM_SWITCH_DASAN_setAC2`. -/
def dasan : Script where
  commands := Dasan.setAC2
  names := dasanNames
  nonempty := fun _ => List.cons_ne_nil _ _
  nodup := by
    intro i
    have hne := mainName_ne i i
    simp [dasanNames, hne]
  byIndex := by
    intro i j n hi hj
    rcases dasanNames_text hi with hm | hp
    · rcases dasanNames_text hj with hm' | hp'
      · exact mainName_inj (hm.symm.trans hm')
      · exact absurd (hm.symm.trans hp') (mainName_ne i j)
    · rcases dasanNames_text hj with hm' | hp'
      · exact absurd (hm'.symm.trans hp) (mainName_ne j i)
      · exact plainName_inj (hp.symm.trans hp')
  denies := fun _ _ _ => ⟨rfl, rfl⟩
  allows := by
    intro i t l
    refine ⟨rfl, fun n => ?_⟩
    simp only [Dasan.setAC2, removed, dasanNames, List.mem_cons, List.not_mem_nil, or_false]
    tauto

end Names

section Runs
variable {script : Script} {localIP : Text} {a b ip : IPv4}

/-- The rules that the DENY sequence makes for an address. -/
def rulesOf (script : Script) (localIP : Text) (ip : IPv4) : List Rule :=
  owned ip (created (script.commands ip.index ip.text localIP .deny))

/-- One sequence on the switch. -/
def apply (script : Script) (localIP : Text) (existing : OnExisting) (rules : List Rule)
    (op : IPv4 × AcPolicy) : List Rule :=
  exec existing op.1 (script.commands op.1.index op.1.text localIP op.2) rules

/-- The sequence leaves the rules of other addresses alone; a DENY ends with all of its own
rules, an ALLOW with none of them. -/
def Apart (script : Script) (localIP : Text) (existing : OnExisting) (rules : List Rule)
    (op : IPv4 × AcPolicy) : Prop :=
  ∀ r, r ∈ apply script localIP existing rules op ↔
    (r ∈ rules ∧ r.owner ≠ op.1) ∨ (op.2 = .deny ∧ r ∈ rulesOf script localIP op.1)

/-- In every order of sequences for the two addresses. -/
def Isolated (script : Script) (localIP : Text) (existing : OnExisting) (a b : IPv4) : Prop :=
  ∀ ops : List (IPv4 × AcPolicy), (∀ op ∈ ops, op.1 = a ∨ op.1 = b) →
    Admitted (apply script localIP existing) (Apart script localIP existing) [] ops

theorem mem_rulesOf {r : Rule} (h : r ∈ rulesOf script localIP ip) :
    r.owner = ip ∧ r.rule ∈ script.names ip.index := by
  obtain ⟨p, hp, rfl⟩ := List.mem_map.mp h
  refine ⟨rfl, ?_⟩
  rw [← (script.denies ip.index ip.text localIP).1]
  exact List.mem_map_of_mem hp

theorem rulesOf_names (script : Script) (localIP : Text) (ip : IPv4) :
    (rulesOf script localIP ip).map Rule.rule = script.names ip.index := by
  rw [← (script.denies ip.index ip.text localIP).1, rulesOf, owned, List.map_map]
  rfl

/-- The rules of one address have different names. -/
theorem rulesOf_inj {r s : Rule} (hr : r ∈ rulesOf script localIP ip)
    (hs : s ∈ rulesOf script localIP ip) (he : s.rule = r.rule) : s = r := by
  have hnodup : ((rulesOf script localIP ip).map Rule.rule).Nodup := by
    rw [rulesOf_names]
    exact script.nodup _
  exact List.inj_on_of_nodup_map hnodup hs hr he

/-- The rules are all those of some of the two addresses. -/
structure Owns (script : Script) (localIP : Text) (a b : IPv4) (rules : List Rule)
    (denied : IPv4 → Prop) : Prop where
  pair : ∀ x, denied x → x = a ∨ x = b
  mem : ∀ r, r ∈ rules ↔ denied r.owner ∧ r ∈ rulesOf script localIP r.owner

/-- The names of an address's rules are its own. -/
theorem Owns.owner_eq {rules : List Rule} {denied : IPv4 → Prop} {r : Rule}
    (h : Owns script localIP a b rules denied) (hab : a.index ≠ b.index)
    (hip : ip = a ∨ ip = b) (hr : r ∈ rules) (hname : r.rule ∈ script.names ip.index) :
    r.owner = ip := by
  obtain ⟨hd, hmine⟩ := (h.mem r).mp hr
  have hindex := script.byIndex _ _ _ (mem_rulesOf hmine).2 hname
  rcases h.pair _ hd with ho | ho <;> rcases hip with rfl | rfl
  · exact ho
  · rw [ho] at hindex
    exact absurd hindex hab
  · rw [ho] at hindex
    exact absurd hindex.symm hab
  · exact ho

theorem apply_deny {rules : List Rule} {denied : IPv4 → Prop}
    (h : Owns script localIP a b rules denied) (hab : a.index ≠ b.index)
    (hip : ip = a ∨ ip = b) :
    ∀ r, r ∈ apply script localIP existing rules (ip, .deny) ↔
      r ∈ rules ∨ r ∈ rulesOf script localIP ip := by
  obtain ⟨hnames, hno⟩ := script.denies ip.index ip.text localIP
  by_cases hd : denied ip
  · have hall : ∀ r ∈ rulesOf script localIP ip, r ∈ rules := by
      intro r hr
      have hown := (mem_rulesOf hr).1
      rw [h.mem, hown]
      exact ⟨hd, hr⟩
    have hsame : apply script localIP existing rules (ip, .deny) = rules := by
      apply exec_present hno hall
      intro r hr s hs he
      have hown := h.owner_eq hab hip hs (he ▸ (mem_rulesOf hr).2)
      have hmine := ((h.mem s).mp hs).2
      rw [hown] at hmine
      exact rulesOf_inj hr hmine he
    intro r
    rw [hsame]
    exact ⟨Or.inl, fun hr => hr.elim id (hall r)⟩
  · have hadd : apply script localIP existing rules (ip, .deny) =
        rules ++ rulesOf script localIP ip := by
      apply exec_fresh hno
      · rw [hnames]
        exact script.nodup _
      · intro r hr hname
        rw [hnames] at hname
        have hown := h.owner_eq hab hip hr hname
        exact hd (hown ▸ ((h.mem r).mp hr).1)
    intro r
    rw [hadd, List.mem_append]

theorem apply_allow (rules : List Rule) (ip : IPv4) :
    apply script localIP existing rules (ip, .allow) =
      rules.filter (fun r => r.rule ∉ script.names ip.index) := by
  obtain ⟨hnone, hnames⟩ := script.allows ip.index ip.text localIP
  rw [apply, exec_removed hnone]
  apply List.filter_congr
  intro r _
  simp only [hnames]

/-- A sequence for an address changes only what that address owns. -/
theorem apply_owns {rules : List Rule} {denied : IPv4 → Prop}
    (h : Owns script localIP a b rules denied) (hab : a.index ≠ b.index)
    {op : IPv4 × AcPolicy} (hop : op.1 = a ∨ op.1 = b) :
    Apart script localIP existing rules op ∧
      ∃ denied', Owns script localIP a b (apply script localIP existing rules op) denied' := by
  obtain ⟨ip, policy⟩ := op
  have hapart : Apart script localIP existing rules (ip, policy) := by
    intro r
    cases policy with
    | deny =>
      rw [apply_deny h hab hop]
      constructor
      · intro hr
        by_cases hown : r.owner = ip
        · refine Or.inr ⟨rfl, hr.elim (fun hr => ?_) id⟩
          have hmine := ((h.mem r).mp hr).2
          rwa [hown] at hmine
        · exact Or.inl ⟨hr.resolve_right (fun hr => hown (mem_rulesOf hr).1), hown⟩
      · exact fun hr => hr.imp And.left And.right
    | allow =>
      rw [apply_allow, List.mem_filter, decide_eq_true_iff]
      have hnames : r ∈ rules → (r.rule ∈ script.names ip.index ↔ r.owner = ip) := by
        intro hr
        refine ⟨h.owner_eq hab hop hr, fun hown => ?_⟩
        rw [← hown]
        exact (mem_rulesOf ((h.mem r).mp hr).2).2
      constructor
      · intro hr
        obtain ⟨hr, hname⟩ := hr
        exact Or.inl ⟨hr, fun hown => hname ((hnames hr).mpr hown)⟩
      · intro hr
        rcases hr with hr | hr
        · exact ⟨hr.1, fun hname => hr.2 ((hnames hr.1).mp hname)⟩
        · nomatch hr.1
  refine ⟨hapart, fun x => (denied x ∧ x ≠ ip) ∨ (policy = .deny ∧ x = ip), ?_, ?_⟩
  · intro x hx
    rcases hx with hx | hx
    · exact h.pair x hx.1
    · rw [hx.2]
      exact hop
  · intro r
    rw [hapart r, h.mem]
    by_cases hown : r.owner = ip
    · simp [hown]
    · have hother : r ∉ rulesOf script localIP ip := fun hr => hown (mem_rulesOf hr).1
      simp [hown, hother]

theorem isolated_of_ne (hab : a.index ≠ b.index) : Isolated script localIP existing a b := by
  intro ops hops
  have hempty : Owns script localIP a b [] (fun _ => False) :=
    ⟨fun _ h => h.elim, fun r => ⟨fun h => absurd h List.not_mem_nil, fun h => h.1.elim⟩⟩
  generalize [] = rules at hempty
  generalize (fun _ => False) = denied at hempty
  induction ops generalizing rules denied with
  | nil => trivial
  | cons op ops ih =>
    obtain ⟨hop, hops⟩ := List.forall_mem_cons.mp hops
    obtain ⟨hapart, denied', hnext⟩ := apply_owns hempty hab hop
    exact ⟨hapart, ih hops _ _ hnext⟩

/-- With one index for both, the second address's ALLOW takes out the first one's rules. -/
theorem not_isolated (hab : a ≠ b) (h : a.index = b.index) :
    ¬Isolated script localIP existing a b := by
  intro hall
  have hrun := hall [(a, .deny), (b, .allow)] (by simp)
  obtain ⟨hfirst, hsecond, -⟩ := hrun
  obtain ⟨n, hn⟩ := List.exists_mem_of_ne_nil _ (script.nonempty a.index)
  rw [← rulesOf_names script localIP a, List.mem_map] at hn
  obtain ⟨r, hr, -⟩ := hn
  obtain ⟨hown, hname⟩ := mem_rulesOf hr
  have hmade := (hfirst r).mpr (Or.inr ⟨rfl, hr⟩)
  have hkept := (hsecond r).mpr (Or.inl ⟨hmade, by rw [hown]; exact hab⟩)
  rw [apply_allow, List.mem_filter, decide_eq_true_iff, ← h] at hkept
  exact hkept.2 hname

/-- Two addresses keep out of each other's way exactly when their last three octets differ. -/
theorem isolated_iff (script : Script) (localIP : Text) (existing : OnExisting) (hab : a ≠ b) :
    Isolated script localIP existing a b ↔ (a.o₂, a.o₃, a.o₄) ≠ (b.o₂, b.o₃, b.o₄) := by
  rw [ne_eq, ← index_inj]
  exact ⟨fun hall hsame => not_isolated hab hsame hall, isolated_of_ne⟩

theorem neighbours_isolated :
    Isolated dasan "10.0.0.1".toList .quit ⟨10, 0, 0, 7⟩ ⟨10, 0, 0, 8⟩ :=
  (isolated_iff dasan "10.0.0.1".toList .quit (by decide)).mpr (by decide)

/-- 10.0.0.7 is denied; allowing 11.0.0.7 lets it through again. -/
theorem other_network_allowed :
    apply dasan "10.0.0.1".toList .quit (apply dasan "10.0.0.1".toList .quit []
      (⟨10, 0, 0, 7⟩, .deny)) (⟨11, 0, 0, 7⟩, .allow) = [] ∧
    ¬Isolated dasan "10.0.0.1".toList .quit ⟨10, 0, 0, 7⟩ ⟨11, 0, 0, 7⟩ := by
  have hsame : (⟨10, 0, 0, 7⟩ : IPv4).index = (⟨11, 0, 0, 7⟩ : IPv4).index := by decide
  exact ⟨by decide, not_isolated (by decide) hsame⟩

end Runs

end Catchb.Proofs.Isolation
