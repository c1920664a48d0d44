import BuildChain.Proofs.Repair.Pass

/-!
# Fixing everything

Two passes settle a chain, and a pass that fixes nothing has found nothing: so fixing everything
ends by itself, long before the passes are used up, and doing it again changes nothing.
-/

namespace BuildChain

open Rule (StandardId)

namespace RuleSet

variable {s : RuleSet} {c : Chain} {r : Rule}

/-! ## The last rule to be settled -/

/-- A developer version that was asked for is not asked for again. -/
theorem Tuned.repairable_pass (h : Tuned s.catalog s) (hcat : s.catalog.Usable) (hr : r ∈ s.rules)
    (hid : r.id = StandardId.globalDevVersionRequired.text)
    (hissues : r.repairable s.catalog c ≠ []) : r.repairable s.catalog (s.pass c).1 = [] := by
  refine List.eq_nil_iff_forall_not_mem.mpr fun i hi => ?_
  obtain ⟨-, -, hlacks⟩ := Rule.mem_repairable_devVersion (h.kind_eq hr hid) hi
  have hset := h.devVersion_repaired hcat hr hid hissues
  rw [Rule.lacksDevVersion, h.globals_pass, Bool.and_eq_true, Option.isNone_iff_eq_none] at hlacks
  rw [hlacks.2] at hset
  cases hset

/-- A pass leaves at most the developer version to be asked for. -/
theorem Tuned.fixables_pass_eq_nil (h : Tuned s.catalog s) (hcat : s.catalog.Usable)
    (hdist : c.DistinctNames)
    (hlast : ∀ r ∈ s.rules, r.id = StandardId.globalDevVersionRequired.text →
      r.repairable s.catalog (s.pass c).1 = []) : s.fixables (s.pass c).1 = [] := by
  refine fixables_eq_nil_iff.mpr fun r hr henabled => ?_
  by_cases hid : r.id = StandardId.globalDevVersionRequired.text
  · exact Rule.settled_of_repairable_eq_nil henabled (hlast r hr hid)
  · exact h.settled_pass hcat hdist hr henabled hid

theorem pass_of_fixables_eq_nil (h : s.fixables c = []) : s.pass c = (c, 0) := by
  rw [pass, h]
  rfl

/-- Two passes settle everything. -/
theorem Tuned.fixables_pass_pass (h : Tuned s.catalog s) (hcat : s.catalog.Usable)
    (hdist : c.DistinctNames) : s.fixables (s.pass (s.pass c).1).1 = [] := by
  -- Either the first pass settles the last rule as well, or it leaves an issue of it to the second.
  by_cases hlast : ∀ r ∈ s.rules, r.id = StandardId.globalDevVersionRequired.text →
      r.repairable s.catalog (s.pass c).1 = []
  · have hdone := h.fixables_pass_eq_nil hcat hdist hlast
    rw [pass_of_fixables_eq_nil hdone]
    exact hdone
  · push Not at hlast
    obtain ⟨r, hr, hid, hissues⟩ := hlast
    refine h.fixables_pass_eq_nil hcat (h.distinctNames_pass hdist) fun r' hr' hid' => ?_
    obtain ⟨front, last, -, -, -, -, honly⟩ := h.exists_front c
    have hsame : r' = r := (honly r' hr' hid').trans (honly r hr hid).symm
    rw [hsame]
    exact h.repairable_pass hcat hr hid hissues

/-! ## A pass that fixes nothing -/

/-- Whenever the developer version is asked for, its repair fixes something. -/
theorem Tuned.repair?_isSome (h : Tuned s.catalog s) (hr : r ∈ s.rules)
    (hid : r.id = StandardId.globalDevVersionRequired.text) {i : Issue}
    (hi : i ∈ r.repairable s.catalog c) : ((Fixer.ofRuleSet s).repair? c i).isSome = true := by
  obtain ⟨-, hrule, hlacks⟩ := Rule.mem_repairable_devVersion (h.kind_eq hr hid) hi
  have hblank := (Bool.and_eq_true_iff.mp hlacks).2
  rw [Option.isNone_iff_eq_none] at hblank
  rw [Fixer.repair?, hrule, hid, get?_repairs]
  simp [StandardId.repair?, Repair.apply, hblank]

/-- A pass that fixes nothing has found nothing and leaves the chain as it is. -/
theorem Tuned.pass_of_count_eq_zero (h : Tuned s.catalog s) (hcat : s.catalog.Usable)
    (hdist : c.DistinctNames) (hzero : (s.pass c).2 = 0) :
    (s.pass c).1 = c ∧ s.fixables c = [] := by
  rcases h.pass_cases c with ⟨hpass, -⟩ | ⟨named, hne, hnamed, hpass⟩
  · rw [hpass] at hzero
    obtain ⟨hsame, hnone⟩ := Fixer.repairAll_of_count_eq_zero hzero
    rw [← hpass] at hsame
    -- The chain is the one after the pass, so all that a pass settles is settled in it.
    refine ⟨hsame, ?_⟩
    rw [← hsame]
    refine h.fixables_pass_eq_nil hcat hdist fun r hr hid => ?_
    rw [hsame]
    refine List.eq_nil_iff_forall_not_mem.mpr fun i hi => ?_
    have hsome := h.repair?_isSome hr hid hi
    rw [hnone i (h.mem_toRepair_of_repairable hr hid (by decide) hi)] at hsome
    cases hsome
  · obtain ⟨name, hname⟩ := List.exists_mem_of_ne_nil named hne
    have hadded : 0 < ((Fixer.ofRuleSet s).complete (s.repaired c) named).2 :=
      Fixer.complete_count_pos hname ((hasSection_repaired hdist name).trans (hnamed name hname).2)
    rw [hpass] at hzero
    exact absurd (Nat.eq_zero_of_add_eq_zero_left hzero) (Nat.pos_iff_ne_zero.mp hadded)

/-! ## All passes -/

theorem passes_succ (s : RuleSet) (n : Nat) (c : Chain) :
    (Fixer.ofRuleSet s).passes (Validator.ofRuleSet s) (n + 1) c =
      if (s.pass c).2 = 0 then ((s.pass c).1, 0)
      else
        let rest := (Fixer.ofRuleSet s).passes (Validator.ofRuleSet s) n (s.pass c).1
        (rest.1, (s.pass c).2 + rest.2) := by
  rw [Fixer.passes, fixableErrors_ofRuleSet]
  rfl

theorem passes_of_fixables_eq_nil (h : s.fixables c = []) (n : Nat) :
    (Fixer.ofRuleSet s).passes (Validator.ofRuleSet s) n c = (c, 0) := by
  cases n with
  | zero => rfl
  | succ n => rw [passes_succ, pass_of_fixables_eq_nil h, if_pos rfl]

/-- After two passes nothing is left to do, so further passes do not matter. -/
theorem Tuned.passes_add_two (h : Tuned s.catalog s) (hcat : s.catalog.Usable)
    (hdist : c.DistinctNames) (n : Nat) :
    s.fixables ((Fixer.ofRuleSet s).passes (Validator.ofRuleSet s) (n + 2) c).1 = [] ∧
      (Fixer.ofRuleSet s).passes (Validator.ofRuleSet s) (n + 2) c =
        (Fixer.ofRuleSet s).passes (Validator.ofRuleSet s) 2 c := by
  have hfirst := h.pass_of_count_eq_zero hcat hdist
  have hdist' := h.distinctNames_pass hdist
  have hsecond := h.pass_of_count_eq_zero hcat hdist'
  have hdone := h.fixables_pass_pass hcat hdist
  simp only [passes_succ]
  by_cases hzero : (s.pass c).2 = 0
  · obtain ⟨hsame, hnil⟩ := hfirst hzero
    rw [if_pos hzero, if_pos hzero, hsame]
    exact ⟨hnil, rfl⟩
  · rw [if_neg hzero, if_neg hzero]
    by_cases hzero' : (s.pass (s.pass c).1).2 = 0
    · rw [if_pos hzero', if_pos hzero']
      exact ⟨hdone, rfl⟩
    · rw [if_neg hzero', if_neg hzero', passes_of_fixables_eq_nil hdone n,
        passes_of_fixables_eq_nil hdone 0]
      exact ⟨hdone, rfl⟩

/-- Fixing everything ends in a settled chain that is put into order. -/
theorem Tuned.exists_fixAll (h : Tuned s.catalog s) (hcat : s.catalog.Usable)
    (hdist : c.DistinctNames) : ∃ b, s.fixables b = [] ∧
      ((Fixer.ofRuleSet s).fixAll (Validator.ofRuleSet s) c).1 = s.catalog.order.reorder b :=
  ⟨_, (h.passes_add_two hcat hdist 2).1, rfl⟩

/-- Fixing a settled chain only puts it into order. -/
theorem fixAll_of_fixables_eq_nil (h : s.fixables c = []) :
    (Fixer.ofRuleSet s).fixAll (Validator.ofRuleSet s) c =
      (s.catalog.order.reorder c, ⟨0, !s.catalog.order.isOrdered c⟩) := by
  rw [Fixer.fixAll, passes_of_fixables_eq_nil h]
  rfl

/-- Where fixing everything fixes nothing, nothing was to be fixed. -/
theorem Tuned.fixables_of_fixed_eq_zero (h : Tuned s.catalog s) (hcat : s.catalog.Usable)
    (hdist : c.DistinctNames)
    (hzero : ((Fixer.ofRuleSet s).fixAll (Validator.ofRuleSet s) c).2.fixed = 0) :
    s.fixables c = [] := by
  have hpasses : ((Fixer.ofRuleSet s).passes (Validator.ofRuleSet s) Fixer.maxPasses c).2 = 0 :=
    hzero
  rw [Fixer.maxPasses, passes_succ] at hpasses
  split at hpasses
  · rename_i hpass
    exact (h.pass_of_count_eq_zero hcat hdist hpass).2
  · rename_i hpass
    exact absurd (Nat.eq_zero_of_add_eq_zero_right hpasses) hpass

theorem fixables_reorder (h : s.fixables c = []) (o : Order) : s.fixables (o.reorder c) = [] := by
  rw [fixables_eq_nil_iff] at h ⊢
  intro r hr henabled
  exact (h r hr henabled).of_mem_iff (fun _ => o.mem_sections_reorder) rfl rfl

end RuleSet

namespace Fixer

/-- Fixing everything in a chain comes to its end by itself. -/
structure Converges (f : Fixer) (v : Validator) (c : Chain) : Prop where
  /-- No error is left that a repair could be tried on. -/
  settled : ∀ i ∈ (v.validate (f.fixAll v c).1).issues, ¬(i.severity = .error ∧ i.fixable = true)
  /-- The sections stand by the place of their names, those without a place at the end. -/
  ordered : (f.fixAll v c).1.sections.Pairwise fun x y =>
    f.catalog.order.rank x.name ≤ f.catalog.order.rank y.name
  /-- Doing it again fixes and moves nothing. -/
  again : f.fixAll v (f.fixAll v c).1 = ((f.fixAll v c).1, ⟨0, false⟩)
  /-- More passes would not have changed more. -/
  passes : ∀ n, maxPasses ≤ n → f.passes v n c = f.passes v maxPasses c

theorem fixAll_converges {cat : Catalog} {s : RuleSet} (hs : s.Tuned cat) (hcat : cat.Usable)
    {c : Chain} (hdist : c.DistinctNames) :
    (ofRuleSet s).Converges (Validator.ofRuleSet s) c := by
  obtain rfl := hs.catalog_eq
  obtain ⟨b, hb, hfix⟩ := hs.exists_fixAll hcat hdist
  have hnil : s.fixables (s.catalog.order.reorder b) = [] := RuleSet.fixables_reorder hb _
  constructor
  case settled =>
    rw [hfix]
    exact RuleSet.fixables_eq_nil_iff_issues.mp hnil
  case ordered =>
    rw [hfix]
    exact s.catalog.order.arrange_sorted b.sections
  case again =>
    rw [hfix, RuleSet.fixAll_of_fixables_eq_nil hnil, Order.reorder_reorder,
      Order.isOrdered_reorder]
    rfl
  case passes =>
    intro n hn
    obtain ⟨m, rfl⟩ := Nat.exists_eq_add_of_le' hn
    exact (hs.passes_add_two hcat hdist (m + 2)).2.trans (hs.passes_add_two hcat hdist 2).2.symm

/-- A chain that needs a second pass, since the added sections ask for a developer version. -/
theorem fixAll_converges_escalated :
    let s := RuleSet.setSeverity { catalog := {}, rules := Rule.standard }
      StandardId.globalDevVersionRequired.text .error
    let c : Chain := {
      globals := { version := some "seven" }
      sections := [⟨"zeta", .ofList [("mode", "fast"), ("tag", "1.0")]⟩,
        ⟨"OLAP", .ofList [("mode", "binary"), ("branch", "main"), ("tag", "1.0")]⟩]
      rawFlags := .ofList [("slow", "maybe")] }
    s.Tuned {} ∧ Catalog.Usable {} ∧ c.DistinctNames ∧
      (ofRuleSet s).Converges (Validator.ofRuleSet s) c := by
  intro s c
  have hs : s.Tuned {} := .setSeverity .standard _ _
  have hcat : Catalog.Usable {} :=
    ⟨by decide, ⟨20000, by decide +kernel, by decide⟩, by decide +kernel⟩
  have hdist : c.DistinctNames := by decide +kernel
  exact ⟨hs, hcat, hdist, fixAll_converges hs hcat hdist⟩

end Fixer

end BuildChain
