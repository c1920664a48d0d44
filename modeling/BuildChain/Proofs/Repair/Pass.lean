import BuildChain.Proofs.Repair.Versions

/-!
# One pass

A pass repairs what it can and then adds what is missing. Whatever the chain was, all rules but the
one about developer versions are settled afterwards: a mended section or an added one can still make
a developer version necessary, and the next pass brings it.
-/

namespace BuildChain.RuleSet

open Rule (StandardId)

variable {s : RuleSet} {c : Chain} {r : Rule}

/-- One pass over a chain, with the number of fixes. -/
def pass (s : RuleSet) (c : Chain) : Chain × Nat :=
  (Fixer.ofRuleSet s).applyFixes c (s.fixables c)

/-! ## What a pass does -/

theorem names_repaired (hdist : c.DistinctNames) : (s.repaired c).names = c.names := by
  rw [Chain.names, repaired, Fixer.sections_run hdist, List.map_map]
  exact List.map_congr_left fun x _ => Fixer.name_run _ x.name x _

theorem hasSection_repaired (hdist : c.DistinctNames) (name : String) :
    (s.repaired c).hasSection name = c.hasSection name := by
  rw [Bool.eq_iff_iff, Chain.hasSection_iff, Chain.hasSection_iff, names_repaired hdist]

/-- A pass is a run of repairs, and where a project is missing the chain is completed. -/
theorem pass_eq (s : RuleSet) (c : Chain) :
    s.pass c = (Fixer.ofRuleSet s).repairAll c (s.toRepair c) ∧
        (∀ i ∈ s.fixables c, (Fixer.ofRuleSet s).asksForSection i = true →
          i.sectionName = none) ∨
      ∃ named : List String, named ≠ [] ∧
        (∀ name ∈ named, ∃ i ∈ s.fixables c, (Fixer.ofRuleSet s).asksForSection i = true ∧
          i.sectionName = some name) ∧
        s.pass c = (((Fixer.ofRuleSet s).complete (s.repaired c) named).1,
          ((Fixer.ofRuleSet s).repairAll c (s.toRepair c)).2 +
            ((Fixer.ofRuleSet s).complete (s.repaired c) named).2) := by
  have hfixable : (s.fixables c).filter Issue.fixable = s.fixables c := by
    refine List.filter_eq_self.mpr fun i hi => ?_
    obtain ⟨r, -, hir⟩ := List.mem_flatMap.mp hi
    exact (Rule.mem_repairable.mp hir).2.2.2
  unfold pass Fixer.applyFixes
  rw [hfixable]
  cases hnamed : ((s.fixables c).filter (Fixer.ofRuleSet s).asksForSection).filterMap
      Issue.sectionName with
  | nil =>
    refine .inl ⟨by simp only [hnamed]; rfl, fun i hi hasks => ?_⟩
    exact List.filterMap_eq_nil_iff.mp hnamed i (List.mem_filter.mpr ⟨hi, hasks⟩)
  | cons name more =>
    refine .inr ⟨name :: more, List.cons_ne_nil name more, fun n hn => ?_, ?_⟩
    · obtain ⟨i, hi, hname⟩ := List.mem_filterMap.mp (hnamed ▸ hn)
      obtain ⟨hi, hasks⟩ := List.mem_filter.mp hi
      exact ⟨i, hi, hasks, hname⟩
    · rw [repaired, ← Fixer.repairAll_fst]
      simp only [hnamed]
      rfl

/-- Whether some rule asks for a section of a name wherever there is none. -/
def Requires (s : RuleSet) (name : String) : Prop :=
  ∃ r ∈ s.rules, r.IsStrict ∧ ∃ k, r.kind = .requiredSections k ∧ name ∈ k.namesIn s.catalog

/-- A tuned set requires the projects of the order, all of them or none. -/
theorem Tuned.requires_iff (h : Tuned s.catalog s) {name : String} :
    s.Requires name ↔ name ∈ s.catalog.order.names ∧
      ∃ r ∈ s.rules, r.id = StandardId.requiredProjects.text ∧ r.IsStrict := by
  constructor
  · rintro ⟨r, hr, hstrict, k, hk, hname⟩
    obtain ⟨id, hid, hkind⟩ := h.exists_id hr
    obtain ⟨rfl, rfl⟩ : id = .requiredProjects ∧ k = {} := by
      cases id <;> cases hkind.symm.trans hk
      exact ⟨rfl, rfl⟩
    exact ⟨hname, r, hr, hid, hstrict⟩
  · rintro ⟨hname, r, hr, hid, hstrict⟩
    exact ⟨r, hr, hstrict, {}, h.kind_eq hr hid, hname⟩

/-- A chain is completed only for required projects that are missing, and it is completed whenever
one is. -/
theorem Tuned.pass_cases (h : Tuned s.catalog s) (c : Chain) :
    s.pass c = (Fixer.ofRuleSet s).repairAll c (s.toRepair c) ∧
        (∀ name, s.Requires name → c.hasSection name = true) ∨
      ∃ named : List String, named ≠ [] ∧
        (∀ name ∈ named, s.Requires name ∧ c.hasSection name = false) ∧
        s.pass c = (((Fixer.ofRuleSet s).complete (s.repaired c) named).1,
          ((Fixer.ofRuleSet s).repairAll c (s.toRepair c)).2 +
            ((Fixer.ofRuleSet s).complete (s.repaired c) named).2) := by
  rcases s.pass_eq c with ⟨hpass, hnone⟩ | ⟨named, hne, hnamed, hpass⟩
  · refine .inl ⟨hpass, fun name hrequired => ?_⟩
    obtain ⟨hname, r, hr, hid, hstrict⟩ := h.requires_iff.mp hrequired
    rw [← Bool.not_eq_false]
    intro hmissing
    obtain ⟨i, hi, hrule, hsection⟩ : ∃ i ∈ r.repairable s.catalog c,
        i.ruleId = r.id ∧ i.sectionName = some name :=
      Rule.exists_repairable_requiredSections (h.kind_eq hr hid) hstrict hname hmissing
    have hasks := h.asksForSection_iff.mpr (hrule.trans hid)
    rw [hnone i (List.mem_flatMap.mpr ⟨r, hr, hi⟩) hasks] at hsection
    cases hsection
  · refine .inr ⟨named, hne, fun name hname => ?_, hpass⟩
    obtain ⟨i, hi, hasks, hi'⟩ := hnamed name hname
    obtain ⟨r, hr, hir⟩ := List.mem_flatMap.mp hi
    have hid := (Rule.ruleId_of_mem_repairable hir).symm.trans (h.asksForSection_iff.mp hasks)
    obtain ⟨hstrict, -, missing, hmem, hmissing, hsection⟩ :=
      Rule.mem_repairable_requiredSections (h.kind_eq hr hid) hir
    rw [hi', Option.some.injEq] at hsection
    rw [hsection]
    exact ⟨⟨r, hr, hstrict, {}, h.kind_eq hr hid, hmem⟩, hmissing⟩

theorem repairAll_fst_eq_repaired (s : RuleSet) (c : Chain) :
    ((Fixer.ofRuleSet s).repairAll c (s.toRepair c)).1 = s.repaired c := Fixer.repairAll_fst _ c _

/-! ## The chain after a pass -/

/-- Apart from the sections, a pass leaves what the repairs leave. -/
theorem Tuned.pass_fst_eq (h : Tuned s.catalog s) (c : Chain) :
    (s.pass c).1 = { s.repaired c with sections := (s.pass c).1.sections } := by
  rcases h.pass_cases c with ⟨hpass, -⟩ | ⟨named, -, -, hpass⟩
  · rw [hpass, repairAll_fst_eq_repaired]
  · obtain ⟨added, -, heq⟩ := (Fixer.ofRuleSet s).complete_eq (s.repaired c) named
    rw [hpass, heq]
    rfl

theorem Tuned.globals_pass (h : Tuned s.catalog s) (c : Chain) :
    (s.pass c).1.globals = (s.repaired c).globals := by
  rw [h.pass_fst_eq c]

theorem Tuned.rawFlags_pass (h : Tuned s.catalog s) (c : Chain) :
    (s.pass c).1.rawFlags = (s.repaired c).rawFlags := by
  rw [h.pass_fst_eq c]

/-- A pass mends every section and adds default sections for required projects that are missing. -/
theorem Tuned.sections_pass (h : Tuned s.catalog s) (hdist : c.DistinctNames) :
    ∃ added : List String,
      (s.pass c).1.sections.Perm (c.sections.map (s.mended c) ++
        added.map (Fixer.defaultSection s.catalog)) ∧
      ∀ name ∈ added, s.Requires name ∧ c.hasSection name = false := by
  have hmended : (s.repaired c).sections = c.sections.map (s.mended c) :=
    Fixer.sections_run hdist _
  rw [← hmended]
  rcases h.pass_cases c with ⟨hpass, -⟩ | ⟨named, hne, hnamed, hpass⟩
  · refine ⟨[], ?_, by simp⟩
    rw [hpass, repairAll_fst_eq_repaired, List.map_nil, List.append_nil]
  · obtain ⟨added, hadded, heq⟩ := (Fixer.ofRuleSet s).complete_eq (s.repaired c) named
    rw [hpass, heq]
    refine ⟨added, s.catalog.order.arrange_perm _, fun name hname => ?_⟩
    obtain ⟨hmem, hmissing⟩ := hadded name hname
    rw [hasSection_repaired hdist] at hmissing
    refine ⟨?_, hmissing⟩
    rcases List.mem_append.mp hmem with horder | hasked
    · -- One project is asked for, so the rule that requires all of them is strict.
      obtain ⟨first, hfirst⟩ := List.exists_mem_of_ne_nil named hne
      exact h.requires_iff.mpr ⟨(List.mem_filter.mp horder).1,
        (h.requires_iff.mp (hnamed first hfirst).1).2⟩
    · exact (hnamed name hasked).1

theorem Tuned.distinctNames_pass (h : Tuned s.catalog s) (hdist : c.DistinctNames) :
    (s.pass c).1.DistinctNames := by
  have hrepaired : (s.repaired c).DistinctNames := by
    rw [Chain.DistinctNames, names_repaired hdist]
    exact hdist
  rcases h.pass_cases c with ⟨hpass, -⟩ | ⟨named, -, -, hpass⟩
  · rw [hpass, repairAll_fst_eq_repaired]
    exact hrepaired
  · rw [hpass]
    exact Fixer.distinctNames_complete hrepaired

/-- The sections after a pass are mended ones and added ones. -/
theorem Tuned.mem_sections_pass (h : Tuned s.catalog s) (hdist : c.DistinctNames) {x : Section}
    (hx : x ∈ (s.pass c).1.sections) :
    (∃ y ∈ c.sections, x = s.mended c y) ∨
      ∃ name, x = Fixer.defaultSection s.catalog name ∧ s.Requires name ∧
        c.hasSection name = false := by
  obtain ⟨added, hperm, hadded⟩ := h.sections_pass hdist
  rcases List.mem_append.mp (hperm.mem_iff.mp hx) with hx | hx
  · obtain ⟨y, hy, rfl⟩ := List.mem_map.mp hx
    exact .inl ⟨y, hy, rfl⟩
  · obtain ⟨name, hname, rfl⟩ := List.mem_map.mp hx
    exact .inr ⟨name, rfl, hadded name hname⟩

theorem Tuned.mended_mem_sections_pass (h : Tuned s.catalog s) (hdist : c.DistinctNames)
    {x : Section} (hx : x ∈ c.sections) : s.mended c x ∈ (s.pass c).1.sections := by
  obtain ⟨added, hperm, -⟩ := h.sections_pass hdist
  exact hperm.mem_iff.mpr (List.mem_append_left _ (List.mem_map_of_mem hx))

/-- Where every mode is an old one or that of a source build, no project was made a binary one. -/
theorem anyMode_of_modes {c' : Chain}
    (h : ∀ y ∈ c'.sections, (∃ x ∈ c.sections, y.get? Property.mode = x.get? Property.mode) ∨
      y.get? Property.mode = some BuildMode.source.text)
    (hany : c'.anyMode BuildMode.binary.text = true) :
    c.anyMode BuildMode.binary.text = true := by
  rw [Chain.anyMode_iff] at hany ⊢
  obtain ⟨y, hy, hmode⟩ := hany
  rcases h y hy with ⟨x, hx, hsame⟩ | hsource
  · exact ⟨x, hx, hsame ▸ hmode⟩
  · exact absurd (hsource.symm.trans hmode) (by decide)

/-- A pass makes no project a binary one. -/
theorem Tuned.anyMode_pass (h : Tuned s.catalog s) (hdist : c.DistinctNames)
    (hany : (s.pass c).1.anyMode BuildMode.binary.text = true) :
    c.anyMode BuildMode.binary.text = true := by
  refine anyMode_of_modes (fun x hx => ?_) hany
  rcases h.mem_sections_pass hdist hx with ⟨y, hy, rfl⟩ | ⟨name, rfl, -⟩
  · rcases h.get?_mended hdist hy Property.mode with ⟨-, hget⟩ | ⟨-, hget⟩
    · exact .inr hget
    · exact .inl ⟨y, hy, hget⟩
  · exact .inr (by rw [get?_defaultSection]; rfl)

/-! ## What a pass settles -/

/-- Every rule in force is settled by a pass, but for the one about developer versions. -/
theorem Tuned.settled_pass (h : Tuned s.catalog s) (hcat : s.catalog.Usable)
    (hdist : c.DistinctNames) (hr : r ∈ s.rules) (henabled : r.enabled = true)
    (hid : r.id ≠ StandardId.globalDevVersionRequired.text) :
    r.Settled s.catalog (s.pass c).1 := by
  obtain ⟨id, hrid, hkind⟩ := h.exists_id hr
  constructor
  case sections =>
    intro hsev x hx
    rcases h.mem_sections_pass hdist hx with ⟨y, hy, rfl⟩ | ⟨name, rfl, -⟩
    · exact h.finds_mended hcat hdist hy hr ⟨henabled, hsev⟩
    · rw [hkind]
      exact finds_defaultSection hcat name id
  case projects =>
    intro k hk hsev name hname
    obtain ⟨rfl, rfl⟩ : id = .requiredProjects ∧ k = {} := by
      cases id <;> cases hkind.symm.trans hk
      exact ⟨rfl, rfl⟩
    rcases h.pass_cases c with ⟨hpass, hall⟩ | ⟨named, -, -, hpass⟩
    · rw [hpass, repairAll_fst_eq_repaired, hasSection_repaired hdist]
      exact hall name (h.requires_iff.mpr ⟨hname, r, hr, hrid, henabled, hsev⟩)
    · rw [hpass]
      exact Fixer.hasSection_complete hname
  case numbers =>
    intro k hk key hkey
    obtain ⟨rfl, rfl⟩ : id = .buildNumberRange ∧ k = {} := by
      cases id <;> cases hkind.symm.trans hk
      exact ⟨rfl, rfl⟩
    rw [h.globals_pass]
    exact h.lacksNumber_repaired hcat hr henabled hrid hkey
  case flags =>
    intro k hk suite
    obtain ⟨rfl, rfl⟩ : id = .integrationTests ∧ k = {} := by
      cases id <;> cases hkind.symm.trans hk
      exact ⟨rfl, rfl⟩
    rw [h.rawFlags_pass]
    exact h.rawFlags_repaired hr henabled hrid suite
  case version =>
    intro k hk hsev
    obtain ⟨rfl, rfl⟩ : id = .globalVersionWhenBinary ∧ k = {} := by
      cases id <;> cases hkind.symm.trans hk
      exact ⟨rfl, rfl⟩
    exact h.complains_repaired hcat hr ⟨henabled, hsev⟩ hrid (h.globals_pass c)
      (h.anyMode_pass hdist)
  case devVersion =>
    intro k hk
    have hlast : id = .globalDevVersionRequired := by
      cases id <;> cases hkind.symm.trans hk
      rfl
    exact absurd (hlast ▸ hrid) hid

end BuildChain.RuleSet
