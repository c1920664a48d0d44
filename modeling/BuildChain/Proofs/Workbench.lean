import BuildChain.Proofs.Repair.Spelling
import BuildChain.Proofs.Rule.Acceptance
import BuildChain.Workbench

/-!
# Fixing a file

A chain that was read from a text, fixed and written back to the text is read again as it was
written, provided that everything it writes lands on lines that it is read from. Nothing is then
left to be fixed. A mode that the text spells otherwise is set in vain.
-/

namespace BuildChain

open Document (assignments spellings Lands)

variable {text : String} {c : Chain}

/-! ## The standard workbench -/

namespace Workbench

open Rule (StandardId)

theorem usable_standard : RuleSet.standard.catalog.Usable := Catalog.usable_default

theorem fixAll_ofRuleSet (s : RuleSet) (stamp : Option String) (c : Chain) :
    (ofRuleSet s stamp).fixAll c = (Fixer.ofRuleSet s).fixAll (Validator.ofRuleSet s) c := rfl

theorem validate_ofRuleSet (s : RuleSet) (stamp : Option String) (c : Chain) :
    (ofRuleSet s stamp).validate c = (Validator.ofRuleSet s).validate c := rfl

/-- Fixing everything fixes nothing exactly where nothing is to be fixed. -/
theorem fixed_eq_zero_iff (stamp : Option String) (hdist : c.DistinctNames) :
    ((ofRuleSet .standard stamp).fixAll c).2.fixed = 0 ↔ RuleSet.standard.fixables c = [] := by
  rw [fixAll_ofRuleSet]
  constructor
  · exact RuleSet.Tuned.standard.fixables_of_fixed_eq_zero usable_standard hdist
  · intro h
    rw [RuleSet.fixAll_of_fixables_eq_nil h]

theorem rawFlags_of_settled (h : RuleSet.standard.fixables c = []) (suite : String) :
    c.rawFlags.get? suite = none := by
  obtain ⟨r, hr, hkind, -, henabled⟩ := Rule.exists_mem_standard .integrationTests
  exact (RuleSet.fixables_eq_nil_iff.mp h r hr henabled).flags {} hkind suite

theorem has_mode_of_settled (h : RuleSet.standard.fixables c = []) {x : Section}
    (hx : x ∈ c.sections) : x.has Property.mode = true := by
  obtain ⟨r, hr, hkind, hseverity, henabled⟩ := Rule.exists_mem_standard .requiredMode
  have hfinds := (RuleSet.fixables_eq_nil_iff.mp h r hr henabled).sections hseverity x hx
  rw [hkind] at hfinds
  simpa [StandardId.kind, Rule.Kind.finds] using hfinds

/-- What the standard rules have settled is read back as it is and stays settled. -/
theorem settled_render (h : (Chain.ofText text).Descends RuleSet.standard.catalog c)
    (hdist : c.DistinctNames) (hnone : RuleSet.standard.fixables c = [])
    (hlands : Lands (assignments (Text.lines text)) c) (w : Writer) :
    (Chain.ofText (w.render c)).Restores c ∧
      RuleSet.standard.fixables (Chain.ofText (w.render c)) = [] := by
  have hraw := rawFlags_of_settled hnone
  have hrestores := h.restores Route.isName_standard hdist hraw hlands w
  exact ⟨hrestores, RuleSet.fixables_of_restores hnone hrestores hdist
    ((Chain.onLines_ofText text).of_descends h) hraw fun _ => has_mode_of_settled hnone⟩

theorem fixAll_standard (stamp : Option String) (text : String) :
    let fixed := ((ofRuleSet .standard stamp).fixAll (Chain.ofText text)).1
    (Chain.ofText text).Descends RuleSet.standard.catalog fixed ∧ fixed.DistinctNames ∧
      RuleSet.standard.fixables fixed = [] := by
  have htuned : RuleSet.Tuned RuleSet.standard.catalog .standard := .standard
  have hread := Chain.distinctNames_ofText text
  obtain ⟨hdescends, hdist⟩ := htuned.descends_fixAll usable_standard (by decide +kernel) hread
    (Chain.onLines_ofText text)
  obtain ⟨settled, hsettled, hfixed⟩ := htuned.exists_fixAll usable_standard hread
  have hnone := RuleSet.fixables_reorder hsettled RuleSet.standard.catalog.order
  rw [← hfixed] at hnone
  exact ⟨hdescends, hdist, hnone⟩

/-- What fixing makes of a text that spells its keys alike lands on that text. -/
theorem lands_fixAll (stamp : Option String) (h : Document.WellSpelled (Text.lines text)) :
    Lands (assignments (Text.lines text))
      ((ofRuleSet .standard stamp).fixAll (Chain.ofText text)).1 := by
  obtain ⟨hdescends, hdist, hnone⟩ := fixAll_standard stamp text
  exact hdescends.lands h Route.isName_standard hdist fun suite _ =>
    OrderedMap.get?_eq_none_iff.mp (rawFlags_of_settled hnone suite)

/-- Fixing reaches the file: what was fixed is read back, and nothing is left to be fixed. -/
theorem fixAll_render (stamp : Option String) (text : String)
    (hlands : Lands (assignments (Text.lines text))
      ((ofRuleSet .standard stamp).fixAll (Chain.ofText text)).1) :
    let b := ofRuleSet .standard stamp
    let fixed := (b.fixAll (Chain.ofText text)).1
    let again := Chain.ofText (b.render fixed)
    again.Restores fixed ∧
      (∀ i ∈ (b.validate again).issues, ¬(i.severity = .error ∧ i.fixable = true)) ∧
      (b.fixAll again).2.fixed = 0 := by
  obtain ⟨hdescends, hdist, hnone⟩ := fixAll_standard stamp text
  dsimp only
  rw [validate_ofRuleSet, ← RuleSet.fixables_eq_nil_iff_issues,
    fixed_eq_zero_iff stamp (Chain.distinctNames_ofText _), and_self]
  exact settled_render hdescends hdist hnone hlands _

/-- A mode and a suite flag are mended, a tag is given up and a commented line is taken up. -/
theorem fixAll_render_mended :
    let text :=
      "a.mode=fast\nA.branch=main\na.tag=1.0\n#olap.mode.devs=binary\ntests.slow.run=maybe\n"
    let b := ofRuleSet .standard none
    let fixed := (b.fixAll (Chain.ofText text)).1
    let again := Chain.ofText (b.render fixed)
    again.Restores fixed ∧
      (∀ i ∈ (b.validate again).issues, ¬(i.severity = .error ∧ i.fixable = true)) ∧
      (b.fixAll again).2.fixed = 0 :=
  fixAll_render none _ (lands_fixAll none (by decide +kernel))

/-! ## Modes that are spelled otherwise -/

theorem fixables_ne_nil_of_no_mode (hdist : c.DistinctNames) {name : String}
    (hhas : c.hasSection name = true) (hnone : c.get? name Property.mode = none) :
    RuleSet.standard.fixables c ≠ [] := by
  intro hsettled
  obtain ⟨s, hs, hname⟩ := List.any_eq_true.mp hhas
  have hmode := has_mode_of_settled hsettled hs
  rw [Chain.get?_of_mem hdist hs hname] at hnone
  rw [Section.has_of_get?_none hnone] at hmode
  cases hmode

/-- Where a text has the mode of a section in other spellings only, a mode that is written onto it
does not come in. -/
theorem unsettled_render (h : (Chain.ofText text).Descends RuleSet.standard.catalog c)
    (hdist : c.DistinctNames) (hnone : RuleSet.standard.fixables c = []) {x : Assignment}
    {name p : String} (hx : x ∈ assignments (Text.lines text)) (hactive : x.active = true)
    (hroute : Route.ofKey x.key = .property name p) (hp : Text.sameName p Property.mode = true)
    (hother : ∀ k ∈ spellings (assignments (Text.lines text))
        (Route.propertyKey name Property.mode),
      (Route.ofKey k).samePlace (.property name Property.mode) = false) (w : Writer) :
    RuleSet.standard.fixables (Chain.ofText (w.render c)) ≠ [] := by
  have hsuites : ∀ suite ∈ c.flags.keys, suite ∉ c.rawFlags.keys := fun suite _ =>
    OrderedMap.get?_eq_none_iff.mp (rawFlags_of_settled hnone suite)
  obtain ⟨hkey, hdot⟩ := Route.ofKey_eq_property hroute
  have hspelling : x.key ∈ spellings (assignments (Text.lines text))
      (Route.propertyKey name Property.mode) := by
    refine List.mem_map_of_mem (Document.mem_named.mpr ⟨hx, ?_⟩)
    rw [hkey, Route.sameName_propertyKey_iff hdot hdot]
    exact ⟨Text.sameName_refl name, hp⟩
  have hsections : ∀ s ∈ c.sections, ∀ e ∈ Document.sectionWrites s,
      Text.sameName e.1 (Route.propertyKey name Property.mode) = true →
        ∃ k ∈ spellings (assignments (Text.lines text)) (Route.propertyKey name Property.mode),
          ∃ p, (Route.ofKey k).samePlace (.property s.name p) = true := by
    intro s hs e he hsame
    obtain ⟨e, -, rfl⟩ := List.mem_map.mp he
    have hname := h.isName Route.isName_standard (List.mem_map_of_mem hs)
    rw [Route.sameName_propertyKey_iff hname.dot hdot, Text.sameName_comm] at hsame
    refine ⟨x.key, hspelling, p, ?_⟩
    rw [hroute]
    exact Route.leadsTo_iff.mpr ⟨name, rfl, hsame.1⟩
  obtain ⟨hgone, hkeys⟩ := w.settingAt?_renderOnto_of_spellings
    (r := .property name Property.mode) (by simp)
    (h.writable Route.isName_standard hdist hsuites).lines (List.ne_nil_of_mem hspelling) hother
    hsections
  -- the other spelling is kept, so the section is there, and it has no mode
  have hread : x.key ∈ (Chain.settings text).keys := by
    rw [Document.settings_lines]
    exact Document.mem_keys_settings.mpr ⟨x, hx, hactive, rfl⟩
  have hp' : p ∉ Property.known := by
    intro hknown
    have hmode := Property.eq_of_sameName p hknown Property.mode (by decide) hp
    have hplace := hother x.key hspelling
    rw [hroute, hmode, Route.samePlace_refl] at hplace
    cases hplace
  have hkept := h.keeps_of_not_known hx hactive hroute hp'
  have hthere := hkeys x.key hread (by rwa [hroute])
  rw [h.render_eq]
  generalize w.renderOnto text c = out at hgone hthere
  have hhas : (Chain.ofText out).hasSection name = true :=
    Chain.hasSection_ofSettings.mpr
      ⟨x.key, hthere, name, by rw [hroute]; rfl, Text.sameName_refl name⟩
  rw [← Chain.get?_eq_settingAt?] at hgone
  exact fixables_ne_nil_of_no_mode (Chain.distinctNames_ofText out) hhas hgone

theorem fixAll_render_of_spelling (stamp : Option String) {text : String} {x : Assignment}
    {name p : String} (hx : x ∈ assignments (Text.lines text)) (hactive : x.active = true)
    (hroute : Route.ofKey x.key = .property name p) (hp : Text.sameName p Property.mode = true)
    (hother : ∀ k ∈ spellings (assignments (Text.lines text))
        (Route.propertyKey name Property.mode),
      (Route.ofKey k).samePlace (.property name Property.mode) = false) :
    let b := ofRuleSet .standard stamp
    let again := Chain.ofText (b.render (b.fixAll (Chain.ofText text)).1)
    (∃ i ∈ (b.validate again).issues, i.severity = .error ∧ i.fixable = true) ∧
      (b.fixAll again).2.fixed ≠ 0 := by
  obtain ⟨hdescends, hdist, hnone⟩ := fixAll_standard stamp text
  have hne := unsettled_render hdescends hdist hnone hx hactive hroute hp hother
    (ofRuleSet .standard stamp).writer
  dsimp only
  rw [validate_ofRuleSet, Ne, fixed_eq_zero_iff stamp (Chain.distinctNames_ofText _)]
  obtain ⟨i, hi⟩ := List.exists_mem_of_ne_nil _ hne
  exact ⟨⟨i, RuleSet.mem_fixables.mp hi⟩, hne⟩

/-- The mode that fixing adds goes onto the line of `a.Mode`, which is not read as the mode. -/
theorem fixAll_render_mixed_case :
    let b := ofRuleSet .standard none
    let again := Chain.ofText (b.render (b.fixAll (Chain.ofText "a.Mode=source\na.branch=main")).1)
    (∃ i ∈ (b.validate again).issues, i.severity = .error ∧ i.fixable = true) ∧
      (b.fixAll again).2.fixed ≠ 0 :=
  fixAll_render_of_spelling none (x := ⟨"a.Mode", "source", true⟩) (by decide +kernel) rfl
    (show Route.ofKey "a.Mode" = .property "a" "Mode" by decide +kernel) (by decide)
    (by decide +kernel)

end Workbench

end BuildChain
