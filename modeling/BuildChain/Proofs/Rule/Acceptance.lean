import BuildChain.Proofs.Pattern.Standard
import BuildChain.Proofs.Rule.Silent
import BuildChain.Proofs.RuleSet

/-!
# What the standard rules accept

A chain has no error under the standard rules exactly when it is well formed. What well-formed means
is said without the rules; `StandardId.Demands` tells which rule asks for which part of it.
-/

namespace BuildChain

/-- A chain that a build can be made from. -/
structure Chain.WellFormed (c : Chain) : Prop where
  /-- Every canonical project has a section. -/
  projects : ∀ name ∈ Order.standard.names, ∃ s ∈ c.sections, Text.sameName s.name name = true
  modes : ∀ s ∈ c.sections, ∃ m : BuildMode, s.get? Property.mode = some m.text
  devModes : ∀ s ∈ c.sections, ∀ v, s.get? Property.devMode = some v →
    Text.isBlank v = true ∨ ∃ m : BuildMode, v = m.text
  /-- A section is built from a branch or from a tag, not from both. -/
  sources : ∀ s ∈ c.sections, s.has Property.branch = !s.has Property.tag
  forks : ∀ s ∈ c.sections, ∀ v, s.get? Property.fork = some v →
    Text.isBlank v = true ∨ IsRepository (Text.trim v)
  /-- Content is not built from the stage branch. -/
  content : ∀ s ∈ c.sections, Text.sameName s.name "content" = true →
    ∀ v, s.get? Property.branch = some v → Text.sameName (Text.trim v) "stage" = false
  version : ∀ v, c.globals.version = some v →
    Text.isBlank v = true ∨ ∃ n, Text.readNumber (Text.trim v) = some n
  devVersion : ∀ v, c.globals.devVersion = some v →
    Text.isBlank v = true ∨ ∃ n, Text.readNumber (Text.trim v) = some n
  /-- A binary project has a version of some band to be built from. -/
  usable : (∃ s ∈ c.sections, s.get? Property.mode = some BuildMode.binary.text) →
    ∃ v n, c.globals.version = some v ∧ Text.isBlank v = false ∧
      Text.readNumber (Text.trim v) = some n ∧ ∃ b ∈ Band.standard, b.min ≤ n ∧ n ≤ b.max
  flags : c.rawFlags = ∅

namespace Rule

/-! ## The demands of the rules -/

namespace StandardId

def severity : StandardId → Severity
  | devModeWithoutMode | testsPreferBranch | featureBranchNaming | projectNaming
  | integrationTests | globalDevVersionRequired => .warning
  | _ => .error

/-- What has to hold of a chain for a standard rule to raise no error. -/
def Demands (c : Chain) : StandardId → Prop
  | requiredProjects => ∀ name ∈ Order.standard.names, c.hasSection name = true
  | requiredMode => ∀ s ∈ c.sections, s.has Property.mode = true
  | validMode => ∀ s ∈ c.sections, ∀ v, s.nonBlank? Property.mode = some v → v ∈ modeValues
  | validDevMode =>
    ∀ s ∈ c.sections, ∀ v, s.nonBlank? Property.devMode = some v → v ∈ devModeValues
  | branchTagExclusive =>
    ∀ s ∈ c.sections, ¬(s.has Property.branch = true ∧ s.has Property.tag = true)
  | branchOrTagRequired =>
    ∀ s ∈ c.sections, s.has Property.branch = true ∨ s.has Property.tag = true
  | forkFormat =>
    ∀ s ∈ c.sections, ∀ v, s.nonBlank? Property.fork = some v → IsRepository (Text.trim v)
  | contentStageBranch => ∀ s ∈ c.sections, s.isNamed "content" = true →
    ∀ v, s.nonBlank? Property.branch = some v → Text.sameName "stage" (Text.trim v) = false
  | globalVersionWhenBinary => c.anyMode BuildMode.binary.text = true →
    ∃ v, c.globals.versionAt? GlobalKey.version = some v ∧
      ∀ n, Text.readNumber (Text.trim v) = some n → ∃ b ∈ Band.standard, b.contains n = true
  | buildNumberRange => c.globals.lacksNumber GlobalKey.version = false ∧
    c.globals.lacksNumber GlobalKey.devVersion = false
  | integrationTests => ∀ suite, c.rawFlags.get? suite = none
  | _ => True

end StandardId

/-- Kinds, severities and switches of the standard rules, in their order. -/
theorem standard_table : standard.map (fun r => (r.kind, r.severity, r.enabled)) =
    StandardId.all.map fun id => (id.kind, id.severity, true) := rfl

theorem exists_id_of_mem_standard {r : Rule} (hr : r ∈ standard) :
    ∃ id : StandardId, r.kind = id.kind ∧ r.severity = id.severity ∧ r.enabled = true := by
  have hmem : (r.kind, r.severity, r.enabled) ∈
      StandardId.all.map fun id => (id.kind, id.severity, true) :=
    standard_table ▸ List.mem_map_of_mem hr
  obtain ⟨id, -, hid⟩ := List.mem_map.mp hmem
  simp only [Prod.mk.injEq] at hid
  exact ⟨id, hid.1.symm, hid.2.1.symm, hid.2.2.symm⟩

theorem exists_mem_standard (id : StandardId) :
    ∃ r ∈ standard, r.kind = id.kind ∧ r.severity = id.severity ∧ r.enabled = true := by
  have hall : id ∈ StandardId.all := by cases id <;> decide
  have hmem : (id.kind, id.severity, true) ∈
      standard.map fun r => (r.kind, r.severity, r.enabled) := by
    rw [standard_table]
    exact List.mem_map.mpr ⟨id, hall, rfl⟩
  obtain ⟨r, hr, htable⟩ := List.mem_map.mp hmem
  simp only [Prod.mk.injEq] at htable
  exact ⟨r, hr, htable⟩

variable {r : Rule} {c : Chain}

theorem any_eq_false_iff {α : Type} {o : Option α} {p : α → Bool} :
    o.any p = false ↔ ∀ v, o = some v → p v = false := by
  cases o <;> simp

/-- The one rule that leaves it to another one to complain about a version that is no number. -/
theorem complains_eq_false_iff : Wording.complains {} {} c = false ↔
    StandardId.globalVersionWhenBinary.Demands c := by
  rw [Wording.complains, StandardId.Demands, Bool.and_eq_false_iff, ← Bool.not_eq_true,
    ← imp_iff_not_or, Option.isSome_eq_false_iff, Option.isNone_iff_eq_none]
  refine imp_congr_right fun _ => ?_
  unfold versionComplaint?
  cases c.globals.versionAt? GlobalKey.version with
  | none => simp
  | some v =>
    dsimp only
    cases hn : Text.readNumber (Text.trim v) with
    | none => simp [hn]
    | some n =>
      simp only [Option.some.injEq, exists_eq_left', hn, forall_eq', ite_eq_left_iff,
        reduceCtorEq, imp_false, not_not, List.any_eq_true]

theorem silent_iff_demands {id : StandardId} (hkind : r.kind = id.kind)
    (hseverity : r.severity = id.severity) (henabled : r.enabled = true) :
    r.Silent {} c ↔ id.Demands c := by
  have hsettled : id.kind.isRepairable = true → (r.Silent {} c ↔ r.Settled {} c) := fun h =>
    silent_iff_settled henabled (hkind ▸ h)
  have hlocal : id.kind.isRepairable = true → id.kind.isLocal = true → id.severity = .error →
      (r.Silent {} c ↔ ∀ s ∈ c.sections, id.kind.finds s = false) := by
    intro hrepairable hlocal herror
    rw [hsettled hrepairable, settled_iff_of_isLocal (hkind ▸ hlocal), hseverity, herror,
      forall_prop_of_true rfl, hkind]
  cases id with
  | requiredProjects =>
    rw [hsettled rfl, settled_requiredSections hkind, hseverity]
    exact forall_prop_of_true rfl
  | requiredMode =>
    rw [hlocal rfl rfl rfl]
    simp [StandardId.kind, Kind.finds, StandardId.Demands]
  | validMode =>
    rw [hlocal rfl rfl rfl]
    simp [StandardId.kind, Kind.finds, StandardId.Demands, any_eq_false_iff, AllowedValues.allows]
  | validDevMode =>
    rw [hlocal rfl rfl rfl]
    simp [StandardId.kind, Kind.finds, StandardId.Demands, any_eq_false_iff, AllowedValues.allows]
  | branchTagExclusive =>
    rw [hlocal rfl rfl rfl]
    refine forall₂_congr fun s _ => ?_
    cases hb : s.has Property.branch <;> cases ht : s.has Property.tag <;>
      simp [StandardId.kind, Kind.finds, PropertySet.presentIn, hb, ht]
  | branchOrTagRequired =>
    rw [hlocal rfl rfl rfl]
    refine forall₂_congr fun s _ => ?_
    cases hb : s.has Property.branch <;> cases ht : s.has Property.tag <;>
      simp [StandardId.kind, Kind.finds, PropertySet.presentIn, hb, ht]
  | forkFormat =>
    rw [hlocal rfl rfl rfl]
    simp [StandardId.kind, Kind.finds, StandardId.Demands, any_eq_false_iff,
      NamePattern.fork_fits_iff]
  | contentStageBranch =>
    rw [silent_forbiddenBranches hkind hseverity]
    simp [StandardId.Demands]
  | globalVersionWhenBinary =>
    rw [hsettled rfl, settled_version hkind, hseverity, complains_eq_false_iff]
    exact forall_prop_of_true rfl
  | buildNumberRange =>
    rw [hsettled rfl, settled_buildNumbers hkind]
    simp [StandardId.Demands]
  | integrationTests =>
    rw [hsettled rfl, settled_testSuites hkind]
    rfl
  | globalDevVersionRequired =>
    rw [hsettled rfl, settled_devVersion hkind, hseverity]
    simp [StandardId.severity, StandardId.Demands]
  | devModeWithoutMode =>
    exact iff_of_true (silent_of_warning (by rw [hkind]; rfl) hseverity) trivial
  | testsPreferBranch =>
    exact iff_of_true (silent_of_warning (by rw [hkind]; rfl) hseverity) trivial
  | featureBranchNaming =>
    exact iff_of_true (silent_of_warning (by rw [hkind]; rfl) hseverity) trivial
  | projectNaming =>
    exact iff_of_true (silent_of_warning (by rw [hkind]; rfl) hseverity) trivial

end Rule

/-! ## The whole set -/

theorem RuleSet.hasErrors_eq_false_iff {s : RuleSet} {c : Chain} :
    ((Validator.ofRuleSet s).validate c).hasErrors = false ↔
      ∀ r ∈ s.rules, r.enabled = true → r.Silent s.catalog c := by
  rw [Report.hasErrors, List.any_eq_false, Validator.validate, Validator.ofRuleSet]
  simp only [List.mem_flatMap, List.mem_map, enabled, List.mem_filter, Rule.Silent]
  constructor
  · intro h r hr henabled i hi
    exact Bool.not_eq_true _ ▸ h i ⟨_, ⟨r, ⟨hr, henabled⟩, rfl⟩, hi⟩
  · rintro h i ⟨_, ⟨r, ⟨hr, henabled⟩, rfl⟩, hi⟩
    rw [h r hr henabled i hi]
    exact Bool.false_ne_true

theorem Rule.hasErrors_standard_iff {c : Chain} :
    (Validator.standard.validate c).hasErrors = false ↔ ∀ id : StandardId, id.Demands c := by
  rw [Validator.standard, RuleSet.hasErrors_eq_false_iff]
  constructor
  · intro h id
    obtain ⟨r, hr, hkind, hseverity, henabled⟩ := exists_mem_standard id
    exact (silent_iff_demands hkind hseverity henabled).mp (h r hr henabled)
  · intro h r hr henabled
    obtain ⟨id, hkind, hseverity, -⟩ := exists_id_of_mem_standard hr
    exact (silent_iff_demands hkind hseverity henabled).mpr (h id)

/-! ## Well-formed chains -/

theorem Rule.mem_modeValues_iff {v : String} : v ∈ modeValues ↔ ∃ m : BuildMode, v = m.text := by
  constructor
  · simp only [modeValues, List.mem_cons, List.not_mem_nil, or_false]
    rintro (h | h | h)
    · exact ⟨.source, h⟩
    · exact ⟨.binary, h⟩
    · exact ⟨.ignored, h⟩
  · rintro ⟨m, rfl⟩
    cases m <;> decide

theorem Rule.mem_devModeValues_iff {v : String} : v ∈ devModeValues ↔ v ∈ modeValues := by
  simp only [devModeValues, modeValues, List.mem_cons, List.not_mem_nil, or_false]
  tauto

theorem BuildMode.isBlank_text (m : BuildMode) : Text.isBlank m.text = false := by
  cases m <;> decide

namespace Section

variable {s : Section} {suffix : String}

theorem nonBlank?_eq_some_iff {v : String} :
    s.nonBlank? suffix = some v ↔ s.get? suffix = some v ∧ Text.isBlank v = false := by
  rw [nonBlank?, Option.filter_eq_some_iff, Bool.not_eq_true']

/-- What is asked of a value that is not blank. -/
theorem forall_nonBlank?_iff {p : String → Prop} : (∀ v, s.nonBlank? suffix = some v → p v) ↔
    ∀ v, s.get? suffix = some v → Text.isBlank v = true ∨ p v := by
  simp only [nonBlank?_eq_some_iff, and_imp, ← Bool.not_eq_true, ← or_iff_not_imp_left]

/-- A property with one of the modes is one that is there, and has no other value. -/
theorem exists_mode_iff : (∃ m : BuildMode, s.get? suffix = some m.text) ↔
    s.has suffix = true ∧ ∀ v, s.nonBlank? suffix = some v → v ∈ Rule.modeValues := by
  constructor
  · rintro ⟨m, hm⟩
    have hvalue := nonBlank?_of_get? hm m.isBlank_text
    refine ⟨has_of_get? hm m.isBlank_text, fun v hv => ?_⟩
    rw [hvalue, Option.some.injEq] at hv
    exact Rule.mem_modeValues_iff.mpr ⟨m, hv.symm⟩
  · rintro ⟨hhas, hall⟩
    obtain ⟨v, hv⟩ := Option.isSome_iff_exists.mp hhas
    obtain ⟨m, rfl⟩ := Rule.mem_modeValues_iff.mp (hall v hv)
    exact ⟨m, (nonBlank?_eq_some_iff.mp hv).1⟩

end Section

theorem Globals.nonBlank?_eq_some_iff {field : Option String} {v : String} :
    nonBlank? field = some v ↔ field = some v ∧ Text.isBlank v = false := by
  rw [nonBlank?, Option.filter_eq_some_iff, Bool.not_eq_true']

theorem Globals.lacksNumber_eq_false_iff {g : Globals} {key : String} {field : Option String}
    (h : g.versionAt? key = nonBlank? field) : g.lacksNumber key = false ↔
      ∀ v, field = some v →
        Text.isBlank v = true ∨ ∃ n, Text.readNumber (Text.trim v) = some n := by
  rw [lacksNumber, h, Rule.any_eq_false_iff]
  simp only [nonBlank?_eq_some_iff, and_imp, ← Bool.not_eq_true, ← or_iff_not_imp_left,
    Option.isNone_iff_eq_none, ← Option.ne_none_iff_exists']

theorem Chain.wellFormed_iff {c : Chain} :
    c.WellFormed ↔ ∀ id : Rule.StandardId, id.Demands c := by
  have hnamed : ∀ name, c.hasSection name = true ↔
      ∃ s ∈ c.sections, Text.sameName s.name name = true := fun _ => List.any_eq_true
  have hversion : c.globals.versionAt? GlobalKey.version = Globals.nonBlank? c.globals.version :=
    rfl
  have hdevVersion : c.globals.versionAt? GlobalKey.devVersion =
    Globals.nonBlank? c.globals.devVersion := rfl
  constructor
  · intro h id
    cases id with
    | requiredProjects => exact fun name hname => (hnamed name).mpr (h.projects name hname)
    | requiredMode => exact fun s hs => (Section.exists_mode_iff.mp (h.modes s hs)).1
    | validMode => exact fun s hs => (Section.exists_mode_iff.mp (h.modes s hs)).2
    | validDevMode =>
      intro s hs
      simp only [Rule.mem_devModeValues_iff, Rule.mem_modeValues_iff]
      exact Section.forall_nonBlank?_iff.mpr (h.devModes s hs)
    | branchTagExclusive =>
      rintro s hs ⟨hbranch, htag⟩
      have hsource := h.sources s hs
      rw [hbranch, htag] at hsource
      cases hsource
    | branchOrTagRequired =>
      intro s hs
      rw [h.sources s hs]
      cases s.has Property.tag <;> simp
    | forkFormat => exact fun s hs => Section.forall_nonBlank?_iff.mpr (h.forks s hs)
    | contentStageBranch =>
      intro s hs hname v hv
      rw [Text.sameName_comm]
      exact h.content s hs hname v (Section.nonBlank?_eq_some_iff.mp hv).1
    | globalVersionWhenBinary =>
      intro hany
      obtain ⟨v, n, hv, hblank, hread, hband⟩ := h.usable (anyMode_iff.mp hany)
      refine ⟨v, hversion.trans (Globals.nonBlank?_eq_some_iff.mpr ⟨hv, hblank⟩), fun n' hn' => ?_⟩
      rw [hread, Option.some.injEq] at hn'
      subst hn'
      simpa [Band.contains] using hband
    | buildNumberRange =>
      exact ⟨(Globals.lacksNumber_eq_false_iff hversion).mpr h.version,
        (Globals.lacksNumber_eq_false_iff hdevVersion).mpr h.devVersion⟩
    | integrationTests =>
      intro suite
      rw [h.flags]
      rfl
    | _ => trivial
  · intro h
    constructor
    case projects => exact fun name hname => (hnamed name).mp (h .requiredProjects name hname)
    case modes =>
      exact fun s hs => Section.exists_mode_iff.mpr ⟨h .requiredMode s hs, h .validMode s hs⟩
    case devModes =>
      intro s hs
      have hvalues := h .validDevMode s hs
      simp only [Rule.mem_devModeValues_iff, Rule.mem_modeValues_iff] at hvalues
      exact Section.forall_nonBlank?_iff.mp hvalues
    case sources =>
      intro s hs
      have hnotBoth := h .branchTagExclusive s hs
      have hone := h .branchOrTagRequired s hs
      revert hnotBoth hone
      cases s.has Property.branch <;> cases s.has Property.tag <;> simp
    case forks => exact fun s hs => Section.forall_nonBlank?_iff.mp (h .forkFormat s hs)
    case content =>
      intro s hs hname v hv
      by_cases hblank : Text.isBlank v = true
      · -- a blank branch is trimmed to nothing
        rw [Text.isBlank_iff, ← Text.toList_trim, String.toList_eq_nil_iff] at hblank
        rw [hblank]
        decide
      · rw [Text.sameName_comm]
        exact h .contentStageBranch s hs hname v
          (Section.nonBlank?_eq_some_iff.mpr ⟨hv, Bool.not_eq_true _ ▸ hblank⟩)
    case version => exact (Globals.lacksNumber_eq_false_iff hversion).mp (h .buildNumberRange).1
    case devVersion =>
      exact (Globals.lacksNumber_eq_false_iff hdevVersion).mp (h .buildNumberRange).2
    case usable =>
      intro hbinary
      obtain ⟨v, hv, hband⟩ := h .globalVersionWhenBinary (anyMode_iff.mpr hbinary)
      obtain ⟨hfield, hblank⟩ := Globals.nonBlank?_eq_some_iff.mp (hversion.symm.trans hv)
      have hnumber :=
        (Globals.lacksNumber_eq_false_iff hversion).mp (h .buildNumberRange).1 v hfield
      rw [hblank] at hnumber
      obtain ⟨n, hn⟩ := hnumber.resolve_left Bool.false_ne_true
      exact ⟨v, n, hfield, hblank, hn, by simpa [Band.contains] using hband n hn⟩
    case flags =>
      refine OrderedMap.ext ?_
      have hnone := h .integrationTests
      refine List.eq_nil_iff_forall_not_mem.mpr ?_
      rintro ⟨suite, value⟩ hmem
      rw [OrderedMap.mem_toList_iff, hnone suite] at hmem
      cases hmem

/-- The standard rules raise no error exactly about the well-formed chains. -/
theorem Validator.hasErrors_standard_iff_wellFormed (c : Chain) :
    (standard.validate c).hasErrors = false ↔ c.WellFormed := by
  rw [Rule.hasErrors_standard_iff, Chain.wellFormed_iff]

end BuildChain
