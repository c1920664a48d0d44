import BuildChain.Proofs.Rule.Repairable

/-!
# Rules that raise no error

Most kinds raise errors that can be repaired only, so such a rule is silent exactly when it is
settled. The other kinds look at one section at a time and keep to the severity of their rule.
-/

namespace BuildChain.Rule

namespace Kind

/-- Whether a repair can be tried on every error of the kind. -/
def isRepairable : Kind → Bool
  | featureBranch _ | projectName _ | forbiddenBranches _ | preferredBranch _ | devModeAlone _ =>
    false
  | _ => true

end Kind

/-- The rule raises no error about the chain. -/
def Silent (r : Rule) (cat : Catalog) (c : Chain) : Prop :=
  ∀ i ∈ Validator.issuesOf c (r.check cat), i.isError = false

variable {r : Rule} {cat : Catalog} {c : Chain} {i : Issue}

/-! ## Kinds whose errors can be repaired -/

theorem fixable_of_isError (hk : r.kind.isRepairable = true)
    (hi : i ∈ Validator.issuesOf c (r.check cat)) (herror : i.isError = true) :
    i.fixable = true := by
  have hopen : ∀ {found : List Issue}, r.issues cat c = .ok found → i ∈ found :=
    fun h => issuesOf_check h ▸ hi
  cases hkind : r.kind with
  | requiredProperty k =>
    have hmem : i ∈ r.requiredPropertyIssues k c := hopen (by rw [issues, hkind])
    obtain ⟨s, -, rfl⟩ := List.mem_map.mp hmem
    rfl
  | allowedValues k =>
    obtain ⟨s, -, hs⟩ := List.mem_filterMap.mp (hopen (by rw [issues, hkind]))
    unfold allowedValuesIssue? at hs
    split at hs
    · cases hs
    · split at hs <;> cases hs
      rfl
  | exclusive k =>
    obtain ⟨s, -, hs⟩ := List.mem_filterMap.mp (hopen (by rw [issues, hkind]))
    unfold exclusiveIssue? at hs
    split at hs <;> cases hs
    rfl
  | oneOf k =>
    cases hprops : k.properties with
    | nil => simp [Validator.issuesOf, check, issues, hkind, hprops] at hi
    | cons first rest =>
      have hmem : i ∈ r.oneOfIssues k first c := hopen (by simp only [issues, hkind, hprops])
      obtain ⟨s, -, rfl⟩ := List.mem_map.mp hmem
      rfl
  | requiredSections k =>
    have hmem : i ∈ r.requiredSectionsIssues k (k.namesIn cat) c :=
      hopen (by rw [issues, hkind])
    obtain ⟨name, -, rfl⟩ := List.mem_map.mp hmem
    rfl
  | buildNumbers k =>
    obtain ⟨key, -, hkey⟩ := List.mem_filterMap.mp (hopen (by rw [issues, hkind]))
    unfold buildNumberIssue? at hkey
    split at hkey
    · cases hkey
    · dsimp only at hkey
      split at hkey
      · cases hkey
        rfl
      · split at hkey <;> cases hkey
        cases herror
  | testSuites k =>
    have hunknown : ∀ suite, r.unknownSuiteIssue? k (k.knownIn cat) suite ≠ some i := by
      intro suite h
      unfold unknownSuiteIssue? at h
      split at h <;> cases h
      cases herror
    have hmem : i ∈ r.testSuitesIssues k (k.knownIn cat) c := hopen (by rw [issues, hkind])
    rcases List.mem_append.mp hmem with hflag | hraw
    · obtain ⟨suite, -, h⟩ := List.mem_filterMap.mp hflag
      exact absurd h (hunknown suite)
    · obtain ⟨e, -, h⟩ := List.mem_flatMap.mp hraw
      rcases List.mem_append.mp h with h | h
      · exact absurd (Option.mem_toList.mp h) (hunknown e.1)
      · rw [List.mem_singleton.mp h]
        rfl
  | devVersion k =>
    have hmem := Option.mem_toList.mp (hopen (by rw [issues, hkind]))
    unfold devVersionIssue? at hmem
    split at hmem <;> cases hmem
    rfl
  | version k =>
    have hmem := Option.mem_toList.mp (hopen (by rw [issues, hkind]))
    unfold versionIssue? at hmem
    split at hmem
    · obtain ⟨message, -, rfl⟩ := Option.map_eq_some_iff.mp hmem
      rfl
    · cases hmem
  | fork k =>
    obtain ⟨s, -, hs⟩ := List.mem_filterMap.mp (hopen (by rw [issues, hkind]))
    unfold forkIssue? at hs
    split at hs
    · cases hs
    · dsimp only at hs
      split at hs <;> cases hs
      rfl
  | featureBranch | projectName | forbiddenBranches | preferredBranch | devModeAlone =>
    rw [hkind] at hk
    cases hk

theorem silent_iff_settled (henabled : r.enabled = true) (hk : r.kind.isRepairable = true) :
    r.Silent cat c ↔ r.Settled cat c := by
  have hrepairable : r.repairable cat c = [] ↔ (r.enabled = true → r.Settled cat c) :=
    repairable_eq_nil_iff
  rw [forall_prop_of_true henabled] at hrepairable
  rw [← hrepairable, repairable, if_pos henabled, List.filter_eq_nil_iff]
  constructor
  · intro h i hi
    simp [h i hi]
  · intro h i hi
    rw [← Bool.not_eq_true]
    intro herror
    exact h i hi (by rw [herror, fixable_of_isError hk hi herror]; rfl)

/-! ## What settles a rule, kind by kind -/

theorem settled_iff_of_isLocal (h : r.kind.isLocal = true) :
    r.Settled cat c ↔ (r.severity = .error → ∀ s ∈ c.sections, r.kind.finds s = false) := by
  refine ⟨Settled.sections, fun hsections => ⟨hsections, ?_, ?_, ?_, ?_, ?_⟩⟩ <;>
    intro k hk <;> rw [hk] at h <;> cases h

theorem settled_requiredSections {k : RequiredSections} (hk : r.kind = .requiredSections k) :
    r.Settled cat c ↔ (r.severity = .error → ∀ name ∈ k.namesIn cat, c.hasSection name = true) := by
  constructor
  · exact fun h => h.projects k hk
  · intro hprojects
    constructor <;> rw [hk]
    case sections => exact fun _ _ _ => rfl
    case projects =>
      rintro k' ⟨⟩
      exact hprojects
    all_goals nofun

theorem settled_buildNumbers {k : BuildNumbers} (hk : r.kind = .buildNumbers k) :
    r.Settled cat c ↔ ∀ key ∈ k.fields, c.globals.lacksNumber key = false := by
  constructor
  · exact fun h => h.numbers k hk
  · intro hnumbers
    constructor <;> rw [hk]
    case sections => exact fun _ _ _ => rfl
    case numbers =>
      rintro k' ⟨⟩
      exact hnumbers
    all_goals nofun

theorem settled_testSuites {k : TestSuites} (hk : r.kind = .testSuites k) :
    r.Settled cat c ↔ ∀ suite, c.rawFlags.get? suite = none := by
  constructor
  · exact fun h => h.flags k hk
  · intro hflags
    constructor <;> rw [hk]
    case sections => exact fun _ _ _ => rfl
    case flags => exact fun _ _ => hflags
    all_goals nofun

theorem settled_version {k : Wording} (hk : r.kind = .version k) :
    r.Settled cat c ↔ (r.severity = .error → k.complains cat c = false) := by
  constructor
  · exact fun h => h.version k hk
  · intro hversion
    constructor <;> rw [hk]
    case sections => exact fun _ _ _ => rfl
    case version =>
      rintro k' ⟨⟩
      exact hversion
    all_goals nofun

theorem settled_devVersion {k : Wording} (hk : r.kind = .devVersion k) :
    r.Settled cat c ↔ (r.severity = .error → lacksDevVersion c = false) := by
  constructor
  · exact fun h => h.devVersion k hk
  · intro hversion
    constructor <;> rw [hk]
    case sections => exact fun _ _ _ => rfl
    case devVersion => exact fun _ _ => hversion
    all_goals nofun

/-! ## The other kinds -/

/-- A rule about sections whose findings are warnings raises no error. -/
theorem silent_of_warning (h : r.kind.isLocal = true) (hseverity : r.severity = .warning) :
    r.Silent cat c := by
  intro i hi
  obtain ⟨g, htells, hg⟩ := issues_of_isLocal r cat c h
  rw [hg] at hi
  obtain ⟨s, -, hs⟩ := List.mem_filterMap.mp hi
  have hi := hs ▸ htells s
  rw [Issue.isError, hi.2.2.1, hseverity]
  rfl

theorem silent_forbiddenBranches {k : ForbiddenBranches} (hk : r.kind = .forbiddenBranches k)
    (hseverity : r.severity = .error) :
    r.Silent cat c ↔ ∀ s ∈ c.sections, s.isNamed k.project = true →
      ∀ raw, s.nonBlank? Property.branch = some raw →
        ∀ b ∈ k.branches, Text.sameName b (Text.trim raw) = false := by
  have hfound : Validator.issuesOf c (r.check cat) =
      c.sections.filterMap (r.forbiddenBranchIssue? k) := issuesOf_check (by rw [issues, hk])
  have hone : ∀ s, r.forbiddenBranchIssue? k s = none ↔ (s.isNamed k.project = true →
      ∀ raw, s.nonBlank? Property.branch = some raw →
        ∀ b ∈ k.branches, Text.sameName b (Text.trim raw) = false) := by
    intro s
    unfold forbiddenBranchIssue?
    cases s.nonBlank? Property.branch with
    | none => simp
    | some raw => simp [Bool.not_eq_true]
  have herror : ∀ s i, r.forbiddenBranchIssue? k s = some i → i.isError = true := by
    intro s i h
    unfold forbiddenBranchIssue? at h
    split at h
    · cases h
    · dsimp only at h
      split at h <;> cases h
      simp [Issue.isError, sectionIssue, issue, hseverity]
  rw [Silent, hfound]
  constructor
  · intro h s hs
    rw [← hone]
    refine Option.eq_none_iff_forall_ne_some.mpr fun i hi => ?_
    have hfalse := h i (List.mem_filterMap.mpr ⟨s, hs, hi⟩)
    rw [herror s i hi] at hfalse
    cases hfalse
  · intro h i hi
    obtain ⟨s, hs, hi⟩ := List.mem_filterMap.mp hi
    rw [(hone s).mpr (h s hs)] at hi
    cases hi

end BuildChain.Rule
