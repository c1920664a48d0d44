import BuildChain.Proofs.Chain.Sections
import BuildChain.Validator

/-!
# Errors that can be repaired

What a rule raises as a repairable error, kind by kind. The kinds that look at one section at a time
share one description; each of the other five has its own. `Rule.Settled` gathers them: a rule
raises no repairable error exactly when it is switched off or the chain has settled it.
-/

namespace BuildChain

/-- Whether a version is set to something that is no build number. -/
def Globals.lacksNumber (g : Globals) (key : String) : Bool :=
  (g.versionAt? key).any fun raw => (Text.readNumber (Text.trim raw)).isNone

namespace Rule

/-! ## Issues of a rule -/

theorem issuesOf_check {r : Rule} {cat : Catalog} {c : Chain} {found : List Issue}
    (h : r.issues cat c = .ok found) : Validator.issuesOf c (r.check cat) = found := by
  simp only [Validator.issuesOf, check, h]

/-! ## Kinds that look at one section at a time -/

namespace Kind

def isLocal : Kind → Bool
  | requiredSections _ | buildNumbers _ | testSuites _ | devVersion _ | version _ => false
  | _ => true

/-- Whether the kind finds a fault in a section that a repair can be tried on. -/
def finds (k : Kind) (s : Section) : Bool :=
  match k with
  | requiredProperty k => !s.has k.property
  | allowedValues k => (s.nonBlank? k.property).any fun v => !k.allows v
  | exclusive k => 2 ≤ (k.presentIn s).length
  | oneOf k => !k.properties.isEmpty && (k.presentIn s).isEmpty
  | fork k => (s.nonBlank? Property.fork).any fun v => !k.pattern.fits (Text.trim v)
  | _ => false

theorem finds_of_not_isLocal {k : Kind} (h : k.isLocal = false) (s : Section) :
    k.finds s = false := by
  cases k <;> first | rfl | cases h

end Kind

/-- What a rule says about one section: nothing, or an issue of its own severity. -/
def Tells (r : Rule) (s : Section) : Option Issue → Prop
  | none => r.kind.finds s = false
  | some i =>
    i.ruleId = r.id ∧ i.sectionName = some s.name ∧ i.severity = r.severity ∧
      i.fixable = r.kind.finds s

variable {r : Rule} {cat : Catalog} {c : Chain} {i : Issue} {s : Section}

/-- An issue that stands under a condition without which there is nothing to repair. -/
theorem tells_ite {p : Prop} [Decidable p] (hid : i.ruleId = r.id)
    (hname : i.sectionName = some s.name) (hseverity : i.severity = r.severity)
    (hfixable : p → i.fixable = r.kind.finds s) (hfinds : ¬p → r.kind.finds s = false) :
    r.Tells s (if p then some i else none) := by
  split
  · rename_i h
    exact ⟨hid, hname, hseverity, hfixable h⟩
  · rename_i h
    exact hfinds h

theorem tells_allowedValuesIssue? {k : AllowedValues} (hk : r.kind = .allowedValues k) :
    r.Tells s (r.allowedValuesIssue? k s) := by
  unfold allowedValuesIssue?
  cases hv : s.nonBlank? k.property with
  | none => simp [Tells, hk, Kind.finds, hv]
  | some v => by_cases ha : k.allows v <;> simp [Tells, hk, Kind.finds, hv, ha, sectionIssue, issue]

theorem tells_exclusiveIssue? {k : PropertySet} (hk : r.kind = .exclusive k) :
    r.Tells s (r.exclusiveIssue? k s) := by
  unfold exclusiveIssue?
  split
  · rename_i hpresent
    refine ⟨rfl, rfl, rfl, ?_⟩
    simp [hk, Kind.finds, hpresent]
  · rename_i hfew
    rw [Tells, hk, Kind.finds, decide_eq_false_iff_not]
    intro hlen
    match hpresent : k.presentIn s with
    | [] => simp [hpresent] at hlen
    | [_] => simp [hpresent] at hlen
    | first :: second :: more => exact hfew first second more hpresent

theorem tells_forkIssue? {k : Naming} (hk : r.kind = .fork k) : r.Tells s (r.forkIssue? k s) := by
  unfold forkIssue?
  cases hv : s.nonBlank? Property.fork with
  | none => simp [Tells, hk, Kind.finds, hv]
  | some v =>
    cases hf : k.pattern.fits (Text.trim v) <;>
      simp [Tells, hk, Kind.finds, hv, hf, sectionIssue, issue]

/-! The other kinds of this sort find nothing that can be repaired. -/

theorem tells_projectNameIssue? {k : Naming} (hk : r.kind = .projectName k) :
    r.Tells s (r.projectNameIssue? k s) := by
  have hfinds : r.kind.finds s = false := by rw [hk]; rfl
  unfold projectNameIssue?
  split
  · exact hfinds
  · exact ⟨rfl, rfl, rfl, hfinds.symm⟩

theorem tells_featureBranchIssue? {k : BranchNaming} (hk : r.kind = .featureBranch k) :
    r.Tells s (r.featureBranchIssue? k s) := by
  have hfinds : r.kind.finds s = false := by rw [hk]; rfl
  unfold featureBranchIssue?
  cases s.nonBlank? Property.branch with
  | none => exact hfinds
  | some v => exact tells_ite rfl rfl rfl (fun _ => hfinds.symm) fun _ => hfinds

theorem tells_forbiddenBranchIssue? {k : ForbiddenBranches} (hk : r.kind = .forbiddenBranches k) :
    r.Tells s (r.forbiddenBranchIssue? k s) := by
  have hfinds : r.kind.finds s = false := by rw [hk]; rfl
  unfold forbiddenBranchIssue?
  cases s.nonBlank? Property.branch with
  | none => exact hfinds
  | some v => exact tells_ite rfl rfl rfl (fun _ => hfinds.symm) fun _ => hfinds

theorem tells_preferredBranchIssue? {k : PreferredBranch} (hk : r.kind = .preferredBranch k) :
    r.Tells s (r.preferredBranchIssue? k s) := by
  have hfinds : r.kind.finds s = false := by rw [hk]; rfl
  unfold preferredBranchIssue?
  cases s.nonBlank? Property.tag with
  | none => exact hfinds
  | some v => exact tells_ite rfl rfl rfl (fun _ => hfinds.symm) fun _ => hfinds

theorem tells_devModeAloneIssue? {k : Wording} (hk : r.kind = .devModeAlone k) :
    r.Tells s (r.devModeAloneIssue? k s) := by
  have hfinds : r.kind.finds s = false := by rw [hk]; rfl
  unfold devModeAloneIssue?
  cases s.nonBlank? Property.devMode with
  | none => exact hfinds
  | some v =>
    dsimp only
    split
    · exact hfinds
    · exact ⟨rfl, rfl, rfl, hfinds.symm⟩

theorem map_filter_eq_filterMap {α β : Type} (p : α → Bool) (f : α → β) (l : List α) :
    (l.filter p).map f = l.filterMap fun x => if p x = true then some (f x) else none := by
  induction l with
  | nil => rfl
  | cons x xs ih => by_cases hx : p x = true <;> simp [hx, ih]

/-- A kind that looks at one section at a time speaks about each of them in turn. -/
theorem issues_of_isLocal (r : Rule) (cat : Catalog) (c : Chain) (h : r.kind.isLocal = true) :
    ∃ g : Section → Option Issue, (∀ s, r.Tells s (g s)) ∧
      Validator.issuesOf c (r.check cat) = c.sections.filterMap g := by
  cases hk : r.kind with
  | requiredProperty k =>
    have hfound : r.issues cat c = .ok (r.requiredPropertyIssues k c) := by rw [issues, hk]
    refine ⟨_, fun s => ?_, (issuesOf_check hfound).trans (map_filter_eq_filterMap _ _ _)⟩
    refine tells_ite rfl rfl rfl (fun hp => ?_) fun hp => ?_
    · rw [hk, Kind.finds, hp]
    · rw [hk, Kind.finds]
      exact Bool.eq_false_iff.mpr hp
  | allowedValues k =>
    exact ⟨_, fun _ => tells_allowedValuesIssue? hk, issuesOf_check (by rw [issues, hk])⟩
  | exclusive k =>
    exact ⟨_, fun _ => tells_exclusiveIssue? hk, issuesOf_check (by rw [issues, hk])⟩
  | oneOf k =>
    cases hprops : k.properties with
    | nil =>
      refine ⟨fun _ => none, fun s => ?_, ?_⟩
      · simp [Tells, hk, Kind.finds, hprops]
      · simp [Validator.issuesOf, check, issues, hk, hprops]
    | cons first rest =>
      have hfound : r.issues cat c = .ok (r.oneOfIssues k first c) := by
        simp only [issues, hk, hprops]
      refine ⟨_, fun s => ?_, (issuesOf_check hfound).trans (map_filter_eq_filterMap _ _ _)⟩
      refine tells_ite rfl rfl rfl (fun hp => ?_) fun hp => ?_
      · simp [hk, Kind.finds, hprops, hp]
      · simp [hk, Kind.finds, hp]
  | fork k => exact ⟨_, fun _ => tells_forkIssue? hk, issuesOf_check (by rw [issues, hk])⟩
  | projectName k =>
    exact ⟨_, fun s => tells_projectNameIssue? hk, issuesOf_check (by rw [issues, hk])⟩
  | featureBranch k =>
    exact ⟨_, fun _ => tells_featureBranchIssue? hk, issuesOf_check (by rw [issues, hk])⟩
  | forbiddenBranches k =>
    exact ⟨_, fun _ => tells_forbiddenBranchIssue? hk, issuesOf_check (by rw [issues, hk])⟩
  | preferredBranch k =>
    exact ⟨_, fun _ => tells_preferredBranchIssue? hk, issuesOf_check (by rw [issues, hk])⟩
  | devModeAlone k =>
    exact ⟨_, fun _ => tells_devModeAloneIssue? hk, issuesOf_check (by rw [issues, hk])⟩
  | requiredSections | buildNumbers | testSuites | devVersion | version =>
    simp [hk, Kind.isLocal] at h

/-! ## Repairable errors -/

/-- The errors of a rule that a repair can be tried on. -/
def repairable (r : Rule) (cat : Catalog) (c : Chain) : List Issue :=
  if r.enabled then
    (Validator.issuesOf c (r.check cat)).filter fun i => i.isError && i.fixable
  else []

/-- Whether the rule is in force and what it finds is an error. -/
def IsStrict (r : Rule) : Prop := r.enabled = true ∧ r.severity = .error

theorem mem_repairable : i ∈ r.repairable cat c ↔
    r.enabled = true ∧ i ∈ Validator.issuesOf c (r.check cat) ∧ i.severity = .error ∧
      i.fixable = true := by
  unfold repairable
  split
  · rename_i h
    simp [h, Issue.isError]
  · rename_i h
    simp [h]

theorem exists_repairable {p : Issue → Prop} (henabled : r.enabled = true)
    (h : ∃ i ∈ Validator.issuesOf c (r.check cat), i.severity = .error ∧ i.fixable = true ∧ p i) :
    ∃ i ∈ r.repairable cat c, p i := by
  obtain ⟨i, hfound, hseverity, hfixable, hp⟩ := h
  exact ⟨i, mem_repairable.mpr ⟨henabled, hfound, hseverity, hfixable⟩, hp⟩

theorem mem_repairable_of_isLocal (h : r.kind.isLocal = true) (hi : i ∈ r.repairable cat c) :
    r.IsStrict ∧ i.ruleId = r.id ∧
      ∃ s ∈ c.sections, i.sectionName = some s.name ∧ r.kind.finds s = true := by
  obtain ⟨henabled, hfound, hseverity, hfixable⟩ := mem_repairable.mp hi
  obtain ⟨g, htells, hg⟩ := issues_of_isLocal r cat c h
  rw [hg] at hfound
  obtain ⟨s, hs, hgs⟩ := List.mem_filterMap.mp hfound
  obtain ⟨hid, hname, hsev, hfix⟩ := hgs ▸ htells s
  exact ⟨⟨henabled, hsev.symm.trans hseverity⟩, hid, s, hs, hname, hfix.symm.trans hfixable⟩

theorem exists_repairable_of_finds (hstrict : r.IsStrict) (hs : s ∈ c.sections)
    (hfinds : r.kind.finds s = true) :
    ∃ i ∈ r.repairable cat c, i.ruleId = r.id ∧ i.sectionName = some s.name := by
  have hlocal : r.kind.isLocal = true := by
    rw [← Bool.not_eq_false]
    intro h
    rw [Kind.finds_of_not_isLocal h] at hfinds
    cases hfinds
  obtain ⟨g, htells, hg⟩ := issues_of_isLocal r cat c hlocal
  have hgs := htells s
  cases hi : g s with
  | none =>
    rw [hi, Tells, hfinds] at hgs
    cases hgs
  | some i =>
    rw [hi] at hgs
    obtain ⟨hid, hname, hsev, hfix⟩ := hgs
    refine exists_repairable hstrict.1 ⟨i, ?_, hsev.trans hstrict.2, hfix.trans hfinds, hid, hname⟩
    rw [hg]
    exact List.mem_filterMap.mpr ⟨s, hs, hi⟩

/-! ## The other kinds -/

theorem mem_repairable_requiredSections {k : RequiredSections}
    (hk : r.kind = .requiredSections k) (hi : i ∈ r.repairable cat c) :
    r.IsStrict ∧ i.ruleId = r.id ∧
      ∃ name ∈ k.namesIn cat, c.hasSection name = false ∧ i.sectionName = some name := by
  obtain ⟨henabled, hfound, hseverity, -⟩ := mem_repairable.mp hi
  rw [issuesOf_check (by rw [issues, hk])] at hfound
  obtain ⟨name, hname, rfl⟩ := List.mem_map.mp hfound
  obtain ⟨hmem, hmissing⟩ := List.mem_filter.mp hname
  exact ⟨⟨henabled, hseverity⟩, rfl, name, hmem, by simpa using hmissing, rfl⟩

theorem exists_repairable_requiredSections {k : RequiredSections}
    (hk : r.kind = .requiredSections k) (hstrict : r.IsStrict) {name : String}
    (hname : name ∈ k.namesIn cat) (hmissing : c.hasSection name = false) :
    ∃ i ∈ r.repairable cat c, i.ruleId = r.id ∧ i.sectionName = some name := by
  have hneeded : name ∈ (k.namesIn cat).filter fun n => !c.hasSection n :=
    List.mem_filter.mpr ⟨hname, by rw [hmissing]; rfl⟩
  refine exists_repairable hstrict.1 ?_
  rw [issuesOf_check (by rw [issues, hk])]
  exact ⟨_, List.mem_map.mpr ⟨name, hneeded, rfl⟩, hstrict.2, rfl, rfl, rfl⟩

theorem mem_repairable_buildNumbers {k : BuildNumbers} (hk : r.kind = .buildNumbers k)
    (hi : i ∈ r.repairable cat c) :
    r.enabled = true ∧ i.ruleId = r.id ∧
      ∃ key ∈ k.fields, c.globals.lacksNumber key = true ∧ i.target = some key := by
  obtain ⟨henabled, hfound, hseverity, hfixable⟩ := mem_repairable.mp hi
  rw [issuesOf_check (by rw [issues, hk])] at hfound
  obtain ⟨key, hkey, hissue⟩ := List.mem_filterMap.mp hfound
  unfold buildNumberIssue? at hissue
  cases hraw : c.globals.versionAt? key with
  | none => simp [hraw] at hissue
  | some raw =>
    rw [hraw] at hissue
    cases hread : Text.readNumber (Text.trim raw) with
    | none =>
      simp only [hread, Option.some.injEq] at hissue
      subst hissue
      exact ⟨henabled, rfl, key, hkey, by simp [Globals.lacksNumber, hraw, hread], rfl⟩
    | some n =>
      simp only [hread] at hissue
      split at hissue <;> cases hissue
      cases hfixable

theorem exists_repairable_buildNumbers {k : BuildNumbers} (hk : r.kind = .buildNumbers k)
    (henabled : r.enabled = true) {key : String} (hkey : key ∈ k.fields)
    (hlacks : c.globals.lacksNumber key = true) :
    ∃ i ∈ r.repairable cat c, i.ruleId = r.id ∧ i.target = some key := by
  obtain ⟨raw, hraw, hread⟩ := (Option.any_eq_true _ _).mp hlacks
  rw [Option.isNone_iff_eq_none] at hread
  refine exists_repairable henabled ?_
  rw [issuesOf_check (by rw [issues, hk])]
  have hissue : ∃ i, r.buildNumberIssue? k (k.bandsIn cat) c key = some i ∧
      i.severity = .error ∧ i.fixable = true ∧ i.ruleId = r.id ∧ i.target = some key := by
    simp only [buildNumberIssue?, hraw, hread]
    exact ⟨_, rfl, rfl, rfl, rfl, rfl⟩
  obtain ⟨i, hi, hissue⟩ := hissue
  exact ⟨i, List.mem_filterMap.mpr ⟨key, hkey, hi⟩, hissue⟩

theorem mem_repairable_testSuites {k : TestSuites} (hk : r.kind = .testSuites k)
    (hi : i ∈ r.repairable cat c) :
    r.enabled = true ∧ i.ruleId = r.id ∧
      ∃ suite value, c.rawFlags.get? suite = some value ∧ i.target = some suite := by
  obtain ⟨henabled, hfound, hseverity, hfixable⟩ := mem_repairable.mp hi
  rw [issuesOf_check (by rw [issues, hk]), testSuitesIssues, List.mem_append] at hfound
  have hunknown : ∀ suite, r.unknownSuiteIssue? k (k.knownIn cat) suite ≠ some i := by
    intro suite h
    unfold unknownSuiteIssue? at h
    split at h <;> cases h
    cases hfixable
  rcases hfound with hflag | hraw
  · obtain ⟨suite, -, h⟩ := List.mem_filterMap.mp hflag
    exact absurd h (hunknown suite)
  · obtain ⟨⟨suite, value⟩, he, h⟩ := List.mem_flatMap.mp hraw
    rcases List.mem_append.mp h with h | h
    · exact absurd (Option.mem_toList.mp h) (hunknown suite)
    · rw [List.mem_singleton.mp h]
      exact ⟨henabled, rfl, suite, value, OrderedMap.mem_toList_iff.mp he, rfl⟩

theorem exists_repairable_testSuites {k : TestSuites} (hk : r.kind = .testSuites k)
    (henabled : r.enabled = true) {suite value : String}
    (hraw : c.rawFlags.get? suite = some value) :
    ∃ i ∈ r.repairable cat c, i.ruleId = r.id ∧ i.target = some suite := by
  refine exists_repairable henabled ⟨r.flagValueIssue k suite value, ?_, rfl, rfl, rfl, rfl⟩
  rw [issuesOf_check (by rw [issues, hk]), testSuitesIssues]
  refine List.mem_append_right _ (List.mem_flatMap.mpr
    ⟨(suite, value), OrderedMap.mem_toList_iff.mpr hraw, ?_⟩)
  exact List.mem_append_right _ List.mem_cons_self

/-- Whether a binary project has no version to be built from. -/
def Wording.complains (k : Wording) (cat : Catalog) (c : Chain) : Bool :=
  c.anyMode BuildMode.binary.text && (versionComplaint? k cat c).isSome

theorem mem_repairable_version {k : Wording} (hk : r.kind = .version k)
    (hi : i ∈ r.repairable cat c) :
    r.IsStrict ∧ i.ruleId = r.id ∧ i.target = some GlobalKey.version ∧
      k.complains cat c = true := by
  obtain ⟨henabled, hfound, hseverity, -⟩ := mem_repairable.mp hi
  rw [issuesOf_check (by rw [issues, hk]), Option.mem_toList, versionIssue?] at hfound
  split at hfound
  · rename_i hany
    obtain ⟨message, hmessage, rfl⟩ := Option.map_eq_some_iff.mp hfound
    exact ⟨⟨henabled, hseverity⟩, rfl, rfl, by simp [Wording.complains, hany, hmessage]⟩
  · cases hfound

theorem exists_repairable_version {k : Wording} (hk : r.kind = .version k)
    (hstrict : r.IsStrict) (hcomplains : k.complains cat c = true) :
    ∃ i ∈ r.repairable cat c, i.ruleId = r.id ∧ i.target = some GlobalKey.version := by
  obtain ⟨hany, hmessage⟩ := Bool.and_eq_true_iff.mp hcomplains
  obtain ⟨message, hmessage⟩ := Option.isSome_iff_exists.mp hmessage
  refine exists_repairable hstrict.1 ?_
  rw [issuesOf_check (by rw [issues, hk]), versionIssue?, if_pos hany, hmessage]
  exact ⟨_, Option.mem_toList.mpr rfl, hstrict.2, rfl, rfl, rfl⟩

/-- Whether a project that developers get as a binary has no version for them. -/
def lacksDevVersion (c : Chain) : Bool :=
  c.anyDevMode BuildMode.binary.text && (c.globals.versionAt? GlobalKey.devVersion).isNone

theorem mem_repairable_devVersion {k : Wording} (hk : r.kind = .devVersion k)
    (hi : i ∈ r.repairable cat c) :
    r.IsStrict ∧ i.ruleId = r.id ∧ lacksDevVersion c = true := by
  obtain ⟨henabled, hfound, hseverity, -⟩ := mem_repairable.mp hi
  rw [issuesOf_check (by rw [issues, hk]), Option.mem_toList, devVersionIssue?] at hfound
  split at hfound
  · rename_i hlacks
    cases hfound
    exact ⟨⟨henabled, hseverity⟩, rfl, hlacks⟩
  · cases hfound

theorem exists_repairable_devVersion {k : Wording} (hk : r.kind = .devVersion k)
    (hstrict : r.IsStrict) (hlacks : lacksDevVersion c = true) :
    ∃ i ∈ r.repairable cat c, i.ruleId = r.id := by
  refine exists_repairable hstrict.1 ?_
  rw [issuesOf_check (by rw [issues, hk]), devVersionIssue?]
  exact ⟨_, Option.mem_toList.mpr (if_pos hlacks), hstrict.2, rfl, rfl⟩

/-- The rule about developer versions raises one issue at most. -/
theorem repairable_devVersion_cases {k : Wording} (hk : r.kind = .devVersion k) (cat : Catalog)
    (c : Chain) : r.repairable cat c = [] ∨ ∃ i, r.repairable cat c = [i] := by
  unfold repairable
  split
  · rw [issuesOf_check (by rw [issues, hk])]
    cases r.devVersionIssue? k c with
    | none => exact .inl rfl
    | some i =>
      rw [Option.toList_some, List.filter_singleton]
      cases i.isError && i.fixable with
      | true => exact .inr ⟨i, rfl⟩
      | false => exact .inl rfl
  · exact .inl rfl

/-! ## Settled rules -/

/-- What has to hold of a chain for a rule that is in force to raise no repairable error. A number
that is none and a flag that is no boolean are errors whatever the severity. -/
structure Settled (r : Rule) (cat : Catalog) (c : Chain) : Prop where
  sections : r.severity = .error → ∀ s ∈ c.sections, r.kind.finds s = false
  projects : ∀ k, r.kind = .requiredSections k → r.severity = .error →
    ∀ name ∈ k.namesIn cat, c.hasSection name = true
  numbers : ∀ k, r.kind = .buildNumbers k →
    ∀ key ∈ k.fields, c.globals.lacksNumber key = false
  flags : ∀ k, r.kind = .testSuites k → ∀ suite, c.rawFlags.get? suite = none
  version : ∀ k, r.kind = .version k → r.severity = .error → k.complains cat c = false
  devVersion : ∀ k, r.kind = .devVersion k → r.severity = .error → lacksDevVersion c = false

/-- A rule that raises no repairable error is settled. -/
theorem settled_of_repairable_eq_nil (henabled : r.enabled = true)
    (h : r.repairable cat c = []) : r.Settled cat c := by
  have hnone : ∀ p : Issue → Prop, ¬∃ i ∈ r.repairable cat c, p i := by simp [h]
  constructor
  case sections =>
    intro hsev s hs
    exact Bool.eq_false_iff.mpr fun hf =>
      hnone _ (exists_repairable_of_finds ⟨henabled, hsev⟩ hs hf)
  case projects =>
    intro k hk hsev name hname
    rw [← Bool.not_eq_false]
    exact fun hf => hnone _ (exists_repairable_requiredSections hk ⟨henabled, hsev⟩ hname hf)
  case numbers =>
    intro k hk key hkey
    exact Bool.eq_false_iff.mpr fun hf =>
      hnone _ (exists_repairable_buildNumbers hk henabled hkey hf)
  case flags =>
    intro k hk suite
    refine Option.eq_none_iff_forall_ne_some.mpr fun value hv => ?_
    exact hnone _ (exists_repairable_testSuites hk henabled hv)
  case version =>
    intro k hk hsev
    exact Bool.eq_false_iff.mpr fun hf =>
      hnone _ (exists_repairable_version hk ⟨henabled, hsev⟩ hf)
  case devVersion =>
    intro k hk hsev
    exact Bool.eq_false_iff.mpr fun hf =>
      hnone _ (exists_repairable_devVersion hk ⟨henabled, hsev⟩ hf)

theorem Settled.repairable_eq_nil (h : r.Settled cat c) : r.repairable cat c = [] := by
  refine List.eq_nil_iff_forall_not_mem.mpr fun i hi => ?_
  cases hk : r.kind with
  | requiredSections k =>
    obtain ⟨hstrict, -, name, hname, hmissing, -⟩ := mem_repairable_requiredSections hk hi
    rw [h.projects k hk hstrict.2 name hname] at hmissing
    cases hmissing
  | buildNumbers k =>
    obtain ⟨-, -, key, hkey, hlacks, -⟩ := mem_repairable_buildNumbers hk hi
    rw [h.numbers k hk key hkey] at hlacks
    cases hlacks
  | testSuites k =>
    obtain ⟨-, -, suite, value, hraw, -⟩ := mem_repairable_testSuites hk hi
    rw [h.flags k hk suite] at hraw
    cases hraw
  | version k =>
    obtain ⟨hstrict, -, -, hcomplains⟩ := mem_repairable_version hk hi
    rw [h.version k hk hstrict.2] at hcomplains
    cases hcomplains
  | devVersion k =>
    obtain ⟨hstrict, -, hlacks⟩ := mem_repairable_devVersion hk hi
    rw [h.devVersion k hk hstrict.2] at hlacks
    cases hlacks
  | _ =>
    have hlocal : r.kind.isLocal = true := by rw [hk]; rfl
    obtain ⟨hstrict, -, s, hs, -, hfinds⟩ := mem_repairable_of_isLocal hlocal hi
    rw [h.sections hstrict.2 s hs] at hfinds
    cases hfinds

theorem repairable_eq_nil_iff :
    r.repairable cat c = [] ↔ (r.enabled = true → r.Settled cat c) := by
  constructor
  · exact fun h henabled => settled_of_repairable_eq_nil henabled h
  · intro h
    by_cases henabled : r.enabled = true
    · exact (h henabled).repairable_eq_nil
    · rw [repairable, if_neg henabled]

theorem ruleId_of_mem_repairable (hi : i ∈ r.repairable cat c) : i.ruleId = r.id := by
  cases hk : r.kind with
  | requiredSections k => exact (mem_repairable_requiredSections hk hi).2.1
  | buildNumbers k => exact (mem_repairable_buildNumbers hk hi).2.1
  | testSuites k => exact (mem_repairable_testSuites hk hi).2.1
  | version k => exact (mem_repairable_version hk hi).2.1
  | devVersion k => exact (mem_repairable_devVersion hk hi).2.1
  | _ => exact (mem_repairable_of_isLocal (by rw [hk]; rfl) hi).2.1

/-! ## What a rule looks at -/

/-- The order of the sections does not matter to whether a rule is settled. -/
theorem Settled.of_mem_iff {c' : Chain} (h : r.Settled cat c)
    (hsections : ∀ s, s ∈ c'.sections ↔ s ∈ c.sections) (hglobals : c'.globals = c.globals)
    (hrawFlags : c'.rawFlags = c.rawFlags) : r.Settled cat c' := by
  have hany : ∀ p : Section → Bool, c'.sections.any p = c.sections.any p := fun p => by
    rw [Bool.eq_iff_iff, List.any_eq_true, List.any_eq_true]
    simp only [hsections]
  constructor
  case sections => exact fun hsev s hs => h.sections hsev s ((hsections s).mp hs)
  case projects =>
    intro k hk hsev name hname
    rw [Chain.hasSection, hany]
    exact h.projects k hk hsev name hname
  case numbers => exact fun k hk key hkey => hglobals ▸ h.numbers k hk key hkey
  case flags => exact fun k hk suite => hrawFlags ▸ h.flags k hk suite
  case version =>
    intro k hk hsev
    have hversion := h.version k hk hsev
    rw [Wording.complains, Chain.anyMode, versionComplaint?] at hversion ⊢
    rw [hany, hglobals]
    exact hversion
  case devVersion =>
    intro k hk hsev
    have hversion := h.devVersion k hk hsev
    rw [lacksDevVersion, Chain.anyDevMode] at hversion ⊢
    rw [hany, hglobals]
    exact hversion

theorem Kind.finds_congr {k : Kind} {s s' : Section} (h : ∀ p, s'.get? p = s.get? p) :
    k.finds s' = k.finds s := by
  have hhas : s'.has = s.has := funext fun p => Section.has_congr (h p)
  have hnonBlank : s'.nonBlank? = s.nonBlank? := funext fun p => Section.nonBlank?_congr (h p)
  have hpresent : ∀ k : PropertySet, k.presentIn s' = k.presentIn s := fun k => by
    rw [PropertySet.presentIn, hhas, PropertySet.presentIn]
  unfold finds
  rw [hhas, hnonBlank]
  cases k <;> simp only [hpresent]

/-- Whether a rule is settled shows in what can be looked up in the chain. -/
theorem Settled.of_get? {c' : Chain} (h : r.Settled cat c) (hdist : c.DistinctNames)
    (hdist' : c'.DistinctNames) (hhas : ∀ name, c'.hasSection name = c.hasSection name)
    (hget : ∀ name p, c'.get? name p = c.get? name p) (hglobals : c'.globals = c.globals)
    (hrawFlags : ∀ suite, c'.rawFlags.get? suite = c.rawFlags.get? suite) :
    r.Settled cat c' := by
  have hsection : ∀ s' ∈ c'.sections, ∃ s ∈ c.sections, ∀ p, s'.get? p = s.get? p := by
    intro s' hs'
    have hnamed : c.hasSection s'.name = true := by
      rw [← hhas, Chain.hasSection, List.any_eq_true]
      exact ⟨s', hs', Text.sameName_refl s'.name⟩
    obtain ⟨s, hs, hname⟩ := List.any_eq_true.mp hnamed
    refine ⟨s, hs, fun p => ?_⟩
    rw [← Chain.get?_of_mem hdist hs hname, ← hget,
      Chain.get?_of_mem hdist' hs' (Text.sameName_refl s'.name)]
  have hany : ∀ p v, c.sections.any (fun s => s.get? p = some v) = false →
      c'.sections.any (fun s => s.get? p = some v) = false := by
    intro p v hnone
    rw [List.any_eq_false] at hnone ⊢
    intro s' hs'
    obtain ⟨s, hs, hsame⟩ := hsection s' hs'
    rw [hsame]
    exact hnone s hs
  constructor
  case sections =>
    intro hsev s' hs'
    obtain ⟨s, hs, hsame⟩ := hsection s' hs'
    rw [Kind.finds_congr hsame]
    exact h.sections hsev s hs
  case projects =>
    exact fun k hk hsev name hname => (hhas name).trans (h.projects k hk hsev name hname)
  case numbers => exact fun k hk key hkey => hglobals ▸ h.numbers k hk key hkey
  case flags => exact fun k hk suite => (hrawFlags suite).trans (h.flags k hk suite)
  case version =>
    intro k hk hsev
    have hversion := h.version k hk hsev
    rw [Wording.complains, versionComplaint?, Bool.and_eq_false_iff] at hversion ⊢
    rw [hglobals]
    exact hversion.imp_left (hany _ _)
  case devVersion =>
    intro k hk hsev
    have hversion := h.devVersion k hk hsev
    rw [lacksDevVersion, Bool.and_eq_false_iff] at hversion ⊢
    rw [hglobals]
    exact hversion.imp_left (hany _ _)

end Rule

end BuildChain
