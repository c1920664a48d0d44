import BuildChain.Proofs.Rule.Acceptance
import Mathlib.Data.List.Forall2
import Mathlib.Data.List.Nodup

/-!
# Where the standard rules find errors

Two errors are told apart by their places: the rule, the section and the target. The places of all
errors of the standard rules are read off the chain rule by rule, whatever the rules have to say
about them, and where no two sections share a name no place comes twice.
-/

namespace BuildChain

open Rule (StandardId)

/-! ## Places of issues -/

/-- What an issue is about: which rule finds fault, with which section, in what. -/
structure Issue.Place where
  ruleId : String
  sectionName : Option String
  target : Option String
deriving DecidableEq

def Issue.place (i : Issue) : Place := ⟨i.ruleId, i.sectionName, i.target⟩

/-- The places of the errors among some issues. -/
def Issue.errorPlaces (issues : List Issue) : List Issue.Place :=
  (issues.filter isError).map place

def Report.errorPlaces (r : Report) : List Issue.Place := Issue.errorPlaces r.issues

theorem Report.errorCount_eq (r : Report) : r.errorCount = r.errorPlaces.length := by
  rw [errorCount, errorPlaces, Issue.errorPlaces, List.length_map]

namespace Issue

variable {α : Type} {l : List α}

theorem errorPlaces_append (a b : List Issue) :
    errorPlaces (a ++ b) = errorPlaces a ++ errorPlaces b := by
  rw [errorPlaces, List.filter_append, List.map_append]
  rfl

theorem errorPlaces_singleton {i : Issue} (h : i.isError = true) : errorPlaces [i] = [i.place] := by
  rw [errorPlaces, List.filter_singleton, h]
  rfl

theorem errorPlaces_flatMap (f : α → List Issue) (l : List α) :
    errorPlaces (l.flatMap f) = l.flatMap fun x => errorPlaces (f x) := by
  induction l with
  | nil => rfl
  | cons x l ih => rw [List.flatMap_cons, errorPlaces_append, ih, List.flatMap_cons]

theorem errorPlaces_eq_nil_iff {issues : List Issue} :
    errorPlaces issues = [] ↔ ∀ i ∈ issues, i.isError = false := by
  simp only [errorPlaces, List.map_eq_nil_iff, List.filter_eq_nil_iff, Bool.not_eq_true]

theorem errorPlaces_map {f : α → Issue} (h : ∀ x ∈ l, (f x).isError = true) :
    errorPlaces (l.map f) = l.map fun x => (f x).place := by
  have hall : (l.map f).filter isError = l.map f := by
    refine List.filter_eq_self.mpr fun i hi => ?_
    obtain ⟨x, hx, rfl⟩ := List.mem_map.mp hi
    exact h x hx
  rw [errorPlaces, hall, List.map_map]
  rfl

/-- Something is at fault and an error at a place says so, or no error is raised at all. -/
def Raises (b : Bool) (p : Place) : Option Issue → Prop
  | none => b = false
  | some i => b = i.isError ∧ (b = true → i.place = p)

theorem errorPlaces_filterMap {g : α → Option Issue} {b : α → Bool} {p : α → Place}
    (h : ∀ x ∈ l, Raises (b x) (p x) (g x)) :
    errorPlaces (l.filterMap g) = (l.filter b).map p := by
  induction l with
  | nil => rfl
  | cons x l ih =>
    have hrest := ih fun y hy => h y (List.mem_cons_of_mem x hy)
    have hfirst := h x List.mem_cons_self
    cases hg : g x with
    | none =>
      rw [hg] at hfirst
      rw [List.filterMap_cons_none hg, hrest, List.filter_cons,
        if_neg (Bool.eq_false_iff.mp hfirst)]
    | some i =>
      rw [hg] at hfirst
      rw [List.filterMap_cons_some hg, ← List.singleton_append, errorPlaces_append, hrest,
        List.filter_cons]
      cases hb : b x with
      | false =>
        rw [hb] at hfirst
        rw [errorPlaces_eq_nil_iff.mpr (by simpa using hfirst.1.symm)]
        rfl
      | true =>
        rw [hb] at hfirst
        rw [errorPlaces_singleton hfirst.1.symm, hfirst.2 rfl]
        rfl

end Issue

open Issue (errorPlaces errorPlaces_map errorPlaces_filterMap Raises)

/-! ## The table of faults -/

namespace Rule.StandardId

/-- Whether the rule finds an error in a section. -/
def blames (id : StandardId) (s : Section) : Bool :=
  match id with
  | contentStageBranch => s.isNamed "content" &&
    (s.nonBlank? Property.branch).any fun v => Text.sameName "stage" (Text.trim v)
  | id => id.kind.finds s

/-- What an error about a section is about. -/
def blamed : StandardId → String
  | validDevMode => Property.devMode
  | branchTagExclusive => "branch,tag"
  | branchOrTagRequired | contentStageBranch => Property.branch
  | forkFormat => Property.fork
  | _ => Property.mode

/-- The places of the errors that the rule raises about a chain. -/
def faults (c : Chain) (id : StandardId) : List Issue.Place :=
  match id with
  | requiredProjects => (Order.standard.missing c).map fun name => ⟨id.text, some name, none⟩
  | globalVersionWhenBinary =>
    if Wording.complains {} {} c then [⟨id.text, none, some GlobalKey.version⟩] else []
  | buildNumberRange =>
    ([GlobalKey.version, GlobalKey.devVersion].filter c.globals.lacksNumber).map fun key =>
      ⟨id.text, none, some key⟩
  | integrationTests => c.rawFlags.keys.map fun suite => ⟨id.text, none, some suite⟩
  | id => (c.sections.filter id.blames).map fun s => ⟨id.text, some s.name, some id.blamed⟩

end Rule.StandardId

/-! ## Each rule raises its faults -/

namespace Rule

variable {r : Rule} {id : StandardId} {c : Chain}

/-- The places of the errors that a rule raises. -/
def errorPlaces (r : Rule) (cat : Catalog) (c : Chain) : List Issue.Place :=
  Issue.errorPlaces (Validator.issuesOf c (r.check cat))

theorem errorPlaces_of_issues {cat : Catalog} {found : List Issue}
    (h : r.issues cat c = .ok found) : r.errorPlaces cat c = Issue.errorPlaces found := by
  rw [errorPlaces, issuesOf_check h]

theorem isError_of_severity {i : Issue} (h : i.severity = .error) : i.isError = true := by
  rw [Issue.isError, h]
  rfl

theorem raises_allowedValuesIssue? {k : AllowedValues} (hseverity : r.severity = .error)
    (s : Section) : Raises ((s.nonBlank? k.property).any fun v => !k.allows v)
      ⟨r.id, some s.name, some k.property⟩ (r.allowedValuesIssue? k s) := by
  unfold allowedValuesIssue?
  cases s.nonBlank? k.property with
  | none => rfl
  | some v =>
    cases hallows : k.allows v with
    | true => simp [Raises, hallows]
    | false =>
      simp only [Raises, Bool.false_eq_true, if_false, Option.any_some, hallows]
      exact ⟨(isError_of_severity hseverity).symm, fun _ => rfl⟩

theorem raises_exclusiveIssue? (hseverity : r.severity = .error) (s : Section) :
    Raises (StandardId.branchTagExclusive.kind.finds s) ⟨r.id, some s.name, some "branch,tag"⟩
      (r.exclusiveIssue? { properties := [Property.branch, Property.tag] } s) := by
  cases hb : s.has Property.branch <;> cases ht : s.has Property.tag <;>
    simp only [exclusiveIssue?, StandardId.kind, Kind.finds, PropertySet.presentIn,
      List.filter_cons, List.filter_nil, hb, ht, Bool.false_eq_true, if_true, if_false] <;>
    first | exact ⟨(isError_of_severity hseverity).symm, fun _ => rfl⟩ | rfl

theorem raises_forkIssue? {k : Naming} (hseverity : r.severity = .error) (s : Section) :
    Raises ((s.nonBlank? Property.fork).any fun v => !k.pattern.fits (Text.trim v))
      ⟨r.id, some s.name, some Property.fork⟩ (r.forkIssue? k s) := by
  unfold forkIssue?
  cases s.nonBlank? Property.fork with
  | none => rfl
  | some v =>
    cases hfits : k.pattern.fits (Text.trim v) with
    | true => simp [Raises, hfits]
    | false =>
      simp only [Raises, Bool.false_eq_true, if_false, Option.any_some, hfits]
      exact ⟨(isError_of_severity hseverity).symm, fun _ => rfl⟩

theorem raises_forbiddenBranchIssue? (hseverity : r.severity = .error) (s : Section) :
    Raises (StandardId.contentStageBranch.blames s) ⟨r.id, some s.name, some Property.branch⟩
      (r.forbiddenBranchIssue? {} s) := by
  unfold forbiddenBranchIssue? StandardId.blames
  cases s.nonBlank? Property.branch with
  | none => exact Bool.and_false _
  | some v =>
    simp only [Option.any_some, List.any_cons, List.any_nil, Bool.or_false]
    cases s.isNamed "content" && Text.sameName "stage" (Text.trim v) with
    | false => rfl
    | true => exact ⟨(isError_of_severity hseverity).symm, fun _ => rfl⟩

theorem raises_buildNumberIssue? {k : BuildNumbers} (bands : List Band) (c : Chain) (key : String) :
    Raises (c.globals.lacksNumber key) ⟨r.id, none, some key⟩
      (r.buildNumberIssue? k bands c key) := by
  unfold buildNumberIssue? Globals.lacksNumber
  cases c.globals.versionAt? key with
  | none => rfl
  | some raw =>
    cases hread : Text.readNumber (Text.trim raw) with
    | none =>
      simp only [Option.any_some, hread]
      exact ⟨rfl, fun _ => rfl⟩
    | some n =>
      simp only [Option.any_some, hread]
      split
      · rfl
      · exact ⟨rfl, fun h => by cases h⟩

/-- Nothing but the texts that are no booleans is an error about the flags. -/
theorem errorPlaces_testSuitesIssues (r : Rule) (k : TestSuites) (known : List String) (c : Chain) :
    Issue.errorPlaces (r.testSuitesIssues k known c) =
      c.rawFlags.keys.map fun suite => ⟨r.id, none, some suite⟩ := by
  have hunknown (suite : String) : ∀ i, r.unknownSuiteIssue? k known suite = some i →
      i.isError = false := by
    intro i h
    unfold unknownSuiteIssue? at h
    split at h <;> cases h
    rfl
  have hflags : Issue.errorPlaces (c.flags.keys.filterMap (r.unknownSuiteIssue? k known)) = [] := by
    refine Issue.errorPlaces_eq_nil_iff.mpr fun i hi => ?_
    obtain ⟨suite, -, h⟩ := List.mem_filterMap.mp hi
    exact hunknown suite i h
  have hraw (e : String × String) : Issue.errorPlaces ((r.unknownSuiteIssue? k known e.1).toList ++
      [r.flagValueIssue k e.1 e.2]) = [⟨r.id, none, some e.1⟩] := by
    rw [Issue.errorPlaces_append, Issue.errorPlaces_eq_nil_iff.mpr fun i hi =>
      hunknown e.1 i (Option.mem_toList.mp hi)]
    rfl
  rw [testSuitesIssues, Issue.errorPlaces_append, hflags, List.nil_append,
    Issue.errorPlaces_flatMap, List.flatMap_congr fun e _ => hraw e, ← List.map_eq_flatMap,
    OrderedMap.keys, List.map_map]
  rfl

/-- Rules that raise warnings only have no faults. -/
theorem errorPlaces_of_warning (hkind : r.kind = id.kind) (hseverity : r.severity = .warning)
    (hlocal : id.kind.isLocal = true) (cat : Catalog) : r.errorPlaces cat c = [] :=
  Issue.errorPlaces_eq_nil_iff.mpr (silent_of_warning (by rw [hkind]; exact hlocal) hseverity)

theorem errorPlaces_eq_faults (hid : r.id = id.text) (hkind : r.kind = id.kind)
    (hseverity : r.severity = id.severity) (c : Chain) : r.errorPlaces {} c = id.faults c := by
  have hnone (hfinds : ∀ s, id.kind.finds s = false) (id' : StandardId) :
      (c.sections.filter id.kind.finds).map (fun s => (⟨id'.text, some s.name, some id'.blamed⟩ :
        Issue.Place)) = [] := by
    rw [List.filter_eq_nil_iff.mpr fun s _ => Bool.eq_false_iff.mp (hfinds s), List.map_nil]
  cases id with
  | requiredProjects =>
    rw [errorPlaces_of_issues (by rw [issues, hkind]; rfl), requiredSectionsIssues,
      errorPlaces_map fun _ _ => isError_of_severity hseverity]
    exact List.map_congr_left fun name _ => by rw [← hid]; rfl
  | requiredMode =>
    rw [errorPlaces_of_issues (by rw [issues, hkind]; rfl), requiredPropertyIssues,
      errorPlaces_map fun _ _ => isError_of_severity hseverity]
    exact List.map_congr_left fun s _ => by rw [← hid]; rfl
  | validMode =>
    rw [errorPlaces_of_issues (by rw [issues, hkind]; rfl),
      errorPlaces_filterMap fun s _ => raises_allowedValuesIssue? hseverity s, hid]
    rfl
  | validDevMode =>
    rw [errorPlaces_of_issues (by rw [issues, hkind]; rfl),
      errorPlaces_filterMap fun s _ => raises_allowedValuesIssue? hseverity s, hid]
    rfl
  | branchTagExclusive =>
    rw [errorPlaces_of_issues (by rw [issues, hkind]; rfl),
      errorPlaces_filterMap fun s _ => raises_exclusiveIssue? hseverity s, hid]
    rfl
  | branchOrTagRequired =>
    rw [errorPlaces_of_issues (by rw [issues, hkind]; rfl), oneOfIssues,
      errorPlaces_map fun _ _ => isError_of_severity hseverity]
    exact List.map_congr_left fun s _ => by rw [← hid]; rfl
  | forkFormat =>
    rw [errorPlaces_of_issues (by rw [issues, hkind]; rfl),
      errorPlaces_filterMap fun s _ => raises_forkIssue? hseverity s, hid]
    rfl
  | contentStageBranch =>
    rw [errorPlaces_of_issues (by rw [issues, hkind]; rfl),
      errorPlaces_filterMap fun s _ => raises_forbiddenBranchIssue? hseverity s, hid]
    rfl
  | globalVersionWhenBinary =>
    rw [errorPlaces_of_issues (by rw [issues, hkind]; rfl), versionIssue?, StandardId.faults,
      Wording.complains]
    cases c.anyMode BuildMode.binary.text with
    | false => rfl
    | true =>
      cases versionComplaint? {} {} c with
      | none => rfl
      | some message =>
        rw [if_pos rfl, Option.map_some, Option.toList_some,
          Issue.errorPlaces_singleton (isError_of_severity hseverity), ← hid]
        rfl
  | buildNumberRange =>
    rw [errorPlaces_of_issues (by rw [issues, hkind]; rfl),
      errorPlaces_filterMap fun key _ => raises_buildNumberIssue? _ c key, hid]
    rfl
  | integrationTests =>
    rw [errorPlaces_of_issues (by rw [issues, hkind]; rfl), errorPlaces_testSuitesIssues, hid]
    rfl
  | globalDevVersionRequired =>
    rw [errorPlaces_of_issues (by rw [issues, hkind]; rfl), devVersionIssue?]
    refine Eq.trans ?_ (hnone (fun _ => rfl) .globalDevVersionRequired).symm
    split
    · exact Issue.errorPlaces_eq_nil_iff.mpr fun i hi => by
        rw [List.mem_singleton.mp hi, Issue.isError, issue, hseverity]; rfl
    · rfl
  | devModeWithoutMode | testsPreferBranch | featureBranchNaming | projectNaming =>
    exact (errorPlaces_of_warning hkind hseverity rfl _).trans (hnone (fun _ => rfl) _).symm

end Rule

/-! ## All errors -/

theorem RuleSet.errorPlaces_ofRuleSet (s : RuleSet) (c : Chain) :
    ((Validator.ofRuleSet s).validate c).errorPlaces =
      s.enabled.flatMap fun r => r.errorPlaces s.catalog c := by
  rw [Report.errorPlaces, Validator.validate, Validator.ofRuleSet, List.flatMap_map,
    Issue.errorPlaces_flatMap]
  rfl

/-- The standard rules raise their errors at the faults of the chain, rule by rule. -/
theorem Rule.errorPlaces_standard (c : Chain) :
    (Validator.standard.validate c).errorPlaces =
      StandardId.all.flatMap fun id => id.faults c := by
  have htable : standard.map (fun r => (r.id, r.kind, r.severity)) =
      StandardId.all.map fun id => (id.text, id.kind, id.severity) := rfl
  rw [← List.forall₂_eq_eq_eq, List.forall₂_map_left_iff, List.forall₂_map_right_iff] at htable
  rw [Validator.standard, RuleSet.errorPlaces_ofRuleSet]
  show (standard.flatMap fun r => r.errorPlaces {} c) = _
  generalize standard = rules, StandardId.all = ids at htable
  induction htable with
  | nil => rfl
  | cons h _ ih =>
    simp only [Prod.mk.injEq] at h
    rw [List.flatMap_cons, List.flatMap_cons, ih, errorPlaces_eq_faults h.1 h.2.1 h.2.2]

namespace Rule.StandardId

variable {id : StandardId} {c : Chain} {p : Issue.Place}

theorem ruleId_of_mem_faults (h : p ∈ id.faults c) : p.ruleId = id.text := by
  unfold faults at h
  split at h
  case h_2 =>
    split at h
    · rw [List.mem_singleton.mp h]
    · cases h
  all_goals
    obtain ⟨x, -, rfl⟩ := List.mem_map.mp h
    rfl

/-- What the faults of a rule that looks at sections are about. -/
theorem mem_faults_of_isLocal (hlocal : id.kind.isLocal = true) :
    p ∈ id.faults c ↔
      ∃ s ∈ c.sections, id.blames s = true ∧ p = ⟨id.text, some s.name, some id.blamed⟩ := by
  have hfaults : id.faults c =
      (c.sections.filter id.blames).map fun s => ⟨id.text, some s.name, some id.blamed⟩ := by
    cases id <;> first | rfl | cases hlocal
  rw [hfaults, List.mem_map]
  simp only [List.mem_filter, and_assoc, eq_comm (a := p)]

/-- No fault comes twice. -/
theorem nodup_faults (hdist : c.DistinctNames) (id : StandardId) : (id.faults c).Nodup := by
  have hsections (p : Section → Bool) (text target : String) :
      ((c.sections.filter p).map fun s =>
        (⟨text, some s.name, some target⟩ : Issue.Place)).Nodup := by
    have hnames : (c.sections.map Section.name).Nodup := hdist.imp fun hne heq => by
      rw [heq, Text.sameName_refl] at hne
      cases hne
    have hnodup := (List.filter_sublist (p := p)).map Section.name |>.nodup hnames
    refine List.Nodup.of_map (fun place => place.sectionName.getD text) ?_
    rw [List.map_map]
    exact hnodup
  unfold faults
  split
  · refine List.Nodup.map (fun name name' h => ?_) (List.Nodup.filter _ (by decide))
    simpa using h
  · split
    · exact List.nodup_singleton _
    · exact List.nodup_nil
  · refine List.Nodup.map (fun key key' h => ?_) (List.Nodup.filter _ (by decide))
    simpa using h
  · refine List.Nodup.map (fun suite suite' h => ?_) c.rawFlags.keys_nodup
    simpa using h
  · exact hsections _ _ _

theorem nodup_flatMap_faults (hdist : c.DistinctNames) :
    (all.flatMap fun id => id.faults c).Nodup := by
  have hall : all.Nodup := by decide
  refine List.nodup_flatMap.mpr ⟨fun id _ => nodup_faults hdist id, hall.imp fun hne p hp hp' => ?_⟩
  exact hne (text_injective ((ruleId_of_mem_faults hp).symm.trans (ruleId_of_mem_faults hp')))

end Rule.StandardId

/-! ## Chains with no more errors -/

/-- A chain in which no standard rule finds an error that it does not find in another one. -/
structure Chain.NoWorse (c c' : Chain) : Prop where
  sections : ∀ s' ∈ c'.sections,
    (∃ s ∈ c.sections, s.name = s'.name ∧ ∀ id : StandardId, id.blames s' = true →
      id.blames s = true) ∨ ∀ id : StandardId, id.blames s' = false
  projects : ∀ name, c.hasSection name = true → c'.hasSection name = true
  version : Rule.Wording.complains {} {} c' = true → Rule.Wording.complains {} {} c = true
  numbers : ∀ key ∈ [GlobalKey.version, GlobalKey.devVersion],
    c'.globals.lacksNumber key = true → c.globals.lacksNumber key = true
  flags : c'.rawFlags.keys ⊆ c.rawFlags.keys

namespace Chain.NoWorse

variable {c c' : Chain}

theorem faults_subset (h : c.NoWorse c') (id : StandardId) : id.faults c' ⊆ id.faults c := by
  intro p hp
  by_cases hlocal : id.kind.isLocal = true
  · rw [StandardId.mem_faults_of_isLocal hlocal] at hp ⊢
    obtain ⟨s', hs', hblames, rfl⟩ := hp
    rcases h.sections s' hs' with ⟨s, hs, hname, hbefore⟩ | hnone
    · exact ⟨s, hs, hbefore id hblames, by rw [hname]⟩
    · rw [hnone id] at hblames
      cases hblames
  · cases id with
    | requiredProjects =>
      obtain ⟨name, hname, rfl⟩ := List.mem_map.mp hp
      obtain ⟨hcanonical, hmissing⟩ := List.mem_filter.mp hname
      refine List.mem_map_of_mem (List.mem_filter.mpr ⟨hcanonical, ?_⟩)
      rw [Bool.not_eq_true', ← Bool.not_eq_true] at hmissing ⊢
      exact fun hhas => hmissing (h.projects name hhas)
    | globalVersionWhenBinary =>
      rw [StandardId.faults] at hp ⊢
      split at hp
      · rename_i hcomplains
        rwa [if_pos (h.version hcomplains)]
      · cases hp
    | buildNumberRange =>
      obtain ⟨key, hkey, rfl⟩ := List.mem_map.mp hp
      obtain ⟨hkey, hlacks⟩ := List.mem_filter.mp hkey
      exact List.mem_map_of_mem (List.mem_filter.mpr ⟨hkey, h.numbers key hkey hlacks⟩)
    | integrationTests => exact List.map_subset _ h.flags hp
    | globalDevVersionRequired =>
      obtain ⟨s, hs, rfl⟩ := List.mem_map.mp hp
      cases (List.mem_filter.mp hs).2
    | _ => exact absurd rfl hlocal

end Chain.NoWorse

end BuildChain
