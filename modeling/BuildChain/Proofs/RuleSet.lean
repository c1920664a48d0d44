import BuildChain.Proofs.Rule.Repairable

/-!
# Tuned rule sets

A rule set is tuned when it comes from the standard rules by switching rules on and off and by
changing severities. What its rules check, and in which order, is then that of the standard rules.
-/

namespace BuildChain

/-! ## The standard rules -/

namespace Rule

/-- What a rule checks, and under which identifier. -/
def subject (r : Rule) : String × Kind := (r.id, r.kind)

namespace StandardId

/-- The identifiers in the order in which the standard rules are checked. -/
def all : List StandardId :=
  [requiredProjects, requiredMode, validMode, validDevMode, branchTagExclusive,
    branchOrTagRequired, forkFormat, devModeWithoutMode, contentStageBranch, testsPreferBranch,
    featureBranchNaming, projectNaming, globalVersionWhenBinary, buildNumberRange,
    integrationTests, globalDevVersionRequired]

def kind : StandardId → Kind
  | requiredProjects => .requiredSections {}
  | requiredMode => .requiredProperty { property := Property.mode }
  | validMode => .allowedValues { property := Property.mode, allowed := modeValues }
  | validDevMode => .allowedValues { property := Property.devMode, allowed := devModeValues }
  | branchTagExclusive => .exclusive { properties := [Property.branch, Property.tag] }
  | branchOrTagRequired => .oneOf { properties := [Property.branch, Property.tag] }
  | forkFormat => .fork { pattern := .fork }
  | devModeWithoutMode => .devModeAlone {}
  | contentStageBranch => .forbiddenBranches {}
  | testsPreferBranch => .preferredBranch {}
  | featureBranchNaming => .featureBranch {}
  | projectNaming => .projectName { pattern := .projectName }
  | globalVersionWhenBinary => .version {}
  | buildNumberRange => .buildNumbers {}
  | integrationTests => .testSuites {}
  | globalDevVersionRequired => .devVersion {}

def subject (id : StandardId) : String × Kind := (id.text, id.kind)

theorem text_injective {a b : StandardId} (h : a.text = b.text) : a = b := by
  have hfind : ∀ id : StandardId, all.find? (fun id' => id'.text = id.text) = some id := by
    intro id
    cases id <;> rfl
  exact Option.some.inj ((hfind a).symm.trans (h ▸ hfind b))

end StandardId

theorem subjects_standard : standard.map subject = StandardId.all.map StandardId.subject := rfl

end Rule

/-! ## Tuning -/

namespace RuleSet

open Rule (StandardId)

inductive Tuned (cat : Catalog) : RuleSet → Prop
  | standard : Tuned cat { catalog := cat, rules := Rule.standard }
  | setEnabled {s : RuleSet} (h : Tuned cat s) (id : String) (enabled : Bool) :
      Tuned cat (s.setEnabled id enabled)
  | setSeverity {s : RuleSet} (h : Tuned cat s) (id : String) (severity : Severity) :
      Tuned cat (s.setSeverity id severity)

variable {cat : Catalog} {s : RuleSet}

theorem Tuned.catalog_eq (h : Tuned cat s) : s.catalog = cat := by
  induction h with
  | standard => rfl
  | setEnabled _ _ _ ih => exact ih
  | setSeverity _ _ _ ih => exact ih

theorem subjects_modify (s : RuleSet) (id : String) {f : Rule → Rule}
    (hf : ∀ r, (f r).subject = r.subject) :
    (s.modify id f).rules.map Rule.subject = s.rules.map Rule.subject :=
  Chain.map_modifyFirst s.rules hf

theorem Tuned.subjects (h : Tuned cat s) :
    s.rules.map Rule.subject = StandardId.all.map StandardId.subject := by
  induction h with
  | standard => exact Rule.subjects_standard
  | setEnabled _ id enabled ih =>
    refine (subjects_modify _ id ?_).trans ih
    exact fun _ => rfl
  | setSeverity _ id severity ih =>
    refine (subjects_modify _ id ?_).trans ih
    exact fun _ => rfl

/-- Every rule of a tuned set is one of the standard rules, settings apart. -/
theorem Tuned.exists_id (h : Tuned cat s) {r : Rule} (hr : r ∈ s.rules) :
    ∃ id : StandardId, r.id = id.text ∧ r.kind = id.kind := by
  have hsubject : r.subject ∈ StandardId.all.map StandardId.subject :=
    h.subjects ▸ List.mem_map_of_mem hr
  obtain ⟨id, -, hid⟩ := List.mem_map.mp hsubject
  obtain ⟨htext, hkind⟩ := Prod.ext_iff.mp hid
  exact ⟨id, htext.symm, hkind.symm⟩

theorem Tuned.kind_eq (h : Tuned cat s) {r : Rule} (hr : r ∈ s.rules) {id : StandardId}
    (hid : r.id = id.text) : r.kind = id.kind := by
  obtain ⟨id', hid', hkind⟩ := h.exists_id hr
  rw [hkind, StandardId.text_injective (hid'.symm.trans hid)]

/-- The rule about developer versions is checked after all others. -/
theorem Tuned.exists_last (h : Tuned cat s) :
    ∃ front last, s.rules = front ++ [last] ∧
      last.id = StandardId.globalDevVersionRequired.text ∧ last.kind = .devVersion {} ∧
      ∀ r ∈ front, r.id ≠ StandardId.globalDevVersionRequired.text := by
  have hsplit : s.rules.map Rule.subject =
      StandardId.all.dropLast.map StandardId.subject ++
        [StandardId.globalDevVersionRequired.subject] := h.subjects
  obtain ⟨front, back, hrules, hfront, hback⟩ := List.map_eq_append_iff.mp hsplit
  obtain ⟨last, hlast, hsubject⟩ := List.map_eq_singleton_iff.mp hback
  obtain ⟨hid, hkind⟩ := Prod.ext_iff.mp hsubject
  refine ⟨front, last, hlast ▸ hrules, hid, hkind, fun r hr hbad => ?_⟩
  have hmem : r.subject ∈ StandardId.all.dropLast.map StandardId.subject :=
    hfront ▸ List.mem_map_of_mem hr
  obtain ⟨id, hall, hsub⟩ := List.mem_map.mp hmem
  have hlast : id = .globalDevVersionRequired :=
    StandardId.text_injective ((congrArg Prod.fst hsub).trans hbad)
  subst hlast
  simp [StandardId.all] at hall

/-! ## What a tuned set finds -/

/-- The errors that a repair can be tried on, rule by rule. -/
def fixables (s : RuleSet) (c : Chain) : List Issue :=
  s.rules.flatMap fun r => r.repairable s.catalog c

theorem fixableErrors_ofRuleSet (s : RuleSet) (c : Chain) :
    ((Validator.ofRuleSet s).validate c).fixableErrors = s.fixables c := by
  simp only [Report.fixableErrors, Validator.validate, Validator.ofRuleSet, enabled,
    List.flatMap_map, List.filter_flatMap, fixables]
  induction s.rules with
  | nil => rfl
  | cons r rules ih =>
    by_cases h : r.enabled = true
    · rw [List.filter_cons_of_pos h, List.flatMap_cons, List.flatMap_cons, ih, Rule.repairable,
        if_pos h]
    · rw [List.filter_cons_of_neg h, List.flatMap_cons, ih, Rule.repairable, if_neg h,
        List.nil_append]

theorem mem_fixables {s : RuleSet} {c : Chain} {i : Issue} : i ∈ s.fixables c ↔
    i ∈ ((Validator.ofRuleSet s).validate c).issues ∧ i.severity = .error ∧ i.fixable = true := by
  rw [← fixableErrors_ofRuleSet, Report.fixableErrors, List.mem_filter, Bool.and_eq_true,
    Issue.isError, decide_eq_true_iff]

theorem fixables_eq_nil_iff_issues {s : RuleSet} {c : Chain} : s.fixables c = [] ↔
    ∀ i ∈ ((Validator.ofRuleSet s).validate c).issues,
      ¬(i.severity = .error ∧ i.fixable = true) := by
  simp only [List.eq_nil_iff_forall_not_mem, mem_fixables, not_and]

/-- No error that a repair can be tried on is left exactly when every rule in force is settled. -/
theorem fixables_eq_nil_iff {s : RuleSet} {c : Chain} :
    s.fixables c = [] ↔ ∀ r ∈ s.rules, r.enabled = true → r.Settled s.catalog c := by
  rw [fixables, List.flatMap_eq_nil_iff]
  simp only [Rule.repairable_eq_nil_iff]

end RuleSet

end BuildChain
