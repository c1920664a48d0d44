import BuildChain.Proofs.Order.Positions
import BuildChain.Proofs.Repair.Completion

/-!
# Completing the projects of a chain

Whichever of the issues about missing projects are dealt with, in whichever order and however often,
every canonical name that has no section gets one, and it gets it once. The missing names are
collected first and each of them is new to the chain; the names that the issues give are among them
already.
-/

namespace BuildChain

namespace Fixer

variable {cat : Catalog} {c : Chain} {names named : List String}

/-! ## Adding the sections of some names -/

theorem hasSection_append_defaults (cat : Catalog) (c : Chain) (names : List String)
    (name : String) :
    Chain.hasSection { c with sections := c.sections ++ names.map (defaultSection cat) } name =
      (c.hasSection name || among names name) := by
  rw [Chain.hasSection, List.any_append, List.any_map]
  rfl

/-- Names that no section has, and of which no two are the same, get one section each. -/
theorem addMissing_of_fresh (hdist : names.Pairwise fun n n' => Text.sameName n n' = false)
    (hnew : ∀ n ∈ names, c.hasSection n = false) :
    addMissing cat c names =
      ({ c with sections := c.sections ++ names.map (defaultSection cat) }, names.length) := by
  induction names using List.reverseRecOn with
  | nil => simp [addMissing]
  | append_singleton names name ih =>
    obtain ⟨hfront, -, hlast⟩ := List.pairwise_append.mp hdist
    have hfree : among names name = false :=
      List.any_eq_false.mpr fun n hn => Bool.not_eq_true _ ▸ hlast n hn name (by simp)
    rw [addMissing_concat, ih hfront fun n hn => hnew n (List.mem_append_left _ hn),
      hasSection_append_defaults, hnew name (by simp), hfree]
    simp [Chain.push]

/-! ## Collecting the names first -/

/-- The names of some list and the further ones, each once whatever its case. -/
def wanted (names named : List String) : List String :=
  named.foldl (fun w name => if among w name then w else w ++ [name]) names

/-- It makes no difference whether names that come again are left out beforehand. -/
theorem addMissing_wanted (cat : Catalog) (c : Chain) (names named : List String) :
    addMissing cat c (wanted names named) = addMissing cat c (names ++ named) := by
  induction named using List.reverseRecOn with
  | nil => rw [List.append_nil]; rfl
  | append_singleton named name ih =>
    rw [← List.append_assoc, addMissing_concat, ← ih, wanted, List.foldl_append, List.foldl_cons,
      List.foldl_nil, ← wanted]
    cases hamong : among (wanted names named) name with
    | false => exact addMissing_concat cat c _ name
    | true =>
      obtain ⟨n, hn, hsame⟩ := List.any_eq_true.mp hamong
      obtain ⟨n', hn', hsame'⟩ := Chain.hasSection_iff.mp (hasSection_addMissing hn)
      rw [if_pos rfl, if_pos (Chain.hasSection_iff.mpr ⟨n', hn', Text.sameName_trans hsame' hsame⟩)]

/-- Names that are among the others already are not collected again. -/
theorem wanted_of_subset (h : named ⊆ names) : wanted names named = names := by
  induction named with
  | nil => rfl
  | cons name named ih =>
    obtain ⟨hname, hrest⟩ := List.cons_subset.mp h
    have hamong : among names name = true :=
      List.any_eq_true.mpr ⟨name, hname, Text.sameName_refl name⟩
    rw [wanted, List.foldl_cons, if_pos hamong]
    exact ih hrest

/-! ## Completing a chain -/

theorem complete_eq_wanted (f : Fixer) (c : Chain) (named : List String) :
    f.complete c named =
      ((f.catalog.order.reorder
          (addMissing f.catalog c (wanted (f.catalog.order.missing c) named)).1),
        (addMissing f.catalog c (wanted (f.catalog.order.missing c) named)).2) := by
  rw [addMissing_wanted]
  rfl

theorem mem_missing {o : Order} {name : String} :
    name ∈ o.missing c ↔ name ∈ o.names ∧ c.hasSection name = false := by
  rw [Order.missing, List.mem_filter, Bool.not_eq_true']

theorem missing_distinct {o : Order} (hdist : o.Distinct) (c : Chain) :
    (o.missing c).Pairwise fun n n' => Text.sameName n n' = false :=
  List.Pairwise.sublist List.filter_sublist hdist

/-- Completing a chain for names that are missing adds the section of every missing name. -/
theorem complete_missing {f : Fixer} (hdist : f.catalog.order.Distinct)
    (hnamed : named ⊆ f.catalog.order.missing c) :
    f.complete c named =
      (f.catalog.order.reorder { c with
        sections := c.sections ++ (f.catalog.order.missing c).map (defaultSection f.catalog) },
        (f.catalog.order.missing c).length) := by
  have hadd : addMissing f.catalog c (f.catalog.order.missing c) = _ :=
    addMissing_of_fresh (missing_distinct hdist c) fun n hn => (mem_missing.mp hn).2
  rw [complete_eq_wanted, wanted_of_subset hnamed, hadd]

end Fixer

/-! ## Issues about missing projects -/

namespace Rule

variable {r : Rule} {k : RequiredSections} {names : List String} {c : Chain} {i : Issue}

theorem sectionName_requiredSectionsIssues (r : Rule) (k : RequiredSections) (names : List String)
    (c : Chain) :
    (r.requiredSectionsIssues k names c).map Issue.sectionName =
      (names.filter fun name => !c.hasSection name).map some := by
  rw [requiredSectionsIssues, List.map_map]
  rfl

theorem of_mem_requiredSectionsIssues (hi : i ∈ r.requiredSectionsIssues k names c) :
    i.ruleId = r.id ∧ i.fixable = true ∧
      ∃ name ∈ names.filter fun name => !c.hasSection name, i.sectionName = some name := by
  obtain ⟨name, hname, rfl⟩ := List.mem_map.mp hi
  exact ⟨rfl, rfl, name, hname, rfl⟩

end Rule

namespace Fixer

variable {f : Fixer} {c : Chain}

/-- Issues that ask for sections are dealt with by completing the chain. -/
theorem applyFixes_of_asking {selection : List Issue} (hne : selection ≠ [])
    (hasks : ∀ i ∈ selection, i.fixable = true ∧ f.asksForSection i = true ∧
      ∃ name, i.sectionName = some name) :
    f.applyFixes c selection = f.complete c (selection.filterMap Issue.sectionName) := by
  have hfixable : selection.filter Issue.fixable = selection :=
    List.filter_eq_self.mpr fun i hi => (hasks i hi).1
  have hasking : selection.filter f.asksForSection = selection :=
    List.filter_eq_self.mpr fun i hi => (hasks i hi).2.1
  have hothers : (selection.filter fun i => !f.asksForSection i) = [] :=
    List.filter_eq_nil_iff.mpr fun i hi => by rw [(hasks i hi).2.1]; simp
  rw [applyFixes, hfixable, hasking, hothers]
  cases hnamed : selection.filterMap Issue.sectionName with
  | nil =>
    obtain ⟨i, hi⟩ := List.exists_mem_of_ne_nil selection hne
    obtain ⟨-, -, name, hname⟩ := hasks i hi
    have hmem := List.mem_filterMap.mpr ⟨i, hi, hname⟩
    rw [hnamed] at hmem
    cases hmem
  | cons name named =>
    show (_, 0 + _) = _
    rw [Nat.zero_add]
    rfl

end Fixer

/-! ## What completion leaves -/

/-- A chain together with one default section for each name of the order that had none, and how many
sections that makes. -/
structure Catalog.IsCompletion (cat : Catalog) (c : Chain) (result : Chain × Nat) : Prop where
  count : result.2 = (cat.order.missing c).length
  rest : result.1 = { c with sections := result.1.sections }
  perm : result.1.sections.Perm
    (c.sections ++ (cat.order.missing c).map (Fixer.defaultSection cat))
  /-- A name that was missing has its default section and no other. -/
  added : ∀ name ∈ cat.order.missing c,
    (result.1.sections.filter fun s => s.isNamed name) = [Fixer.defaultSection cat name]
  /-- The sections of any other name are the same as before, in the same order. -/
  kept : ∀ name, (∀ n ∈ cat.order.missing c, Text.sameName n name = false) →
    (result.1.sections.filter fun s => s.isNamed name) = c.sections.filter fun s => s.isNamed name
  /-- So are all sections without a canonical name. -/
  others : (result.1.sections.filter fun s => !cat.order.contains s.name) =
    c.sections.filter fun s => !cat.order.contains s.name
  /-- Canonical sections come first, and never one of a later place before one of an earlier. -/
  byPlace : result.1.sections.Pairwise fun s s' => ∀ i', cat.order.position? s'.name = some i' →
    ∃ i ≤ i', cat.order.position? s.name = some i

namespace Fixer

variable {f : Fixer} {c : Chain}

/-- Of names that all differ, only the name itself is the same as it. -/
theorem filter_sameName_of_distinct {names : List String}
    (hdist : names.Pairwise fun n n' => Text.sameName n n' = false) {name : String}
    (hname : name ∈ names) : (names.filter fun n => Text.sameName n name) = [name] := by
  obtain ⟨before, after, rfl⟩ := List.append_of_mem hname
  obtain ⟨-, hafter, hbefore⟩ := List.pairwise_append.mp hdist
  have hfront : (before.filter fun n => Text.sameName n name) = [] :=
    List.filter_eq_nil_iff.mpr fun n hn => Bool.eq_false_iff.mp (hbefore n hn name (by simp))
  have hback : (after.filter fun n => Text.sameName n name) = [] :=
    List.filter_eq_nil_iff.mpr fun n hn => by
      rw [Text.sameName_comm]
      exact Bool.eq_false_iff.mp ((List.pairwise_cons.mp hafter).1 n hn)
  rw [List.filter_append, hfront, List.nil_append, List.filter_cons,
    if_pos (Text.sameName_refl name), hback]

theorem filter_isNamed_defaults (cat : Catalog) (names : List String) (name : String) :
    ((names.map (defaultSection cat)).filter fun s => s.isNamed name) =
      (names.filter fun n => Text.sameName n name).map (defaultSection cat) := by
  rw [List.filter_map]
  rfl

theorem isCompletion_complete (hdist : f.catalog.order.Distinct) {named : List String}
    (hnamed : named ⊆ f.catalog.order.missing c) :
    f.catalog.IsCompletion c (f.complete c named) := by
  have hsections (name : String) :
      ((f.complete c named).1.sections.filter fun s => s.isNamed name) =
      (c.sections.filter fun s => s.isNamed name) ++
        ((f.catalog.order.missing c).filter fun n => Text.sameName n name).map
          (defaultSection f.catalog) := by
    rw [complete_missing hdist hnamed, Order.reorder, Order.filter_isNamed_arrange,
      List.filter_append, filter_isNamed_defaults]
  have heq := complete_missing hdist hnamed
  constructor
  case count => rw [heq]
  case rest => rw [heq]; rfl
  case perm => rw [heq]; exact f.catalog.order.arrange_perm _
  case added =>
    intro name hname
    have hnone : (c.sections.filter fun s => s.isNamed name) = [] :=
      List.filter_eq_nil_iff.mpr (List.any_eq_false.mp (mem_missing.mp hname).2)
    rw [hsections, hnone, filter_sameName_of_distinct (missing_distinct hdist c) hname]
    rfl
  case kept =>
    intro name hother
    have hnone : ((f.catalog.order.missing c).filter fun n => Text.sameName n name) = [] :=
      List.filter_eq_nil_iff.mpr fun n hn => Bool.eq_false_iff.mp (hother n hn)
    rw [hsections, hnone, List.map_nil, List.append_nil]
  case others =>
    have hnone : (((f.catalog.order.missing c).map (defaultSection f.catalog)).filter fun s =>
        !f.catalog.order.contains s.name) = [] := by
      refine List.filter_eq_nil_iff.mpr fun s hs => ?_
      obtain ⟨name, hname, rfl⟩ := List.mem_map.mp hs
      have hcontains := f.catalog.order.contains_iff.mpr
        ⟨name, (mem_missing.mp hname).1, Text.sameName_refl name⟩
      rw [name_defaultSection, hcontains]
      simp
    rw [heq, Order.reorder, Order.filter_not_contains_arrange, List.filter_append, hnone,
      List.append_nil]
  case byPlace =>
    rw [heq]
    exact (f.catalog.order.arrange_sorted _).imp fun hle i' hi' =>
      f.catalog.order.exists_position?_of_rank_le hle hi'

/-- A rule that requires the canonical sections raises one issue for each name that is missing.
Whatever selection of these issues is dealt with, all of the missing sections are added. -/
theorem applyFixes_isCompletion {r : Rule} {message : Option String}
    (hdist : f.catalog.order.Distinct) (hkind : r.kind = .requiredSections { message })
    (hasks : r.id ∈ f.sectionRules) (c : Chain) :
    ∃ issues, r.issues f.catalog c = .ok issues ∧
      issues.map Issue.sectionName = (f.catalog.order.missing c).map some ∧
      ∀ selection, selection ≠ [] → selection ⊆ issues →
        f.catalog.IsCompletion c (f.applyFixes c selection) := by
  refine ⟨r.requiredSectionsIssues { message } f.catalog.order.names c, ?_,
    r.sectionName_requiredSectionsIssues _ _ c, fun selection hne hsub => ?_⟩
  · rw [Rule.issues, hkind]
    rfl
  have hselection : ∀ i ∈ selection, i.fixable = true ∧ f.asksForSection i = true ∧
      ∃ name ∈ f.catalog.order.missing c, i.sectionName = some name := by
    intro i hi
    obtain ⟨hid, hfixable, hname⟩ := Rule.of_mem_requiredSectionsIssues (hsub hi)
    exact ⟨hfixable, by rw [asksForSection, hid]; exact List.contains_iff_mem.mpr hasks, hname⟩
  rw [applyFixes_of_asking hne fun i hi => by
    obtain ⟨hfixable, hasking, name, -, hname⟩ := hselection i hi
    exact ⟨hfixable, hasking, name, hname⟩]
  refine isCompletion_complete hdist fun name hname => ?_
  obtain ⟨i, hi, hsome⟩ := List.mem_filterMap.mp hname
  obtain ⟨-, -, name', hname', hsome'⟩ := hselection i hi
  rw [hsome] at hsome'
  exact Option.some.inj hsome' ▸ hname'

/-- Two of four canonical names are missing, and two sections share a name that comes later. -/
theorem applyFixes_isCompletion_repeated :
    let f : Fixer := .ofCatalog { order := ⟨["content", "olap", "tests", "designer"]⟩ }
    let r : Rule := Rule.standardRule .requiredProjects "Required projects" .error
      (.requiredSections {})
    let c : Chain := { sections := [⟨"zeta", ∅⟩, ⟨"Tests", .ofList [("mode", "fast")]⟩,
      ⟨"tests", ∅⟩, ⟨"OLAP", ∅⟩, ⟨"alpha", ∅⟩] }
    f.catalog.order.Distinct ∧ r.kind = .requiredSections {} ∧ r.id ∈ f.sectionRules ∧
      ∃ issues, r.issues f.catalog c = .ok issues ∧
        issues.map Issue.sectionName = [some "content", some "designer"] ∧
        ∀ selection, selection ≠ [] → selection ⊆ issues →
          f.catalog.IsCompletion c (f.applyFixes c selection) := by
  intro f r c
  have hdist : f.catalog.order.Distinct := by decide +kernel
  have hasks : r.id ∈ f.sectionRules := List.mem_singleton.mpr rfl
  obtain ⟨issues, hissues, hnames, hall⟩ := applyFixes_isCompletion hdist rfl hasks c
  have hmissing : f.catalog.order.missing c = ["content", "designer"] := by decide +kernel
  rw [hmissing] at hnames
  exact ⟨hdist, rfl, hasks, issues, hissues, hnames, hall⟩

end Fixer

end BuildChain
