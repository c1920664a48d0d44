import BuildChain.Proofs.Repair.Completion
import BuildChain.Proofs.RuleSet
import BuildChain.Proofs.Text.Numeral

/-!
# Repairs of a tuned rule set

The standard repairs are tied to the standard rules by their identifiers. Each property is left at
one and the same value by every repair that touches it, so a section is followed through a run
property by property: afterwards no rule in force finds a fault in it.
-/

namespace BuildChain

open Rule (StandardId)

/-- What the standard repairs ask of the values that they fall back to. -/
structure Catalog.Usable (cat : Catalog) : Prop where
  branch : Text.isBlank cat.defaultBranch = false
  version : ∃ n, Text.readNumber cat.defaultVersion = some n ∧
    (cat.bands.any fun b => b.contains n) = true
  devVersion : (Text.readNumber cat.defaultDevVersion).isSome = true

theorem Catalog.usable_default : Catalog.Usable {} where
  branch := by decide
  version := ⟨20000, by decide +kernel, by decide⟩
  devVersion := by decide +kernel

/-! ## The table of repairs -/

namespace Rule.StandardId

def repair? (cat : Catalog) : StandardId → Option Repair
  | requiredMode | validMode => some (.setProperty Property.mode BuildMode.source.text)
  | validDevMode => some (.setProperty Property.devMode BuildMode.binary.text)
  | branchTagExclusive => some (.removeProperty Property.tag)
  | branchOrTagRequired => some (.setProperty Property.branch cat.defaultBranch)
  | forkFormat => some (.removeProperty Property.fork)
  | globalVersionWhenBinary => some (.setGlobal GlobalKey.version cat.defaultVersion)
  | buildNumberRange => some (.resetVersion cat.defaultVersion cat.defaultDevVersion)
  | integrationTests => some (.setFlag false)
  | globalDevVersionRequired => some (.fillDevVersion cat.defaultDevVersion)
  | _ => none

theorem get?_defaults (cat : Catalog) (id : StandardId) :
    (Repair.defaults cat).get? id.text = id.repair? cat := by
  rw [Repair.defaults, OrderedMap.get?_ofList]
  cases id <;> simp [text, repair?]

/-- What the repair of a rule leaves at a property of the section that is at fault. -/
def leavesProperty? (cat : Catalog) (p : String) (id : StandardId) : Option (Option String) :=
  (id.repair? cat).bind fun r => r.leavesProperty? p

theorem isLocal_of_leavesProperty? {cat : Catalog} {p : String} {w : Option String}
    {id : StandardId} (h : id.leavesProperty? cat p = some w) : id.kind.isLocal = true := by
  cases id <;> first | rfl | cases h

end Rule.StandardId

namespace Catalog

/-- The value that a property is left at by the repairs that touch it. -/
def repaired (cat : Catalog) (p : String) : Option String :=
  if p = Property.mode then some BuildMode.source.text
  else if p = Property.devMode then some BuildMode.binary.text
  else if p = Property.branch then some cat.defaultBranch
  else none

theorem leavesProperty?_eq (cat : Catalog) (p : String) (id : StandardId) :
    id.leavesProperty? cat p = none ∨ id.leavesProperty? cat p = some (cat.repaired p) := by
  cases id <;>
    simp only [StandardId.leavesProperty?, StandardId.repair?, Repair.leavesProperty?,
      Option.bind_some, Option.bind_none, true_or] <;>
    split <;> simp [repaired, Property.mode, Property.devMode, Property.branch, Property.tag,
      Property.fork, *]

end Catalog

/-! ## Issues of a run -/

namespace RuleSet

variable {s : RuleSet} {c : Chain} {i : Issue} {x : Section}

/-- The errors that a repair can be tried on and that do not ask for a section. -/
def toRepair (s : RuleSet) (c : Chain) : List Issue :=
  (s.fixables c).filter fun i => !(Fixer.ofRuleSet s).asksForSection i

theorem get?_repairs (s : RuleSet) (id : StandardId) :
    (Fixer.ofRuleSet s).repairs.get? id.text = id.repair? s.catalog := by
  simp only [Fixer.ofRuleSet, Fixer.ofCatalog, StandardId.get?_defaults]

/-- Only the issues about required projects ask for a section. -/
theorem Tuned.asksForSection_iff (h : Tuned s.catalog s) :
    (Fixer.ofRuleSet s).asksForSection i = true ↔
      i.ruleId = StandardId.requiredProjects.text := by
  simp only [Fixer.asksForSection, Fixer.ofRuleSet, List.contains_iff_mem, List.mem_cons]
  constructor
  · rintro (hid | hid)
    · exact hid
    · obtain ⟨r, hr, hrid⟩ := List.mem_map.mp hid
      obtain ⟨hrules, hkind⟩ := List.mem_filter.mp hr
      obtain ⟨id, hidr, hk⟩ := h.exists_id hrules
      rw [hk] at hkind
      have hprojects : id = .requiredProjects := by
        cases id <;> first | rfl | cases hkind
      rw [← hrid, hidr, hprojects]
  · exact .inl

/-- An issue to be repaired comes from one of the standard rules but the one about projects. -/
theorem Tuned.mem_toRepair (h : Tuned s.catalog s) (hi : i ∈ s.toRepair c) :
    ∃ r ∈ s.rules, ∃ id : StandardId, r.id = id.text ∧ r.kind = id.kind ∧
      i ∈ r.repairable s.catalog c ∧ i.ruleId = id.text := by
  obtain ⟨hmem, -⟩ := List.mem_filter.mp hi
  obtain ⟨r, hr, hir⟩ := List.mem_flatMap.mp hmem
  obtain ⟨id, hid, hkind⟩ := h.exists_id hr
  exact ⟨r, hr, id, hid, hkind, hir, (Rule.ruleId_of_mem_repairable hir).trans hid⟩

theorem Tuned.mem_toRepair_of_repairable (h : Tuned s.catalog s) {r : Rule} (hr : r ∈ s.rules)
    {id : StandardId} (hid : r.id = id.text) (hne : id ≠ .requiredProjects)
    (hi : i ∈ r.repairable s.catalog c) : i ∈ s.toRepair c := by
  refine List.mem_filter.mpr ⟨List.mem_flatMap.mpr ⟨r, hr, hi⟩, ?_⟩
  rw [Bool.not_eq_true', ← Bool.not_eq_true, h.asksForSection_iff,
    Rule.ruleId_of_mem_repairable hi, hid]
  exact fun hprojects => hne (StandardId.text_injective hprojects)

/-- Names are distinct, so an issue about a section of some name comes from that very section. -/
theorem Tuned.finds_of_concerns (h : Tuned s.catalog s) (hdist : c.DistinctNames)
    (hx : x ∈ c.sections) (hi : i ∈ s.toRepair c) {id : StandardId} (hid : i.ruleId = id.text)
    (hlocal : id.kind.isLocal = true) (hconcerns : i.concerns x.name = true) :
    id.kind.finds x = true ∧ ∃ r ∈ s.rules, r.id = id.text ∧ r.IsStrict := by
  obtain ⟨r, hr, id', hid', hkind, hir, hrule⟩ := h.mem_toRepair hi
  obtain rfl : id' = id := StandardId.text_injective (hrule.symm.trans hid)
  rw [← hkind] at hlocal
  obtain ⟨hstrict, -, y, hy, hname, hfinds⟩ := Rule.mem_repairable_of_isLocal hlocal hir
  have hxy : x.isNamed y.name = true := by
    rwa [Issue.concerns, hname, Option.any_some] at hconcerns
  have hsame := Chain.section?_of_mem hdist hx hxy
  rw [Chain.section?_of_mem hdist hy (Text.sameName_refl y.name)] at hsame
  cases hsame
  exact ⟨hkind ▸ hfinds, r, hr, hid', hstrict⟩

/-! ## Sections after a run -/

/-- A section after the run of all repairs. -/
def mended (s : RuleSet) (c : Chain) (x : Section) : Section :=
  (s.toRepair c).foldl ((Fixer.ofRuleSet s).mendSection x.name) x

/-- A property is left at the value of its repairs if a rule that such a repair belongs to finds a
fault in the section, and at its old value if none in force does. -/
theorem Tuned.get?_mended (h : Tuned s.catalog s) (hdist : c.DistinctNames)
    (hx : x ∈ c.sections) (p : String) :
    (∃ id : StandardId, id.leavesProperty? s.catalog p = some (s.catalog.repaired p) ∧
        id.kind.finds x = true) ∧ (s.mended c x).get? p = s.catalog.repaired p ∨
      (∀ r ∈ s.rules, r.IsStrict → ∀ id : StandardId, r.id = id.text →
          id.leavesProperty? s.catalog p = some (s.catalog.repaired p) →
          id.kind.finds x = false) ∧ (s.mended c x).get? p = x.get? p := by
  have hleaves {i : Issue} {id : StandardId} (hid : i.ruleId = id.text) :
      (Fixer.ofRuleSet s).leavesProperty? x.name p i =
        if i.concerns x.name = true then id.leavesProperty? s.catalog p else none := by
    rw [Fixer.leavesProperty?, hid, get?_repairs]
    rfl
  have houtcome := Fixer.outcome_of_run ((Fixer.ofRuleSet s).mendSection x.name)
    (fun y => y.get? p) (w := s.catalog.repaired p) (s.toRepair c)
    (fun y i _ => Fixer.get?_mendSection _ x.name y i p)
    (fun i hi => by
      obtain ⟨r, -, id, -, -, -, hid⟩ := h.mem_toRepair hi
      rw [hleaves hid]
      split
      · exact s.catalog.leavesProperty?_eq p id
      · exact .inl rfl) x
  rcases houtcome with ⟨⟨i, hi, hsome⟩, hget⟩ | ⟨hnone, hget⟩
  · refine .inl ⟨?_, hget⟩
    obtain ⟨-, -, id, -, -, -, hrule⟩ := h.mem_toRepair hi
    rw [hleaves hrule] at hsome
    split at hsome
    · rename_i hconcerns
      have hlocal := StandardId.isLocal_of_leavesProperty? hsome
      exact ⟨id, hsome, (h.finds_of_concerns hdist hx hi hrule hlocal hconcerns).1⟩
    · cases hsome
  · refine .inr ⟨fun r hr hstrict id hid hsome => ?_, hget⟩
    rw [← Bool.not_eq_true]
    intro hfinds
    have hkind := h.kind_eq hr hid
    obtain ⟨i, hi, hrule, hname⟩ : ∃ i ∈ r.repairable s.catalog c,
        i.ruleId = r.id ∧ i.sectionName = some x.name :=
      Rule.exists_repairable_of_finds hstrict hx (hkind ▸ hfinds)
    have hprojects : id ≠ .requiredProjects := by
      rintro rfl
      cases hsome
    have hmem := hnone i (h.mem_toRepair_of_repairable hr hid hprojects hi)
    rw [hleaves (hrule.trans hid), hsome] at hmem
    simp [Issue.concerns, hname, Text.sameName_refl] at hmem

/-! ## No fault is left in a section -/

/-- A kind that reads one property finds no fault after its repair, since the repaired value is
good and since an untouched one was not at fault. -/
theorem Tuned.finds_mended_of_reads (h : Tuned s.catalog s) (hdist : c.DistinctNames)
    (hx : x ∈ c.sections) {r : Rule} (hr : r ∈ s.rules) (hstrict : r.IsStrict) {id : StandardId}
    (hid : r.id = id.text) {p : String}
    (hleaves : id.leavesProperty? s.catalog p = some (s.catalog.repaired p))
    (hreads : ∀ y : Section, y.get? p = x.get? p → id.kind.finds y = id.kind.finds x)
    (hgood : ∀ y : Section, y.get? p = s.catalog.repaired p → id.kind.finds y = false) :
    id.kind.finds (s.mended c x) = false := by
  rcases h.get?_mended hdist hx p with ⟨-, hget⟩ | ⟨hquiet, hget⟩
  · exact hgood _ hget
  · rw [hreads _ hget]
    exact hquiet r hr hstrict id hid hleaves

theorem finds_branchTagExclusive (y : Section) :
    StandardId.branchTagExclusive.kind.finds y = (y.has Property.branch && y.has Property.tag) := by
  simp only [StandardId.kind, Rule.Kind.finds, Rule.PropertySet.presentIn]
  cases hb : y.has Property.branch <;> cases ht : y.has Property.tag <;> simp [hb, ht]

theorem finds_branchOrTagRequired (y : Section) :
    StandardId.branchOrTagRequired.kind.finds y =
      (!y.has Property.branch && !y.has Property.tag) := by
  simp only [StandardId.kind, Rule.Kind.finds, Rule.PropertySet.presentIn]
  cases hb : y.has Property.branch <;> cases ht : y.has Property.tag <;> simp [hb, ht]

/-- A tag is dropped only beside a branch, and a branch is set only where there is no tag, so the
two repairs do not undo each other. -/
theorem Tuned.branch_tag_mended (h : Tuned s.catalog s) (hcat : s.catalog.Usable)
    (hdist : c.DistinctNames) (hx : x ∈ c.sections) {r : Rule} (hr : r ∈ s.rules)
    (hstrict : r.IsStrict) :
    (r.id = StandardId.branchTagExclusive.text →
        StandardId.branchTagExclusive.kind.finds (s.mended c x) = false) ∧
      (r.id = StandardId.branchOrTagRequired.text →
        StandardId.branchOrTagRequired.kind.finds (s.mended c x) = false) := by
  have htagId : ∀ id : StandardId, id.leavesProperty? s.catalog Property.tag =
      some (s.catalog.repaired Property.tag) →
      id = .branchTagExclusive := by
    intro id hid
    cases id <;> first | rfl | cases hid
  have hbranchId : ∀ id : StandardId, id.leavesProperty? s.catalog Property.branch =
      some (s.catalog.repaired Property.branch) → id = .branchOrTagRequired := by
    intro id hid
    cases id <;> first | rfl | cases hid
  rw [finds_branchTagExclusive, finds_branchOrTagRequired]
  rcases h.get?_mended hdist hx Property.tag with
    ⟨⟨id, hid, hfinds⟩, htag⟩ | ⟨hquietTag, htag⟩
  · rw [htagId id hid, finds_branchTagExclusive, Bool.and_eq_true] at hfinds
    rw [Section.has_of_get?_none htag]
    refine ⟨fun _ => Bool.and_false _, fun _ => ?_⟩
    -- The tag went since there was a branch as well, and that one is still there.
    rcases h.get?_mended hdist hx Property.branch with
      ⟨-, hbranch⟩ | ⟨-, hbranch⟩
    · rw [Section.has_of_get? hbranch hcat.branch]
      rfl
    · rw [Section.has_congr hbranch, hfinds.1]
      rfl
  · rw [Section.has_congr htag]
    rcases h.get?_mended hdist hx Property.branch with
      ⟨⟨id, hid, hfinds⟩, hbranch⟩ | ⟨hquietBranch, hbranch⟩
    · rw [hbranchId id hid, finds_branchOrTagRequired, Bool.and_eq_true, Bool.not_eq_true',
        Bool.not_eq_true'] at hfinds
      rw [hfinds.2, Section.has_of_get? hbranch hcat.branch]
      exact ⟨fun _ => rfl, fun _ => rfl⟩
    · rw [Section.has_congr hbranch, ← finds_branchTagExclusive, ← finds_branchOrTagRequired]
      exact ⟨fun hid => hquietTag r hr hstrict _ hid rfl,
        fun hid => hquietBranch r hr hstrict _ hid rfl⟩

/-- No strict rule finds a fault in a section after the run. -/
theorem Tuned.finds_mended (h : Tuned s.catalog s) (hcat : s.catalog.Usable)
    (hdist : c.DistinctNames) (hx : x ∈ c.sections) {r : Rule} (hr : r ∈ s.rules)
    (hstrict : r.IsStrict) : r.kind.finds (s.mended c x) = false := by
  obtain ⟨id, hid, hkind⟩ := h.exists_id hr
  rw [hkind]
  have hpair := h.branch_tag_mended hcat hdist hx hr hstrict
  cases id with
  | requiredMode =>
    refine h.finds_mended_of_reads hdist hx hr hstrict hid (p := Property.mode) rfl
      (fun y hy => ?_) fun y hy => ?_
    · simp only [StandardId.kind, Rule.Kind.finds, Section.has_congr hy]
    · simp only [StandardId.kind, Rule.Kind.finds, Section.has_of_get? hy (by decide)]
      rfl
  | validMode =>
    refine h.finds_mended_of_reads hdist hx hr hstrict hid (p := Property.mode) rfl
      (fun y hy => ?_) fun y hy => ?_
    · simp only [StandardId.kind, Rule.Kind.finds, Section.nonBlank?_congr hy]
    · simp only [StandardId.kind, Rule.Kind.finds, Section.nonBlank?_of_get? hy (by decide)]
      rfl
  | validDevMode =>
    refine h.finds_mended_of_reads hdist hx hr hstrict hid (p := Property.devMode) rfl
      (fun y hy => ?_) fun y hy => ?_
    · simp only [StandardId.kind, Rule.Kind.finds, Section.nonBlank?_congr hy]
    · simp only [StandardId.kind, Rule.Kind.finds, Section.nonBlank?_of_get? hy (by decide)]
      rfl
  | branchTagExclusive => exact hpair.1 hid
  | branchOrTagRequired => exact hpair.2 hid
  | forkFormat =>
    refine h.finds_mended_of_reads hdist hx hr hstrict hid (p := Property.fork) rfl
      (fun y hy => ?_) fun y hy => ?_
    · simp only [StandardId.kind, Rule.Kind.finds, Section.nonBlank?_congr hy]
    · simp only [StandardId.kind, Rule.Kind.finds, Section.nonBlank?_of_get?_none hy]
      rfl
  | _ => rfl

end RuleSet

/-! ## Added sections -/

theorem get?_defaultSection (cat : Catalog) (name p : String) :
    (Fixer.defaultSection cat name).get? p =
      if p = Property.testsUnit then
        some (flagText (!Fixer.among Fixer.testless name))
      else if p = Property.branch then some cat.defaultBranch
      else if p = Property.devMode then
        some (if Fixer.among Fixer.developerless name then BuildMode.ignored
          else BuildMode.binary).text
      else if p = Property.mode then some BuildMode.source.text
      else none := by
  simp only [Fixer.defaultSection, Section.setTestsUnit, Section.get?_set]
  rfl

/-- An added section can only lack a branch, and that only where the catalog has a blank one. -/
theorem finds_defaultSection_of_ne {id : StandardId} (hne : id ≠ .branchOrTagRequired)
    (cat : Catalog) (name : String) : id.kind.finds (Fixer.defaultSection cat name) = false := by
  have hmode : (Fixer.defaultSection cat name).nonBlank? Property.mode =
      some BuildMode.source.text :=
    Section.nonBlank?_of_get? (by rw [get?_defaultSection]; rfl) (by decide)
  have hdev : (Fixer.defaultSection cat name).nonBlank? Property.devMode =
      some (if Fixer.among Fixer.developerless name then BuildMode.ignored
        else BuildMode.binary).text :=
    Section.nonBlank?_of_get? (by rw [get?_defaultSection]; rfl) (by split <;> decide)
  have htag : (Fixer.defaultSection cat name).has Property.tag = false :=
    Section.has_of_get?_none (by rw [get?_defaultSection]; rfl)
  have hfork : (Fixer.defaultSection cat name).nonBlank? Property.fork = none :=
    Section.nonBlank?_of_get?_none (by rw [get?_defaultSection]; rfl)
  cases id with
  | requiredMode => simp [StandardId.kind, Rule.Kind.finds, Section.has, hmode]
  | validMode =>
    rw [StandardId.kind, Rule.Kind.finds, hmode]
    rfl
  | validDevMode =>
    rw [StandardId.kind, Rule.Kind.finds, hdev]
    split <;> rfl
  | branchTagExclusive => rw [RuleSet.finds_branchTagExclusive, htag, Bool.and_false]
  | branchOrTagRequired => exact absurd rfl hne
  | forkFormat =>
    rw [StandardId.kind, Rule.Kind.finds, hfork]
    rfl
  | _ => rfl

/-- No standard rule finds a fault in an added section. -/
theorem finds_defaultSection {cat : Catalog} (hcat : cat.Usable) (name : String)
    (id : StandardId) : id.kind.finds (Fixer.defaultSection cat name) = false := by
  by_cases hid : id = .branchOrTagRequired
  · have hbranch : (Fixer.defaultSection cat name).has Property.branch = true :=
      Section.has_of_get? (by rw [get?_defaultSection]; rfl) hcat.branch
    rw [hid, RuleSet.finds_branchOrTagRequired, hbranch]
    rfl
  · exact finds_defaultSection_of_ne hid cat name

end BuildChain
