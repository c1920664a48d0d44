import BuildChain.Proofs.Repair.Pass
import BuildChain.Proofs.Repair.Projects
import BuildChain.Proofs.Rule.Faults
import Mathlib.Data.List.Perm.Subperm

/-!
# Fixing one error

Any error that the standard rules raise and that can be fixed is fixed on its own: it is gone
afterwards, and no error has come up that was not there before. A repair writes one property of one
section, one version or one flag. The rules that look at what it writes are content with it, and all
other rules see what they have seen before.
-/

namespace BuildChain

open Rule (StandardId)

/-- A chain in which the error at a place is gone and none has come up instead. -/
structure Chain.Cures (c c' : Chain) (p : Issue.Place) : Prop where
  noWorse : c.NoWorse c'
  distinct : c'.DistinctNames
  gone : ∀ id : StandardId, p ∉ id.faults c'

/-! ## What the rules read of a section -/

namespace Rule.StandardId

variable {id id' : StandardId} {s s' : Section} {r : Repair}

/-- The properties that the rule looks at to find an error in a section. -/
def reads : StandardId → List String
  | requiredMode | validMode => [Property.mode]
  | validDevMode => [Property.devMode]
  | branchTagExclusive | branchOrTagRequired => [Property.branch, Property.tag]
  | forkFormat => [Property.fork]
  | contentStageBranch => [Property.branch]
  | _ => []

/-- The property that the repair of an error in a section writes. -/
def mends : StandardId → String
  | validDevMode => Property.devMode
  | branchTagExclusive => Property.tag
  | branchOrTagRequired => Property.branch
  | forkFormat => Property.fork
  | _ => Property.mode

theorem blames_of_ne (h : id ≠ contentStageBranch) : id.blames s = id.kind.finds s := by
  cases id <;> first | rfl | exact absurd rfl h

theorem blames_branchTagExclusive (s : Section) :
    branchTagExclusive.blames s = (s.has Property.branch && s.has Property.tag) :=
  RuleSet.finds_branchTagExclusive s

theorem blames_branchOrTagRequired (s : Section) :
    branchOrTagRequired.blames s = (!s.has Property.branch && !s.has Property.tag) :=
  RuleSet.finds_branchOrTagRequired s

theorem blames_congr (hname : s'.name = s.name) (h : ∀ p ∈ id.reads, s'.get? p = s.get? p) :
    id.blames s' = id.blames s := by
  cases id with
  | requiredMode =>
    have hhas := Section.has_congr (h Property.mode (by decide))
    simp only [blames, kind, Kind.finds, hhas]
  | validMode =>
    have hvalue := Section.nonBlank?_congr (h Property.mode (by decide))
    simp only [blames, kind, Kind.finds, hvalue]
  | validDevMode =>
    have hvalue := Section.nonBlank?_congr (h Property.devMode (by decide))
    simp only [blames, kind, Kind.finds, hvalue]
  | branchTagExclusive =>
    have hbranch := Section.has_congr (h Property.branch (by decide))
    have htag := Section.has_congr (h Property.tag (by decide))
    rw [blames_branchTagExclusive, hbranch, htag, blames_branchTagExclusive]
  | branchOrTagRequired =>
    have hbranch := Section.has_congr (h Property.branch (by decide))
    have htag := Section.has_congr (h Property.tag (by decide))
    rw [blames_branchOrTagRequired, hbranch, htag, blames_branchOrTagRequired]
  | forkFormat =>
    have hvalue := Section.nonBlank?_congr (h Property.fork (by decide))
    simp only [blames, kind, Kind.finds, hvalue]
  | contentStageBranch =>
    have hvalue := Section.nonBlank?_congr (h Property.branch (by decide))
    simp only [blames, Section.isNamed, hname, hvalue]
  | _ => rfl

/-- A repair leaves all properties but its own alone. -/
theorem get?_onSection_of_ne (hrepair : id.repair? {} = some r) (hlocal : id.kind.isLocal = true)
    {p : String} (hp : p ≠ id.mends) (s : Section) : (r.onSection s).get? p = s.get? p := by
  rw [Repair.get?_onSection]
  cases id <;> first | (cases hlocal; done) | (cases hrepair; done) | skip
  all_goals
    cases hrepair
    exact congrArg (fun left : Option (Option String) => left.getD (s.get? p)) (if_neg hp)

/-- A branch of which the content project may be built. -/
theorem blames_contentStageBranch_of_integration
    (h : s.nonBlank? Property.branch = some "integration") :
    contentStageBranch.blames s = false := by
  have hother : Text.sameName "stage" (Text.trim "integration") = false := by decide +kernel
  rw [blames, h, Option.any_some, hother, Bool.and_false]

/-- The rules about modes are content with a project built from source. -/
theorem blames_set_source (hreads : Property.mode ∈ id.reads) (s : Section) :
    id.blames (s.set Property.mode BuildMode.source.text) = false := by
  have hvalue : (s.set Property.mode BuildMode.source.text).nonBlank? Property.mode =
      some BuildMode.source.text :=
    Section.nonBlank?_of_get? (by rw [Section.get?_set, if_pos rfl]) (by decide)
  cases id with
  | requiredMode =>
    simp only [blames, kind, Kind.finds, Section.has, hvalue]
    rfl
  | validMode =>
    simp only [blames, kind, Kind.finds, hvalue]
    rfl
  | _ => exact absurd hreads (by decide)

theorem blames_set_binary (hreads : Property.devMode ∈ id.reads) (s : Section) :
    id.blames (s.set Property.devMode BuildMode.binary.text) = false := by
  have hvalue : (s.set Property.devMode BuildMode.binary.text).nonBlank? Property.devMode =
      some BuildMode.binary.text :=
    Section.nonBlank?_of_get? (by rw [Section.get?_set, if_pos rfl]) (by decide)
  cases id with
  | validDevMode =>
    simp only [blames, kind, Kind.finds, hvalue]
    rfl
  | _ => exact absurd hreads (by decide)

/-- The tag goes where there is a branch as well, so one of the two stays. -/
theorem blames_erase_tag (hbranch : s.has Property.branch = true)
    (hreads : Property.tag ∈ id.reads) : id.blames (s.erase Property.tag) = false := by
  have htag : (s.erase Property.tag).has Property.tag = false :=
    Section.has_of_get?_none (by rw [Section.get?_erase, if_pos rfl])
  have hbranch' : (s.erase Property.tag).has Property.branch = true :=
    (Section.has_congr (by rw [Section.get?_erase, if_neg (by decide)])).trans hbranch
  cases id with
  | branchTagExclusive => rw [blames_branchTagExclusive, htag, Bool.and_false]
  | branchOrTagRequired =>
    rw [blames_branchOrTagRequired, hbranch']
    rfl
  | _ => exact absurd hreads (by decide)

/-- The branch is set where there is no tag either, so it is the only one of the two. -/
theorem blames_set_integration (htag : s.has Property.tag = false)
    (hreads : Property.branch ∈ id.reads) :
    id.blames (s.set Property.branch "integration") = false := by
  have hvalue : (s.set Property.branch "integration").nonBlank? Property.branch =
      some "integration" :=
    Section.nonBlank?_of_get? (by rw [Section.get?_set, if_pos rfl]) (by decide)
  have htag' : (s.set Property.branch "integration").has Property.tag = false :=
    (Section.has_congr (by rw [Section.get?_set, if_neg (by decide)])).trans htag
  cases id with
  | branchTagExclusive => rw [blames_branchTagExclusive, htag', Bool.and_false]
  | branchOrTagRequired =>
    rw [blames_branchOrTagRequired, Section.has, hvalue]
    rfl
  | contentStageBranch => exact blames_contentStageBranch_of_integration hvalue
  | _ => exact absurd hreads (by decide)

theorem blames_erase_fork (hreads : Property.fork ∈ id.reads) (s : Section) :
    id.blames (s.erase Property.fork) = false := by
  have hvalue : (s.erase Property.fork).nonBlank? Property.fork = none :=
    Section.nonBlank?_of_get?_none (by rw [Section.get?_erase, if_pos rfl])
  cases id with
  | forkFormat =>
    simp only [blames, kind, Kind.finds, hvalue]
    rfl
  | _ => exact absurd hreads (by decide)

/-- Every rule that looks at what a repair writes is content with it. -/
theorem blames_onSection_of_reads (hrepair : id.repair? {} = some r)
    (hlocal : id.kind.isLocal = true) (hblames : id.blames s = true)
    (hreads : id.mends ∈ id'.reads) : id'.blames (r.onSection s) = false := by
  cases id with
  | requiredMode =>
    cases hrepair
    exact blames_set_source hreads s
  | validMode =>
    cases hrepair
    exact blames_set_source hreads s
  | validDevMode =>
    cases hrepair
    exact blames_set_binary hreads s
  | branchTagExclusive =>
    cases hrepair
    rw [blames_branchTagExclusive, Bool.and_eq_true] at hblames
    exact blames_erase_tag hblames.1 hreads
  | branchOrTagRequired =>
    cases hrepair
    rw [blames_branchOrTagRequired, Bool.and_eq_true, Bool.not_eq_true', Bool.not_eq_true']
      at hblames
    exact blames_set_integration hblames.2 hreads
  | forkFormat =>
    cases hrepair
    exact blames_erase_fork hreads s
  | requiredProjects | globalVersionWhenBinary | buildNumberRange | integrationTests
    | globalDevVersionRequired => cases hlocal
  | _ => cases hrepair

/-- The repair of an error in a section removes it there and brings up no other one. -/
theorem blames_onSection (hrepair : id.repair? {} = some r) (hlocal : id.kind.isLocal = true)
    (hblames : id.blames s = true) (hafter : id'.blames (r.onSection s) = true) :
    id'.blames s = true ∧ id' ≠ id := by
  have hreads : id.mends ∉ id'.reads := fun hreads => by
    rw [blames_onSection_of_reads hrepair hlocal hblames hreads] at hafter
    cases hafter
  constructor
  · rw [← hafter, blames_congr (r.name_onSection s) fun p hp => ?_]
    exact get?_onSection_of_ne hrepair hlocal (fun hmends => hreads (hmends ▸ hp)) s
  · rintro rfl
    refine hreads ?_
    cases id' <;> first | (cases hlocal; done) | (cases hrepair; done) | decide

end Rule.StandardId

namespace Chain

variable {c : Chain} {id : StandardId}

/-- No rule but the one that the place names could have a fault there. -/
theorem Cures.of_rule {c' : Chain} {p : Issue.Place} (id : StandardId)
    (hrule : p.ruleId = id.text) (hnoWorse : c.NoWorse c') (hdist : c'.DistinctNames)
    (hgone : p ∉ id.faults c') : c.Cures c' p where
  noWorse := hnoWorse
  distinct := hdist
  gone id' hp := by
    obtain rfl : id = id' :=
      StandardId.text_injective (hrule.symm.trans (StandardId.ruleId_of_mem_faults hp))
    exact hgone hp

/-! ## Repairs of sections -/

/-- The section of an error is the only one that has its name. -/
theorem eq_of_isNamed (hdist : c.DistinctNames) {s x : Section} (hs : s ∈ c.sections)
    (hx : x ∈ c.sections) (hname : x.isNamed s.name = true) : x = s := by
  have hfound := section?_of_mem hdist hx hname
  rw [section?_of_mem hdist hs (Text.sameName_refl s.name)] at hfound
  exact (Option.some.inj hfound).symm

theorem cures_modifySection (hdist : c.DistinctNames) {r : Repair}
    (hrepair : id.repair? {} = some r) (hlocal : id.kind.isLocal = true) {s : Section}
    (hs : s ∈ c.sections) (hblames : id.blames s = true) :
    c.Cures (c.modifySection s.name r.onSection) ⟨id.text, some s.name, some id.blamed⟩ := by
  have hcases : ∀ s' ∈ (c.modifySection s.name r.onSection).sections,
      s' = r.onSection s ∨ s' ∈ c.sections ∧ s'.isNamed s.name = false := by
    rw [sections_modifySection hdist]
    intro s' hs'
    obtain ⟨x, hx, rfl⟩ := List.mem_map.mp hs'
    cases hname : x.isNamed s.name with
    | true => exact .inl (by rw [if_pos rfl, eq_of_isNamed hdist hs hx hname])
    | false => exact .inr ⟨hx, hname⟩
  have hnames := names_modifySection c s.name r.name_onSection
  refine Cures.of_rule id rfl ?noWorse ?distinct ?gone
  case noWorse =>
    constructor
    case sections =>
      intro s' hs'
      rcases hcases s' hs' with rfl | ⟨hold, -⟩
      · exact .inl ⟨s, hs, (r.name_onSection s).symm, fun id' hafter =>
          (StandardId.blames_onSection hrepair hlocal hblames hafter).1⟩
      · exact .inl ⟨s', hold, rfl, fun _ h => h⟩
    case projects =>
      intro name hhas
      rwa [hasSection_iff, hnames, ← hasSection_iff]
    case version =>
      refine RuleSet.complains_of_stored? rfl (RuleSet.anyMode_of_modes fun s' hs' => ?_)
      rcases hcases s' hs' with rfl | ⟨hold, -⟩
      · rw [Repair.get?_onSection]
        have hleaves := Catalog.leavesProperty?_eq {} Property.mode id
        rw [StandardId.leavesProperty?, hrepair, Option.bind_some] at hleaves
        rcases hleaves with hnone | hsource
        · exact .inl ⟨s, hs, by rw [hnone, Option.getD_none]⟩
        · exact .inr (by rw [hsource]; rfl)
      · exact .inl ⟨s', hold, rfl⟩
    case numbers => exact fun _ _ h => h
    case flags => exact List.Subset.refl _
  case distinct =>
    rw [DistinctNames, hnames]
    exact hdist
  case gone =>
    intro hp
    obtain ⟨s', hs', hblames', hplace⟩ := (StandardId.mem_faults_of_isLocal hlocal).mp hp
    rcases hcases s' hs' with rfl | ⟨-, hother⟩
    · exact (StandardId.blames_onSection hrepair hlocal hblames hblames').2 rfl
    · have hname : s.name = s'.name := by simpa using hplace
      rw [Section.isNamed, hname, Text.sameName_refl] at hother
      cases hother

/-! ## Repairs of versions and flags -/

/-- A chain with a version set to its fallback. -/
def resetAt (c : Chain) (key : String) : Chain :=
  { c with globals := Repair.store c.globals key (Catalog.fallback {} key) }

theorem lacksNumber_resetAt (c : Chain) {key k : String}
    (hk : k ∈ [GlobalKey.version, GlobalKey.devVersion]) :
    (c.resetAt key).globals.lacksNumber k = (k != key && c.globals.lacksNumber k) := by
  have hstored := Repair.stored?_store hk c.globals key (Catalog.fallback {} key)
  by_cases hkey : k = key
  · rw [if_pos hkey] at hstored
    obtain ⟨n, hn⟩ := Catalog.usable_default.fallback key
    rw [resetAt, Globals.lacksNumber_of_number hstored hn, hkey, bne_self_eq_false, Bool.false_and]
  · rw [if_neg hkey] at hstored
    rw [resetAt, Globals.lacksNumber_congr hstored, bne_iff_ne.mpr hkey, Bool.true_and]

/-- Binary projects can be built from the fallback version. -/
theorem complains_resetAt (c : Chain) (key : String) :
    Rule.Wording.complains {} {} (c.resetAt key) =
      (key != GlobalKey.version && Rule.Wording.complains {} {} c) := by
  have hstored := Repair.stored?_store (k := GlobalKey.version) (by decide) c.globals key
    (Catalog.fallback {} key)
  by_cases hkey : key = GlobalKey.version
  · rw [if_pos hkey.symm] at hstored
    obtain ⟨n, hn, hband⟩ := Catalog.usable_default.version
    have hat : (c.resetAt key).globals.versionAt? GlobalKey.version =
        some ({} : Catalog).defaultVersion := by
      subst hkey
      exact Globals.versionAt?_of_number hstored hn
    rw [Rule.Wording.complains, Rule.versionComplaint?, hat]
    simp [Text.trim_of_readNumber hn, hn, hband, hkey]
  · rw [if_neg (Ne.symm hkey)] at hstored
    rw [bne_iff_ne.mpr hkey, Bool.true_and, Rule.Wording.complains, Rule.versionComplaint?,
      resetAt, Globals.versionAt?_congr hstored]
    rfl

theorem noWorse_resetAt (c : Chain) (key : String) : c.NoWorse (c.resetAt key) where
  sections s hs := .inl ⟨s, hs, rfl, fun _ h => h⟩
  projects _ h := h
  version h := by
    rw [complains_resetAt, Bool.and_eq_true] at h
    exact h.2
  numbers k hk h := by
    rw [lacksNumber_resetAt c hk, Bool.and_eq_true] at h
    exact h.2
  flags := List.Subset.refl _

theorem cures_resetAt_version (hdist : c.DistinctNames) :
    c.Cures (c.resetAt GlobalKey.version)
      ⟨StandardId.globalVersionWhenBinary.text, none, some GlobalKey.version⟩ := by
  refine Cures.of_rule .globalVersionWhenBinary rfl (c.noWorse_resetAt _) hdist fun hp => ?_
  rw [StandardId.faults, complains_resetAt, bne_self_eq_false, Bool.false_and] at hp
  cases hp

theorem cures_resetAt_number (hdist : c.DistinctNames) (key : String) :
    c.Cures (c.resetAt key) ⟨StandardId.buildNumberRange.text, none, some key⟩ := by
  refine Cures.of_rule .buildNumberRange rfl (c.noWorse_resetAt _) hdist fun hp => ?_
  obtain ⟨k, hk, hplace⟩ := List.mem_map.mp hp
  obtain ⟨hkey, hlacks⟩ := List.mem_filter.mp hk
  have hsame : k = key := by simpa using hplace
  rw [lacksNumber_resetAt c hkey, hsame, bne_self_eq_false] at hlacks
  cases hlacks

theorem cures_setFlag (hdist : c.DistinctNames) (suite : String) (enabled : Bool) :
    c.Cures (c.setFlag suite enabled) ⟨StandardId.integrationTests.text, none, some suite⟩ := by
  have hkeys : (c.setFlag suite enabled).rawFlags.keys =
      c.rawFlags.keys.filter fun key => key != suite := OrderedMap.keys_erase _ _
  refine Cures.of_rule .integrationTests rfl ?noWorse hdist ?gone
  case noWorse =>
    constructor
    case sections => exact fun s hs => .inl ⟨s, hs, rfl, fun _ h => h⟩
    case projects => exact fun _ h => h
    case version => exact fun h => h
    case numbers => exact fun _ _ h => h
    case flags =>
      rw [hkeys]
      exact List.filter_subset_self _
  case gone =>
    intro hp
    obtain ⟨suite', hsuite, hplace⟩ := List.mem_map.mp hp
    obtain rfl : suite' = suite := by simpa using hplace
    rw [hkeys] at hsuite
    simpa using (List.mem_filter.mp hsuite).2

/-! ## Adding the missing projects -/

theorem blames_defaultSection (name : String) (id : StandardId) :
    id.blames (Fixer.defaultSection {} name) = false := by
  by_cases hid : id = .contentStageBranch
  · rw [hid]
    exact StandardId.blames_contentStageBranch_of_integration
      (Section.nonBlank?_of_get? (by rw [get?_defaultSection]; rfl) (by decide))
  · rw [StandardId.blames_of_ne hid]
    exact finds_defaultSection Catalog.usable_default name id

theorem cures_complete {f : Fixer} (hcat : f.catalog = {}) (hdist : c.DistinctNames)
    {named : List String} (hnamed : named ⊆ Order.standard.missing c) (name : String) :
    c.Cures (f.complete c named).1 ⟨StandardId.requiredProjects.text, some name, none⟩ := by
  have horder : f.catalog.order = Order.standard := by rw [hcat]
  have heq := Fixer.complete_missing (f := f) (c := c) (by rw [horder]; decide +kernel)
    (by rw [horder]; exact hnamed)
  have hsections : ∀ s' ∈ (f.complete c named).1.sections, s' ∈ c.sections ∨
      ∃ n, s' = Fixer.defaultSection {} n := by
    rw [heq]
    intro s' hs'
    rw [Order.mem_sections_reorder, List.mem_append] at hs'
    refine hs'.imp_right fun hadded => ?_
    obtain ⟨n, -, rfl⟩ := List.mem_map.mp hadded
    exact ⟨n, by rw [hcat]⟩
  refine Cures.of_rule .requiredProjects rfl ?noWorse ?distinct ?gone
  case noWorse =>
    constructor
    case sections =>
      intro s' hs'
      rcases hsections s' hs' with hold | ⟨n, rfl⟩
      · exact .inl ⟨s', hold, rfl, fun _ h => h⟩
      · exact .inr (blames_defaultSection n)
    case projects =>
      intro n hhas
      rw [heq, Fixer.hasSection_reorder, Fixer.hasSection_append_defaults, hhas, Bool.true_or]
    case version =>
      refine RuleSet.complains_of_stored? (by rw [heq]; rfl)
        (RuleSet.anyMode_of_modes fun s' hs' => ?_)
      rcases hsections s' hs' with hold | ⟨n, rfl⟩
      · exact .inl ⟨s', hold, rfl⟩
      · exact .inr (by rw [get?_defaultSection]; rfl)
    case numbers =>
      intro key _ h
      rwa [heq] at h
    case flags =>
      rw [heq]
      exact List.Subset.refl _
  case distinct => exact Fixer.distinctNames_complete hdist
  case gone =>
    intro hp
    obtain ⟨n, hn, -⟩ := List.mem_map.mp hp
    obtain ⟨hcanonical, hmissing⟩ := Fixer.mem_missing.mp hn
    rw [Fixer.hasSection_complete (horder ▸ hcanonical)] at hmissing
    cases hmissing

end Chain

namespace Fixer

variable {c : Chain} {i : Issue} {id : StandardId} {r : Repair}

/-! ## One fix -/

/-- An error that can be fixed is at a fault of one of the rules that come with a repair. -/
theorem exists_fault (hi : i ∈ RuleSet.standard.fixables c) :
    ∃ id : StandardId, i.place ∈ id.faults c ∧ id ≠ .contentStageBranch ∧ i.fixable = true := by
  obtain ⟨hissue, hseverity, hfixable⟩ := RuleSet.mem_fixables.mp hi
  have hplace : i.place ∈ (Validator.standard.validate c).errorPlaces :=
    List.mem_map_of_mem (List.mem_filter.mpr ⟨hissue, Rule.isError_of_severity hseverity⟩)
  rw [Rule.errorPlaces_standard] at hplace
  obtain ⟨id, -, hfault⟩ := List.mem_flatMap.mp hplace
  refine ⟨id, hfault, ?_, hfixable⟩
  rintro rfl
  obtain ⟨rule, hrule, hrepairable⟩ := List.mem_flatMap.mp hi
  have hid : rule.id = StandardId.contentStageBranch.text :=
    (Rule.ruleId_of_mem_repairable hrepairable).symm.trans (StandardId.ruleId_of_mem_faults hfault)
  have hkind := RuleSet.Tuned.standard.kind_eq hrule hid
  obtain ⟨-, -, s, -, -, hfinds⟩ :=
    Rule.mem_repairable_of_isLocal (by rw [hkind]; rfl) hrepairable
  rw [hkind] at hfinds
  cases hfinds

theorem applyFixes_singleton {f : Fixer} (hfixable : i.fixable = true)
    (hasks : f.asksForSection i = false) (c : Chain) : f.applyFixes c [i] = f.repairAll c [i] := by
  simp [applyFixes, hfixable, hasks]

theorem exists_repair? (hlocal : id.kind.isLocal = true) (hne : id ≠ .contentStageBranch)
    {s : Section} (hblames : id.blames s = true) : ∃ r, id.repair? {} = some r := by
  rw [StandardId.blames_of_ne hne] at hblames
  cases id <;> first | exact ⟨_, rfl⟩ | cases hblames

theorem mend_eq_after (hrule : i.ruleId = id.text) (hrepair : id.repair? {} = some r) (c : Chain) :
    (ofRuleSet .standard).mend c i = r.after c i := by
  have hget : (ofRuleSet .standard).repairs.get? i.ruleId = some r := by
    rw [hrule, RuleSet.get?_repairs]
    exact hrepair
  rw [mend_eq, hget, Option.map_some, Option.getD_some]

theorem after_of_isLocal (hrepair : id.repair? {} = some r) (hlocal : id.kind.isLocal = true)
    {name : String} (hname : i.sectionName = some name) (c : Chain) :
    r.after c i = c.modifySection name r.onSection := by
  cases id <;> first | (cases hlocal; done) | (cases hrepair; done) | skip
  all_goals
    cases hrepair
    first
      | (rw [Repair.after_setProperty, hname]; rfl)
      | (rw [Repair.after_removeProperty, hname]; rfl)

/-- Whatever an error is about, its repair has dealt with it. -/
theorem cures_mend (hdist : c.DistinctNames) (hfault : i.place ∈ id.faults c)
    (hne : id ≠ .contentStageBranch) (hprojects : id ≠ .requiredProjects) :
    c.Cures ((ofRuleSet .standard).mend c i) i.place := by
  have hrule : i.ruleId = id.text := StandardId.ruleId_of_mem_faults hfault
  by_cases hlocal : id.kind.isLocal = true
  · obtain ⟨s, hs, hblames, hplace⟩ := (StandardId.mem_faults_of_isLocal hlocal).mp hfault
    obtain ⟨r, hrepair⟩ := exists_repair? hlocal hne hblames
    have hname : i.sectionName = some s.name := congrArg Issue.Place.sectionName hplace
    rw [mend_eq_after hrule hrepair, after_of_isLocal hrepair hlocal hname, hplace]
    exact Chain.cures_modifySection hdist hrepair hlocal hs hblames
  · cases id with
    | requiredProjects => exact absurd rfl hprojects
    | globalVersionWhenBinary =>
      have hplace : i.place = ⟨StandardId.globalVersionWhenBinary.text, none,
          some GlobalKey.version⟩ := by
        rw [StandardId.faults] at hfault
        split at hfault
        · exact List.mem_singleton.mp hfault
        · cases hfault
      have hafter : (Repair.setGlobal GlobalKey.version ({} : Catalog).defaultVersion).after c i =
          c.resetAt GlobalKey.version := Repair.after_of_setVersion rfl
      rw [mend_eq_after hrule rfl, hafter, hplace]
      exact Chain.cures_resetAt_version hdist
    | buildNumberRange =>
      obtain ⟨key, -, hplace⟩ := List.mem_map.mp hfault
      have htarget : i.target = some key := congrArg Issue.Place.target hplace.symm
      rw [mend_eq_after hrule rfl, Repair.after_resetVersion, htarget, ← hplace]
      exact Chain.cures_resetAt_number hdist key
    | integrationTests =>
      obtain ⟨suite, -, hplace⟩ := List.mem_map.mp hfault
      have htarget : i.target = some suite := congrArg Issue.Place.target hplace.symm
      rw [mend_eq_after hrule rfl, Repair.after_setFlag, htarget, ← hplace]
      exact Chain.cures_setFlag hdist suite false
    | globalDevVersionRequired =>
      obtain ⟨s, hs, -⟩ := List.mem_map.mp hfault
      cases (List.mem_filter.mp hs).2
    | _ => exact absurd rfl hlocal

theorem cures_applyFixes (hdist : c.DistinctNames) (hi : i ∈ RuleSet.standard.fixables c) :
    c.Cures ((ofRuleSet .standard).applyFixes c [i]).1 i.place ∧
      0 < ((ofRuleSet .standard).applyFixes c [i]).2 := by
  obtain ⟨id, hfault, hne, hfixable⟩ := exists_fault hi
  have hrule : i.ruleId = id.text := StandardId.ruleId_of_mem_faults hfault
  have hasks := RuleSet.Tuned.standard.asksForSection_iff (s := .standard) (i := i)
  by_cases hprojects : id = .requiredProjects
  · subst hprojects
    obtain ⟨name, hmissing, hplace⟩ := List.mem_map.mp hfault
    have hname : i.sectionName = some name := congrArg Issue.Place.sectionName hplace.symm
    rw [applyFixes_of_asking (List.cons_ne_nil i []) fun j hj => by
        rw [List.mem_singleton.mp hj]
        exact ⟨hfixable, hasks.mpr hrule, name, hname⟩,
      List.filterMap_cons_some hname, List.filterMap_nil, ← hplace]
    refine ⟨Chain.cures_complete rfl hdist (fun n hn => ?_) name, complete_count_pos
      List.mem_cons_self (mem_missing.mp hmissing).2⟩
    rw [List.mem_singleton.mp hn]
    exact hmissing
  · have hquiet : (ofRuleSet .standard).asksForSection i = false := by
      rw [← Bool.not_eq_true, hasks, hrule]
      exact fun htext => hprojects (StandardId.text_injective htext)
    have hcures := cures_mend hdist hfault hne hprojects
    have hmend : ((ofRuleSet .standard).repairAll c [i]).1 = (ofRuleSet .standard).mend c i :=
      repairAll_fst _ c [i]
    rw [applyFixes_singleton hfixable hquiet, hmend]
    refine ⟨hcures, Nat.pos_of_ne_zero fun hzero => ?_⟩
    -- a run that fixes nothing would have left the error where it was
    rw [← hmend, (repairAll_of_count_eq_zero hzero).1] at hcures
    exact hcures.gone id hfault

/-- Fixing one error and nothing else. -/
structure Progresses (f : Fixer) (v : Validator) (c : Chain) (i : Issue) : Prop where
  counted : 1 ≤ (f.applyFixes c [i]).2
  /-- No error is raised that was not raised before. -/
  subset : (v.validate (f.applyFixes c [i]).1).errorPlaces ⊆ (v.validate c).errorPlaces
  gone : i.place ∉ (v.validate (f.applyFixes c [i]).1).errorPlaces
  fewer : (v.validate (f.applyFixes c [i]).1).errorCount < (v.validate c).errorCount

/-- Every error of the standard rules that can be fixed is fixed when nothing else is, and fixing it
brings up no other error. -/
theorem applyFixes_progresses (hdist : c.DistinctNames)
    (hi : i ∈ (Validator.standard.validate c).issues) (hseverity : i.severity = .error)
    (hfixable : i.fixable = true) :
    (ofRuleSet .standard).Progresses Validator.standard c i := by
  have hrepair := RuleSet.mem_fixables.mpr ⟨hi, hseverity, hfixable⟩
  obtain ⟨hcures, hcount⟩ := cures_applyFixes hdist hrepair
  obtain ⟨id, hfault, -⟩ := exists_fault hrepair
  have hsubset : (StandardId.all.flatMap fun id =>
      id.faults ((ofRuleSet .standard).applyFixes c [i]).1) ⊆
      StandardId.all.flatMap fun id => id.faults c := by
    intro p hp
    obtain ⟨id', hid', hp⟩ := List.mem_flatMap.mp hp
    exact List.mem_flatMap.mpr ⟨id', hid', hcures.noWorse.faults_subset id' hp⟩
  have hgone : i.place ∉ StandardId.all.flatMap fun id =>
      id.faults ((ofRuleSet .standard).applyFixes c [i]).1 := by
    intro hp
    obtain ⟨id', -, hp⟩ := List.mem_flatMap.mp hp
    exact hcures.gone id' hp
  constructor
  case counted => exact hcount
  case subset =>
    rw [Rule.errorPlaces_standard, Rule.errorPlaces_standard]
    exact hsubset
  case gone =>
    rw [Rule.errorPlaces_standard]
    exact hgone
  case fewer =>
    rw [Report.errorCount_eq, Report.errorCount_eq, Rule.errorPlaces_standard,
      Rule.errorPlaces_standard]
    -- no place comes twice, so the old places are the new ones and at least the one that is gone
    have hnodup := List.nodup_cons.mpr
      ⟨hgone, StandardId.nodup_flatMap_faults hcures.distinct⟩
    have hold : i.place ∈ StandardId.all.flatMap fun id => id.faults c :=
      List.mem_flatMap.mpr ⟨id, by cases id <;> decide, hfault⟩
    exact (List.Nodup.subperm hnodup (List.cons_subset.mpr ⟨hold, hsubset⟩)).length_le

/-- A tag is dropped beside a branch while other errors stay: a mode that is none, a version that is
no number, a flag that is no boolean and all the projects that are missing. -/
theorem applyFixes_progresses_exclusive :
    let c : Chain := {
      globals := { version := some "seven" }
      sections := [⟨"Content", .ofList [("mode", "fast"), ("branch", "stage"), ("tag", "1.0")]⟩,
        ⟨"olap", .ofList [("mode", "binary"), ("branch", "main")]⟩]
      rawFlags := .ofList [("slow", "maybe")] }
    c.DistinctNames ∧ ∃ i ∈ (Validator.standard.validate c).issues,
      i.severity = .error ∧ i.fixable = true ∧
        i.place = ⟨"BranchTagExclusive", some "Content", some "branch,tag"⟩ ∧
          (ofRuleSet .standard).Progresses Validator.standard c i := by
  intro c
  have hdist : c.DistinctNames := by decide +kernel
  have hexists : ∃ i ∈ (Validator.standard.validate c).issues,
      i.severity = .error ∧ i.fixable = true ∧
        i.place = ⟨"BranchTagExclusive", some "Content", some "branch,tag"⟩ := by decide +kernel
  obtain ⟨i, hi, hseverity, hfixable, hplace⟩ := hexists
  exact ⟨hdist, i, hi, hseverity, hfixable, hplace,
    applyFixes_progresses hdist hi hseverity hfixable⟩

end Fixer

end BuildChain
