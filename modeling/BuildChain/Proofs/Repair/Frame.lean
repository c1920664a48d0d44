import BuildChain.Proofs.Repair.Convergence

/-!
# What fixing spares

Fixing repairs what the first report asks for, and nothing else. The repairs of a pass are tried on
a report of its own, so what has to be shown is that no repair gives a rule something new to find in
what was in order. A rule that looks at one section finds in it what it found before, an added
section is what its repairs would make of it, and no repair makes a project a binary one.
-/

namespace BuildChain

open Rule (StandardId)

namespace Property

/-- The suffixes that the standard repairs write or remove. -/
def repairable : List String := [mode, devMode, branch, tag, fork]

end Property

theorem Rule.StandardId.mem_repairable_of_leavesProperty? {cat : Catalog} {id : StandardId}
    {p : String} {w : Option String} (h : id.leavesProperty? cat p = some w) :
    p ∈ Property.repairable := by
  unfold leavesProperty? at h
  cases id <;>
    simp only [repair?, Repair.leavesProperty?, Option.bind_some, Option.bind_none, reduceCtorEq,
      Option.ite_none_right_eq_some] at h <;>
    exact h.1 ▸ by decide

/-! ## Flags -/

namespace Chain

/-- Flags that fixing may leave of those of a chain: some suites with a text that is no boolean have
lost it and are switched off, behind the flags that were there. -/
def SparesFlags (c c' : Chain) : Prop :=
  ∃ settled : List String, (∀ suite ∈ settled, suite ∈ c.rawFlags.keys) ∧
    c'.flags.toList = c.flags.toList ++ settled.map (fun suite => (suite, false)) ∧
    c'.rawFlags.toList = c.rawFlags.toList.filter fun e => !settled.contains e.1

variable {c₀ c : Chain} {suite : String}

theorem SparesFlags.refl (c : Chain) : c.SparesFlags c :=
  ⟨[], by simp, by simp, by simp⟩

theorem SparesFlags.mem_rawFlags (h : c₀.SparesFlags c) (hsuite : suite ∈ c.rawFlags.keys) :
    suite ∈ c₀.rawFlags.keys := by
  obtain ⟨settled, -, -, hraw⟩ := h
  rw [OrderedMap.keys, hraw] at hsuite
  exact (List.filter_sublist.map Prod.fst).subset hsuite

/-- Switching off a suite that had a text at first. Where it was done before, it changes nothing. -/
theorem SparesFlags.setFlag (h : c₀.SparesFlags c)
    (hsuites : ∀ suite ∈ c₀.flags.keys, suite ∉ c₀.rawFlags.keys)
    (hsuite : suite ∈ c₀.rawFlags.keys) : c₀.SparesFlags (c.setFlag suite false) := by
  obtain ⟨settled, hsettled, hflags, hraw⟩ := h
  by_cases hdone : suite ∈ settled
  · have hflag : c.flags.get? suite = some false := by
      rw [← OrderedMap.mem_toList_iff, hflags]
      exact List.mem_append_right _ (List.mem_map_of_mem hdone)
    have hnone : c.rawFlags.get? suite = none := by
      rw [OrderedMap.get?_eq_none_iff, OrderedMap.keys, hraw]
      intro hmem
      obtain ⟨e, he, rfl⟩ := List.mem_map.mp hmem
      simpa [hdone] using (List.mem_filter.mp he).2
    rw [Chain.setFlag, OrderedMap.insert_self hflag, OrderedMap.erase_eq_self hnone]
    exact ⟨settled, hsettled, hflags, hraw⟩
  · have hnew : suite ∉ c.flags.keys := by
      rw [OrderedMap.keys, hflags, List.map_append, List.mem_append]
      rintro (hold | hmem)
      · exact hsuites suite hold hsuite
      · obtain ⟨e, he, rfl⟩ := List.mem_map.mp hmem
        obtain ⟨suite, hold, rfl⟩ := List.mem_map.mp he
        exact hdone hold
    refine ⟨settled ++ [suite], fun n hn => ?_, ?_, ?_⟩
    · rcases List.mem_append.mp hn with hn | hn
      · exact hsettled n hn
      · exact List.mem_singleton.mp hn ▸ hsuite
    · rw [Chain.setFlag, OrderedMap.toList_insert_of_not_mem hnew, hflags, List.map_append,
        List.append_assoc]
      rfl
    · rw [Chain.setFlag, OrderedMap.toList_erase, hraw, List.filter_filter]
      refine List.filter_congr fun e _ => ?_
      by_cases he : e.1 = suite <;> simp [he]

end Chain

/-! ## A run of repairs -/

namespace Fixer

variable {c : Chain}

theorem recipients_source_run (f : Fixer) (c : Chain) (issues : List Issue) :
    (issues.foldl f.mend c).globals.recipients = c.globals.recipients ∧
      (issues.foldl f.mend c).source = c.source := by
  refine List.foldlRecOn issues f.mend (motive := fun b =>
    b.globals.recipients = c.globals.recipients ∧ b.source = c.source) ⟨rfl, rfl⟩
    fun b hb i _ => ?_
  rw [mend_eq]
  cases f.repairs.get? i.ruleId with
  | none => exact hb
  | some r =>
    obtain ⟨hrecipients, hsource⟩ := r.recipients_source_after b i
    exact ⟨hrecipients.trans hb.1, hsource.trans hb.2⟩

end Fixer

namespace RuleSet

variable {s : RuleSet} {c₀ c : Chain} {x : Section}

/-- A section stays as it is if every repair of a fault that is found in it would leave it so. -/
theorem Tuned.mended_eq_self (h : Tuned s.catalog s) (hdist : c.DistinctNames)
    (hx : x ∈ c.sections)
    (hkeep : ∀ r ∈ s.rules, r.IsStrict → ∀ id : StandardId, r.id = id.text →
      id.kind.finds x = true → ∀ p, id.repair? s.catalog = some p → p.onSection x = x) :
    s.mended c x = x := by
  refine List.foldlRecOn _ _ (motive := fun y => y = x) rfl fun y hy i hi => ?_
  subst hy
  obtain ⟨-, -, id, -, -, -, hid⟩ := h.mem_toRepair hi
  unfold Fixer.mendSection
  split
  · rename_i hconcerns
    rw [hid, get?_repairs]
    cases hp : id.repair? s.catalog with
    | none => rfl
    | some p =>
      by_cases hlocal : id.kind.isLocal = true
      · obtain ⟨hfinds, r, hr, hrid, hstrict⟩ :=
          h.finds_of_concerns hdist hx hi hid hlocal hconcerns
        exact hkeep r hr hstrict id hrid hfinds p hp
      · cases id <;> first | exact (hlocal rfl).elim | (cases hp <;> rfl)
  · rfl

/-- A section that no strict rule finds a fault in is left alone. -/
theorem Tuned.mended_of_finds (h : Tuned s.catalog s) (hdist : c.DistinctNames)
    (hx : x ∈ c.sections) (hquiet : ∀ r ∈ s.rules, r.IsStrict → r.kind.finds x = false) :
    s.mended c x = x := by
  refine h.mended_eq_self hdist hx fun r hr hstrict id hid hfinds => ?_
  rw [← h.kind_eq hr hid, hquiet r hr hstrict] at hfinds
  cases hfinds

/-- An added section has the branch already that its one possible repair would set. -/
theorem Tuned.mended_defaultSection (h : Tuned s.catalog s) (hdist : c.DistinctNames)
    {name : String} (hx : Fixer.defaultSection s.catalog name ∈ c.sections) :
    s.mended c (Fixer.defaultSection s.catalog name) = Fixer.defaultSection s.catalog name := by
  refine h.mended_eq_self hdist hx fun r _ _ id _ hfinds p hp => ?_
  by_cases hid : id = .branchOrTagRequired
  · subst hid
    cases hp
    exact Section.set_self (by rw [get?_defaultSection]; rfl)
  · rw [finds_defaultSection_of_ne hid] at hfinds
    cases hfinds

/-- The flags after a run, where the issues are those of a chain that fixing has come to. -/
theorem Tuned.sparesFlags_repaired (h : Tuned s.catalog s)
    (hsuites : ∀ suite ∈ c₀.flags.keys, suite ∉ c₀.rawFlags.keys) (hc : c₀.SparesFlags c) :
    c₀.SparesFlags (s.repaired c) := by
  refine List.foldlRecOn _ _ (motive := c₀.SparesFlags) hc fun b hb i hi => ?_
  obtain ⟨r, -, id, -, hkind, hir, hid⟩ := h.mem_toRepair hi
  rw [Fixer.mend_eq, hid, get?_repairs]
  cases hp : id.repair? s.catalog with
  | none => exact hb
  | some p =>
    rcases p.flags_after b i with ⟨hflags, hraw⟩ | ⟨enabled, suite, rfl, htarget, hset⟩
    · obtain ⟨settled, hsettled, hb, hb'⟩ := hb
      exact ⟨settled, hsettled, (congrArg _ hflags).trans hb, (congrArg _ hraw).trans hb'⟩
    · obtain ⟨rfl, rfl⟩ : id = .integrationTests ∧ enabled = false := by
        cases id <;> cases hp
        exact ⟨rfl, rfl⟩
      obtain ⟨-, -, suite', value, hvalue, htarget'⟩ := Rule.mem_repairable_testSuites hkind hir
      obtain rfl : suite = suite' := Option.some.inj (htarget.symm.trans htarget')
      have hmem : suite ∈ c.rawFlags.keys := OrderedMap.mem_keys_iff.mpr (by rw [hvalue]; rfl)
      rw [Option.map_some, Option.getD_some, hset]
      exact hb.setFlag hsuites (hc.mem_rawFlags hmem)

/-! ## Versions -/

/-- Whether the report on a chain has an error about the version under a key that a repair can be
tried on. Issues about test suites do not count: a suite may have the name of the key. -/
def ReportsVersion (s : RuleSet) (c : Chain) (key : String) : Prop :=
  ∃ i ∈ ((Validator.ofRuleSet s).validate c).issues,
    i.severity = .error ∧ i.fixable = true ∧ i.target = some key ∧
      (i.ruleId = StandardId.globalVersionWhenBinary.text ∨
        i.ruleId = StandardId.buildNumberRange.text)

theorem reportsVersion_iff {key : String} : s.ReportsVersion c key ↔
    ∃ i ∈ s.fixables c, i.target = some key ∧
      (i.ruleId = StandardId.globalVersionWhenBinary.text ∨
        i.ruleId = StandardId.buildNumberRange.text) := by
  simp only [ReportsVersion, mem_fixables, and_assoc]

/-- A pass changes a version that the report has an error about, or fills in the developer version
where there is none. -/
theorem Tuned.stored?_pass (h : Tuned s.catalog s) {key : String}
    (hkey : key ∈ [GlobalKey.version, GlobalKey.devVersion]) (c : Chain) :
    (s.pass c).1.globals.stored? key = c.globals.stored? key ∨ s.ReportsVersion c key ∨
      key = GlobalKey.devVersion ∧ c.globals.versionAt? GlobalKey.devVersion = none := by
  obtain ⟨front, hfront, -, hcases⟩ := h.repaired_cases c
  rw [h.globals_pass]
  rcases h.stored?_run hfront hkey with ⟨⟨i, hi, hleaves⟩, -⟩ | ⟨-, hsame⟩
  · refine .inr (.inl (reportsVersion_iff.mpr ⟨i, ?_, ?_⟩))
    · exact (List.mem_filter.mp (hfront i hi).1).1
    · obtain ⟨r, -, id, -, hkind, hir, hid⟩ := h.mem_toRepair (hfront i hi).1
      rw [hid, get?_repairs] at hleaves
      cases id with
      | globalVersionWhenBinary =>
        obtain ⟨-, -, htarget, -⟩ := Rule.mem_repairable_version hkind hir
        obtain ⟨rfl, -⟩ := Option.ite_none_right_eq_some.mp hleaves
        exact ⟨htarget, .inl hid⟩
      | buildNumberRange => exact ⟨(Option.ite_none_right_eq_some.mp hleaves).1, .inr hid⟩
      | _ => cases hleaves
  · rcases hcases with ⟨hrepaired, -⟩ | hfilled
    · rw [hrepaired]
      exact .inl hsame
    · rw [hfilled]
      rcases List.mem_pair.mp hkey with rfl | rfl
      · exact .inl ((Repair.stored?_version_filled _ _).trans hsame)
      · unfold Repair.filled
        split
        · exact .inl hsame
        · rename_i hblank
          rw [Bool.not_eq_true, Option.isSome_eq_false_iff, Option.isNone_iff_eq_none,
            Globals.versionAt?_congr hsame] at hblank
          exact .inr (.inr ⟨rfl, hblank⟩)

/-- An error about a version was there before if the version was, and the binary projects. -/
theorem Tuned.reportsVersion_of (h : Tuned s.catalog s) {key : String}
    (hsame : c.globals.stored? key = c₀.globals.stored? key)
    (hany : c.anyMode BuildMode.binary.text = true → c₀.anyMode BuildMode.binary.text = true)
    (hreports : s.ReportsVersion c key) : s.ReportsVersion c₀ key := by
  obtain ⟨i, hi, htarget, hid⟩ := reportsVersion_iff.mp hreports
  obtain ⟨r, hr, hir⟩ := List.mem_flatMap.mp hi
  rw [Rule.ruleId_of_mem_repairable hir] at hid
  rw [reportsVersion_iff]
  rcases hid with hid | hid
  · obtain ⟨hstrict, -, htarget', hcomplains⟩ :=
      Rule.mem_repairable_version (h.kind_eq hr hid) hir
    obtain rfl : key = GlobalKey.version := Option.some.inj (htarget.symm.trans htarget')
    obtain ⟨j, hj, hrule, hjtarget⟩ := Rule.exists_repairable_version (h.kind_eq hr hid) hstrict
      (complains_of_stored? hsame hany hcomplains)
    exact ⟨j, List.mem_flatMap.mpr ⟨r, hr, hj⟩, hjtarget, .inl (hrule.trans hid)⟩
  · obtain ⟨henabled, -, key', hkey, hlacks, htarget'⟩ :=
      Rule.mem_repairable_buildNumbers (h.kind_eq hr hid) hir
    obtain rfl : key = key' := Option.some.inj (htarget.symm.trans htarget')
    rw [Globals.lacksNumber_congr hsame] at hlacks
    obtain ⟨j, hj, hrule, hjtarget⟩ :=
      Rule.exists_repairable_buildNumbers (h.kind_eq hr hid) henabled hkey hlacks
    exact ⟨j, List.mem_flatMap.mpr ⟨r, hr, hj⟩, hjtarget, .inr (hrule.trans hid)⟩

/-! ## What fixing spares -/

/-- What fixing may make of a section of a chain. -/
structure SparesSection (s : RuleSet) (c : Chain) (x y : Section) : Prop where
  name : y.name = x.name
  /-- A section that no error to be repaired is about stays as it is. -/
  untouched : (∀ i ∈ ((Validator.ofRuleSet s).validate c).issues,
    i.severity = .error → i.fixable = true → i.concerns x.name = false) → y = x
  /-- In every other section, each property stays or is one of those that repairs are for. -/
  properties : ∀ p, y.get? p = x.get? p ∨
    p ∈ Property.repairable ∧ y.get? p = s.catalog.repaired p

/-- A chain that fixing may make of another one. -/
structure Spares (s : RuleSet) (c c' : Chain) : Prop where
  distinct : c'.DistinctNames
  /-- Every section is still there. -/
  kept : ∀ x ∈ c.sections, ∃ y ∈ c'.sections, s.SparesSection c x y
  /-- Every other section is the default one of a missing name that a rule requires. -/
  added : ∀ y ∈ c'.sections, (∃ x ∈ c.sections, s.SparesSection c x y) ∨
    ∃ name, y = Fixer.defaultSection s.catalog name ∧ s.Requires name ∧
      c.hasSection name = false
  flags : c.SparesFlags c'
  recipients : c'.globals.recipients = c.globals.recipients
  source : c'.source = c.source
  version : c'.globals.version = c.globals.version ∨ s.ReportsVersion c GlobalKey.version
  devVersion : c'.globals.devVersion = c.globals.devVersion ∨
    s.ReportsVersion c GlobalKey.devVersion ∨
      c.globals.versionAt? GlobalKey.devVersion = none

theorem SparesSection.refl (s : RuleSet) (c : Chain) (x : Section) : s.SparesSection c x x :=
  ⟨rfl, fun _ => rfl, fun _ => .inl rfl⟩

theorem Spares.refl (s : RuleSet) (hdist : c.DistinctNames) : s.Spares c c where
  distinct := hdist
  kept := fun x hx => ⟨x, hx, .refl s c x⟩
  added := fun y hy => .inl ⟨y, hy, .refl s c y⟩
  flags := .refl c
  recipients := rfl
  source := rfl
  version := .inl rfl
  devVersion := .inl rfl

theorem Spares.reorder {c' : Chain} (h : s.Spares c c') (o : Order) :
    s.Spares c (o.reorder c') where
  distinct := Fixer.distinctNames_reorder h.distinct
  kept := fun x hx => by
    obtain ⟨y, hy, hxy⟩ := h.kept x hx
    exact ⟨y, o.mem_sections_reorder.mpr hy, hxy⟩
  added := fun y hy => h.added y (o.mem_sections_reorder.mp hy)
  flags := h.flags
  recipients := h.recipients
  source := h.source
  version := h.version
  devVersion := h.devVersion

/-- No section is lost. -/
theorem Spares.hasSection (h : s.Spares c₀ c) {name : String}
    (hname : c₀.hasSection name = true) : c.hasSection name = true := by
  obtain ⟨x, hx, hnamed⟩ := List.any_eq_true.mp hname
  obtain ⟨y, hy, hxy⟩ := h.kept x hx
  refine List.any_eq_true.mpr ⟨y, hy, ?_⟩
  rwa [Section.isNamed, hxy.name]

/-- No project is made a binary one. -/
theorem Spares.anyMode (h : s.Spares c₀ c) (hany : c.anyMode BuildMode.binary.text = true) :
    c₀.anyMode BuildMode.binary.text = true := by
  refine anyMode_of_modes (fun y hy => ?_) hany
  rcases h.added y hy with ⟨x, hx, hxy⟩ | ⟨name, rfl, -⟩
  · rcases hxy.properties Property.mode with hsame | ⟨-, hrepaired⟩
    · exact .inl ⟨x, hx, hsame⟩
    · exact .inr hrepaired
  · exact .inr (by rw [get?_defaultSection]; rfl)

/-! ## Pass after pass -/

/-- A pass mends a section that is spared so far in a way that spares it. -/
theorem Tuned.sparesSection_mended (h : Tuned s.catalog s) {x y : Section}
    (hx : x ∈ c₀.sections) (hdist : c.DistinctNames) (hy : y ∈ c.sections)
    (hxy : s.SparesSection c₀ x y) : s.SparesSection c₀ x (s.mended c y) := by
  constructor
  case name => exact (Fixer.name_run _ y.name y _).trans hxy.name
  case untouched =>
    intro hnone
    obtain rfl := hxy.untouched hnone
    refine h.mended_of_finds hdist hy fun r hr hstrict => ?_
    -- A fault would have been found at first as well, and reported.
    rw [← Bool.not_eq_true]
    intro hfinds
    obtain ⟨i, hi, -, hname⟩ := Rule.exists_repairable_of_finds hstrict hx hfinds
    obtain ⟨hissue, hseverity, hfixable⟩ := mem_fixables.mp (List.mem_flatMap.mpr ⟨r, hr, hi⟩)
    have hconcerns := hnone i hissue hseverity hfixable
    rw [Issue.concerns, hname, Option.any_some, Text.sameName_refl] at hconcerns
    cases hconcerns
  case properties =>
    intro p
    rcases h.get?_mended hdist hy p with ⟨⟨id, hleaves, -⟩, hget⟩ | ⟨-, hget⟩
    · exact .inr ⟨StandardId.mem_repairable_of_leavesProperty? hleaves, hget⟩
    · rw [hget]
      exact hxy.properties p

/-- A version that is spared so far is spared by one more pass. -/
theorem Tuned.spares_stored? (h : Tuned s.catalog s) (hc : s.Spares c₀ c) {key : String}
    (hkey : key ∈ [GlobalKey.version, GlobalKey.devVersion])
    (hsame : c.globals.stored? key = c₀.globals.stored? key) :
    (s.pass c).1.globals.stored? key = c₀.globals.stored? key ∨ s.ReportsVersion c₀ key ∨
      key = GlobalKey.devVersion ∧ c₀.globals.versionAt? GlobalKey.devVersion = none := by
  rcases h.stored?_pass hkey c with hpass | hreports | ⟨rfl, hblank⟩
  · exact .inl (hpass.trans hsame)
  · exact .inr (.inl (h.reportsVersion_of hsame hc.anyMode hreports))
  · rw [Globals.versionAt?_congr hsame] at hblank
    exact .inr (.inr ⟨rfl, hblank⟩)

/-- One pass. -/
theorem Tuned.spares_pass (h : Tuned s.catalog s)
    (hsuites : ∀ suite ∈ c₀.flags.keys, suite ∉ c₀.rawFlags.keys) (hc : s.Spares c₀ c) :
    s.Spares c₀ (s.pass c).1 := by
  have hrun := Fixer.recipients_source_run (Fixer.ofRuleSet s) c (s.toRepair c)
  constructor
  case distinct => exact h.distinctNames_pass hc.distinct
  case kept =>
    intro x hx
    obtain ⟨y, hy, hxy⟩ := hc.kept x hx
    exact ⟨s.mended c y, h.mended_mem_sections_pass hc.distinct hy,
      h.sparesSection_mended hx hc.distinct hy hxy⟩
  case added =>
    intro z hz
    rcases h.mem_sections_pass hc.distinct hz with ⟨y, hy, rfl⟩ | ⟨name, rfl, hrequired, hnew⟩
    · rcases hc.added y hy with ⟨x, hx, hxy⟩ | ⟨name, rfl, hadded⟩
      · exact .inl ⟨x, hx, h.sparesSection_mended hx hc.distinct hy hxy⟩
      · exact .inr ⟨name, h.mended_defaultSection hc.distinct hy, hadded⟩
    · refine .inr ⟨name, rfl, hrequired, Bool.eq_false_iff.mpr fun hold => ?_⟩
      rw [hc.hasSection hold] at hnew
      cases hnew
  case flags =>
    rw [h.pass_fst_eq c]
    exact h.sparesFlags_repaired hsuites hc.flags
  case recipients =>
    rw [h.globals_pass]
    exact hrun.1.trans hc.recipients
  case source =>
    rw [h.pass_fst_eq c]
    exact hrun.2.trans hc.source
  case version =>
    rcases hc.version with hsame | hreports
    · rcases h.spares_stored? hc List.mem_cons_self hsame with hpass | hreports | ⟨hkey, -⟩
      · exact .inl hpass
      · exact .inr hreports
      · exact absurd hkey (by decide)
    · exact .inr hreports
  case devVersion =>
    rcases hc.devVersion with hsame | hexcused
    · rcases h.spares_stored? hc (List.mem_cons_of_mem _ List.mem_cons_self) hsame with
        hpass | hreports | ⟨-, hblank⟩
      · exact .inl hpass
      · exact .inr (.inl hreports)
      · exact .inr (.inr hblank)
    · exact .inr hexcused

/-- Any number of passes. -/
theorem Tuned.spares_passes (h : Tuned s.catalog s)
    (hsuites : ∀ suite ∈ c₀.flags.keys, suite ∉ c₀.rawFlags.keys) (n : Nat)
    (hc : s.Spares c₀ c) :
    s.Spares c₀ ((Fixer.ofRuleSet s).passes (Validator.ofRuleSet s) n c).1 := by
  induction n generalizing c with
  | zero => exact hc
  | succ n ih =>
    have hpass := h.spares_pass hsuites hc
    rw [passes_succ]
    split
    · exact hpass
    · exact ih hpass

end RuleSet

/-! ## Fixing everything -/

namespace Fixer

/-- Fixing everything changes only what the report on the chain asks for. -/
theorem fixAll_spares {cat : Catalog} {s : RuleSet} (hs : s.Tuned cat) {c : Chain}
    (hdist : c.DistinctNames) (hsuites : ∀ suite ∈ c.flags.keys, suite ∉ c.rawFlags.keys) :
    s.Spares c ((ofRuleSet s).fixAll (Validator.ofRuleSet s) c).1 := by
  obtain rfl := hs.catalog_eq
  exact (hs.spares_passes hsuites maxPasses (.refl s hdist)).reorder _

/-- One section of two is in order and stays, with a catalog whose repairs repair nothing. -/
theorem fixAll_spares_sound_section :
    let cat : Catalog := { defaultBranch := "", defaultVersion := "none" }
    let s := RuleSet.setEnabled { catalog := cat, rules := Rule.standard }
      StandardId.requiredProjects.text false
    let sound : Section := ⟨"Olap", .ofList [("tag", "v1"), ("mode", "source"), ("owner", "me")]⟩
    let c : Chain := {
      globals := { version := some "20000", recipients := some "team" }
      sections := [⟨"zeta", .ofList [("mode", "binary"), ("fork", "me")]⟩, sound]
      flags := .ofList [("api", true)]
      rawFlags := .ofList [("slow", "maybe")] }
    s.Tuned cat ∧ c.DistinctNames ∧ (∀ suite ∈ c.flags.keys, suite ∉ c.rawFlags.keys) ∧
      s.Spares c ((ofRuleSet s).fixAll (Validator.ofRuleSet s) c).1 ∧
      sound ∈ ((ofRuleSet s).fixAll (Validator.ofRuleSet s) c).1.sections := by
  intro cat s sound c
  have hs : s.Tuned cat := .setEnabled .standard _ _
  have hdist : c.DistinctNames := by decide +kernel
  have hsuites : ∀ suite ∈ c.flags.keys, suite ∉ c.rawFlags.keys := by decide +kernel
  have hquiet : ∀ i ∈ ((Validator.ofRuleSet s).validate c).issues,
      i.severity = .error → i.fixable = true → i.concerns sound.name = false := by decide +kernel
  have hspares := fixAll_spares hs hdist hsuites
  refine ⟨hs, hdist, hsuites, hspares, ?_⟩
  obtain ⟨y, hy, hsound⟩ := hspares.kept sound (by simp [c])
  rwa [hsound.untouched hquiet] at hy

end Fixer

end BuildChain
