import BuildChain.Proofs.Repair.Standard

/-!
# Versions and flags after a run

A version that a run touches ends at its fallback, which is a build number. The developer version
may also be filled in from the version, and it is so after everything else: the rule that asks for
it is checked last, and by then a version that is no build number has been replaced.
-/

namespace BuildChain

open Rule (StandardId)

/-! ## Stored versions -/

namespace Globals

variable {g g' : Globals} {key v : String} {n : Nat}

theorem versionAt?_congr (h : g.stored? key = g'.stored? key) :
    g.versionAt? key = g'.versionAt? key := by
  rw [versionAt?_eq, h, versionAt?_eq]

theorem lacksNumber_congr (h : g.stored? key = g'.stored? key) :
    g.lacksNumber key = g'.lacksNumber key := by
  rw [lacksNumber, versionAt?_congr h, lacksNumber]

theorem versionAt?_of_number (h : g.stored? key = some v) (hv : Text.readNumber v = some n) :
    g.versionAt? key = some v := by
  rw [versionAt?_eq, h, nonBlank?, Option.filter_some, Text.isBlank_of_readNumber hv]
  rfl

theorem lacksNumber_of_number (h : g.stored? key = some v) (hv : Text.readNumber v = some n) :
    g.lacksNumber key = false := by
  rw [lacksNumber, versionAt?_of_number h hv, Option.any_some, Text.trim_of_readNumber hv, hv]
  rfl

end Globals

namespace Catalog

/-- The version that a version key falls back to. -/
def fallback (cat : Catalog) (key : String) : String :=
  if key = GlobalKey.version then cat.defaultVersion else cat.defaultDevVersion

theorem Usable.fallback {cat : Catalog} (hcat : cat.Usable) (key : String) :
    ∃ n, Text.readNumber (cat.fallback key) = some n := by
  unfold Catalog.fallback
  split
  · obtain ⟨n, hn, -⟩ := hcat.version
    exact ⟨n, hn⟩
  · exact Option.isSome_iff_exists.mp hcat.devVersion

end Catalog

namespace Fixer

variable {f : Fixer} {c : Chain} {i : Issue}

theorem stored?_mend {key : String} (hkey : key ∈ [GlobalKey.version, GlobalKey.devVersion])
    (hfill : ∀ r, f.repairs.get? i.ruleId = some r → r.isFilling = true →
      key ≠ GlobalKey.devVersion) (c : Chain) :
    (f.mend c i).globals.stored? key =
      ((f.repairs.get? i.ruleId).bind fun r => r.leavesVersion? i key).getD
        (c.globals.stored? key) := by
  rw [mend_eq]
  cases hr : f.repairs.get? i.ruleId with
  | none => rfl
  | some r => exact Repair.stored?_after hkey (hfill r hr) c i

theorem get?_rawFlags_mend (f : Fixer) (c : Chain) (i : Issue) (suite : String) :
    (f.mend c i).rawFlags.get? suite =
      ((f.repairs.get? i.ruleId).bind fun r => r.leavesRawFlag? i suite).getD
        (c.rawFlags.get? suite) := by
  rw [mend_eq]
  cases f.repairs.get? i.ruleId with
  | none => rfl
  | some r => exact r.get?_rawFlags_after c i suite

end Fixer

namespace RuleSet

variable {s : RuleSet} {c : Chain} {r : Rule} {i : Issue}

/-- The chain after the run of all repairs. -/
def repaired (s : RuleSet) (c : Chain) : Chain :=
  (s.toRepair c).foldl (Fixer.ofRuleSet s).mend c

/-! ## Flags -/

theorem Tuned.rawFlags_repaired (h : Tuned s.catalog s) (hr : r ∈ s.rules)
    (henabled : r.enabled = true) (hid : r.id = StandardId.integrationTests.text)
    (suite : String) : (s.repaired c).rawFlags.get? suite = none := by
  have houtcome := Fixer.outcome_of_run (Fixer.ofRuleSet s).mend
    (fun b => b.rawFlags.get? suite) (w := none) (s.toRepair c)
    (fun b i _ => Fixer.get?_rawFlags_mend _ b i suite)
    (fun i hi => by
      obtain ⟨r, -, id, -, -, -, hrule⟩ := h.mem_toRepair hi
      rw [hrule, get?_repairs]
      cases id <;> simp [StandardId.repair?, Repair.leavesRawFlag?, or_comm, em]) c
  rcases houtcome with ⟨-, hnone⟩ | ⟨huntouched, hsame⟩
  · exact hnone
  · rw [repaired, hsame]
    refine Option.eq_none_iff_forall_ne_some.mpr fun value hraw => ?_
    obtain ⟨i, hi, hrule, htarget⟩ : ∃ i ∈ r.repairable s.catalog c,
        i.ruleId = r.id ∧ i.target = some suite :=
      Rule.exists_repairable_testSuites (h.kind_eq hr hid) henabled hraw
    have hnot := huntouched i (h.mem_toRepair_of_repairable hr hid (by decide) hi)
    rw [hrule, hid, get?_repairs] at hnot
    simp [StandardId.repair?, Repair.leavesRawFlag?, htarget] at hnot

/-! ## Versions before the developer version is filled in -/

theorem leavesVersion?_eq (cat : Catalog) (i : Issue) (key : String) (id : StandardId) :
    ((id.repair? cat).bind fun r => r.leavesVersion? i key) = none ∨
      ((id.repair? cat).bind fun r => r.leavesVersion? i key) = some (some (cat.fallback key)) := by
  cases id <;>
    simp only [StandardId.repair?, Repair.leavesVersion?, Option.bind_some, Option.bind_none,
      true_or] <;>
    split <;> simp_all [Catalog.fallback]

theorem eq_of_isFilling {cat : Catalog} {id : StandardId} {p : Repair}
    (hp : id.repair? cat = some p) (hfill : p.isFilling = true) :
    id = .globalDevVersionRequired := by
  cases id <;> first | rfl | (cases hp; cases hfill) | cases hp

/-- The issues of a run without those about the developer version, which come last. -/
theorem Tuned.exists_front (h : Tuned s.catalog s) (c : Chain) :
    ∃ front : List Issue, ∃ last ∈ s.rules,
      last.id = StandardId.globalDevVersionRequired.text ∧
      s.toRepair c = front ++ last.repairable s.catalog c ∧
      (∀ i ∈ front, i.ruleId ≠ StandardId.globalDevVersionRequired.text) ∧
      ∀ r ∈ s.rules, r.id = StandardId.globalDevVersionRequired.text → r = last := by
  obtain ⟨rules, last, hrules, hid, -, hothers⟩ := h.exists_last
  have hlast : last ∈ s.rules := by
    rw [hrules]
    exact List.mem_append_right _ List.mem_cons_self
  refine ⟨(rules.flatMap fun r => r.repairable s.catalog c).filter
    fun i => !(Fixer.ofRuleSet s).asksForSection i, last, hlast, hid, ?split, ?front, ?only⟩
  case split =>
    have hkeep : (last.repairable s.catalog c).filter
        (fun i => !(Fixer.ofRuleSet s).asksForSection i) = last.repairable s.catalog c := by
      refine List.filter_eq_self.mpr fun i hi => ?_
      rw [Bool.not_eq_true', ← Bool.not_eq_true, h.asksForSection_iff,
        Rule.ruleId_of_mem_repairable hi, hid]
      decide
    rw [toRepair, fixables, hrules, List.flatMap_append, List.filter_append,
      List.flatMap_singleton, hkeep]
  case front =>
    intro i hi
    obtain ⟨r, hr, hir⟩ := List.mem_flatMap.mp (List.mem_filter.mp hi).1
    rw [Rule.ruleId_of_mem_repairable hir]
    exact hothers r hr
  case only =>
    intro r hr hrid
    rw [hrules] at hr
    rcases List.mem_append.mp hr with hr | hr
    · exact absurd hrid (hothers r hr)
    · exact List.mem_singleton.mp hr

/-- A version that an issue has touched ends at its fallback. -/
theorem Tuned.stored?_run (h : Tuned s.catalog s) {issues : List Issue}
    (hissues : ∀ i ∈ issues, i ∈ s.toRepair c ∧
      i.ruleId ≠ StandardId.globalDevVersionRequired.text) {key : String}
    (hkey : key ∈ [GlobalKey.version, GlobalKey.devVersion]) :
    (∃ i ∈ issues, (((Fixer.ofRuleSet s).repairs.get? i.ruleId).bind fun r =>
          r.leavesVersion? i key) = some (some (s.catalog.fallback key))) ∧
        (issues.foldl (Fixer.ofRuleSet s).mend c).globals.stored? key =
          some (s.catalog.fallback key) ∨
      (∀ i ∈ issues, (((Fixer.ofRuleSet s).repairs.get? i.ruleId).bind fun r =>
          r.leavesVersion? i key) = none) ∧
        (issues.foldl (Fixer.ofRuleSet s).mend c).globals.stored? key =
          c.globals.stored? key := by
  refine Fixer.outcome_of_run (Fixer.ofRuleSet s).mend
    (fun b => b.globals.stored? key) issues (fun b i hi => ?_) (fun i hi => ?_) c
  · refine Fixer.stored?_mend hkey (fun r hr hfill => ?_) b
    obtain ⟨-, -, id, -, -, -, hrule⟩ := h.mem_toRepair (hissues i hi).1
    rw [hrule, get?_repairs] at hr
    have hlast := congrArg StandardId.text (eq_of_isFilling hr hfill)
    exact absurd (hrule.trans hlast) (hissues i hi).2
  · obtain ⟨-, -, id, -, -, -, hrule⟩ := h.mem_toRepair (hissues i hi).1
    rw [hrule, get?_repairs]
    exact leavesVersion?_eq s.catalog i key id

/-- After the issues of the rule about build numbers, every version is one. -/
theorem Tuned.lacksNumber_run (h : Tuned s.catalog s) (hcat : s.catalog.Usable)
    {issues : List Issue}
    (hissues : ∀ i ∈ issues, i ∈ s.toRepair c ∧
      i.ruleId ≠ StandardId.globalDevVersionRequired.text)
    (hr : r ∈ s.rules) (henabled : r.enabled = true)
    (hid : r.id = StandardId.buildNumberRange.text)
    (hall : ∀ i ∈ r.repairable s.catalog c, i ∈ issues) {key : String}
    (hkey : key ∈ [GlobalKey.version, GlobalKey.devVersion]) :
    (issues.foldl (Fixer.ofRuleSet s).mend c).globals.lacksNumber key = false := by
  rcases h.stored?_run hissues hkey with ⟨-, hfallback⟩ | ⟨huntouched, hsame⟩
  · obtain ⟨n, hn⟩ := hcat.fallback key
    exact Globals.lacksNumber_of_number hfallback hn
  · rw [Globals.lacksNumber_congr hsame, ← Bool.not_eq_true]
    intro hlacks
    obtain ⟨i, hi, hrule, htarget⟩ : ∃ i ∈ r.repairable s.catalog c,
        i.ruleId = r.id ∧ i.target = some key :=
      Rule.exists_repairable_buildNumbers (h.kind_eq hr hid) henabled hkey hlacks
    have hnot := huntouched i (hall i hi)
    rw [hrule, hid, get?_repairs] at hnot
    simp [StandardId.repair?, Repair.leavesVersion?, htarget] at hnot

/-! ## Filling in the developer version -/

/-- The developer version that is filled in is a build number if the version is one. -/
theorem readNumber_filling {g : Globals} {fallback : String} {n : Nat}
    (hn : Text.readNumber fallback = some n) (hversion : g.lacksNumber GlobalKey.version = false) :
    ∃ m, Text.readNumber (Repair.filling fallback g) = some m := by
  unfold Repair.filling
  cases hraw : g.versionAt? GlobalKey.version with
  | none => exact ⟨n, hn⟩
  | some raw =>
    rw [Globals.lacksNumber, hraw, Option.any_some, Option.isNone_eq_false_iff] at hversion
    exact Option.isSome_iff_exists.mp hversion

/-- The run of all repairs ends with the developer version, which is filled in where the rule that
asks for it has raised an issue. -/
theorem Tuned.repaired_cases (h : Tuned s.catalog s) (c : Chain) :
    ∃ front : List Issue, (∀ i ∈ front, i ∈ s.toRepair c ∧
        i.ruleId ≠ StandardId.globalDevVersionRequired.text) ∧
      (∀ i ∈ s.toRepair c, i.ruleId ≠ StandardId.globalDevVersionRequired.text → i ∈ front) ∧
      (s.repaired c = front.foldl (Fixer.ofRuleSet s).mend c ∧
          (∀ r ∈ s.rules, r.id = StandardId.globalDevVersionRequired.text →
            r.repairable s.catalog c = []) ∨
        s.repaired c = Repair.filled s.catalog.defaultDevVersion
          (front.foldl (Fixer.ofRuleSet s).mend c)) := by
  obtain ⟨front, last, hlast, hid, hsplit, hfront, honly⟩ := h.exists_front c
  have hrepaired : s.repaired c = (last.repairable s.catalog c).foldl (Fixer.ofRuleSet s).mend
      (front.foldl (Fixer.ofRuleSet s).mend c) := by
    rw [repaired, hsplit, List.foldl_append]
  refine ⟨front, fun i hi => ⟨hsplit ▸ List.mem_append_left _ hi, hfront i hi⟩, ?_, ?_⟩
  · intro i hi hne
    rcases List.mem_append.mp (hsplit ▸ hi) with hi | hi
    · exact hi
    · exact absurd ((Rule.ruleId_of_mem_repairable hi).trans hid) hne
  · rcases Rule.repairable_devVersion_cases (h.kind_eq hlast hid) s.catalog c with
      hnil | ⟨i, hone⟩
    · rw [hnil, List.foldl_nil] at hrepaired
      exact .inl ⟨hrepaired, fun r hr hrid => by rw [honly r hr hrid, hnil]⟩
    · have hrule : i.ruleId = StandardId.globalDevVersionRequired.text :=
        (Rule.ruleId_of_mem_repairable (hone ▸ List.mem_cons_self)).trans hid
      rw [hone, List.foldl_cons, List.foldl_nil, Fixer.mend_eq, hrule, get?_repairs] at hrepaired
      exact .inr (hrepaired.trans (Repair.after_fillDevVersion _ i _))

/-! ## Versions after the run -/

/-- The same version and no more binary projects give no more to complain about. -/
theorem complains_of_stored? {k : Rule.Wording} {cat : Catalog} {c' : Chain}
    (hsame : c'.globals.stored? GlobalKey.version = c.globals.stored? GlobalKey.version)
    (hany : c'.anyMode BuildMode.binary.text = true → c.anyMode BuildMode.binary.text = true)
    (hcomplains : k.complains cat c' = true) : k.complains cat c = true := by
  obtain ⟨hbinary, hcomplaint⟩ := Bool.and_eq_true_iff.mp hcomplains
  rw [Rule.versionComplaint?, Globals.versionAt?_congr hsame] at hcomplaint
  exact Bool.and_eq_true_iff.mpr ⟨hany hbinary, hcomplaint⟩

/-- No version is left that is no build number, not even one that was filled in. -/
theorem Tuned.lacksNumber_repaired (h : Tuned s.catalog s) (hcat : s.catalog.Usable)
    (hr : r ∈ s.rules) (henabled : r.enabled = true)
    (hid : r.id = StandardId.buildNumberRange.text) {key : String}
    (hkey : key ∈ [GlobalKey.version, GlobalKey.devVersion]) :
    (s.repaired c).globals.lacksNumber key = false := by
  obtain ⟨front, hfront, hothers, hcases⟩ := h.repaired_cases c
  have hall : ∀ i ∈ r.repairable s.catalog c, i ∈ front := fun i hi => by
    have hrule := (Rule.ruleId_of_mem_repairable hi).trans hid
    exact hothers i (h.mem_toRepair_of_repairable hr hid (by decide) hi) (by rw [hrule]; decide)
  have hrun {key : String} (hkey : key ∈ [GlobalKey.version, GlobalKey.devVersion]) :=
    h.lacksNumber_run hcat hfront hr henabled hid hall hkey
  rcases hcases with ⟨hsame, -⟩ | hfilled
  · rw [hsame]
    exact hrun hkey
  · rw [hfilled]
    rcases List.mem_pair.mp hkey with rfl | rfl
    · rw [Globals.lacksNumber_congr (Repair.stored?_version_filled _ _)]
      exact hrun hkey
    · unfold Repair.filled
      split
      · exact hrun hkey
      · -- What is filled in is the version, which is a build number by now, or the fallback.
        obtain ⟨n, hn⟩ := Option.isSome_iff_exists.mp hcat.devVersion
        obtain ⟨m, hm⟩ := readNumber_filling hn (hrun List.mem_cons_self)
        exact Globals.lacksNumber_of_number rfl hm

/-- A developer version that was asked for is there after the run. -/
theorem Tuned.devVersion_repaired (h : Tuned s.catalog s) (hcat : s.catalog.Usable)
    (hr : r ∈ s.rules) (hid : r.id = StandardId.globalDevVersionRequired.text)
    (hissues : r.repairable s.catalog c ≠ []) :
    ((s.repaired c).globals.versionAt? GlobalKey.devVersion).isSome = true := by
  obtain ⟨front, -, -, ⟨-, hnone⟩ | hfilled⟩ := h.repaired_cases c
  · exact absurd (hnone r hr hid) hissues
  · rw [hfilled, Repair.filled]
    split
    · assumption
    · obtain ⟨n, hn⟩ := Option.isSome_iff_exists.mp hcat.devVersion
      have hblank := Repair.isBlank_filling (Text.isBlank_of_readNumber hn)
        (front.foldl (Fixer.ofRuleSet s).mend c).globals
      simp [Globals.versionAt?, Globals.nonBlank?, hblank, GlobalKey.version, GlobalKey.devVersion]

/-- A binary project that is left has a version that it can be built from. -/
theorem Tuned.complains_repaired (h : Tuned s.catalog s) (hcat : s.catalog.Usable)
    (hr : r ∈ s.rules) (hstrict : r.IsStrict)
    (hid : r.id = StandardId.globalVersionWhenBinary.text) {c' : Chain}
    (hglobals : c'.globals = (s.repaired c).globals)
    (hany : c'.anyMode BuildMode.binary.text = true → c.anyMode BuildMode.binary.text = true) :
    Rule.Wording.complains {} s.catalog c' = false := by
  obtain ⟨front, hfront, hothers, hcases⟩ := h.repaired_cases c
  have hversion : c'.globals.stored? GlobalKey.version =
      (front.foldl (Fixer.ofRuleSet s).mend c).globals.stored? GlobalKey.version := by
    rw [hglobals]
    rcases hcases with ⟨hsame, -⟩ | hfilled
    · rw [hsame]
    · rw [hfilled, Repair.stored?_version_filled]
  rcases h.stored?_run hfront List.mem_cons_self with ⟨-, hfallback⟩ | ⟨huntouched, hsame⟩
  · obtain ⟨n, hn, hband⟩ := hcat.version
    have hat : c'.globals.versionAt? GlobalKey.version = some s.catalog.defaultVersion :=
      Globals.versionAt?_of_number (hversion.trans hfallback) hn
    simp [Rule.Wording.complains, Rule.versionComplaint?, hat, Text.trim_of_readNumber hn, hn,
      hband]
  · rw [← Bool.not_eq_true]
    intro hcomplains
    have hbefore := complains_of_stored? (hversion.trans hsame) hany hcomplains
    obtain ⟨i, hi, hrule, -⟩ : ∃ i ∈ r.repairable s.catalog c,
        i.ruleId = r.id ∧ i.target = some GlobalKey.version :=
      Rule.exists_repairable_version (h.kind_eq hr hid) hstrict hbefore
    have hnot := huntouched i (hothers i (h.mem_toRepair_of_repairable hr hid (by decide) hi)
      (by rw [hrule, hid]; decide))
    rw [hrule, hid, get?_repairs] at hnot
    simp [StandardId.repair?, Repair.leavesVersion?] at hnot

end RuleSet

end BuildChain
