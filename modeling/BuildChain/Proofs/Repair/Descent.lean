import BuildChain.Proofs.Chain.Place
import BuildChain.Proofs.Repair.Convergence

/-!
# What fixing leaves alone

Fixing touches the global settings, the known properties and the flags that a chain has already.
What it leaves there can stand on a line as it is, and everything else stays. New sections have
names of the canonical order.
-/

namespace BuildChain

open Chain (held?)

/-! ## Values on lines -/

/-- A value as it is read from a line. -/
structure LineValue (value : String) : Prop where
  feed : '\n' ∉ value.toList
  trim : Text.trim value = value

instance (value : String) : Decidable (LineValue value) :=
  decidable_of_iff ('\n' ∉ value.toList ∧ Text.trim value = value)
    ⟨fun ⟨hfeed, htrim⟩ => ⟨hfeed, htrim⟩, fun h => ⟨h.feed, h.trim⟩⟩

/-- A value that is written to a line and read back as it is. -/
def Tidy (value : String) : Prop := LineValue value ∧ Text.isBlank value = false

instance (value : String) : Decidable (Tidy value) := inferInstanceAs (Decidable (_ ∧ _))

theorem tidy_flagText (enabled : Bool) : Tidy (flagText enabled) := by
  cases enabled <;> decide +kernel

theorem tidy_mode (mode : BuildMode) : Tidy mode.text := by
  cases mode <;> decide +kernel

theorem tidy_of_readNumber {value : String} {n : Nat} (h : Text.readNumber value = some n) :
    Tidy value := by
  refine ⟨⟨fun hfeed => ?_, Text.trim_of_readNumber h⟩, Text.isBlank_of_readNumber h⟩
  exact absurd ((Text.isSpace_of_readNumber h).2 _ hfeed) (by decide)

/-- Everything that a chain holds can be read from a line. -/
def Chain.OnLines (c : Chain) : Prop := ∀ r value, c.held? r = some value → LineValue value

/-! ## Places that fixing may touch -/

/-- The places of a chain that a repair may write at. -/
def Chain.MayMend (c : Chain) : Route → Prop
  | .global key => key ∈ GlobalKey.known
  | .flag suite => (c.held? (.flag suite)).isSome = true
  | .property _ suffix => suffix ∈ Property.known
  | .nowhere => False

/-- A chain that fixing can have made of another one. -/
structure Chain.Descends (cat : Catalog) (c₀ c : Chain) : Prop where
  source : c.source = c₀.source
  names : ∀ n ∈ c.names, n ∈ c₀.names ∨ n ∈ cat.order.names
  places : ∀ r, c.held? r = c₀.held? r ∨
    c₀.MayMend r ∧ ∀ value, c.held? r = some value → Tidy value
  flags : ∀ suite, (c.held? (.flag suite)).isSome = (c₀.held? (.flag suite)).isSome

namespace Chain

variable {cat : Catalog} {c₀ c c' : Chain}

theorem Descends.refl (cat : Catalog) (c : Chain) : c.Descends cat c :=
  ⟨rfl, fun _ hn => .inl hn, fun _ => .inl rfl, fun _ => rfl⟩

/-- One more write, at a place that fixing may touch, or none. -/
theorem Descends.step (h : c₀.Descends cat c) (hsource : c'.source = c.source)
    (hnames : ∀ n ∈ c'.names, n ∈ c.names ∨ n ∈ cat.order.names)
    (hplaces : ∀ r, c'.held? r = c.held? r ∨
      c₀.MayMend r ∧ ∀ value, c'.held? r = some value → Tidy value)
    (hflags : ∀ suite, (c'.held? (.flag suite)).isSome = (c.held? (.flag suite)).isSome) :
    c₀.Descends cat c' := by
  constructor
  case source => exact hsource.trans h.source
  case names =>
    intro n hn
    rcases hnames n hn with hn | hn
    · exact h.names n hn
    · exact .inr hn
  case places =>
    intro r
    rcases hplaces r with hsame | hmend
    · rw [hsame]
      exact h.places r
    · exact .inr hmend
  case flags => exact fun suite => (hflags suite).trans (h.flags suite)

theorem MayMend.of_descends (h : c₀.Descends cat c) {r : Route} (hr : c.MayMend r) :
    c₀.MayMend r := by
  cases r with
  | flag suite => exact (h.flags suite).symm.trans hr
  | _ => exact hr

theorem Descends.trans (h : c₀.Descends cat c) (h' : c.Descends cat c') : c₀.Descends cat c' :=
  h.step h'.source h'.names (fun r => (h'.places r).imp_right fun ⟨hr, hvalue⟩ =>
    ⟨hr.of_descends h, hvalue⟩) h'.flags

/-- What stood on lines still does after fixing. -/
theorem OnLines.of_descends (h : c₀.OnLines) (hc : c₀.Descends cat c) : c.OnLines := by
  intro r value hvalue
  rcases hc.places r with hsame | ⟨-, htidy⟩
  · exact h r value (hsame ▸ hvalue)
  · exact (htidy value hvalue).1

/-! ## One kind of write after the other -/

/-- Editing known properties of a section. -/
theorem Descends.modifySection (h : c₀.Descends cat c) (name : String) {f : Section → Section}
    (hf : ∀ s, (f s).name = s.name) (hget : ∀ s p, (f s).get? p = s.get? p ∨
      p ∈ Property.known ∧ ∀ value, (f s).get? p = some value → Tidy value) :
    c₀.Descends cat (c.modifySection name f) := by
  refine h.step rfl (fun n hn => ?_) (fun r => ?_) fun _ => rfl
  · rw [names_modifySection c name hf] at hn
    exact .inl hn
  · cases r with
    | property n p =>
      simp only [held?, get?, section?_modifySection c name n hf]
      split
      · cases c.section? n with
        | none => exact .inl rfl
        | some s => exact hget s p
      · exact .inl rfl
    | _ => exact .inl rfl

/-- Setting global settings. -/
theorem Descends.globals (h : c₀.Descends cat c) {g : Globals}
    (hg : ∀ key ∈ GlobalKey.known, g.get? key = c.globals.get? key ∨
      ∀ value, g.get? key = some value → Tidy value) :
    c₀.Descends cat { c with globals := g } := by
  refine h.step rfl (fun n hn => .inl hn) (fun r => ?_) fun _ => rfl
  cases r with
  | global key =>
    by_cases hk : key ∈ GlobalKey.known
    · exact (hg key hk).imp_right fun hvalue => ⟨hk, hvalue⟩
    · exact .inl ((Globals.get?_of_not_known hk).trans (Globals.get?_of_not_known hk).symm)
  | _ => exact .inl rfl

theorem held?_setFlag (c : Chain) (suite : String) (enabled : Bool) (suite' : String) :
    (c.setFlag suite enabled).held? (.flag suite') =
      if suite' = suite then some (flagText enabled) else c.held? (.flag suite') := by
  simp only [held?, setFlag, OrderedMap.get?_insert, OrderedMap.get?_erase]
  split <;> rfl

/-- Setting a flag that is there. -/
theorem Descends.setFlag (h : c₀.Descends cat c) {suite : String} (enabled : Bool)
    (hsuite : (c₀.held? (.flag suite)).isSome = true) :
    c₀.Descends cat (c.setFlag suite enabled) := by
  refine h.step rfl (fun n hn => .inl hn) (fun r => ?_) fun suite' => ?_
  · cases r with
    | flag suite' =>
      rw [held?_setFlag]
      split
      · rename_i heq
        rw [heq]
        refine .inr ⟨hsuite, fun value hvalue => ?_⟩
        cases hvalue
        exact tidy_flagText enabled
      · exact .inl rfl
    | _ => exact .inl rfl
  · rw [held?_setFlag]
    split
    · rename_i heq
      rw [heq, h.flags, hsuite]
      rfl
    · rfl

theorem tidy_defaultSection (hbranch : Tidy cat.defaultBranch) {name p value : String}
    (h : (Fixer.defaultSection cat name).get? p = some value) :
    p ∈ Property.known ∧ Tidy value := by
  rw [get?_defaultSection] at h
  split at h
  · rename_i hp
    cases h
    exact ⟨hp ▸ by decide, tidy_flagText _⟩
  split at h
  · rename_i hp
    cases h
    exact ⟨hp ▸ by decide, hbranch⟩
  split at h
  · rename_i hp
    cases h
    exact ⟨hp ▸ by decide, tidy_mode _⟩
  split at h <;> cases h
  rename_i hp
  exact ⟨hp ▸ by decide, tidy_mode _⟩

/-- Adding the section of a canonical project that is missing. -/
theorem Descends.push (h : c₀.Descends cat c) (hbranch : Tidy cat.defaultBranch) {name : String}
    (hname : name ∈ cat.order.names) (hnew : c.hasSection name = false) :
    c₀.Descends cat (c.push (Fixer.defaultSection cat name)) := by
  refine h.step rfl (fun n hn => ?_) (fun r => ?_) fun _ => rfl
  · rw [Fixer.names_push] at hn
    rcases List.mem_append.mp hn with hn | hn
    · exact .inl hn
    · rw [List.mem_singleton.mp hn]
      exact .inr hname
  · cases r with
    | property n p =>
      simp only [held?, get?, section?_push]
      by_cases hnamed : (Fixer.defaultSection cat name).isNamed n = true
      · have hnone : c.section? n = none := by
          rw [← section?_congr c hnamed, ← Option.isNone_iff_eq_none, ← Option.isSome_eq_false_iff,
            ← hasSection_eq_isSome]
          exact hnew
        rw [hnone, if_pos hnamed, Option.none_or, Option.bind_some]
        cases hget : (Fixer.defaultSection cat name).get? p with
        | none => exact .inl rfl
        | some value =>
          obtain ⟨hp, htidy⟩ := tidy_defaultSection hbranch hget
          refine .inr ⟨hp, fun value' hvalue => ?_⟩
          cases hvalue
          exact htidy
      · rw [if_neg hnamed, Option.or_none]
        exact .inl rfl
    | _ => exact .inl rfl

theorem Descends.reorder (h : c₀.Descends cat c) (hdist : c.DistinctNames) (o : Order) :
    c₀.Descends cat (o.reorder c) := by
  refine h.step rfl (fun n hn => .inl ?_) (fun r => .inl ?_) fun _ => rfl
  · exact ((o.arrange_perm c.sections).map Section.name).mem_iff.mp hn
  · cases r with
    | property n p =>
      rw [held?, get?, section?_of_perm hdist (o.arrange_perm c.sections)]
      rfl
    | _ => rfl

end Chain

/-! ## Repairs -/

namespace Repair

variable {cat : Catalog} {c₀ c : Chain} {r : Repair} {i : Issue}

/-- Whether a repair writes only what can stand on a line, and only where fixing may. -/
def IsTidy (c₀ : Chain) (i : Issue) : Repair → Prop
  | setProperty suffix value => suffix ∈ Property.known ∧ Tidy value
  | removeProperty suffix => suffix ∈ Property.known
  | setGlobal _ value => Tidy value
  | resetVersion version devVersion => Tidy version ∧ Tidy devVersion
  | fillDevVersion fallback => Tidy fallback
  | setFlag _ => ∀ suite, i.target = some suite → (c₀.held? (.flag suite)).isSome = true

theorem get?_store {key value k : String} (g : Globals) (hk : k ∈ GlobalKey.known) :
    (store g key value).get? k = g.get? k ∨ (store g key value).get? k = some value := by
  unfold store
  simp only [GlobalKey.known, List.mem_cons, List.not_mem_nil, or_false] at hk
  rcases hk with rfl | rfl | rfl <;> split <;> try split
  all_goals first | exact .inl rfl | exact .inr rfl

theorem descends_store (h : c₀.Descends cat c) {key value : String} (hvalue : Tidy value) :
    c₀.Descends cat { c with globals := store c.globals key value } := by
  refine h.globals fun k hk => (get?_store c.globals hk).imp_right fun hget value' hvalue' => ?_
  rw [hget] at hvalue'
  cases hvalue'
  exact hvalue

theorem tidy_filling {fallback : String} {g : Globals} (hfallback : Tidy fallback)
    (hg : ∀ value, g.get? GlobalKey.version = some value → LineValue value) :
    Tidy (filling fallback g) := by
  unfold filling
  cases hraw : g.versionAt? GlobalKey.version with
  | none => exact hfallback
  | some raw =>
    obtain ⟨hget, hblank⟩ := Option.filter_eq_some_iff.mp hraw
    have hline := hg raw hget
    rw [Option.map_some, Option.getD_some, hline.trim]
    exact ⟨hline, by simpa using hblank⟩

/-- A tidy repair leaves a chain that fixing can have made. -/
theorem descends_after (h : c₀.Descends cat c) (hc : c.OnLines) (hr : r.IsTidy c₀ i) :
    c₀.Descends cat (r.after c i) := by
  cases r with
  | setProperty suffix value =>
    rw [after_setProperty]
    cases i.sectionName with
    | none => exact h
    | some name =>
      refine h.modifySection name (fun _ => rfl) fun s p => ?_
      rw [Section.get?_set]
      split
      · rename_i hp
        refine .inr ⟨hp ▸ hr.1, fun value' hvalue => ?_⟩
        cases hvalue
        exact hr.2
      · exact .inl rfl
  | removeProperty suffix =>
    rw [after_removeProperty]
    cases i.sectionName with
    | none => exact h
    | some name =>
      refine h.modifySection name (fun _ => rfl) fun s p => ?_
      rw [Section.get?_erase]
      split
      · rename_i hp
        exact .inr ⟨hp ▸ hr, fun value hvalue => by cases hvalue⟩
      · exact .inl rfl
  | setGlobal key value =>
    rw [after_of_setVersion rfl]
    exact descends_store h hr
  | resetVersion version devVersion =>
    rw [after_resetVersion]
    cases i.target with
    | none => exact h
    | some key =>
      refine descends_store h ?_
      split
      · exact hr.1
      · exact hr.2
  | fillDevVersion fallback =>
    rw [after_fillDevVersion, filled]
    split
    · exact h
    · have htidy : Tidy (filling fallback c.globals) :=
        tidy_filling hr fun value => hc (.global GlobalKey.version) value
      have hstore : store c.globals GlobalKey.devVersion (filling fallback c.globals) =
          { c.globals with devVersion := some (filling fallback c.globals) } := rfl
      rw [← hstore]
      exact descends_store h htidy
  | setFlag enabled =>
    rw [after_setFlag]
    cases htarget : i.target with
    | none => exact h
    | some suite => exact h.setFlag enabled (hr suite htarget)

end Repair

/-! ## Passes -/

namespace RuleSet

variable {s : RuleSet} {c₀ c : Chain} {i : Issue}

theorem Tuned.isTidy_repair (h : Tuned s.catalog s) (hcat : s.catalog.Usable)
    (hbranch : Tidy s.catalog.defaultBranch) (hi : i ∈ s.toRepair c₀) {r : Repair}
    (hr : (Fixer.ofRuleSet s).repairs.get? i.ruleId = some r) : r.IsTidy c₀ i := by
  obtain ⟨rule, -, id, -, hkind, hrepairable, hid⟩ := h.mem_toRepair hi
  obtain ⟨n, hversion, -⟩ := hcat.version
  obtain ⟨m, hdevVersion⟩ := Option.isSome_iff_exists.mp hcat.devVersion
  rw [hid, get?_repairs] at hr
  cases id with
  | requiredMode | validMode | validDevMode =>
    cases hr
    exact ⟨by decide, tidy_mode _⟩
  | branchTagExclusive | forkFormat =>
    cases hr
    rw [Repair.IsTidy]
    decide
  | branchOrTagRequired =>
    cases hr
    exact ⟨by decide, hbranch⟩
  | globalVersionWhenBinary =>
    cases hr
    exact tidy_of_readNumber hversion
  | buildNumberRange =>
    cases hr
    exact ⟨tidy_of_readNumber hversion, tidy_of_readNumber hdevVersion⟩
  | globalDevVersionRequired =>
    cases hr
    exact tidy_of_readNumber hdevVersion
  | integrationTests =>
    cases hr
    obtain ⟨-, -, suite, value, hraw, htarget⟩ := Rule.mem_repairable_testSuites hkind hrepairable
    intro suite' hsuite
    rw [htarget] at hsuite
    cases hsuite
    simp [held?, hraw]
  | _ => cases hr

/-- The run of all repairs. -/
theorem Tuned.descends_repaired (h : Tuned s.catalog s) (hcat : s.catalog.Usable)
    (hbranch : Tidy s.catalog.defaultBranch) (hc : c.OnLines) :
    c.Descends s.catalog (s.repaired c) := by
  have hrun : ∀ issues : List Issue, (∀ i ∈ issues, i ∈ s.toRepair c) →
      c.Descends s.catalog (issues.foldl (Fixer.ofRuleSet s).mend c) := by
    intro issues
    induction issues using List.reverseRecOn with
    | nil => exact fun _ => .refl _ c
    | append_singleton issues i ih =>
      intro hissues
      have hbefore := ih fun j hj => hissues j (List.mem_append_left _ hj)
      rw [List.foldl_append, List.foldl_cons, List.foldl_nil, Fixer.mend_eq]
      cases hr : (Fixer.ofRuleSet s).repairs.get? i.ruleId with
      | none => exact hbefore
      | some r =>
        exact Repair.descends_after hbefore (hc.of_descends hbefore)
          (h.isTidy_repair hcat hbranch (hissues i (by simp)) hr)
  exact hrun _ fun _ hi => hi

theorem descends_addMissing {cat : Catalog} (h : c₀.Descends cat c)
    (hbranch : Tidy cat.defaultBranch) {names : List String}
    (hnames : ∀ n ∈ names, n ∈ cat.order.names) :
    c₀.Descends cat (Fixer.addMissing cat c names).1 := by
  induction names using List.reverseRecOn with
  | nil => exact h
  | append_singleton names name ih =>
    have hbefore := ih fun n hn => hnames n (List.mem_append_left _ hn)
    rw [Fixer.addMissing_concat]
    split
    · exact hbefore
    · rename_i hnew
      exact hbefore.push hbranch (hnames name (by simp)) (Bool.eq_false_iff.mpr hnew)

/-- One pass. -/
theorem Tuned.descends_pass (h : Tuned s.catalog s) (hcat : s.catalog.Usable)
    (hbranch : Tidy s.catalog.defaultBranch) (hdist : c.DistinctNames) (hc : c.OnLines) :
    c.Descends s.catalog (s.pass c).1 := by
  have hrepaired := h.descends_repaired hcat hbranch hc
  have hnames : (s.repaired c).DistinctNames := by
    rw [Chain.DistinctNames, names_repaired hdist]
    exact hdist
  rcases h.pass_cases c with ⟨hpass, -⟩ | ⟨named, -, hnamed, hpass⟩
  · rw [hpass, repairAll_fst_eq_repaired]
    exact hrepaired
  · rw [hpass, Fixer.complete_fst]
    refine Chain.Descends.reorder ?_ (Fixer.distinctNames_addMissing hnames) _
    refine descends_addMissing hrepaired hbranch fun n hn => ?_
    rcases List.mem_append.mp hn with hn | hn
    · exact (List.mem_filter.mp hn).1
    · exact (h.requires_iff.mp (hnamed n hn).1).1

/-- Any number of passes. -/
theorem Tuned.descends_passes (h : Tuned s.catalog s) (hcat : s.catalog.Usable)
    (hbranch : Tidy s.catalog.defaultBranch) (n : Nat) (hdist : c.DistinctNames)
    (hc : c.OnLines) :
    c.Descends s.catalog ((Fixer.ofRuleSet s).passes (Validator.ofRuleSet s) n c).1 ∧
      ((Fixer.ofRuleSet s).passes (Validator.ofRuleSet s) n c).1.DistinctNames := by
  induction n generalizing c with
  | zero => exact ⟨.refl _ c, hdist⟩
  | succ n ih =>
    have hpass := h.descends_pass hcat hbranch hdist hc
    have hnames := h.distinctNames_pass hdist
    rw [passes_succ]
    split
    · exact ⟨hpass, hnames⟩
    · obtain ⟨hrest, hrestNames⟩ := ih hnames (hc.of_descends hpass)
      exact ⟨hpass.trans hrest, hrestNames⟩

/-- Fixing everything. -/
theorem Tuned.descends_fixAll (h : Tuned s.catalog s) (hcat : s.catalog.Usable)
    (hbranch : Tidy s.catalog.defaultBranch) (hdist : c.DistinctNames) (hc : c.OnLines) :
    c.Descends s.catalog ((Fixer.ofRuleSet s).fixAll (Validator.ofRuleSet s) c).1 ∧
      ((Fixer.ofRuleSet s).fixAll (Validator.ofRuleSet s) c).1.DistinctNames := by
  obtain ⟨hpasses, hnames⟩ := h.descends_passes hcat hbranch Fixer.maxPasses hdist hc
  exact ⟨hpasses.reorder hnames _, Fixer.distinctNames_reorder hnames⟩

end RuleSet

end BuildChain
