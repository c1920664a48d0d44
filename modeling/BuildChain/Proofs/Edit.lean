import BuildChain.Edit
import BuildChain.Proofs.Chain.Sections
import Mathlib.Data.List.Forall2

/-!
# Updates

An update gives the sections of some names a value. Its value and all names are checked before the
first section is changed, so an update that fails leaves the chain as it was. The change of a
section touches the properties of the update only and brings them where they should be, and a
section that has them there is not changed: the count is therefore exact, and an update that is
made again changes nothing.
-/

namespace BuildChain.Edit

/-- What is counted of a list beside its image can be counted of the list. -/
theorem length_filter_zip_map {α : Type} (l : List α) (f : α → α) (p : α × α → Bool) :
    ((l.zip (l.map f)).filter p).length = (l.filter fun a => p (a, f a)).length := by
  have hzip : l.zip (l.map f) = l.map fun a => (a, f a) := by
    conv_lhs => rw [← List.map_id' l, List.map_map, List.zip_map']
    rfl
  rw [hzip, List.filter_map, List.length_map]
  rfl

/-! ## What a change leaves alone -/

/-- A section that differs from another one in some properties only. The properties that stay keep
their order, and those that are new come after them. -/
structure Keeps (touched : List String) (s s' : Section) : Prop where
  name : s'.name = s.name
  others : (s'.properties.toList.filter fun e => !touched.contains e.1) =
    s.properties.toList.filter fun e => !touched.contains e.1
  order : (s.properties.keys.filter fun key => s'.properties.contains key) <+: s'.properties.keys

namespace Keeps

variable {touched : List String} {s s' : Section} {suffix : String}

theorem refl (touched : List String) (s : Section) : Keeps touched s s where
  name := rfl
  others := rfl
  order := by
    have hall : (s.properties.keys.filter fun key => s.properties.contains key) =
        s.properties.keys := List.filter_eq_self.mpr fun key hkey => List.contains_iff_mem.mpr hkey
    exact ⟨[], by rw [hall, List.append_nil]⟩

theorem not_contains (h : suffix ∈ touched) : (!touched.contains suffix) = false := by
  rw [List.contains_iff_mem.mpr h]
  rfl

theorem contains_erase {m : OrderedMap String} {key : String} (hkey : key ∈ m.keys) :
    (m.erase suffix).contains key = (key != suffix) := by
  rw [OrderedMap.contains, OrderedMap.keys_erase, Bool.eq_iff_iff, List.contains_iff_mem,
    List.mem_filter, and_iff_right hkey]

theorem erase (h : suffix ∈ touched) (s : Section) : Keeps touched s (s.erase suffix) where
  name := rfl
  others := OrderedMap.filter_toList_erase (p := fun key => !touched.contains key)
    (not_contains h) s.properties
  order := by
    have hkept : (s.properties.keys.filter fun key => (s.properties.erase suffix).contains key) =
        (s.properties.erase suffix).keys := by
      rw [OrderedMap.keys_erase]
      exact List.filter_congr fun key hkey => contains_erase hkey
    exact hkept ▸ List.prefix_rfl

/-- Setting a property that is still there, or that was never there, keeps what was kept. -/
theorem set (hkeeps : Keeps touched s s') (h : suffix ∈ touched)
    (hback : suffix ∈ s.properties.keys → suffix ∈ s'.properties.keys) (value : String) :
    Keeps touched s (s'.set suffix value) where
  name := hkeeps.name
  others := (OrderedMap.filter_toList_insert (p := fun key => !touched.contains key)
    (not_contains h) s'.properties value).trans hkeeps.others
  order := by
    have hkeys : s'.properties.keys <+: (s'.properties.insert suffix value).keys := by
      rw [OrderedMap.keys_insert]
      split
      · exact List.prefix_rfl
      · exact List.prefix_append _ _
    have hkept : (s.properties.keys.filter fun key =>
        (s'.properties.insert suffix value).contains key) =
        s.properties.keys.filter fun key => s'.properties.contains key := by
      refine List.filter_congr fun key hkey => ?_
      rw [Bool.eq_iff_iff, OrderedMap.contains, OrderedMap.contains, List.contains_iff_mem,
        List.contains_iff_mem]
      refine ⟨fun hin => ?_, fun hin => hkeys.subset hin⟩
      rw [OrderedMap.keys_insert] at hin
      split at hin
      · exact hin
      · rename_i hnew
        rcases List.mem_append.mp hin with hin | hin
        · exact hin
        · rw [List.mem_singleton.mp hin] at hkey
          exact absurd (hback hkey) hnew
    exact hkept ▸ hkeeps.order.trans hkeys

end Keeps

/-! ## Changes with a goal -/

/-- A section after a change, which may have nothing to do. -/
def changed (change : Change) (s : Section) : Section := (change s).getD s

/-- A change that brings every section to a goal by touching some properties, and that has nothing
to do exactly where the goal is reached. -/
structure Achieves (change : Change) (goal : Section → Prop) (touched : List String) : Prop where
  reached : ∀ s, goal (changed change s)
  rest : ∀ s, goal s → change s = none
  keeps : ∀ s, Keeps touched s (changed change s)

namespace Achieves

variable {change : Change} {goal : Section → Prop} {touched : List String}

theorem again (h : Achieves change goal touched) (s : Section) :
    change (changed change s) = none := h.rest _ (h.reached s)

theorem isSome_eq (h : Achieves change goal touched) (s : Section) :
    (change s).isSome = decide (s ≠ changed change s) := by
  cases hchange : change s with
  | none => rw [changed, hchange]; simp
  | some s' =>
    rw [Option.isSome_some, eq_comm, decide_eq_true_iff]
    intro hsame
    have hnone := h.again s
    rw [← hsame, hchange] at hnone
    cases hnone

end Achieves

theorem changed_setProperty (suffix value : String) (s : Section) :
    changed (setProperty suffix value) s = s.set suffix value := by
  unfold changed setProperty
  split
  · rename_i hget
    exact (Section.set_self hget).symm
  · rfl

theorem setProperty_achieves (suffix value : String) :
    Achieves (setProperty suffix value) (fun s => s.get? suffix = some value) [suffix] where
  reached s := by rw [changed_setProperty, Section.get?_set, if_pos rfl]
  rest _ hget := if_pos hget
  keeps s := by
    rw [changed_setProperty]
    exact (Keeps.refl [suffix] s).set (by simp) id value

theorem changed_setBranch (branch : String) (s : Section) :
    changed (setBranch branch) s = (s.erase Property.tag).set Property.branch branch := by
  unfold changed setBranch
  dsimp only
  split
  · rename_i hbranch
    rw [Section.set_self hbranch]
    split
    · rfl
    · rename_i htag
      rw [Bool.not_eq_true, Option.isSome_eq_false_iff, Option.isNone_iff_eq_none] at htag
      exact (Section.erase_eq_self htag).symm
  · rfl

theorem setBranch_achieves (branch : String) :
    Achieves (setBranch branch)
      (fun s => s.get? Property.branch = some branch ∧ s.get? Property.tag = none)
      [Property.branch, Property.tag] where
  reached s := by
    rw [changed_setBranch, Section.get?_set, if_pos rfl, Section.get?_set, if_neg (by decide),
      Section.get?_erase, if_pos rfl]
    exact ⟨rfl, rfl⟩
  rest s hgoal := by
    have huntagged : (s.erase Property.tag).get? Property.branch = some branch := by
      rw [Section.get?_erase, if_neg (by decide), hgoal.1]
    unfold setBranch
    dsimp only
    rw [if_pos huntagged, if_neg (by simp [hgoal.2])]
  keeps s := by
    rw [changed_setBranch]
    refine (Keeps.erase (by simp) s).set (by simp) (fun hmem => ?_) branch
    -- the tag is another property, so the branch is still there if it was
    have hmem' : Property.branch ∈ (s.properties.erase Property.tag).keys := by
      rw [OrderedMap.keys_erase]
      exact List.mem_filter.mpr ⟨hmem, by decide⟩
    exact hmem'

theorem testsUnit_setTestsUnit (s : Section) (enabled : Bool) :
    (s.setTestsUnit enabled).has Property.testsUnit = true ∧
      (s.setTestsUnit enabled).testsUnit = enabled := by
  have hget : (s.setTestsUnit enabled).get? Property.testsUnit = some (flagText enabled) := by
    rw [Section.setTestsUnit, Section.get?_set, if_pos rfl]
  constructor
  · exact Section.has_of_get? hget (by cases enabled <;> decide)
  · rw [Section.testsUnit, hget]
    cases enabled <;> decide

theorem setTestsUnit_achieves (enabled : Bool) :
    Achieves (setTestsUnit enabled)
      (fun s => s.has Property.testsUnit = true ∧ s.testsUnit = enabled) [Property.testsUnit] where
  reached s := by
    unfold changed setTestsUnit
    split
    · rename_i hdone
      rwa [Bool.and_eq_true, beq_iff_eq] at hdone
    · exact testsUnit_setTestsUnit s enabled
  rest s hgoal := if_pos (by rw [hgoal.1, hgoal.2, beq_self_eq_true, Bool.and_self])
  keeps s := by
    unfold changed setTestsUnit
    split
    · exact Keeps.refl _ s
    · exact (Keeps.refl _ s).set (by simp) id (flagText enabled)

/-! ## Changing the sections of some names -/

variable {c c' : Chain} {names : List String} {n : Nat} {change : Change}

/-- A section after a change to all sections of some names. -/
def changedAmong (names : List String) (change : Change) (s : Section) : Section :=
  if isAmong names s then changed change s else s

/-- Whether the change does something to a section. -/
def changesAmong (names : List String) (change : Change) (s : Section) : Bool :=
  isAmong names s && (change s).isSome

theorem sections_of_missing (change : Change) (h : ∃ name ∈ names, c.hasSection name = false) :
    ∃ e, sections c names change = .error e := by
  cases hfind : names.find? fun n => !c.hasSection n with
  | none =>
    obtain ⟨name, hname, hmissing⟩ := h
    have hhas := List.find?_eq_none.mp hfind name hname
    rw [hmissing] at hhas
    exact absurd rfl hhas
  | some name => exact ⟨.sectionNotFound name, by rw [sections, hfind]⟩

theorem sections_of_all (h : ∀ name ∈ names, c.hasSection name = true) :
    sections c names change =
      .ok ({ c with sections := c.sections.map (changedAmong names change) },
        (c.sections.filter (changesAmong names change)).length) := by
  have hfind : (names.find? fun n => !c.hasSection n) = none :=
    List.find?_eq_none.mpr fun name hname => by rw [h name hname]; simp
  rw [sections, hfind]
  rfl

/-- A section is among those of some names if one of the names is its own, whatever its case. -/
theorem isAmong_iff {s : Section} :
    isAmong names s = true ↔ ∃ name ∈ names, Text.sameName s.name name = true :=
  List.any_eq_true

theorem isAmong_congr {s s' : Section} (h : s'.name = s.name) (names : List String) :
    isAmong names s' = isAmong names s := by
  simp only [isAmong, Section.isNamed, h]

namespace Achieves

variable {goal : Section → Prop} {touched : List String}

theorem name_changedAmong (h : Achieves change goal touched) (names : List String) (s : Section) :
    (changedAmong names change s).name = s.name := by
  unfold changedAmong
  split
  · exact (h.keeps s).name
  · rfl

theorem changesAmong_eq (h : Achieves change goal touched) (names : List String) (s : Section) :
    changesAmong names change s = decide (s ≠ changedAmong names change s) := by
  rw [changesAmong, h.isSome_eq, changedAmong]
  cases isAmong names s <;> simp

/-- What was changed is not changed again. -/
theorem changesAmong_again (h : Achieves change goal touched) (names : List String) (s : Section) :
    changesAmong names change (changedAmong names change s) = false := by
  rw [changesAmong, isAmong_congr (h.name_changedAmong names s), changedAmong]
  cases isAmong names s with
  | false => rfl
  | true => rw [Bool.true_and, if_pos rfl, h.again]; rfl

theorem sections_again (h : Achieves change goal touched)
    (hall : ∀ name ∈ names, c.hasSection name = true) :
    sections { c with sections := c.sections.map (changedAmong names change) } names change =
      .ok ({ c with sections := c.sections.map (changedAmong names change) }, 0) := by
  have hnamed (name : String) : (fun s : Section => s.isNamed name) ∘ changedAmong names change =
      fun s => s.isNamed name := by
    funext s
    rw [Function.comp_apply, Section.isNamed, h.name_changedAmong, Section.isNamed]
  have hall' : ∀ name ∈ names, Chain.hasSection
      { c with sections := c.sections.map (changedAmong names change) } name = true := by
    intro name hname
    rw [Chain.hasSection, List.any_map, hnamed]
    exact hall name hname
  rw [sections_of_all hall']
  have hsame (s : Section) : changedAmong names change (changedAmong names change s) =
      changedAmong names change s := by
    have hrest := h.changesAmong_again names s
    rw [h.changesAmong_eq, decide_eq_false_iff_not, not_not] at hrest
    exact hrest.symm
  have hnone : ((c.sections.map (changedAmong names change)).filter
      (changesAmong names change)) = [] := by
    refine List.filter_eq_nil_iff.mpr fun s hs => ?_
    obtain ⟨s, -, rfl⟩ := List.mem_map.mp hs
    rw [h.changesAmong_again]
    exact Bool.false_ne_true
  rw [hnone, List.map_map]
  simp only [Function.comp_def, hsame]
  rfl

end Achieves

/-! ## One section after the other -/

/-- How an edit that is given as a whole ends in the chain that it is made to. -/
def outcome (c : Chain) : Except EditError (Chain × Nat) → EStateM.Result EditError Chain Nat
  | .ok (c', n) => .ok n c'
  | .error e => .error e c

theorem run_checkNames (c : Chain) (names : List String) :
    (checkNames names).run c =
      match names.find? fun n => !c.hasSection n with
      | some name => .error (.sectionNotFound name) c
      | none => .ok () c := by
  induction names with
  | nil => rfl
  | cons name names ih =>
    rw [checkNames, EStateM.run_bind, EStateM.run_get]
    cases hname : c.hasSection name with
    | true => simpa [hname, List.find?_cons] using ih
    | false => simp [hname]

theorem run_changeAt (names : List String) (change : Change) (n i : Nat)
    {before after : List Section} {s : Section} (hi : before.length = i) :
    (changeAt names change n i).run { c with sections := before ++ s :: after } =
      .ok (n + (changesAmong names change s).toNat)
        { c with sections := before ++ changedAmong names change s :: after } := by
  have hat : (before ++ s :: after)[i]? = some s := by
    rw [← hi, List.getElem?_append_right (Nat.le_refl _), Nat.sub_self, List.getElem?_cons_zero]
  rw [changeAt, EStateM.run_bind, EStateM.run_get]
  simp only [hat, Option.filter_some]
  cases hamong : isAmong names s with
  | false => simp [changesAmong, changedAmong, hamong]
  | true =>
    rw [if_pos rfl, Option.bind_some]
    cases hchange : change s with
    | none => simp [changesAmong, changedAmong, changed, hamong, hchange]
    | some s' =>
      have hset : (before ++ s :: after).set i s' = before ++ s' :: after := by simp [← hi]
      simp only [hset, changesAmong, changedAmong, changed, hamong, hchange]
      rfl

/-- The sections up to a position are changed, and the others are as they were. -/
theorem run_changeAt_range (c : Chain) (names : List String) (change : Change) {k : Nat}
    (hk : k ≤ c.sections.length) :
    ((List.range k).foldlM (changeAt names change) 0).run c =
      .ok ((c.sections.take k).filter (changesAmong names change)).length
        { c with
          sections :=
            (c.sections.take k).map (changedAmong names change) ++ c.sections.drop k } := by
  induction k with
  | zero => simp
  | succ k ih =>
    have hlt : k < c.sections.length := hk
    have hlength : ((c.sections.take k).map (changedAmong names change)).length = k := by
      rw [List.length_map, List.length_take, Nat.min_eq_left (Nat.le_of_lt hlt)]
    rw [List.range_succ, List.foldlM_append, EStateM.run_bind, ih (Nat.le_of_lt hlt)]
    simp only [List.foldlM_cons, List.foldlM_nil, bind_pure]
    rw [List.drop_eq_getElem_cons hlt, run_changeAt names change _ k hlength,
      List.take_succ_eq_append_getElem hlt, List.filter_append, List.map_append, List.length_append,
      List.append_assoc]
    cases hchanges : changesAmong names change c.sections[k] with
    | false => simp only [List.filter_cons, hchanges]; rfl
    | true => simp only [List.filter_cons, hchanges]; rfl

/-- Changing the sections in place comes to the same as changing the chain as a whole. -/
theorem run_sectionsInPlace (c : Chain) (names : List String) (change : Change) :
    (sectionsInPlace names change).run c = outcome c (sections c names change) := by
  rw [sectionsInPlace, EStateM.run_bind, run_checkNames, sections]
  cases names.find? fun n => !c.hasSection n with
  | some name => rfl
  | none =>
    have hall := run_changeAt_range c names change (Nat.le_refl _)
    rw [List.take_length, List.drop_length, List.append_nil] at hall
    exact hall

/-! ## The four updates -/

namespace Update

/-- The value of the update is one that a section can have. -/
def Acceptable : Update → Prop
  | .branch b => Text.isBlank b = false
  | .mode m | .devMode m => Text.trim m ∈ ["source", "binary", "ignore"]
  | .unitTests _ => True

/-- A section has the value of the update. -/
def Met : Update → Section → Prop
  | .branch b, s => s.get? Property.branch = some (Text.trim b) ∧ s.get? Property.tag = none
  | .mode m, s => s.get? Property.mode = some (Text.trim m)
  | .devMode m, s => s.get? Property.devMode = some (Text.trim m)
  | .unitTests enabled, s => s.has Property.testsUnit = true ∧ s.testsUnit = enabled

/-- The properties that the update is about. -/
def touched : Update → List String
  | .branch _ => [Property.branch, Property.tag]
  | .mode _ => [Property.mode]
  | .devMode _ => [Property.devMode]
  | .unitTests _ => [Property.testsUnit]

theorem modeProperty_eq (property : String) (c : Chain) (names : List String) (mode : String) :
    modeProperty property c names mode =
      (changeMode property mode).bind fun change => sections c names change := by
  unfold modeProperty changeMode
  dsimp only
  cases BuildMode.ofText? (Text.trim mode) <;> rfl

theorem apply_eq (u : Update) (c : Chain) (names : List String) :
    u.apply c names = u.toChange.bind fun change => sections c names change := by
  cases u with
  | branch branch =>
    unfold apply toChange Edit.branch
    dsimp only
    cases Text.trimmed? branch <;> rfl
  | mode mode => exact modeProperty_eq Property.mode c names mode
  | devMode mode => exact modeProperty_eq Property.devMode c names mode
  | unitTests enabled => rfl

theorem run_inPlace (u : Update) (c : Chain) (names : List String) :
    (u.inPlace names).run c = outcome c (u.apply c names) := by
  rw [apply_eq, inPlace]
  cases u.toChange with
  | ok change => exact run_sectionsInPlace c names change
  | error e => rfl

/-- A mode is one of the three texts, and the change sets it as it is written. -/
theorem changeMode_cases (property mode : String) :
    (Text.trim mode ∈ ["source", "binary", "ignore"] ∧
        changeMode property mode = .ok (setProperty property (Text.trim mode))) ∨
      (Text.trim mode ∉ ["source", "binary", "ignore"] ∧
        changeMode property mode = .error (.invalidMode property (Text.trim mode))) := by
  unfold changeMode
  cases hmode : BuildMode.ofText? (Text.trim mode) with
  | none =>
    refine .inr ⟨fun hmem => ?_, rfl⟩
    have hnone := List.find?_eq_none.mp hmode
    simp only [List.mem_cons, List.not_mem_nil, or_false] at hmem
    rcases hmem with h | h | h
    · exact hnone .source (by simp) (decide_eq_true h.symm)
    · exact hnone .binary (by simp) (decide_eq_true h.symm)
    · exact hnone .ignored (by simp) (decide_eq_true h.symm)
  | some m =>
    have htext : decide (m.text = Text.trim mode) = true :=
      List.find?_some (p := fun m : BuildMode => decide (m.text = Text.trim mode)) hmode
    rw [decide_eq_true_iff] at htext
    rw [← htext]
    refine .inl ⟨?_, rfl⟩
    cases m <;> decide

theorem toChange_cases (u : Update) :
    (u.Acceptable ∧ ∃ change, u.toChange = .ok change ∧ Achieves change u.Met u.touched) ∨
      (¬u.Acceptable ∧ ∃ e, u.toChange = .error e) := by
  cases u with
  | branch branch =>
    unfold toChange Text.trimmed?
    dsimp only
    cases hblank : Text.isBlank branch with
    | true =>
      exact .inr ⟨by rw [Acceptable, hblank]; exact Bool.noConfusion, .blankBranch, rfl⟩
    | false => exact .inl ⟨hblank, _, rfl, setBranch_achieves (Text.trim branch)⟩
  | mode mode =>
    rcases changeMode_cases Property.mode mode with ⟨hmem, heq⟩ | ⟨hnot, heq⟩
    · exact .inl ⟨hmem, _, heq, setProperty_achieves Property.mode (Text.trim mode)⟩
    · exact .inr ⟨hnot, _, heq⟩
  | devMode mode =>
    rcases changeMode_cases Property.devMode mode with ⟨hmem, heq⟩ | ⟨hnot, heq⟩
    · exact .inl ⟨hmem, _, heq, setProperty_achieves Property.devMode (Text.trim mode)⟩
    · exact .inr ⟨hnot, _, heq⟩
  | unitTests enabled => exact .inl ⟨trivial, _, rfl, setTestsUnit_achieves enabled⟩

/-- A chain after an update, and how many of its sections are different. -/
structure Made (u : Update) (names : List String) (c c' : Chain) (n : Nat) : Prop where
  rest : c' = { c with sections := c'.sections }
  /-- The sections stay where they are, and those of the names have the value of the update. -/
  each : List.Forall₂ (fun s s' =>
    if ∃ name ∈ names, Text.sameName s.name name = true then u.Met s' ∧ Keeps u.touched s s'
    else s' = s) c.sections c'.sections
  count : n = ((c.sections.zip c'.sections).filter fun e => e.1 ≠ e.2).length
  /-- Making the update again changes nothing. -/
  again : u.apply c' names = .ok (c', 0)

theorem made_of_all {u : Update} (hchange : u.toChange = .ok change)
    (h : Achieves change u.Met u.touched) (hall : ∀ name ∈ names, c.hasSection name = true) :
    u.Made names c { c with sections := c.sections.map (changedAmong names change) }
      (c.sections.filter (changesAmong names change)).length := by
  constructor
  case rest => rfl
  case each =>
    rw [List.forall₂_map_right_iff, List.forall₂_same]
    intro s _
    simp only [changedAmong, isAmong_iff]
    split
    · exact ⟨h.reached s, h.keeps s⟩
    · rfl
  case count =>
    rw [length_filter_zip_map]
    refine congrArg List.length (List.filter_congr fun s _ => ?_)
    exact h.changesAmong_eq names s
  case again =>
    rw [apply_eq, hchange]
    exact h.sections_again hall

/-- An update is made to all sections of the names or, if a name has no section or the value is not
acceptable, to none. Made in place, section by section, it ends in the same way, and a failure has
then changed nothing. -/
theorem made_or_refused (u : Update) (c : Chain) (names : List String) :
    (u.inPlace names).run c = outcome c (u.apply c names) ∧
      match u.apply c names with
      | .ok (c', n) =>
        (u.Acceptable ∧ ∀ name ∈ names, c.hasSection name = true) ∧ u.Made names c c' n
      | .error _ => ¬u.Acceptable ∨ ∃ name ∈ names, c.hasSection name = false := by
  refine ⟨u.run_inPlace c names, ?_⟩
  rw [apply_eq]
  rcases u.toChange_cases with ⟨hok, change, hchange, h⟩ | ⟨hnot, e, hchange⟩
  · rw [hchange, Except.bind]
    by_cases hall : ∀ name ∈ names, c.hasSection name = true
    · rw [sections_of_all hall]
      exact ⟨⟨hok, hall⟩, made_of_all hchange h hall⟩
    · push Not at hall
      obtain ⟨name, hname, hmissing⟩ := hall
      have hmissing : ∃ name ∈ names, c.hasSection name = false :=
        ⟨name, hname, Bool.eq_false_iff.mpr hmissing⟩
      obtain ⟨e, he⟩ := sections_of_missing change hmissing
      rw [he]
      exact .inr hmissing
  · rw [hchange, Except.bind]
    exact .inl hnot

end Update

end BuildChain.Edit
