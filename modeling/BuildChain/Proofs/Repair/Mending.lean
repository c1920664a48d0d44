import BuildChain.Proofs.Chain.Sections
import BuildChain.Repair.Fixer

/-!
# What repairs leave behind

A repair touches one property of one section, one stored version or one flag, and what it leaves
there does not depend on what it finds; only the repair of a missing developer version looks at the
chain. So a run of repairs can be followed one component at a time.
-/

namespace BuildChain

/-- Whether an issue is about the section of a name. -/
def Issue.concerns (i : Issue) (name : String) : Bool :=
  i.sectionName.any fun n => Text.sameName name n

/-- The version that is stored under a key, blank or not. -/
def Globals.stored? (g : Globals) (key : String) : Option String :=
  if key = GlobalKey.version then g.version
  else if key = GlobalKey.devVersion then g.devVersion
  else none

theorem Globals.versionAt?_eq (g : Globals) (key : String) :
    g.versionAt? key = nonBlank? (g.stored? key) := by
  unfold versionAt? stored?
  split
  · rfl
  · split <;> rfl

namespace Repair

variable {r : Repair} {c : Chain} {i : Issue}

/-- The chain after a repair was tried. -/
def after (r : Repair) (c : Chain) (i : Issue) : Chain :=
  match r.apply c i with
  | .ok (some c') => c'
  | _ => c

/-! ## Sections -/

def onSection (r : Repair) (s : Section) : Section :=
  match r with
  | setProperty suffix value => s.set suffix value
  | removeProperty suffix => s.erase suffix
  | _ => s

/-- What a repair leaves at a property of the section it is about. -/
def leavesProperty? (r : Repair) (p : String) : Option (Option String) :=
  match r with
  | setProperty suffix value => if p = suffix then some (some value) else none
  | removeProperty suffix => if p = suffix then some none else none
  | _ => none

theorem name_onSection (r : Repair) (s : Section) : (r.onSection s).name = s.name := by
  cases r <;> rfl

theorem get?_onSection (r : Repair) (s : Section) (p : String) :
    (r.onSection s).get? p = (r.leavesProperty? p).getD (s.get? p) := by
  cases r with
  | setProperty suffix value =>
    rw [onSection, Section.get?_set, leavesProperty?]
    split <;> rfl
  | removeProperty suffix =>
    rw [onSection, Section.get?_erase, leavesProperty?]
    split <;> rfl
  | _ => rfl

/-- A repair that edits the section of an issue, unless there is nothing to edit, leaves the edited
section in every case. -/
theorem after_edit {edit : Section → Section} {p : Section → Prop} [DecidablePred p]
    (happly : r.apply c i = sectionOf c i >>= fun e =>
      if p e.2 then pure none else pure (some (c.modifySection e.1 edit)))
    (hdone : ∀ s, p s → edit s = s) :
    r.after c i = (i.sectionName.map fun name => c.modifySection name edit).getD c := by
  rw [after, happly]
  unfold sectionOf
  cases i.sectionName with
  | none => rfl
  | some name =>
    have hself (h : ∀ s, c.section? name = some s → edit s = s) : c.modifySection name edit = c :=
      c.modifySection_eq_self name h
    dsimp only
    cases hs : c.section? name with
    | none =>
      exact (hself fun s hs' => by rw [hs] at hs'; cases hs').symm
    | some s =>
      by_cases hd : p s
      · have hkeep := hself fun s' hs' => by
          rw [hs] at hs'
          cases hs'
          exact hdone s hd
        simp [hd, hkeep, bind, Except.bind, pure, Except.pure]
      · simp [hd, bind, Except.bind, pure, Except.pure]

theorem after_setProperty (c : Chain) (i : Issue) (suffix value : String) :
    (setProperty suffix value).after c i =
      (i.sectionName.map fun name => c.modifySection name fun s => s.set suffix value).getD c :=
  after_edit (p := fun s => s.get? suffix = some value) rfl fun _ => Section.set_self

theorem after_removeProperty (c : Chain) (i : Issue) (suffix : String) :
    (removeProperty suffix).after c i =
      (i.sectionName.map fun name => c.modifySection name fun s => s.erase suffix).getD c :=
  after_edit (p := fun s => (s.get? suffix).isNone = true) rfl fun _ h =>
    Section.erase_eq_self (Option.isNone_iff_eq_none.mp h)

/-- What an edited section does not show in stays as it is. -/
theorem view_edit {α : Type} {view : Chain → α} {edit : Section → Section}
    (hview : ∀ name, view (c.modifySection name edit) = view c) :
    view ((i.sectionName.map fun name => c.modifySection name edit).getD c) = view c := by
  cases i.sectionName with
  | none => rfl
  | some name => exact hview name

/-! ## Versions and flags -/

/-- The globals after a version was set; other keys are not versions. -/
def store (g : Globals) (key value : String) : Globals :=
  if key = GlobalKey.version then { g with version := some value }
  else if key = GlobalKey.devVersion then { g with devVersion := some value }
  else g

theorem stored?_store {k : String} (hk : k ∈ [GlobalKey.version, GlobalKey.devVersion])
    (g : Globals) (key value : String) :
    (store g key value).stored? k = if k = key then some value else g.stored? k := by
  have hne : GlobalKey.devVersion ≠ GlobalKey.version := by decide
  unfold store Globals.stored?
  rcases List.mem_pair.mp hk with rfl | rfl
  · by_cases hkey : key = GlobalKey.version
    · simp [hkey]
    · by_cases hdev : key = GlobalKey.devVersion
      · simp [hdev, hne, hne.symm]
      · simp [hkey, hdev, Ne.symm hkey]
  · by_cases hkey : key = GlobalKey.version
    · simp [hkey, hne]
    · by_cases hdev : key = GlobalKey.devVersion
      · simp [hdev, hne]
      · simp [hkey, hdev, Ne.symm hdev]

theorem after_of_setVersion {key value : String} (happly : r.apply c i = setVersion c key value) :
    r.after c i = { c with globals := store c.globals key value } := by
  rw [after, happly]
  unfold setVersion store
  by_cases hversion : key = GlobalKey.version
  · by_cases hset : c.globals.version = some value
    · simp [hversion, ← hset]
    · simp [hversion, hset]
  · by_cases hdev : key = GlobalKey.devVersion
    · by_cases hset : c.globals.devVersion = some value
      · simp [hdev, ← hset, show GlobalKey.devVersion ≠ GlobalKey.version by decide]
      · simp [hdev, hset, show GlobalKey.devVersion ≠ GlobalKey.version by decide]
    · simp [hversion, hdev]

theorem after_resetVersion (c : Chain) (i : Issue) (version devVersion : String) :
    (resetVersion version devVersion).after c i =
      (i.target.map fun key =>
        let value := if key = GlobalKey.version then version else devVersion
        { c with globals := store c.globals key value }).getD c := by
  cases htarget : i.target with
  | none => simp [after, apply, targetOf, htarget, bind, Except.bind]
  | some key =>
    refine after_of_setVersion ?_
    simp [apply, targetOf, htarget, bind, Except.bind]

/-- The developer version for a chain that has none. -/
def filling (fallback : String) (g : Globals) : String :=
  ((g.versionAt? GlobalKey.version).map Text.trim).getD fallback

theorem isBlank_filling {fallback : String} (hfallback : Text.isBlank fallback = false)
    (g : Globals) : Text.isBlank (filling fallback g) = false := by
  unfold filling
  cases hraw : g.versionAt? GlobalKey.version with
  | none => exact hfallback
  | some raw =>
    rw [Globals.versionAt?_eq, Globals.nonBlank?, Option.filter_eq_some_iff] at hraw
    rw [Option.map_some, Option.getD_some, Text.isBlank_trim]
    simpa using hraw.2

/-- The chain with a developer version, which is filled in if there is none. -/
def filled (fallback : String) (c : Chain) : Chain :=
  if (c.globals.versionAt? GlobalKey.devVersion).isSome then c
  else { c with globals := { c.globals with devVersion := some (filling fallback c.globals) } }

theorem after_fillDevVersion (c : Chain) (i : Issue) (fallback : String) :
    (fillDevVersion fallback).after c i = filled fallback c := by
  rw [after, apply, filled]
  by_cases hset : (c.globals.versionAt? GlobalKey.devVersion).isSome = true
  · rw [if_pos hset, if_pos hset]
  · rw [if_neg hset, if_neg hset]
    rfl

theorem stored?_version_filled (fallback : String) (c : Chain) :
    (filled fallback c).globals.stored? GlobalKey.version =
      c.globals.stored? GlobalKey.version := by
  unfold filled
  split <;> rfl

/-- Setting a flag that is set already, where no text is kept for the suite, changes nothing. -/
theorem setFlag_eq_self {suite : String} {enabled : Bool}
    (hdone : (!c.rawFlags.contains suite && c.flags.get? suite = some enabled) = true) :
    c.setFlag suite enabled = c := by
  simp only [Bool.and_eq_true, Bool.not_eq_true', decide_eq_true_eq] at hdone
  have hraw : c.rawFlags.get? suite = none := by
    rw [← Option.isNone_iff_eq_none, ← Option.isSome_eq_false_iff, ← Bool.not_eq_true,
      ← OrderedMap.contains_iff, hdone.1]
    exact Bool.false_ne_true
  rw [Chain.setFlag, OrderedMap.erase_eq_self hraw, OrderedMap.insert_self hdone.2]

theorem after_setFlag (c : Chain) (i : Issue) (enabled : Bool) :
    (setFlag enabled).after c i =
      (i.target.map fun suite => c.setFlag suite enabled).getD c := by
  cases htarget : i.target with
  | none => simp [after, apply, targetOf, htarget, bind, Except.bind]
  | some suite =>
    by_cases hdone : (!c.rawFlags.contains suite && c.flags.get? suite = some enabled) = true
    · have hkeep := setFlag_eq_self hdone
      simp [after, apply, targetOf, htarget, bind, Except.bind, pure, Except.pure, hdone, hkeep]
    · simp [after, apply, targetOf, htarget, bind, Except.bind, pure, Except.pure, hdone]

/-! ## Component by component -/

/-- What a repair leaves stored under a version key. -/
def leavesVersion? (r : Repair) (i : Issue) (key : String) : Option (Option String) :=
  match r with
  | setGlobal key' value => if key = key' then some (some value) else none
  | resetVersion version devVersion =>
    if i.target = some key then
      some (some (if key = GlobalKey.version then version else devVersion))
    else none
  | _ => none

/-- What a repair leaves of the text kept for a suite. -/
def leavesRawFlag? (r : Repair) (i : Issue) (suite : String) : Option (Option String) :=
  match r with
  | setFlag _ => if i.target = some suite then some none else none
  | _ => none

def isFilling : Repair → Bool
  | fillDevVersion _ => true
  | _ => false

/-- A repair edits the section that the issue is about and no other. -/
theorem sections_after (hdist : c.DistinctNames) (r : Repair) (i : Issue) :
    (r.after c i).sections =
      c.sections.map fun s => if i.concerns s.name = true then r.onSection s else s := by
  have hedit (edit : Section → Section) :
      ((i.sectionName.map fun name => c.modifySection name edit).getD c).sections =
        c.sections.map fun s => if i.concerns s.name = true then edit s else s := by
    unfold Issue.concerns
    cases i.sectionName with
    | none => simp
    | some name => exact Chain.sections_modifySection hdist name edit
  have hkeep : c.sections = c.sections.map fun s => if i.concerns s.name = true then s else s := by
    simp only [ite_self, List.map_id']
  cases r with
  | setProperty suffix value => rw [after_setProperty, hedit]; rfl
  | removeProperty suffix => rw [after_removeProperty, hedit]; rfl
  | setGlobal key value => exact (congrArg Chain.sections (after_of_setVersion rfl)).trans hkeep
  | resetVersion version devVersion =>
    rw [after_resetVersion]
    cases i.target <;> exact hkeep
  | fillDevVersion fallback =>
    rw [after_fillDevVersion, filled]
    split <;> exact hkeep
  | setFlag enabled =>
    rw [after_setFlag]
    cases i.target <;> exact hkeep

theorem stored?_after {key : String} (hkey : key ∈ [GlobalKey.version, GlobalKey.devVersion])
    (hfill : r.isFilling = true → key ≠ GlobalKey.devVersion) (c : Chain) (i : Issue) :
    (r.after c i).globals.stored? key =
      (r.leavesVersion? i key).getD (c.globals.stored? key) := by
  have hedit (edit : Section → Section) :
      ((i.sectionName.map fun name => c.modifySection name edit).getD c).globals = c.globals :=
    view_edit fun _ => rfl
  cases r with
  | setProperty suffix value => rw [after_setProperty, hedit]; rfl
  | removeProperty suffix => rw [after_removeProperty, hedit]; rfl
  | setGlobal key' value =>
    rw [after_of_setVersion rfl, stored?_store hkey, leavesVersion?]
    split <;> rfl
  | resetVersion version devVersion =>
    rw [after_resetVersion, leavesVersion?]
    cases htarget : i.target with
    | none => simp
    | some key' =>
      simp only [Option.map_some, Option.getD_some, Option.some.injEq]
      rw [stored?_store hkey]
      by_cases h : key = key'
      · simp [h]
      · simp [h, Ne.symm h]
  | fillDevVersion fallback =>
    have hversion : key = GlobalKey.version := by
      rcases List.mem_pair.mp hkey with h | h
      · exact h
      · exact absurd h (hfill rfl)
    rw [after_fillDevVersion, hversion]
    exact stored?_version_filled fallback c
  | setFlag enabled =>
    rw [after_setFlag]
    cases i.target <;> rfl

theorem get?_rawFlags_after (r : Repair) (c : Chain) (i : Issue) (suite : String) :
    (r.after c i).rawFlags.get? suite =
      (r.leavesRawFlag? i suite).getD (c.rawFlags.get? suite) := by
  have hedit (edit : Section → Section) :
      ((i.sectionName.map fun name => c.modifySection name edit).getD c).rawFlags =
        c.rawFlags := view_edit fun _ => rfl
  cases r with
  | setProperty suffix value => rw [after_setProperty, hedit]; rfl
  | removeProperty suffix => rw [after_removeProperty, hedit]; rfl
  | setGlobal key value => rw [after_of_setVersion rfl]; rfl
  | resetVersion version devVersion =>
    rw [after_resetVersion]
    cases i.target <;> rfl
  | fillDevVersion fallback =>
    rw [after_fillDevVersion, filled]
    split <;> rfl
  | setFlag enabled =>
    rw [after_setFlag, leavesRawFlag?]
    cases htarget : i.target with
    | none => simp
    | some suite' =>
      simp only [Option.map_some, Option.getD_some, Chain.setFlag, OrderedMap.get?_erase,
        Option.some.injEq]
      by_cases h : suite = suite'
      · simp [h]
      · simp [h, Ne.symm h]

/-- Only the repair of a flag changes the flags. -/
theorem flags_after (r : Repair) (c : Chain) (i : Issue) :
    (r.after c i).flags = c.flags ∧ (r.after c i).rawFlags = c.rawFlags ∨
      ∃ enabled suite, r = setFlag enabled ∧ i.target = some suite ∧
        r.after c i = c.setFlag suite enabled := by
  have hedit (edit : Section → Section) :
      ((i.sectionName.map fun name => c.modifySection name edit).getD c).flags = c.flags ∧
        ((i.sectionName.map fun name => c.modifySection name edit).getD c).rawFlags =
          c.rawFlags := ⟨view_edit fun _ => rfl, view_edit fun _ => rfl⟩
  cases r with
  | setProperty suffix value => exact .inl (after_setProperty c i suffix value ▸ hedit _)
  | removeProperty suffix => exact .inl (after_removeProperty c i suffix ▸ hedit _)
  | setGlobal key value =>
    rw [after_of_setVersion rfl]
    exact .inl ⟨rfl, rfl⟩
  | resetVersion version devVersion =>
    rw [after_resetVersion]
    cases i.target <;> exact .inl ⟨rfl, rfl⟩
  | fillDevVersion fallback =>
    rw [after_fillDevVersion, filled]
    split <;> exact .inl ⟨rfl, rfl⟩
  | setFlag enabled =>
    rw [after_setFlag]
    cases htarget : i.target with
    | none => exact .inl ⟨rfl, rfl⟩
    | some suite => exact .inr ⟨enabled, suite, rfl, rfl, rfl⟩

/-- No repair changes the recipients or the text that the chain was read from. -/
theorem recipients_source_after (r : Repair) (c : Chain) (i : Issue) :
    (r.after c i).globals.recipients = c.globals.recipients ∧
      (r.after c i).source = c.source := by
  have hedit (edit : Section → Section) :
      ((i.sectionName.map fun name => c.modifySection name edit).getD c).globals.recipients =
          c.globals.recipients ∧
        ((i.sectionName.map fun name => c.modifySection name edit).getD c).source = c.source :=
    ⟨congrArg Globals.recipients (view_edit fun _ => rfl), view_edit fun _ => rfl⟩
  have hstore (key value : String) : (store c.globals key value).recipients =
      c.globals.recipients := by
    unfold store
    split
    · rfl
    · split <;> rfl
  cases r with
  | setProperty suffix value => exact after_setProperty c i suffix value ▸ hedit _
  | removeProperty suffix => exact after_removeProperty c i suffix ▸ hedit _
  | setGlobal key value =>
    rw [after_of_setVersion rfl]
    exact ⟨hstore key value, rfl⟩
  | resetVersion version devVersion =>
    rw [after_resetVersion]
    cases i.target with
    | none => exact ⟨rfl, rfl⟩
    | some key => exact ⟨hstore key _, rfl⟩
  | fillDevVersion fallback =>
    rw [after_fillDevVersion, filled]
    split <;> exact ⟨rfl, rfl⟩
  | setFlag enabled =>
    rw [after_setFlag]
    cases i.target <;> exact ⟨rfl, rfl⟩

end Repair

end BuildChain
