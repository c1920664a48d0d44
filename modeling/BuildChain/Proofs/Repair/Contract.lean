import BuildChain.Proofs.Chain.Agreement
import BuildChain.Proofs.Edit
import BuildChain.Proofs.Repair.Standard

/-!
# The contract of repairs

A repair that works on a chain in place finds out by itself whether it changes anything: it compares
before it writes, or it writes and tells from what it found. Either way it reports a change exactly
if the chain is another one afterwards, it has nothing to do when it is tried again, and it fails
before it has touched anything. It stays with the one property, version or flag that it is about.
-/

namespace BuildChain

namespace Repair

open Rule (StandardId)

/-! ## Repairing in place -/

/-- How a repair that gives the repaired chain ends when it works on the chain. -/
def outcome (c : Chain) : Except RepairError (Option Chain) → EStateM.Result RepairError Chain Bool
  | .ok (some c') => .ok true c'
  | .ok none => .ok false c
  | .error e => .error e c

variable {r : Repair} {c c' : Chain} {i : Issue}

/-- The section of an issue is found where it stands, or there is none. -/
theorem locate_cases (c : Chain) (i : Issue) :
    (∃ e, sectionOf c i = .error e ∧ (locate i).run c = .error e c) ∨
      ∃ name before s after, i.sectionName = some name ∧ c.sections = before ++ s :: after ∧
        (∀ t ∈ before, t.isNamed name = false) ∧ s.isNamed name = true ∧
        sectionOf c i = .ok (name, s) ∧ (locate i).run c = .ok (s, before.length) c := by
  unfold sectionOf locate
  cases hname : i.sectionName with
  | none => exact .inl ⟨_, rfl, rfl⟩
  | some name =>
    dsimp only
    rw [EStateM.run_bind, EStateM.run_get]
    dsimp only
    cases hs : c.section? name with
    | none =>
      refine .inl ⟨_, rfl, ?_⟩
      have hnone : (c.sections.zipIdx.find? fun e => e.1.isNamed name) = none := by
        rw [List.find?_eq_none]
        intro e he
        exact List.find?_eq_none.mp hs e.1 (List.fst_mem_of_mem_zipIdx he)
      rw [hnone]
      rfl
    | some s =>
      obtain ⟨hnamed, before, after, hsplit, hbefore⟩ := List.find?_eq_some_iff_append.mp hs
      refine .inr ⟨name, before, s, after, rfl, hsplit, fun t ht => by simpa using hbefore t ht,
        hnamed, rfl, ?_⟩
      have hfind : (c.sections.zipIdx.find? fun e => e.1.isNamed name) =
          some (s, before.length) := by
        have hskip : (before.zipIdx.find? fun e => e.1.isNamed name) = none := by
          rw [List.find?_eq_none]
          intro e he
          simpa using hbefore e.1 (List.fst_mem_of_mem_zipIdx he)
        rw [hsplit, List.zipIdx_append, List.find?_append, hskip, List.zipIdx_cons]
        simp [hnamed]
      rw [hfind]
      rfl

theorem run_exchange (c : Chain) {before after : List Section} {s : Section}
    (hsplit : c.sections = before ++ s :: after) (s' : Section) :
    (exchange before.length s').run c =
      .ok () { c with sections := before ++ s' :: after } := by
  have hset : c.sections.set before.length s' = before ++ s' :: after := by simp [hsplit]
  rw [← hset]
  rfl

theorem modifySection_eq {name : String} {before after : List Section} {s : Section}
    (hsplit : c.sections = before ++ s :: after)
    (hbefore : ∀ t ∈ before, t.isNamed name = false) (hnamed : s.isNamed name = true)
    (f : Section → Section) :
    c.modifySection name f = { c with sections := before ++ f s :: after } := by
  rw [Chain.modifySection, hsplit]
  exact congrArg (fun sections => { c with sections := sections })
    (Chain.modifyFirst_append hbefore hnamed after)

theorem run_storeVersion (c : Chain) (key value : String) :
    (storeVersion key value).run c = outcome c (setVersion c key value) := by
  unfold storeVersion setVersion
  rw [EStateM.run_bind, EStateM.run_get]
  dsimp only
  split
  · split <;> rfl
  · split
    · split <;> rfl
    · rfl

theorem askTarget_cases (c : Chain) (i : Issue) :
    (∃ e, targetOf i = .error e ∧ (askTarget i).run c = .error e c) ∨
      ∃ target, i.target = some target ∧ targetOf i = .ok target ∧
        (askTarget i).run c = .ok target c := by
  unfold targetOf askTarget
  cases i.target with
  | none => exact .inl ⟨_, rfl, rfl⟩
  | some target => exact .inr ⟨target, rfl, rfl, rfl⟩

/-! ### What repairs do -/

theorem apply_setProperty {name : String} {s : Section} (h : sectionOf c i = .ok (name, s))
    (suffix value : String) : (setProperty suffix value).apply c i =
      if s.get? suffix = some value then .ok none
      else .ok (some (c.modifySection name fun s => s.set suffix value)) := by
  rw [apply, h]
  rfl

theorem apply_removeProperty {name : String} {s : Section} (h : sectionOf c i = .ok (name, s))
    (suffix : String) : (removeProperty suffix).apply c i =
      if (s.get? suffix).isNone then .ok none
      else .ok (some (c.modifySection name fun s => s.erase suffix)) := by
  rw [apply, h]
  rfl

theorem apply_setFlag {suite : String} (h : targetOf i = .ok suite) (enabled : Bool) :
    (setFlag enabled).apply c i =
      if !c.rawFlags.contains suite && c.flags.get? suite = some enabled then .ok none
      else .ok (some (c.setFlag suite enabled)) := by
  rw [apply, h]
  rfl

/-- A repair in place comes to the same as one that gives the repaired chain. -/
theorem run_inPlace (r : Repair) (c : Chain) (i : Issue) :
    (r.inPlace i).run c = outcome c (r.apply c i) := by
  cases r with
  | setProperty suffix value =>
    rw [inPlace, EStateM.run_bind]
    rcases locate_cases c i with ⟨e, hof, hrun⟩ |
      ⟨name, before, s, after, -, hsplit, hbefore, hnamed, hof, hrun⟩
    · rw [apply, hof, hrun]
      rfl
    · rw [apply_setProperty hof, hrun]
      dsimp only
      split
      · rfl
      · rw [EStateM.run_bind, run_exchange c hsplit, modifySection_eq hsplit hbefore hnamed]
        rfl
  | removeProperty suffix =>
    rw [inPlace, EStateM.run_bind]
    rcases locate_cases c i with ⟨e, hof, hrun⟩ |
      ⟨name, before, s, after, -, hsplit, hbefore, hnamed, hof, hrun⟩
    · rw [apply, hof, hrun]
      rfl
    · rw [apply_removeProperty hof, hrun]
      dsimp only
      rw [EStateM.run_bind, run_exchange c hsplit, modifySection_eq hsplit hbefore hnamed]
      cases hget : s.get? suffix with
      | none =>
        -- erasing what is not there leaves the section as it is
        rw [Section.erase_eq_self hget, ← hsplit]
        rfl
      | some value => rfl
  | setGlobal key value => exact run_storeVersion c key value
  | resetVersion version devVersion =>
    rw [inPlace, EStateM.run_bind, apply]
    rcases askTarget_cases c i with ⟨e, hof, hrun⟩ | ⟨key, -, hof, hrun⟩
    · rw [hof, hrun]
      rfl
    · rw [hof, hrun]
      exact run_storeVersion c key _
  | fillDevVersion fallback =>
    rw [inPlace, EStateM.run_bind, EStateM.run_get, apply]
    dsimp only
    split <;> rfl
  | setFlag enabled =>
    rw [inPlace, EStateM.run_bind]
    rcases askTarget_cases c i with ⟨e, hof, hrun⟩ | ⟨suite, -, hof, hrun⟩
    · rw [apply, hof, hrun]
      rfl
    · rw [apply_setFlag hof, hrun]
      have hworks : (do
          let c ← get
          set (c.setFlag suite enabled)
          return c.rawFlags.contains suite || c.flags.get? suite != some enabled :
            Repairing Bool).run c =
          .ok (c.rawFlags.contains suite || c.flags.get? suite != some enabled)
            (c.setFlag suite enabled) := rfl
      have hreport : (c.rawFlags.contains suite || c.flags.get? suite != some enabled) =
          !(!c.rawFlags.contains suite && decide (c.flags.get? suite = some enabled)) := by
        rw [Bool.not_and, Bool.not_not, bne, ← beq_eq_decide]
      dsimp only
      rw [hworks, hreport]
      split
      · rename_i hdone
        rw [setFlag_eq_self hdone, hdone]
        rfl
      · rename_i hnew
        rw [Bool.eq_false_iff.mpr hnew]
        rfl

/-! ### Nothing is left to do

A report must not hang on the order of the entries of a map, so when a repair has nothing to do is
told by what the chain holds.
-/

section Edits

variable {f : Section → Section} {p : Section → Prop} [DecidablePred p]

/-- A repair that edits the section of an issue has nothing to do where it finds it edited. -/
theorem edit_eq_none_iff (happly : r.apply c i = sectionOf c i >>= fun e =>
      if p e.2 then pure none else pure (some (c.modifySection e.1 f))) :
    r.apply c i = .ok none ↔
      ∃ name s, i.sectionName = some name ∧ c.section? name = some s ∧ p s := by
  rw [happly]
  unfold sectionOf
  cases i.sectionName with
  | none => simp [bind, Except.bind]
  | some name =>
    dsimp only
    cases hs : c.section? name with
    | none => simp [bind, Except.bind, hs]
    | some s => by_cases hp : p s <;> simp [bind, Except.bind, pure, Except.pure, hs, hp]

theorem section?_of_edit (happly : r.apply c i = sectionOf c i >>= fun e =>
      if p e.2 then pure none else pure (some (c.modifySection e.1 f)))
    (hf : ∀ s, (f s).name = s.name) (h : r.apply c i = .ok (some c')) :
    ∃ name s, i.sectionName = some name ∧ c'.section? name = some (f s) := by
  rw [happly] at h
  unfold sectionOf at h
  cases hname : i.sectionName with
  | none =>
    rw [hname] at h
    cases h
  | some name =>
    rw [hname] at h
    dsimp only at h
    cases hs : c.section? name with
    | none =>
      rw [hs] at h
      cases h
    | some s =>
      have hafter : c' = c.modifySection name f := by
        by_cases hp : p s
        · simp [hs, hp, bind, Except.bind, pure, Except.pure] at h
        · simpa [hs, hp, bind, Except.bind, pure, Except.pure, eq_comm] using h
      refine ⟨name, s, rfl, ?_⟩
      rw [hafter, c.section?_modifySection name name hf, if_pos (Text.sameName_refl name), hs,
        Option.map_some]

end Edits

/-- Whether the chain holds already what the repair would bring about. -/
def isDone (r : Repair) (c : Chain) (i : Issue) : Prop :=
  match r with
  | setProperty suffix value =>
    ∃ name s, i.sectionName = some name ∧ c.section? name = some s ∧ s.get? suffix = some value
  | removeProperty suffix =>
    ∃ name s, i.sectionName = some name ∧ c.section? name = some s ∧
      (s.get? suffix).isNone = true
  | setGlobal key value => c.globals.stored? key = some value
  | resetVersion version devVersion =>
    ∃ key, i.target = some key ∧
      c.globals.stored? key = some (if key = GlobalKey.version then version else devVersion)
  | fillDevVersion _ => (c.globals.versionAt? GlobalKey.devVersion).isSome = true
  | setFlag enabled =>
    ∃ suite, i.target = some suite ∧ c.rawFlags.get? suite = none ∧
      c.flags.get? suite = some enabled

theorem setVersion_eq_none_iff {key value : String} :
    setVersion c key value = .ok none ↔ c.globals.stored? key = some value := by
  unfold setVersion Globals.stored?
  split
  · split <;> simp_all
  · split
    · split <;> simp_all
    · simp

theorem apply_eq_none_iff : r.apply c i = .ok none ↔ r.isDone c i := by
  cases r with
  | setProperty suffix value =>
    exact edit_eq_none_iff (p := fun s => s.get? suffix = some value) rfl
  | removeProperty suffix =>
    exact edit_eq_none_iff (p := fun s => (s.get? suffix).isNone = true) rfl
  | setGlobal key value => exact setVersion_eq_none_iff
  | resetVersion version devVersion =>
    rw [apply, isDone, targetOf]
    cases i.target with
    | none => simp [bind, Except.bind]
    | some key => simpa [bind, Except.bind] using setVersion_eq_none_iff
  | fillDevVersion fallback =>
    rw [apply, isDone]
    split <;> simp_all
  | setFlag enabled =>
    rw [isDone]
    cases htarget : i.target with
    | none => simp [apply, targetOf, htarget, bind, Except.bind]
    | some suite =>
      have hraw : (!c.rawFlags.contains suite) = (c.rawFlags.get? suite).isNone := by
        rw [Bool.not_eq_eq_eq_not, Bool.eq_iff_iff, OrderedMap.contains_iff]
        simp
      have hof : targetOf i = .ok suite := by rw [targetOf, htarget]
      rw [apply_setFlag hof, hraw]
      simp

theorem isDone_of_agrees (h : c.Agrees c') (hdone : r.isDone c' i) : r.isDone c i := by
  cases r with
  | setProperty suffix value =>
    obtain ⟨name, s', hname, hs', hset⟩ := hdone
    obtain ⟨s, hs, hget⟩ := h.exists_section hs'
    exact ⟨name, s, hname, hs, by rw [hget, hset]⟩
  | removeProperty suffix =>
    obtain ⟨name, s', hname, hs', hgone⟩ := hdone
    obtain ⟨s, hs, hget⟩ := h.exists_section hs'
    exact ⟨name, s, hname, hs, by rw [hget, hgone]⟩
  | setGlobal key value =>
    rw [isDone, h.globals]
    exact hdone
  | resetVersion version devVersion =>
    obtain ⟨key, htarget, hstored⟩ := hdone
    exact ⟨key, htarget, by rw [h.globals, hstored]⟩
  | fillDevVersion fallback =>
    rw [isDone, h.globals]
    exact hdone
  | setFlag enabled =>
    obtain ⟨suite, htarget, hraw, hflag⟩ := hdone
    exact ⟨suite, htarget, (h.rawFlags suite).trans hraw, (h.flags suite).trans hflag⟩

/-- A version that was set is stored. -/
theorem stored?_of_setVersion {key value : String} (h : setVersion c key value = .ok (some c')) :
    c'.globals.stored? key = some value := by
  unfold setVersion at h
  split at h
  · rename_i hkey
    split at h
    · cases h
    · cases h
      exact if_pos hkey
  · rename_i hversion
    split at h
    · rename_i hkey
      split at h
      · cases h
      · cases h
        exact (if_neg hversion).trans (if_pos hkey)
    · cases h

/-- What was repaired is done, if no blank developer version is filled in. -/
theorem isDone_of_apply
    (hfill : ∀ fallback, r = fillDevVersion fallback → Text.isBlank fallback = false)
    (h : r.apply c i = .ok (some c')) : r.isDone c' i := by
  cases r with
  | setProperty suffix value =>
    obtain ⟨name, s, hname, hs⟩ := section?_of_edit (f := fun s => s.set suffix value)
      (p := fun s => s.get? suffix = some value) rfl (fun _ => rfl) h
    exact ⟨name, _, hname, hs, by rw [Section.get?_set, if_pos rfl]⟩
  | removeProperty suffix =>
    obtain ⟨name, s, hname, hs⟩ := section?_of_edit (f := fun s => s.erase suffix)
      (p := fun s => (s.get? suffix).isNone = true) rfl (fun _ => rfl) h
    exact ⟨name, _, hname, hs, by rw [Section.get?_erase, if_pos rfl]; rfl⟩
  | setGlobal key value => exact stored?_of_setVersion h
  | resetVersion version devVersion =>
    rcases askTarget_cases c i with ⟨e, hof, -⟩ | ⟨key, htarget, hof, -⟩
    · rw [apply, hof] at h
      cases h
    · rw [apply, hof] at h
      exact ⟨key, htarget, stored?_of_setVersion h⟩
  | fillDevVersion fallback =>
    rw [apply] at h
    split at h
    · cases h
    · cases h
      have hblank : Text.isBlank (filling fallback c.globals) = false :=
        isBlank_filling (hfill fallback rfl) c.globals
      rw [isDone, Globals.versionAt?_eq, Globals.nonBlank?, Option.isSome_iff_exists]
      exact ⟨filling fallback c.globals, Option.filter_eq_some_iff.mpr ⟨rfl, by rw [hblank]; rfl⟩⟩
  | setFlag enabled =>
    rcases askTarget_cases c i with ⟨e, hof, -⟩ | ⟨suite, htarget, hof, -⟩
    · rw [apply, hof] at h
      cases h
    · rw [apply_setFlag hof] at h
      split at h
      · cases h
      · cases h
        exact ⟨suite, htarget, (c.rawFlags.get?_erase suite suite).trans (if_pos rfl),
          (c.flags.get?_insert suite enabled suite).trans (if_pos rfl)⟩

/-! ## What repairs may touch -/

/-- The one thing that a repair is for. -/
inductive Scope
  /-- A property of the first section of a name. -/
  | property (name suffix : String)
  | version (key : String)
  | suite (name : String)
deriving DecidableEq

/-- Whether two chains differ in the scope at most. -/
def Scope.Confines : Scope → Chain → Chain → Prop
  | property name suffix, c, c' =>
    ∃ before s s' after, c.sections = before ++ s :: after ∧
      (∀ t ∈ before, t.isNamed name = false) ∧ s.isNamed name = true ∧
      Edit.Keeps [suffix] s s' ∧ c' = { c with sections := before ++ s' :: after }
  | version key, c, c' =>
    ∃ g : Globals, c' = { c with globals := g } ∧
      (g.entries.filter fun e => e.1 != key) = c.globals.entries.filter fun e => e.1 != key
  | suite name, c, c' =>
    ∃ flags rawFlags, c' = { c with flags, rawFlags } ∧
      (flags.toList.filter fun e => e.1 != name) =
        (c.flags.toList.filter fun e => e.1 != name) ∧
      (rawFlags.toList.filter fun e => e.1 != name) =
        c.rawFlags.toList.filter fun e => e.1 != name

/-- What the repair of an issue may touch. -/
def scope? (r : Repair) (i : Issue) : Option Scope :=
  match r with
  | setProperty suffix _ | removeProperty suffix =>
    i.sectionName.map fun name => .property name suffix
  | setGlobal key _ => some (.version key)
  | resetVersion _ _ => i.target.map .version
  | fillDevVersion _ => some (.version GlobalKey.devVersion)
  | setFlag _ => i.target.map .suite

/-- Storing a version keeps the globals under the other keys. -/
theorem filter_entries_store (g : Globals) (key value : String) :
    ((store g key value).entries.filter fun e => e.1 != key) =
      g.entries.filter fun e => e.1 != key := by
  unfold store
  split
  · rename_i hkey
    simp [Globals.entries, hkey]
  · split
    · rename_i hkey
      simp only [Globals.entries, List.filter_cons, hkey, bne_self_eq_false]
      rfl
    · rfl

/-- An edit of one property of the section that an issue names, wherever it is found. -/
theorem confines_modifySection {name suffix : String} {before after : List Section} {s : Section}
    (hsplit : c.sections = before ++ s :: after)
    (hbefore : ∀ t ∈ before, t.isNamed name = false) (hnamed : s.isNamed name = true)
    {f : Section → Section} (hkeeps : Edit.Keeps [suffix] s (f s)) :
    (Scope.property name suffix).Confines c (c.modifySection name f) :=
  ⟨before, s, f s, after, hsplit, hbefore, hnamed, hkeeps,
    modifySection_eq hsplit hbefore hnamed f⟩

/-- A repair stays within its scope, whether it has something to do or not. -/
theorem exists_confines {o : Option Chain} (h : r.apply c i = .ok o) :
    ∃ scope ∈ r.scope? i, scope.Confines c (r.after c i) := by
  cases r with
  | setProperty suffix value =>
    rcases locate_cases c i with ⟨e, hof, -⟩ |
      ⟨name, before, s, after, hname, hsplit, hbefore, hnamed, -, -⟩
    · rw [apply, hof] at h
      cases h
    · refine ⟨.property name suffix, by rw [scope?, hname]; rfl, ?_⟩
      rw [after_setProperty, hname]
      exact confines_modifySection (f := fun s => s.set suffix value) hsplit hbefore hnamed
        ((Edit.Keeps.refl [suffix] s).set (by simp) id value)
  | removeProperty suffix =>
    rcases locate_cases c i with ⟨e, hof, -⟩ |
      ⟨name, before, s, after, hname, hsplit, hbefore, hnamed, -, -⟩
    · rw [apply, hof] at h
      cases h
    · refine ⟨.property name suffix, by rw [scope?, hname]; rfl, ?_⟩
      rw [after_removeProperty, hname]
      exact confines_modifySection (f := fun s => s.erase suffix) hsplit hbefore hnamed
        (Edit.Keeps.erase (by simp) s)
  | setGlobal key value =>
    refine ⟨.version key, rfl, ?_⟩
    rw [after_of_setVersion rfl]
    exact ⟨_, rfl, filter_entries_store c.globals key value⟩
  | resetVersion version devVersion =>
    rcases askTarget_cases c i with ⟨e, hof, -⟩ | ⟨key, htarget, -, -⟩
    · rw [apply, hof] at h
      cases h
    · refine ⟨.version key, by rw [scope?, htarget]; rfl, ?_⟩
      rw [after_resetVersion, htarget]
      exact ⟨_, rfl, filter_entries_store c.globals key _⟩
  | fillDevVersion fallback =>
    refine ⟨.version GlobalKey.devVersion, rfl, ?_⟩
    rw [after_fillDevVersion, filled]
    split
    · exact ⟨c.globals, rfl, rfl⟩
    · exact ⟨_, rfl, filter_entries_store c.globals GlobalKey.devVersion _⟩
  | setFlag enabled =>
    rcases askTarget_cases c i with ⟨e, hof, -⟩ | ⟨suite, htarget, -, -⟩
    · rw [apply, hof] at h
      cases h
    · have hother : (suite != suite) = false := bne_self_eq_false suite
      refine ⟨.suite suite, by rw [scope?, htarget]; rfl, ?_⟩
      rw [after_setFlag, htarget]
      exact ⟨c.flags.insert suite enabled, c.rawFlags.erase suite, rfl,
        OrderedMap.filter_toList_insert (p := fun k => k != suite) hother c.flags enabled,
        OrderedMap.filter_toList_erase (p := fun k => k != suite) hother c.rawFlags⟩

/-! ## The contract -/

/-- What repairing answers for: it reports a change exactly if the chain holds something else then,
it stays within its scope, and it has nothing left to do; it fails on an untouched chain. -/
def KeepsContract (scope : Option Scope) (work : Repairing Bool) (c : Chain) : Prop :=
  match work.run c with
  | .ok changed c' =>
    (changed = true ↔ ¬ c.Agrees c') ∧ (changed = false → c' = c) ∧
      (∃ place ∈ scope, place.Confines c c') ∧ work.run c' = .ok false c'
  | .error _ c' => c' = c

theorem keepsContract
    (hfill : ∀ fallback, r = fillDevVersion fallback → Text.isBlank fallback = false) :
    KeepsContract (r.scope? i) (r.inPlace i) c := by
  unfold KeepsContract
  rw [run_inPlace]
  cases h : r.apply c i with
  | error e => exact rfl
  | ok o =>
    have hconfines := exists_confines h
    rw [after, h] at hconfines
    cases o with
    | none =>
      refine ⟨⟨fun hfalse => ?_, fun hne => ?_⟩, fun _ => rfl, hconfines, ?_⟩
      · exact absurd hfalse Bool.false_ne_true
      · exact absurd (Chain.Agrees.refl c) hne
      · rw [run_inPlace, h]
        rfl
    | some c' =>
      have hdone := isDone_of_apply hfill h
      refine ⟨⟨fun _ hagree => ?_, fun _ => rfl⟩, fun hfalse => ?_, hconfines, ?_⟩
      · have hnone := apply_eq_none_iff.mpr (isDone_of_agrees hagree hdone)
        rw [h] at hnone
        cases hnone
      · exact absurd hfalse.symm Bool.false_ne_true
      · rw [run_inPlace, apply_eq_none_iff.mpr hdone]
        rfl

end Repair

namespace Rule.StandardId

open Repair (Scope)

/-- What the repair of a rule may touch when it is tried on an issue. -/
def scope? (i : Issue) : StandardId → Option Scope
  | requiredMode | validMode => i.sectionName.map fun name => .property name Property.mode
  | validDevMode => i.sectionName.map fun name => .property name Property.devMode
  | branchTagExclusive => i.sectionName.map fun name => .property name Property.tag
  | branchOrTagRequired => i.sectionName.map fun name => .property name Property.branch
  | forkFormat => i.sectionName.map fun name => .property name Property.fork
  | globalVersionWhenBinary => some (.version GlobalKey.version)
  | globalDevVersionRequired => some (.version GlobalKey.devVersion)
  | buildNumberRange => i.target.map .version
  | integrationTests => i.target.map .suite
  | _ => none

theorem scope?_eq {cat : Catalog} {id : StandardId} {r : Repair} (h : id.repair? cat = some r)
    (i : Issue) : id.scope? i = r.scope? i := by
  cases id <;> cases h <;> rfl

end Rule.StandardId

namespace Repair

open Rule (StandardId)

theorem exists_id_of_mem_defaults {cat : Catalog} {e : String × Repair}
    (h : e ∈ (defaults cat).toList) :
    ∃ id : StandardId, e.1 = id.text ∧ id.repair? cat = some e.2 := by
  have hget := OrderedMap.mem_toList_iff.mp h
  have hkey : e.1 ∈ (defaults cat).keys := List.mem_map_of_mem h
  obtain ⟨id, hid⟩ : ∃ id : StandardId, e.1 = id.text := by
    rw [defaults, OrderedMap.mem_keys_ofList] at hkey
    simp only [List.map_cons, List.map_nil, List.mem_cons, List.not_mem_nil, or_false] at hkey
    rcases hkey with h | h | h | h | h | h | h | h | h | h <;> exact ⟨_, h⟩
  exact ⟨id, hid, by rw [← StandardId.get?_defaults, ← hid, hget]⟩

/-- Every default repair keeps its contract on whatever it is tried, if there is a developer version
to fall back to. -/
theorem defaults_keepContract {cat : Catalog} (hcat : Text.isBlank cat.defaultDevVersion = false) :
    ∀ e ∈ (defaults cat).toList, ∃ id : StandardId, e.1 = id.text ∧ ∀ (i : Issue) (c : Chain),
      (e.2.inPlace i).run c = outcome c (e.2.apply c i) ∧
        KeepsContract (id.scope? i) (e.2.inPlace i) c := by
  intro e he
  obtain ⟨id, hid, hrepair⟩ := exists_id_of_mem_defaults he
  refine ⟨id, hid, fun i c => ⟨run_inPlace e.2 c i, ?_⟩⟩
  rw [StandardId.scope?_eq hrepair]
  refine keepsContract fun fallback hfallback => ?_
  rw [hfallback] at hrepair
  have hsame : fallback = cat.defaultDevVersion := by
    cases id <;> cases hrepair
    rfl
  rwa [hsame]

/-- The catalog as it is given has a developer version. -/
theorem defaults_keepContract_standard :
    Text.isBlank ({} : Catalog).defaultDevVersion = false ∧
      ∀ e ∈ (defaults {}).toList, ∃ id : StandardId, e.1 = id.text ∧ ∀ (i : Issue) (c : Chain),
        (e.2.inPlace i).run c = outcome c (e.2.apply c i) ∧
          KeepsContract (id.scope? i) (e.2.inPlace i) c :=
  have hcat : Text.isBlank ({} : Catalog).defaultDevVersion = false := by decide
  ⟨hcat, defaults_keepContract hcat⟩

end Repair

end BuildChain
