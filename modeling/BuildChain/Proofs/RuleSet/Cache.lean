import BuildChain.Proofs.Directory
import BuildChain.RuleSet.Source
import Mathlib.Data.List.Induction

/-!
# The history of a rule cache

A cache is asked to load, to reload and to clear while the files change under it, in any order and
for as long as one likes. At every moment it holds what the last successful reading gave, unless it
was cleared since; what happens to the files in between does not show, and a reading that fails
changes nothing.
-/

namespace BuildChain

/-! ## What a source holds -/

/-- The rules that a source stands for while the files are as they are. -/
inductive RuleSource.Holds (d : Directory) : RuleSource → RuleSet → Prop
  | standard : Holds d .standard .standard
  | document {text : String} {rules : RuleSet} (hrules : RuleSet.ofText text = .ok rules) :
      Holds d (.text text) rules
  /-- A file that does not exist stands for the standard rules. -/
  | missing {path : String} (hmissing : d.has path = false) : Holds d (.file path) .standard
  | file {path text : String} {rules : RuleSet} (htext : d.readText path = .ok text)
      (hrules : RuleSet.ofText text = .ok rules) : Holds d (.file path) rules

theorem Directory.has_of_readText {d : Directory} {path text : String}
    (h : d.readText path = .ok text) : d.has path = true := by
  obtain ⟨bytes, hfind, -⟩ := readText_eq_ok.mp h
  rw [has, hfind]

namespace RuleSource

theorem ofDocument_eq_ok {text : String} {rules : RuleSet} :
    ofDocument text = .ok rules ↔ RuleSet.ofText text = .ok rules := by
  unfold ofDocument
  cases RuleSet.ofText text <;> simp

theorem read_eq_ok {source : RuleSource} {d : Directory} {rules : RuleSet} :
    source.read d = .ok rules ↔ source.Holds d rules := by
  constructor
  · intro h
    cases source with
    | standard =>
      cases h
      exact .standard
    | text document => exact .document (ofDocument_eq_ok.mp h)
    | file path =>
      unfold read at h
      cases hhas : d.has path with
      | false =>
        simp only [hhas, Bool.not_false, if_true] at h
        cases h
        exact .missing hhas
      | true =>
        simp only [hhas, Bool.not_true, Bool.false_eq_true, if_false] at h
        cases htext : d.readText path with
        | error cause =>
          rw [htext] at h
          cases h
        | ok document =>
          rw [htext] at h
          exact .file htext (ofDocument_eq_ok.mp h)
  · intro h
    cases h with
    | standard => rfl
    | document hrules => exact ofDocument_eq_ok.mpr hrules
    | missing hmissing => simp [read, hmissing]
    | file htext hrules =>
      simp only [read, Directory.has_of_readText htext, htext]
      exact ofDocument_eq_ok.mpr hrules

end RuleSource

namespace RuleCache

/-! ## Histories -/

inductive Step
  | load
  | reload
  | clear
  /-- Something happens to the files: a document is written, spoilt or deleted. -/
  | change (f : Directory → Directory)

/-- A cache and the files around it. -/
structure Scene where
  cache : RuleCache
  files : Directory

namespace Scene

/-- An empty cache. -/
def start (source : RuleSource) (files : Directory) : Scene := ⟨{ source := source }, files⟩

/-- The scene after a step, and what the step returns. -/
def step (w : Scene) : Step → Scene × Option (Except RuleSourceError ReadRules)
  | .load => ({ w with cache := (w.cache.load w.files).1 }, some (w.cache.load w.files).2)
  | .reload => ({ w with cache := (w.cache.reload w.files).1 }, some (w.cache.reload w.files).2)
  | .clear => ({ w with cache := w.cache.clear }, none)
  | .change f => ({ w with files := f w.files }, none)

def next (w : Scene) (s : Step) : Scene := (w.step s).1

def answer? (w : Scene) (s : Step) : Option (Except RuleSourceError ReadRules) := (w.step s).2

def after (w : Scene) (steps : List Step) : Scene := steps.foldl next w

/-- Whether a step asks for the source itself: a reload, or a load while nothing is held. -/
def Asks (w : Scene) (s : Step) : Prop := s = .reload ∨ s = .load ∧ w.cache.isLoaded = false

/-- A step that reads the source with success, and what it returns. -/
def Reads (w : Scene) (s : Step) (r : ReadRules) : Prop := w.Asks s ∧ w.answer? s = some (.ok r)

/-- The last successful reading of a history, after the steps in front of it; nothing was cleared
since. -/
def IsLatest (w : Scene) (steps before : List Step) (r : ReadRules) : Prop :=
  ∃ s since, steps = before ++ s :: since ∧ (w.after before).Reads s r ∧
    ∀ mid s' rest, since = mid ++ s' :: rest →
      s' ≠ .clear ∧ ∀ r', ¬(w.after (before ++ s :: mid)).Reads s' r'

variable {w : Scene} {s : Step} {r : ReadRules} {e : RuleSourceError}

theorem after_concat (w : Scene) (steps : List Step) (s : Step) :
    w.after (steps ++ [s]) = (w.after steps).next s := by
  rw [after, List.foldl_append]
  rfl

theorem after_append (w : Scene) (steps more : List Step) :
    w.after (steps ++ more) = (w.after steps).after more := List.foldl_append

/-! ## One step -/

theorem reload_of_error (h : w.cache.source.read w.files = .error e) :
    w.cache.reload w.files = (w.cache, .error e) := by
  rw [reload, h]

theorem reload_of_ok {rules : RuleSet} (h : w.cache.source.read w.files = .ok rules) :
    w.cache.reload w.files =
      ({ w.cache with readings := w.cache.readings + 1, held := some ⟨w.cache.readings, rules⟩ },
        .ok ⟨w.cache.readings, rules⟩) := by
  rw [reload, h]

/-- A step that asks for the source does what a reload does. -/
theorem step_of_asks (h : w.Asks s) : w.step s =
    ({ w with cache := (w.cache.reload w.files).1 }, some (w.cache.reload w.files).2) := by
  rcases h with rfl | ⟨rfl, hempty⟩
  · rfl
  · rw [isLoaded, Option.isSome_eq_false_iff, Option.isNone_iff_eq_none] at hempty
    rw [step, load, hempty]

theorem isLoaded_of_asks_load (h : w.Asks .load) : w.cache.isLoaded = false := by
  rcases h with hreload | ⟨-, hempty⟩
  · cases hreload
  · exact hempty

/-- What a step that asks for the source returns is what the source holds at that moment. -/
theorem answer?_of_asks (h : w.Asks s) (rules : RuleSet) :
    (∃ r, w.answer? s = some (.ok r) ∧ r.rules = rules) ↔
      w.cache.source.Holds w.files rules := by
  rw [answer?, step_of_asks h, ← RuleSource.read_eq_ok]
  cases hread : w.cache.source.read w.files with
  | error e => simp [reload_of_error hread]
  | ok rules' => simp [reload_of_ok hread]

theorem next_of_reads (h : w.Reads s r) :
    r.number = w.cache.readings ∧ w.cache.source.Holds w.files r.rules ∧
      w.next s =
        { w with cache := { w.cache with readings := w.cache.readings + 1, held := some r } } := by
  obtain ⟨hasks, hanswer⟩ := h
  rw [answer?, step_of_asks hasks] at hanswer
  rw [next, step_of_asks hasks, ← RuleSource.read_eq_ok]
  cases hread : w.cache.source.read w.files with
  | error e =>
    rw [reload_of_error hread] at hanswer
    cases hanswer
  | ok rules =>
    rw [reload_of_ok hread] at hanswer ⊢
    cases hanswer
    exact ⟨rfl, rfl, rfl⟩

/-- A load while something is held returns what is held and changes nothing. -/
theorem step_load_of_held (h : w.cache.held = some r) : w.step .load = (w, some (.ok r)) := by
  rw [step, load, h]

theorem Asks.ne_clear (h : w.Asks s) : s ≠ .clear := by
  rintro rfl
  rcases h with h | ⟨h, -⟩ <;> cases h

/-- What becomes of a scene in one step. -/
inductive Outcome (w : Scene) : Step → Prop
  /-- The source is read with success. -/
  | read {s : Step} (r : ReadRules) (hreads : w.Reads s r) : Outcome w s
  /-- The source cannot be read, and nothing changes. -/
  | failed {s : Step} {e : RuleSourceError} (hasks : w.Asks s)
      (hanswer : w.answer? s = some (.error e)) (hnext : w.next s = w) : Outcome w s
  /-- A load returns what is held already. -/
  | kept {r : ReadRules} (hheld : w.cache.held = some r) : Outcome w .load
  | cleared : Outcome w .clear
  | changed (f : Directory → Directory) : Outcome w (.change f)

theorem outcome (w : Scene) (s : Step) : w.Outcome s := by
  by_cases hasks : w.Asks s
  · cases hread : w.cache.source.read w.files with
    | error e =>
      have hstep : w.step s = (w, some (.error e)) := by
        rw [step_of_asks hasks, reload_of_error hread]
      exact .failed hasks (by rw [answer?, hstep]) (by rw [next, hstep])
    | ok rules =>
      exact .read _ ⟨hasks, by rw [answer?, step_of_asks hasks, reload_of_ok hread]⟩
  · cases s with
    | load =>
      cases hheld : w.cache.held with
      | none => exact absurd (.inr ⟨rfl, by rw [isLoaded, hheld]; rfl⟩) hasks
      | some r => exact .kept hheld
    | reload => exact absurd (.inl rfl) hasks
    | clear => exact .cleared
    | change f => exact .changed f

theorem not_reads_of_held (h : w.cache.held = some r) (r' : ReadRules) : ¬w.Reads .load r' := by
  rintro ⟨hasks, -⟩
  have hempty := isLoaded_of_asks_load hasks
  rw [isLoaded, h] at hempty
  cases hempty

/-- A step that fails asked for the source, and leaves the scene as it was. -/
theorem step_of_error (h : w.answer? s = some (.error e)) : w.Asks s ∧ w.next s = w := by
  cases w.outcome s with
  | read _ hreads => cases hreads.2.symm.trans h
  | failed hasks _ hnext => exact ⟨hasks, hnext⟩
  | kept hheld =>
    rw [answer?, step_load_of_held hheld] at h
    cases h
  | cleared => cases h
  | changed f => cases h

theorem source_next (w : Scene) (s : Step) : (w.next s).cache.source = w.cache.source := by
  cases w.outcome s with
  | read _ hreads => rw [(next_of_reads hreads).2.2]
  | failed _ _ hnext => rw [hnext]
  | kept hheld => rw [next, step_load_of_held hheld]
  | cleared => rfl
  | changed f => rfl

theorem readings_le_next (w : Scene) (s : Step) : w.cache.readings ≤ (w.next s).cache.readings := by
  cases w.outcome s with
  | read _ hreads =>
    rw [(next_of_reads hreads).2.2]
    exact Nat.le_succ _
  | failed _ _ hnext => exact Nat.le_of_eq (by rw [hnext])
  | kept hheld => exact Nat.le_of_eq (by rw [next, step_load_of_held hheld])
  | cleared => exact Nat.le_refl _
  | changed f => exact Nat.le_refl _

/-- What is held after a step was read by it, or was held before and is neither cleared nor read
anew. -/
theorem held_next_iff : (w.next s).cache.held = some r ↔
    w.Reads s r ∨ w.cache.held = some r ∧ s ≠ .clear ∧ ∀ r', ¬w.Reads s r' := by
  cases w.outcome s with
  | read r' hreads =>
    have hsame : w.Reads s r ↔ r' = r := by
      refine ⟨fun h => ?_, fun h => h ▸ hreads⟩
      cases hreads.2.symm.trans h.2
      rfl
    have hagain : ¬∀ r', ¬w.Reads s r' := fun hnone => hnone _ hreads
    rw [(next_of_reads hreads).2.2, hsame]
    simp [hagain]
  | failed hasks hanswer hnext =>
    have hnone (r' : ReadRules) : ¬w.Reads s r' := fun h => by cases hanswer.symm.trans h.2
    rw [hnext]
    simp [hnone, hasks.ne_clear]
  | kept hheld =>
    have hnone := not_reads_of_held hheld
    rw [next, step_load_of_held hheld]
    simp [hnone]
  | cleared =>
    have hnone : ¬w.Reads .clear r := fun h => h.1.ne_clear rfl
    simp [next, step, clear, hnone]
  | changed f =>
    have hnone (r' : ReadRules) : ¬w.Reads (.change f) r' := fun h => by cases h.2
    simp [next, step, hnone]

/-- Something is held after a step that succeeds, and after one that keeps what was held. -/
theorem isLoaded_next (w : Scene) (s : Step) : (w.next s).cache.isLoaded = true ↔
    (∃ r, w.answer? s = some (.ok r)) ∨ w.cache.isLoaded = true ∧ s ≠ .clear := by
  cases w.outcome s with
  | read _ hreads =>
    rw [(next_of_reads hreads).2.2]
    exact iff_of_true rfl (.inl ⟨_, hreads.2⟩)
  | failed hasks hanswer hnext => simp [hnext, hanswer, hasks.ne_clear]
  | kept hheld => simp [next, answer?, step_load_of_held hheld, isLoaded, hheld]
  | cleared => simp [next, answer?, step, clear, isLoaded]
  | changed f => simp [next, answer?, step]

/-! ## Any number of steps -/

theorem source_after (w : Scene) (steps : List Step) :
    (w.after steps).cache.source = w.cache.source := by
  induction steps using List.reverseRecOn with
  | nil => rfl
  | append_singleton steps s ih => rw [after_concat, source_next, ih]

theorem readings_le_after (w : Scene) (steps : List Step) :
    w.cache.readings ≤ (w.after steps).cache.readings := by
  induction steps using List.reverseRecOn with
  | nil => exact Nat.le_refl _
  | append_singleton steps s ih =>
    rw [after_concat]
    exact Nat.le_trans ih (readings_le_next _ s)

/-- A reading is numbered below everything that is read after it. -/
theorem number_lt {before mid : List Step} {s' : Step} {r' : ReadRules}
    (h : (w.after before).Reads s r) (h' : (w.after (before ++ s :: mid)).Reads s' r') :
    r.number < r'.number := by
  obtain ⟨hnumber, -, hnext⟩ := next_of_reads h
  obtain ⟨hnumber', -, -⟩ := next_of_reads h'
  have hsplit : w.after (before ++ s :: mid) = ((w.after before).next s).after mid :=
    after_append w before (s :: mid)
  have hle := readings_le_after ((w.after before).next s) mid
  rw [← hsplit, hnext] at hle
  rw [hnumber, hnumber']
  exact hle

/-- A list with one more element splits at this element or at an earlier one. -/
theorem concat_eq_split_iff {α : Type} {l before since : List α} {a b : α} :
    l ++ [a] = before ++ b :: since ↔
      (l = before ∧ a = b ∧ since = []) ∨
        ∃ rest, l = before ++ b :: rest ∧ since = rest ++ [a] := by
  constructor
  · intro h
    induction since using List.reverseRecOn with
    | nil =>
      obtain ⟨hl, ha⟩ := List.append_inj' h rfl
      exact .inl ⟨hl, (List.cons.inj ha).1, rfl⟩
    | append_singleton rest c _ =>
      rw [← List.cons_append, ← List.append_assoc] at h
      obtain ⟨hl, ha⟩ := List.append_inj' h rfl
      exact .inr ⟨rest, hl, by rw [(List.cons.inj ha).1]⟩
  · rintro (⟨rfl, rfl, rfl⟩ | ⟨rest, rfl, rfl⟩)
    · rfl
    · rw [List.append_assoc, List.cons_append]

theorem isLatest_concat {steps before : List Step} : w.IsLatest (steps ++ [s]) before r ↔
    (before = steps ∧ (w.after steps).Reads s r) ∨
      w.IsLatest steps before r ∧ s ≠ .clear ∧ ∀ r', ¬(w.after steps).Reads s r' := by
  constructor
  · rintro ⟨t, since, hsplit, hreads, hsince⟩
    rcases concat_eq_split_iff.mp hsplit with ⟨rfl, rfl, -⟩ | ⟨rest, rfl, rfl⟩
    · exact .inl ⟨rfl, hreads⟩
    · refine .inr ⟨⟨t, rest, rfl, hreads, fun mid s' tail hrest => ?_⟩, hsince rest s [] rfl⟩
      exact hsince mid s' (tail ++ [s]) (by rw [hrest, List.append_assoc, List.cons_append])
  · rintro (⟨rfl, hreads⟩ | ⟨⟨t, rest, rfl, hreads, hrest⟩, hs⟩)
    · exact ⟨s, [], rfl, hreads, fun mid s' tail hnil => by simp at hnil⟩
    · refine ⟨t, rest ++ [s], by rw [List.append_assoc, List.cons_append], hreads,
        fun mid s' tail hsplit => ?_⟩
      rcases concat_eq_split_iff.mp hsplit with ⟨rfl, rfl, -⟩ | ⟨rest', rfl, rfl⟩
      · exact hs
      · exact hrest mid s' rest' rfl

/-- A cache that starts empty holds what was read last, if it was not cleared since. -/
theorem held_after_iff (hempty : w.cache.held = none) (steps : List Step) :
    (w.after steps).cache.held = some r ↔ ∃ before, w.IsLatest steps before r := by
  induction steps using List.reverseRecOn with
  | nil =>
    have hnone : ¬∃ before, w.IsLatest [] before r := by
      rintro ⟨before, s, since, hsplit, -⟩
      simp at hsplit
    exact iff_of_false (by simp [after, hempty]) hnone
  | append_singleton steps s ih =>
    rw [after_concat, held_next_iff, ih]
    simp only [isLatest_concat, exists_or, exists_eq_left, exists_and_right]

theorem isLoaded_after_iff (hempty : w.cache.held = none) (steps : List Step) :
    (w.after steps).cache.isLoaded = true ↔ ∃ before s since r, steps = before ++ s :: since ∧
      (w.after before).answer? s = some (.ok r) ∧ .clear ∉ since := by
  induction steps using List.reverseRecOn with
  | nil => simp [after, isLoaded, hempty]
  | append_singleton steps s ih =>
    rw [after_concat, isLoaded_next, ih]
    constructor
    · rintro (⟨r, hanswer⟩ | ⟨⟨before, t, since, r, rfl, hanswer, hsince⟩, hclear⟩)
      · exact ⟨steps, s, [], r, rfl, hanswer, List.not_mem_nil⟩
      · refine ⟨before, t, since ++ [s], r, ?_, hanswer, ?_⟩
        · rw [List.append_assoc, List.cons_append]
        · rw [List.mem_append, List.mem_singleton]
          exact fun h => h.elim hsince fun h => hclear h.symm
    · rintro ⟨before, t, since, r, hsplit, hanswer, hsince⟩
      rcases concat_eq_split_iff.mp hsplit with ⟨rfl, rfl, -⟩ | ⟨rest, rfl, rfl⟩
      · exact .inl ⟨r, hanswer⟩
      · rw [List.mem_append, List.mem_singleton, not_or] at hsince
        exact .inr ⟨⟨before, t, rest, r, rfl, hanswer, hsince.1⟩, Ne.symm hsince.2⟩

/-- Of two steps of one history the one is the other or comes after it. -/
theorem eq_or_comes_after {before before' since mid rest : List Step}
    (hlong : before' = before ++ mid) (hrest : s :: since = mid ++ rest) :
    before = before' ∨ ∃ mid', before' = before ++ s :: mid' := by
  cases mid with
  | nil => exact .inl (by rw [hlong, List.append_nil])
  | cons x mid =>
    obtain ⟨rfl, -⟩ := List.cons.inj hrest
    exact .inr ⟨mid, hlong⟩

/-- Two readings of one history that have one number are one. -/
theorem eq_of_number_eq {before before' since since' : List Step} {s' : Step} {r' : ReadRules}
    (h : (w.after before).Reads s r) (h' : (w.after before').Reads s' r')
    (hsplit : before ++ s :: since = before' ++ s' :: since') (hnumber : r.number = r'.number) :
    before = before' := by
  rcases List.append_eq_append_iff.mp hsplit with ⟨mid, hlong, hrest⟩ | ⟨mid, hlong, hrest⟩
  · rcases eq_or_comes_after hlong hrest with heq | ⟨mid', rfl⟩
    · exact heq
    · exact absurd hnumber (Nat.ne_of_lt (number_lt h h'))
  · rcases eq_or_comes_after hlong hrest with heq | ⟨mid', rfl⟩
    · exact heq.symm
    · exact absurd hnumber.symm (Nat.ne_of_lt (number_lt h' h))

end Scene

/-! ## Coherence -/

/-- What can be relied on after a history. -/
structure Coherent (source : RuleSource) (w : Scene) (steps : List Step) : Prop where
  /-- Something is held exactly when a load or reload has succeeded since the last clear. -/
  loaded : (w.after steps).cache.isLoaded = true ↔ ∃ before s since r,
    steps = before ++ s :: since ∧ (w.after before).answer? s = some (.ok r) ∧ .clear ∉ since
  /-- A load then returns what the last successful reading returned, which is what the source held
  at that reading, and changes nothing. -/
  held : (w.after steps).cache.isLoaded = true → ∃ r before, w.IsLatest steps before r ∧
    source.Holds (w.after before).files r.rules ∧
    (w.after steps).step .load = (w.after steps, some (.ok r))
  /-- A reload, and a load while nothing is held, returns what the source holds now, and succeeds
  whenever it holds rules. -/
  read : ∀ s, (w.after steps).Asks s → ∀ rules,
    (∃ r, (w.after steps).answer? s = some (.ok r) ∧ r.rules = rules) ↔
      source.Holds (w.after steps).files rules
  /-- Every successful reading makes an instance of its own. -/
  distinct : ∀ before s since before' s' since' r r',
    steps = before ++ s :: since → steps = before' ++ s' :: since' →
    (w.after before).Reads s r → (w.after before').Reads s' r' → r.number = r'.number →
    before = before'
  /-- A step that fails changes nothing. -/
  failed : ∀ s e, (w.after steps).answer? s = some (.error e) →
    (w.after steps).next s = w.after steps
  /-- A load that fails leaves the cache empty, and whatever happens to the files then, the next
  load asks for the source again. -/
  retried : ∀ e f, (w.after steps).answer? .load = some (.error e) →
    (w.after (steps ++ [.load])).cache.isLoaded = false ∧
      (w.after (steps ++ [.load, .change f])).Asks .load

/-- A cache that starts empty is never stale and never changed by half. -/
theorem coherent_after (source : RuleSource) (files : Directory) (steps : List Step) :
    Coherent source (.start source files) steps where
  loaded := Scene.isLoaded_after_iff rfl steps
  held hloaded := by
    obtain ⟨r, hheld⟩ := Option.isSome_iff_exists.mp hloaded
    obtain ⟨before, hlatest⟩ := (Scene.held_after_iff rfl steps).mp hheld
    refine ⟨r, before, hlatest, ?_, Scene.step_load_of_held hheld⟩
    obtain ⟨s, since, -, hreads, -⟩ := hlatest
    have hholds := (Scene.next_of_reads hreads).2.1
    rwa [Scene.source_after] at hholds
  read s hasks rules := by
    rw [Scene.answer?_of_asks hasks, Scene.source_after]
    rfl
  distinct before s since before' s' since' r r' hsteps hsteps' hreads hreads' hnumber :=
    Scene.eq_of_number_eq hreads hreads' (hsteps.symm.trans hsteps') hnumber
  failed s e h := (Scene.step_of_error h).2
  retried e f h := by
    obtain ⟨hasks, hnext⟩ := Scene.step_of_error h
    have hempty := Scene.isLoaded_of_asks_load hasks
    have hload : (Scene.start source files).after (steps ++ [.load]) =
        (Scene.start source files).after steps := by
      rw [Scene.after_concat, hnext]
    have hchange : (Scene.start source files).after (steps ++ [.load, .change f]) =
        ((Scene.start source files).after steps).next (.change f) := by
      rw [← hload, ← Scene.after_concat, List.append_assoc]
      rfl
    rw [hload, hchange]
    exact ⟨hempty, .inr ⟨rfl, hempty⟩⟩

/-- What is loaded after a clear is an instance of its own, even if it is the same rules. -/
example : ((Scene.start .standard .empty).after [.load, .load, .clear, .load]).cache.held =
    some ⟨1, .standard⟩ := rfl

end RuleCache

end BuildChain
