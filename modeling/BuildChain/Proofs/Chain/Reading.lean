import BuildChain.Chain.OfText
import BuildChain.Proofs.Chain.Sections
import BuildChain.Proofs.Route

/-!
# What is read for a setting

A chain is read from a map of settings, one after the other. What it holds for a setting is what the
last entry that leads there says: for a global key and a flag there is one entry at most, and for a
property the keys that spell the section's name in different ways compete.
-/

namespace BuildChain

@[simp] theorem readFlag_flagText (enabled : Bool) :
    readFlag (flagText enabled) = some enabled := by
  cases enabled <;> decide +kernel

@[simp] theorem trim_flagText (enabled : Bool) :
    Text.trim (flagText enabled) = flagText enabled := by
  cases enabled <;> decide +kernel

@[simp] theorem isBlank_flagText (enabled : Bool) : Text.isBlank (flagText enabled) = false := by
  cases enabled <;> decide +kernel

/-! ## Settings that are placed one after the other -/

/-- Where a step overwrites what is seen or leaves it alone, the last overwriting step is seen. -/
theorem foldl_view {α σ γ : Type} (step : σ → α → σ) (view : σ → γ) (p : α → Bool) (out : α → γ)
    (hstep : ∀ s a, view (step s a) = if p a = true then out a else view s) (l : List α) (s : σ) :
    view (l.foldl step s) = (((l.filter p).getLast?).map out).getD (view s) := by
  induction l using List.reverseRecOn with
  | nil => rfl
  | append_singleton l a ih =>
    rw [List.foldl_append, List.foldl_cons, List.foldl_nil, hstep, ih, List.filter_append]
    by_cases hp : p a = true <;> simp [hp]

namespace GlobalKey

/-- The global keys that a chain has a place for. -/
def known : List String := [version, devVersion, recipients]

theorem ofKey_of_known {key : String} (h : key ∈ known) : Route.ofKey key = .global key := by
  apply Route.ofKey_globalKey
  simp only [known, List.mem_cons, List.not_mem_nil, or_false] at h
  rcases h with rfl | rfl | rfl <;> rfl

end GlobalKey

namespace Globals

/-- The field of a key, if the key is known and the field is set. -/
def get? (g : Globals) (key : String) : Option String := (g.entries.lookup key).join

theorem lookup_of_not_known {g : Globals} {key : String} (h : key ∉ GlobalKey.known) :
    g.entries.lookup key = none := by
  rw [List.lookup_eq_none_iff]
  intro e he
  simp only [entries, List.mem_cons, List.not_mem_nil, or_false] at he
  simp only [GlobalKey.known, List.mem_cons, List.not_mem_nil, or_false, not_or] at h
  rcases he with rfl | rfl | rfl <;> simp [h]

theorem get?_of_not_known {g : Globals} {key : String} (h : key ∉ GlobalKey.known) :
    g.get? key = none := by
  rw [get?, lookup_of_not_known h]
  rfl

theorem mem_known_of_get? {g : Globals} {key value : String} (h : g.get? key = some value) :
    key ∈ GlobalKey.known := by
  by_contra hnot
  rw [get?_of_not_known hnot] at h
  cases h

theorem ext_get? {g g' : Globals} (h : ∀ key, g.get? key = g'.get? key) : g = g' := by
  have hversion := h GlobalKey.version
  have hdev := h GlobalKey.devVersion
  have hrecipients := h GlobalKey.recipients
  cases g
  cases g'
  congr

theorem get?_set? (g : Globals) (key value : String) {k : String} (hk : k ∈ GlobalKey.known) :
    ((g.set? key value).getD g).get? k = if k = key then some value else g.get? k := by
  simp only [GlobalKey.known, List.mem_cons, List.not_mem_nil, or_false] at hk
  unfold set?
  split
  · rename_i h
    subst h
    rcases hk with rfl | rfl | rfl <;> rfl
  · split
    · rename_i h
      subst h
      rcases hk with rfl | rfl | rfl <;> rfl
    · split
      · rename_i h
        subst h
        rcases hk with rfl | rfl | rfl <;> rfl
      · rename_i h₁ h₂ h₃
        rcases hk with rfl | rfl | rfl
        · rw [if_neg (Ne.symm h₁)]
          rfl
        · rw [if_neg (Ne.symm h₂)]
          rfl
        · rw [if_neg (Ne.symm h₃)]
          rfl

end Globals

namespace Route

/-- Whether a route leads to a property of the section of a name. -/
def leadsTo (name suffix : String) : Route → Bool
  | property n p => Text.sameName n name && p = suffix
  | _ => false

/-- The section that a route leads to, if it leads to a property. -/
def section? : Route → Option String
  | property n _ => some n
  | _ => none

end Route

namespace Chain

/-! ## What one setting changes -/

theorem globals_place (c : Chain) (key value : String) {k : String} (hk : k ∈ GlobalKey.known) :
    (place c key value).globals.get? k = if k = key then some value else c.globals.get? k := by
  by_cases hkey : k = key
  · subst hkey
    unfold place
    rw [GlobalKey.ofKey_of_known hk]
    exact Globals.get?_set? c.globals k value hk
  · rw [if_neg hkey]
    unfold place
    split
    · rename_i key' hroute
      rw [Route.ofKey_eq_global hroute, Globals.get?_set? c.globals key value hk, if_neg hkey]
    · split <;> rfl
    · unfold upsertSection
      split <;> rfl
    · rfl

theorem flags_place (c : Chain) (key value suite : String) :
    (place c key value).flags.get? suite =
      if Route.ofKey key = .flag suite ∧ (readFlag value).isSome = true then readFlag value
      else c.flags.get? suite := by
  unfold place
  split
  · rename_i hroute
    simp [hroute]
  · rename_i suite' hroute
    cases hread : readFlag value with
    | none => simp
    | some enabled =>
      simp only [hroute, OrderedMap.get?_insert, Route.flag.injEq]
      by_cases hs : suite = suite'
      · simp [hs]
      · simp [hs, Ne.symm hs]
  · rename_i hroute
    unfold upsertSection
    split <;> simp [hroute, modifySection]
  · rename_i hroute
    simp [hroute]

theorem rawFlags_place (c : Chain) (key value suite : String) :
    (place c key value).rawFlags.get? suite =
      if Route.ofKey key = .flag suite ∧ readFlag value = none then some value
      else c.rawFlags.get? suite := by
  unfold place
  split
  · rename_i hroute
    simp [hroute]
  · rename_i suite' hroute
    cases hread : readFlag value with
    | some enabled => simp
    | none =>
      simp only [hroute, OrderedMap.get?_insert, Route.flag.injEq, and_true]
      by_cases hs : suite = suite'
      · simp [hs]
      · simp [hs, Ne.symm hs]
  · rename_i hroute
    unfold upsertSection
    split <;> simp [hroute, modifySection]
  · rename_i hroute
    simp [hroute]

theorem get?_place (c : Chain) (key value name suffix : String) :
    (place c key value).get? name suffix =
      if (Route.ofKey key).leadsTo name suffix = true then some value else c.get? name suffix := by
  unfold place
  split
  · rename_i hroute
    simp [hroute, Route.leadsTo]
    rfl
  · rename_i hroute
    simp [hroute, Route.leadsTo]
    split <;> rfl
  · rename_i n p hroute
    rw [get?_upsertSection, hroute]
    simp only [Route.leadsTo, Bool.and_eq_true, decide_eq_true_eq, eq_comm (a := p)]
  · rename_i hroute
    simp [hroute, Route.leadsTo]

theorem names_place (c : Chain) (key value : String) :
    (place c key value).names =
      match (Route.ofKey key).section? with
      | some n => if c.hasSection n then c.names else c.names ++ [n]
      | none => c.names := by
  unfold place
  split
  · rename_i hroute
    simp [hroute, Route.section?]
    rfl
  · rename_i hroute
    simp [hroute, Route.section?]
    split <;> rfl
  · rename_i n p hroute
    rw [names_upsertSection, hroute]
    rfl
  · rename_i hroute
    simp [hroute, Route.section?]

/-! ## What a map of settings says -/

/-- The chain that a map of settings describes. -/
def ofSettings (m : OrderedMap String) : Chain :=
  m.toList.foldl (fun c e => place c e.1 e.2) {}

theorem ofText_eq (text : String) :
    ofText text = { ofSettings (settings text) with source := some text } := rfl

theorem globals_ofSettings (m : OrderedMap String) {k : String} (hk : k ∈ GlobalKey.known) :
    (ofSettings m).globals.get? k = m.get? k := by
  have hempty : ({} : Globals).get? k = none := by
    simp only [GlobalKey.known, List.mem_cons, List.not_mem_nil, or_false] at hk
    rcases hk with rfl | rfl | rfl <;> rfl
  have hview := foldl_view (fun c e => place c e.1 e.2) (fun c : Chain => c.globals.get? k)
    (fun e => decide (k = e.1)) (fun e => some e.2)
    (fun c e => by simp [globals_place c e.1 e.2 hk]) m.toList {}
  rw [ofSettings, hview, m.filter_toList k _ (by simp [eq_comm]), hempty]
  cases m.get? k <;> simp [Option.filter_some]

theorem flags_ofSettings (m : OrderedMap String) (suite : String) :
    (ofSettings m).flags.get? suite =
      if suite = "" then none else (m.get? (Route.flagKey suite)).bind readFlag := by
  have hview := foldl_view (fun c e => place c e.1 e.2) (fun c : Chain => c.flags.get? suite)
    (fun e => decide (Route.ofKey e.1 = .flag suite) && (readFlag e.2).isSome)
    (fun e => readFlag e.2) (fun c e => by simp [flags_place c e.1 e.2 suite]) m.toList {}
  have hone := m.filter_toList (Route.flagKey suite)
    (fun e => decide (Route.ofKey e.1 = .flag suite) && (readFlag e.2).isSome)
    (by simp +contextual [Route.ofKey_eq_flag_iff])
  rw [ofSettings, hview, hone, OrderedMap.get?_empty]
  by_cases hs : suite = ""
  · cases m.get? (Route.flagKey suite) <;> simp [Route.ofKey_eq_flag_iff, hs]
  · cases m.get? (Route.flagKey suite) with
    | none => simp [hs]
    | some v =>
      cases hread : readFlag v <;>
        simp [Route.ofKey_eq_flag_iff, Option.filter_some, hs, hread]

theorem rawFlags_ofSettings (m : OrderedMap String) (suite : String) :
    (ofSettings m).rawFlags.get? suite =
      if suite = "" then none
      else (m.get? (Route.flagKey suite)).filter fun v => (readFlag v).isNone := by
  have hview := foldl_view (fun c e => place c e.1 e.2) (fun c : Chain => c.rawFlags.get? suite)
    (fun e => decide (Route.ofKey e.1 = .flag suite) && (readFlag e.2).isNone)
    (fun e => some e.2) (fun c e => by simp [rawFlags_place c e.1 e.2 suite]) m.toList {}
  have hone := m.filter_toList (Route.flagKey suite)
    (fun e => decide (Route.ofKey e.1 = .flag suite) && (readFlag e.2).isNone)
    (by simp +contextual [Route.ofKey_eq_flag_iff])
  rw [ofSettings, hview, hone, OrderedMap.get?_empty]
  by_cases hs : suite = ""
  · cases m.get? (Route.flagKey suite) <;> simp [Route.ofKey_eq_flag_iff, hs]
  · cases m.get? (Route.flagKey suite) with
    | none => simp [hs]
    | some v =>
      cases hread : readFlag v <;>
        simp [Route.ofKey_eq_flag_iff, Option.filter_some, hs, hread]

/-- Of the entries that lead to a property, the last one in the order of the map counts. -/
theorem get?_ofSettings (m : OrderedMap String) (name suffix : String) :
    (ofSettings m).get? name suffix =
      ((m.toList.filter fun e => (Route.ofKey e.1).leadsTo name suffix).getLast?).map
        Prod.snd := by
  have hview := foldl_view (fun c e => place c e.1 e.2) (fun c : Chain => c.get? name suffix)
    (fun e => (Route.ofKey e.1).leadsTo name suffix) (fun e => some e.2)
    (fun c e => by rw [get?_place]) m.toList {}
  have hempty : ({} : Chain).get? name suffix = none := rfl
  rw [ofSettings, hview, hempty]
  cases (m.toList.filter fun e => (Route.ofKey e.1).leadsTo name suffix).getLast? <;> rfl

/-! ## The names of the sections -/

theorem hasSection_congr {c c' : Chain} (h : c.names = c'.names) (name : String) :
    c.hasSection name = c'.hasSection name := by
  rw [Bool.eq_iff_iff, hasSection_iff, hasSection_iff, h]

theorem hasSection_place (c : Chain) (key value name : String) :
    (place c key value).hasSection name = true ↔
      c.hasSection name = true ∨
        ∃ n, (Route.ofKey key).section? = some n ∧ Text.sameName n name = true := by
  rw [hasSection_iff, hasSection_iff, names_place]
  cases hroute : (Route.ofKey key).section? with
  | none => simp
  | some n =>
    by_cases hhas : c.hasSection n = true
    · simp only [hhas, if_true, Option.some.injEq, exists_eq_left']
      refine (or_iff_left_of_imp fun hsame => ?_).symm
      obtain ⟨n', hn', hsame'⟩ := hasSection_iff.mp hhas
      exact ⟨n', hn', Text.sameName_trans hsame' hsame⟩
    · simp [hhas, or_and_right, exists_or]

theorem distinctNames_place {c : Chain} (h : c.DistinctNames) (key value : String) :
    (place c key value).DistinctNames := by
  unfold DistinctNames at h ⊢
  rw [names_place]
  cases (Route.ofKey key).section? with
  | none => exact h
  | some n =>
    by_cases hhas : c.hasSection n = true
    · simpa [hhas] using h
    · simp only [hhas, if_false, Bool.false_eq_true]
      rw [List.pairwise_append]
      refine ⟨h, List.pairwise_singleton _ _, fun n' hn' n'' hn'' => ?_⟩
      rw [List.mem_singleton] at hn''
      subst hn''
      rw [← Bool.not_eq_true]
      exact fun hsame => hhas (hasSection_iff.mpr ⟨n', hn', hsame⟩)

theorem distinctNames_ofSettings (m : OrderedMap String) : (ofSettings m).DistinctNames := by
  unfold ofSettings
  induction m.toList using List.reverseRecOn with
  | nil => exact List.Pairwise.nil
  | append_singleton l e ih =>
    rw [List.foldl_append, List.foldl_cons, List.foldl_nil]
    exact distinctNames_place ih e.1 e.2

theorem hasSection_ofSettings {m : OrderedMap String} {name : String} :
    (ofSettings m).hasSection name = true ↔
      ∃ key ∈ m.keys, ∃ n, (Route.ofKey key).section? = some n ∧
        Text.sameName n name = true := by
  unfold ofSettings OrderedMap.keys
  induction m.toList using List.reverseRecOn with
  | nil => simp [hasSection]
  | append_singleton l e ih =>
    rw [List.foldl_append, List.foldl_cons, List.foldl_nil, hasSection_place, ih]
    simp [or_and_right, exists_or]

/-- A section has the name under which some key leads to it. -/
theorem exists_key_of_mem_names {m : OrderedMap String} {name : String}
    (h : name ∈ (ofSettings m).names) :
    ∃ key ∈ m.keys, (Route.ofKey key).section? = some name := by
  unfold ofSettings at h
  unfold OrderedMap.keys
  generalize m.toList = l at h ⊢
  induction l using List.reverseRecOn with
  | nil => cases h
  | append_singleton l e ih =>
    have hold : name ∈ (l.foldl (fun c e => place c e.1 e.2) {}).names →
        ∃ key ∈ (l ++ [e]).map Prod.fst, (Route.ofKey key).section? = some name := fun hmem => by
      obtain ⟨key, hkey, hsection⟩ := ih hmem
      exact ⟨key, List.map_append ▸ List.mem_append_left _ hkey, hsection⟩
    rw [List.foldl_append, List.foldl_cons, List.foldl_nil, names_place] at h
    cases hsection : (Route.ofKey e.1).section? with
    | none =>
      rw [hsection] at h
      exact hold h
    | some n =>
      simp only [hsection] at h
      split at h
      · exact hold h
      · rcases List.mem_append.mp h with h | h
        · exact hold h
        · rw [List.mem_singleton.mp h]
          exact ⟨e.1, by simp, hsection⟩

/-- The names hang on the keys of the settings only, not on their values. -/
theorem names_ofSettings_congr {m m' : OrderedMap String} (h : m.keys = m'.keys) :
    (ofSettings m).names = (ofSettings m').names := by
  unfold ofSettings
  unfold OrderedMap.keys at h
  generalize m.toList = l at h
  generalize m'.toList = l' at h
  induction l using List.reverseRecOn generalizing l' with
  | nil =>
    rw [List.map_nil, eq_comm, List.map_eq_nil_iff] at h
    rw [h]
  | append_singleton l e ih =>
    rw [List.map_append, List.map_singleton, eq_comm, List.map_eq_append_iff] at h
    obtain ⟨init, last, rfl, hinit, hlast⟩ := h
    obtain ⟨e', rfl, he⟩ := List.map_eq_singleton_iff.mp hlast
    have hih := ih init hinit.symm
    simp only [List.foldl_append, List.foldl_cons, List.foldl_nil, names_place, he, hih,
      hasSection_congr hih]

end Chain

end BuildChain
