import BuildChain.Proofs.Chain.Reading

/-!
# Chains that mean the same

Two chains agree when they hold the same settings. What settles whether two maps of settings with
the same keys are read to the same chain are the keys that decide: of the keys that lead to one
place, the last one.
-/

namespace BuildChain

namespace Route

/-- Whether two keys compete for one place: the same global key, the same suite, or the same suffix
of sections of one name. -/
def samePlace (r r' : Route) : Bool :=
  match r' with
  | property n suffix => r.leadsTo n suffix
  | _ => r = r'

theorem samePlace_global (r : Route) (key : String) :
    r.samePlace (global key) = decide (r = global key) := rfl

theorem samePlace_flag (r : Route) (suite : String) :
    r.samePlace (flag suite) = decide (r = flag suite) := rfl

theorem samePlace_property (r : Route) (name suffix : String) :
    r.samePlace (property name suffix) = r.leadsTo name suffix := rfl

@[simp] theorem samePlace_refl (r : Route) : r.samePlace r = true := by
  cases r <;> simp [samePlace, leadsTo]

theorem leadsTo_congr {n n' : String} (h : Text.sameName n n' = true) (r : Route)
    (suffix : String) : r.leadsTo n suffix = r.leadsTo n' suffix := by
  cases r with
  | property m p =>
    rw [Text.sameName_iff] at h
    simp only [leadsTo, Text.sameName, h]
  | _ => rfl

theorem leadsTo_iff {r : Route} {name suffix : String} :
    r.leadsTo name suffix = true ↔ ∃ n, r = property n suffix ∧ Text.sameName n name = true := by
  cases r <;> simp [leadsTo, and_comm]

end Route

namespace Chain

/-- The same globals, the same sections with the same properties, the same flags. -/
structure Agrees (c c' : Chain) : Prop where
  globals : c.globals = c'.globals
  names : c.names = c'.names
  properties : ∀ name suffix, c.get? name suffix = c'.get? name suffix
  flags : ∀ suite, c.flags.get? suite = c'.flags.get? suite
  rawFlags : ∀ suite, c.rawFlags.get? suite = c'.rawFlags.get? suite

theorem Agrees.refl (c : Chain) : c.Agrees c :=
  ⟨rfl, rfl, fun _ _ => rfl, fun _ => rfl, fun _ => rfl⟩

/-- The first section of a name is there in both chains, with the same properties. -/
theorem Agrees.exists_section {c c' : Chain} (h : c.Agrees c') {name : String} {s' : Section}
    (hs' : c'.section? name = some s') :
    ∃ s, c.section? name = some s ∧ ∀ suffix, s.get? suffix = s'.get? suffix := by
  have hsome : (c.section? name).isSome = true := by
    rw [← hasSection_eq_isSome, hasSection_congr h.names, hasSection_eq_isSome, hs']
    rfl
  obtain ⟨s, hs⟩ := Option.isSome_iff_exists.mp hsome
  refine ⟨s, hs, fun suffix => ?_⟩
  have hget := h.properties name suffix
  rwa [get?, get?, hs, hs'] at hget

/-- The text that a chain was read from does not matter. -/
theorem agrees_source_iff {c c' : Chain} {s s' : Option String} :
    ({ c with source := s } : Chain).Agrees { c' with source := s' } ↔ c.Agrees c' :=
  ⟨fun h => ⟨h.globals, h.names, h.properties, h.flags, h.rawFlags⟩,
    fun h => ⟨h.globals, h.names, h.properties, h.flags, h.rawFlags⟩⟩

theorem agrees_ofText_iff (text text' : String) :
    (ofText text).Agrees (ofText text') ↔
      (ofSettings (settings text)).Agrees (ofSettings (settings text')) := by
  rw [ofText_eq, ofText_eq, agrees_source_iff]

/-- Of the keys that lead where this key leads, it is the last one. -/
def Decides (m : OrderedMap String) (key : String) : Prop :=
  (m.keys.filter fun k => (Route.ofKey k).samePlace (Route.ofKey key)).getLast? = some key

instance (m : OrderedMap String) (key : String) : Decidable (Decides m key) :=
  inferInstanceAs (Decidable (_ = _))

theorem decides_of_unique {m : OrderedMap String} {key : String} (hmem : key ∈ m.keys)
    (h : ∀ k ∈ m.keys, (Route.ofKey k).samePlace (Route.ofKey key) = true → k = key) :
    Decides m key := by
  have hne : (m.keys.filter fun k => (Route.ofKey k).samePlace (Route.ofKey key)) ≠ [] :=
    List.ne_nil_of_mem (List.mem_filter.mpr ⟨hmem, Route.samePlace_refl _⟩)
  rw [Decides, List.getLast?_eq_some_getLast hne, Option.some.injEq]
  obtain ⟨hlast, hplace⟩ := List.mem_filter.mp (List.getLast_mem hne)
  exact h _ hlast hplace

/-- A key that leads to a property and decides is the last key that leads there. -/
theorem decides_iff_of_property {m : OrderedMap String} {key n suffix : String}
    (hroute : Route.ofKey key = .property n suffix) {name : String}
    (hname : Text.sameName n name = true) :
    Decides m key ↔
      (m.keys.filter fun k => (Route.ofKey k).leadsTo name suffix).getLast? = some key := by
  simp only [Decides, hroute, Route.samePlace_property, Route.leadsTo_congr hname]

theorem get?_ofSettings_eq_bind (m : OrderedMap String) (name suffix : String) :
    (ofSettings m).get? name suffix =
      ((m.keys.filter fun k => (Route.ofKey k).leadsTo name suffix).getLast?).bind m.get? := by
  have hkeys : m.keys.filter (fun k => (Route.ofKey k).leadsTo name suffix) =
      (m.toList.filter fun e => (Route.ofKey e.1).leadsTo name suffix).map Prod.fst := by
    rw [OrderedMap.keys, List.filter_map]
    rfl
  rw [get?_ofSettings, hkeys, List.getLast?_map]
  cases hlast : (m.toList.filter fun e => (Route.ofKey e.1).leadsTo name suffix).getLast? with
  | none => rfl
  | some e =>
    have hmem := (List.mem_filter.mp (List.mem_of_getLast? hlast)).1
    rw [Option.map_some, Option.map_some, Option.bind_some]
    exact (OrderedMap.mem_toList_iff.mp hmem).symm

/-! ## What a single setting is read as -/

theorem globals_place_empty (key value : String) {k : String} (hk : k ∈ GlobalKey.known) :
    (place {} key value).globals.get? k = if k = key then some value else none := by
  rw [globals_place {} key value hk]
  congr 1
  simp only [GlobalKey.known, List.mem_cons, List.not_mem_nil, or_false] at hk
  rcases hk with rfl | rfl | rfl <;> rfl

theorem flags_place_empty (suite value : String) (hs : suite ≠ "") :
    (place {} (Route.flagKey suite) value).flags.get? suite = readFlag value := by
  rw [flags_place, Route.ofKey_eq_flag_iff.mpr ⟨hs, rfl⟩]
  cases hread : readFlag value with
  | some b => simp
  | none => simp

theorem rawFlags_place_empty (suite value : String) (hs : suite ≠ "") :
    (place {} (Route.flagKey suite) value).rawFlags.get? suite =
      if readFlag value = none then some value else none := by
  rw [rawFlags_place, Route.ofKey_eq_flag_iff.mpr ⟨hs, rfl⟩]
  simp

theorem get?_place_empty {key name suffix : String} (value : String)
    (h : (Route.ofKey key).leadsTo name suffix = true) :
    (place {} key value).get? name suffix = some value := by
  rw [get?_place, if_pos h]

/-! ## Settings under the same keys -/

section SameKeys

variable {m m' : OrderedMap String}

theorem get?_cases (hkeys : m'.keys = m.keys) (key : String) :
    (m'.get? key = none ∧ m.get? key = none) ∨
      ∃ u v, m'.get? key = some u ∧ m.get? key = some v ∧ key ∈ m.keys := by
  by_cases hmem : key ∈ m.keys
  · obtain ⟨v, hv⟩ := Option.isSome_iff_exists.mp (OrderedMap.mem_keys_iff.mp hmem)
    obtain ⟨u, hu⟩ := Option.isSome_iff_exists.mp (OrderedMap.mem_keys_iff.mp (hkeys ▸ hmem))
    exact .inr ⟨u, v, hu, hv, hmem⟩
  · exact .inl ⟨OrderedMap.get?_eq_none_iff.mpr (hkeys ▸ hmem),
      OrderedMap.get?_eq_none_iff.mpr hmem⟩

theorem agrees_of_place (hkeys : m'.keys = m.keys)
    (h : ∀ key u v, m'.get? key = some u → m.get? key = some v → Decides m key →
      place {} key u = place {} key v) : (ofSettings m').Agrees (ofSettings m) := by
  have hflag : ∀ suite u v, suite ≠ "" → m'.get? (Route.flagKey suite) = some u →
      m.get? (Route.flagKey suite) = some v → Route.flagKey suite ∈ m.keys →
      place {} (Route.flagKey suite) u = place {} (Route.flagKey suite) v := by
    intro suite u v hs hu hv hmem
    have hroute : Route.ofKey (Route.flagKey suite) = .flag suite :=
      Route.ofKey_eq_flag_iff.mpr ⟨hs, rfl⟩
    refine h _ u v hu hv (decides_of_unique hmem ?_)
    intro k _ hk
    rw [hroute, Route.samePlace_flag, decide_eq_true_eq] at hk
    exact (Route.ofKey_eq_flag_iff.mp hk).2
  constructor
  case globals =>
    refine Globals.ext_get? fun k => ?_
    by_cases hk : k ∈ GlobalKey.known
    · rw [globals_ofSettings m' hk, globals_ofSettings m hk]
      rcases get?_cases hkeys k with ⟨hu, hv⟩ | ⟨u, v, hu, hv, hmem⟩
      · rw [hu, hv]
      · have hroute := GlobalKey.ofKey_of_known hk
        have hdecides : Decides m k := by
          refine decides_of_unique hmem fun k' _ hk' => ?_
          rw [hroute, Route.samePlace_global, decide_eq_true_eq] at hk'
          exact (Route.ofKey_eq_global hk').symm
        have hview := congrArg (fun c : Chain => c.globals.get? k) (h k u v hu hv hdecides)
        rw [globals_place_empty k u hk, globals_place_empty k v hk, if_pos rfl, if_pos rfl] at hview
        rw [hu, hv, hview]
    · rw [Globals.get?_of_not_known hk, Globals.get?_of_not_known hk]
  case names => exact names_ofSettings_congr hkeys
  case properties =>
    intro name suffix
    rw [get?_ofSettings_eq_bind, get?_ofSettings_eq_bind, hkeys]
    cases hlast : (m.keys.filter fun k => (Route.ofKey k).leadsTo name suffix).getLast? with
    | none => rfl
    | some key =>
      rw [Option.bind_some, Option.bind_some]
      rcases get?_cases hkeys key with ⟨hu, hv⟩ | ⟨u, v, hu, hv, -⟩
      · rw [hu, hv]
      · have hleads := (List.mem_filter.mp (List.mem_of_getLast? hlast)).2
        obtain ⟨n, hroute, hname⟩ := Route.leadsTo_iff.mp hleads
        have hdecides := (decides_iff_of_property hroute hname).mpr hlast
        have hview := congrArg (fun c : Chain => c.get? name suffix) (h key u v hu hv hdecides)
        rw [get?_place_empty u hleads, get?_place_empty v hleads] at hview
        rw [hu, hv, hview]
  case flags =>
    intro suite
    rw [flags_ofSettings, flags_ofSettings]
    by_cases hs : suite = ""
    · rw [if_pos hs, if_pos hs]
    · rw [if_neg hs, if_neg hs]
      rcases get?_cases hkeys (Route.flagKey suite) with ⟨hu, hv⟩ | ⟨u, v, hu, hv, hmem⟩
      · rw [hu, hv]
      · have hview := congrArg (fun c : Chain => c.flags.get? suite) (hflag suite u v hs hu hv hmem)
        rw [flags_place_empty suite u hs, flags_place_empty suite v hs] at hview
        rw [hu, hv, Option.bind_some, Option.bind_some, hview]
  case rawFlags =>
    intro suite
    rw [rawFlags_ofSettings, rawFlags_ofSettings]
    by_cases hs : suite = ""
    · rw [if_pos hs, if_pos hs]
    · rw [if_neg hs, if_neg hs]
      rcases get?_cases hkeys (Route.flagKey suite) with ⟨hu, hv⟩ | ⟨u, v, hu, hv, hmem⟩
      · rw [hu, hv]
      · have hview :=
          congrArg (fun c : Chain => c.rawFlags.get? suite) (hflag suite u v hs hu hv hmem)
        rw [rawFlags_place_empty suite u hs, rawFlags_place_empty suite v hs] at hview
        rw [hu, hv, Option.filter_some, Option.filter_some]
        simpa using hview

theorem place_of_agrees (h : (ofSettings m').Agrees (ofSettings m)) (hkeys : m'.keys = m.keys)
    {key u v : String} (hu : m'.get? key = some u) (hv : m.get? key = some v)
    (hdecides : Decides m key) : place {} key u = place {} key v := by
  cases hroute : Route.ofKey key with
  | global k =>
    cases Route.ofKey_eq_global hroute
    by_cases hk : key ∈ GlobalKey.known
    · have hview := congrArg (fun g : Globals => g.get? key) h.globals
      rw [globals_ofSettings m' hk, globals_ofSettings m hk, hu, hv, Option.some.injEq] at hview
      rw [hview]
    · have hnone : ∀ value, ({} : Globals).set? key value = none := by
        intro value
        simp only [GlobalKey.known, List.mem_cons, List.not_mem_nil, or_false, not_or] at hk
        simp [Globals.set?, hk]
      simp only [place, hroute, hnone]
  | flag suite =>
    obtain ⟨hs, rfl⟩ := Route.ofKey_eq_flag_iff.mp hroute
    have hflag := h.flags suite
    have hraw := h.rawFlags suite
    rw [flags_ofSettings, flags_ofSettings, if_neg hs, if_neg hs, hu, hv, Option.bind_some,
      Option.bind_some] at hflag
    rw [rawFlags_ofSettings, rawFlags_ofSettings, if_neg hs, if_neg hs, hu, hv,
      Option.filter_some, Option.filter_some] at hraw
    unfold place
    rw [hroute, hflag]
    dsimp only
    cases hread : readFlag v with
    | some b => rfl
    | none =>
      rw [hflag, hread] at hraw
      have huv : u = v := by simpa using hraw
      rw [huv]
  | property n suffix =>
    have hlast := (decides_iff_of_property hroute (Text.sameName_refl n)).mp hdecides
    have hprop := h.properties n suffix
    rw [get?_ofSettings_eq_bind, get?_ofSettings_eq_bind, hkeys, hlast, Option.bind_some,
      Option.bind_some, hu, hv, Option.some.injEq] at hprop
    rw [hprop]
  | nowhere => simp only [place, hroute]

/-- Under the same keys, the settings that decide settle whether the same is read. -/
theorem agrees_ofSettings_iff (hkeys : m'.keys = m.keys) :
    (ofSettings m').Agrees (ofSettings m) ↔
      ∀ key u v, m'.get? key = some u → m.get? key = some v → Decides m key →
        place {} key u = place {} key v :=
  ⟨fun h _ _ _ hu hv hdecides => place_of_agrees h hkeys hu hv hdecides, agrees_of_place hkeys⟩

end SameKeys

end Chain

end BuildChain
