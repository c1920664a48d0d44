import BuildChain.Proofs.Chain.Agreement
import BuildChain.Proofs.Document.Update

/-!
# Places

What a chain holds stands at a place: a global key, the flag of a suite, or a property of the
sections of a name. Settings say of a place what stands under the last key that leads there, and all
keys that lead there differ in case at most. So a chain can be compared place by place with the
settings it is read from, and with the settings that it writes.
-/

namespace BuildChain

/-! ## The key of a place -/

namespace Route

def key : Route → String
  | global key => key
  | flag suite => flagKey suite
  | property name suffix => propertyKey name suffix
  | nowhere => ""

/-- Whether a chain has a place for what a route leads to. -/
def IsPlace : Route → Prop
  | global key => key ∈ GlobalKey.known
  | flag _ => True
  | property _ _ => True
  | nowhere => False

instance : DecidablePred IsPlace
  | global key => inferInstanceAs (Decidable (key ∈ GlobalKey.known))
  | flag _ => .isTrue trivial
  | property _ _ => .isTrue trivial
  | nowhere => .isFalse id

theorem samePlace_iff {r r' : Route} : r.samePlace r' = true ↔
    r = r' ∨ ∃ n n' p, r = property n p ∧ r' = property n' p ∧ Text.sameName n n' = true := by
  cases r' with
  | property name suffix =>
    rw [samePlace_property, leadsTo_iff]
    constructor
    · rintro ⟨n, rfl, hname⟩
      exact .inr ⟨n, name, suffix, rfl, rfl, hname⟩
    · rintro (rfl | ⟨n, n', p, rfl, heq, hname⟩)
      · exact ⟨name, rfl, Text.sameName_refl name⟩
      · cases heq
        exact ⟨n, rfl, hname⟩
  | global key => simp [samePlace_global]
  | flag suite => simp [samePlace_flag]
  | nowhere => simp [samePlace]

theorem samePlace_property_iff {n n' p p' : String} :
    (property n p).samePlace (property n' p') = true ↔ Text.sameName n n' = true ∧ p = p' := by
  rw [samePlace_property, leadsTo, Bool.and_eq_true, decide_eq_true_eq]

theorem samePlace_symm {r r' : Route} (h : r.samePlace r' = true) : r'.samePlace r = true := by
  rw [samePlace_iff] at h ⊢
  rcases h with rfl | ⟨n, n', p, rfl, rfl, hname⟩
  · exact .inl rfl
  · exact .inr ⟨n', n, p, rfl, rfl, by rwa [Text.sameName_comm]⟩

theorem samePlace_trans {r r' r'' : Route} (h : r.samePlace r' = true)
    (h' : r'.samePlace r'' = true) : r.samePlace r'' = true := by
  rw [samePlace_iff] at h h' ⊢
  rcases h with rfl | ⟨n, n', p, rfl, rfl, hname⟩
  · exact h'
  · rcases h' with rfl | ⟨m, m', q, heq, rfl, hname'⟩
    · exact .inr ⟨n, n', p, rfl, rfl, hname⟩
    · cases heq
      exact .inr ⟨n, m', p, rfl, rfl, Text.sameName_trans hname hname'⟩

/-- Two places that are the same are the same to any third one. -/
theorem samePlace_congr {r r' : Route} (h : r.samePlace r' = true) (r'' : Route) :
    r''.samePlace r = r''.samePlace r' := by
  rw [Bool.eq_iff_iff]
  exact ⟨fun h' => samePlace_trans h' h, fun h' => samePlace_trans h' (samePlace_symm h)⟩

/-- A key that leads to a place is the key of the place, up to the case of its letters. -/
theorem sameName_key {k : String} {r : Route} (h : (ofKey k).samePlace r = true)
    (hr : r ≠ nowhere) : Text.sameName k r.key = true := by
  cases r with
  | global key =>
    rw [samePlace_global, decide_eq_true_eq] at h
    rw [ofKey_eq_global h]
    exact Text.sameName_refl k
  | flag suite =>
    rw [samePlace_flag, decide_eq_true_eq] at h
    rw [(ofKey_eq_flag_iff.mp h).2]
    exact Text.sameName_refl _
  | property name suffix =>
    rw [samePlace_property, leadsTo_iff] at h
    obtain ⟨n, hroute, hname⟩ := h
    rw [(ofKey_eq_property hroute).1]
    exact sameName_propertyKey hname suffix
  | nowhere => exact absurd rfl hr

end Route

namespace Chain

/-! ## What settings say of a place -/

/-- What stands under the last key that leads to a place. -/
def settingAt? (m : OrderedMap String) (r : Route) : Option String :=
  ((m.keys.filter fun k => (Route.ofKey k).samePlace r).getLast?).bind m.get?

/-- Only the keys that lead to the place count. -/
theorem settingAt?_ofList_filter (entries : List (String × String)) {p : String → Bool} {r : Route}
    (hp : ∀ k, (Route.ofKey k).samePlace r = true → p k = true) :
    settingAt? (.ofList (entries.filter fun e => p e.1)) r = settingAt? (.ofList entries) r := by
  have hkeys : (OrderedMap.ofList (entries.filter fun e => p e.1)).keys.filter
      (fun k => (Route.ofKey k).samePlace r) =
      (OrderedMap.ofList entries).keys.filter fun k => (Route.ofKey k).samePlace r := by
    rw [OrderedMap.keys_ofList_filter, List.filter_filter]
    refine List.filter_congr fun k _ => ?_
    cases hk : (Route.ofKey k).samePlace r with
    | true => rw [hp k hk]; rfl
    | false => rfl
  rw [settingAt?, hkeys, settingAt?]
  cases hlast : ((OrderedMap.ofList entries).keys.filter fun k =>
      (Route.ofKey k).samePlace r).getLast? with
  | none => rfl
  | some k =>
    have hk := (List.mem_filter.mp (List.mem_of_getLast? hlast)).2
    rw [Option.bind_some, Option.bind_some, OrderedMap.get?_ofList_filter, if_pos (hp k hk)]

theorem settingAt?_eq_none_iff {m : OrderedMap String} {r : Route} : settingAt? m r = none ↔
    ∀ k ∈ m.keys, (Route.ofKey k).samePlace r = false := by
  rw [settingAt?]
  cases hlast : (m.keys.filter fun k => (Route.ofKey k).samePlace r).getLast? with
  | none =>
    rw [List.getLast?_eq_none_iff, List.filter_eq_nil_iff] at hlast
    simpa using hlast
  | some k =>
    obtain ⟨hk, hsame⟩ := List.mem_filter.mp (List.mem_of_getLast? hlast)
    have hsome := OrderedMap.mem_keys_iff.mp hk
    rw [Option.bind_some]
    constructor
    · intro hnone
      rw [hnone] at hsome
      cases hsome
    · intro hall
      rw [hall k hk] at hsame
      cases hsame

/-- What is said of a place stands under a key that leads there. -/
theorem exists_key_of_settingAt? {m : OrderedMap String} {r : Route} {v : String}
    (h : settingAt? m r = some v) :
    ∃ k, m.get? k = some v ∧ (Route.ofKey k).samePlace r = true := by
  obtain ⟨k, hlast, hget⟩ := Option.bind_eq_some_iff.mp h
  exact ⟨k, hget, (List.mem_filter.mp (List.mem_of_getLast? hlast)).2⟩

/-- A key that decides says what is said of its place. -/
theorem settingAt?_of_decides {m : OrderedMap String} {k : String} (h : Decides m k) {r : Route}
    (hr : (Route.ofKey k).samePlace r = true) : settingAt? m r = m.get? k := by
  rw [Decides] at h
  simp only [Route.samePlace_congr hr] at h
  rw [settingAt?, h, Option.bind_some]

theorem settingAt?_congr (m : OrderedMap String) {r r' : Route} (h : r.samePlace r' = true) :
    settingAt? m r = settingAt? m r' := by
  simp only [settingAt?, Route.samePlace_congr h]

/-! ## What is read of a place -/

theorem get?_eq_settingAt? (m : OrderedMap String) (name suffix : String) :
    (ofSettings m).get? name suffix = settingAt? m (.property name suffix) :=
  get?_ofSettings_eq_bind m name suffix

/-- Where one key leads to a place, its setting is what is said of the place. -/
theorem settingAt?_of_unique {m : OrderedMap String} {key : String} {r : Route}
    (h : ∀ k, (Route.ofKey k).samePlace r = true ↔ k = key) : settingAt? m r = m.get? key := by
  cases hget : m.get? key with
  | none =>
    rw [settingAt?_eq_none_iff]
    intro k hk
    rw [← Bool.not_eq_true, h]
    rintro rfl
    exact OrderedMap.get?_eq_none_iff.mp hget hk
  | some v =>
    have hmem : key ∈ m.keys := OrderedMap.mem_keys_iff.mpr (by rw [hget]; rfl)
    have hself := (h key).mpr rfl
    rw [← hget]
    refine settingAt?_of_decides (decides_of_unique hmem fun k _ hk => ?_) hself
    exact (h k).mp (Route.samePlace_trans hk hself)

theorem global_eq_settingAt? (m : OrderedMap String) {key : String} (hk : key ∈ GlobalKey.known) :
    (ofSettings m).globals.get? key = settingAt? m (.global key) := by
  rw [globals_ofSettings m hk]
  refine (settingAt?_of_unique fun k => ?_).symm
  rw [Route.samePlace_global, decide_eq_true_eq]
  constructor
  · exact fun h => (Route.ofKey_eq_global h).symm
  · rintro rfl
    exact GlobalKey.ofKey_of_known hk

theorem settingAt?_flag (m : OrderedMap String) (suite : String) :
    settingAt? m (.flag suite) = if suite = "" then none else m.get? (Route.flagKey suite) := by
  split
  · rename_i hs
    rw [settingAt?_eq_none_iff]
    intro k _
    rw [← Bool.not_eq_true, Route.samePlace_flag, decide_eq_true_eq, Route.ofKey_eq_flag_iff]
    exact fun h => h.1 hs
  · rename_i hs
    refine settingAt?_of_unique fun k => ?_
    rw [Route.samePlace_flag, decide_eq_true_eq, Route.ofKey_eq_flag_iff]
    exact ⟨fun h => h.2, fun h => ⟨hs, h⟩⟩

theorem flag_eq_settingAt? (m : OrderedMap String) (suite : String) :
    (ofSettings m).flags.get? suite = (settingAt? m (.flag suite)).bind readFlag := by
  rw [flags_ofSettings, settingAt?_flag]
  split <;> rfl

theorem rawFlag_eq_settingAt? (m : OrderedMap String) (suite : String) :
    (ofSettings m).rawFlags.get? suite =
      (settingAt? m (.flag suite)).filter fun v => (readFlag v).isNone := by
  rw [rawFlags_ofSettings, settingAt?_flag]
  split <;> rfl

/-- A section is there when anything is read of one of its properties. -/
theorem hasSection_ofSettings_iff (m : OrderedMap String) (name : String) :
    (ofSettings m).hasSection name = true ↔
      ∃ suffix, ((ofSettings m).get? name suffix).isSome = true := by
  constructor
  · intro hhas
    obtain ⟨k, hk, n, hsection, hname⟩ := hasSection_ofSettings.mp hhas
    obtain ⟨suffix, hroute⟩ : ∃ suffix, Route.ofKey k = .property n suffix := by
      cases hroute : Route.ofKey k <;> rw [hroute] at hsection <;> cases hsection
      exact ⟨_, rfl⟩
    refine ⟨suffix, ?_⟩
    rw [get?_eq_settingAt?, ← Option.ne_none_iff_isSome]
    intro hnone
    have hother := settingAt?_eq_none_iff.mp hnone k hk
    rw [Route.samePlace_property, Route.leadsTo_iff.mpr ⟨n, hroute, hname⟩] at hother
    cases hother
  · rintro ⟨suffix, hsome⟩
    rw [hasSection_eq_isSome]
    rw [get?] at hsome
    cases hs : (ofSettings m).section? name with
    | none =>
      rw [hs] at hsome
      cases hsome
    | some s => rfl

/-! ## What a chain holds at a place -/

/-- What a chain holds at a place, as it stands; a flag stands as its literal. -/
def held? (c : Chain) : Route → Option String
  | .global key => c.globals.get? key
  | .flag suite => ((c.flags.get? suite).map flagText).or (c.rawFlags.get? suite)
  | .property name suffix => c.get? name suffix
  | .nowhere => none

theorem held?_congr (c : Chain) {r r' : Route} (h : r.samePlace r' = true) :
    c.held? r = c.held? r' := by
  rcases Route.samePlace_iff.mp h with rfl | ⟨n, n', p, rfl, rfl, hname⟩
  · rfl
  · exact get?_congr c hname p

/-- A flag is there when the settings say anything of it. -/
theorem held?_flag_ofSettings (m : OrderedMap String) (suite : String) :
    ((ofSettings m).held? (.flag suite)).isSome = (settingAt? m (.flag suite)).isSome := by
  rw [held?, flag_eq_settingAt?, rawFlag_eq_settingAt?]
  cases settingAt? m (.flag suite) with
  | none => rfl
  | some v => cases hread : readFlag v <;> simp [hread]

/-- What is held after reading is what the settings say, or a literal for a flag of which they say
something. -/
theorem settingAt?_of_held? {m : OrderedMap String} {r : Route} {raw : String}
    (h : (ofSettings m).held? r = some raw) :
    settingAt? m r = some raw ∨
      (settingAt? m r).isSome = true ∧ ∃ enabled, raw = flagText enabled := by
  cases r with
  | global key =>
    have hk := Globals.mem_known_of_get? h
    exact .inl ((global_eq_settingAt? m hk).symm.trans h)
  | flag suite =>
    rw [held?, flag_eq_settingAt?, rawFlag_eq_settingAt?] at h
    cases hat : settingAt? m (.flag suite) with
    | none => simp [hat] at h
    | some v =>
      rw [hat] at h
      cases hread : readFlag v with
      | none => exact .inl (by simpa [hread, Option.filter_some] using h)
      | some enabled =>
        refine .inr ⟨rfl, enabled, ?_⟩
        simpa [hread, eq_comm] using h
  | property name suffix => exact .inl ((get?_eq_settingAt? m name suffix).symm.trans h)
  | nowhere => cases h

end Chain

/-! ## What a chain writes at a place -/

namespace Document

open Chain (held?)

/-- Everything that a chain writes, with the place at which it stands. -/
def puts (c : Chain) : List (Route × String) :=
  (c.globals.written.map fun e => (.global e.1, e.2)) ++
    (c.sections.flatMap fun s => s.written.map fun e => (.property s.name e.1, e.2)) ++
    (writtenFlags c).map fun e => (.flag e.1, e.2)

theorem map_puts (c : Chain) : (puts c).map (fun e => (e.1.key, e.2)) = writes c := by
  simp only [puts, writes, List.map_append, List.map_map, List.map_flatMap]
  congr 1
  congr 1
  exact List.map_id' _

theorem mem_writes_of_mem_puts {c : Chain} {e : Route × String} (he : e ∈ puts c) :
    (e.1.key, e.2) ∈ writes c := map_puts c ▸ List.mem_map_of_mem he

theorem mem_puts {c : Chain} {e : Route × String} : e ∈ puts c ↔
    (∃ w ∈ c.globals.written, e = (.global w.1, w.2)) ∨
      (∃ s ∈ c.sections, ∃ w ∈ s.written, e = (.property s.name w.1, w.2)) ∨
      ∃ w ∈ writtenFlags c, e = (.flag w.1, w.2) := by
  simp only [puts, List.mem_append, List.mem_map, List.mem_flatMap, or_assoc, eq_comm (a := e)]

theorem ne_nowhere_of_mem_puts {c : Chain} {e : Route × String} (he : e ∈ puts c) :
    e.1 ≠ .nowhere := by
  rcases mem_puts.mp he with ⟨w, -, rfl⟩ | ⟨s, -, w, -, rfl⟩ | ⟨w, -, rfl⟩ <;> simp

/-- No two values are written at the same place. -/
theorem distinct_puts {c : Chain} (hdist : c.DistinctNames)
    (hsuites : ∀ suite ∈ c.flags.keys, suite ∉ c.rawFlags.keys) :
    (puts c).Pairwise fun e e' => e.1.samePlace e'.1 = false := by
  have hdistinct : ∀ {r r' : Route}, (r.samePlace r' = true → False) → r.samePlace r' = false :=
    fun h => Bool.not_eq_true _ ▸ h
  rw [puts, List.pairwise_append, List.pairwise_append, List.pairwise_map, List.pairwise_map,
    List.pairwise_flatMap]
  refine ⟨⟨?_, ⟨fun s _ => ?_, ?_⟩, ?_⟩, ?_, ?_⟩
  · -- the global settings
    have hknown : (c.globals.entries.map Prod.fst).Nodup := by
      rw [show c.globals.entries.map Prod.fst = GlobalKey.known from rfl]
      decide
    have hkeys :=
      OrderedMap.nodup_keys_filterMap (f := fun field => field.bind Text.trimmed?) hknown
    exact (List.pairwise_map.mp hkeys).imp fun hne => by simpa [Route.samePlace_global] using hne
  · -- the properties of one section
    have hkeys := OrderedMap.nodup_keys_filterMap (f := Text.trimmed?) s.nodup_keys_ordered
    rw [List.pairwise_map]
    refine (List.pairwise_map.mp hkeys).imp fun hne => hdistinct fun hplace => ?_
    exact hne (Route.samePlace_property_iff.mp hplace).2
  · -- the properties of two sections
    refine (List.pairwise_map.mp hdist).imp fun {s s'} hne e he e' he' => ?_
    obtain ⟨w, -, rfl⟩ := List.mem_map.mp he
    obtain ⟨w', -, rfl⟩ := List.mem_map.mp he'
    refine hdistinct fun hplace => ?_
    rw [(Route.samePlace_property_iff.mp hplace).1] at hne
    cases hne
  · intro e he e' he'
    obtain ⟨w, -, rfl⟩ := List.mem_map.mp he
    obtain ⟨s, -, he'⟩ := List.mem_flatMap.mp he'
    obtain ⟨w', -, rfl⟩ := List.mem_map.mp he'
    refine hdistinct fun hplace => ?_
    rcases Route.samePlace_iff.mp hplace with heq | ⟨n, n', p, heq, -, -⟩ <;> cases heq
  · -- the flags
    have hkeys : ((writtenFlags c).map Prod.fst).Nodup := by
      rw [writtenFlags, List.map_append, List.map_map, List.nodup_append]
      refine ⟨c.flags.keys_nodup, OrderedMap.nodup_keys_filterMap c.rawFlags.nodup_keys, ?_⟩
      rintro suite hsuite _ hraw rfl
      obtain ⟨e, he, rfl⟩ := List.mem_map.mp hraw
      obtain ⟨e', he', hout⟩ := List.mem_filterMap.mp he
      obtain ⟨v, -, rfl⟩ := Option.map_eq_some_iff.mp hout
      exact hsuites e'.1 hsuite (List.mem_map_of_mem he')
    exact (List.pairwise_map.mp hkeys).imp fun hne => by simpa [Route.samePlace_flag] using hne
  · intro e he e' he'
    obtain ⟨w', -, rfl⟩ := List.mem_map.mp he'
    refine hdistinct fun hplace => ?_
    rw [Route.samePlace_flag, decide_eq_true_eq] at hplace
    rcases List.mem_append.mp he with he | he
    · obtain ⟨w, -, rfl⟩ := List.mem_map.mp he
      cases hplace
    · obtain ⟨s, -, he⟩ := List.mem_flatMap.mp he
      obtain ⟨w, -, rfl⟩ := List.mem_map.mp he
      cases hplace

/-- What is written at a place is held there. -/
theorem held?_of_mem_puts {c : Chain} (hdist : c.DistinctNames)
    (hsuites : ∀ suite ∈ c.flags.keys, suite ∉ c.rawFlags.keys) {e : Route × String}
    (he : e ∈ puts c) :
    ∃ raw, c.held? e.1 = some raw ∧ Text.isBlank raw = false ∧ e.2 = Text.trim raw := by
  rcases mem_puts.mp he with ⟨⟨key, value⟩, hw, rfl⟩ | ⟨s, hs, ⟨suffix, value⟩, hw, rfl⟩ |
    ⟨⟨suite, value⟩, hw, rfl⟩
  · exact Globals.mem_written.mp hw
  · obtain ⟨raw, hget, hrest⟩ := Section.mem_written.mp hw
    refine ⟨raw, ?_, hrest⟩
    rw [held?, Chain.get?_of_mem hdist hs (Text.sameName_refl s.name), hget]
  · rcases List.mem_append.mp hw with hw | hw
    · obtain ⟨⟨suite', enabled⟩, hflag, heq⟩ := List.mem_map.mp hw
      cases heq
      have hget := OrderedMap.mem_toList_iff.mp hflag
      refine ⟨flagText enabled, by rw [held?, hget]; rfl, isBlank_flagText enabled, ?_⟩
      exact (trim_flagText enabled).symm
    · obtain ⟨⟨suite', raw⟩, hraw, hout⟩ := List.mem_filterMap.mp hw
      obtain ⟨v, hv, heq⟩ := Option.map_eq_some_iff.mp hout
      cases heq
      obtain ⟨hblank, rfl⟩ := Text.trimmed?_eq_some_iff.mp hv
      have hget := OrderedMap.mem_toList_iff.mp hraw
      have hflag : c.flags.get? suite' = none := by
        rw [OrderedMap.get?_eq_none_iff]
        exact fun hmem => hsuites _ hmem (OrderedMap.mem_keys_iff.mpr (by rw [hget]; rfl))
      exact ⟨raw, by rw [held?, hflag, hget]; rfl, hblank, rfl⟩

/-- What is held at a place and is not blank is written there. -/
theorem exists_put {c : Chain} {r : Route} {raw : String} (h : c.held? r = some raw)
    (hblank : Text.isBlank raw = false) :
    ∃ e ∈ puts c, e.1.samePlace r = true ∧ e.2 = Text.trim raw := by
  cases r with
  | global key =>
    refine ⟨(.global key, Text.trim raw), ?_, Route.samePlace_refl _, rfl⟩
    refine List.mem_append_left _ (List.mem_append_left _ (List.mem_map.mpr ⟨(key, _), ?_, rfl⟩))
    exact Globals.mem_written.mpr ⟨raw, h, hblank, rfl⟩
  | flag suite =>
    have hput : ∀ {value : String}, (suite, value) ∈ writtenFlags c →
        (Route.flag suite, value) ∈ puts c := fun hw =>
      List.mem_append_right _ (List.mem_map.mpr ⟨_, hw, rfl⟩)
    rcases Option.or_eq_some_iff.mp h with hflag | ⟨-, hraw⟩
    · obtain ⟨enabled, hget, rfl⟩ := Option.map_eq_some_iff.mp hflag
      rw [trim_flagText]
      refine ⟨_, hput (List.mem_append_left _ ?_), Route.samePlace_refl _, rfl⟩
      exact List.mem_map.mpr ⟨(suite, enabled), OrderedMap.mem_toList_iff.mpr hget, rfl⟩
    · refine ⟨_, hput (List.mem_append_right _ ?_), Route.samePlace_refl _, rfl⟩
      refine List.mem_filterMap.mpr ⟨(suite, raw), OrderedMap.mem_toList_iff.mpr hraw, ?_⟩
      rw [Text.trimmed?_eq_some_iff.mpr ⟨hblank, rfl⟩]
      rfl
  | property name suffix =>
    obtain ⟨s, hs, hget⟩ := Option.bind_eq_some_iff.mp h
    have hnamed : Text.sameName s.name name = true :=
      List.find?_some (p := fun s : Section => s.isNamed name) hs
    refine ⟨(.property s.name suffix, Text.trim raw), ?_, ?_, rfl⟩
    · refine List.mem_append_left _ (List.mem_append_right _ ?_)
      refine List.mem_flatMap.mpr ⟨s, List.mem_of_find?_eq_some hs, ?_⟩
      refine List.mem_map.mpr ⟨(suffix, _), ?_, rfl⟩
      exact Section.mem_written.mpr ⟨raw, hget, hblank, rfl⟩
    · exact Route.leadsTo_iff.mpr ⟨s.name, rfl, hnamed⟩
  | nowhere => cases h

/-! ## What a chain keeps -/

/-- Whether a line is kept depends on the place alone. -/
theorem keeps_of_samePlace {c : Chain} {r r' : Route} (hplace : r.samePlace r' = true)
    (hkeeps : keeps c r' = true) : keeps c r = true := by
  cases r' with
  | property name suffix =>
    obtain ⟨n, rfl, hname⟩ := Route.leadsTo_iff.mp hplace
    rw [keeps_property] at hkeeps ⊢
    rwa [Chain.get?_congr c hname]
  | global key => rwa [of_decide_eq_true hplace]
  | flag suite => rwa [of_decide_eq_true hplace]
  | nowhere => rwa [of_decide_eq_true hplace]

theorem keeps_of_held? {c : Chain} {r : Route} (h : (c.held? r).isSome = true) :
    keeps c r = true := by
  cases r with
  | global key =>
    obtain ⟨raw, hget⟩ := Option.isSome_iff_exists.mp h
    rw [keeps_global (Globals.mem_known_of_get? hget)]
    exact h
  | flag suite =>
    refine keeps_flag_iff.mpr ⟨suite, ?_, Text.sameName_refl suite⟩
    simpa [held?, Option.isSome_or] using h
  | property name suffix =>
    rw [keeps_property]
    exact h
  | nowhere => rfl

end Document

end BuildChain
