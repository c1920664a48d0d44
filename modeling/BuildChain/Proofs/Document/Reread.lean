import BuildChain.Proofs.Document.Settings

/-!
# Writing back what was read

A chain that holds what a map of settings says, with its sections in whatever order, writes nothing
that has no setting, and it keeps the line of every setting.
-/

namespace BuildChain

namespace Chain

/-- The chain holds what the settings say, with its sections in any order. -/
structure Describes (c : Chain) (m : OrderedMap String) : Prop where
  globals : c.globals = (ofSettings m).globals
  flags : c.flags = (ofSettings m).flags
  rawFlags : c.rawFlags = (ofSettings m).rawFlags
  sections : c.sections.Perm (ofSettings m).sections

theorem describes_ofText (text : String) : (ofText text).Describes (settings text) := by
  rw [ofText_eq]
  exact ⟨rfl, rfl, rfl, List.Perm.refl _⟩

namespace Describes

variable {c : Chain} {m : OrderedMap String}

theorem get? (h : c.Describes m) (name suffix : String) :
    c.get? name suffix = (ofSettings m).get? name suffix := by
  rw [Chain.get?, section?_of_perm (distinctNames_ofSettings m) h.sections, Chain.get?]

theorem distinctNames (h : c.Describes m) : c.DistinctNames :=
  (distinctNames_ofSettings m).of_perm h.sections

theorem exists_global (h : c.Describes m) {key raw : String}
    (hget : c.globals.get? key = some raw) : m.get? key = some raw := by
  rw [h.globals] at hget
  by_cases hk : key ∈ GlobalKey.known
  · rwa [globals_ofSettings m hk] at hget
  · rw [Globals.get?_of_not_known hk] at hget
    cases hget

/-- A property is there because of a setting that leads to it. -/
theorem exists_property (h : c.Describes m) {name suffix raw : String}
    (hget : c.get? name suffix = some raw) :
    ∃ k n, m.get? k = some raw ∧ Route.ofKey k = .property n suffix ∧
      Text.sameName n name = true := by
  rw [h.get?, get?_ofSettings, Option.map_eq_some_iff] at hget
  obtain ⟨⟨k, v⟩, hlast, rfl⟩ := hget
  have hmem := List.mem_of_getLast? hlast
  rw [List.mem_filter] at hmem
  obtain ⟨hentry, hleads⟩ := hmem
  refine ⟨k, ?_⟩
  unfold Route.leadsTo at hleads
  split at hleads
  · rename_i n p hroute
    rw [Bool.and_eq_true, decide_eq_true_eq] at hleads
    obtain ⟨hname, rfl⟩ := hleads
    exact ⟨n, OrderedMap.mem_toList_iff.mp hentry, hroute, hname⟩
  · cases hleads

theorem get?_of_mem_sections (h : c.Describes m) {s : Section} (hs : s ∈ c.sections)
    (suffix : String) : c.get? s.name suffix = s.get? suffix := by
  rw [h.get?]
  exact get?_of_mem (distinctNames_ofSettings m) (h.sections.mem_iff.mp hs)
    (Text.sameName_refl s.name) suffix

theorem exists_flag (h : c.Describes m) {suite : String} {enabled : Bool}
    (hget : c.flags.get? suite = some enabled) :
    ∃ v, m.get? (Route.flagKey suite) = some v ∧
      Route.ofKey (Route.flagKey suite) = .flag suite ∧ readFlag v = some enabled := by
  rw [h.flags, flags_ofSettings] at hget
  split at hget
  · cases hget
  · rename_i hne
    obtain ⟨v, hv, hread⟩ := Option.bind_eq_some_iff.mp hget
    exact ⟨v, hv, Route.ofKey_eq_flag_iff.mpr ⟨hne, rfl⟩, hread⟩

theorem exists_rawFlag (h : c.Describes m) {suite raw : String}
    (hget : c.rawFlags.get? suite = some raw) :
    m.get? (Route.flagKey suite) = some raw ∧
      Route.ofKey (Route.flagKey suite) = .flag suite := by
  rw [h.rawFlags, rawFlags_ofSettings] at hget
  split at hget
  · cases hget
  · rename_i hne
    exact ⟨(Option.filter_eq_some_iff.mp hget).1, Route.ofKey_eq_flag_iff.mpr ⟨hne, rfl⟩⟩

/-- What is written has a setting of the same name, with that value or as a boolean literal. -/
theorem exists_setting (h : c.Describes m) {key value : String} (hw : c.Writes key value) :
    ∃ k v, m.get? k = some v ∧ Text.sameName k key = true ∧
      (value = Text.trim v ∨
        ∃ suite enabled, Route.ofKey k = .flag suite ∧ readFlag v = some enabled ∧
          value = flagText enabled) := by
  cases hw with
  | @global key raw hget hblank =>
    exact ⟨key, raw, h.exists_global hget, Text.sameName_refl key, .inl rfl⟩
  | @property s suffix raw hs hget hblank =>
    obtain ⟨k, n, hk, hroute, hname⟩ :=
      h.exists_property ((h.get?_of_mem_sections hs suffix).trans hget)
    refine ⟨k, raw, hk, ?_, .inl rfl⟩
    rw [(Route.ofKey_eq_property hroute).1]
    exact Route.sameName_propertyKey hname suffix
  | @flag suite enabled hget =>
    obtain ⟨v, hv, hroute, hread⟩ := h.exists_flag hget
    exact ⟨_, v, hv, Text.sameName_refl _, .inr ⟨suite, enabled, hroute, hread, rfl⟩⟩
  | @rawFlag suite raw hget hblank =>
    exact ⟨_, raw, (h.exists_rawFlag hget).1, Text.sameName_refl _, .inl rfl⟩

/-- A flag that is written has a setting under its own key. -/
theorem exists_writtenFlag (h : c.Describes m) {e : String × String}
    (he : e ∈ Document.writtenFlags c) :
    ∃ v, m.get? (Route.flagKey e.1) = some v ∧ Route.ofKey (Route.flagKey e.1) = .flag e.1 := by
  rcases List.mem_append.mp he with he | he
  · obtain ⟨⟨suite, enabled⟩, hmem, rfl⟩ := List.mem_map.mp he
    obtain ⟨v, hv, hroute, -⟩ := h.exists_flag (OrderedMap.mem_toList_iff.mp hmem)
    exact ⟨v, hv, hroute⟩
  · obtain ⟨⟨suite, raw⟩, hmem, hout⟩ := List.mem_filterMap.mp he
    obtain ⟨v, -, rfl⟩ := Option.map_eq_some_iff.mp hout
    exact ⟨raw, h.exists_rawFlag (OrderedMap.mem_toList_iff.mp hmem)⟩

/-- Every section is there because of a setting that leads to it. -/
theorem exists_key_of_mem_names (h : c.Describes m) {name : String} (hname : name ∈ c.names) :
    ∃ key ∈ m.keys, (Route.ofKey key).section? = some name :=
  Chain.exists_key_of_mem_names ((h.sections.map Section.name).mem_iff.mp hname)

/-- A section that writes anything has an assignment. -/
theorem exists_assignment {as : List Assignment} (h : c.Describes (Document.settings as))
    {s : Section} (hs : s ∈ c.sections) (hne : Document.sectionWrites s ≠ []) :
    ∃ x ∈ as, ∃ n suffix,
      Route.ofKey x.key = .property n suffix ∧ Text.sameName n s.name = true := by
  obtain ⟨⟨key, value⟩, hmem⟩ := List.exists_mem_of_ne_nil _ hne
  obtain ⟨suffix, raw, hget, -, -, -⟩ := Document.mem_sectionWrites.mp hmem
  obtain ⟨k, n, hk, hroute, hname⟩ :=
    h.exists_property ((h.get?_of_mem_sections hs suffix).trans hget)
  exact ⟨_, Document.mem_of_get?_settings hk, n, suffix, hroute, hname⟩

/-- Nothing that was read gets lost. -/
theorem keeps (h : c.Describes m) {key : String} (hk : key ∈ m.keys) :
    Document.keeps c (Route.ofKey key) = true := by
  obtain ⟨v, hv⟩ := Option.isSome_iff_exists.mp (OrderedMap.mem_keys_iff.mp hk)
  cases hroute : Route.ofKey key with
  | global k =>
    cases Route.ofKey_eq_global hroute
    by_cases hknown : key ∈ GlobalKey.known
    · rw [Document.keeps_global hknown, h.globals, globals_ofSettings m hknown, hv]
      rfl
    · exact Document.keeps_global_of_not_known hknown
  | flag suite =>
    obtain ⟨hne, rfl⟩ := Route.ofKey_eq_flag_iff.mp hroute
    refine Document.keeps_flag_iff.mpr ⟨suite, ?_, Text.sameName_refl suite⟩
    rw [h.flags, h.rawFlags, flags_ofSettings, rawFlags_ofSettings, if_neg hne, if_neg hne, hv]
    cases hread : readFlag v with
    | some b => exact .inl (by simp [hread])
    | none => exact .inr (by simp [hread, Option.filter_some])
  | property n suffix =>
    rw [Document.keeps_property, h.get?, get?_ofSettings, Option.isSome_map, List.getLast?_isSome]
    refine List.ne_nil_of_mem (List.mem_filter.mpr ⟨OrderedMap.mem_toList_iff.mpr hv, ?_⟩)
    simp [hroute, Route.leadsTo]
  | nowhere => rfl

end Describes

end Chain

end BuildChain
