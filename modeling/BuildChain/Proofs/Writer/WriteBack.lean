import BuildChain.Proofs.Chain.Naming
import BuildChain.Proofs.Chain.Tidied
import BuildChain.Proofs.Document.Settling
import BuildChain.Proofs.Writer.Assembly

/-!
# Writing an edited chain back

Any chain may be written onto any text it fits: its keys are read back as what they stand for, and
they get along with each other and with the keys on the lines of the text. What is then read from
the text is the chain, with its values trimmed.
-/

namespace BuildChain

open Assignment (IsKey)
open Document (assignments writes MakeLines DistinctKeys OneSpelling SamePlaces Settling)

/-! ## Keys that are read back -/

/-- The line of a key and a value is one line, and it leads where it is meant to. -/
def ReadsBack (key value : String) (r : Route) : Prop :=
  (Text.lines (Line.assign key value)).map Route.ofLine? = [some r]

instance (key value : String) (r : Route) : Decidable (ReadsBack key value r) :=
  inferInstanceAs (Decidable (_ = _))

theorem ReadsBack.isKey {key value : String} {r : Route} (h : ReadsBack key value r)
    (hvalue : '\n' ∉ value.toList) (hr : ∀ k, Route.ofKey k = r → k = key) :
    IsKey key ∧ '\n' ∉ key.toList ∧ Route.ofKey key = r := by
  have hlen : (Text.lines (Line.assign key value)).length = 1 := by
    rw [← List.length_map (f := Route.ofLine?), h]
    rfl
  have hend : (Line.assign key value).toList = key.toList ++ '=' :: value.toList := by
    simp [Line.assign]
  have hopen : (Line.assign key value).toList.getLast? ≠ some '\n' := by
    rw [hend, List.getLast?_append_of_ne_nil _ (by simp)]
    intro hlast
    rcases List.mem_cons.mp (List.mem_of_getLast? hlast) with heq | hmem
    · exact absurd heq (by decide)
    · exact hvalue hmem
  obtain ⟨hone, hfeed⟩ := Text.lines_of_length_eq_one hlen hopen
  rw [ReadsBack, hone, List.map_singleton, List.cons.injEq, Route.ofLine?,
    Option.map_eq_some_iff] at h
  obtain ⟨⟨a, hread, hroute⟩, -⟩ := h
  have hkey : a.key = key := hr a.key hroute
  have hact := Assignment.active_of_ofLine?_assign hread hkey
  refine ⟨hkey ▸ Assignment.isKey_of_active hread hact, ?_, hkey ▸ hroute⟩
  rw [hend, List.mem_append, not_or] at hfeed
  exact hfeed.1

/-- A key that can stand on a line is read back with every value that fits on one. -/
theorem ReadsBack.of_isKey {key value : String} (hk : IsKey key) (hfeed : '\n' ∉ key.toList)
    (hvalue : '\n' ∉ value.toList) : ReadsBack key value (Route.ofKey key) := by
  have hline : (Line.assign key value).toList = key.toList ++ '=' :: value.toList := by
    simp [Line.assign]
  have hone : Text.lines (Line.assign key value) = [Line.assign key value] := by
    refine Text.lines_eq_singleton ?_ ?_
    · rw [hline]
      simp
    · rw [hline, List.mem_append, List.mem_cons, not_or, not_or]
      exact ⟨hfeed, by decide, hvalue⟩
  have hind : ∀ c ∈ ([] : List Char), Text.isSpace c = true := by simp
  have hread := Assignment.ofLine?_assign hind hk value (l := Line.assign key value) rfl
  rw [ReadsBack, hone, List.map_singleton, Route.ofLine?, hread]
  rfl

/-! ## Chains with lines of their own -/

/-- Whatever the chain writes is on a line of its own, which leads where it is meant to. -/
structure Chain.HasLines (c : Chain) : Prop where
  values : ∀ e ∈ writes c, '\n' ∉ e.2.toList
  propertyKeys : ∀ s ∈ c.sections, ∀ e ∈ s.written,
    ReadsBack (Route.propertyKey s.name e.1) e.2 (.property s.name e.1)
  flagKeys : ∀ e ∈ Document.writtenFlags c, ReadsBack (Route.flagKey e.1) e.2 (.flag e.1)

instance (c : Chain) : Decidable c.HasLines :=
  decidable_of_iff
    ((∀ e ∈ writes c, '\n' ∉ e.2.toList) ∧
      (∀ s ∈ c.sections, ∀ e ∈ s.written,
        ReadsBack (Route.propertyKey s.name e.1) e.2 (.property s.name e.1)) ∧
      ∀ e ∈ Document.writtenFlags c, ReadsBack (Route.flagKey e.1) e.2 (.flag e.1))
    ⟨fun ⟨h₁, h₂, h₃⟩ => ⟨h₁, h₂, h₃⟩, fun ⟨h₁, h₂, h₃⟩ => ⟨h₁, h₂, h₃⟩⟩

namespace Chain.HasLines

variable {c : Chain}

theorem property_isKey (h : c.HasLines) {s : Section} (hs : s ∈ c.sections)
    {e : String × String} (he : e ∈ s.written) :
    IsKey (Route.propertyKey s.name e.1) ∧ '\n' ∉ (Route.propertyKey s.name e.1).toList ∧
      Route.ofKey (Route.propertyKey s.name e.1) = .property s.name e.1 := by
  have hvalue := h.values _ (Document.mem_writes_of_mem_written hs he)
  exact (h.propertyKeys s hs e he).isKey hvalue fun k hk => (Route.ofKey_eq_property hk).1

theorem flag_isKey (h : c.HasLines) {e : String × String}
    (he : e ∈ Document.writtenFlags c) :
    IsKey (Route.flagKey e.1) ∧ '\n' ∉ (Route.flagKey e.1).toList ∧
      Route.ofKey (Route.flagKey e.1) = .flag e.1 := by
  have hw : (Route.flagKey e.1, e.2) ∈ writes c :=
    List.mem_append_right _ (List.mem_map.mpr ⟨e, he, rfl⟩)
  have hvalue := h.values _ hw
  exact (h.flagKeys e he).isKey hvalue fun k hk => (Route.ofKey_eq_flag_iff.mp hk).2

/-- Whatever the chain writes makes a line. -/
theorem makeLines (h : c.HasLines) : MakeLines (writes c) := by
  intro e he
  suffices hkey : IsKey e.1 ∧ '\n' ∉ e.1.toList from ⟨hkey.1, hkey.2, h.values e he⟩
  rcases List.mem_append.mp he with he | he
  · rcases List.mem_append.mp he with he | he
    · exact GlobalKey.isKey (Globals.mem_known_of_mem_written he)
    · obtain ⟨s, hs, he⟩ := List.mem_flatMap.mp he
      obtain ⟨e', he', rfl⟩ := List.mem_map.mp he
      obtain ⟨hk, hfeed, -⟩ := h.property_isKey hs he'
      exact ⟨hk, hfeed⟩
  · obtain ⟨e', he', rfl⟩ := List.mem_map.mp he
    obtain ⟨hk, hfeed, -⟩ := h.flag_isKey he'
    exact ⟨hk, hfeed⟩

theorem routesBack (h : c.HasLines) : c.RoutesBack where
  properties _ hs _ he := (h.property_isKey hs he).2.2
  flags e he := (h.flag_isKey (e := (e.1, flagText e.2))
    (List.mem_append_left _ (List.mem_map_of_mem he))).2.2
  rawFlags _ he := (h.flag_isKey (List.mem_append_right _ he)).2.2

/-- The line of whatever is written is kept. -/
theorem keeps_of_writes (h : c.HasLines) (hdist : c.DistinctNames) {key value : String}
    (hw : c.Writes key value) : Document.keeps c (Route.ofKey key) = true := by
  cases hw with
  | @global key raw hget hblank =>
    have hknown := Globals.mem_known_of_get? hget
    rw [GlobalKey.ofKey_of_known hknown, Document.keeps_global hknown, hget]
    rfl
  | @property s suffix raw hs hget hblank =>
    have hwritten : (suffix, Text.trim raw) ∈ s.written :=
      Section.mem_written.mpr ⟨raw, hget, hblank, rfl⟩
    rw [(h.property_isKey hs hwritten).2.2, Document.keeps_property,
      Chain.get?_of_mem hdist hs (Text.sameName_refl s.name), hget]
    rfl
  | @flag suite enabled hget =>
    have hwritten : (suite, flagText enabled) ∈ Document.writtenFlags c :=
      List.mem_append_left _
        (List.mem_map.mpr ⟨(suite, enabled), OrderedMap.mem_toList_iff.mpr hget, rfl⟩)
    rw [(h.flag_isKey hwritten).2.2]
    exact Document.keeps_flag_iff.mpr ⟨suite, .inl (by simp [hget]), Text.sameName_refl suite⟩
  | @rawFlag suite raw hget hblank =>
    have hwritten : (suite, Text.trim raw) ∈ Document.writtenFlags c := by
      refine List.mem_append_right _ (List.mem_filterMap.mpr
        ⟨(suite, raw), OrderedMap.mem_toList_iff.mpr hget, ?_⟩)
      rw [Text.trimmed?_eq_some_iff.mpr ⟨hblank, rfl⟩]
      rfl
    rw [(h.flag_isKey hwritten).2.2]
    exact Document.keeps_flag_iff.mpr ⟨suite, .inr (by simp [hget]), Text.sameName_refl suite⟩

/-- What one write keeps is kept by a whole update, if it tells that a line with the key of an entry
leads where the entry does: a section that is inserted then has no line with one of its keys. -/
theorem update_assignments {P : List (String × String) → List Assignment → Prop} (h : c.HasLines)
    (o : Order) (hkeys : DistinctKeys (writes c)) {doc : Document} (hdoc : doc.Unbroken)
    (h0 : P [] doc.assignments)
    (hstep : ∀ done e as as', done ++ [e] <+: writes c → Document.Upserts e.1 e.2 as as' →
      P done as → P (done ++ [e]) as')
    (hplaces : ∀ done as, P done as → SamePlaces (writes c) as) :
    ∃ d : Document, Document.update o c doc = d.map (Document.retire c) ∧ d.Unbroken ∧
      P (writes c) d.assignments := by
  refine Document.update_assignments o hdoc h.makeLines h0 hstep ?_
  intro done s a b hs hpre hempty hinv
  have hown := hkeys.sublist ((List.sublist_append_right _ _).trans hpre.sublist)
  refine Document.adds_block hstep hpre hown (fun e he y hy => ?_) hinv
  -- a line of the same name would be a line of the section
  rw [← Bool.not_eq_true]
  intro hsame
  obtain ⟨suffix, raw, hget, hblank, hkey, -⟩ := Document.mem_sectionWrites.mp he
  have hwritten : (suffix, Text.trim raw) ∈ s.written :=
    Section.mem_written.mpr ⟨raw, hget, hblank, rfl⟩
  have hplace := hplaces _ _ hinv e (hpre.subset (List.mem_append_right _ he)) y hy hsame
  rw [hkey, (h.property_isKey hs hwritten).2.2, hempty y hy suffix] at hplace
  cases hplace

end Chain.HasLines

/-! ## Chains that are read back -/

def Globals.trimmed (g : Globals) : Globals :=
  ⟨g.version.map Text.trim, g.devVersion.map Text.trim, g.recipients.map Text.trim⟩

theorem Globals.get?_trimmed (g : Globals) (key : String) :
    g.trimmed.get? key = (g.get? key).map Text.trim := by
  by_cases h : key ∈ GlobalKey.known
  · simp only [GlobalKey.known, List.mem_cons, List.not_mem_nil, or_false] at h
    rcases h with rfl | rfl | rfl <;> rfl
  · rw [get?_of_not_known h, get?_of_not_known h]
    rfl

/-- The chain holds what the other one holds, with its values trimmed. It has the sections of the
other one that have any property, each once. -/
structure Chain.Restores (c' c : Chain) : Prop where
  globals : c'.globals = c.globals.trimmed
  names : c'.DistinctNames
  sections : ∀ name, c'.hasSection name = true ↔ ∃ suffix, (c.get? name suffix).isSome = true
  properties : ∀ name suffix, c'.get? name suffix = (c.get? name suffix).map Text.trim
  flags : ∀ suite, c'.flags.get? suite = c.flags.get? suite
  rawFlags : ∀ suite, c'.rawFlags.get? suite = (c.rawFlags.get? suite).map Text.trim

/-! ## Chains and texts that fit -/

/-- Whether a value can stand on a line and be read back from it. -/
def Plain (value : String) : Prop := Text.isBlank value = false ∧ '\n' ∉ value.toList

instance (value : String) : Decidable (Plain value) :=
  inferInstanceAs (Decidable (_ ∧ _))

/-- A chain that may be written onto a text. -/
structure Fits (text : String) (c : Chain) : Prop where
  names : c.DistinctNames
  suites : ∀ suite ∈ c.flags.keys, suite ∉ c.rawFlags.keys
  globals : ∀ e ∈ c.globals.entries, ∀ raw ∈ e.2, Plain raw
  properties : ∀ s ∈ c.sections, ∀ e ∈ s.properties.toList, Plain e.2
  rawFlags : ∀ e ∈ c.rawFlags.toList, Plain e.2 ∧ readFlag e.2 = none
  propertyKeys : ∀ s ∈ c.sections, ∀ e ∈ s.written,
    ReadsBack (Route.propertyKey s.name e.1) e.2 (.property s.name e.1)
  flagKeys : ∀ e ∈ Document.writtenFlags c, ReadsBack (Route.flagKey e.1) e.2 (.flag e.1)
  distinct : DistinctKeys (writes c)
  spelling : OneSpelling (assignments (Text.lines text))
  places : SamePlaces (writes c) (assignments (Text.lines text))

namespace Fits

variable {text : String} {c : Chain}

theorem plain_global (h : Fits text c) {key raw : String} (hget : c.globals.get? key = some raw) :
    Plain raw := by
  rw [Globals.get?, Option.join_eq_some_iff] at hget
  obtain ⟨before, after, hsplit, -⟩ := List.lookup_eq_some_iff.mp hget
  refine h.globals (key, some raw) ?_ raw rfl
  rw [hsplit]
  exact List.mem_append_right _ List.mem_cons_self

theorem plain_property (h : Fits text c) {s : Section} (hs : s ∈ c.sections)
    {suffix raw : String} (hget : s.get? suffix = some raw) : Plain raw :=
  h.properties s hs (suffix, raw) (OrderedMap.mem_toList_iff.mpr hget)

theorem plain_rawFlag (h : Fits text c) {suite raw : String}
    (hget : c.rawFlags.get? suite = some raw) : Plain raw ∧ readFlag raw = none :=
  h.rawFlags (suite, raw) (OrderedMap.mem_toList_iff.mpr hget)

theorem not_mem_trim {raw : String} (h : Plain raw) : '\n' ∉ (Text.trim raw).toList := by
  rw [Text.toList_trim]
  exact fun hm => h.2 (Text.mem_of_mem_trimChars hm)

theorem not_mem_flagText (enabled : Bool) : '\n' ∉ (flagText enabled).toList := by
  cases enabled <;> decide +kernel

theorem hasLines (h : Fits text c) : c.HasLines where
  values := by
    rintro ⟨key, value⟩ he
    cases Document.mem_writes.mp he with
    | global hget _ => exact not_mem_trim (h.plain_global hget)
    | property hs hget _ => exact not_mem_trim (h.plain_property hs hget)
    | @flag suite enabled _ => exact not_mem_flagText enabled
    | rawFlag hget _ => exact not_mem_trim (h.plain_rawFlag hget).1
  propertyKeys := h.propertyKeys
  flagKeys := h.flagKeys

theorem ofKey_propertyKey (h : Fits text c) {s : Section} (hs : s ∈ c.sections)
    {suffix raw : String} (hget : s.get? suffix = some raw) :
    Route.ofKey (Route.propertyKey s.name suffix) = .property s.name suffix := by
  have hwritten : (suffix, Text.trim raw) ∈ s.written :=
    Section.mem_written.mpr ⟨raw, hget, (h.plain_property hs hget).1, rfl⟩
  exact (h.hasLines.property_isKey hs hwritten).2.2

theorem ofKey_flagKey (h : Fits text c) {suite value : String}
    (hmem : (suite, value) ∈ Document.writtenFlags c) :
    Route.ofKey (Route.flagKey suite) = .flag suite :=
  (h.hasLines.flag_isKey hmem).2.2

theorem mem_writtenFlags_flag {suite : String} {enabled : Bool}
    (hget : c.flags.get? suite = some enabled) :
    (suite, flagText enabled) ∈ Document.writtenFlags c := by
  refine List.mem_append_left _ (List.mem_map.mpr ⟨(suite, enabled), ?_, rfl⟩)
  exact OrderedMap.mem_toList_iff.mpr hget

theorem mem_writtenFlags_rawFlag {suite raw : String} (hget : c.rawFlags.get? suite = some raw)
    (hblank : Text.isBlank raw = false) : (suite, Text.trim raw) ∈ Document.writtenFlags c := by
  refine List.mem_append_right _ (List.mem_filterMap.mpr ⟨(suite, raw), ?_, ?_⟩)
  · exact OrderedMap.mem_toList_iff.mpr hget
  · rw [Text.trimmed?_eq_some_iff.mpr ⟨hblank, rfl⟩]
    rfl

/-! ## The update -/

theorem settling_update (h : Fits text c) (o : Order) :
    ∃ d : Document, Document.update o c (Text.lines text) = d.map (Document.retire c) ∧ d.Unbroken ∧
      Settling (writes c) (writes c) d.assignments :=
  h.hasLines.update_assignments o h.distinct (fun l hl => Text.not_mem_of_mem_lines hl)
    ⟨h.spelling, h.places, by simp⟩
    (fun _ _ _ _ hpre hwrite hsettling => hsettling.upserts h.distinct hpre hwrite)
    fun _ _ hsettling => hsettling.places

/-! ## What is read afterwards -/

theorem keeps_of_writes (h : Fits text c) {key value : String} (hw : c.Writes key value) :
    Document.keeps c (Route.ofKey key) = true :=
  h.hasLines.keeps_of_writes h.names hw

/-- What is known of the settings of the new text: each entry that was written is the setting of one
key, and every key leads to something that the chain has. -/
structure ReadsWrites (c : Chain) (m : OrderedMap String) : Prop where
  settled : ∀ key value, c.Writes key value → ∃ k, m.get? k = some value ∧
    (Route.ofKey k).samePlace (Route.ofKey key) = true ∧
    ∀ k' ∈ m.keys, Text.sameName k' key = true → k' = k
  places : ∀ key value, c.Writes key value → ∀ k ∈ m.keys, Text.sameName k key = true →
    (Route.ofKey k).samePlace (Route.ofKey key) = true
  kept : ∀ k ∈ m.keys, Document.keeps c (Route.ofKey k) = true

theorem readsWrites (h : Fits text c) {d : Document}
    (hsettling : Settling (writes c) (writes c) d.assignments) :
    ReadsWrites c (Document.settings (assignments (d.map (Document.retire c)))) := by
  have hkeys : ∀ k ∈ (Document.settings (assignments (d.map (Document.retire c)))).keys,
      Document.keeps c (Route.ofKey k) = true ∧ ∃ x ∈ d.assignments, x.key = k := by
    intro k hk
    obtain ⟨v, hv⟩ := Option.isSome_iff_exists.mp (OrderedMap.mem_keys_iff.mp hk)
    rw [Document.get?_settings_retire] at hv
    split at hv
    · rename_i hkeeps
      exact ⟨hkeeps, _, Document.mem_of_get?_settings hv, rfl⟩
    · cases hv
  constructor
  case settled =>
    intro key value hw
    obtain ⟨k, hget, hplace, hunique⟩ := hsettling.get? (Document.mem_writes.mpr hw)
    refine ⟨k, ?_, hplace, ?_⟩
    · rw [Document.get?_settings_retire,
        if_pos (Document.keeps_of_samePlace hplace (h.keeps_of_writes hw)), hget]
    · intro k' hk' hsame
      obtain ⟨-, x, hx, rfl⟩ := hkeys k' hk'
      exact hunique x hx hsame
  case places =>
    intro key value hw k hk hsame
    obtain ⟨-, x, hx, rfl⟩ := hkeys k hk
    exact hsettling.places _ (Document.mem_writes.mpr hw) x hx hsame
  case kept => exact fun k hk => (hkeys k hk).1

/-- A property that is there is read from the one key that leads to it. -/
theorem restores_property (h : Fits text c) {m : OrderedMap String} (hm : ReadsWrites c m)
    (name suffix : String) :
    (Chain.ofSettings m).get? name suffix = (c.get? name suffix).map Text.trim := by
  rw [Chain.get?_ofSettings_eq_bind]
  cases hget : c.get? name suffix with
  | none =>
    have hnone : m.keys.filter (fun k => (Route.ofKey k).leadsTo name suffix) = [] := by
      rw [List.filter_eq_nil_iff]
      intro k hk hleads
      obtain ⟨n, hroute, hname⟩ := Route.leadsTo_iff.mp hleads
      have hkeeps := hm.kept k hk
      rw [hroute, Document.keeps_property, Chain.get?_congr c hname, hget] at hkeeps
      cases hkeeps
    rw [hnone]
    rfl
  | some raw =>
    obtain ⟨s, hs, hvalue⟩ := Option.bind_eq_some_iff.mp hget
    have hmem := List.mem_of_find?_eq_some hs
    have hnamed : Text.sameName s.name name = true :=
      List.find?_some (p := fun s : Section => s.isNamed name) hs
    have hw := Chain.Writes.property hmem hvalue (h.plain_property hmem hvalue).1
    obtain ⟨k, hk, hplace, hunique⟩ := hm.settled _ _ hw
    rw [h.ofKey_propertyKey hmem hvalue, Route.samePlace_property,
      Route.leadsTo_congr hnamed] at hplace
    have hkmem : k ∈ m.keys := OrderedMap.mem_keys_iff.mpr (by rw [hk]; rfl)
    have hne : m.keys.filter (fun k => (Route.ofKey k).leadsTo name suffix) ≠ [] :=
      List.ne_nil_of_mem (List.mem_filter.mpr ⟨hkmem, hplace⟩)
    -- all keys that lead there are spellings of the key that was written
    have hlast : (m.keys.filter fun k => (Route.ofKey k).leadsTo name suffix).getLast hne = k := by
      obtain ⟨hk', hleads⟩ := List.mem_filter.mp (List.getLast_mem hne)
      obtain ⟨n, hroute, hname⟩ := Route.leadsTo_iff.mp hleads
      refine hunique _ hk' ?_
      rw [(Route.ofKey_eq_property hroute).1]
      refine Route.sameName_propertyKey (Text.sameName_trans hname ?_) suffix
      rwa [Text.sameName_comm]
    rw [List.getLast?_eq_some_getLast hne, hlast, Option.bind_some, hk, Option.map_some]

theorem restores_sections (h : Fits text c) {m : OrderedMap String} (hm : ReadsWrites c m)
    (name : String) : (Chain.ofSettings m).hasSection name = true ↔
      ∃ suffix, (c.get? name suffix).isSome = true := by
  constructor
  · intro hhas
    obtain ⟨k, hk, n, hsection, hname⟩ := Chain.hasSection_ofSettings.mp hhas
    obtain ⟨suffix, hroute⟩ : ∃ suffix, Route.ofKey k = .property n suffix := by
      cases hroute : Route.ofKey k <;> rw [hroute] at hsection <;> cases hsection
      exact ⟨_, rfl⟩
    have hkeeps := hm.kept k hk
    rw [hroute, Document.keeps_property, Chain.get?_congr c hname] at hkeeps
    exact ⟨suffix, hkeeps⟩
  · rintro ⟨suffix, hsome⟩
    rw [Chain.hasSection_eq_isSome]
    have hget : ((Chain.ofSettings m).get? name suffix).isSome = true := by
      rwa [restores_property h hm, Option.isSome_map]
    rw [Chain.get?] at hget
    cases hs : (Chain.ofSettings m).section? name with
    | none =>
      rw [hs] at hget
      cases hget
    | some s => rfl

theorem restores_globals (h : Fits text c) {m : OrderedMap String} (hm : ReadsWrites c m) :
    (Chain.ofSettings m).globals = c.globals.trimmed := by
  refine Globals.ext_get? fun key => ?_
  rw [Globals.get?_trimmed]
  by_cases hknown : key ∈ GlobalKey.known
  · rw [Chain.globals_ofSettings m hknown]
    have hroute := GlobalKey.ofKey_of_known hknown
    cases hget : c.globals.get? key with
    | none =>
      rw [Option.map_none, OrderedMap.get?_eq_none_iff]
      intro hk
      have hkeeps := hm.kept key hk
      rw [hroute, Document.keeps_global hknown, hget] at hkeeps
      cases hkeeps
    | some raw =>
      obtain ⟨k, hk, hplace, -⟩ :=
        hm.settled _ _ (Chain.Writes.global hget (h.plain_global hget).1)
      rw [hroute, Route.samePlace_global, decide_eq_true_eq] at hplace
      rw [Route.ofKey_eq_global hplace, hk, Option.map_some]
  · rw [Globals.get?_of_not_known hknown, Globals.get?_of_not_known hknown]
    rfl

theorem flag_route (h : Fits text c) {suite : String}
    (hsome : (c.flags.get? suite).isSome = true ∨ (c.rawFlags.get? suite).isSome = true) :
    ∃ value, c.Writes (Route.flagKey suite) value ∧
      Route.ofKey (Route.flagKey suite) = .flag suite := by
  rcases hsome with hsome | hsome
  · obtain ⟨enabled, hget⟩ := Option.isSome_iff_exists.mp hsome
    exact ⟨_, .flag hget, h.ofKey_flagKey (mem_writtenFlags_flag hget)⟩
  · obtain ⟨raw, hget⟩ := Option.isSome_iff_exists.mp hsome
    obtain ⟨hplain, -⟩ := h.plain_rawFlag hget
    exact ⟨_, .rawFlag hget hplain.1, h.ofKey_flagKey (mem_writtenFlags_rawFlag hget hplain.1)⟩

/-- The setting of a suite that the chain has is the one that was written for it. -/
theorem get?_flagKey {m : OrderedMap String} (hm : ReadsWrites c m) {suite value : String}
    (hw : c.Writes (Route.flagKey suite) value)
    (hroute : Route.ofKey (Route.flagKey suite) = .flag suite) :
    suite ≠ "" ∧ m.get? (Route.flagKey suite) = some value := by
  obtain ⟨k, hk, hplace, -⟩ := hm.settled _ _ hw
  rw [hroute, Route.samePlace_flag, decide_eq_true_eq] at hplace
  obtain ⟨hne, rfl⟩ := Route.ofKey_eq_flag_iff.mp hplace
  exact ⟨hne, hk⟩

theorem get?_flagKey_of_none (h : Fits text c) {m : OrderedMap String} (hm : ReadsWrites c m)
    {suite : String} (hs : suite ≠ "") (hflag : c.flags.get? suite = none)
    (hraw : c.rawFlags.get? suite = none) : m.get? (Route.flagKey suite) = none := by
  rw [OrderedMap.get?_eq_none_iff]
  intro hmem
  have hroute : Route.ofKey (Route.flagKey suite) = .flag suite :=
    Route.ofKey_eq_flag_iff.mpr ⟨hs, rfl⟩
  have hkeeps := hm.kept _ hmem
  rw [hroute, Document.keeps_flag_iff] at hkeeps
  obtain ⟨s, hsome, hname⟩ := hkeeps
  -- the suite that keeps the line leads to the same place, so that it is this one
  obtain ⟨value, hw, hsroute⟩ := h.flag_route hsome
  have hplace := hm.places _ _ hw _ hmem
    (Route.sameName_flagKey (by rwa [Text.sameName_comm]))
  rw [hroute, hsroute, Route.samePlace_flag, decide_eq_true_eq, Route.flag.injEq] at hplace
  rw [← hplace, hflag, hraw] at hsome
  simp at hsome

theorem restores_flag (h : Fits text c) {m : OrderedMap String} (hm : ReadsWrites c m)
    (suite : String) : (Chain.ofSettings m).flags.get? suite = c.flags.get? suite ∧
      (Chain.ofSettings m).rawFlags.get? suite = (c.rawFlags.get? suite).map Text.trim := by
  rw [Chain.flags_ofSettings, Chain.rawFlags_ofSettings]
  cases hflag : c.flags.get? suite with
  | some enabled =>
    have hraw : c.rawFlags.get? suite = none := by
      rw [OrderedMap.get?_eq_none_iff]
      exact h.suites suite (OrderedMap.mem_keys_iff.mpr (by rw [hflag]; rfl))
    obtain ⟨hne, hget⟩ :=
      get?_flagKey hm (.flag hflag) (h.ofKey_flagKey (mem_writtenFlags_flag hflag))
    rw [if_neg hne, if_neg hne, hget, hraw, Option.bind_some, readFlag_flagText,
      Option.filter_some, readFlag_flagText]
    exact ⟨rfl, rfl⟩
  | none =>
    cases hraw : c.rawFlags.get? suite with
    | some raw =>
      obtain ⟨hplain, hread⟩ := h.plain_rawFlag hraw
      obtain ⟨hne, hget⟩ := get?_flagKey hm (.rawFlag hraw hplain.1)
        (h.ofKey_flagKey (mem_writtenFlags_rawFlag hraw hplain.1))
      have hread' : readFlag (Text.trim raw) = none := by
        rw [← hread, readFlag, Text.trim_trim, readFlag]
      rw [if_neg hne, if_neg hne, hget, Option.bind_some, Option.filter_some, hread']
      exact ⟨rfl, rfl⟩
    | none =>
      by_cases hs : suite = ""
      · rw [if_pos hs, if_pos hs]
        exact ⟨rfl, rfl⟩
      · rw [if_neg hs, if_neg hs, h.get?_flagKey_of_none hm hs hflag hraw]
        exact ⟨rfl, rfl⟩

end Fits

namespace Writer

/-- What is read from a text onto which a chain was written is that chain, with its values
trimmed. -/
theorem ofText_render (w : Writer) {text : String} {c : Chain} (h : Fits text c)
    (hsource : c.source = some text) : (Chain.ofText (w.render c)).Restores c := by
  obtain ⟨d, hupdate, hunbroken, hsettling⟩ := h.settling_update w.order
  have hout : Document.Unbroken (d.map (Document.retire c)) := by
    intro l hl
    obtain ⟨l', hl', rfl⟩ := List.mem_map.mp hl
    exact Document.not_mem_retire c (hunbroken l' hl')
  have hsettings : Chain.settings (w.render c) =
      Document.settings (assignments (d.map (Document.retire c))) := by
    rw [render_of_source w hsource, hupdate, settings_assemble _ _ hout]
  have hm := h.readsWrites hsettling
  rw [Chain.ofText_eq, hsettings]
  constructor
  case globals => exact h.restores_globals hm
  case names => exact Chain.distinctNames_ofSettings _
  case sections => exact h.restores_sections hm
  case properties => exact h.restores_property hm
  case flags => exact fun suite => (h.restores_flag hm suite).1
  case rawFlags => exact fun suite => (h.restores_flag hm suite).2

theorem ofText_render_edited :
    let c : Chain := {
      globals := { version := some " 7 " }
      sections := [⟨"OLAP", .ofList [("fork", "x"), ("mode", "source")]⟩,
        ⟨"designer", .ofList [("branch", "main")]⟩]
      flags := .ofList [("unit", false)]
      rawFlags := .ofList [("slow", "maybe")]
      source := some "# chain\nolap.fork = y\r\n#olap.mode=binary\ncontent.tag=t\ntests.old.run=true" }
    (Chain.ofText (({} : Writer).render c)).Restores c := by
  intro c
  have hfits : Fits
      "# chain\nolap.fork = y\r\n#olap.mode=binary\ncontent.tag=t\ntests.old.run=true" c := by
    constructor <;> decide +kernel
  exact ofText_render {} hfits rfl

end Writer

end BuildChain
