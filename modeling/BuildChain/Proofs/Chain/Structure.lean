import BuildChain.Proofs.Chain.Place
import BuildChain.Proofs.Chain.Precedence

/-!
# What a text is read as

The whole chain of a text, said of the active lines alone: the sections are the names that lines
lead to, each in its first spelling and in the order of first appearance, with the suffixes of its
lines; a global setting and a flag stand for the last line of their key. All other lines could as
well be missing.
-/

namespace BuildChain

/-! ## First appearances -/

/-- One element more is kept unless it is like one that is kept already. -/
theorem eraseDupsBy_concat {α : Type} (r : α → α → Bool) (l : List α) (a : α) :
    (l ++ [a]).eraseDupsBy r =
      if (l.eraseDupsBy r).any (r a) then l.eraseDupsBy r else l.eraseDupsBy r ++ [a] := by
  have hloop : ∀ kept, List.eraseDupsBy.loop r (l ++ [a]) kept =
      if (List.eraseDupsBy.loop r l kept).any (r a) then List.eraseDupsBy.loop r l kept
      else List.eraseDupsBy.loop r l kept ++ [a] := by
    induction l with
    | nil =>
      intro kept
      simp only [List.nil_append, List.eraseDupsBy.loop, List.any_reverse]
      cases kept.any (r a) <;> simp
    | cons b l ih =>
      intro kept
      cases hlike : kept.any (r b) with
      | true => simp only [List.cons_append, List.eraseDupsBy.loop, hlike, ih kept]
      | false => simp only [List.cons_append, List.eraseDupsBy.loop, hlike, ih (b :: kept)]
  exact hloop []

/-- Every element is like one that is kept. -/
theorem any_eraseDupsBy {α : Type} {r : α → α → Bool} (hrefl : ∀ a, r a a = true) {l : List α}
    {a : α} (ha : a ∈ l) : (l.eraseDupsBy r).any (r a) = true := by
  induction l using List.reverseRecOn with
  | nil => cases ha
  | append_singleton l b ih =>
    rw [eraseDupsBy_concat]
    rcases List.mem_append.mp ha with ha | ha
    · split
      · exact ih ha
      · rw [List.any_append, ih ha, Bool.true_or]
    · rw [List.mem_singleton.mp ha]
      split
      · assumption
      · simp [hrefl]

theorem eraseDups_concat {α : Type} [DecidableEq α] (l : List α) (a : α) :
    (l ++ [a]).eraseDups = if a ∈ l then l.eraseDups else l.eraseDups ++ [a] := by
  have hconcat := eraseDupsBy_concat (· == ·) l a
  rw [← List.eraseDups, ← List.eraseDups] at hconcat
  rw [hconcat]
  simp [List.any_beq]

/-- First appearances of what elements lead to are found among the first appearances of these. -/
theorem eraseDupsBy_filterMap_eraseDups {α β : Type} [DecidableEq α] {r : β → β → Bool}
    (hrefl : ∀ b, r b b = true) (f : α → Option β) (l : List α) :
    (l.eraseDups.filterMap f).eraseDupsBy r = (l.filterMap f).eraseDupsBy r := by
  induction l using List.reverseRecOn with
  | nil => rfl
  | append_singleton l a ih =>
    rw [eraseDups_concat, List.filterMap_append]
    cases hf : f a with
    | none =>
      have hnone : [a].filterMap f = [] := by simp [hf]
      rw [hnone, List.append_nil]
      split
      · exact ih
      · rw [List.filterMap_append, hnone, List.append_nil, ih]
    | some b =>
      have hone : [a].filterMap f = [b] := by simp [hf]
      rw [hone, eraseDupsBy_concat]
      split
      · rename_i hmem
        rw [ih, if_pos (any_eraseDupsBy hrefl (List.mem_filterMap.mpr ⟨a, hmem, hf⟩))]
      · rw [List.filterMap_append, hone, eraseDupsBy_concat, ih]

namespace OrderedMap

theorem keys_ofList {β : Type} (entries : List (String × β)) :
    (ofList entries).keys = (entries.map Prod.fst).eraseDups := by
  induction entries using List.reverseRecOn with
  | nil => rfl
  | append_singleton entries e ih =>
    rw [ofList_concat, keys_insert, List.map_append, List.map_singleton, eraseDups_concat, ← ih]
    simp only [mem_keys_ofList]

/-- The entries of a map are its keys with what is found under them. -/
theorem toList_eq_filterMap {β : Type} (m : OrderedMap β) :
    m.toList = m.keys.filterMap fun k => (m.get? k).map fun v => (k, v) := by
  have hentry : ∀ e ∈ m.toList, ((m.get? e.1).map fun v => (e.1, v)) = some e := by
    rintro ⟨k, v⟩ he
    rw [mem_toList_iff.mp he]
    rfl
  rw [keys, List.filterMap_map]
  exact ((List.filterMap_congr hentry).trans List.filterMap_some).symm

/-- Leaving out keys leaves out their entries. -/
theorem toList_ofList_filter {β : Type} (entries : List (String × β)) (p : String → Bool) :
    (ofList (entries.filter fun e => p e.1)).toList =
      (ofList entries).toList.filter fun e => p e.1 := by
  rw [toList_eq_filterMap, toList_eq_filterMap, keys_ofList_filter, List.filter_filterMap,
    List.filterMap_filter]
  refine List.filterMap_congr fun k _ => ?_
  rw [get?_ofList_filter]
  cases hp : p k <;> cases (ofList entries).get? k <;> simp [Option.filter_some, hp]

end OrderedMap

/-! ## The sections of a map of settings -/

namespace Route

/-- The suffix of a route that leads to a property of the sections of a name. -/
def suffixIn? (name : String) : Route → Option String
  | property n suffix => if Text.sameName n name then some suffix else none
  | _ => none

end Route

namespace Chain

/-- The suffixes of the first section of a name, in their order. -/
def suffixes (c : Chain) (name : String) : List String :=
  ((c.section? name).map fun s => s.properties.keys).getD []

theorem names_ofSettings (m : OrderedMap String) :
    (ofSettings m).names =
      (m.keys.filterMap fun k => (Route.ofKey k).section?).eraseDupsBy Text.sameName := by
  unfold ofSettings OrderedMap.keys
  induction m.toList using List.reverseRecOn with
  | nil => rfl
  | append_singleton l e ih =>
    rw [List.foldl_append, List.foldl_cons, List.foldl_nil, names_place, List.map_append,
      List.filterMap_append]
    cases hsection : (Route.ofKey e.1).section? with
    | none => simpa [hsection] using ih
    | some n =>
      have hone : ([e].map Prod.fst).filterMap (fun k => (Route.ofKey k).section?) = [n] := by
        simp [hsection]
      have hhas : (l.foldl (fun c e => place c e.1 e.2) {}).hasSection n =
          (l.foldl (fun c e => place c e.1 e.2) {}).names.any (Text.sameName n) := by
        rw [Bool.eq_iff_iff, hasSection_iff, List.any_eq_true]
        simp only [Text.sameName_comm n]
      rw [hone, eraseDupsBy_concat, ← ih]
      simp only [hhas]

theorem suffixes_place (c : Chain) (key value name : String) :
    (place c key value).suffixes name =
      match (Route.ofKey key).suffixIn? name with
      | some p => if p ∈ c.suffixes name then c.suffixes name else c.suffixes name ++ [p]
      | none => c.suffixes name := by
  unfold place
  split
  · rename_i hroute
    simp [hroute, Route.suffixIn?]
    rfl
  · rename_i hroute
    simp [hroute, Route.suffixIn?]
    split <;> rfl
  · rename_i n p hroute
    have hset := section?_upsertSection c n name (f := fun s => s.set p value) fun _ => rfl
    rw [hroute, Route.suffixIn?, suffixes, hset, suffixes]
    by_cases hname : Text.sameName n name = true
    · simp only [hname, if_true, Option.map_some, Option.getD_some]
      cases c.section? name with
      | none =>
        have hempty : (∅ : OrderedMap String).keys = [] := rfl
        simp [Section.set, OrderedMap.keys_insert, hempty]
      | some s => simp [Section.set, OrderedMap.keys_insert]
    · simp [hname]
  · rename_i hroute
    simp [hroute, Route.suffixIn?]

theorem suffixes_ofSettings (m : OrderedMap String) (name : String) :
    (ofSettings m).suffixes name =
      (m.keys.filterMap fun k => (Route.ofKey k).suffixIn? name).eraseDups := by
  unfold ofSettings OrderedMap.keys
  induction m.toList using List.reverseRecOn with
  | nil => rfl
  | append_singleton l e ih =>
    rw [List.foldl_append, List.foldl_cons, List.foldl_nil, suffixes_place, List.map_append,
      List.filterMap_append]
    cases hsuffix : (Route.ofKey e.1).suffixIn? name with
    | none => simpa [hsuffix] using ih
    | some p =>
      have hone : ([e].map Prod.fst).filterMap (fun k => (Route.ofKey k).suffixIn? name) = [p] := by
        simp [hsuffix]
      rw [hone, eraseDups_concat, ← ih]
      simp only [ih, List.mem_eraseDups]

/-! ## Lines that say nothing -/

/-- Whether a line says something of a chain: it is active, and its key leads to a place. -/
def informs (l : String) : Bool :=
  match activeEntry? l with
  | some e => decide (Route.ofKey e.1).IsPlace
  | none => false

/-- Blank lines, comments, lines without `=`, unknown global settings and keys that lead nowhere. -/
def IsIdle (l : String) : Prop :=
  Text.isBlank l = true ∨ (Text.trimStartChars l.toList).head? = some '#' ∨ '=' ∉ l.toList ∨
    ∃ key value, activeEntry? l = some (key, value) ∧
      ((∃ k, Route.ofKey key = .global k ∧ k ∉ GlobalKey.known) ∨ Route.ofKey key = .nowhere)

theorem trim_of_activeEntry? {l : String} {e : String × String} (h : activeEntry? l = some e) :
    Text.trim e.2 = e.2 := by
  unfold activeEntry? at h
  split at h
  · rename_i a ha
    split at h
    · cases h
      exact Assignment.tight_value ha
    · cases h
  · cases h

theorem activeEntry?_of_ofLine?_none {l : String} (h : Assignment.ofLine? l = none) :
    activeEntry? l = none := by
  unfold activeEntry?
  rw [h]

theorem activeEntry?_of_comment {l : String}
    (h : (Text.trimStartChars l.toList).head? = some '#') : activeEntry? l = none := by
  obtain ⟨cs, hcs⟩ := List.head?_eq_some_iff.mp h
  have hcut : l.toList = (Text.indent l).toList ++ '#' :: cs := by
    rw [Text.toList_indent, ← hcs, Text.trimStartChars, List.takeWhile_append_dropWhile]
  unfold activeEntry?
  split
  · rename_i a ha
    rw [Line.ofLine?_comment_inactive (Line.indent_isSpace l) hcut ha]
    rfl
  · rfl

theorem ofLine?_of_not_mem {l : String} (h : '=' ∉ l.toList) : Assignment.ofLine? l = none := by
  rw [Option.eq_none_iff_forall_ne_some]
  intro a ha
  have hequals : ∀ c ∈ ['='], c ∈ l.toList := by
    refine Line.subset_of_body ha fun {active body} hbody c hc => ?_
    obtain ⟨left, right, rfl, -⟩ := Assignment.ofBody?_eq_some hbody
    rw [List.mem_singleton.mp hc]
    simp
  exact h (hequals '=' (by simp))

theorem informs_of_isIdle {l : String} (h : IsIdle l) : informs l = false := by
  rcases h with hblank | hcomment | hnone | ⟨key, value, hentry, hroute⟩
  · rw [informs, activeEntry?_of_ofLine?_none (Line.ofLine?_eq_none (.inl hblank))]
  · rw [informs, activeEntry?_of_comment hcomment]
  · rw [informs, activeEntry?_of_ofLine?_none (ofLine?_of_not_mem hnone)]
  · rw [informs, hentry]
    rcases hroute with ⟨k, hroute, hk⟩ | hroute
    · simpa [hroute, Route.IsPlace] using hk
    · simp [hroute, Route.IsPlace]

theorem place_of_not_isPlace (c : Chain) {key : String} (value : String)
    (h : ¬(Route.ofKey key).IsPlace) : place c key value = c := by
  cases hroute : Route.ofKey key with
  | global k =>
    rw [hroute, Route.IsPlace] at h
    have hnone : c.globals.set? k value = none := by
      simp only [GlobalKey.known, List.mem_cons, List.not_mem_nil, or_false, not_or] at h
      rw [Globals.set?, if_neg h.1, if_neg h.2.1, if_neg h.2.2]
    simp [place, hroute, hnone]
  | flag suite =>
    rw [hroute] at h
    exact absurd trivial h
  | property n p =>
    rw [hroute] at h
    exact absurd trivial h
  | nowhere => rw [place, hroute]

/-- Settings that lead to no place can be left out. -/
theorem ofSettings_filter (entries : List (String × String)) :
    ofSettings (.ofList (entries.filter fun e => (Route.ofKey e.1).IsPlace)) =
      ofSettings (.ofList entries) := by
  have hskip : ∀ (l : List (String × String)) (c : Chain),
      (l.filter fun e => (Route.ofKey e.1).IsPlace).foldl (fun c e => place c e.1 e.2) c =
        l.foldl (fun c e => place c e.1 e.2) c := by
    intro l
    induction l with
    | nil => exact fun _ => rfl
    | cons e l ih =>
      intro c
      by_cases he : (Route.ofKey e.1).IsPlace
      · rw [List.filter_cons_of_pos (by simpa using he), List.foldl_cons, List.foldl_cons, ih]
      · rw [List.filter_cons_of_neg (by simpa using he), List.foldl_cons,
          place_of_not_isPlace c e.2 he, ih]
  rw [ofSettings, ofSettings, ← hskip (OrderedMap.ofList entries).toList]
  congr 1
  exact OrderedMap.toList_ofList_filter entries fun k => decide (Route.ofKey k).IsPlace

theorem filterMap_filter_informs (lines : List String) :
    (lines.filter informs).filterMap activeEntry? =
      (lines.filterMap activeEntry?).filter fun e => (Route.ofKey e.1).IsPlace := by
  rw [List.filterMap_filter, List.filter_filterMap]
  refine List.filterMap_congr fun l _ => ?_
  rw [informs]
  cases activeEntry? l <;> simp [Option.filter_some]

/-- Only the lines that inform count, and only their order among themselves. -/
theorem ofSettings_settings_congr {text text' : String}
    (h : (Text.lines text').filter informs = (Text.lines text).filter informs) :
    ofSettings (settings text') = ofSettings (settings text) := by
  rw [settings, settings, ← ofSettings_filter, ← ofSettings_filter ((Text.lines text).filterMap _),
    ← filterMap_filter_informs, ← filterMap_filter_informs, h]

/-! ## The whole chain -/

/-- The chain that entries describe: its sections are the names that entries lead to, in the order
and the spelling in which they first appear, each with the suffixes of its entries; a global setting
has the value of the last entry of its key, and so has a flag, as a boolean or as it stands. -/
structure IsReadFrom (c : Chain) (entries : List (String × String)) : Prop where
  names : c.names =
    (entries.filterMap fun e => (Route.ofKey e.1).section?).eraseDupsBy Text.sameName
  suffixes : ∀ s ∈ c.sections, s.properties.keys =
    (entries.filterMap fun e => (Route.ofKey e.1).suffixIn? s.name).eraseDups
  version : c.globals.version = lastValue? entries GlobalKey.version
  devVersion : c.globals.devVersion = lastValue? entries GlobalKey.devVersion
  recipients : c.globals.recipients = lastValue? entries GlobalKey.recipients
  -- no suite has an empty name, though a line can have the key that it would have
  flags : ∀ suite, c.flags.get? suite =
    if suite = "" then none else (lastValue? entries (Route.flagKey suite)).bind readFlag
  rawFlags : ∀ suite, c.rawFlags.get? suite =
    if suite = "" then none
    else (lastValue? entries (Route.flagKey suite)).filter fun v => (readFlag v).isNone

/-- What entries lead to under their keys is what the keys of the map lead to. -/
theorem eraseDupsBy_filterMap_keys {β : Type} {r : β → β → Bool} (hrefl : ∀ b, r b b = true)
    (f : String → Option β) (entries : List (String × String)) :
    ((OrderedMap.ofList entries).keys.filterMap f).eraseDupsBy r =
      (entries.filterMap fun e => f e.1).eraseDupsBy r := by
  rw [OrderedMap.keys_ofList, eraseDupsBy_filterMap_eraseDups hrefl, List.filterMap_map]
  rfl

theorem isReadFrom_ofSettings (entries : List (String × String)) :
    (ofSettings (.ofList entries)).IsReadFrom entries where
  names := by
    rw [names_ofSettings]
    exact eraseDupsBy_filterMap_keys Text.sameName_refl (fun k => (Route.ofKey k).section?) entries
  suffixes := by
    intro s hs
    have hsection := section?_of_mem (distinctNames_ofSettings _) hs (Text.sameName_refl s.name)
    have hsuffixes := suffixes_ofSettings (.ofList entries) s.name
    rw [suffixes, hsection] at hsuffixes
    exact hsuffixes.trans (eraseDupsBy_filterMap_keys (fun _ => beq_self_eq_true _)
      (fun k => (Route.ofKey k).suffixIn? s.name) entries)
  version := by
    have h := globals_ofSettings (.ofList entries) (k := GlobalKey.version) (by decide)
    rwa [OrderedMap.get?_ofList] at h
  devVersion := by
    have h := globals_ofSettings (.ofList entries) (k := GlobalKey.devVersion) (by decide)
    rwa [OrderedMap.get?_ofList] at h
  recipients := by
    have h := globals_ofSettings (.ofList entries) (k := GlobalKey.recipients) (by decide)
    rwa [OrderedMap.get?_ofList] at h
  flags suite := by
    rw [flags_ofSettings, OrderedMap.get?_ofList, lastValue?]
  rawFlags suite := by
    rw [rawFlags_ofSettings, OrderedMap.get?_ofList, lastValue?]

/-- Every text is read as the chain that its active entries describe, their values trimmed; idle
lines do not inform, and all lines that do not inform could as well be missing. -/
theorem isReadFrom_ofText (text : String) :
    (ofText text).IsReadFrom (activeEntries text) ∧
      (∀ e ∈ activeEntries text, Text.trim e.2 = e.2) ∧
      (∀ l, IsIdle l → informs l = false) ∧
      ∀ text', (Text.lines text').filter informs = (Text.lines text).filter informs →
        { ofText text' with source := some text } = ofText text := by
  refine ⟨?_, ?_, fun l => informs_of_isIdle, fun text' hlines => ?_⟩
  · have h := isReadFrom_ofSettings (activeEntries text)
    exact ⟨h.names, h.suffixes, h.version, h.devVersion, h.recipients, h.flags, h.rawFlags⟩
  · intro e he
    obtain ⟨l, -, hl⟩ := List.mem_filterMap.mp he
    exact trim_of_activeEntry? hl
  · rw [ofText_eq, ofText_eq, ofSettings_settings_congr hlines]

/-- No suite has an empty name: its key would be that of the property `.run` of the tests. -/
theorem flags_ofText_empty_name :
    lastValue? (activeEntries "tests..run=true") (Route.flagKey "") = some "true" ∧
      (ofText "tests..run=true").flags.get? "" = none ∧
      (ofText "tests..run=true").get? "tests" ".run" = some "true" := by
  decide +kernel

/-- Two sections, the second spelling of the first one and a remark that could be missing. -/
theorem isReadFrom_ofText_remark :
    (ofText "b.tag=1\nA.mode=source\n# note\nB.mode=ignore").IsReadFrom
        [("b.tag", "1"), ("A.mode", "source"), ("B.mode", "ignore")] ∧
      informs "# note" = false ∧
      { ofText "b.tag=1\nA.mode=source\nB.mode=ignore" with
          source := some "b.tag=1\nA.mode=source\n# note\nB.mode=ignore" } =
        ofText "b.tag=1\nA.mode=source\n# note\nB.mode=ignore" := by
  have hentries : activeEntries "b.tag=1\nA.mode=source\n# note\nB.mode=ignore" =
      [("b.tag", "1"), ("A.mode", "source"), ("B.mode", "ignore")] := by decide +kernel
  obtain ⟨hread, -, hidle, hcongr⟩ :=
    isReadFrom_ofText "b.tag=1\nA.mode=source\n# note\nB.mode=ignore"
  exact ⟨hentries ▸ hread, hidle "# note" (.inr (.inl (by decide))),
    hcongr "b.tag=1\nA.mode=source\nB.mode=ignore" (by decide +kernel)⟩

end Chain

end BuildChain
