import BuildChain.Proofs.Document.Update

/-!
# The settings of a document

The settings that are read from a document are those of its active assignments. Where a key has one
spelling among them, the setting under that key is the assignment that is in force.
-/

namespace BuildChain.Document

/-- The keys and values of the active assignments. -/
def entries (as : List Assignment) : List (String × String) :=
  as.filterMap fun x => if x.active = true then some (x.key, x.value) else none

/-- The settings that the active assignments make up. -/
def settings (as : List Assignment) : OrderedMap String := OrderedMap.ofList (entries as)

theorem mem_entries {as : List Assignment} {key value : String} :
    (key, value) ∈ entries as ↔ ⟨key, value, true⟩ ∈ as := by
  unfold entries
  rw [List.mem_filterMap]
  constructor
  · rintro ⟨⟨k, v, act⟩, hx, h⟩
    cases act with
    | false => cases h
    | true =>
      cases h
      exact hx
  · exact fun hx => ⟨_, hx, rfl⟩

theorem filterMap_activeEntry? (doc : Document) :
    doc.filterMap Chain.activeEntry? = entries doc.assignments := by
  rw [entries, assignments, List.filterMap_filterMap]
  refine List.filterMap_congr fun l _ => ?_
  rw [Chain.activeEntry?]
  cases Assignment.ofLine? l <;> rfl

theorem settings_lines (text : String) :
    Chain.settings text = settings (assignments (Text.lines text)) := by
  rw [Chain.settings, filterMap_activeEntry?, settings]

theorem mem_keys_settings {as : List Assignment} {key : String} :
    key ∈ (settings as).keys ↔ ∃ x ∈ as, x.active = true ∧ x.key = key := by
  rw [settings, OrderedMap.mem_keys_ofList, List.mem_map]
  constructor
  · rintro ⟨⟨k, v⟩, hmem, rfl⟩
    exact ⟨_, mem_entries.mp hmem, rfl, rfl⟩
  · rintro ⟨⟨k, v, act⟩, hx, rfl, rfl⟩
    exact ⟨(k, v), mem_entries.mpr hx, rfl⟩

theorem mem_of_get?_settings {as : List Assignment} {key value : String}
    (h : (settings as).get? key = some value) : ⟨key, value, true⟩ ∈ as := by
  rw [settings, OrderedMap.get?_ofList, Option.map_eq_some_iff] at h
  obtain ⟨⟨k, v⟩, hlast, rfl⟩ := h
  have hmem := List.mem_of_getLast? hlast
  rw [List.mem_filter, decide_eq_true_eq] at hmem
  obtain ⟨hentry, rfl⟩ := hmem
  exact mem_entries.mp hentry

/-- Only the active assignments of one key decide on the setting under that key. -/
theorem get?_settings (as : List Assignment) (key : String) :
    (settings as).get? key =
      ((as.filter fun x => x.active && x.key = key).getLast?).map Assignment.value := by
  have hfilter : (entries as).filter (fun e => e.1 = key) =
      (as.filter fun x => x.active && x.key = key).map fun x => (x.key, x.value) := by
    rw [entries, List.filter_filterMap, ← List.filterMap_eq_map, List.filterMap_filter]
    refine List.filterMap_congr fun x _ => ?_
    cases hact : x.active <;> by_cases hkey : x.key = key <;>
      simp [hkey, Option.filter_some]
  rw [settings, OrderedMap.get?_ofList, hfilter, List.getLast?_map, Option.map_map]
  rfl

/-- Where a key has one spelling, the assignment in force is the setting. -/
theorem get?_settings_of_spelled {as : List Assignment} {key : String}
    (h : ∀ x ∈ as, x.active = true → Text.sameName x.key key = true → x.key = key) :
    (settings as).get? key = (inForce? as key).map Assignment.value := by
  rw [get?_settings, inForce?]
  congr 2
  refine List.filter_congr fun x hx => ?_
  cases hact : x.active with
  | false => rfl
  | true =>
    rw [Bool.true_and, Bool.true_and, Bool.eq_iff_iff, decide_eq_true_eq]
    exact ⟨fun hkey => hkey ▸ Text.sameName_refl x.key, h x hx hact⟩

/-- Commenting out leaves the settings that the chain keeps. -/
theorem entries_retire (c : Chain) (doc : Document) :
    entries (assignments (doc.map (retire c))) =
      (entries doc.assignments).filter fun e => keeps c (Route.ofKey e.1) := by
  rw [← filterMap_activeEntry?, ← filterMap_activeEntry?, List.filterMap_map, List.filter_filterMap]
  refine List.filterMap_congr fun l _ => ?_
  rw [Function.comp_apply, activeEntry?_retire]

theorem get?_settings_retire (c : Chain) (doc : Document) (key : String) :
    (settings (assignments (doc.map (retire c)))).get? key =
      if keeps c (Route.ofKey key) = true then (settings doc.assignments).get? key else none := by
  rw [settings, entries_retire]
  exact OrderedMap.get?_ofList_filter _ (fun k => keeps c (Route.ofKey k)) key

/-- No two active lines have keys that differ in case only. -/
def SpelledOnce (doc : Document) : Prop :=
  ∀ x ∈ doc.assignments, ∀ y ∈ doc.assignments, x.active = true → y.active = true →
    Text.sameName x.key y.key = true → x.key = y.key

instance (doc : Document) : Decidable doc.SpelledOnce :=
  inferInstanceAs (Decidable (∀ x ∈ doc.assignments, ∀ y ∈ doc.assignments, x.active = true →
    y.active = true → Text.sameName x.key y.key = true → x.key = y.key))

theorem inForce?_of_setting {doc : Document} (h : doc.SpelledOnce) {k v key : String}
    (hget : (settings doc.assignments).get? k = some v) (hkey : Text.sameName k key = true) :
    inForce? doc.assignments key = some ⟨k, v, true⟩ := by
  have hmem := mem_of_get?_settings hget
  have hspelled : ∀ x ∈ doc.assignments, x.active = true → Text.sameName x.key k = true →
      x.key = k := fun x hx hact hsame => h x hx _ hmem hact rfl hsame
  rw [get?_settings_of_spelled hspelled, Option.map_eq_some_iff] at hget
  obtain ⟨x, hx, rfl⟩ := hget
  obtain ⟨hxmem, hact, hsame⟩ := inForce?_mem hx
  rw [← inForce?_congr _ hkey, hx, ← hspelled x hxmem hact hsame, ← hact]

theorem trim_of_mem_assignments {doc : Document} {x : Assignment} (h : x ∈ doc.assignments) :
    Text.trim x.value = x.value := by
  obtain ⟨l, -, hread⟩ := mem_assignments.mp h
  exact Assignment.tight_value hread

/-- A section has a line when an assignment, active or not, leads to one of its properties. -/
theorem hasSection_iff {doc : Document} {name : String} :
    doc.hasSection name = true ↔ ∃ x ∈ doc.assignments, ∃ n suffix,
      Route.ofKey x.key = .property n suffix ∧ Text.sameName n name = true := by
  rw [hasSection, Bool.not_eq_true', List.isEmpty_eq_false_iff, sectionLines, ← List.isSome_head?,
    Option.isSome_iff_exists]
  constructor
  · rintro ⟨row, hrow⟩
    obtain ⟨⟨l, i⟩, he, h⟩ := List.mem_filterMap.mp (List.mem_of_head? hrow)
    have hl : l ∈ doc := (List.mem_zipIdx' he).2 ▸ List.getElem_mem _
    dsimp only at h
    split at h
    · rename_i n suffix hroute
      obtain ⟨x, hread, hkey⟩ := Option.map_eq_some_iff.mp hroute
      split at h
      · rename_i hname
        exact ⟨x, mem_assignments.mpr ⟨l, hl, hread⟩, n, suffix, hkey, hname⟩
      · cases h
    · cases h
  · rintro ⟨x, hx, n, suffix, hkey, hname⟩
    obtain ⟨l, hl, hread⟩ := mem_assignments.mp hx
    obtain ⟨i, hi, rfl⟩ := List.getElem_of_mem hl
    have hroute : Route.ofLine? doc[i] = some (.property n suffix) := by
      rw [Route.ofLine?, hread, Option.map_some, hkey]
    have hmem : (i, Property.rank suffix) ∈ doc.sectionLines name := by
      refine List.mem_filterMap.mpr ⟨(doc[i], i), List.mk_mem_zipIdx_iff_getElem?.mpr ?_, ?_⟩
      · exact List.getElem?_eq_getElem hi
      · dsimp only
        rw [hroute]
        simp [hname]
    exact Option.isSome_iff_exists.mp (List.isSome_head?.mpr (List.ne_nil_of_mem hmem))

end BuildChain.Document
