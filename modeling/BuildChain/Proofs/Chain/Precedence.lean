import BuildChain.Proofs.Chain.Place

/-!
# Which line sets a place

The lines of one property can spell the name of its section in different ways. Each spelling is a
key of its own, which keeps its first place and its last value, and the spelling that comes up last
is read last. So the value that is read is that of the last line of one spelling. It is the value of
the last line of the file unless a spelling that came up earlier is used again below.
-/

namespace BuildChain.Chain

/-! ## Entries in the order of their lines -/

/-- The keys and values of the active lines of a text. -/
def activeEntries (text : String) : List (String × String) :=
  (Text.lines text).filterMap activeEntry?

/-- The value of the last entry of a key. -/
def lastValue? (entries : List (String × String)) (key : String) : Option String :=
  ((entries.filter fun e => e.1 = key).getLast?).map Prod.snd

/-- The active lines that set a property of the sections of a name, in whatever spelling. -/
def setters (text name suffix : String) : List (String × String) :=
  (activeEntries text).filter fun e => (Route.ofKey e.1).leadsTo name suffix

/-- The active lines that lead to a place, in whatever spelling. -/
def settersAt (text : String) (r : Route) : List (String × String) :=
  (activeEntries text).filter fun e => (Route.ofKey e.1).samePlace r

/-- Below the first entry of the key there are only entries of the key itself and of keys that came
up above. -/
def ComesUpLast (entries : List (String × String)) (key : String) : Prop :=
  ∃ above value below, entries = above ++ (key, value) :: below ∧ key ∉ above.map Prod.fst ∧
    ∀ e ∈ below, e.1 = key ∨ e.1 ∈ above.map Prod.fst

namespace ComesUpLast

variable {entries : List (String × String)} {e : String × String} {key : String}

theorem concat (h : ComesUpLast entries key) (he : e.1 ∈ entries.map Prod.fst) :
    ComesUpLast (entries ++ [e]) key := by
  obtain ⟨above, value, below, rfl, hnew, hbelow⟩ := h
  refine ⟨above, value, below ++ [e], by simp, hnew, fun e' he' => ?_⟩
  rcases List.mem_append.mp he' with he' | he'
  · exact hbelow e' he'
  · rw [List.mem_singleton.mp he']
    simp only [List.map_append, List.map_cons, List.mem_append, List.mem_cons] at he
    rcases he with habove | hkey | hlow
    · exact .inr habove
    · exact .inl hkey
    · obtain ⟨e'', he'', heq⟩ := List.mem_map.mp hlow
      rw [← heq]
      exact hbelow e'' he''

theorem of_concat (h : ComesUpLast (entries ++ [e]) key) :
    (e.1 ∈ entries.map Prod.fst ∧ ComesUpLast entries key) ∨
      (e.1 ∉ entries.map Prod.fst ∧ e.1 = key) := by
  obtain ⟨above, value, below, hsplit, hnew, hbelow⟩ := h
  rcases List.eq_nil_or_concat below with rfl | ⟨below, last, rfl⟩
  · obtain ⟨rfl, rfl⟩ := List.append_singleton_inj.mp hsplit
    exact .inr ⟨hnew, rfl⟩
  · rw [List.concat_eq_append] at hsplit hbelow
    rw [← List.cons_append, ← List.append_assoc] at hsplit
    obtain ⟨rfl, rfl⟩ := List.append_singleton_inj.mp hsplit
    refine .inl ⟨?_, above, value, below, rfl, hnew, fun e' he' => hbelow e' (by simp [he'])⟩
    rw [List.map_append, List.map_cons, List.mem_append, List.mem_cons]
    rcases hbelow e (by simp) with hkey | habove
    · exact .inr (.inl hkey)
    · exact .inl habove

end ComesUpLast

/-- The last key of a map is the one that comes up last among the entries it is filled with. -/
theorem getLast?_keys_ofList_iff {entries : List (String × String)} {key : String} :
    (OrderedMap.ofList entries).keys.getLast? = some key ↔ ComesUpLast entries key := by
  induction entries using List.reverseRecOn with
  | nil =>
    constructor
    · intro h
      cases h
    · rintro ⟨above, value, below, h, -⟩
      simp at h
  | append_singleton entries e ih =>
    have hmem : e.1 ∈ (OrderedMap.ofList entries).keys ↔ e.1 ∈ entries.map Prod.fst :=
      OrderedMap.mem_keys_ofList
    rw [OrderedMap.ofList_concat, OrderedMap.keys_insert]
    by_cases hold : e.1 ∈ entries.map Prod.fst
    · rw [if_pos (hmem.mpr hold), ih]
      exact ⟨fun h => h.concat hold, fun h => (h.of_concat.resolve_right fun h' => h'.1 hold).2⟩
    · rw [if_neg fun h => hold (hmem.mp h), List.getLast?_concat, Option.some.injEq]
      constructor
      · rintro rfl
        exact ⟨entries, e.2, [], rfl, hold, by simp⟩
      · exact fun h => (h.of_concat.resolve_left fun h' => hold h'.1).2

/-- Where no key comes up there are no entries. -/
theorem eq_nil_of_getLast?_keys {entries : List (String × String)}
    (h : (OrderedMap.ofList entries).keys.getLast? = none) : entries = [] := by
  rw [List.getLast?_eq_none_iff] at h
  rw [List.eq_nil_iff_forall_not_mem]
  intro e he
  have hmem := OrderedMap.mem_keys_ofList.mpr (List.mem_map_of_mem (f := Prod.fst) he)
  rw [h] at hmem
  cases hmem

/-! ## The value that is read -/

/-- What is said of a place is the last value of the spelling that comes up last. -/
theorem settingAt?_settings_eq_bind (text : String) (r : Route) :
    settingAt? (settings text) r =
      (OrderedMap.ofList (settersAt text r)).keys.getLast?.bind
        (lastValue? (settersAt text r)) := by
  have hkeys : (OrderedMap.ofList (settersAt text r)).keys =
      (settings text).keys.filter fun k => (Route.ofKey k).samePlace r :=
    OrderedMap.keys_ofList_filter (activeEntries text) fun k => (Route.ofKey k).samePlace r
  rw [settingAt?, hkeys]
  cases hlast : ((settings text).keys.filter fun k => (Route.ofKey k).samePlace r).getLast? with
  | none => rfl
  | some key =>
    have hplace := (List.mem_filter.mp (List.mem_of_getLast? hlast)).2
    have hone := OrderedMap.get?_ofList_filter (activeEntries text)
      (fun k => (Route.ofKey k).samePlace r) key
    rw [if_pos hplace, OrderedMap.get?_ofList] at hone
    exact hone.symm

theorem get?_ofText_eq_bind (text name suffix : String) :
    (ofText text).get? name suffix =
      (OrderedMap.ofList (setters text name suffix)).keys.getLast?.bind
        (lastValue? (setters text name suffix)) :=
  (get?_eq_settingAt? (settings text) name suffix).trans
    (settingAt?_settings_eq_bind text (.property name suffix))

/-- A property is read exactly when some active line sets it. The value is that of the last such line
exactly when the spelling that comes up last has this value on its own last line. -/
theorem get?_ofText_eq_last_iff (text name suffix : String) :
    (((ofText text).get? name suffix).isSome = true ↔ setters text name suffix ≠ []) ∧
      ((ofText text).get? name suffix = (setters text name suffix).getLast?.map Prod.snd ↔
        ∀ key, ComesUpLast (setters text name suffix) key →
          lastValue? (setters text name suffix) key =
            (setters text name suffix).getLast?.map Prod.snd) := by
  rw [get?_ofText_eq_bind]
  generalize setters text name suffix = entries
  cases hkey : (OrderedMap.ofList entries).keys.getLast? with
  | none =>
    obtain rfl := eq_nil_of_getLast?_keys hkey
    refine ⟨by simp, iff_of_true rfl ?_⟩
    rintro key hlast
    rw [← getLast?_keys_ofList_iff, hkey] at hlast
    cases hlast
  | some key =>
    have hmem : key ∈ entries.map Prod.fst :=
      OrderedMap.mem_keys_ofList.mp (List.mem_of_getLast? hkey)
    have hsome : (lastValue? entries key).isSome = true := by
      have hkeys := OrderedMap.mem_keys_iff.mp (OrderedMap.mem_keys_ofList.mpr hmem)
      rwa [OrderedMap.get?_ofList] at hkeys
    constructor
    · refine iff_of_true hsome fun hnil => ?_
      rw [hnil] at hmem
      cases hmem
    · constructor
      · intro heq key' hlast
        rw [← getLast?_keys_ofList_iff, hkey, Option.some.injEq] at hlast
        rw [← hlast]
        exact heq
      · exact fun hall => hall key (getLast?_keys_ofList_iff.mp hkey)

/-- A spelling that is used again below another one does not count with its new value. -/
theorem get?_ofText_ne_last :
    (ofText "a.mode=source\nA.mode=binary\na.mode=ignore").get? "a" "mode" = some "binary" ∧
      (setters "a.mode=source\nA.mode=binary\na.mode=ignore" "a" "mode").getLast? =
        some ("a.mode", "ignore") := by
  decide +kernel

end BuildChain.Chain
