import BuildChain.OrderedMap
import Mathlib.Data.List.Induction

/-!
# Looking up in a map

The value under a key is the value of the one entry with that key. Inserting and erasing change what
is found under their own key only, and a map that is filled entry by entry holds the last value that
was given for a key.
-/

namespace BuildChain.OrderedMap

variable {β : Type}

/-! ## Entries and values -/

theorem mem_toList_iff {m : OrderedMap β} {key : String} {value : β} :
    (key, value) ∈ m.toList ↔ m.get? key = some value := by
  have hnodup := m.nodup_keys
  unfold get?
  generalize m.toList = entries at hnodup
  induction entries with
  | nil => simp
  | cons e rest ih =>
    obtain ⟨hnot, hrest⟩ := List.nodup_cons.mp hnodup
    rw [List.mem_cons, List.lookup_cons]
    by_cases hkey : key = e.1
    · have hout : (key, value) ∉ rest := fun hm => hnot (hkey ▸ List.mem_map_of_mem hm)
      rw [beq_iff_eq.mpr hkey, or_iff_left hout, Prod.ext_iff, Option.some_inj, eq_comm (b := e.2)]
      exact and_iff_right hkey
    · have hne : (key, value) ≠ e := fun h => hkey (congrArg Prod.fst h)
      rw [beq_eq_false_iff_ne.mpr hkey, or_iff_right hne]
      exact ih hrest

theorem mem_keys_iff {m : OrderedMap β} {key : String} :
    key ∈ m.keys ↔ (m.get? key).isSome = true := by
  rw [keys, List.mem_map, Option.isSome_iff_exists]
  constructor
  · rintro ⟨e, he, rfl⟩
    exact ⟨e.2, mem_toList_iff.mp he⟩
  · rintro ⟨value, h⟩
    exact ⟨(key, value), mem_toList_iff.mpr h, rfl⟩

theorem get?_eq_none_iff {m : OrderedMap β} {key : String} : m.get? key = none ↔ key ∉ m.keys := by
  rw [mem_keys_iff, Bool.not_eq_true, Option.isSome_eq_false_iff, Option.isNone_iff_eq_none]

theorem contains_iff {m : OrderedMap β} {key : String} :
    m.contains key = true ↔ (m.get? key).isSome = true := by
  rw [contains, List.contains_iff_mem, mem_keys_iff]

@[simp] theorem get?_empty (key : String) : (∅ : OrderedMap β).get? key = none := rfl

/-- Only one entry has a given key. -/
theorem filter_toList (m : OrderedMap β) (key : String) (p : String × β → Bool)
    (hp : ∀ e, p e = true → e.1 = key) :
    m.toList.filter p =
      (((m.get? key).filter fun v => p (key, v)).map fun v => (key, v)).toList := by
  have hnodup := m.nodup_keys
  unfold get?
  generalize m.toList = entries at hnodup
  induction entries with
  | nil => rfl
  | cons e rest ih =>
    obtain ⟨hnot, hrest⟩ := List.nodup_cons.mp hnodup
    by_cases hkey : e.1 = key
    · have hout : rest.filter p = [] := by
        rw [List.filter_eq_nil_iff]
        intro e' he' hpe
        exact hnot (hkey ▸ hp e' hpe ▸ List.mem_map_of_mem he')
      obtain ⟨k, v⟩ := e
      cases hkey
      rw [List.filter_cons, hout, List.lookup_cons, beq_self_eq_true, Option.filter_some]
      by_cases hpe : p (k, v) = true <;> simp [hpe]
    · rw [List.filter_cons_of_neg (fun hpe => hkey (hp e hpe)), List.lookup_cons,
        beq_eq_false_iff_ne.mpr (Ne.symm hkey)]
      exact ih hrest

/-! ## Inserting and erasing -/

theorem mem_toList_insert {m : OrderedMap β} {key k : String} {value v : β} :
    (k, v) ∈ (m.insert key value).toList ↔
      (k = key ∧ v = value) ∨ (k ≠ key ∧ (k, v) ∈ m.toList) := by
  by_cases hmem : key ∈ m.keys
  · rw [toList_insert_of_mem hmem, replaceValue, List.mem_map]
    constructor
    · rintro ⟨e, he, heq⟩
      by_cases hkey : e.1 = key
      · rw [if_pos hkey] at heq
        cases heq
        exact .inl ⟨hkey, rfl⟩
      · rw [if_neg hkey] at heq
        cases heq
        exact .inr ⟨hkey, he⟩
    · rintro (⟨rfl, rfl⟩ | ⟨hne, he⟩)
      · obtain ⟨e, he, hkey⟩ := List.mem_map.mp hmem
        exact ⟨e, he, by simp [hkey]⟩
      · exact ⟨(k, v), he, by simp [hne]⟩
  · rw [toList_insert_of_not_mem hmem, List.mem_append, List.mem_singleton, Prod.mk.injEq, or_comm]
    refine or_congr_right ⟨fun he => ⟨?_, he⟩, And.right⟩
    rintro rfl
    exact hmem (List.mem_map_of_mem he)

theorem get?_insert (m : OrderedMap β) (key : String) (value : β) (k : String) :
    (m.insert key value).get? k = if k = key then some value else m.get? k := by
  ext v
  rw [← mem_toList_iff, mem_toList_insert, mem_toList_iff]
  by_cases h : k = key <;> simp [h, eq_comm]

/-- Giving a key the value it has changes nothing. -/
theorem insert_self {m : OrderedMap β} {key : String} {value : β} (h : m.get? key = some value) :
    m.insert key value = m := by
  have hmem : key ∈ m.keys := mem_keys_iff.mpr (by rw [h]; rfl)
  apply ext
  rw [toList_insert_of_mem hmem, replaceValue]
  refine (List.map_congr_left fun e he => ?_).trans (List.map_id' _)
  split
  · rename_i hkey
    have hvalue : m.get? key = some e.2 := mem_toList_iff.mp (hkey ▸ he)
    rw [h] at hvalue
    cases hvalue
    rfl
  · rfl

theorem keys_insert (m : OrderedMap β) (key : String) (value : β) :
    (m.insert key value).keys = if key ∈ m.keys then m.keys else m.keys ++ [key] := by
  by_cases h : key ∈ m.keys
  · rw [if_pos h, keys, toList_insert_of_mem h, map_fst_replaceValue, keys]
  · rw [if_neg h, keys, toList_insert_of_not_mem h, List.map_append, keys]
    rfl

/-- Of two values for one key the second one stays. -/
theorem insert_insert (m : OrderedMap β) (key : String) (value value' : β) :
    (m.insert key value).insert key value' = m.insert key value' := by
  have hkey : key ∈ (m.insert key value).keys := by
    rw [keys_insert]
    split
    · assumption
    · simp
  apply ext
  rw [toList_insert_of_mem hkey]
  by_cases hmem : key ∈ m.keys
  · rw [toList_insert_of_mem hmem, toList_insert_of_mem hmem, replaceValue, replaceValue,
      List.map_map]
    refine List.map_congr_left fun e _ => ?_
    by_cases h : e.1 = key <;> simp [h]
  · rw [toList_insert_of_not_mem hmem, toList_insert_of_not_mem hmem, replaceValue, List.map_append]
    have hold : (m.toList.map fun e => if e.1 = key then (e.1, value') else e) = m.toList := by
      refine (List.map_congr_left fun e he => ?_).trans (List.map_id' _)
      exact if_neg fun heq : e.1 = key => hmem (heq ▸ List.mem_map_of_mem he)
    rw [hold]
    simp

theorem get?_erase (m : OrderedMap β) (key k : String) :
    (m.erase key).get? k = if k = key then none else m.get? k := by
  ext v
  rw [← mem_toList_iff, toList_erase, List.mem_filter, mem_toList_iff]
  by_cases h : k = key <;> simp [h]

/-- Erasing a key that is not there changes nothing. -/
theorem erase_eq_self {m : OrderedMap β} {key : String} (h : m.get? key = none) :
    m.erase key = m := by
  apply ext
  rw [toList_erase, List.filter_eq_self]
  intro e he
  rw [bne_iff_ne]
  rintro rfl
  exact get?_eq_none_iff.mp h (List.mem_map_of_mem he)

theorem keys_erase (m : OrderedMap β) (key : String) :
    (m.erase key).keys = m.keys.filter fun k => k != key := by
  rw [keys, toList_erase, keys, List.filter_map]
  rfl

/-- The entries under other keys are not affected by inserting. -/
theorem filter_toList_insert {p : String → Bool} {key : String} (hp : p key = false)
    (m : OrderedMap β) (value : β) :
    ((m.insert key value).toList.filter fun e => p e.1) = m.toList.filter fun e => p e.1 := by
  by_cases hmem : key ∈ m.keys
  · rw [toList_insert_of_mem hmem, replaceValue, List.filter_map]
    have hpred : ((fun e : String × β => p e.1) ∘ fun e => if e.1 = key then (e.1, value) else e) =
        fun e => p e.1 := by
      funext e
      by_cases hkey : e.1 = key <;> simp [hkey]
    rw [hpred]
    refine (List.map_congr_left fun e he => ?_).trans (List.map_id' _)
    refine if_neg fun hkey => ?_
    have hpe := (List.mem_filter.mp he).2
    rw [hkey, hp] at hpe
    cases hpe
  · simp [toList_insert_of_not_mem hmem, hp]

/-- Nor are they by erasing. -/
theorem filter_toList_erase {p : String → Bool} {key : String} (hp : p key = false)
    (m : OrderedMap β) :
    ((m.erase key).toList.filter fun e => p e.1) = m.toList.filter fun e => p e.1 := by
  rw [toList_erase, List.filter_filter]
  refine List.filter_congr fun e _ => ?_
  by_cases hkey : e.1 = key <;> simp [hkey, hp]

/-! ## Filling a map -/

theorem ofList_concat (entries : List (String × β)) (e : String × β) :
    ofList (entries ++ [e]) = (ofList entries).insert e.1 e.2 := by
  simp [ofList]

/-- The last value that is given for a key stays. -/
theorem get?_ofList (entries : List (String × β)) (key : String) :
    (ofList entries).get? key = ((entries.filter fun e => e.1 = key).getLast?).map Prod.snd := by
  induction entries using List.reverseRecOn with
  | nil => rfl
  | append_singleton entries e ih =>
    rw [ofList_concat, get?_insert, ih, List.filter_append]
    by_cases h : key = e.1
    · simp [h]
    · simp [h, Ne.symm h]

theorem get?_ofList_filter (entries : List (String × β)) (p : String → Bool) (key : String) :
    (ofList (entries.filter fun e => p e.1)).get? key =
      if p key = true then (ofList entries).get? key else none := by
  rw [get?_ofList, get?_ofList, List.filter_filter]
  by_cases hp : p key = true
  · rw [if_pos hp]
    congr 2
    refine List.filter_congr fun e _ => ?_
    by_cases hkey : e.1 = key
    · simp [hkey, hp]
    · simp [hkey]
  · rw [if_neg hp, Option.map_eq_none_iff, List.getLast?_eq_none_iff, List.filter_eq_nil_iff]
    intro e _ h
    rw [Bool.and_eq_true, decide_eq_true_eq] at h
    exact hp (h.1 ▸ h.2)

/-- Leaving out keys keeps the order of the others. -/
theorem keys_ofList_filter (entries : List (String × β)) (p : String → Bool) :
    (ofList (entries.filter fun e => p e.1)).keys = (ofList entries).keys.filter p := by
  induction entries using List.reverseRecOn with
  | nil => rfl
  | append_singleton entries e ih =>
    rw [List.filter_append, ofList_concat, keys_insert]
    by_cases hp : p e.1 = true
    · have hkeep : [e].filter (fun e => p e.1) = [e] := by simp [hp]
      rw [hkeep, ofList_concat, keys_insert, ih]
      by_cases hmem : e.1 ∈ (ofList entries).keys
      · rw [if_pos hmem, if_pos (List.mem_filter.mpr ⟨hmem, hp⟩)]
      · rw [if_neg hmem, if_neg fun h => hmem (List.mem_filter.mp h).1, List.filter_append,
          List.filter_cons_of_pos hp, List.filter_nil]
    · have hdrop : [e].filter (fun e => p e.1) = [] := by simp [hp]
      rw [hdrop, List.append_nil, ih]
      split
      · rfl
      · rw [List.filter_append, List.filter_cons_of_neg hp, List.filter_nil, List.append_nil]

theorem mem_keys_ofList {entries : List (String × β)} {key : String} :
    key ∈ (ofList entries).keys ↔ key ∈ entries.map Prod.fst := by
  rw [mem_keys_iff, get?_ofList, Option.isSome_map, List.getLast?_isSome,
    List.ne_nil_iff_exists_cons]
  constructor
  · rintro ⟨e, rest, h⟩
    have hm : e ∈ entries.filter fun e => e.1 = key := h ▸ List.mem_cons_self
    rw [List.mem_filter, decide_eq_true_eq] at hm
    exact hm.2 ▸ List.mem_map_of_mem hm.1
  · rintro hm
    obtain ⟨e, he, rfl⟩ := List.mem_map.mp hm
    exact List.exists_cons_of_ne_nil (List.ne_nil_of_mem (List.mem_filter.mpr ⟨he, by simp⟩))

/-- The keys of a filled map hang on the keys of the entries only. -/
theorem keys_ofList_congr {entries entries' : List (String × β)}
    (h : entries.map Prod.fst = entries'.map Prod.fst) :
    (ofList entries).keys = (ofList entries').keys := by
  induction entries using List.reverseRecOn generalizing entries' with
  | nil =>
    rw [List.map_nil, eq_comm, List.map_eq_nil_iff] at h
    rw [h]
  | append_singleton entries e ih =>
    rw [List.map_append, List.map_singleton, eq_comm, List.map_eq_append_iff] at h
    obtain ⟨init, last, rfl, hinit, hlast⟩ := h
    obtain ⟨e', rfl, he⟩ := List.map_eq_singleton_iff.mp hlast
    rw [ofList_concat, ofList_concat, keys_insert, keys_insert, ih hinit.symm, he]

/-- Leaving out entries and changing values leaves the keys distinct. -/
theorem nodup_keys_filterMap {γ : Type} {f : β → Option γ} {l : List (String × β)}
    (h : (l.map Prod.fst).Nodup) :
    ((l.filterMap fun e => (f e.2).map fun v => (e.1, v)).map Prod.fst).Nodup := by
  refine List.Sublist.nodup ?_ h
  induction l with
  | nil => exact List.Sublist.refl []
  | cons e l ih =>
    have hl := ih (List.nodup_cons.mp h).2
    cases he : f e.2 with
    | none => simpa [he] using hl.cons e.1
    | some v => simpa [he] using hl.cons_cons e.1

end BuildChain.OrderedMap
