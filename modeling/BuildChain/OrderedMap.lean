/-!
# Maps that remember the order of their keys

A map is the list of its entries in order of first insertion, with no key twice. Inserting under a
known key changes the value in place; erasing leaves the order of the other entries alone.
-/

namespace BuildChain

structure OrderedMap (β : Type) where
  toList : List (String × β)
  nodup_keys : (toList.map Prod.fst).Nodup
deriving DecidableEq

namespace OrderedMap

variable {β : Type}

def empty : OrderedMap β := ⟨[], List.nodup_nil⟩

instance : EmptyCollection (OrderedMap β) := ⟨empty⟩

instance : Inhabited (OrderedMap β) := ⟨empty⟩

def keys (m : OrderedMap β) : List String := m.toList.map Prod.fst

def get? (m : OrderedMap β) (key : String) : Option β := m.toList.lookup key

def contains (m : OrderedMap β) (key : String) : Bool := m.keys.contains key

theorem keys_nodup (m : OrderedMap β) : m.keys.Nodup := m.nodup_keys

/-- Entries with the value under one key exchanged. -/
def replaceValue (key : String) (value : β) (entries : List (String × β)) : List (String × β) :=
  entries.map fun e => if e.1 = key then (e.1, value) else e

theorem map_fst_replaceValue (key : String) (value : β) (entries : List (String × β)) :
    (replaceValue key value entries).map Prod.fst = entries.map Prod.fst := by
  simp only [replaceValue, List.map_map]
  apply List.map_congr_left
  intro e _
  by_cases h : e.1 = key <;> simp [h]

/-- A known key keeps its place and takes the new value; a new key goes to the end. -/
def insert (m : OrderedMap β) (key : String) (value : β) : OrderedMap β :=
  if h : key ∈ m.keys then
    ⟨replaceValue key value m.toList, by rw [map_fst_replaceValue]; exact m.nodup_keys⟩
  else
    ⟨m.toList ++ [(key, value)], by
      rw [List.map_append, List.nodup_append]
      refine ⟨m.nodup_keys, by simp, ?_⟩
      intro a ha b hb
      simp only [List.map_cons, List.map_nil, List.mem_singleton] at hb
      subst hb
      intro hab
      exact h (hab ▸ ha)⟩

def erase (m : OrderedMap β) (key : String) : OrderedMap β :=
  ⟨m.toList.filter fun e => e.1 != key,
    (List.Sublist.map Prod.fst List.filter_sublist).nodup m.nodup_keys⟩

/-- A repeated key keeps its first place and its last value. -/
def ofList (entries : List (String × β)) : OrderedMap β :=
  entries.foldl (fun m e => m.insert e.1 e.2) empty

@[simp] theorem toList_empty : (empty : OrderedMap β).toList = [] := rfl

theorem toList_insert_of_mem {m : OrderedMap β} {key : String} (h : key ∈ m.keys) (value : β) :
    (m.insert key value).toList = replaceValue key value m.toList := by
  simp [insert, h]

theorem toList_insert_of_not_mem {m : OrderedMap β} {key : String} (h : key ∉ m.keys)
    (value : β) : (m.insert key value).toList = m.toList ++ [(key, value)] := by
  simp [insert, h]

@[simp] theorem toList_erase (m : OrderedMap β) (key : String) :
    (m.erase key).toList = m.toList.filter fun e => e.1 != key := rfl

theorem ext {m n : OrderedMap β} (h : m.toList = n.toList) : m = n := by
  cases m; cases n; cases h; rfl

end OrderedMap

end BuildChain
