import BuildChain.Line
import BuildChain.Proofs.Text.Split

/-!
# Keys and where they lead

A key that leads to a flag or to a property is the key under which that flag or property is written,
so a key and its route determine each other there.
-/

namespace BuildChain.Route

/-! ## From a key to its route -/

theorem suite?_eq_some_iff {key suite : List Char} :
    suite? key = some suite ↔ suite ≠ [] ∧ key = "tests.".toList ++ suite ++ ".run".toList := by
  unfold suite?
  constructor
  · intro h
    split at h
    · cases h
    · rename_i rest hstart
      split at h
      · rename_i c cs hend
        cases h
        rw [Text.stripStart_eq_some_iff] at hstart
        rw [Text.stripEnd_eq_some_iff] at hend
        exact ⟨by simp, by rw [hstart, hend, List.append_assoc]⟩
      · cases h
  · rintro ⟨hne, hkey⟩
    have hstart : Text.stripStart "tests.".toList key = some (suite ++ ".run".toList) := by
      rw [Text.stripStart_eq_some_iff, hkey, List.append_assoc]
    have hend : Text.stripEnd ".run".toList (suite ++ ".run".toList) = some suite :=
      Text.stripEnd_eq_some_iff.mpr rfl
    obtain ⟨c, cs, rfl⟩ := List.exists_cons_of_ne_nil hne
    rw [hstart]
    dsimp only
    rw [hend]

theorem toList_flagKey (suite : String) :
    (flagKey suite).toList = "tests.".toList ++ suite.toList ++ ".run".toList := by
  simp [flagKey]

theorem toList_propertyKey (name suffix : String) :
    (propertyKey name suffix).toList = name.toList ++ '.' :: suffix.toList := by
  simp [propertyKey]

theorem sameName_flagKey {s s' : String} (h : Text.sameName s s' = true) :
    Text.sameName (flagKey s) (flagKey s') = true := by
  rw [Text.sameName_iff, Text.fold, Text.fold] at h ⊢
  simp only [toList_flagKey, List.map_append, h]

theorem sameName_propertyKey {n n' : String} (h : Text.sameName n n' = true) (suffix : String) :
    Text.sameName (propertyKey n suffix) (propertyKey n' suffix) = true := by
  rw [Text.sameName_iff, Text.fold, Text.fold] at h ⊢
  rw [toList_propertyKey, toList_propertyKey, List.map_append, List.map_append, h]

theorem ofKey_eq_global {key k : String} (h : ofKey key = global k) : k = key := by
  unfold ofKey at h
  split at h
  · cases h
    rfl
  · split at h
    · cases h
    · split at h <;> cases h

theorem ofKey_eq_flag_iff {key suite : String} :
    ofKey key = flag suite ↔ suite ≠ "" ∧ key = flagKey suite := by
  constructor
  · intro h
    unfold ofKey at h
    split at h
    · cases h
    · split at h
      · rename_i s hs
        cases h
        obtain ⟨hne, hkey⟩ := suite?_eq_some_iff.mp hs
        refine ⟨?_, ?_⟩
        · rwa [Ne, ← String.toList_inj, String.toList_ofList]
        · rw [← String.toList_inj, toList_flagKey, hkey]
          simp
      · split at h <;> cases h
  · rintro ⟨hne, rfl⟩
    have hglobal : "global.".toList.isPrefixOf (flagKey suite).toList = false := by
      rw [toList_flagKey]
      rfl
    have hsuite : suite? (flagKey suite).toList = some suite.toList := by
      rw [suite?_eq_some_iff, toList_flagKey]
      exact ⟨by rwa [Ne, show ([] : List Char) = "".toList from rfl, String.toList_inj], rfl⟩
    unfold ofKey
    rw [hglobal, hsuite]
    simp

theorem ofKey_eq_property {key name suffix : String} (h : ofKey key = property name suffix) :
    key = propertyKey name suffix ∧ '.' ∉ name.toList := by
  unfold ofKey at h
  split at h
  · cases h
  · split at h
    · cases h
    · split at h
      · rename_i c cs d ds hsplit
        cases h
        obtain ⟨hkey, hdot⟩ := Text.splitFirst_eq_some hsplit
        constructor
        · rw [← String.toList_inj, toList_propertyKey, hkey, String.toList_ofList,
            String.toList_ofList]
        · rwa [String.toList_ofList]
      · cases h

theorem nonempty_of_ofKey {key name suffix : String} (h : ofKey key = property name suffix) :
    name.toList ≠ [] ∧ suffix.toList ≠ [] := by
  unfold ofKey at h
  split at h
  · cases h
  · split at h
    · cases h
    · split at h
      · cases h
        simp
      · cases h

/-- The three keys of global settings lead to themselves. -/
theorem ofKey_globalKey {key : String} (h : "global.".toList.isPrefixOf key.toList = true) :
    ofKey key = global key := by
  unfold ofKey
  rw [if_pos h]

end BuildChain.Route
