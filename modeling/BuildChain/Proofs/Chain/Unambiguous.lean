import BuildChain.Proofs.Chain.Reading
import BuildChain.Proofs.Repair.Completion

/-!
# Unambiguous chains

Lookups take the first section of a name, and a flag is looked for in two maps. Both are sound on a
chain that says nothing twice. A chain that is read is of this kind, since the keys that lead to one
section are collected there and a flag has one key only.
-/

namespace BuildChain

namespace Chain

/-- No section and no flag is there twice, and a flag that is kept as text is no boolean. -/
structure Unambiguous (c : Chain) : Prop where
  names : c.DistinctNames
  suites : ∀ suite ∈ c.flags.keys, suite ∉ c.rawFlags.keys
  texts : ∀ e ∈ c.rawFlags.toList, readFlag e.2 = none

namespace Unambiguous

variable {c c' : Chain}

/-! ## Changes that keep a chain unambiguous -/

/-- Nothing but the names and the flags matters. -/
theorem of_names_eq (h : c.Unambiguous) (hnames : c'.names = c.names)
    (hflags : c'.flags = c.flags) (hraw : c'.rawFlags = c.rawFlags) : c'.Unambiguous := by
  constructor
  · rw [DistinctNames, hnames]
    exact h.names
  · rw [hflags, hraw]
    exact h.suites
  · rw [hraw]
    exact h.texts

theorem modifySection (h : c.Unambiguous) (name : String) {f : Section → Section}
    (hf : ∀ s, (f s).name = s.name) : (c.modifySection name f).Unambiguous :=
  h.of_names_eq (names_modifySection c name hf) rfl rfl

theorem mapSections (h : c.Unambiguous) {f : Section → Section} (hf : ∀ s, (f s).name = s.name) :
    ({ c with sections := c.sections.map f } : Chain).Unambiguous := by
  refine h.of_names_eq ?_ rfl rfl
  simp only [Chain.names, List.map_map]
  exact List.map_congr_left fun s _ => hf s

theorem reorder (h : c.Unambiguous) (o : Order) : (o.reorder c).Unambiguous :=
  ⟨Fixer.distinctNames_reorder h.names, h.suites, h.texts⟩

/-- A flag that is set is no longer kept as text. -/
theorem setFlag (h : c.Unambiguous) (suite : String) (enabled : Bool) :
    (c.setFlag suite enabled).Unambiguous := by
  constructor
  · exact h.names
  · intro t ht
    rw [Chain.setFlag, OrderedMap.mem_keys_iff, OrderedMap.get?_erase]
    by_cases hsuite : t = suite
    · rw [if_pos hsuite]
      exact Bool.false_ne_true
    · rw [Chain.setFlag, OrderedMap.mem_keys_iff, OrderedMap.get?_insert, if_neg hsuite,
        ← OrderedMap.mem_keys_iff] at ht
      rw [if_neg hsuite, ← OrderedMap.mem_keys_iff]
      exact h.suites t ht
  · intro e he
    exact h.texts e (List.mem_filter.mp he).1

end Unambiguous

/-! ## Chains that are read -/

/-- A flag has one key, and the value under it is a boolean or it is not. -/
theorem unambiguous_ofText (text : String) : (ofText text).Unambiguous := by
  have hflags := flags_ofSettings (settings text)
  have hraw := rawFlags_ofSettings (settings text)
  rw [ofText_eq]
  constructor
  · exact distinctNames_ofSettings (settings text)
  · intro suite hflag hkept
    rw [OrderedMap.mem_keys_iff, hflags] at hflag
    rw [OrderedMap.mem_keys_iff, hraw] at hkept
    split at hflag
    · cases hflag
    · rename_i hsuite
      rw [if_neg hsuite] at hkept
      obtain ⟨enabled, henabled⟩ := Option.isSome_iff_exists.mp hflag
      obtain ⟨v, hv, hread⟩ := Option.bind_eq_some_iff.mp henabled
      rw [hv, Option.filter_some, hread] at hkept
      cases hkept
  · rintro ⟨suite, v⟩ he
    rw [OrderedMap.mem_toList_iff, hraw] at he
    split at he
    · cases he
    · exact Option.isNone_iff_eq_none.mp (Option.filter_eq_some_iff.mp he).2

end Chain

end BuildChain
