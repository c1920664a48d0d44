import BuildChain.Proofs.Order
import BuildChain.Proofs.Repair.Run

/-!
# Adding missing sections

Adding the sections of some names gives every name a section and adds none for a name that has one
already. The added sections stand behind the others; putting the chain into order then moves
sections only.
-/

namespace BuildChain.Fixer

variable {cat : Catalog} {c : Chain} {names : List String}

/-! ## Adding sections -/

theorem addMissing_concat (cat : Catalog) (c : Chain) (names : List String) (name : String) :
    addMissing cat c (names ++ [name]) =
      if (addMissing cat c names).1.hasSection name then addMissing cat c names
      else ((addMissing cat c names).1.push (defaultSection cat name),
        (addMissing cat c names).2 + 1) := by
  rw [addMissing, List.foldl_append]
  rfl

theorem name_defaultSection (cat : Catalog) (name : String) :
    (defaultSection cat name).name = name := rfl

theorem names_push (c : Chain) (s : Section) : (c.push s).names = c.names ++ [s.name] := by
  simp [Chain.names, Chain.push]

theorem distinctNames_push (hdist : c.DistinctNames) {s : Section}
    (hnew : c.hasSection s.name = false) : (c.push s).DistinctNames := by
  rw [Chain.DistinctNames, names_push, List.pairwise_append]
  refine ⟨hdist, List.pairwise_singleton _ _, fun n hn n' hn' => ?_⟩
  rw [List.mem_singleton.mp hn', ← Bool.not_eq_true]
  intro hsame
  rw [Chain.hasSection_iff.mpr ⟨n, hn, hsame⟩] at hnew
  cases hnew

/-- One default section is added for each name that has none, and nothing else changes. -/
theorem addMissing_eq (cat : Catalog) (c : Chain) (names : List String) :
    ∃ added : List String, (∀ n ∈ added, n ∈ names ∧ c.hasSection n = false) ∧
      addMissing cat c names =
        ({ c with sections := c.sections ++ added.map (defaultSection cat) }, added.length) := by
  induction names using List.reverseRecOn with
  | nil => exact ⟨[], by simp, by simp [addMissing]⟩
  | append_singleton names name ih =>
    obtain ⟨added, hadded, heq⟩ := ih
    have hsub : ∀ n ∈ added, n ∈ names ++ [name] ∧ c.hasSection n = false := fun n hn =>
      ⟨List.mem_append_left _ (hadded n hn).1, (hadded n hn).2⟩
    rw [addMissing_concat]
    split
    · exact ⟨added, hsub, heq⟩
    · rename_i hnew
      refine ⟨added ++ [name], fun n hn => ?_, ?_⟩
      · rcases List.mem_append.mp hn with hn | hn
        · exact hsub n hn
        · rw [List.mem_singleton.mp hn]
          refine ⟨by simp, Bool.eq_false_iff.mpr fun hold => hnew ?_⟩
          rw [heq, Chain.hasSection, List.any_append, Bool.or_eq_true]
          exact .inl hold
      · rw [heq, Chain.push, List.map_append, List.length_append]
        simp

theorem hasSection_addMissing {name : String} (hname : name ∈ names) :
    (addMissing cat c names).1.hasSection name = true := by
  induction names using List.reverseRecOn with
  | nil => cases hname
  | append_singleton names last ih =>
    rw [addMissing_concat]
    rcases List.mem_append.mp hname with hold | hlast
    · split
      · exact ih hold
      · rw [Chain.hasSection_iff, names_push]
        obtain ⟨n, hn, hsame⟩ := Chain.hasSection_iff.mp (ih hold)
        exact ⟨n, List.mem_append_left _ hn, hsame⟩
    · rw [List.mem_singleton.mp hlast]
      split
      · assumption
      · rw [Chain.hasSection_iff, names_push]
        exact ⟨last, by simp [name_defaultSection], Text.sameName_refl last⟩

theorem distinctNames_addMissing (hdist : c.DistinctNames) :
    (addMissing cat c names).1.DistinctNames := by
  induction names using List.reverseRecOn with
  | nil => exact hdist
  | append_singleton names name ih =>
    rw [addMissing_concat]
    split
    · exact ih
    · rename_i hnew
      exact distinctNames_push ih (Bool.eq_false_iff.mpr hnew)

/-! ## Completing a chain -/

variable {f : Fixer} {named : List String}

theorem complete_fst (f : Fixer) (c : Chain) (named : List String) :
    (f.complete c named).1 = f.catalog.order.reorder
      (addMissing f.catalog c (f.catalog.order.missing c ++ named)).1 := rfl

/-- Completing adds one default section for each of some names that have none, and puts the sections
into order. -/
theorem complete_eq (f : Fixer) (c : Chain) (named : List String) :
    ∃ added : List String,
      (∀ n ∈ added, n ∈ f.catalog.order.missing c ++ named ∧ c.hasSection n = false) ∧
      (f.complete c named).1 = f.catalog.order.reorder
        { c with sections := c.sections ++ added.map (defaultSection f.catalog) } := by
  obtain ⟨added, hadded, heq⟩ :=
    addMissing_eq f.catalog c (f.catalog.order.missing c ++ named)
  exact ⟨added, hadded, by rw [complete_fst, heq]⟩

theorem distinctNames_reorder {o : Order} (hdist : c.DistinctNames) :
    (o.reorder c).DistinctNames :=
  hdist.of_perm (o.arrange_perm c.sections)

theorem distinctNames_complete (hdist : c.DistinctNames) :
    (f.complete c named).1.DistinctNames :=
  distinctNames_reorder (distinctNames_addMissing hdist)

theorem hasSection_reorder (o : Order) (c : Chain) (name : String) :
    (o.reorder c).hasSection name = c.hasSection name := by
  rw [Bool.eq_iff_iff, Chain.hasSection, Chain.hasSection, List.any_eq_true, List.any_eq_true]
  simp only [Order.mem_sections_reorder]

/-- After completion every name of the canonical order has a section. -/
theorem hasSection_complete {name : String} (hname : name ∈ f.catalog.order.names) :
    (f.complete c named).1.hasSection name = true := by
  rw [complete_fst, hasSection_reorder]
  by_cases hold : c.hasSection name = true
  · obtain ⟨added, -, heq⟩ :=
      addMissing_eq f.catalog c (f.catalog.order.missing c ++ named)
    rw [heq, Chain.hasSection, List.any_append, Bool.or_eq_true]
    exact .inl hold
  · refine hasSection_addMissing (List.mem_append_left _ (List.mem_filter.mpr ⟨hname, ?_⟩))
    rw [Bool.eq_false_iff.mpr hold]
    rfl

/-- Completing a chain for a name that has no section adds at least one section. -/
theorem complete_count_pos {name : String} (hname : name ∈ named)
    (hmissing : c.hasSection name = false) : 0 < (f.complete c named).2 := by
  obtain ⟨added, -, heq⟩ :=
    addMissing_eq f.catalog c (f.catalog.order.missing c ++ named)
  have hhas : (addMissing f.catalog c (f.catalog.order.missing c ++ named)).1.hasSection name :=
    hasSection_addMissing (List.mem_append_right _ hname)
  have hcount : (f.complete c named).2 = added.length := congrArg Prod.snd heq
  rw [hcount, List.length_pos_iff]
  rintro rfl
  rw [heq, List.map_nil, List.append_nil] at hhas
  exact absurd hhas (Bool.eq_false_iff.mp hmissing)

end BuildChain.Fixer
