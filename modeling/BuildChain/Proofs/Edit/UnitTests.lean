import BuildChain.Proofs.Edit
import BuildChain.Proofs.Repair.Saving

/-!
# The unit test toggle

The toggle writes a literal where a section is not yet as it should be. Whether it is, is judged by
a reading that takes every text but `true` for off. So unit tests that are switched on are on as a
literal, while those that are switched off keep the text they had unless it was blank or a literal.
-/

namespace BuildChain

open Chain (ofText)

/-- The section has no text for its unit tests, or an empty one, or one of the two literals. -/
def Section.PlainUnitTests (s : Section) : Prop :=
  ∀ v, s.get? Property.testsUnit = some v → v ∈ ["", "true", "false"]

/-- The values of a chain that is read are trimmed. -/
theorem Chain.trim_of_mem_ofText {text : String} {s : Section} (hs : s ∈ (ofText text).sections)
    {suffix v : String} (hget : s.get? suffix = some v) : Text.trim v = v := by
  have hname : s.isNamed s.name = true := Text.sameName_refl s.name
  have hheld : (ofText text).held? (.property s.name suffix) = some v := by
    rw [held?, get?_of_mem (distinctNames_ofText text) hs hname, hget]
  exact (onLines_ofText text _ v hheld).trim

namespace Edit

variable {s : Section} {enabled : Bool}

/-! ## One section -/

theorem changed_setTestsUnit (enabled : Bool) (s : Section) :
    changed (setTestsUnit enabled) s =
      if s.has Property.testsUnit && s.testsUnit == enabled then s else s.setTestsUnit enabled := by
  unfold changed setTestsUnit
  split <;> rfl

/-- When the toggle finds nothing to do: there is a text, and whether it is `true` is what is asked
for. -/
theorem nothing_to_toggle_iff
    (htrim : ∀ v, s.get? Property.testsUnit = some v → Text.trim v = v) :
    (s.has Property.testsUnit && s.testsUnit == enabled) = true ↔
      ∃ v, s.get? Property.testsUnit = some v ∧ v ≠ "" ∧ (v = "true" ↔ enabled = true) := by
  cases hget : s.get? Property.testsUnit with
  | none => simp [Section.has_of_get?_none hget]
  | some v =>
    have hhas : s.has Property.testsUnit = !Text.isBlank v := by
      rw [Section.has, Section.nonBlank?, hget, Option.filter_some]
      cases Text.isBlank v <;> rfl
    have htests : s.testsUnit = decide (v = "true") := by
      rw [Section.testsUnit, hget]
      dsimp only
      rw [htrim v hget]
    have hne : (!Text.isBlank v) = true ↔ v ≠ "" := by
      rw [Bool.not_eq_true', ← Bool.not_eq_true, Text.isBlank_iff, ← Text.toList_trim,
        htrim v hget, ← String.toList_inj.ne]
      rfl
    have hon : (decide (v = "true") == enabled) = true ↔ (v = "true" ↔ enabled = true) := by
      rw [beq_iff_eq]
      cases enabled <;> simp
    rw [hhas, htests, Bool.and_eq_true, hne, hon]
    simp

/-- A trimmed text becomes the literal when unit tests are switched on, or if it was blank or a
literal; any other text stays. -/
theorem literal_changed_iff
    (htrim : ∀ v, s.get? Property.testsUnit = some v → Text.trim v = v) (enabled : Bool) :
    ((changed (setTestsUnit enabled) s).get? Property.testsUnit = some (flagText enabled) ↔
        enabled = true ∨ s.PlainUnitTests) ∧
      (¬(enabled = true ∨ s.PlainUnitTests) → changed (setTestsUnit enabled) s = s) := by
  rw [changed_setTestsUnit]
  split
  · rename_i hdone
    refine ⟨?_, fun _ => rfl⟩
    -- the text is not blank, so switched off it stays, and is the literal only if it was
    obtain ⟨v, hget, hne, hon⟩ := (nothing_to_toggle_iff htrim).mp hdone
    rw [Section.PlainUnitTests, hget]
    simp only [Option.some.injEq, forall_eq', List.mem_cons, List.not_mem_nil, or_false, hne,
      false_or]
    cases enabled with
    | true =>
      rw [hon.mpr rfl]
      simp [flagText]
    | false =>
      have hoff : v ≠ "true" := fun htrue => Bool.false_ne_true (hon.mp htrue)
      simp [hoff, flagText]
  · rename_i hopen
    rw [nothing_to_toggle_iff htrim] at hopen
    have hplain : enabled = true ∨ s.PlainUnitTests := by
      cases enabled with
      | true => exact .inl rfl
      | false =>
        refine .inr fun v hget => ?_
        by_contra hmem
        simp only [List.mem_cons, List.not_mem_nil, or_false, not_or] at hmem
        exact hopen ⟨v, hget, hmem.1, by simp [hmem.2.1]⟩
    refine ⟨iff_of_true ?_ hplain, fun h => absurd hplain h⟩
    rw [Section.setTestsUnit, Section.get?_set, if_pos rfl]

/-! ## The sections of a text -/

/-- When the unit tests of some sections that a text has are switched, each of them has the literal
that was asked for exactly if it was switched on or had a plain text; otherwise it is not changed
at all. -/
theorem literal_unitTests_iff {text : String} {names : List String}
    (h : ∀ name ∈ names, (ofText text).hasSection name = true) (enabled : Bool) :
    ∃ c n, unitTests (ofText text) names enabled = .ok (c, n) ∧
      List.Forall₂ (fun s s' => (∃ name ∈ names, Text.sameName s.name name = true) →
        (s'.get? Property.testsUnit = some (flagText enabled) ↔
          enabled = true ∨ s.PlainUnitTests) ∧
        (¬(enabled = true ∨ s.PlainUnitTests) → s' = s)) (ofText text).sections c.sections := by
  refine ⟨_, _, sections_of_all h, ?_⟩
  rw [List.forall₂_map_right_iff, List.forall₂_same]
  intro s hs hnamed
  rw [changedAmong, if_pos (isAmong_iff.mpr hnamed)]
  exact literal_changed_iff (fun _ hget => Chain.trim_of_mem_ofText hs hget) enabled

/-- One of the sections has a plain text and the other one has not. -/
theorem literal_unitTests_iff_mixed_case :
    (∀ name ∈ ["A", "b"],
        (ofText "a.tests.unit = TRUE \nB.mode=source\nb.tests.unit=true").hasSection name = true) ∧
      ∃ c n,
        unitTests (ofText "a.tests.unit = TRUE \nB.mode=source\nb.tests.unit=true") ["A", "b"]
          false = .ok (c, n) ∧
        List.Forall₂ (fun s s' => (∃ name ∈ ["A", "b"], Text.sameName s.name name = true) →
          (s'.get? Property.testsUnit = some (flagText false) ↔
            false = true ∨ s.PlainUnitTests) ∧
          (¬(false = true ∨ s.PlainUnitTests) → s' = s))
          (ofText "a.tests.unit = TRUE \nB.mode=source\nb.tests.unit=true").sections c.sections :=
  have h : ∀ name ∈ ["A", "b"],
      (ofText "a.tests.unit = TRUE \nB.mode=source\nb.tests.unit=true").hasSection name = true := by
    decide +kernel
  ⟨h, literal_unitTests_iff h false⟩

/-- Switched off, unit tests that read `TRUE` stay what they are, and nothing is counted. -/
theorem not_literal_unitTests_upper_case :
    unitTests (ofText "a.tests.unit=TRUE") ["a"] false = .ok (ofText "a.tests.unit=TRUE", 0) ∧
      (ofText "a.tests.unit=TRUE").get? "a" Property.testsUnit = some "TRUE" ∧
      flagText false = "false" := by
  decide +kernel

end Edit

end BuildChain
