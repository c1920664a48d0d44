import BuildChain.Proofs.Repair.Mending
import Mathlib.Data.List.Induction

/-!
# Runs of repairs

A run of repairs edits each section on its own and each version and flag on its own. Where all
repairs of a run that touch something leave the same there, the outcome is that value or, if none
touches it, the old one. Missing sections are added behind the others, each once.
-/

namespace BuildChain.Fixer

variable {f : Fixer} {c : Chain} {issues : List Issue}

/-! ## Repairing one issue after the other -/

/-- The chain after the repair of one issue was tried. -/
def mend (f : Fixer) (c : Chain) (i : Issue) : Chain := (f.repair? c i).getD c

theorem mend_eq (f : Fixer) (c : Chain) (i : Issue) :
    f.mend c i = ((f.repairs.get? i.ruleId).map fun r => r.after c i).getD c := by
  unfold mend repair?
  cases f.repairs.get? i.ruleId with
  | none => rfl
  | some r =>
    simp only [Option.map_some, Option.getD_some, Repair.after]
    cases r.apply c i with
    | error => rfl
    | ok o => cases o <;> rfl

theorem repairAll_concat (f : Fixer) (c : Chain) (issues : List Issue) (i : Issue) :
    f.repairAll c (issues ++ [i]) =
      match f.repair? (f.repairAll c issues).1 i with
      | some c' => (c', (f.repairAll c issues).2 + 1)
      | none => f.repairAll c issues := by
  rw [repairAll, List.foldl_append]
  rfl

theorem repairAll_fst (f : Fixer) (c : Chain) (issues : List Issue) :
    (f.repairAll c issues).1 = issues.foldl f.mend c := by
  induction issues using List.reverseRecOn with
  | nil => rfl
  | append_singleton issues i ih =>
    rw [repairAll_concat, List.foldl_append, List.foldl_cons, List.foldl_nil, ← ih, mend]
    cases f.repair? (f.repairAll c issues).1 i <;> rfl

/-- A run that repairs nothing finds nothing to repair and leaves the chain as it is. -/
theorem repairAll_of_count_eq_zero (h : (f.repairAll c issues).2 = 0) :
    (f.repairAll c issues).1 = c ∧ ∀ i ∈ issues, f.repair? c i = none := by
  induction issues using List.reverseRecOn with
  | nil => exact ⟨rfl, by simp⟩
  | append_singleton issues i ih =>
    rw [repairAll_concat] at h ⊢
    cases hi : f.repair? (f.repairAll c issues).1 i with
    | some c' => simp [hi] at h
    | none =>
      rw [hi] at h
      obtain ⟨hsame, hnone⟩ := ih h
      refine ⟨hsame, fun j hj => ?_⟩
      rcases List.mem_append.mp hj with hj | hj
      · exact hnone j hj
      · rw [List.mem_singleton.mp hj, ← hsame, hi]

/-! ## Sections of a run -/

/-- The section of a name after the repair of one issue was tried. -/
def mendSection (f : Fixer) (name : String) (s : Section) (i : Issue) : Section :=
  if i.concerns name = true then
    ((f.repairs.get? i.ruleId).map fun r => r.onSection s).getD s
  else s

/-- What the repair of an issue leaves at a property of the section of a name. -/
def leavesProperty? (f : Fixer) (name p : String) (i : Issue) : Option (Option String) :=
  if i.concerns name = true then
    (f.repairs.get? i.ruleId).bind fun r => r.leavesProperty? p
  else none

theorem name_mendSection (f : Fixer) (name : String) (s : Section) (i : Issue) :
    (f.mendSection name s i).name = s.name := by
  unfold mendSection
  split
  · cases f.repairs.get? i.ruleId with
    | none => rfl
    | some r => exact r.name_onSection s
  · rfl

theorem get?_mendSection (f : Fixer) (name : String) (s : Section) (i : Issue) (p : String) :
    (f.mendSection name s i).get? p = (f.leavesProperty? name p i).getD (s.get? p) := by
  unfold mendSection leavesProperty?
  split
  · cases f.repairs.get? i.ruleId with
    | none => rfl
    | some r => exact r.get?_onSection s p
  · rfl

theorem sections_mend (hdist : c.DistinctNames) (i : Issue) :
    (f.mend c i).sections = c.sections.map fun s => f.mendSection s.name s i := by
  rw [mend_eq]
  unfold mendSection
  cases f.repairs.get? i.ruleId with
  | none => simp
  | some r => exact r.sections_after hdist i

theorem names_mend (hdist : c.DistinctNames) (i : Issue) : (f.mend c i).names = c.names := by
  rw [Chain.names, sections_mend hdist, List.map_map]
  exact List.map_congr_left fun s _ => f.name_mendSection s.name s i

/-- A run edits every section by the repairs of the issues about it. -/
theorem sections_run (hdist : c.DistinctNames) (issues : List Issue) :
    (issues.foldl f.mend c).sections =
      c.sections.map fun s => issues.foldl (f.mendSection s.name) s := by
  induction issues generalizing c with
  | nil => simp
  | cons i issues ih =>
    have hnames : (f.mend c i).DistinctNames := by
      rw [Chain.DistinctNames, names_mend hdist]
      exact hdist
    rw [List.foldl_cons, ih hnames, sections_mend hdist, List.map_map]
    refine List.map_congr_left fun s _ => ?_
    rw [Function.comp_apply, name_mendSection, List.foldl_cons]

theorem name_run (f : Fixer) (name : String) (s : Section) (issues : List Issue) :
    (issues.foldl (f.mendSection name) s).name = s.name := by
  induction issues generalizing s with
  | nil => rfl
  | cons i issues ih => rw [List.foldl_cons, ih, name_mendSection]

/-! ## Outcomes -/

/-- A component whose every change leaves the same value has that value once it was changed. -/
theorem outcome_of_run {α ι β : Type} (step : α → ι → α) (view : α → β) {leaves : ι → Option β}
    {w : β} (l : List ι) (hstep : ∀ a, ∀ i ∈ l, view (step a i) = (leaves i).getD (view a))
    (hleaves : ∀ i ∈ l, leaves i = none ∨ leaves i = some w) (a : α) :
    (∃ i ∈ l, leaves i = some w) ∧ view (l.foldl step a) = w ∨
      (∀ i ∈ l, leaves i = none) ∧ view (l.foldl step a) = view a := by
  induction l using List.reverseRecOn with
  | nil => exact .inr ⟨by simp, rfl⟩
  | append_singleton l i ih =>
    have hview := hstep (l.foldl step a) i (by simp)
    rw [List.foldl_append, List.foldl_cons, List.foldl_nil, hview]
    -- The last issue decides if its repair touches the component; if not, the run before it does.
    rcases hleaves i (by simp) with hi | hi
    · rw [hi, Option.getD_none]
      rcases ih (fun b j hj => hstep b j (by simp [hj])) fun j hj => hleaves j (by simp [hj]) with
        ⟨⟨j, hj, hsome⟩, hw⟩ | ⟨hnone, hsame⟩
      · exact .inl ⟨⟨j, List.mem_append_left _ hj, hsome⟩, hw⟩
      · refine .inr ⟨fun j hj => ?_, hsame⟩
        rcases List.mem_append.mp hj with hj | hj
        · exact hnone j hj
        · rw [List.mem_singleton.mp hj, hi]
    · exact .inl ⟨⟨i, by simp, hi⟩, by rw [hi, Option.getD_some]⟩

end BuildChain.Fixer
