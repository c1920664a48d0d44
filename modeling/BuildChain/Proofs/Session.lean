import BuildChain.Proofs.Chain.Unambiguous
import BuildChain.Proofs.Edit
import BuildChain.Proofs.Request
import BuildChain.Release
import BuildChain.Workbench

/-!
# Sessions on one chain

A session opens with a chain that is read or generated and goes on with fixes, edits and repairs in
any order. No step spoils an unambiguous chain: none renames a section, and sections and flags are
added only where there is none.
-/

namespace BuildChain

open Chain (Unambiguous)

variable {c c' : Chain}

theorem ChainRequest.unambiguous_chain {r : ChainRequest} {o : Order} (h : r.chain o = .ok c) :
    c.Unambiguous := by
  obtain ⟨featureBranch, -, hdist, -, rfl⟩ := chain_ok h
  have hdraft : (r.draft featureBranch).Unambiguous :=
    ⟨hdist, fun _ _ => List.not_mem_nil, fun _ he => nomatch he⟩
  exact hdraft.reorder o

/-! ## Edits -/

namespace Edit

variable {names : List String} {n : Nat}

/-- An edit changes the sections one by one, and a change that has a goal renames none. -/
theorem Achieves.unambiguous_sections {change : Change} {goal : Section → Prop}
    {touched : List String} (hgoal : Achieves change goal touched)
    (h : sections c names change = .ok (c', n)) (hc : c.Unambiguous) : c'.Unambiguous := by
  unfold sections at h
  split at h
  · cases h
  · cases h
    exact hc.mapSections (hgoal.name_changedAmong names)

theorem Update.unambiguous_apply {u : Update} (h : u.apply c names = .ok (c', n))
    (hc : c.Unambiguous) : c'.Unambiguous := by
  rw [apply_eq] at h
  rcases u.toChange_cases with ⟨-, change, hchange, hgoal⟩ | ⟨-, e, hchange⟩
  · rw [hchange] at h
    exact hgoal.unambiguous_sections h hc
  · rw [hchange] at h
    cases h

end Edit

theorem Release.unambiguous_rebase (hc : c.Unambiguous) (build : Nat) :
    (rebase c build).1.Unambiguous := by
  refine (hc.mapSections (f := rebaseSection build) fun s => ?_).of_names_eq rfl rfl rfl
  unfold rebaseSection
  cases rebasedTag? build s <;> rfl

/-! ## Repairs -/

theorem Repair.unambiguous_after (hc : c.Unambiguous) (r : Repair) (i : Issue) :
    (r.after c i).Unambiguous := by
  have hedit (edit : Section → Section) (hname : ∀ s, (edit s).name = s.name) :
      ((i.sectionName.map fun name => c.modifySection name edit).getD c).Unambiguous := by
    cases i.sectionName with
    | none => exact hc
    | some name => exact hc.modifySection name hname
  cases r with
  | setProperty suffix value =>
    rw [after_setProperty]
    exact hedit _ fun _ => rfl
  | removeProperty suffix =>
    rw [after_removeProperty]
    exact hedit _ fun _ => rfl
  | setGlobal key value =>
    rw [after_of_setVersion rfl]
    exact hc.of_names_eq rfl rfl rfl
  | resetVersion version devVersion =>
    rw [after_resetVersion]
    cases i.target with
    | none => exact hc
    | some key => exact hc.of_names_eq rfl rfl rfl
  | fillDevVersion fallback =>
    rw [after_fillDevVersion, filled]
    split
    · exact hc
    · exact hc.of_names_eq rfl rfl rfl
  | setFlag enabled =>
    rw [after_setFlag]
    cases i.target with
    | none => exact hc
    | some suite => exact hc.setFlag suite enabled

namespace Fixer

variable (f : Fixer)

theorem unambiguous_repairAll (hc : c.Unambiguous) (issues : List Issue) :
    (f.repairAll c issues).1.Unambiguous := by
  rw [repairAll_fst]
  induction issues generalizing c with
  | nil => exact hc
  | cons i issues ih =>
    apply ih
    rw [mend_eq]
    cases f.repairs.get? i.ruleId with
    | none => exact hc
    | some r => exact r.unambiguous_after hc i

/-- Sections are added only for names that no section has by then, even if the names that are asked
for or those of the order repeat one another. -/
theorem unambiguous_complete (hc : c.Unambiguous) (named : List String) :
    (f.complete c named).1.Unambiguous := by
  have hdist : (addMissing f.catalog c (f.catalog.order.missing c ++ named)).1.DistinctNames :=
    distinctNames_addMissing hc.names
  obtain ⟨added, -, heq⟩ := addMissing_eq f.catalog c (f.catalog.order.missing c ++ named)
  rw [complete_fst]
  rw [heq] at hdist ⊢
  exact Unambiguous.reorder ⟨hdist, hc.suites, hc.texts⟩ f.catalog.order

theorem unambiguous_applyFixes (hc : c.Unambiguous) (issues : List Issue) :
    (f.applyFixes c issues).1.Unambiguous := by
  have hrepaired := f.unambiguous_repairAll hc
    ((issues.filter Issue.fixable).filter fun i => !f.asksForSection i)
  unfold applyFixes
  dsimp only
  split
  · exact hrepaired
  · exact f.unambiguous_complete hrepaired _

theorem unambiguous_passes (hc : c.Unambiguous) (v : Validator) (n : Nat) :
    (f.passes v n c).1.Unambiguous := by
  induction n generalizing c with
  | zero => exact hc
  | succ n ih =>
    have hpass := f.unambiguous_applyFixes hc (v.validate c).fixableErrors
    rw [passes]
    dsimp only
    split
    · exact hpass
    · exact ih hpass

end Fixer

/-! ## Sessions -/

/-- What can be done to a chain. -/
inductive Action
  | fixAll
  | applyFixes (issues : List Issue)
  | reorder
  | setBranch (names : List String) (branch : String)
  | setMode (names : List String) (mode : String)
  | setDevMode (names : List String) (mode : String)
  | setUnitTests (names : List String) (enabled : Bool)
  | setSuite (suite : String) (enabled : Bool)
  | rebase (build : Nat)

namespace Workbench

variable (b : Workbench)

/-- The chain after an edit, which a failure leaves as it was. -/
def edited (c : Chain) (e : Except EditError (Chain × Nat)) : Chain :=
  match e with
  | .ok (c', _) => c'
  | .error _ => c

/-- The chain after an action. -/
def perform (c : Chain) : Action → Chain
  | .fixAll => (b.fixAll c).1
  | .applyFixes issues => (b.applyFixes c issues).1
  | .reorder => b.order.reorder c
  | .setBranch names branch => edited c (Edit.branch c names branch)
  | .setMode names mode => edited c (Edit.mode c names mode)
  | .setDevMode names mode => edited c (Edit.devMode c names mode)
  | .setUnitTests names enabled => edited c (Edit.unitTests c names enabled)
  | .setSuite suite enabled => Edit.suite c suite enabled
  | .rebase build => (Release.rebase c build).1

/-- A session opens with a chain that is read from a text or made from a request. -/
inductive Opens : Chain → Prop
  | read (text : String) : Opens (Chain.ofText text)
  | generated {r : ChainRequest} {c : Chain} (h : r.chain b.order = .ok c) : Opens c

theorem unambiguous_edited (hc : c.Unambiguous) (u : Edit.Update) (names : List String) :
    (edited c (u.apply c names)).Unambiguous := by
  cases h : u.apply c names with
  | error e => exact hc
  | ok e => exact Edit.Update.unambiguous_apply h hc

theorem unambiguous_perform (hc : c.Unambiguous) (a : Action) :
    (b.perform c a).Unambiguous := by
  cases a with
  | fixAll => exact (b.fixer.unambiguous_passes hc b.validator Fixer.maxPasses).reorder _
  | applyFixes issues => exact b.fixer.unambiguous_applyFixes hc issues
  | reorder => exact hc.reorder b.order
  | setBranch names branch => exact unambiguous_edited hc (.branch branch) names
  | setMode names mode => exact unambiguous_edited hc (.mode mode) names
  | setDevMode names mode => exact unambiguous_edited hc (.devMode mode) names
  | setUnitTests names enabled => exact unambiguous_edited hc (.unitTests enabled) names
  | setSuite suite enabled => exact hc.setFlag (Text.trim suite) enabled
  | rebase build => exact Release.unambiguous_rebase hc build

variable {b}

theorem Opens.unambiguous (h : b.Opens c) : c.Unambiguous := by
  cases h with
  | read text => exact Chain.unambiguous_ofText text
  | generated h => exact ChainRequest.unambiguous_chain h

/-- Whatever is done to a chain in a session, and however often, it stays unambiguous. -/
theorem unambiguous_session (h : b.Opens c) (actions : List Action) :
    (actions.foldl b.perform c).Unambiguous := by
  have hopen := h.unambiguous
  clear h
  induction actions generalizing c with
  | nil => exact hopen
  | cons a actions ih => exact ih (b.unambiguous_perform hopen a)

/-- Both spellings of a name in the text are one section, and the section that is asked for under a
third one is there already; the text that was kept for the suite goes when its flag is set. -/
theorem unambiguous_session_mixed_case :
    let b := ofRuleSet { catalog := { order := ⟨["a", "A"]⟩ }, rules := [] } none
    let c := Chain.ofText "ab.mode=source\nAb.branch=main\ntests.smoke.run=odd"
    let id := Rule.StandardId.requiredProjects.text
    let actions : List Action := [.applyFixes [⟨id, "", .error, some "AB", none, true, none⟩],
      .setSuite " smoke " true]
    b.Opens c ∧ (actions.foldl b.perform c).Unambiguous ∧
      (actions.foldl b.perform c).names = ["a", "ab"] :=
  ⟨.read _, unambiguous_session (.read _) _, by decide +kernel⟩

end Workbench

end BuildChain
