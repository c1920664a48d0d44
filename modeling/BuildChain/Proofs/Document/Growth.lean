import BuildChain.Proofs.Document.Upsert
import Mathlib.Data.Fin.Tuple.Basic
import Mathlib.Order.Fin.Basic

/-!
# Documents that grow

A document grows when each of its lines stays, in its order and in a form that is allowed for it,
and other lines come in between. What is allowed is left open: an edit of one line, the insertion of
a block and a change to all lines each ask for one fact about lines.
-/

namespace BuildChain.Document

/-- Each line of the first document has its line in the second one, in the same order. The other
lines of the second one are new. -/
inductive Grows (kept : String → String → Prop) (added : String → Prop) : Document → Document → Prop
  | nil : Grows kept added [] []
  | keep {l l' : String} {doc doc' : Document} (hl : kept l l') (h : Grows kept added doc doc') :
      Grows kept added (l :: doc) (l' :: doc')
  | add {l : String} {doc doc' : Document} (hl : added l) (h : Grows kept added doc doc') :
      Grows kept added doc (l :: doc')

namespace Grows

variable {kept : String → String → Prop} {added : String → Prop} {doc doc' : Document}

theorem refl (h : ∀ l, kept l l) (doc : Document) : Grows kept added doc doc := by
  induction doc with
  | nil => exact .nil
  | cons l doc ih => exact .keep (h l) ih

/-- The lines of the first document are found in the second one by an increasing map, and what the
map does not reach is new. -/
theorem exists_strictMono (h : Grows kept added doc doc') :
    ∃ f : Fin doc.length → Fin doc'.length, StrictMono f ∧
      (∀ i, kept (doc.get i) (doc'.get (f i))) ∧ ∀ j, j ∉ Set.range f → added (doc'.get j) := by
  induction h with
  | nil => exact ⟨id, strictMono_id, fun i => i.elim0, fun j => j.elim0⟩
  | @keep l l' doc doc' hl _ ih =>
    obtain ⟨f, hmono, hkept, hadded⟩ := ih
    refine ⟨Fin.cons 0 fun i => (f i).succ, ?_, ?_, ?_⟩
    · intro i j hij
      induction j using Fin.cases with
      | zero => exact absurd hij (Fin.not_lt_zero i)
      | succ j =>
        induction i using Fin.cases with
        | zero => exact Fin.succ_pos (f j)
        | succ i => exact Fin.succ_lt_succ_iff.mpr (hmono (Fin.succ_lt_succ_iff.mp hij))
    · intro i
      induction i using Fin.cases with
      | zero => exact hl
      | succ i => exact hkept i
    · intro j hj
      induction j using Fin.cases with
      | zero => exact absurd ⟨0, rfl⟩ hj
      | succ j =>
        refine hadded j ?_
        rintro ⟨i, rfl⟩
        exact hj ⟨i.succ, rfl⟩
  | @add l doc doc' hl _ ih =>
    obtain ⟨f, hmono, hkept, hadded⟩ := ih
    refine ⟨fun i => (f i).succ, fun i j hij => Fin.succ_lt_succ_iff.mpr (hmono hij), hkept, ?_⟩
    intro j hj
    induction j using Fin.cases with
    | zero => exact hl
    | succ j =>
      refine hadded j ?_
      rintro ⟨i, rfl⟩
      exact hj ⟨i, rfl⟩

theorem append_added (h : Grows kept added doc doc') {block : List String}
    (hblock : ∀ l ∈ block, added l) : Grows kept added doc (block ++ doc') := by
  induction block with
  | nil => exact h
  | cons l block ih =>
    exact .add (hblock l (by simp)) (ih fun m hm => hblock m (List.mem_cons_of_mem l hm))

/-- Whatever a document has grown to, lines may be put in anywhere. -/
theorem insert {a b block : List String} (h : Grows kept added doc (a ++ b))
    (hblock : ∀ l ∈ block, added l) : Grows kept added doc (a ++ block ++ b) := by
  induction a generalizing doc with
  | nil => exact h.append_added hblock
  | cons l a ih =>
    cases h with
    | keep hl h => exact .keep hl (ih h)
    | add hl h => exact .add hl (ih h)

theorem inserts (h : Grows kept added doc doc') {block : List String} {doc'' : Document}
    (hins : Inserts doc' block doc'') (hblock : ∀ l ∈ block, added l) (hempty : added "") :
    Grows kept added doc doc'' := by
  obtain ⟨a, b, pre, post, rfl, rfl, hgap, -⟩ := hins
  refine h.insert fun l hl => ?_
  simp only [List.mem_append] at hl hgap
  rcases hl with (hl | hl) | hl
  · exact hgap l (.inl hl) ▸ hempty
  · exact hblock l hl
  · exact hgap l (.inr hl) ▸ hempty

/-- One line may change if it stays allowed for whatever it comes from. -/
theorem modify {a b : List String} {l l' : String} (h : Grows kept added doc (a ++ l :: b))
    (hkept : ∀ m, kept m l → kept m l') (hadded : added l → added l') :
    Grows kept added doc (a ++ l' :: b) := by
  induction a generalizing doc with
  | nil =>
    cases h with
    | keep hl h => exact .keep (hkept _ hl) h
    | add hl h => exact .add (hadded hl) h
  | cons m a ih =>
    cases h with
    | keep hm h => exact .keep hm (ih h)
    | add hm h => exact .add hm (ih h)

theorem map {kept' : String → String → Prop} {added' : String → Prop} {f : String → String}
    (h : Grows kept added doc doc') (hkept : ∀ l l', kept l l' → kept' l (f l'))
    (hadded : ∀ l, added l → added' (f l)) : Grows kept' added' doc (doc'.map f) := by
  induction h with
  | nil => exact .nil
  | keep hl _ ih => exact .keep (hkept _ _ hl) ih
  | add hl _ ih => exact .add (hadded _ hl) ih

end Grows

end BuildChain.Document
