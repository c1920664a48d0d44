import BuildChain.Proofs.Chain.Agreement
import BuildChain.Proofs.Document.Settings

/-!
# One assignment after the other

Seen from the assignments on the lines, writing a chain onto a document is a run of single writes: a
section that is inserted brings in its settings as if they were written one by one.
-/

namespace BuildChain.Document

open Assignment (IsKey)

/-! ## Entries with distinct keys -/

/-- No two entries have keys that differ in case at most. -/
def DistinctKeys (entries : List (String × String)) : Prop :=
  entries.Pairwise fun e e' => Text.sameName e.1 e'.1 = false

instance (entries : List (String × String)) : Decidable (DistinctKeys entries) :=
  inferInstanceAs (Decidable (entries.Pairwise fun e e' => Text.sameName e.1 e'.1 = false))

theorem DistinctKeys.eq_of_same {es : List (String × String)} (h : DistinctKeys es)
    {e e' : String × String} (he : e ∈ es) (he' : e' ∈ es)
    (hsame : Text.sameName e.1 e'.1 = true) : e = e' :=
  Text.eq_of_sameName h he he' hsame

theorem DistinctKeys.not_same_of_done {es done : List (String × String)} (h : DistinctKeys es)
    {e : String × String} (hpre : done ++ [e] <+: es) {e' : String × String} (he' : e' ∈ done) :
    Text.sameName e.1 e'.1 = false := by
  have hpart : DistinctKeys (done ++ [e]) := h.sublist hpre.sublist
  rw [Text.sameName_comm]
  exact (List.pairwise_append.mp hpart).2.2 e' he' e (by simp)

/-! ## New lines -/

/-- The active assignment of an entry. -/
def assigned (e : String × String) : Assignment := ⟨e.1, e.2, true⟩

/-- Entries that make one line each. -/
def MakeLines (entries : List (String × String)) : Prop :=
  ∀ e ∈ entries, IsKey e.1 ∧ '\n' ∉ e.1.toList ∧ '\n' ∉ e.2.toList

theorem assignments_sectionBlock {s : Section} (h : MakeLines (sectionWrites s)) :
    assignments (sectionBlock s) = (sectionWrites s).map assigned := by
  rw [assignments, sectionBlock_eq, List.filterMap_map, ← List.filterMap_eq_map]
  refine List.filterMap_congr fun e he => ?_
  obtain ⟨suffix, raw, -, -, -, hvalue⟩ := mem_sectionWrites.mp he
  refine Assignment.ofLine?_assign_self (h e he).1 ?_
  rw [hvalue, Text.trim_trim]

/-! ## A run of writes -/

variable {P : List (String × String) → List Assignment → Prop} {all done : List (String × String)}

/-- What one write keeps, a block of new entries keeps. -/
theorem adds_block {block : List (String × String)} {a b : List Assignment}
    (hstep : ∀ done e as as', done ++ [e] <+: all → Upserts e.1 e.2 as as' → P done as →
      P (done ++ [e]) as')
    (hpre : done ++ block <+: all) (hblock : DistinctKeys block)
    (hnew : ∀ e ∈ block, ∀ y ∈ a ++ b, Text.sameName y.key e.1 = false)
    (h : P done (a ++ b)) : P (done ++ block) (a ++ block.map assigned ++ b) := by
  induction block using List.reverseRecOn with
  | nil => simpa using h
  | append_singleton block e ih =>
    rw [← List.append_assoc] at hpre
    obtain ⟨hinit, -, hlast⟩ := List.pairwise_append.mp hblock
    have hdone := ih ((List.prefix_append _ _).trans hpre) hinit fun e' he' =>
      hnew e' (List.mem_append_left _ he')
    have hnone : ∀ y ∈ (a ++ block.map assigned) ++ b, Text.sameName y.key e.1 = false := by
      intro y hy
      rcases List.mem_append.mp hy with hy | hy
      · rcases List.mem_append.mp hy with hy | hy
        · exact hnew e (by simp) y (List.mem_append_left _ hy)
        · obtain ⟨e', he', rfl⟩ := List.mem_map.mp hy
          exact hlast e' he' e (by simp)
      · exact hnew e (by simp) y (List.mem_append_right _ hy)
    have hadd := hstep _ e _ _ hpre (Upserts.add (a ++ block.map assigned) b hnone) hdone
    have hsplit : a ++ (block ++ [e]).map assigned ++ b =
        a ++ block.map assigned ++ assigned e :: b := by
      simp
    rw [← List.append_assoc, hsplit]
    exact hadd

/-- What a write and the lines of a new section keep of the assignments holds of them when the whole
chain is written. -/
theorem update_assignments (o : Order) {c : Chain} {doc : Document} (hdoc : doc.Unbroken)
    (hlines : MakeLines (writes c)) (h0 : P [] doc.assignments)
    (hstep : ∀ done e as as', done ++ [e] <+: writes c → Upserts e.1 e.2 as as' → P done as →
      P (done ++ [e]) as')
    (hsection : ∀ done s a b, s ∈ c.sections → done ++ sectionWrites s <+: writes c →
      (∀ x ∈ a ++ b, ∀ p, (Route.ofKey x.key).samePlace (.property s.name p) = false) →
      P done (a ++ b) →
      P (done ++ sectionWrites s) (a ++ (sectionWrites s).map assigned ++ b)) :
    ∃ d : Document, update o c doc = d.map (retire c) ∧ d.Unbroken ∧
      P (writes c) d.assignments := by
  refine update_induction (fun done d => d.Unbroken ∧ P done d.assignments) o c ⟨hdoc, h0⟩ ?_ ?_
  · rintro done ⟨key, value⟩ d place hpre hplace ⟨hunbroken, hinv⟩
    have hmem : (key, value) ∈ writes c := hpre.subset (by simp)
    obtain ⟨hk, hkey, hvalue⟩ := hlines _ hmem
    refine ⟨hunbroken.upsert hkey hvalue hplace, ?_⟩
    exact hstep done _ _ _ hpre
      (upserts_upsert d hk (trim_of_writes (mem_writes.mp hmem)) hplace) hinv
  · rintro done s d hs hpre hhas ⟨hunbroken, hinv⟩
    have hblock : MakeLines (sectionWrites s) := fun e he =>
      hlines e (hpre.subset (List.mem_append_right _ he))
    refine ⟨hunbroken.insertSection o fun e he => (hblock e he).2, ?_⟩
    obtain ⟨a, b, hd, hd'⟩ := (inserts_insertSection o d s).assignments
    have hread : (sectionBlock s).filterMap Assignment.ofLine? =
        (sectionWrites s).map assigned := assignments_sectionBlock hblock
    rw [hd', hread]
    refine hsection done s a b hs hpre (fun x hx p => ?_) (hd ▸ hinv)
    rw [← Bool.not_eq_true, Route.samePlace_property, Route.leadsTo_iff]
    rintro ⟨n, hroute, hname⟩
    rw [hasSection_iff.mpr ⟨x, hd ▸ hx, n, p, hroute, hname⟩] at hhas
    cases hhas

end BuildChain.Document
