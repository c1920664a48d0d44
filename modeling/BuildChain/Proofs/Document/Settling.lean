import BuildChain.Proofs.Document.Steps

/-!
# Settling the settings of a chain

While a chain is written onto a document, each setting that is written is in force from then on: the
writes after it go to other keys. For this no two keys that are written, and no two keys on lines,
may differ in case only, and a line that a written key falls on has to lead to the same place.
-/

namespace BuildChain

namespace Document

/-- No two lines, active or not, have keys that differ in case only. -/
def OneSpelling (as : List Assignment) : Prop :=
  ∀ x ∈ as, ∀ y ∈ as, Text.sameName x.key y.key = true → x.key = y.key

/-- Whenever a line has the key of an entry, whatever the case, it leads to the same place. -/
def SamePlaces (entries : List (String × String)) (as : List Assignment) : Prop :=
  ∀ e ∈ entries, ∀ x ∈ as, Text.sameName x.key e.1 = true →
    (Route.ofKey x.key).samePlace (Route.ofKey e.1) = true

instance (as : List Assignment) : Decidable (OneSpelling as) :=
  inferInstanceAs (Decidable (∀ x ∈ as, ∀ y ∈ as, Text.sameName x.key y.key = true → x.key = y.key))

instance (entries : List (String × String)) (as : List Assignment) :
    Decidable (SamePlaces entries as) :=
  inferInstanceAs (Decidable (∀ e ∈ entries, ∀ x ∈ as, Text.sameName x.key e.1 = true →
    (Route.ofKey x.key).samePlace (Route.ofKey e.1) = true))

/-- The assignments when some entries of a list have been written. -/
structure Settling (all done : List (String × String)) (as : List Assignment) : Prop where
  spelling : OneSpelling as
  places : SamePlaces all as
  settled : ∀ e ∈ done, ∃ k, Text.sameName k e.1 = true ∧ inForce? as e.1 = some ⟨k, e.2, true⟩

/-- Each entry is in force, under its key in some case. -/
def InForce (done : List (String × String)) (as : List Assignment) : Prop :=
  ∀ e ∈ done, ∃ k, Text.sameName k e.1 = true ∧ inForce? as e.1 = some ⟨k, e.2, true⟩

/-! ## One write -/

variable {all done : List (String × String)} {as as' : List Assignment}

theorem SamePlaces.upserts (h : SamePlaces all as) (hall : DistinctKeys all)
    {e : String × String} (he : e ∈ all) (hstep : Upserts e.1 e.2 as as') :
    SamePlaces all as' := by
  intro e' he' x hx hsame
  rcases hstep.key_mem hx with ⟨x', hx', hxkey⟩ | ⟨hxkey, -⟩
  · rw [← hxkey] at hsame ⊢
    exact h e' he' x' hx' hsame
  · rw [hxkey] at hsame ⊢
    rw [hall.eq_of_same he he' hsame, Route.samePlace_refl]

theorem InForce.upserts (h : InForce done as) (hall : DistinctKeys all) {e : String × String}
    (hpre : done ++ [e] <+: all) (hstep : Upserts e.1 e.2 as as') : InForce (done ++ [e]) as' := by
  intro e' he'
  rcases List.mem_append.mp he' with he' | he'
  · obtain ⟨k, hk, hforce⟩ := h e' he'
    exact ⟨k, hk, by rw [hstep.inForce?_of_not_same (hall.not_same_of_done hpre he'), hforce]⟩
  · rw [List.mem_singleton] at he'
    subst he'
    exact hstep.inForce?_self

theorem Settling.upserts (h : Settling all done as) (hall : DistinctKeys all)
    {e : String × String} (hpre : done ++ [e] <+: all) (hstep : Upserts e.1 e.2 as as') :
    Settling all (done ++ [e]) as' := by
  constructor
  case spelling =>
    intro x hx y hy hsame
    rcases hstep.key_mem hx with ⟨x', hx', hxkey⟩ | ⟨hxkey, hxnew⟩ <;>
      rcases hstep.key_mem hy with ⟨y', hy', hykey⟩ | ⟨hykey, hynew⟩
    · rw [← hxkey, ← hykey] at hsame ⊢
      exact h.spelling x' hx' y' hy' hsame
    · rw [← hxkey, hykey, hynew x' hx'] at hsame
      cases hsame
    · rw [Text.sameName_comm, ← hykey, hxkey, hxnew y' hy'] at hsame
      cases hsame
    · rw [hxkey, hykey]
  case places => exact h.places.upserts hall (hpre.subset (by simp)) hstep
  case settled => exact InForce.upserts h.settled hall hpre hstep

/-! ## When all is written -/

/-- Every entry is the setting of one key, and no other line has that key in another case. -/
theorem Settling.get? (h : Settling all all as) {e : String × String} (he : e ∈ all) :
    ∃ k, (settings as).get? k = some e.2 ∧
      (Route.ofKey k).samePlace (Route.ofKey e.1) = true ∧
      ∀ x ∈ as, Text.sameName x.key e.1 = true → x.key = k := by
  obtain ⟨k, hk, hforce⟩ := h.settled e he
  have hmem := (inForce?_mem hforce).1
  have hunique : ∀ x ∈ as, Text.sameName x.key e.1 = true → x.key = k := by
    intro x hx hsame
    rw [Text.sameName_comm] at hk
    exact h.spelling x hx _ hmem (Text.sameName_trans hsame hk)
  refine ⟨k, ?_, h.places e he _ hmem hk, hunique⟩
  have hspelled : ∀ x ∈ as, x.active = true → Text.sameName x.key k = true → x.key = k :=
    fun x hx _ hsame => hunique x hx (Text.sameName_trans hsame hk)
  rw [get?_settings_of_spelled hspelled, inForce?_congr as hk, hforce]
  rfl

end Document

end BuildChain
