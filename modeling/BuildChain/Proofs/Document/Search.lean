import BuildChain.Document
import BuildChain.Proofs.Line
import Mathlib.Data.List.Induction

/-!
# Finding the line of a key

The search for a key settles on the last active line that names it, whatever the case, and else on
the last one that is commented out. When it finds nothing, no line names the key.
-/

namespace BuildChain.Document

/-! ## The last line with a property -/

theorem lastWhere?_concat (p : String → Bool) (doc : Document) (l : String) :
    lastWhere? p (doc ++ [l]) = if p l = true then some doc.length else lastWhere? p doc := by
  have hzip : (doc ++ [l]).zipIdx = doc.zipIdx ++ [(l, doc.length)] := by
    simp [List.zipIdx_append]
  rw [lastWhere?, indicesWhere, hzip, List.filter_append, List.map_append]
  by_cases hp : p l = true
  · simp [hp]
  · simp [hp, lastWhere?, indicesWhere]

theorem lastWhere?_eq_some {p : String → Bool} {doc : Document} {i : Nat}
    (h : lastWhere? p doc = some i) :
    ∃ a l b, doc = a ++ l :: b ∧ a.length = i ∧ p l = true ∧ ∀ m ∈ b, p m = false := by
  induction doc using List.reverseRecOn with
  | nil => cases h
  | append_singleton doc l ih =>
    rw [lastWhere?_concat] at h
    by_cases hp : p l = true
    · rw [if_pos hp, Option.some.injEq] at h
      exact ⟨doc, l, [], rfl, h, hp, by simp⟩
    · rw [if_neg hp] at h
      obtain ⟨a, l', b, rfl, hlen, hl', hb⟩ := ih h
      refine ⟨a, l', b ++ [l], by simp, hlen, hl', fun m hm => ?_⟩
      rcases List.mem_append.mp hm with hm | hm
      · exact hb m hm
      · rw [List.mem_singleton.mp hm]
        exact Bool.not_eq_true _ ▸ hp

theorem lastWhere?_eq_none_iff {p : String → Bool} {doc : Document} :
    lastWhere? p doc = none ↔ ∀ l ∈ doc, p l = false := by
  induction doc using List.reverseRecOn with
  | nil => simp [lastWhere?, indicesWhere]
  | append_singleton doc l ih =>
    rw [lastWhere?_concat]
    by_cases hp : p l = true
    · simp only [hp, if_true, reduceCtorEq, false_iff]
      intro hall
      rw [hall l (by simp)] at hp
      cases hp
    · simp only [hp, if_false, ih, Bool.false_eq_true, List.mem_append, List.mem_singleton]
      constructor
      · rintro hall m (hm | rfl)
        · exact hall m hm
        · exact Bool.not_eq_true _ ▸ hp
      · exact fun hall m hm => hall m (.inl hm)

/-! ## The line of a key -/

theorem holds_iff {key l : String} {active : Bool} :
    holds key active l = true ↔ ∃ x, Assignment.ofLine? l = some x ∧
      Text.sameName x.key key = true ∧ x.active = active := by
  unfold holds
  cases Assignment.ofLine? l <;> simp

/-- Whether a line assigns a key, whatever its case, active or not. -/
def names (key line : String) : Bool := holds key true line || holds key false line

theorem names_iff {key l : String} :
    names key l = true ↔
      ∃ x, Assignment.ofLine? l = some x ∧ Text.sameName x.key key = true := by
  rw [names, Bool.or_eq_true, holds_iff, holds_iff]
  constructor
  · rintro (⟨x, hx, hkey, -⟩ | ⟨x, hx, hkey, -⟩)
    · exact ⟨x, hx, hkey⟩
    · exact ⟨x, hx, hkey⟩
  · rintro ⟨x, hx, hkey⟩
    cases hact : x.active with
    | true => exact .inl ⟨x, hx, hkey, hact⟩
    | false => exact .inr ⟨x, hx, hkey, hact⟩

theorem find?_eq_none_iff {doc : Document} {key : String} :
    doc.find? key = none ↔ ∀ l ∈ doc, names key l = false := by
  simp only [find?, Option.or_eq_none_iff, lastWhere?_eq_none_iff, names, Bool.or_eq_false_iff]
  constructor
  · exact fun h l hl => ⟨h.1 l hl, h.2 l hl⟩
  · exact fun h => ⟨fun l hl => (h l hl).1, fun l hl => (h l hl).2⟩

theorem find?_eq_some {doc : Document} {key : String} {i : Nat} (h : doc.find? key = some i) :
    ∃ a l b x, doc = a ++ l :: b ∧ a.length = i ∧ Assignment.ofLine? l = some x ∧
      Text.sameName x.key key = true ∧
      ((x.active = true ∧ ∀ m ∈ b, holds key true m = false) ∨
        (x.active = false ∧ (∀ m ∈ doc, holds key true m = false) ∧
          ∀ m ∈ b, names key m = false)) := by
  rw [find?, Option.or_eq_some_iff] at h
  rcases h with h | ⟨hnone, h⟩
  · obtain ⟨a, l, b, hdoc, hlen, hl, hb⟩ := lastWhere?_eq_some h
    obtain ⟨x, hx, hkey, hact⟩ := holds_iff.mp hl
    exact ⟨a, l, b, x, hdoc, hlen, hx, hkey, .inl ⟨hact, hb⟩⟩
  · obtain ⟨a, l, b, hdoc, hlen, hl, hb⟩ := lastWhere?_eq_some h
    obtain ⟨x, hx, hkey, hact⟩ := holds_iff.mp hl
    have hall := lastWhere?_eq_none_iff.mp hnone
    refine ⟨a, l, b, x, hdoc, hlen, hx, hkey, .inr ⟨hact, hall, fun m hm => ?_⟩⟩
    rw [names, hb m hm, hall m (hdoc ▸ List.mem_append_right _ (List.mem_cons_of_mem _ hm))]
    rfl

/-! ## Writing a value -/

/-- A value goes onto the line that is found, or onto a new line since no line names the key. -/
theorem upsert_cases (doc : Document) (key value : String) (place : Document → String → Document) :
    (∃ a l b x, doc = a ++ l :: b ∧ Assignment.ofLine? l = some x ∧
      Text.sameName x.key key = true ∧
      ((x.active = true ∧ ∀ m ∈ b, holds key true m = false) ∨
        (x.active = false ∧ (∀ m ∈ doc, holds key true m = false) ∧
          ∀ m ∈ b, names key m = false)) ∧
      doc.upsert key value place = a ++ Line.reassign value l :: b) ∨
    ((∀ l ∈ doc, names key l = false) ∧
      doc.upsert key value place = place doc (Line.assign key value)) := by
  unfold upsert
  cases hfind : doc.find? key with
  | none => exact .inr ⟨find?_eq_none_iff.mp hfind, rfl⟩
  | some i =>
    obtain ⟨a, l, b, x, rfl, rfl, hx, hkey, hlast⟩ := find?_eq_some hfind
    refine .inl ⟨a, l, b, x, rfl, hx, hkey, hlast, ?_⟩
    dsimp only
    rw [List.modify_eq_take_cons_drop (by simp)]
    simp

end BuildChain.Document
