import BuildChain.Pattern.Regex
import Mathlib.Data.List.Basic

/-!
# What an expression accepts

`Regex.Reads` says which parts of a text an expression accepts, given the characters next to the
part. Marks stand for readings that are under way: they can be completed by what `Regex.Completes`
says. One more character moves the marks as it should, and so the search finds a part that is
accepted exactly when there is one.
-/

namespace BuildChain.Pattern

namespace Regex

/-! ## Neighbours -/

/-- What comes right after a place: the start of a text, or what follows the text. -/
def next (w : List Char) (after : Option Char) : Option Char := w.head?.or after

/-- What stands right before a place: the end of a text, or what precedes the text. -/
def previous (before : Option Char) (w : List Char) : Option Char := w.getLast?.or before

@[simp] theorem next_nil (after : Option Char) : next [] after = after := rfl

@[simp] theorem next_cons (c : Char) (w : List Char) (after : Option Char) :
    next (c :: w) after = some c := rfl

@[simp] theorem previous_nil (before : Option Char) : previous before [] = before := rfl

@[simp] theorem previous_cons (before : Option Char) (c : Char) (w : List Char) :
    previous before (c :: w) = previous (some c) w := by
  cases w with
  | nil => rfl
  | cons d w =>
    rw [previous, previous, List.getLast?_cons_cons]
    cases h : (d :: w).getLast? with
    | none => simp at h
    | some x => rfl

/-! ## Acceptance -/

/-- The expression accepts a text that stands between two neighbours. -/
inductive Reads : Regex → Option Char → List Char → Option Char → Prop
  | empty {before after : Option Char} : Reads empty before [] after
  | place {p : Place} {before after : Option Char} (h : p.isAt before after = true) :
      Reads (place p) before [] after
  | char {s : CharSet} {c : Char} {before after : Option Char} (h : s.has c = true) :
      Reads (char s) before [c] after
  | seq {a b : Regex} {before after : Option Char} {u v : List Char}
      (ha : Reads a before u (next v after)) (hb : Reads b (previous before u) v after) :
      Reads (seq a b) before (u ++ v) after
  | left {a b : Regex} {before after : Option Char} {w : List Char} (h : Reads a before w after) :
      Reads (alt a b) before w after
  | right {a b : Regex} {before after : Option Char} {w : List Char} (h : Reads b before w after) :
      Reads (alt a b) before w after
  | once {a : Regex} {before after : Option Char} {w : List Char} (h : Reads a before w after) :
      Reads (plus a) before w after
  | more {a : Regex} {before after : Option Char} {u v : List Char}
      (ha : Reads a before u (next v after)) (hb : Reads (plus a) (previous before u) v after) :
      Reads (plus a) before (u ++ v) after

section Inversion

variable {a b : Regex} {before after : Option Char} {w : List Char}

theorem reads_empty_iff : Reads empty before w after ↔ w = [] := by
  constructor
  · intro h
    cases h
    rfl
  · rintro rfl
    exact .empty

theorem reads_place_iff {p : Place} :
    Reads (place p) before w after ↔ w = [] ∧ p.isAt before after = true := by
  constructor
  · intro h
    cases h with
    | place h => exact ⟨rfl, h⟩
  · rintro ⟨rfl, h⟩
    exact .place h

theorem reads_char_iff {s : CharSet} :
    Reads (char s) before w after ↔ ∃ c, w = [c] ∧ s.has c = true := by
  constructor
  · intro h
    cases h with
    | char h => exact ⟨_, rfl, h⟩
  · rintro ⟨c, rfl, h⟩
    exact .char h

theorem reads_seq_iff : Reads (seq a b) before w after ↔
    ∃ u v, w = u ++ v ∧ Reads a before u (next v after) ∧ Reads b (previous before u) v after := by
  constructor
  · intro h
    cases h with
    | seq ha hb => exact ⟨_, _, rfl, ha, hb⟩
  · rintro ⟨u, v, rfl, ha, hb⟩
    exact .seq ha hb

theorem reads_alt_iff :
    Reads (alt a b) before w after ↔ Reads a before w after ∨ Reads b before w after := by
  constructor
  · intro h
    cases h with
    | left h => exact .inl h
    | right h => exact .inr h
  · rintro (h | h)
    · exact .left h
    · exact .right h

/-- To repeat the reading of nothing is to read nothing once. -/
theorem reads_plus_nil_iff : Reads (plus a) before [] after ↔ Reads a before [] after := by
  constructor
  · intro h
    generalize hr : plus a = r at h
    generalize hw : ([] : List Char) = w at h
    induction h with
    | once h =>
      cases hr
      exact hw ▸ h
    | @more a' before after u v ha hb _ ih =>
      obtain ⟨rfl, rfl⟩ := List.append_eq_nil_iff.mp hw.symm
      exact ih hr rfl
    | _ => cases hr
  · exact .once

/-- A repetition that reads something reads some of it in its first round that is not empty. -/
theorem reads_plus_cons_iff {c : Char} : Reads (plus a) before (c :: w) after ↔
    Reads a before (c :: w) after ∨ ∃ u v, w = u ++ v ∧ Reads a before (c :: u) (next v after) ∧
      Reads (plus a) (previous (some c) u) v after := by
  constructor
  · intro h
    generalize hr : plus a = r at h
    generalize hw : c :: w = cw at h
    induction h with
    | once h =>
      cases hr
      exact .inl (hw ▸ h)
    | @more a' before after u v ha hb _ ih =>
      cases hr
      cases u with
      | nil => exact ih rfl hw
      | cons d u =>
        rw [List.cons_append, List.cons.injEq] at hw
        obtain ⟨rfl, rfl⟩ := hw
        rw [previous_cons] at hb
        exact .inr ⟨u, v, rfl, ha, hb⟩
    | _ => cases hr
  · rintro (h | ⟨u, v, rfl, ha, hb⟩)
    · exact .once h
    · rw [← List.cons_append]
      exact .more ha (by rwa [previous_cons])

end Inversion

/-! ## Readings under way -/

/-- The readings that the marks stand for can be completed by a text that follows. -/
def Completes : Regex → Marks → Option Char → List Char → Option Char → Prop
  | empty, _, _, _, _ => False
  | place _, _, _, _, _ => False
  | char _, marks, _, w, _ => marks = .leaf ∧ w = []
  | seq a b, marks, before, w, after =>
    Completes b marks.right before w after ∨
      ∃ u v, w = u ++ v ∧ Completes a marks.left before u (next v after) ∧
        Reads b (previous before u) v after
  | alt a b, marks, before, w, after =>
    Completes a marks.left before w after ∨ Completes b marks.right before w after
  | plus a, marks, before, w, after =>
    Completes a marks before w after ∨
      ∃ u v, w = u ++ v ∧ Completes a marks before u (next v after) ∧
        Reads (plus a) (previous before u) v after

theorem not_completes_none (r : Regex) (before after : Option Char) (w : List Char) :
    ¬Completes r .none before w after := by
  induction r generalizing before after w with
  | empty | place | char => simp [Completes]
  | seq a b iha ihb => simp [Completes, Marks.left, Marks.right, iha, ihb]
  | alt a b iha ihb => simp [Completes, Marks.left, Marks.right, iha, ihb]
  | plus a ih => simp [Completes, ih]

theorem isLeaf_iff {m : Marks} : m.isLeaf = true ↔ m = .leaf := by
  cases m <;> simp [Marks.isLeaf]

/-- A reading ends at a place when nothing more completes it, or when it starts there and accepts
nothing. -/
theorem ends_iff (r : Regex) (marks : Marks) (before after : Option Char) (entered : Bool) :
    r.ends before after marks entered = true ↔
      Completes r marks before [] after ∨ (entered = true ∧ Reads r before [] after) := by
  induction r generalizing marks entered with
  | empty => simp [ends, Completes, reads_empty_iff]
  | place p => simp [ends, Completes, reads_place_iff]
  | char s => simp [ends, Completes, isLeaf_iff, reads_char_iff]
  | seq a b iha ihb =>
    rw [ends_seq, ihb, iha, Completes, reads_seq_iff]
    simp only [List.nil_eq, List.append_eq_nil_iff, exists_and_left, and_assoc, exists_eq_left,
      next_nil, previous_nil]
    tauto
  | alt a b iha ihb =>
    rw [ends_alt, Bool.or_eq_true, iha, ihb, Completes, reads_alt_iff]
    tauto
  | plus a ih =>
    rw [ends, ih, Completes, reads_plus_nil_iff]
    simp only [List.nil_eq, List.append_eq_nil_iff, exists_and_left, and_assoc, exists_eq_left,
      next_nil, previous_nil, reads_plus_nil_iff]
    tauto

/-- What a text that starts with a character is cut into. -/
theorem exists_cons_eq_append {p : List Char → List Char → Prop} {c : Char} {w : List Char} :
    (∃ u v, c :: w = u ++ v ∧ p u v) ↔ p [] (c :: w) ∨ ∃ u v, w = u ++ v ∧ p (c :: u) v := by
  constructor
  · rintro ⟨u, v, hw, h⟩
    cases u with
    | nil =>
      rw [List.nil_append] at hw
      exact .inl (hw ▸ h)
    | cons d u =>
      rw [List.cons_append, List.cons.injEq] at hw
      obtain ⟨rfl, rfl⟩ := hw
      exact .inr ⟨u, v, rfl, h⟩
  · rintro (h | ⟨u, v, rfl, h⟩)
    · exact ⟨[], c :: w, rfl, h⟩
    · exact ⟨c :: u, v, rfl, h⟩

/-- The marks after a character are completed by what completes the marks before it, or what is
accepted from there, with that character in front. -/
theorem completes_advance_iff (r : Regex) (marks : Marks) (before after : Option Char) (c : Char)
    (w : List Char) (entered : Bool) :
    Completes r (r.advance before c marks entered) (some c) w after ↔
      Completes r marks before (c :: w) after ∨
        (entered = true ∧ Reads r before (c :: w) after) := by
  induction r generalizing marks entered w after with
  | empty => simp [Completes, reads_empty_iff]
  | place p => simp [Completes, reads_place_iff]
  | char s =>
    rw [advance, Completes, Completes, reads_char_iff]
    by_cases h : (entered && s.has c) = true
    · rw [if_pos h]
      rw [Bool.and_eq_true] at h
      simp [h.1, h.2]
    · rw [if_neg h]
      simp only [reduceCtorEq, false_and, and_false, false_or, false_iff, not_and, not_exists,
        List.cons.injEq]
      rintro hentered d ⟨rfl, -⟩ hd
      exact h (by rw [hentered, hd]; rfl)
  | seq a b iha ihb =>
    rw [advance_seq, Completes, Completes, reads_seq_iff]
    simp only [Marks.left_join, Marks.right_join, iha, ihb, ends_iff, exists_cons_eq_append,
      next_cons, previous_nil, previous_cons]
    constructor
    · rintro ((hb | ⟨ha | ⟨he, ha⟩, hb⟩) | ⟨u, v, hw, ha | ⟨he, ha⟩, hb⟩)
      · exact .inl (.inl hb)
      · exact .inl (.inr (.inl ⟨ha, hb⟩))
      · exact .inr ⟨he, .inl ⟨ha, hb⟩⟩
      · exact .inl (.inr (.inr ⟨u, v, hw, ha, hb⟩))
      · exact .inr ⟨he, .inr ⟨u, v, hw, ha, hb⟩⟩
    · rintro ((hb | ⟨ha, hb⟩ | ⟨u, v, hw, ha, hb⟩) | ⟨he, ⟨ha, hb⟩ | ⟨u, v, hw, ha, hb⟩⟩)
      · exact .inl (.inl hb)
      · exact .inl (.inr ⟨.inl ha, hb⟩)
      · exact .inr ⟨u, v, hw, .inl ha, hb⟩
      · exact .inl (.inr ⟨.inr ⟨he, ha⟩, hb⟩)
      · exact .inr ⟨u, v, hw, .inr ⟨he, ha⟩, hb⟩
  | alt a b iha ihb =>
    rw [advance_alt, Completes, Completes, reads_alt_iff, Marks.left_join, Marks.right_join, iha,
      ihb]
    tauto
  | plus a ih =>
    rw [advance, Completes, Completes, reads_plus_cons_iff]
    simp only [ih, ends_iff, exists_cons_eq_append, next_cons, previous_nil, previous_cons,
      Bool.or_eq_true, reads_plus_cons_iff]
    -- a round starts where the expression is entered, and where a round under way ends
    constructor
    · rintro ((ha | ⟨he | hend | ⟨he, -⟩, ha⟩) | ⟨u, v, hw, ha | ⟨he | hend | ⟨he, -⟩, ha⟩, hb⟩)
      · exact .inl (.inl ha)
      · exact .inr ⟨he, .inl ha⟩
      · exact .inl (.inr (.inl ⟨hend, .inl ha⟩))
      · exact .inr ⟨he, .inl ha⟩
      · exact .inl (.inr (.inr ⟨u, v, hw, ha, hb⟩))
      · exact .inr ⟨he, .inr ⟨u, v, hw, ha, hb⟩⟩
      · exact .inl (.inr (.inl ⟨hend, .inr ⟨u, v, hw, ha, hb⟩⟩))
      · exact .inr ⟨he, .inr ⟨u, v, hw, ha, hb⟩⟩
    · rintro ((ha | ⟨hend, ha | ⟨u, v, hw, ha, hb⟩⟩ | ⟨u, v, hw, ha, hb⟩) |
        ⟨he, ha | ⟨u, v, hw, ha, hb⟩⟩)
      · exact .inl (.inl ha)
      · exact .inl (.inr ⟨.inr (.inl hend), ha⟩)
      · exact .inr ⟨u, v, hw, .inr ⟨.inr (.inl hend), ha⟩, hb⟩
      · exact .inr ⟨u, v, hw, .inl ha, hb⟩
      · exact .inl (.inr ⟨.inl he, ha⟩)
      · exact .inr ⟨u, v, hw, .inr ⟨.inl he, ha⟩, hb⟩

/-! ## Searching -/

/-- The search goes through when a reading under way, or one that starts on the way, ends. -/
theorem search_iff (r : Regex) (before : Option Char) (marks : Marks) (cs : List Char) :
    r.search before marks cs = true ↔ ∃ u v, cs = u ++ v ∧
      (Completes r marks before u v.head? ∨
        ∃ p q, u = p ++ q ∧ Reads r (previous before p) q v.head?) := by
  induction cs generalizing before marks with
  | nil => simp [search, ends_iff]
  | cons c cs ih =>
    rw [search, Bool.or_eq_true, ends_iff, ih, exists_cons_eq_append]
    simp only [completes_advance_iff, exists_cons_eq_append, List.head?_cons, List.nil_eq,
      List.append_eq_nil_iff, exists_and_left, and_assoc, exists_eq_left, previous_nil,
      previous_cons, true_and]
    constructor
    · rintro (h | ⟨u, v, hcs, (h | h) | h⟩)
      · exact .inl h
      · exact .inr ⟨u, v, hcs, .inl h⟩
      · exact .inr ⟨u, v, hcs, .inr (.inl h)⟩
      · exact .inr ⟨u, v, hcs, .inr (.inr h)⟩
    · rintro (h | ⟨u, v, hcs, h | h | h⟩)
      · exact .inl h
      · exact .inr ⟨u, v, hcs, .inl (.inl h)⟩
      · exact .inr ⟨u, v, hcs, .inl (.inr h)⟩
      · exact .inr ⟨u, v, hcs, .inr h⟩

/-- An expression occurs in a text exactly when it accepts some part of it. -/
theorem occursIn_iff (r : Regex) (s : String) :
    r.occursIn s = true ↔
      ∃ a w b, s.toList = a ++ w ++ b ∧ Reads r a.getLast? w b.head? := by
  have hprevious : ∀ a : List Char, previous none a = a.getLast? := fun a => by
    rw [previous, Option.or_none]
  rw [occursIn, search_iff]
  constructor
  · rintro ⟨u, v, hs, h | ⟨p, q, rfl, h⟩⟩
    · exact absurd h (not_completes_none _ _ _ _)
    · exact ⟨p, q, v, hs, hprevious p ▸ h⟩
  · rintro ⟨a, w, b, hs, h⟩
    exact ⟨a ++ w, b, hs, .inr ⟨a, w, rfl, (hprevious a).symm ▸ h⟩⟩

end Regex

end BuildChain.Pattern
