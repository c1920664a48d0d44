import BuildChain.Text.Blank
import BuildChain.Text.Fold
import Mathlib.Data.List.Pairwise

/-!
# Folding a character

A letter that is put into lower case stays a letter, so that no character becomes or ceases to be
white space or one of the signs below the letters.
-/

namespace BuildChain.Text

theorem toLower_cases (c : Char) :
    c.toLower = c ∨ (65 ≤ c.toNat ∧ c.toNat ≤ 90 ∧ c.toLower.toNat = c.toNat + 32) := by
  unfold Char.toLower
  split
  · rename_i h
    right
    have h1 : 65 ≤ c.toNat := h.1
    have h2 : c.toNat ≤ 90 := h.2
    refine ⟨h1, h2, ?_⟩
    show (c.val + 32).toNat = c.toNat + 32
    rw [UInt32.toNat_add]
    show (c.toNat + 32) % 2 ^ 32 = c.toNat + 32
    omega
  · exact .inl rfl

theorem isSpace_toLower (c : Char) : isSpace c.toLower = isSpace c := by
  rcases toLower_cases c with h | ⟨hlow, hhigh, h⟩
  · rw [h]
  · simp only [isSpace, h]
    rw [Bool.eq_iff_iff]
    simp
    omega

theorem toLower_eq_iff {c d : Char} (hd : d.toNat < 65) : c.toLower = d ↔ c = d := by
  rcases toLower_cases c with h | ⟨hlow, hhigh, h⟩
  · rw [h]
  · constructor
    · rintro rfl
      omega
    · rintro rfl
      omega

/-- A sign below the letters is in all spellings of a name or in none. -/
theorem mem_of_sameName {a b : String} (h : sameName a b = true) {d : Char} (hd : d.toNat < 65)
    (hmem : d ∈ a.toList) : d ∈ b.toList := by
  rw [sameName_iff, fold, fold] at h
  have hlow : d.toLower ∈ b.toList.map Char.toLower := h ▸ List.mem_map_of_mem hmem
  obtain ⟨c, hc, heq⟩ := List.mem_map.mp hlow
  rw [(toLower_eq_iff hd).mpr rfl, toLower_eq_iff hd] at heq
  exact heq ▸ hc

/-- All spellings of a name start with a sign below the letters, or none does. -/
theorem head?_of_sameName {a b : String} (h : sameName a b = true) {d : Char} (hd : d.toNat < 65)
    (hhead : a.toList.head? = some d) : b.toList.head? = some d := by
  rw [sameName_iff, fold, fold] at h
  have hheads := congrArg List.head? h
  rw [List.head?_map, List.head?_map, hhead, Option.map_some, (toLower_eq_iff hd).mpr rfl] at hheads
  obtain ⟨c, hc, heq⟩ := Option.map_eq_some_iff.mp hheads.symm
  rw [hc, (toLower_eq_iff hd).mp heq]

/-- Where no two names are the same up to case, names that are the same belong to one element. -/
theorem eq_of_sameName {α : Type} {f : α → String} {l : List α}
    (h : l.Pairwise fun x y => sameName (f x) (f y) = false) {x y : α} (hx : x ∈ l) (hy : y ∈ l)
    (hsame : sameName (f x) (f y) = true) : x = y := by
  have hsymm : Std.Symm fun x y : α => sameName (f x) (f y) = false :=
    ⟨fun x y hdiff => by rwa [sameName_comm]⟩
  by_contra hne
  rw [List.Pairwise.forall h hx hy hne] at hsame
  cases hsame

end BuildChain.Text
