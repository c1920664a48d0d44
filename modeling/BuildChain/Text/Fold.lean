/-!
# Comparing names without regard to ASCII case

Only the letters `A` to `Z` have a lower-case form here; every other character stands for itself.
-/

namespace BuildChain.Text

/-- The characters of a text with ASCII letters in lower case. -/
def fold (s : String) : List Char := s.toList.map Char.toLower

/-- Two texts are the same name when they differ in ASCII case at most. -/
def sameName (a b : String) : Bool := fold a == fold b

theorem sameName_iff {a b : String} : sameName a b = true ↔ fold a = fold b := by
  simp [sameName]

@[simp] theorem sameName_refl (a : String) : sameName a a = true := by
  simp [sameName]

theorem sameName_comm (a b : String) : sameName a b = sameName b a := by
  rw [Bool.eq_iff_iff, sameName_iff, sameName_iff, eq_comm]

theorem sameName_trans {a b c : String} (h₁ : sameName a b = true) (h₂ : sameName b c = true) :
    sameName a c = true :=
  sameName_iff.mpr ((sameName_iff.mp h₁).trans (sameName_iff.mp h₂))

end BuildChain.Text
