import BuildChain.Proofs.Text.Trim
import BuildChain.Text.Numeral

/-!
# Build numbers are tight

There is no white space in a text that is read as a build number. A number in decimal is a numeral,
and it is read as itself if it is small enough to be a build number.
-/

namespace BuildChain.Text

variable {s : String} {n : Nat}

theorem isSpace_of_isDigit {c : Char} (h : isDigit c = true) : isSpace c = false := by
  simp only [isDigit, Bool.and_eq_true, decide_eq_true_eq] at h
  simp [isSpace]
  omega

theorem isNumeral_iff {cs : List Char} :
    isNumeral cs = true ↔ cs ≠ [] ∧ ∀ c ∈ cs, isDigit c = true := by
  simp [isNumeral]

theorem isNumeral_of_readDigits {cs : List Char} (h : readDigits cs = some n) :
    cs ≠ [] ∧ ∀ c ∈ cs, isDigit c = true := by
  unfold readDigits at h
  split at h
  · rename_i hread
    exact isNumeral_iff.mp (Bool.and_eq_true_iff.mp hread).1
  · cases h

theorem isSpace_of_readNumber (h : readNumber s = some n) :
    s.toList ≠ [] ∧ ∀ c ∈ s.toList, isSpace c = false := by
  unfold readNumber at h
  split at h
  · rename_i cs hs
    obtain ⟨-, hdigits⟩ := isNumeral_of_readDigits h
    rw [hs]
    refine ⟨List.cons_ne_nil _ _, fun c hc => ?_⟩
    rcases List.mem_cons.mp hc with rfl | hc
    · rfl
    · exact isSpace_of_isDigit (hdigits c hc)
  · obtain ⟨hne, hdigits⟩ := isNumeral_of_readDigits h
    exact ⟨hne, fun c hc => isSpace_of_isDigit (hdigits c hc)⟩

theorem trim_of_readNumber (h : readNumber s = some n) : trim s = s := by
  obtain ⟨-, hspace⟩ := isSpace_of_readNumber h
  have htight : Tight s.toList :=
    ⟨fun c hc => hspace c (List.mem_of_head? hc), fun c hc => hspace c (List.mem_of_getLast? hc)⟩
  exact String.toList_inj.mp ((toList_trim s).trans htight.trimChars_eq)

theorem isBlank_of_readNumber (h : readNumber s = some n) : isBlank s = false := by
  obtain ⟨hne, hspace⟩ := isSpace_of_readNumber h
  rw [← Bool.not_eq_true, isBlank, List.all_eq_true]
  intro hall
  obtain ⟨c, cs, hcs⟩ := List.exists_cons_of_ne_nil hne
  have hmem : c ∈ s.toList := hcs ▸ List.mem_cons_self
  have hblank := hall c hmem
  rw [hspace c hmem] at hblank
  cases hblank

/-! ## Numbers in decimal -/

theorem isNumeral_toString (n : Nat) : isNumeral (toString n).toList = true := by
  rw [isNumeral_iff, Nat.toString_eq_repr, Nat.toList_repr]
  refine ⟨Nat.toDigits_ne_nil, fun c hc => ?_⟩
  have hdigit := Nat.isDigit_of_mem_toDigits (by decide) (by decide) hc
  simpa [isDigit, Char.isDigit, UInt32.le_iff_toNat_le] using hdigit

theorem numeralValue_toString (n : Nat) : numeralValue (toString n).toList = n := by
  rw [Nat.toString_eq_repr, Nat.toList_repr]
  exact Nat.ofDigitChars_toDigits (by decide) (by decide)

theorem readDigits_toString {n : Nat} (h : n < buildLimit) :
    readDigits (toString n).toList = some n := by
  rw [readDigits, isNumeral_toString, numeralValue_toString]
  simp [h]

end BuildChain.Text
