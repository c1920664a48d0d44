import BuildChain.Pattern.Basic
import BuildChain.Proofs.Pattern.Reads

/-!
# The pattern of forks

A pattern that goes from the start of a text to its end fits the texts that its parts accept one
after the other. So the standard pattern of forks fits an owner and a repository with a slash
between them.
-/

namespace BuildChain

open Pattern (Regex CharSet Place)
open Pattern.Regex (Reads)

namespace Pattern.Regex

variable {before after : Option Char} {w : List Char}

/-! ## Whole texts -/

theorem reads_plus_char_iff {s : CharSet} : Reads (plus (char s)) before w after ↔
    w ≠ [] ∧ ∀ c ∈ w, s.has c = true := by
  induction w generalizing before with
  | nil => simp [reads_plus_nil_iff, reads_char_iff]
  | cons c w ih =>
    rw [reads_plus_cons_iff]
    constructor
    · rintro (h | ⟨u, v, rfl, hu, hv⟩)
      · obtain ⟨d, hw, hd⟩ := reads_char_iff.mp h
        rw [List.cons.injEq] at hw
        obtain ⟨rfl, rfl⟩ := hw
        simp [hd]
      · obtain ⟨d, hw, hd⟩ := reads_char_iff.mp hu
        rw [List.cons.injEq] at hw
        obtain ⟨rfl, rfl⟩ := hw
        rw [previous_nil, List.nil_append] at *
        obtain ⟨-, hall⟩ := ih.mp hv
        exact ⟨List.cons_ne_nil _ _, List.forall_mem_cons.mpr ⟨hd, hall⟩⟩
    · rintro ⟨-, hall⟩
      obtain ⟨hc, hrest⟩ := List.forall_mem_cons.mp hall
      cases w with
      | nil => exact .inl (.char hc)
      | cons d w => exact .inr ⟨[], d :: w, rfl, .char hc, ih.mpr ⟨List.cons_ne_nil _ _, hrest⟩⟩

theorem seqAll_cons_cons (r r' : Regex) (rs : List Regex) :
    seqAll (r :: r' :: rs) = seq r (seqAll (r' :: rs)) := rfl

theorem reads_seqAll_concat_end (items : List Regex) :
    Reads (seqAll (items ++ [place .textEnd])) before w after ↔
      Reads (seqAll items) before w after ∧ after = none := by
  induction items generalizing before w with
  | nil => simp [seqAll, reads_place_iff, reads_empty_iff, Place.isAt]
  | cons r rs ih =>
    cases rs with
    | nil =>
      simp only [List.cons_append, List.nil_append, seqAll, reads_seq_iff, reads_place_iff,
        Place.isAt, Option.isNone_iff_eq_none]
      constructor
      · rintro ⟨u, v, rfl, h, rfl, rfl⟩
        exact ⟨by simpa using h, rfl⟩
      · rintro ⟨h, rfl⟩
        exact ⟨w, [], by simp, h, rfl, rfl⟩
    | cons r' rs =>
      rw [List.cons_append, List.cons_append, seqAll_cons_cons, seqAll_cons_cons, reads_seq_iff,
        reads_seq_iff]
      simp only [← List.cons_append, ih]
      constructor
      · rintro ⟨u, v, hw, hu, hv, hafter⟩
        exact ⟨⟨u, v, hw, hu, hv⟩, hafter⟩
      · rintro ⟨⟨u, v, hw, hu, hv⟩, hafter⟩
        exact ⟨u, v, hw, hu, hv, hafter⟩

/-- A pattern from start to end accepts no less than the whole text. -/
theorem occursIn_whole_iff (items : List Regex) (s : String) :
    (NamePattern.whole items).occursIn s = true ↔ Reads (seqAll items) none s.toList none := by
  have hwhole : NamePattern.whole items =
      seq (place .textStart) (seqAll (items ++ [place .textEnd])) := by
    cases items <;> rfl
  have hstart : ∀ {before after : Option Char} {w : List Char},
      Reads (NamePattern.whole items) before w after ↔
        before = none ∧ after = none ∧ Reads (seqAll items) none w none := by
    intro before after w
    rw [hwhole, reads_seq_iff]
    constructor
    · rintro ⟨u, v, rfl, hu, hv⟩
      obtain ⟨rfl, hbefore⟩ := reads_place_iff.mp hu
      obtain ⟨hv, rfl⟩ := (reads_seqAll_concat_end items).mp hv
      rw [Place.isAt, Option.isNone_iff_eq_none] at hbefore
      subst hbefore
      exact ⟨rfl, rfl, hv⟩
    · rintro ⟨rfl, rfl, h⟩
      exact ⟨[], w, rfl, .place rfl, (reads_seqAll_concat_end items).mpr ⟨h, rfl⟩⟩
  rw [occursIn_iff]
  constructor
  · rintro ⟨a, w, b, hs, h⟩
    obtain ⟨ha, hb, h⟩ := hstart.mp h
    rw [List.getLast?_eq_none_iff] at ha
    rw [List.head?_eq_none_iff] at hb
    rwa [hs, ha, hb, List.nil_append, List.append_nil]
  · intro h
    exact ⟨[], s.toList, [], by simp, hstart.mpr ⟨rfl, rfl, h⟩⟩

end Pattern.Regex

/-! ## Forks -/

/-- ASCII letters and digits, the underscore, the dot and the hyphen. -/
def isRepositoryChar (c : Char) : Bool := c.isAlphanum || c = '_' || c = '.' || c = '-'

/-- An owner and a repository, with a slash between them. -/
def IsRepository (s : String) : Prop :=
  ∃ owner repository, s.toList = owner ++ '/' :: repository ∧ owner ≠ [] ∧ repository ≠ [] ∧
    ∀ c ∈ owner ++ repository, isRepositoryChar c = true

namespace NamePattern

theorem has_repositoryChar (c : Char) : repositoryChar.has c = isRepositoryChar c := by
  have hne : ∀ d : Char, c = d ↔ c.toNat = d.toNat := fun d => Char.toNat_inj.symm
  have halpha : c.isAlpha =
      (decide (65 ≤ c.val ∧ c.val ≤ 90) || (decide (97 ≤ c.val) && decide (c.val ≤ 122))) := rfl
  rw [Bool.eq_iff_iff]
  simp only [repositoryChar, CharSet.unionAll, CharSet.has, CharSet.single, CharSet.digit,
    CharSet.lower, CharSet.upper, CharSet.between, isRepositoryChar, Char.isAlphanum, halpha,
    Char.isDigit, Bool.or_eq_true, Bool.and_eq_true,
    decide_eq_true_eq, hne, ge_iff_le, UInt32.le_iff_toNat_le]
  simp only [Char.toNat]
  simp
  omega

theorem fork_fits_iff (s : String) : fork.fits s = true ↔ IsRepository s := by
  have hslash : ∀ c : Char, (CharSet.single '/').has c = true ↔ c = '/' := by
    intro c
    rw [← Char.toNat_inj]
    simp [CharSet.single, CharSet.has]
    omega
  rw [fits, fork, Pattern.Regex.occursIn_whole_iff]
  simp only [Pattern.Regex.seqAll, Pattern.Regex.reads_seq_iff, Pattern.Regex.reads_plus_char_iff,
    Pattern.Regex.reads_char_iff, has_repositoryChar, hslash]
  constructor
  · rintro ⟨owner, rest, hs, ⟨howner, hall⟩, slash, repository, rfl, ⟨c, rfl, rfl⟩, hrep, hall'⟩
    refine ⟨owner, repository, hs, howner, hrep, fun c hc => ?_⟩
    rcases List.mem_append.mp hc with hc | hc
    · exact hall c hc
    · exact hall' c hc
  · rintro ⟨owner, repository, hs, howner, hrep, hall⟩
    exact ⟨owner, '/' :: repository, hs, ⟨howner, fun c hc => hall c (List.mem_append_left _ hc)⟩,
      ['/'], repository, rfl, ⟨'/', rfl, rfl⟩, hrep,
      fun c hc => hall c (List.mem_append_right _ hc)⟩

end NamePattern

end BuildChain
