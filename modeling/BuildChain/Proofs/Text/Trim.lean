import BuildChain.Text.Blank
import Mathlib.Data.List.DropRight

/-!
# Trimmed texts

A text is tight when white space stands at neither end of it. Every text is its trimmed form with
white space around it, and that form is tight.
-/

namespace BuildChain.Text

/-! ## White space at one end -/

theorem trimEndChars_eq (cs : List Char) : trimEndChars cs = cs.rdropWhile isSpace := rfl

theorem trimStartChars_append {a : List Char} (ha : ∀ c ∈ a, isSpace c = true) (cs : List Char) :
    trimStartChars (a ++ cs) = trimStartChars cs :=
  List.dropWhile_append_of_pos ha

theorem trimEndChars_append {b : List Char} (hb : ∀ c ∈ b, isSpace c = true) (cs : List Char) :
    trimEndChars (cs ++ b) = trimEndChars cs := by
  have hb' : ∀ c ∈ b.reverse, isSpace c = true := fun c hc => hb c (List.mem_reverse.mp hc)
  rw [trimEndChars, List.reverse_append, List.dropWhile_append_of_pos hb', trimEndChars]

/-- Trimming the end does not reach beyond a character that is no white space. -/
theorem trimEndChars_append_cons {x : Char} (hx : isSpace x = false) (a cs : List Char) :
    trimEndChars (a ++ x :: cs) = a ++ x :: trimEndChars cs := by
  induction cs using List.reverseRecOn with
  | nil =>
    have h := List.rdropWhile_concat_neg isSpace a x (by simp [hx])
    simpa only [trimEndChars_eq, List.rdropWhile_nil] using h
  | append_singleton cs c ih =>
    have hsplit : a ++ x :: (cs ++ [c]) = (a ++ x :: cs) ++ [c] := by simp
    by_cases hc : isSpace c = true
    · rw [hsplit, trimEndChars_append (by simp [hc]), ih, trimEndChars_append (by simp [hc])]
    · simp only [trimEndChars_eq] at ih ⊢
      rw [hsplit, List.rdropWhile_concat_neg _ _ _ hc, List.rdropWhile_concat_neg _ _ _ hc]
      simp

/-! ## Tight texts -/

structure Tight (cs : List Char) : Prop where
  head : ∀ c ∈ cs.head?, isSpace c = false
  last : ∀ c ∈ cs.getLast?, isSpace c = false

theorem Tight.trimStartChars_eq {cs : List Char} (h : Tight cs) : trimStartChars cs = cs := by
  cases cs with
  | nil => rfl
  | cons c cs => simp [trimStartChars, h.head c rfl]

theorem Tight.trimEndChars_eq {cs : List Char} (h : Tight cs) : trimEndChars cs = cs := by
  rw [Text.trimEndChars_eq, List.rdropWhile_eq_self_iff]
  intro hne
  simp [h.last _ (List.getLast?_eq_some_getLast hne)]

theorem Tight.trimChars_eq {cs : List Char} (h : Tight cs) : trimChars cs = cs := by
  rw [trimChars, h.trimStartChars_eq, h.trimEndChars_eq]

theorem tight_trimChars (cs : List Char) : Tight (trimChars cs) := by
  constructor
  · intro c hc
    have hpre : trimChars cs <+: trimStartChars cs := List.rdropWhile_prefix isSpace _
    obtain ⟨rest, hrest⟩ := hpre
    have hhead : (trimStartChars cs).head? = some c := by
      rw [← hrest, List.head?_append, Option.mem_def.mp hc]
      rfl
    have h := List.head?_dropWhile_not isSpace cs
    rw [show cs.dropWhile isSpace = trimStartChars cs from rfl, hhead] at h
    simpa using h
  · intro c hc
    obtain ⟨hne, hlast⟩ := List.mem_getLast?_eq_getLast hc
    rw [hlast]
    have h := List.rdropWhile_last_not isSpace (trimStartChars cs) hne
    exact Bool.not_eq_true _ ▸ h

/-! ## Trimming -/

theorem trimChars_append_left {a : List Char} (ha : ∀ c ∈ a, isSpace c = true) (cs : List Char) :
    trimChars (a ++ cs) = trimChars cs := by
  rw [trimChars, trimStartChars_append ha, trimChars]

theorem trimChars_append_right {b : List Char} (hb : ∀ c ∈ b, isSpace c = true) (cs : List Char) :
    trimChars (cs ++ b) = trimChars cs := by
  by_cases hcs : ∀ c ∈ cs, isSpace c = true
  · rw [trimChars_append_left hcs, ← List.append_nil b, ← List.append_nil cs,
      trimChars_append_left hb, trimChars_append_left hcs]
  · have hne : cs.dropWhile isSpace ≠ [] := by rwa [Ne, List.dropWhile_eq_nil_iff]
    have hstart : trimStartChars (cs ++ b) = trimStartChars cs ++ b := by
      simp only [trimStartChars, List.dropWhile_append, List.isEmpty_eq_false_iff.mpr hne]
      rfl
    rw [trimChars, hstart, trimEndChars_append hb, trimChars]

@[simp] theorem trimChars_trimChars (cs : List Char) : trimChars (trimChars cs) = trimChars cs :=
  (tight_trimChars cs).trimChars_eq

@[simp] theorem trim_trim (s : String) : trim (trim s) = trim s := by
  simp [← String.toList_inj]

theorem trimChars_trimEndChars (cs : List Char) : trimChars (trimEndChars cs) = trimChars cs := by
  have h : trimEndChars cs ++ cs.rtakeWhile isSpace = cs :=
    List.rdropWhile_append_rtakeWhile
  conv_rhs => rw [← h]
  exact (trimChars_append_right (fun c hc => List.mem_rtakeWhile_imp hc) _).symm

theorem mem_of_mem_trimChars {cs : List Char} {c : Char} (hc : c ∈ trimChars cs) : c ∈ cs := by
  have hstart : trimChars cs <+: trimStartChars cs := List.rdropWhile_prefix isSpace _
  have hend : trimStartChars cs <:+ cs := List.dropWhile_suffix _
  exact hend.subset (hstart.subset hc)

/-- What is trimmed away is white space. -/
theorem exists_trimChars (cs : List Char) :
    ∃ a b, cs = a ++ trimChars cs ++ b ∧ ∀ c ∈ a, isSpace c = true := by
  refine ⟨cs.takeWhile isSpace, (trimStartChars cs).rtakeWhile isSpace, ?_,
    fun c hc => List.mem_takeWhile_imp hc⟩
  have hstart : cs.takeWhile isSpace ++ trimStartChars cs = cs := List.takeWhile_append_dropWhile
  have hend : trimChars cs ++ (trimStartChars cs).rtakeWhile isSpace = trimStartChars cs :=
    List.rdropWhile_append_rtakeWhile
  rw [List.append_assoc, hend, hstart]

/-! ## Blank texts -/

theorem trimChars_eq_nil_iff {cs : List Char} : trimChars cs = [] ↔ ∀ c ∈ cs, isSpace c = true := by
  constructor
  · intro h
    have hstart : ∀ c ∈ trimStartChars cs, isSpace c = true :=
      List.rdropWhile_eq_nil_iff.mp h
    have hnil : trimStartChars cs = [] := by
      by_contra hne
      obtain ⟨c, rest, hc⟩ := List.exists_cons_of_ne_nil hne
      have hhead := List.head?_dropWhile_not isSpace cs
      rw [show cs.dropWhile isSpace = c :: rest from hc] at hhead
      have hspace := hstart c (by rw [hc]; exact List.mem_cons_self)
      simp [hspace] at hhead
    exact List.dropWhile_eq_nil_iff.mp hnil
  · intro h
    rw [← List.append_nil cs, trimChars_append_left h]
    rfl

theorem isBlank_iff {s : String} : isBlank s = true ↔ trimChars s.toList = [] := by
  rw [trimChars_eq_nil_iff, isBlank, List.all_eq_true]

theorem isBlank_trim (s : String) : isBlank (trim s) = isBlank s := by
  rw [Bool.eq_iff_iff, isBlank_iff, isBlank_iff, toList_trim, trimChars_trimChars]

/-- A text that ends with a trimmed value does not end with white space. -/
theorem isSpace_getLast?_of_trim {s : String} (htrim : trim s = s) (hblank : isBlank s = false)
    {a : List Char} {c : Char} (hc : (a ++ s.toList).getLast? = some c) : isSpace c = false := by
  have htight : trimChars s.toList = s.toList := by rw [← toList_trim, htrim]
  have hne : s.toList ≠ [] := by
    rw [← htight, ne_eq, ← isBlank_iff, hblank]
    exact Bool.false_ne_true
  rw [List.getLast?_append_of_ne_nil _ hne, ← htight] at hc
  exact (tight_trimChars s.toList).last c hc

theorem trimmed?_eq_some_iff {s v : String} :
    trimmed? s = some v ↔ isBlank s = false ∧ v = trim s := by
  unfold trimmed?
  cases isBlank s <;> simp [eq_comm]

end BuildChain.Text
