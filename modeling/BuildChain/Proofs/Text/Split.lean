import BuildChain.Text.Split
import Mathlib.Data.List.TakeWhile

/-!
# Cuts and what they cut

A cut succeeds exactly on the texts that are put together from its parts and the separator, the
start or the end that it looks for.
-/

namespace BuildChain.Text

theorem splitFirst_append {sep : Char} {a : List Char} (ha : sep ∉ a) (b : List Char) :
    splitFirst sep (a ++ sep :: b) = some (a, b) := by
  have hpos : ∀ c ∈ a, (c != sep) = true := by
    intro c hc
    rw [bne_iff_ne]
    exact fun h => ha (h ▸ hc)
  unfold splitFirst
  rw [List.dropWhile_append_of_pos hpos, List.takeWhile_append_of_pos hpos]
  simp

theorem splitFirst_eq_some {sep : Char} {cs a b : List Char} (h : splitFirst sep cs = some (a, b)) :
    cs = a ++ sep :: b ∧ sep ∉ a := by
  unfold splitFirst at h
  split at h
  · cases h
  · rename_i c rest hdrop
    obtain ⟨rfl, rfl⟩ := Prod.mk.inj (Option.some.inj h)
    have hc : c = sep := by
      have hhead := List.head?_dropWhile_not (· != sep) cs
      rw [hdrop] at hhead
      simpa using hhead
    constructor
    · have hcut := List.takeWhile_append_dropWhile (p := (· != sep)) (l := cs)
      rw [hdrop, hc] at hcut
      exact hcut.symm
    · intro hm
      simpa using List.mem_takeWhile_imp hm

theorem splitLast_append {sep : Char} (a : List Char) {b : List Char} (hb : sep ∉ b) :
    splitLast sep (a ++ sep :: b) = some (a, b) := by
  have hrev : (a ++ sep :: b).reverse = b.reverse ++ sep :: a.reverse := by simp
  rw [splitLast, hrev, splitFirst_append (by simpa using hb), Option.map_some, List.reverse_reverse,
    List.reverse_reverse]

theorem splitLast_eq_some {sep : Char} {cs a b : List Char} (h : splitLast sep cs = some (a, b)) :
    cs = a ++ sep :: b ∧ sep ∉ b := by
  obtain ⟨⟨b', a'⟩, hfirst, heq⟩ := Option.map_eq_some_iff.mp h
  obtain ⟨hcs, hb⟩ := splitFirst_eq_some hfirst
  cases heq
  refine ⟨?_, by simpa using hb⟩
  rw [← List.reverse_reverse cs, hcs]
  simp

theorem stripStart_eq_some_iff {start cs rest : List Char} :
    stripStart start cs = some rest ↔ cs = start ++ rest := by
  induction start generalizing cs with
  | nil => simp [stripStart]
  | cons p ps ih =>
    cases cs with
    | nil => simp [stripStart]
    | cons c cs =>
      by_cases h : p = c
      · subst h
        simp [stripStart, ih]
      · simp [stripStart, h, Ne.symm h]

theorem stripEnd_eq_some_iff {tail cs rest : List Char} :
    stripEnd tail cs = some rest ↔ cs = rest ++ tail := by
  unfold stripEnd
  rw [Option.map_eq_some_iff]
  constructor
  · rintro ⟨r, hr, rfl⟩
    rw [stripStart_eq_some_iff] at hr
    rw [← List.reverse_reverse cs, hr]
    simp
  · rintro rfl
    exact ⟨rest.reverse, by simp [stripStart_eq_some_iff], List.reverse_reverse rest⟩

end BuildChain.Text
