import BuildChain.Proofs.Document.Settings
import BuildChain.Stamp
import BuildChain.Writer
import Mathlib.Data.List.InsertIdx

/-!
# Laying out a page

A fresh file is a page: the lines of its blocks with an empty line between two of them. What is read
from a page is what is read from its blocks, and of these only the lines of settings count: the
header and the placeholders are comments.
-/

namespace BuildChain

open Assignment (IsKey)

/-! ## Creation times -/

namespace Stamp

theorem not_mem_padded (width n : Nat) : '\n' ∉ (padded width n).toList := by
  have hdigits : '\n' ∉ (toString n).toList := by
    rw [Nat.toString_eq_repr, Nat.toList_repr]
    intro hmem
    have hdigit := Nat.isDigit_of_mem_toDigits (by decide) (by decide) hmem
    exact absurd hdigit (by decide)
  rw [padded, String.toList_ofList, List.mem_append, not_or]
  refine ⟨fun hmem => ?_, hdigits⟩
  exact absurd (List.eq_of_mem_replicate hmem) (by decide)

theorem not_mem_ofSeconds (seconds : Nat) : '\n' ∉ (ofSeconds seconds).toList := by
  simp only [ofSeconds, String.toList_append, List.mem_append, not_mem_padded, false_or, not_or]
  decide +kernel

theorem not_mem_of_mem_map {seconds : Option Nat} :
    ∀ time ∈ seconds.map ofSeconds, '\n' ∉ time.toList := by
  intro time htime
  obtain ⟨n, -, rfl⟩ := Option.map_eq_some_iff.mp htime
  exact not_mem_ofSeconds n

end Stamp

namespace Writer

/-! ## The page -/

/-- The lines of the blocks that are not empty, with an empty line between two blocks. -/
def page (blocks : List (List String)) : Document :=
  List.intercalate [""] (blocks.filter fun b => !b.isEmpty)

/-- What is joined block by block is joined line by line. -/
theorem intercalate_blocks {blocks : List (List String)} (h : ∀ b ∈ blocks, b ≠ []) :
    String.intercalate "\n\n" (blocks.map (String.intercalate "\n")) =
      String.intercalate "\n" (List.intercalate [""] blocks) := by
  induction blocks with
  | nil => rfl
  | cons b blocks ih =>
    obtain ⟨hb, hblocks⟩ := List.forall_mem_cons.mp h
    cases blocks with
    | nil => rw [List.intercalate_singleton, List.map_singleton, String.intercalate_singleton]
    | cons b' rest =>
      have hne : List.intercalate [""] (b' :: rest) ≠ [] := by
        have hb' := hblocks b' List.mem_cons_self
        cases rest with
        | nil => rwa [List.intercalate_singleton]
        | cons _ _ =>
          rw [List.intercalate_cons_of_ne_nil (List.cons_ne_nil _ _), List.append_assoc]
          exact List.append_ne_nil_of_left_ne_nil hb' _
      have hgap : "\n\n" = "\n" ++ "\n" := rfl
      rw [List.map_cons, String.intercalate_cons_of_ne_nil (by simp), ih hblocks,
        List.intercalate_cons_of_ne_nil (List.cons_ne_nil _ _), List.append_assoc,
        String.intercalate_append_of_ne_nil hb (by simp), List.singleton_append,
        String.intercalate_cons_of_ne_nil hne, String.empty_append, hgap]
      simp only [String.append_assoc]

/-- Empty lines apart, a page has the lines of its blocks. -/
theorem filterMap_page {α : Type} {f : String → Option α} (hempty : f "" = none)
    (blocks : List (List String)) :
    (page blocks).filterMap f = blocks.flatMap fun b => b.filterMap f := by
  have hjoin : ∀ bs : List (List String), (List.intercalate [""] bs).filterMap f =
      bs.flatMap fun b => b.filterMap f := by
    intro bs
    induction bs with
    | nil => rfl
    | cons b bs ih =>
      cases bs with
      | nil => rw [List.intercalate_singleton, List.flatMap_singleton]
      | cons b' rest =>
        rw [List.intercalate_cons_of_ne_nil (List.cons_ne_nil _ _), List.filterMap_append, ih,
          List.filterMap_append, List.filterMap_cons_none hempty, List.filterMap_nil,
          List.append_nil, ← List.flatMap_cons]
  rw [page, hjoin]
  induction blocks with
  | nil => rfl
  | cons b blocks ih =>
    rw [List.flatMap_cons, ← ih]
    cases b with
    | nil => rfl
    | cons l b => rfl

theorem mem_page {blocks : List (List String)} {l : String} (hl : l ∈ page blocks) :
    l = "" ∨ ∃ b ∈ blocks, l ∈ b := by
  by_cases hempty : l = ""
  · exact .inl hempty
  · -- what is not empty is seen by a test for the line itself
    have hmem : l ∈ (page blocks).filterMap fun l' => if l' = "" then none else some l' :=
      List.mem_filterMap.mpr ⟨l, hl, if_neg hempty⟩
    rw [filterMap_page (if_pos rfl), List.mem_flatMap] at hmem
    obtain ⟨b, hb, hmem⟩ := hmem
    obtain ⟨l', hl', hsome⟩ := List.mem_filterMap.mp hmem
    split at hsome
    · cases hsome
    · cases hsome
      exact .inr ⟨b, hb, hl'⟩

theorem renderFresh_eq (w : Writer) (c : Chain) :
    w.renderFresh c = assemble "\n" true (page (w.blocks c)) := by
  have hne : page (w.blocks c) ≠ [] := by
    intro hnil
    have hlines := filterMap_page (f := fun l => if l = "" then none else some l) rfl (w.blocks c)
    have htitle : title ∈ (w.blocks c).flatMap fun b =>
        b.filterMap fun l => if l = "" then none else some l := by
      refine List.mem_flatMap.mpr ⟨w.header, by simp [blocks], List.mem_filterMap.mpr ?_⟩
      refine ⟨title, ?_, rfl⟩
      unfold header
      split <;> exact List.mem_cons_self
    rw [← hlines, hnil] at htitle
    cases htitle
  rw [renderFresh, intercalate_blocks fun b hb => by simpa using (List.mem_filter.mp hb).2, ← page]
  simp [assemble, hne]

/-! ## What the blocks hold -/

theorem activeEntry?_assign {key value : String} (hk : IsKey key)
    (hvalue : Text.trim value = value) :
    Chain.activeEntry? (Line.assign key value) = some (key, value) := by
  rw [Chain.activeEntry?, Assignment.ofLine?_assign_self hk hvalue]
  rfl

theorem filterMap_assign {l : List (String × String)}
    (hl : ∀ e ∈ l, IsKey e.1 ∧ Text.trim e.2 = e.2) :
    (l.map fun e => Line.assign e.1 e.2).filterMap Chain.activeEntry? = l := by
  rw [List.filterMap_map]
  calc l.filterMap (Chain.activeEntry? ∘ fun e => Line.assign e.1 e.2)
    _ = l.filterMap some := List.filterMap_congr fun e he => by
      rw [Function.comp_apply, activeEntry?_assign (hl e he).1 (hl e he).2]
    _ = l := List.filterMap_some

theorem activeEntry?_hash (s : String) : Chain.activeEntry? ("#" ++ s) = none := by
  have hind : ∀ c ∈ ([] : List Char), Text.isSpace c = true := by simp
  have hl : ("#" ++ s).toList = [] ++ '#' :: s.toList := by simp
  exact Document.activeEntry?_comment hind hl

theorem filterMap_header (w : Writer) : w.header.filterMap Chain.activeEntry? = [] := by
  have htitle : title = "#" ++ " Build chain configuration" := rfl
  have hstamp : ∀ time, "# Generated " ++ time = "#" ++ (" Generated " ++ time) := by
    intro time
    rw [← String.append_assoc]
    rfl
  unfold header
  split
  · rw [List.filterMap_cons_none (by rw [htitle, activeEntry?_hash]),
      List.filterMap_cons_none (by rw [hstamp, activeEntry?_hash]), List.filterMap_nil]
  · rw [List.filterMap_cons_none (by rw [htitle, activeEntry?_hash]), List.filterMap_nil]

/-- The placeholder of a canonical section is no setting. -/
theorem filterMap_canonicalBlock (s : Section) :
    (canonicalBlock s).filterMap Chain.activeEntry? =
      (Document.sectionBlock s).filterMap Chain.activeEntry? := by
  have hskip : ∀ (l : List String) (i : Nat),
      (l.insertIdx i (devModePlaceholder s)).filterMap Chain.activeEntry? =
        l.filterMap Chain.activeEntry? := by
    intro l
    induction l with
    | nil =>
      intro i
      cases i with
      | zero => exact List.filterMap_cons_none (activeEntry?_hash _)
      | succ i => rfl
    | cons l ls ih =>
      intro i
      cases i with
      | zero => exact List.filterMap_cons_none (activeEntry?_hash _)
      | succ i =>
        rw [List.insertIdx_succ_cons]
        cases hl : Chain.activeEntry? l with
        | none => rw [List.filterMap_cons_none hl, List.filterMap_cons_none hl, ih]
        | some e => rw [List.filterMap_cons_some hl, List.filterMap_cons_some hl, ih]
  unfold canonicalBlock
  dsimp only
  split
  · rfl
  · exact hskip _ _

theorem mem_canonicalBlock {s : Section} {l : String} (hl : l ∈ canonicalBlock s) :
    l = devModePlaceholder s ∨ l ∈ Document.sectionBlock s := by
  unfold canonicalBlock at hl
  dsimp only at hl
  split at hl
  · exact .inr hl
  · exact List.eq_or_mem_of_mem_insertIdx hl

/-! ## Lines of one line -/

/-- A section name without a line feed, and settings that fit on a line, make lines. -/
theorem not_mem_devModePlaceholder {s : Section} (hname : '\n' ∉ s.name.toList) :
    '\n' ∉ (devModePlaceholder s).toList := by
  have hdev : '\n' ∉ Property.devMode.toList := by decide
  have hbinary : '\n' ∉ BuildMode.binary.text.toList := by decide
  simp [devModePlaceholder, Line.assign, Route.propertyKey, hname, hdev, hbinary]

theorem not_mem_header {w : Writer} (hstamp : ∀ time ∈ w.stamp, '\n' ∉ time.toList) :
    ∀ l ∈ w.header, '\n' ∉ l.toList := by
  have htitle : '\n' ∉ title.toList := by decide +kernel
  have hmade : '\n' ∉ "# Generated ".toList := by decide +kernel
  unfold header
  split
  · rename_i time htime
    intro l hl
    rcases List.mem_cons.mp hl with rfl | hl
    · exact htitle
    · rw [List.mem_singleton.mp hl, String.toList_append, List.mem_append, not_or]
      exact ⟨hmade, hstamp time htime⟩
  · intro l hl
    rw [List.mem_singleton.mp hl]
    exact htitle

end Writer

end BuildChain
