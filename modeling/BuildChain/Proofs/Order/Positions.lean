import BuildChain.Proofs.Chain.Sections
import BuildChain.Proofs.Order

/-!
# Arranging by positions

Sections are put into order by their positions: those of the sections with a place are sorted by
that place, ties as they stand, the others follow, and the sections are taken out of their slots in
this sequence. Every position comes once, so no section is lost or taken twice. The sequence differs
from the one before exactly when the names do, since positions of the same rank never change places.
-/

namespace BuildChain.Order

/-! ## Sorting by a key -/

section SortBy

variable {α β : Type} (key : α → Nat) (l : List α)

theorem sortBy_perm : (sortBy key l).Perm l := List.mergeSort_perm l _

theorem pairwise_sortBy : (sortBy key l).Pairwise fun x y => key x ≤ key y := by
  have htrans (x y z : α) (hxy : decide (key x ≤ key y) = true)
      (hyz : decide (key y ≤ key z) = true) : decide (key x ≤ key z) = true :=
    decide_eq_true (Nat.le_trans (of_decide_eq_true hxy) (of_decide_eq_true hyz))
  have htotal (x y : α) : (decide (key x ≤ key y) || decide (key y ≤ key x)) = true := by
    simpa using Nat.le_total (key x) (key y)
  exact (List.pairwise_mergeSort htrans htotal l).imp fun h => of_decide_eq_true h

theorem sortBy_eq_self {l : List α} (h : l.Pairwise fun x y => key x ≤ key y) :
    sortBy key l = l :=
  List.mergeSort_of_pairwise (h.imp decide_eq_true)

theorem map_sortBy (key : β → Nat) (f : α → β) (l : List α) :
    (sortBy (fun x => key (f x)) l).map f = sortBy key (l.map f) :=
  List.map_mergeSort fun _ _ _ _ => rfl

/-- Elements that tie stay in their order, whatever is sorted around them. -/
theorem filter_sortBy {p : α → Bool} (htie : ∀ x y, p x = true → p y = true → key x = key y) :
    (sortBy key l).filter p = l.filter p := by
  have hkept : (l.filter p).Sublist (sortBy key l) := by
    refine List.sublist_mergeSort (fun x y z hxy hyz => ?_) (fun x y => ?_) ?_ List.filter_sublist
    · exact decide_eq_true (Nat.le_trans (of_decide_eq_true hxy) (of_decide_eq_true hyz))
    · simpa using Nat.le_total (key x) (key y)
    · refine List.pairwise_of_forall_mem_list fun x hx y hy => decide_eq_true (Nat.le_of_eq ?_)
      exact htie x y (List.mem_filter.mp hx).2 (List.mem_filter.mp hy).2
  -- the elements that tie are as many in both lists, so no other one stands between them
  have hsub := hkept.filter p
  simp only [List.filter_filter, Bool.and_self] at hsub
  exact (hsub.eq_of_length ((sortBy_perm key l).filter p).length_eq.symm).symm

end SortBy

variable (o : Order)

/-! ## Arranging is sorting -/

theorem contains_eq (name : String) :
    o.contains name = decide (o.rank name < o.names.length) := by
  rw [contains, rank]
  cases h : o.position? name with
  | none => simp
  | some i => simpa using o.position?_lt h

theorem rank_eq_of_position? {i : Option Nat} {s s' : Section}
    (hs : (o.position? s.name == i) = true) (hs' : (o.position? s'.name == i) = true) :
    o.rank s.name = o.rank s'.name := by
  rw [rank, rank, beq_iff_eq.mp hs, beq_iff_eq.mp hs']

/-- Only one sequence stands by rank and keeps the sections of every place in their order. -/
theorem arrange_unique {sections sorted : List Section}
    (hsorted : sorted.Pairwise fun s s' => o.rank s.name ≤ o.rank s'.name)
    (hplaced : ∀ i, o.placed i sorted = o.placed i sections) : o.arrange sections = sorted := by
  have hself := o.arrange_eq_self hsorted
  rw [arrange_eq] at hself ⊢
  simpa only [hplaced] using hself

/-- The sections of one place are all among those with a place or all among the others. -/
theorem placed_parts (i : Option Nat) (sections : List Section) :
    o.placed i (sections.filter fun s => o.contains s.name) ++
      o.placed i (sections.filter fun s => !o.contains s.name) = o.placed i sections := by
  have hnone {p : Section → Bool} (hp : ∀ s, o.position? s.name = i → p s = false) :
      o.placed i (sections.filter p) = [] := by
    refine List.filter_eq_nil_iff.mpr fun s hs hplace => ?_
    have hs := (List.mem_filter.mp hs).2
    rw [hp s (beq_iff_eq.mp hplace)] at hs
    cases hs
  have hall {p : Section → Bool} (hp : ∀ s, o.position? s.name = i → p s = true) :
      o.placed i (sections.filter p) = o.placed i sections := by
    rw [placed, List.filter_filter]
    refine List.filter_congr fun s _ => ?_
    cases hplace : o.position? s.name == i with
    | false => rfl
    | true => exact hp s (beq_iff_eq.mp hplace)
  cases i with
  | none =>
    have hout : ∀ s : Section, o.position? s.name = none → o.contains s.name = false :=
      fun s hs => by rw [contains, hs]; rfl
    rw [hnone hout, hall fun s hs => by rw [hout s hs]; rfl, List.nil_append]
  | some i =>
    have hin : ∀ s : Section, o.position? s.name = some i → o.contains s.name = true :=
      fun s hs => by rw [contains, hs]; rfl
    rw [hall hin, hnone fun s hs => by rw [hin s hs]; rfl, List.append_nil]

/-- The sections with a place are sorted by it, and the others follow as they stand. -/
theorem arrange_eq_append (sections : List Section) :
    o.arrange sections =
      sortBy (fun s => o.rank s.name) (sections.filter fun s => o.contains s.name) ++
        sections.filter fun s => !o.contains s.name := by
  have hlast : ∀ s ∈ sections.filter fun s => !o.contains s.name,
      o.rank s.name = o.names.length := fun s hs =>
    o.rank_of_not_contains (by simpa using (List.mem_filter.mp hs).2)
  refine o.arrange_unique (List.pairwise_append.mpr ⟨pairwise_sortBy _ _, ?_, ?_⟩) fun i => ?_
  · refine List.pairwise_of_forall_mem_list fun s hs s' hs' => Nat.le_of_eq ?_
    rw [hlast s hs, hlast s' hs']
  · intro s _ s' hs'
    rw [hlast s' hs']
    exact o.rank_le s.name
  · rw [placed_append, ← o.placed_parts i sections]
    exact congrArg (· ++ _) (filter_sortBy _ _ fun _ _ => o.rank_eq_of_position?)

/-! ## The positions are those of arranging -/

/-- The sections with their positions, in the sequence in which they are taken. -/
def entries (o : Order) (sections : List Section) : List (Section × Nat) :=
  sortBy (fun e => o.rank e.1.name) (sections.zipIdx.filter fun e => o.contains e.1.name) ++
    sections.zipIdx.filter fun e => !o.contains e.1.name

theorem positions_eq (sections : List Section) :
    o.positions sections = (o.entries sections).map Prod.snd := by
  have hranked : (sections.zipIdx.filterMap fun e => (o.position? e.1.name).map fun i => (i, e.2)) =
      (sections.zipIdx.filter fun e => o.contains e.1.name).map
        fun e => (o.rank e.1.name, e.2) := by
    rw [← List.filterMap_eq_filter, ← List.filterMap_eq_map, List.filterMap_filterMap]
    refine List.filterMap_congr fun e _ => ?_
    unfold contains rank
    cases h : o.position? e.1.name <;> simp [Option.guard, h]
  have hothers : (sections.zipIdx.filter fun e => (o.position? e.1.name).isNone) =
      sections.zipIdx.filter fun e => !o.contains e.1.name := by
    refine List.filter_congr fun e _ => ?_
    unfold contains
    cases o.position? e.1.name <;> rfl
  rw [positions, hranked, hothers, entries, ← map_sortBy Prod.fst, List.map_append, List.map_map]
  rfl

theorem entries_perm (sections : List Section) :
    (o.entries sections).Perm sections.zipIdx :=
  ((sortBy_perm _ _).append_right _).trans (List.filter_append_perm _ _)

theorem map_fst_entries (sections : List Section) :
    (o.entries sections).map Prod.fst = o.arrange sections := by
  have hfilter (p : Section → Bool) :
      (sections.zipIdx.filter fun e => p e.1).map Prod.fst = sections.filter p := by
    conv_rhs => rw [← List.zipIdx_map_fst 0 sections, List.filter_map]
    rfl
  rw [arrange_eq_append, entries, List.map_append, hfilter fun s => !o.contains s.name,
    ← hfilter fun s => o.contains s.name, ← map_sortBy (fun s : Section => o.rank s.name) Prod.fst]

/-- Every position comes once. -/
theorem positions_perm (sections : List Section) :
    (o.positions sections).Perm (List.range sections.length) := by
  rw [positions_eq, List.range_eq_range', ← List.zipIdx_map_snd 0 sections]
  exact (o.entries_perm sections).map Prod.snd

/-- The element at each position of some numbered elements is that element. -/
theorem filterMap_getElem? {α : Type} {l : List α} {entries : List (α × Nat)}
    (h : entries ⊆ l.zipIdx) :
    (entries.map Prod.snd).filterMap (fun i => l[i]?) = entries.map Prod.fst := by
  rw [List.filterMap_map, ← List.filterMap_eq_map]
  exact List.filterMap_congr fun e he => List.mem_zipIdx_iff_getElem?.mp (h he)

/-- Taking the sections position by position arranges them. -/
theorem filterMap_positions (sections : List Section) :
    (o.positions sections).filterMap (fun i => sections[i]?) = o.arrange sections := by
  rw [positions_eq, filterMap_getElem? (o.entries_perm sections).subset, map_fst_entries]

/-- Slots are emptied one at a time, so a sequence without repetition takes what they held. -/
theorem takeSlots_eq {α : Type} {positions : List Nat} (hnodup : positions.Nodup)
    (slots : List (Option α)) :
    takeSlots slots positions = positions.filterMap fun i => slots[i]?.join := by
  induction positions generalizing slots with
  | nil => rfl
  | cons i rest ih =>
    obtain ⟨hi, hrest⟩ := List.nodup_cons.mp hnodup
    have hothers : (rest.filterMap fun j => (slots.set i none)[j]?.join) =
        rest.filterMap fun j => slots[j]?.join := by
      refine List.filterMap_congr fun j hj => ?_
      have hij : i ≠ j := fun h => hi (h ▸ hj)
      rw [List.getElem?_set_ne hij]
    rw [takeSlots, List.filterMap_cons]
    cases slots[i]?.join with
    | none => exact ih hrest slots
    | some x => exact congrArg (x :: ·) ((ih hrest _).trans hothers)

/-! ## What moves -/

/-- A chain is in order exactly when its sections stand by rank. -/
theorem isOrdered_iff {c : Chain} : o.isOrdered c = true ↔
    c.sections.Pairwise fun s s' => o.rank s.name ≤ o.rank s'.name := by
  constructor
  · intro h
    have hnames : (o.arrange c.sections).map Section.name = c.sections.map Section.name :=
      beq_iff_eq.mp h
    have hsorted : ((o.arrange c.sections).map Section.name).Pairwise fun n n' =>
        o.rank n ≤ o.rank n' := List.pairwise_map.mpr (o.arrange_sorted c.sections)
    rw [hnames] at hsorted
    exact (List.pairwise_map (f := Section.name)).mp hsorted
  · exact o.isOrdered_of_sorted

/-- Where the sections stand by rank, each of them is taken from where it stands. -/
theorem positions_eq_range {sections : List Section}
    (h : sections.Pairwise fun s s' => o.rank s.name ≤ o.rank s'.name) :
    o.positions sections = List.range sections.length := by
  have hentries : sections.zipIdx.Pairwise fun e e' => o.rank e.1.name ≤ o.rank e'.1.name := by
    rw [← List.zipIdx_map_fst 0 sections] at h
    exact (List.pairwise_map (f := Prod.fst)).mp h
  have hcut := filter_append_filter hentries o.names.length
  simp only [← contains_eq] at hcut
  rw [positions_eq, entries, sortBy_eq_self _ (hentries.sublist List.filter_sublist), hcut,
    List.zipIdx_map_snd, List.range_eq_range']

/-- No position has moved exactly when they stand as they are counted. -/
theorem any_zipIdx_ne_eq_false_iff {positions : List Nat} :
    (positions.zipIdx.any fun e => e.1 != e.2) = false ↔
      positions = List.range positions.length := by
  rw [List.any_eq_false]
  constructor
  · intro h
    refine List.ext_getElem (by simp) fun i hi _ => ?_
    have hat : (positions[i], i) ∈ positions.zipIdx :=
      List.mem_zipIdx_iff_getElem?.mpr (List.getElem?_eq_getElem hi)
    simpa using h _ hat
  · intro h e he
    have hat := List.mem_zipIdx_iff_getElem?.mp he
    rw [h, List.getElem?_eq_some_iff] at hat
    obtain ⟨hlt, hat⟩ := hat
    rw [List.getElem_range] at hat
    simp [hat]

/-- The way by positions gives the arranged chain, and tells whether names have moved. -/
theorem resequence_eq (c : Chain) : o.resequence c = (o.reorder c, !o.isOrdered c) := by
  have hlength : (o.positions c.sections).length = c.sections.length := by
    rw [(o.positions_perm c.sections).length_eq, List.length_range]
  by_cases hordered : o.isOrdered c = true
  · have hsorted := o.isOrdered_iff.mp hordered
    have hstay := any_zipIdx_ne_eq_false_iff.mpr
      ((o.positions_eq_range hsorted).trans (congrArg List.range hlength.symm))
    rw [resequence, hstay, hordered, reorder, o.arrange_eq_self hsorted]
    rfl
  · have hmoves : (o.positions c.sections).zipIdx.any (fun e => e.1 != e.2) = true := by
      rw [← Bool.not_eq_false]
      intro hstay
      have hrange := any_zipIdx_ne_eq_false_iff.mp hstay
      rw [hlength] at hrange
      -- positions that stay take the sections as they stand, so arranging does nothing
      have harranged := o.filterMap_positions c.sections
      rw [hrange, List.range_eq_range', ← List.zipIdx_map_snd 0 c.sections,
        filterMap_getElem? (List.Subset.refl _), List.zipIdx_map_fst] at harranged
      refine hordered (o.isOrdered_iff.mpr ?_)
      rw [harranged]
      exact o.arrange_sorted c.sections
    have htaken : takeSlots (c.sections.map some) (o.positions c.sections) =
        o.arrange c.sections := by
      rw [takeSlots_eq ((o.positions_perm c.sections).nodup_iff.mpr List.nodup_range),
        ← filterMap_positions]
      refine List.filterMap_congr fun i _ => ?_
      rw [List.getElem?_map]
      cases c.sections[i]? <;> rfl
    rw [resequence, hmoves, htaken, Bool.eq_false_iff.mpr hordered]
    rfl

/-! ## What reordering does -/

/-- A chain with its sections in canonical order, and whether the names had to move for it. -/
structure IsArrangement (o : Order) (c c' : Chain) (moved : Bool) : Prop where
  perm : c'.sections.Perm c.sections
  /-- Sections with a place come first, and never one of a later place before one of an earlier. -/
  byPlace : c'.sections.Pairwise fun s s' => ∀ i', o.position? s'.name = some i' →
    ∃ i ≤ i', o.position? s.name = some i
  /-- Sections of the same place keep their order, and so do those of no place. -/
  stable : ∀ place : Option Nat, (c'.sections.filter fun s => o.position? s.name == place) =
    c.sections.filter fun s => o.position? s.name == place
  rest : c' = { c with sections := c'.sections }
  moved_iff : moved = true ↔ c'.names ≠ c.names
  unmoved : moved = false → c' = c

theorem exists_position?_of_rank_le {name name' : String} (h : o.rank name ≤ o.rank name')
    {i' : Nat} (hi' : o.position? name' = some i') : ∃ i ≤ i', o.position? name = some i := by
  rw [o.rank_of_position? hi'] at h
  have hcontains : o.contains name = true := by
    rw [contains_eq, decide_eq_true_eq]
    exact Nat.lt_of_le_of_lt h (o.position?_lt hi')
  obtain ⟨i, hi⟩ := Option.isSome_iff_exists.mp hcontains
  exact ⟨i, o.rank_of_position? hi ▸ h, hi⟩

/-- Reordering is the stable sort by place; it is done by positions, tells whether names have moved,
and does nothing when it is done again. -/
theorem reorder_isArrangement (o : Order) (c : Chain) :
    o.IsArrangement c (o.reorder c) (!o.isOrdered c) ∧
      o.resequence c = (o.reorder c, !o.isOrdered c) ∧
      o.isOrdered (o.reorder c) = true ∧
      o.resequence (o.reorder c) = (o.reorder c, false) := by
  refine ⟨?_, o.resequence_eq c, o.isOrdered_reorder c, ?again⟩
  case again => rw [resequence_eq, reorder_reorder, isOrdered_reorder, Bool.not_true]
  constructor
  case perm => exact o.arrange_perm c.sections
  case byPlace =>
    exact (o.arrange_sorted c.sections).imp fun hle i' hi' => o.exists_position?_of_rank_le hle hi'
  case stable => exact fun place => o.placed_arrange place c.sections
  case rest => rfl
  case moved_iff => rw [Bool.not_eq_true', isOrdered, beq_eq_false_iff_ne]; rfl
  case unmoved =>
    intro h
    have hsorted := o.isOrdered_iff.mp (Bool.not_eq_false' .. ▸ h)
    rw [reorder, o.arrange_eq_self hsorted]

end BuildChain.Order
