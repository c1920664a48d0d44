import BuildChain.Order
import Mathlib.Data.List.Basic
import Mathlib.Tactic.Common

/-!
# Arranging sections

Arranging groups the sections by the place of their names, keeps each group as it is and puts the
groups one after the other. It therefore permutes the sections, sorts them by rank and leaves
sections that stand by rank already where they are.
-/

namespace BuildChain.Order

variable (o : Order)

/-! ## Places -/

theorem position?_eq_some_iff {name : String} {i : Nat} : o.position? name = some i ↔
    ∃ h : i < o.names.length, Text.sameName o.names[i] name = true ∧
      ∀ j (hj : j < i), Text.sameName o.names[j] name = false := by
  simp only [position?, List.findIdx?_eq_some_iff_getElem, Bool.not_eq_true]

theorem position?_congr {name name' : String} (h : Text.sameName name name' = true) :
    o.position? name = o.position? name' := by
  rw [Text.sameName_iff] at h
  simp only [position?, Text.sameName, h]

/-- The name at a place has that place or an earlier one. -/
theorem exists_position? {i : Nat} (hi : i < o.names.length) :
    ∃ j ≤ i, o.position? o.names[i] = some j := by
  cases hp : o.position? o.names[i] with
  | none =>
    rw [position?, List.findIdx?_eq_none_iff] at hp
    have hne := hp o.names[i] (List.getElem_mem hi)
    simp at hne
  | some j =>
    refine ⟨j, ?_, rfl⟩
    obtain ⟨hj, -, hfirst⟩ := o.position?_eq_some_iff.mp hp
    by_contra hlt
    have hne := hfirst i (Nat.lt_of_not_le hlt)
    simp at hne

theorem position?_lt {name : String} {i : Nat} (h : o.position? name = some i) :
    i < o.names.length := (List.findIdx?_eq_some_iff_findIdx_eq.mp h).1

/-- The place of a name, or the one after the last for a name without a place. -/
def rank (name : String) : Nat := (o.position? name).getD o.names.length

theorem rank_congr {name name' : String} (h : Text.sameName name name' = true) :
    o.rank name = o.rank name' := by
  rw [rank, o.position?_congr h, rank]

theorem rank_of_position? {name : String} {i : Nat} (h : o.position? name = some i) :
    o.rank name = i := by
  rw [rank, h, Option.getD_some]

theorem rank_le (name : String) : o.rank name ≤ o.names.length := by
  cases h : o.position? name with
  | none => exact Nat.le_of_eq (by rw [rank, h, Option.getD_none])
  | some i => exact o.rank_of_position? h ▸ Nat.le_of_lt (o.position?_lt h)

theorem contains_iff {name : String} :
    o.contains name = true ↔ ∃ n ∈ o.names, Text.sameName n name = true := by
  rw [contains, position?, List.findIdx?_isSome, List.any_eq_true]

theorem rank_of_not_contains {name : String} (h : o.contains name = false) :
    o.rank name = o.names.length := by
  rw [contains, Option.isSome_eq_false_iff, Option.isNone_iff_eq_none] at h
  rw [rank, h, Option.getD_none]

/-- No two names of the order are the same up to case. -/
def Distinct : Prop := o.names.Pairwise fun n n' => Text.sameName n n' = false

instance : Decidable o.Distinct :=
  inferInstanceAs (Decidable (o.names.Pairwise fun n n' => Text.sameName n n' = false))

variable {o}

theorem Distinct.position? (h : o.Distinct) {i : Nat} (hi : i < o.names.length) :
    o.position? o.names[i] = some i :=
  o.position?_eq_some_iff.mpr
    ⟨hi, Text.sameName_refl _, fun j hj => List.pairwise_iff_getElem.mp h j i _ hi hj⟩

/-- The names of an order stand by rank, below every name that it does not have. -/
theorem Distinct.pairwise_rank (h : o.Distinct) :
    o.names.Pairwise fun n n' => o.rank n < o.rank n' :=
  List.pairwise_iff_getElem.mpr fun i j hi hj hij => by
    rwa [o.rank_of_position? (h.position? hi), o.rank_of_position? (h.position? hj)]

theorem rank_lt_of_mem {n : String} (hn : n ∈ o.names) : o.rank n < o.names.length := by
  obtain ⟨i, hi, rfl⟩ := List.getElem_of_mem hn
  obtain ⟨j, -, hj⟩ := o.exists_position? hi
  exact o.rank_of_position? hj ▸ o.position?_lt hj

theorem Distinct.rank_lt (h : o.Distinct) {before between after : List String} {n n' : String}
    (hnames : o.names = before ++ n :: (between ++ n' :: after)) : o.rank n < o.rank n' := by
  have hranks := h.pairwise_rank
  rw [hnames, List.pairwise_append, List.pairwise_cons] at hranks
  exact hranks.2.1.1 n' (by simp)

/-- A name that ranks between two names of the order is one of those from the first to the second,
which may be it as well. -/
theorem Distinct.exists_between (h : o.Distinct) {before between after : List String}
    {n n' : String} (hnames : o.names = before ++ n :: (between ++ n' :: after)) (name : String)
    (hlow : o.rank n ≤ o.rank name) (hhigh : o.rank name ≤ o.rank n') :
    ∃ m ∈ n :: (between ++ [n']), Text.sameName m name = true := by
  have hcontains : o.contains name = true := by
    by_contra hnot
    have hrank := o.rank_of_not_contains (Bool.not_eq_true _ ▸ hnot)
    have hlt : o.rank n' < o.names.length := rank_lt_of_mem (by rw [hnames]; simp)
    omega
  obtain ⟨m, hm, hsame⟩ := o.contains_iff.mp hcontains
  have hrank := o.rank_congr hsame
  have hranks := h.pairwise_rank
  simp only [hnames, List.pairwise_append, List.pairwise_cons, List.mem_append,
    List.mem_cons] at hranks hm
  obtain ⟨-, ⟨-, -, ⟨hafter, -⟩, -⟩, hbefore⟩ := hranks
  refine ⟨m, ?_, hsame⟩
  rw [List.mem_cons, List.mem_append, List.mem_singleton]
  rcases hm with hm | hm | hm | hm | hm
  · have hlt := hbefore m hm n (.inl rfl)
    omega
  · exact .inl hm
  · exact .inr (.inl hm)
  · exact .inr (.inr hm)
  · have hlt := hafter m hm
    omega

variable (o)

/-! ## Groups -/

/-- The sections whose names have a place, in the order in which they stand. -/
def placed (i : Option Nat) (sections : List Section) : List Section :=
  sections.filter fun s => o.position? s.name == i

theorem arrange_eq (sections : List Section) :
    o.arrange sections =
      ((List.range o.names.length).flatMap fun i => o.placed (some i) sections) ++
        o.placed none sections := by
  have hplaced : ∀ i, ((sections.map fun s => (o.position? s.name, s)).filterMap fun e =>
      if e.1 == i then some e.2 else none) = o.placed i sections := fun i => by
    rw [List.filterMap_map, placed, ← List.filterMap_eq_filter]
    congr 1
  simp only [arrange, hplaced]

theorem mem_placed {i : Option Nat} {sections : List Section} {s : Section} :
    s ∈ o.placed i sections ↔ s ∈ sections ∧ o.position? s.name = i := by
  simp [placed]

theorem placed_placed (i j : Option Nat) (sections : List Section) :
    o.placed i (o.placed j sections) = if j = i then o.placed i sections else [] := by
  unfold placed
  rw [List.filter_filter]
  split
  · rename_i hij
    subst hij
    simp only [Bool.and_self]
  · rename_i hij
    refine List.filter_eq_nil_iff.mpr fun s _ h => ?_
    rw [Bool.and_eq_true, beq_iff_eq, beq_iff_eq] at h
    exact hij (h.2.symm.trans h.1)

theorem placed_append (i : Option Nat) (a b : List Section) :
    o.placed i (a ++ b) = o.placed i a ++ o.placed i b := List.filter_append a b

/-- Among groups that are told apart by a number, only one holds the sections of a place. -/
theorem placed_groups (k n : Nat) (sections : List Section) :
    o.placed (some k) ((List.range n).flatMap fun i => o.placed (some i) sections) =
      if k < n then o.placed (some k) sections else [] := by
  induction n with
  | zero => rfl
  | succ n ih =>
    rw [List.range_succ, List.flatMap_append, placed_append, ih, List.flatMap_singleton,
      placed_placed]
    simp only [Option.some.injEq]
    rcases Nat.lt_trichotomy k n with hlt | heq | hgt
    · rw [if_pos hlt, if_neg (by omega), if_pos (by omega), List.append_nil]
    · rw [if_neg (by omega), if_pos heq.symm, if_pos (by omega), List.nil_append]
    · rw [if_neg (by omega), if_neg (by omega), if_neg (by omega), List.nil_append]

/-- Arranging keeps the sections of every place, in their order. -/
theorem placed_arrange (i : Option Nat) (sections : List Section) :
    o.placed i (o.arrange sections) = o.placed i sections := by
  rw [arrange_eq, placed_append, placed_placed]
  cases i with
  | none =>
    have hnone : o.placed none ((List.range o.names.length).flatMap fun i =>
        o.placed (some i) sections) = [] := by
      refine List.filter_eq_nil_iff.mpr fun s hs h => ?_
      obtain ⟨i, _, hi⟩ := List.mem_flatMap.mp hs
      rw [beq_iff_eq, (o.mem_placed.mp hi).2] at h
      cases h
    rw [hnone, List.nil_append, if_pos rfl]
  | some k =>
    rw [placed_groups, if_neg (Option.some_ne_none k).symm, List.append_nil]
    split
    · rfl
    · rename_i hk
      refine (List.filter_eq_nil_iff.mpr fun s _ h => ?_).symm
      exact hk (o.position?_lt (beq_iff_eq.mp h))

/-- Arranging keeps the sections of every name, in their order. -/
theorem filter_isNamed_arrange (name : String) (sections : List Section) :
    ((o.arrange sections).filter fun s => s.isNamed name) =
      sections.filter fun s => s.isNamed name := by
  -- all of them stand at the place of the name
  have hplace (l : List Section) : (l.filter fun s => s.isNamed name) =
      (o.placed (o.position? name) l).filter fun s => s.isNamed name := by
    rw [placed, List.filter_filter]
    refine List.filter_congr fun s _ => ?_
    cases hname : s.isNamed name with
    | false => rfl
    | true => rw [o.position?_congr hname, beq_self_eq_true, Bool.and_self]
  rw [hplace, placed_arrange, ← hplace]

theorem filter_not_contains (sections : List Section) :
    (sections.filter fun s => !o.contains s.name) = o.placed none sections := by
  refine List.filter_congr fun s _ => ?_
  rw [contains]
  cases o.position? s.name <;> rfl

/-- Arranging keeps the sections without a place, in their order. -/
theorem filter_not_contains_arrange (sections : List Section) :
    ((o.arrange sections).filter fun s => !o.contains s.name) =
      sections.filter fun s => !o.contains s.name := by
  rw [filter_not_contains, filter_not_contains, placed_arrange]

/-! ## What arranging does -/

theorem arrange_perm (sections : List Section) : (o.arrange sections).Perm sections := by
  refine List.perm_iff_count.mpr fun s => ?_
  have hgroup : ∀ l, (o.placed (o.position? s.name) l).count s = l.count s := fun l =>
    List.count_filter (by simp)
  rw [← hgroup, placed_arrange, hgroup]

theorem arrange_arrange (sections : List Section) :
    o.arrange (o.arrange sections) = o.arrange sections := by
  rw [o.arrange_eq (o.arrange sections)]
  simp only [placed_arrange]
  rw [← arrange_eq]

theorem rank_of_mem_placed {i : Option Nat} {sections : List Section} {s : Section}
    (hs : s ∈ o.placed i sections) : o.rank s.name = i.getD o.names.length := by
  rw [rank, (o.mem_placed.mp hs).2]

theorem arrange_sorted (sections : List Section) :
    (o.arrange sections).Pairwise fun s s' => o.rank s.name ≤ o.rank s'.name := by
  have hgroup : ∀ i, (o.placed i sections).Pairwise fun s s' => o.rank s.name ≤ o.rank s'.name :=
    fun i => List.pairwise_of_forall_mem_list fun s hs s' hs' => by
      exact Nat.le_of_eq ((o.rank_of_mem_placed hs).trans (o.rank_of_mem_placed hs').symm)
  rw [arrange_eq, List.pairwise_append, List.pairwise_flatMap]
  refine ⟨⟨fun i _ => hgroup _, ?_⟩, hgroup none, ?_⟩
  · refine List.pairwise_lt_range.imp fun {i j} hij s hs s' hs' => ?_
    rw [o.rank_of_mem_placed hs, o.rank_of_mem_placed hs']
    exact Nat.le_of_lt hij
  · intro s hs s' hs'
    obtain ⟨i, hi, hs⟩ := List.mem_flatMap.mp hs
    rw [o.rank_of_mem_placed hs, o.rank_of_mem_placed hs']
    exact Nat.le_of_lt (List.mem_range.mp hi)

/-! ## Sections that stand by rank -/

/-- Where a measure never goes down, the elements below a bound come first. -/
theorem filter_append_filter {α : Type} {f : α → Nat} {l : List α}
    (h : l.Pairwise fun x y => f x ≤ f y) (n : Nat) :
    (l.filter fun x => f x < n) ++ (l.filter fun x => !decide (f x < n)) = l := by
  induction l with
  | nil => rfl
  | cons x l ih =>
    obtain ⟨hfirst, hrest⟩ := List.pairwise_cons.mp h
    by_cases hx : f x < n
    · simpa [hx] using ih hrest
    · have hnone : (l.filter fun y => f y < n) = [] := by
        refine List.filter_eq_nil_iff.mpr fun y hy => ?_
        rw [decide_eq_true_eq]
        exact fun hlt => hx (Nat.lt_of_le_of_lt (hfirst y hy) hlt)
      have hrest := ih hrest
      rw [hnone, List.nil_append] at hrest
      simp [hx, hnone, hrest]

theorem placed_some {i : Nat} (hi : i < o.names.length) (sections : List Section) :
    o.placed (some i) sections = sections.filter fun s => o.rank s.name = i := by
  refine List.filter_congr fun s _ => ?_
  rw [rank]
  cases o.position? s.name with
  | none => simp [Nat.ne_of_gt hi]
  | some j => simp [beq_eq_decide]

theorem placed_none (sections : List Section) :
    o.placed none sections = sections.filter fun s => !decide (o.rank s.name < o.names.length) := by
  refine List.filter_congr fun s _ => ?_
  rw [rank]
  cases h : o.position? s.name with
  | none => simp
  | some j => simpa using o.position?_lt h

/-- Sections that stand by rank are arranged already. -/
theorem arrange_eq_self {sections : List Section}
    (h : sections.Pairwise fun s s' => o.rank s.name ≤ o.rank s'.name) :
    o.arrange sections = sections := by
  have hgroups : ∀ n ≤ o.names.length,
      ((List.range n).flatMap fun i => o.placed (some i) sections) =
        sections.filter fun s => o.rank s.name < n := by
    intro n
    induction n with
    | zero =>
      intro _
      simp
    | succ n ih =>
      intro hn
      -- the sections below `n + 1` are those below `n` and then those at `n`
      have hcut := filter_append_filter
        (h.sublist (List.filter_sublist (p := fun s => decide (o.rank s.name < n + 1)))) n
      rw [List.filter_filter, List.filter_filter] at hcut
      rw [List.range_succ, List.flatMap_append, ih (by omega), List.flatMap_singleton,
        o.placed_some hn, ← hcut]
      congr 1
      · refine List.filter_congr fun s _ => ?_
        grind
      · refine List.filter_congr fun s _ => ?_
        grind
  rw [arrange_eq, hgroups _ (Nat.le_refl _), placed_none]
  exact filter_append_filter h _

/-! ## Reordering a chain -/

theorem reorder_reorder (c : Chain) : o.reorder (o.reorder c) = o.reorder c := by
  simp only [reorder, arrange_arrange]

theorem isOrdered_reorder (c : Chain) : o.isOrdered (o.reorder c) = true := by
  simp only [isOrdered, reorder, arrange_arrange, beq_self_eq_true]

theorem isOrdered_of_sorted {c : Chain}
    (h : c.sections.Pairwise fun s s' => o.rank s.name ≤ o.rank s'.name) :
    o.isOrdered c = true := by
  rw [isOrdered, o.arrange_eq_self h, beq_self_eq_true]

theorem mem_sections_reorder {c : Chain} {s : Section} :
    s ∈ (o.reorder c).sections ↔ s ∈ c.sections := (o.arrange_perm c.sections).mem_iff

end BuildChain.Order
