import BuildChain.Chain.Basic
import BuildChain.Proofs.OrderedMap
import BuildChain.Proofs.Text.Fold
import BuildChain.Proofs.Text.Trim

/-!
# Looking up sections and their properties

A property of a chain is looked up in the first section of a name. Setting a property under a name
changes that property only, and it adds a section exactly when the name has none.
-/

namespace BuildChain

/-! ## Sections -/

namespace Section

@[simp] theorem isNamed_set (s : Section) (suffix value name : String) :
    (s.set suffix value).isNamed name = s.isNamed name := rfl

theorem get?_set (s : Section) (suffix value p : String) :
    (s.set suffix value).get? p = if p = suffix then some value else s.get? p :=
  OrderedMap.get?_insert s.properties suffix value p

theorem get?_erase (s : Section) (suffix p : String) :
    (s.erase suffix).get? p = if p = suffix then none else s.get? p :=
  OrderedMap.get?_erase s.properties suffix p

theorem set_self {s : Section} {suffix value : String} (h : s.get? suffix = some value) :
    s.set suffix value = s := by
  rw [set, OrderedMap.insert_self h]

theorem set_set (s : Section) (suffix value value' : String) :
    (s.set suffix value).set suffix value' = s.set suffix value' := by
  rw [set, set, OrderedMap.insert_insert, set]

theorem erase_eq_self {s : Section} {suffix : String} (h : s.get? suffix = none) :
    s.erase suffix = s := by
  rw [erase, OrderedMap.erase_eq_self h]

theorem nonBlank?_congr {s s' : Section} {suffix : String} (h : s'.get? suffix = s.get? suffix) :
    s'.nonBlank? suffix = s.nonBlank? suffix := by
  rw [nonBlank?, h, nonBlank?]

theorem nonBlank?_of_get? {s : Section} {suffix value : String} (h : s.get? suffix = some value)
    (hvalue : Text.isBlank value = false) : s.nonBlank? suffix = some value := by
  simp [nonBlank?, h, hvalue]

theorem nonBlank?_of_get?_none {s : Section} {suffix : String} (h : s.get? suffix = none) :
    s.nonBlank? suffix = none := by
  rw [nonBlank?, h, Option.filter_none]

theorem has_congr {s s' : Section} {suffix : String} (h : s'.get? suffix = s.get? suffix) :
    s'.has suffix = s.has suffix := by
  rw [has, nonBlank?_congr h, has]

theorem has_of_get? {s : Section} {suffix value : String} (h : s.get? suffix = some value)
    (hvalue : Text.isBlank value = false) : s.has suffix = true := by
  rw [has, nonBlank?_of_get? h hvalue, Option.isSome_some]

theorem has_of_get?_none {s : Section} {suffix : String} (h : s.get? suffix = none) :
    s.has suffix = false := by
  rw [has, nonBlank?_of_get?_none h, Option.isSome_none]

theorem isNamed_congr (s : Section) {name name' : String} (h : Text.sameName name name' = true) :
    s.isNamed name = s.isNamed name' := by
  rw [Text.sameName_iff] at h
  simp only [isNamed, Text.sameName, h]

/-- Every property is listed once, the known ones first. -/
theorem mem_ordered {s : Section} {suffix value : String} :
    (suffix, value) ∈ s.ordered ↔ s.get? suffix = some value := by
  unfold ordered
  rw [List.mem_append, List.mem_filterMap, List.mem_filter, OrderedMap.mem_toList_iff]
  constructor
  · rintro (⟨p, _, h⟩ | ⟨h, _⟩)
    · obtain ⟨v, hv, heq⟩ := Option.map_eq_some_iff.mp h
      cases heq
      exact hv
    · exact h
  · intro h
    by_cases hknown : suffix ∈ Property.known
    · exact .inl ⟨suffix, hknown, by rw [h]; rfl⟩
    · exact .inr ⟨h, by simp [hknown]⟩

theorem nodup_keys_ordered (s : Section) : (s.ordered.map Prod.fst).Nodup := by
  have hknown : ((Property.known.filterMap fun suffix =>
      (s.get? suffix).map fun v => (suffix, v)).map Prod.fst).Sublist Property.known := by
    generalize Property.known = known
    induction known with
    | nil => exact List.Sublist.refl []
    | cons p known ih =>
      cases hp : s.get? p with
      | none => simpa [hp] using ih.cons p
      | some v => simpa [hp] using ih.cons_cons p
  rw [Section.ordered, List.map_append, List.nodup_append]
  refine ⟨hknown.nodup (by decide),
    (List.filter_sublist.map Prod.fst).nodup s.properties.nodup_keys, ?_⟩
  rintro p hp q hq rfl
  obtain ⟨e, he, rfl⟩ := List.mem_map.mp hq
  have hnot := (List.mem_filter.mp he).2
  simp [hknown.subset hp] at hnot

theorem mem_written {s : Section} {suffix value : String} :
    (suffix, value) ∈ s.written ↔
      ∃ raw, s.get? suffix = some raw ∧ Text.isBlank raw = false ∧ value = Text.trim raw := by
  unfold written
  rw [List.mem_filterMap]
  constructor
  · rintro ⟨⟨p, raw⟩, he, h⟩
    obtain ⟨v, hv, heq⟩ := Option.map_eq_some_iff.mp h
    cases heq
    obtain ⟨hblank, rfl⟩ := Text.trimmed?_eq_some_iff.mp hv
    exact ⟨raw, mem_ordered.mp he, hblank, rfl⟩
  · rintro ⟨raw, hget, hblank, rfl⟩
    refine ⟨(suffix, raw), mem_ordered.mpr hget, ?_⟩
    rw [Text.trimmed?_eq_some_iff.mpr ⟨hblank, rfl⟩]
    rfl

theorem nodup_keys_written (s : Section) : (s.written.map Prod.fst).Nodup :=
  OrderedMap.nodup_keys_filterMap s.nodup_keys_ordered

/-- The properties of a section are written by rank. -/
theorem pairwise_rank_written (s : Section) :
    s.written.Pairwise fun e e' => Property.rank e.1 ≤ Property.rank e'.1 := by
  have hordered : s.ordered.Pairwise fun e e' => Property.rank e.1 ≤ Property.rank e'.1 := by
    have hunknown : ∀ {e : String × String}, e ∈ s.properties.toList.filter (fun e =>
        !Property.known.contains e.1) → Property.rank e.1 = Property.known.length := by
      intro e he
      have hnot := (List.mem_filter.mp he).2
      rw [Bool.not_eq_true', List.contains_eq_mem, decide_eq_false_iff_not] at hnot
      exact List.idxOf_eq_length hnot
    refine List.pairwise_append.mpr ⟨?_, ?_, fun e _ e' he' => ?_⟩
    · have hknown : Property.known.Pairwise fun p p' => Property.rank p ≤ Property.rank p' := by
        decide
      refine List.pairwise_filterMap.mpr (hknown.imp fun {p p'} hle e he e' he' => ?_)
      obtain ⟨v, -, rfl⟩ := Option.map_eq_some_iff.mp he
      obtain ⟨v', -, rfl⟩ := Option.map_eq_some_iff.mp he'
      exact hle
    · exact List.pairwise_of_forall_mem_list fun e he e' he' =>
        Nat.le_of_eq ((hunknown he).trans (hunknown he').symm)
    · exact hunknown he' ▸ List.idxOf_le_length
  refine List.pairwise_filterMap.mpr (hordered.imp fun {e e'} hle x hx x' hx' => ?_)
  obtain ⟨v, -, rfl⟩ := Option.map_eq_some_iff.mp hx
  obtain ⟨v', -, rfl⟩ := Option.map_eq_some_iff.mp hx'
  exact hle

end Section

namespace Chain

/-! ## Changing the first section of a name -/

theorem find?_modifyFirst {α : Type} {p q : α → Bool} {f : α → α} (l : List α)
    (hf : ∀ x, q (f x) = q x) (hpq : ∀ x, p x = q x) :
    (modifyFirst p f l).find? q = (l.find? q).map f := by
  induction l with
  | nil => rfl
  | cons x xs ih =>
    by_cases hx : q x = true
    · simp [modifyFirst, hpq, hx, hf]
    · simp [modifyFirst, hpq, hx, ih]

theorem find?_modifyFirst_of_disjoint {α : Type} {p q : α → Bool} {f : α → α} (l : List α)
    (hf : ∀ x, q (f x) = q x) (hpq : ∀ x, p x = true → q x = false) :
    (modifyFirst p f l).find? q = l.find? q := by
  induction l with
  | nil => rfl
  | cons x xs ih =>
    by_cases hx : p x = true
    · simp [modifyFirst, hx, hf, hpq x hx]
    · by_cases hq : q x = true
      · simp [modifyFirst, hx, hq]
      · simp [modifyFirst, hx, hq, ih]

theorem map_modifyFirst {α β : Type} {p : α → Bool} {f : α → α} {g : α → β} (l : List α)
    (hf : ∀ x, g (f x) = g x) : (modifyFirst p f l).map g = l.map g := by
  induction l with
  | nil => rfl
  | cons x xs ih =>
    by_cases hx : p x = true
    · simp [modifyFirst, hx, hf]
    · simp [modifyFirst, hx, ih]

theorem modifyFirst_append {α : Type} {p : α → Bool} {f : α → α} {before : List α}
    (h : ∀ x ∈ before, p x = false) {x : α} (hx : p x = true) (after : List α) :
    modifyFirst p f (before ++ x :: after) = before ++ f x :: after := by
  induction before with
  | nil => simp [modifyFirst, hx]
  | cons y before ih =>
    have hy := h y List.mem_cons_self
    simp [modifyFirst, hy, ih fun z hz => h z (List.mem_cons_of_mem _ hz)]

/-- Changing an element into itself changes nothing. -/
theorem modifyFirst_eq_self {α : Type} {p : α → Bool} {f : α → α} (l : List α)
    (h : ∀ x, l.find? p = some x → f x = x) : modifyFirst p f l = l := by
  induction l with
  | nil => rfl
  | cons x xs ih =>
    by_cases hx : p x = true
    · rw [modifyFirst, if_pos hx, h x (List.find?_cons_of_pos hx)]
    · rw [modifyFirst, if_neg hx, ih fun y hy => h y ((List.find?_cons_of_neg hx).trans hy)]

/-- Where at most one element has the property, the first one is every one. -/
theorem modifyFirst_eq_map {α : Type} {p : α → Bool} {f : α → α} (l : List α)
    (h : l.Pairwise fun x y => p x = true → p y = false) :
    modifyFirst p f l = l.map fun x => if p x = true then f x else x := by
  induction l with
  | nil => rfl
  | cons x xs ih =>
    obtain ⟨hfirst, hrest⟩ := List.pairwise_cons.mp h
    by_cases hx : p x = true
    · have hothers : xs.map (fun y => if p y = true then f y else y) = xs :=
        (List.map_congr_left fun y hy => by rw [hfirst y hy hx, if_neg Bool.false_ne_true]).trans
          (List.map_id' xs)
      rw [modifyFirst, if_pos hx, List.map_cons, if_pos hx, hothers]
    · rw [modifyFirst, if_neg hx, List.map_cons, if_neg hx, ih hrest]

/-! ## Looking up -/

/-- The value of a property in the first section of a name. -/
def get? (c : Chain) (name suffix : String) : Option String :=
  (c.section? name).bind fun s => s.get? suffix

def names (c : Chain) : List String := c.sections.map Section.name

/-- No two sections have the same name up to case. -/
def DistinctNames (c : Chain) : Prop :=
  c.names.Pairwise fun n n' => Text.sameName n n' = false

instance (c : Chain) : Decidable c.DistinctNames :=
  inferInstanceAs (Decidable (c.names.Pairwise fun n n' => Text.sameName n n' = false))

theorem hasSection_iff {c : Chain} {name : String} :
    c.hasSection name = true ↔ ∃ n ∈ c.names, Text.sameName n name = true := by
  simp [hasSection, names, Section.isNamed]

theorem anyMode_iff {c : Chain} {mode : String} :
    c.anyMode mode = true ↔ ∃ s ∈ c.sections, s.get? Property.mode = some mode := by
  simp [anyMode]

theorem hasSection_eq_isSome (c : Chain) (name : String) :
    c.hasSection name = (c.section? name).isSome := by
  rw [Bool.eq_iff_iff, hasSection, section?, List.any_eq_true, List.find?_isSome]

theorem section?_congr (c : Chain) {name name' : String} (h : Text.sameName name name' = true) :
    c.section? name = c.section? name' := by
  simp only [section?, Section.isNamed_congr _ h]

theorem get?_congr (c : Chain) {name name' : String} (h : Text.sameName name name' = true)
    (suffix : String) : c.get? name suffix = c.get? name' suffix := by
  rw [get?, section?_congr c h, get?]

/-- Where names are distinct, a section is found under its own name. -/
theorem section?_of_mem {c : Chain} (hdist : c.DistinctNames) {s : Section} (hs : s ∈ c.sections)
    {name : String} (hname : s.isNamed name = true) : c.section? name = some s := by
  rw [DistinctNames, names, List.pairwise_map] at hdist
  obtain ⟨before, after, hsplit⟩ := List.append_of_mem hs
  rw [hsplit, List.pairwise_append] at hdist
  rw [section?, List.find?_eq_some_iff_append]
  refine ⟨hname, before, after, hsplit, fun s' hs' => ?_⟩
  have hne := hdist.2.2 s' hs' s List.mem_cons_self
  rw [Bool.not_eq_true', Section.isNamed, ← Bool.not_eq_true]
  intro hsame
  have hback : Text.sameName name s.name = true := by
    rw [Text.sameName_comm]
    exact hname
  rw [Text.sameName_trans hsame hback] at hne
  cases hne

theorem get?_of_mem {c : Chain} (hdist : c.DistinctNames) {s : Section} (hs : s ∈ c.sections)
    {name : String} (hname : s.isNamed name = true) (suffix : String) :
    c.get? name suffix = s.get? suffix := by
  rw [get?, section?_of_mem hdist hs hname]
  rfl

/-- Where names are distinct, names that are the same up to case are the same. -/
theorem DistinctNames.eq_of_same {c : Chain} (h : c.DistinctNames) {n n' : String}
    (hn : n ∈ c.names) (hn' : n' ∈ c.names) (hsame : Text.sameName n n' = true) : n = n' :=
  Text.eq_of_sameName (f := fun n => n) h hn hn' hsame

/-! ## Sections in another order -/

theorem DistinctNames.of_perm {c c' : Chain} (h : c'.DistinctNames)
    (hperm : c.sections.Perm c'.sections) : c.DistinctNames := by
  have hsymm : ∀ {n n' : String}, Text.sameName n n' = false → Text.sameName n' n = false := by
    intro n n' hne
    rwa [Text.sameName_comm]
  exact ((hperm.map Section.name).pairwise_iff hsymm).mpr h

/-- Where names are distinct, the order of the sections does not matter for looking one up. -/
theorem section?_of_perm {c c' : Chain} (h : c'.DistinctNames)
    (hperm : c.sections.Perm c'.sections) (name : String) : c.section? name = c'.section? name := by
  cases hc : c'.section? name with
  | some s =>
    have hs : s ∈ c.sections := hperm.mem_iff.mpr (List.mem_of_find?_eq_some hc)
    have hname := List.find?_some (p := fun s : Section => s.isNamed name) hc
    exact section?_of_mem (h.of_perm hperm) hs hname
  | none =>
    rw [section?, List.find?_eq_none] at hc ⊢
    exact fun s hs => hc s (hperm.mem_iff.mp hs)

/-! ## Changing and adding sections -/

theorem section?_modifySection (c : Chain) (name n : String) {f : Section → Section}
    (hf : ∀ s, (f s).name = s.name) :
    (c.modifySection name f).section? n =
      if Text.sameName name n = true then (c.section? n).map f else c.section? n := by
  have hnamed : ∀ s, (f s).isNamed n = s.isNamed n := fun s => by
    rw [Section.isNamed, hf, Section.isNamed]
  split
  · rename_i hsame
    exact find?_modifyFirst _ hnamed fun s => s.isNamed_congr hsame
  · rename_i hother
    refine find?_modifyFirst_of_disjoint _ hnamed fun s hs => ?_
    rw [← Bool.not_eq_true]
    intro hn
    rw [Section.isNamed, Text.sameName_comm] at hs
    exact hother (Text.sameName_trans hs hn)

theorem modifySection_eq_self (c : Chain) (name : String) {f : Section → Section}
    (h : ∀ s, c.section? name = some s → f s = s) : c.modifySection name f = c := by
  rw [modifySection, modifyFirst_eq_self c.sections h]

/-- Where names are distinct, changing the section of a name leaves all others alone. -/
theorem sections_modifySection {c : Chain} (hdist : c.DistinctNames) (name : String)
    (f : Section → Section) :
    (c.modifySection name f).sections =
      c.sections.map fun s => if s.isNamed name = true then f s else s := by
  refine modifyFirst_eq_map c.sections ((List.pairwise_map.mp hdist).imp ?_)
  intro s s' hne hs
  rw [← Bool.not_eq_true]
  intro hs'
  rw [Section.isNamed, Text.sameName_comm] at hs'
  rw [Text.sameName_trans hs hs'] at hne
  cases hne

theorem section?_push (c : Chain) (s : Section) (n : String) :
    (c.push s).section? n = (c.section? n).or (if s.isNamed n = true then some s else none) := by
  rw [section?, push, List.find?_append, List.find?_singleton, section?]

theorem names_modifySection (c : Chain) (name : String) {f : Section → Section}
    (hf : ∀ s, (f s).name = s.name) : (c.modifySection name f).names = c.names :=
  map_modifyFirst c.sections hf

theorem names_upsertSection (c : Chain) (name suffix value : String) :
    (c.upsertSection name fun s => s.set suffix value).names =
      if c.hasSection name then c.names else c.names ++ [name] := by
  unfold upsertSection
  split
  · exact names_modifySection c name fun _ => rfl
  · simp [names]
    rfl

theorem upsertSection_of_mem {c : Chain} {name : String} (hname : name ∈ c.names)
    (f : Section → Section) : c.upsertSection name f = c.modifySection name f :=
  if_pos (hasSection_iff.mpr ⟨name, hname, Text.sameName_refl name⟩)

/-- The section is there afterwards, and it is the one that was changed or a new one. -/
theorem section?_upsertSection (c : Chain) (name n : String) {f : Section → Section}
    (hf : ∀ s, (f s).name = s.name) :
    (c.upsertSection name f).section? n =
      if Text.sameName name n = true then some (f ((c.section? n).getD { name := name }))
      else c.section? n := by
  unfold upsertSection
  by_cases hhas : c.hasSection name = true
  · rw [if_pos hhas, section?_modifySection c name n hf]
    split
    · rename_i hsame
      obtain ⟨s, hs⟩ : ∃ s, c.section? n = some s := by
        rwa [hasSection_eq_isSome, Option.isSome_iff_exists, section?_congr c hsame] at hhas
      rw [hs]
      rfl
    · rfl
  · have hpush : ({ c with sections := c.sections ++ [f { name := name }] } : Chain) =
        c.push (f { name := name }) := rfl
    have hnamed : (f { name := name }).isNamed n = Text.sameName name n := by
      rw [Section.isNamed, hf]
    rw [if_neg hhas, hpush, section?_push, hnamed]
    split
    · rename_i hsame
      have hnone : c.section? n = none := by
        rwa [hasSection_eq_isSome, Bool.not_eq_true, Option.isSome_eq_false_iff,
          Option.isNone_iff_eq_none, section?_congr c hsame] at hhas
      rw [hnone]
      rfl
    · exact Option.or_none

theorem get?_upsertSection (c : Chain) (name suffix value n p : String) :
    (c.upsertSection name fun s => s.set suffix value).get? n p =
      if Text.sameName name n = true ∧ p = suffix then some value else c.get? n p := by
  have hset := section?_upsertSection c name n (f := fun s => s.set suffix value) fun _ => rfl
  rw [get?, hset, get?]
  by_cases hsame : Text.sameName name n = true
  · by_cases hp : p = suffix
    · simp [hsame, hp, Section.get?_set]
    · cases c.section? n with
      | none =>
        simp [hsame, hp, Section.get?_set]
        rfl
      | some s => simp [hsame, hp, Section.get?_set]
  · simp [hsame]

end Chain

end BuildChain
