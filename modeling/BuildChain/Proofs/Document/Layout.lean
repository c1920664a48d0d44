import BuildChain.Proofs.Chain.Tidied
import BuildChain.Proofs.Document.Properties
import BuildChain.Proofs.Document.Steps
import BuildChain.Proofs.Order

/-!
# The order of the property lines

A document is arranged when its sections stand by their ranks, those outside the order last, and the
lines of each section by the ranks of their properties. A line that is inserted, and a section that
comes in as a block, go to a place where everything above ranks no higher and everything below no
lower, so a document that is arranged stays arranged.
-/

namespace BuildChain.Document

open Assignment (IsKey)

variable {o : Order} {doc doc' : Document} {name : String}

/-! ## Arranged documents -/

/-- The property lines, active or not, stand by the ranks of their sections, and those of one
section by the ranks of their properties. -/
structure Arranged (o : Order) (doc : Document) : Prop where
  sections : doc.properties.Pairwise fun e e' => o.rank e.1 ≤ o.rank e'.1
  suffixes : doc.properties.Pairwise fun e e' =>
    Text.sameName e.1 e'.1 = true → Property.rank e.2 ≤ Property.rank e'.2

/-- Some line, active or not, is one of a section of the order. -/
def HasCanonical (o : Order) (doc : Document) : Prop :=
  ∃ e ∈ doc.properties, o.contains e.1 = true

instance (o : Order) (doc : Document) : Decidable (doc.HasCanonical o) :=
  inferInstanceAs (Decidable (∃ e ∈ doc.properties, o.contains e.1 = true))

/-- An arranged document with a line of a section of the order. -/
structure LaidOut (o : Order) (doc : Document) : Prop where
  arranged : doc.Arranged o
  canonical : doc.HasCanonical o

/-- What may stand above what. -/
structure Precedes (o : Order) (e e' : String × String) : Prop where
  rank : o.rank e.1 ≤ o.rank e'.1
  suffix : Text.sameName e.1 e'.1 = true → Property.rank e.2 ≤ Property.rank e'.2

instance (o : Order) : DecidableRel (Precedes o) := fun e e' =>
  decidable_of_iff (o.rank e.1 ≤ o.rank e'.1 ∧
      (Text.sameName e.1 e'.1 = true → Property.rank e.2 ≤ Property.rank e'.2))
    ⟨fun ⟨h₁, h₂⟩ => ⟨h₁, h₂⟩, fun ⟨h₁, h₂⟩ => ⟨h₁, h₂⟩⟩

theorem arranged_iff : doc.Arranged o ↔ doc.properties.Pairwise (Precedes o) := by
  constructor
  · rintro ⟨hsections, hsuffixes⟩
    exact (hsections.and hsuffixes).imp fun ⟨hrank, hsuffix⟩ => ⟨hrank, hsuffix⟩
  · exact fun h => ⟨h.imp Precedes.rank, h.imp Precedes.suffix⟩

instance (o : Order) (doc : Document) : Decidable (doc.Arranged o) :=
  decidable_of_iff _ arranged_iff.symm

theorem Arranged.of_sublist (h : doc.Arranged o) (hsub : doc'.properties.Sublist doc.properties) :
    doc'.Arranged o := ⟨h.sections.sublist hsub, h.suffixes.sublist hsub⟩

theorem Arranged.congr (h : doc.Arranged o) (heq : doc'.properties = doc.properties) :
    doc'.Arranged o := h.of_sublist (heq ▸ List.Sublist.refl _)

theorem HasCanonical.mono (h : doc.HasCanonical o) (hsub : doc.properties ⊆ doc'.properties) :
    doc'.HasCanonical o := by
  obtain ⟨e, he, hcontains⟩ := h
  exact ⟨e, hsub he, hcontains⟩

/-- A property line stands between what is above and what is below it. -/
theorem Arranged.cut {a b : Document} {l : String} {e : String × String}
    (h : Arranged o (a ++ l :: b)) (hl : propertyAt? l = some e) :
    (∀ x ∈ a.properties, Precedes o x e) ∧ ∀ z ∈ b.properties, Precedes o e z := by
  rw [arranged_iff, properties_append, properties_cons hl, List.pairwise_append,
    List.pairwise_cons] at h
  obtain ⟨-, ⟨hbelow, -⟩, habove⟩ := h
  exact ⟨fun x hx => habove x hx e List.mem_cons_self, hbelow⟩

theorem pairwise_insert {α : Type} {R : α → α → Prop} {a b block : List α}
    (h : (a ++ b).Pairwise R) (hblock : block.Pairwise R) (ha : ∀ x ∈ a, ∀ y ∈ block, R x y)
    (hb : ∀ y ∈ block, ∀ z ∈ b, R y z) : (a ++ block ++ b).Pairwise R := by
  obtain ⟨habove, hbelow, hcross⟩ := List.pairwise_append.mp h
  refine List.pairwise_append.mpr ⟨List.pairwise_append.mpr ⟨habove, hblock, ha⟩, hbelow, ?_⟩
  intro x hx z hz
  rcases List.mem_append.mp hx with hx | hx
  · exact hcross x hx z hz
  · exact hb x hx z hz

/-- Lines may be inserted between what may stand above and what may stand below them. -/
theorem Arranged.insertAt {a b : Document} {block : List String} (h : Arranged o (a ++ b))
    (hblock : Arranged o block)
    (ha : ∀ x ∈ a.properties, ∀ y ∈ properties block, Precedes o x y)
    (hb : ∀ y ∈ properties block, ∀ z ∈ b.properties, Precedes o y z) :
    Arranged o (Document.insertAt (a ++ b) a.length block) := by
  rw [arranged_iff, properties_append] at h
  rw [arranged_iff, properties_insertAt]
  exact pairwise_insert h (arranged_iff.mp hblock) ha hb

/-! ## A new line of a section -/

section Line

variable {a b : Document} {l line suffix : String} {e : String × String}

theorem arranged_singleton (o : Order) (hline : propertyAt? line = some e) : Arranged o [line] := by
  rw [arranged_iff, properties_singleton, hline]
  exact List.pairwise_singleton _ _

/-- A line may go above one of its section that ranks no lower, below those that rank no higher. -/
theorem Arranged.insert_above (h : Arranged o (a ++ l :: b)) (hl : propertyAt? l = some e)
    (hname : Text.sameName e.1 name = true) (hline : propertyAt? line = some (name, suffix))
    (hsmall : ∀ x ∈ a.properties, Text.sameName x.1 name = true →
      Property.rank x.2 ≤ Property.rank suffix)
    (hle : Property.rank suffix ≤ Property.rank e.2) :
    Arranged o (Document.insertAt (a ++ l :: b) a.length [line]) := by
  obtain ⟨habove, hbelow⟩ := h.cut hl
  have hrank := o.rank_congr hname
  refine h.insertAt (arranged_singleton o hline) (fun x hx y hy => ?_) fun y hy z hz => ?_
  · rw [properties_singleton, hline, Option.toList_some, List.mem_singleton] at hy
    subst hy
    exact ⟨hrank ▸ (habove x hx).rank, hsmall x hx⟩
  · rw [properties_singleton, hline, Option.toList_some, List.mem_singleton] at hy
    subst hy
    rw [properties_cons hl] at hz
    rcases List.mem_cons.mp hz with rfl | hz
    · exact ⟨Nat.le_of_eq hrank.symm, fun _ => hle⟩
    · refine ⟨hrank ▸ (hbelow z hz).rank, fun hsame => ?_⟩
      exact hle.trans ((hbelow z hz).suffix (Text.sameName_trans hname hsame))

/-- A line may go below the last one of its section if none of them ranks higher. -/
theorem Arranged.insert_below (h : Arranged o (a ++ l :: b)) (hl : propertyAt? l = some e)
    (hname : Text.sameName e.1 name = true) (hline : propertyAt? line = some (name, suffix))
    (hsmall : ∀ x ∈ properties (a ++ l :: b), Text.sameName x.1 name = true →
      Property.rank x.2 ≤ Property.rank suffix)
    (hlast : ∀ z ∈ b.properties, Text.sameName z.1 name = false) :
    Arranged o (Document.insertAt (a ++ l :: b) (a.length + 1) [line]) := by
  obtain ⟨habove, hbelow⟩ := h.cut hl
  have hrank := o.rank_congr hname
  have hcut : a ++ l :: b = (a ++ [l]) ++ b := by simp
  have hend : a.length + 1 = (a ++ [l]).length := by simp
  rw [hcut] at h hsmall ⊢
  rw [hend]
  refine h.insertAt (arranged_singleton o hline) (fun x hx y hy => ?_) fun y hy z hz => ?_
  · rw [properties_singleton, hline, Option.toList_some, List.mem_singleton] at hy
    subst hy
    refine ⟨?_, hsmall x (properties_append _ b ▸ List.mem_append_left _ hx)⟩
    rw [properties_append, properties_singleton, hl, Option.toList_some] at hx
    rcases List.mem_append.mp hx with hx | hx
    · exact hrank ▸ (habove x hx).rank
    · exact List.mem_singleton.mp hx ▸ Nat.le_of_eq hrank
  · rw [properties_singleton, hline, Option.toList_some, List.mem_singleton] at hy
    subst hy
    refine ⟨hrank ▸ (hbelow z hz).rank, fun hsame => ?_⟩
    rw [Text.sameName_comm, hlast z hz] at hsame
    cases hsame

end Line

/-- A line of a section that has lines goes above the first one that ranks after it, else below the
last one. -/
theorem arranged_placeProperty (h : doc.Arranged o) (hhas : doc.hasSection name = true)
    {suffix line : String} (hline : propertyAt? line = some (name, suffix)) :
    (placeProperty name suffix doc line).Arranged o := by
  unfold placeProperty
  dsimp only
  split
  · rename_i row hrow
    obtain ⟨hgreater, as, bs, hrows, hbefore⟩ := List.find?_eq_some_iff_append.mp hrow
    obtain ⟨a, l, b, e, rfl, hlen, hl, hname, hrank, ha, -⟩ := exists_sectionLine hrows
    rw [decide_eq_true_eq, ← hrank] at hgreater
    refine hlen ▸ h.insert_above hl hname hline (fun x hx hsame => ?_) (Nat.le_of_lt hgreater)
    obtain ⟨i, hi⟩ := ha x hx hsame
    simpa using hbefore _ hi
  · rename_i hnone
    split
    · rename_i row hrow
      obtain ⟨a, l, b, e, rfl, hlen, hl, hname, hb⟩ := exists_lastLine hrow
      refine hlen ▸ h.insert_below hl hname hline (fun x hx hsame => ?_) hb
      obtain ⟨i, hrow⟩ := exists_row_of_mem_properties hx hsame
      simpa using List.find?_eq_none.mp hnone _ hrow
    · rename_i hempty
      rw [List.getLast?_eq_none_iff] at hempty
      rw [hasSection, hempty] at hhas
      cases hhas

/-! ## Slots -/

/-- Whether a section may come in at a line: nothing above it ranks higher, nothing below lower. -/
def IsSlot (o : Order) (doc : Document) (name : String) (i : Nat) : Prop :=
  ∃ a b : Document, doc = a ++ b ∧ a.length = i ∧
    (∀ e ∈ a.properties, o.rank e.1 ≤ o.rank name) ∧ ∀ e ∈ b.properties, o.rank name ≤ o.rank e.1

/-- The comments above a slot may be left below it. -/
theorem IsSlot.commentHead {i : Nat} (h : IsSlot o doc name i) :
    IsSlot o doc name (doc.commentHead i) := by
  obtain ⟨a, b, rfl, rfl, ha, hb⟩ := h
  obtain ⟨a', comments, rfl, hlen, hnone⟩ := exists_commentHead a b
  rw [properties_append, hnone, List.append_nil] at ha
  refine ⟨a', comments ++ b, List.append_assoc .., hlen, ha, ?_⟩
  rwa [properties_append, hnone, List.nil_append]

theorem isSome_propertyAt? (l : String) : (propertyAt? l).isSome = addresses isProperty l := by
  rw [propertyAt?, addresses]
  cases Route.ofLine? l with
  | none => rfl
  | some r => cases r <;> rfl

theorem properties_eq_nil {doc : Document} (h : ∀ l ∈ doc, addresses isProperty l = false) :
    doc.properties = [] :=
  List.filterMap_eq_nil_iff.mpr fun l hl => by
    rw [← Option.isNone_iff_eq_none, ← Option.isSome_eq_false_iff, isSome_propertyAt?, h l hl]

/-- The section lines of a name that has none are empty, and the other way round. -/
theorem sectionLines_eq_nil_iff : doc.sectionLines name = [] ↔ doc.hasSection name = false := by
  rw [hasSection, Bool.not_eq_false', List.isEmpty_iff]

section Neighbours

variable {a b : Document} {l n m : String} {e : String × String}
variable {before between after : List String}

/-- Where the names between two names of the order have no lines, a line that ranks from the one to
the other belongs to one of them. -/
theorem sameName_of_between (ho : o.Distinct) {n' : String}
    (hnames : o.names = before ++ n :: (between ++ n' :: after))
    (hbetween : ∀ m ∈ between, doc.hasSection m = false) {x : String × String}
    (hx : x ∈ doc.properties) (hlow : o.rank n ≤ o.rank x.1) (hhigh : o.rank x.1 ≤ o.rank n') :
    Text.sameName x.1 n = true ∨ Text.sameName x.1 n' = true := by
  obtain ⟨k, hk, hsame⟩ := ho.exists_between hnames x.1 hlow hhigh
  rw [Text.sameName_comm] at hsame
  rw [List.mem_cons, List.mem_append, List.mem_singleton] at hk
  rcases hk with rfl | hk | rfl
  · exact .inl hsame
  · rw [not_sameName_of_not_hasSection (hbetween k hk) hx] at hsame
    cases hsame
  · exact .inr hsame

/-- The first line of a later name is a slot if the names in between have no lines. -/
theorem isSlot_above (ho : o.Distinct) (h : Arranged o (a ++ l :: b)) (hl : propertyAt? l = some e)
    (hnames : o.names = before ++ m :: (between ++ n :: after)) (hm : o.rank m = o.rank name)
    (hbetween : ∀ m ∈ between, hasSection (a ++ l :: b) m = false)
    (he : Text.sameName e.1 n = true) (hfirst : ∀ x ∈ a.properties, Text.sameName x.1 n = false) :
    IsSlot o (a ++ l :: b) name a.length := by
  obtain ⟨habove, hbelow⟩ := h.cut hl
  have hrank := o.rank_congr he
  have hlt := ho.rank_lt hnames
  refine ⟨a, l :: b, rfl, rfl, fun x hx => ?_, fun z hz => ?_⟩
  · by_contra hgt
    have hle := (habove x hx).rank
    have hx' : x ∈ properties (a ++ l :: b) := by
      rw [properties_append]
      exact List.mem_append_left _ hx
    rcases sameName_of_between ho hnames hbetween hx' (by omega) (by omega) with hsame | hsame
    · have hsameRank := o.rank_congr hsame
      omega
    · rw [hfirst x hx] at hsame
      cases hsame
  · rw [properties_cons hl] at hz
    rcases List.mem_cons.mp hz with rfl | hz
    · omega
    · have hle := (hbelow z hz).rank
      omega

/-- The place below the last line of an earlier name is a slot if the names in between have no
lines. -/
theorem isSlot_below (ho : o.Distinct) (h : Arranged o (a ++ l :: b)) (hl : propertyAt? l = some e)
    (hnames : o.names = before ++ n :: (between ++ m :: after)) (hm : o.rank m = o.rank name)
    (hbetween : ∀ m ∈ between, hasSection (a ++ l :: b) m = false)
    (he : Text.sameName e.1 n = true) (hlast : ∀ x ∈ b.properties, Text.sameName x.1 n = false) :
    IsSlot o (a ++ l :: b) name (a.length + 1) := by
  obtain ⟨habove, hbelow⟩ := h.cut hl
  have hrank := o.rank_congr he
  have hlt := ho.rank_lt hnames
  refine ⟨a ++ [l], b, by simp, by simp, fun x hx => ?_, fun z hz => ?_⟩
  · rw [properties_append, properties_singleton, hl, Option.toList_some] at hx
    rcases List.mem_append.mp hx with hx | hx
    · have hle := (habove x hx).rank
      omega
    · rw [List.mem_singleton.mp hx]
      omega
  · by_contra hgt
    have hle := (hbelow z hz).rank
    have hz' : z ∈ properties (a ++ l :: b) := by
      rw [properties_append, properties_cons hl]
      exact List.mem_append_right _ (List.mem_cons_of_mem e hz)
    rcases sameName_of_between ho hnames hbetween hz' (by omega) (by omega) with hsame | hsame
    · rw [hlast z hz] at hsame
      cases hsame
    · have hsameRank := o.rank_congr hsame
      omega

end Neighbours

/-- Above the next canonical section, and below the previous one, there is a slot. -/
theorem isSlot_canonicalSlot? (ho : o.Distinct) (h : doc.Arranged o) {i : Nat}
    (hslot : doc.canonicalSlot? o name = some i) : IsSlot o doc name i := by
  unfold canonicalSlot? at hslot
  split at hslot
  · cases hslot
  · rename_i p hp
    obtain ⟨hlt, hsame, -⟩ := o.position?_eq_some_iff.mp hp
    have hname : o.rank o.names[p] = o.rank name := o.rank_congr hsame
    have hsplit : o.names = o.names.take p ++ o.names[p] :: o.names.drop (p + 1) := by
      rw [← List.drop_eq_getElem_cons hlt, List.take_append_drop]
    rcases Option.or_eq_some_iff.mp hslot with hnext | ⟨-, hprevious⟩
    · obtain ⟨between, n, after, hdrop, hn, hnone⟩ := List.findSome?_eq_some_iff.mp hnext
      obtain ⟨row, hrow, rfl⟩ := Option.map_eq_some_iff.mp hn
      obtain ⟨a, l, b, e, rfl, hlen, hl, he, ha⟩ := exists_firstLine hrow
      rw [hdrop] at hsplit
      refine hlen ▸ (isSlot_above ho h hl hsplit hname (fun m hm => ?_) he ha).commentHead
      have hempty := hnone m hm
      rw [Option.map_eq_none_iff, List.head?_eq_none_iff] at hempty
      exact sectionLines_eq_nil_iff.mp hempty
    · obtain ⟨after, n, before, htake, hn, hnone⟩ := List.findSome?_eq_some_iff.mp hprevious
      obtain ⟨row, hrow, rfl⟩ := Option.map_eq_some_iff.mp hn
      obtain ⟨a, l, b, e, rfl, hlen, hl, he, hb⟩ := exists_lastLine hrow
      rw [List.reverse_eq_iff, List.reverse_append, List.reverse_cons] at htake
      rw [htake, List.append_assoc, List.append_assoc, List.singleton_append] at hsplit
      refine hlen ▸ isSlot_below ho h hl hsplit hname (fun m hm => ?_) he hb
      have hempty := hnone m (List.mem_reverse.mp hm)
      rw [Option.map_eq_none_iff, List.getLast?_eq_none_iff] at hempty
      exact sectionLines_eq_nil_iff.mp hempty

/-- Where the order has the name but gives no slot, no section of the order has a line. -/
theorem exists_canonicalSlot? (hcan : doc.HasCanonical o) (hnew : doc.hasSection name = false)
    (hname : o.contains name = true) : ∃ i, doc.canonicalSlot? o name = some i := by
  rw [← Option.isSome_iff_exists, ← Option.ne_none_iff_isSome]
  intro hslot
  obtain ⟨p, hp⟩ := Option.isSome_iff_exists.mp hname
  obtain ⟨hlt, hsame, -⟩ := o.position?_eq_some_iff.mp hp
  simp only [canonicalSlot?, hp, Option.or_eq_none_iff, List.findSome?_eq_none_iff,
    Option.map_eq_none_iff, List.head?_eq_none_iff, List.getLast?_eq_none_iff,
    List.mem_reverse, sectionLines_eq_nil_iff] at hslot
  obtain ⟨hnext, hprevious⟩ := hslot
  obtain ⟨e, he, hcontains⟩ := hcan
  obtain ⟨n, hn, hsameName⟩ := o.contains_iff.mp hcontains
  have hlacks : doc.hasSection n = false := by
    rw [← List.take_append_drop p o.names, List.drop_eq_getElem_cons hlt, List.mem_append,
      List.mem_cons] at hn
    rcases hn with hn | rfl | hn
    · exact hprevious n hn
    · rw [← Bool.not_eq_true, hasSection_iff_mem_properties] at hnew ⊢
      rintro ⟨x, hx, hxname⟩
      exact hnew ⟨x, hx, Text.sameName_trans hxname hsame⟩
    · exact hnext n hn
  rw [Text.sameName_comm, not_sameName_of_not_hasSection hlacks he] at hsameName
  cases hsameName

/-- Below the last property line there is a slot for a name that the order does not have. -/
theorem isSlot_looseSlot (hcan : doc.HasCanonical o) (hname : o.contains name = false) :
    IsSlot o doc name doc.looseSlot := by
  have hrank := o.rank_of_not_contains hname
  unfold looseSlot
  split
  · rename_i i hlast
    obtain ⟨a, l, b, rfl, rfl, -, hb⟩ := lastWhere?_eq_some hlast
    refine ⟨a ++ [l], b, by simp, by simp, fun x _ => hrank ▸ o.rank_le x.1, ?_⟩
    rw [properties_eq_nil hb]
    simp
  · rename_i hlast
    obtain ⟨e, he, -⟩ := hcan
    rw [properties_eq_nil (lastWhere?_eq_none_iff.mp hlast)] at he
    cases he

theorem isSlot_sectionSlot (ho : o.Distinct) (h : doc.LaidOut o)
    (hnew : doc.hasSection name = false) : IsSlot o doc name (doc.sectionSlot o name) := by
  unfold sectionSlot
  cases hslot : doc.canonicalSlot? o name with
  | some i => exact isSlot_canonicalSlot? ho h.arranged hslot
  | none =>
    refine isSlot_looseSlot h.canonical ?_
    rw [← Bool.not_eq_true]
    intro hname
    obtain ⟨i, hi⟩ := exists_canonicalSlot? h.canonical hnew hname
    rw [hslot] at hi
    cases hi

/-! ## A new section -/

section Chain

variable {c : Chain} {s : Section}

/-- The line of a property addresses it. -/
theorem propertyAt?_written (hlines : MakeLines (writes c)) (hroutes : c.RoutesBack)
    (hs : s ∈ c.sections) {e : String × String} (he : e ∈ s.written) :
    propertyAt? (Line.assign (Route.propertyKey s.name e.1) e.2) = some (s.name, e.1) := by
  have hw := mem_writes_of_mem_written hs he
  rw [propertyAt?_assign (hlines _ hw).1 (trim_of_writes (mem_writes.mp hw)),
    hroutes.properties s hs e he]
  rfl

theorem properties_sectionBlock (hlines : MakeLines (writes c)) (hroutes : c.RoutesBack)
    (hs : s ∈ c.sections) : properties (sectionBlock s) = s.written.map fun e => (s.name, e.1) := by
  rw [properties, sectionBlock, List.filterMap_map, ← List.filterMap_eq_map]
  exact List.filterMap_congr fun e he => propertyAt?_written hlines hroutes hs he

theorem arranged_insertSection (ho : o.Distinct) (hlines : MakeLines (writes c))
    (hroutes : c.RoutesBack) (hs : s ∈ c.sections) (h : doc.LaidOut o)
    (hnew : doc.hasSection s.name = false) : (doc.insertSection o s).Arranged o := by
  unfold insertSection
  split
  · exact h.arranged
  · obtain ⟨a, b, rfl, hlen, ha, hb⟩ := isSlot_sectionSlot ho h hnew
    have hother : ∀ {x}, x ∈ properties a ∨ x ∈ properties b →
        Text.sameName x.1 s.name = false := by
      intro x hx
      refine not_sameName_of_not_hasSection hnew ?_
      rwa [properties_append, List.mem_append]
    have harranged := h.arranged
    rw [arranged_iff, properties_append] at harranged
    rw [← hlen, arranged_iff, properties_insertBlock, properties_sectionBlock hlines hroutes hs]
    refine pairwise_insert harranged ?_ (fun x hx y hy => ?_) fun y hy z hz => ?_
    · refine List.pairwise_map.mpr (s.pairwise_rank_written.imp fun hle => ?_)
      exact ⟨Nat.le_refl _, fun _ => hle⟩
    · obtain ⟨e, -, rfl⟩ := List.mem_map.mp hy
      refine ⟨ha x hx, fun hsame => ?_⟩
      rw [hother (.inl hx)] at hsame
      cases hsame
    · obtain ⟨e, -, rfl⟩ := List.mem_map.mp hy
      refine ⟨hb z hz, fun hsame => ?_⟩
      rw [Text.sameName_comm, hother (.inr hz)] at hsame
      cases hsame

/-! ## A whole update -/

theorem laidOut_upsertProperty (hlines : MakeLines (writes c)) (hroutes : c.RoutesBack)
    (hs : s ∈ c.sections) {e : String × String} (he : e ∈ s.written) (h : doc.LaidOut o)
    (hhas : doc.hasSection s.name = true) :
    (doc.upsertProperty s.name e.1 e.2).LaidOut o ∧
      (doc.upsertProperty s.name e.1 e.2).hasSection s.name = true := by
  have hw := mem_writes_of_mem_written hs he
  have hk : IsKey (Route.propertyKey s.name e.1) := (hlines _ hw).1
  have htrim : Text.trim e.2 = e.2 := trim_of_writes (mem_writes.mp hw)
  have hsub : doc.properties ⊆ (doc.upsertProperty s.name e.1 e.2).properties :=
    subset_properties_upsert hk htrim (inserts_placeProperty s.name e.1)
  refine ⟨⟨?_, h.canonical.mono hsub⟩, ?_⟩
  · rcases properties_upsert doc hk htrim (placeProperty s.name e.1) with heq | heq
    · exact h.arranged.congr heq
    · rw [upsertProperty, heq]
      exact arranged_placeProperty h.arranged hhas (propertyAt?_written hlines hroutes hs he)
  · obtain ⟨x, hx, hname⟩ := hasSection_iff_mem_properties.mp hhas
    exact hasSection_iff_mem_properties.mpr ⟨x, hsub hx, hname⟩

theorem laidOut_upsertSection (ho : o.Distinct) (hlines : MakeLines (writes c))
    (hroutes : c.RoutesBack) (hs : s ∈ c.sections) (h : doc.LaidOut o) :
    (upsertSection o doc s).LaidOut o := by
  unfold upsertSection
  split
  · rename_i hhas
    have hall := List.foldlRecOn s.written (fun d e => upsertProperty d s.name e.1 e.2)
      (motive := fun d => LaidOut o d ∧ hasSection d s.name = true) ⟨h, hhas⟩
      fun d hd e he => laidOut_upsertProperty hlines hroutes hs he hd.1 hd.2
    exact hall.1
  · rename_i hhas
    rw [Bool.not_eq_true] at hhas
    exact ⟨arranged_insertSection ho hlines hroutes hs h hhas,
      h.canonical.mono (inserts_insertSection o doc s).subset_properties⟩

/-- Writing a chain onto a document that is laid out leaves it so, until the lines of the settings
that the chain lacks are commented out. -/
theorem laidOut_update (ho : o.Distinct) (hlines : MakeLines (writes c)) (hroutes : c.RoutesBack)
    (h : doc.LaidOut o) : ∃ d : Document, update o c doc = d.map (retire c) ∧ d.LaidOut o := by
  -- the settings outside the sections do not touch the property lines
  have hother : ∀ e ∈ writes c, (Route.ofKey e.1).property? = none →
      ∀ {place : Document → String → Document}, (∀ d line, Inserts d [line] (place d line)) →
      ∀ d, LaidOut o d → LaidOut o (d.upsert e.1 e.2 place) := by
    intro e he hroute place hplace d hd
    have heq := properties_upsert_of_none d (hlines e he).1 (trim_of_writes (mem_writes.mp he))
      hroute hplace
    exact ⟨hd.arranged.congr heq, hd.canonical.mono (heq ▸ List.Subset.refl _)⟩
  have hglobals := List.foldlRecOn c.globals.written (fun d e => d.upsertGlobal e.1 e.2)
    (motive := LaidOut o) h fun d hd e he => by
      refine hother e ?_ ?_ inserts_placeGlobal d hd
      · exact List.mem_append_left _ (List.mem_append_left _ he)
      · rw [GlobalKey.ofKey_of_known (Globals.mem_known_of_mem_written he)]
        rfl
  have hsections := List.foldlRecOn c.sections (upsertSection o) (motive := LaidOut o) hglobals
    fun d hd s hs => laidOut_upsertSection ho hlines hroutes hs hd
  refine ⟨_, rfl, List.foldlRecOn (writtenFlags c) (fun d e => d.upsertFlag e.1 e.2)
    (motive := LaidOut o) hsections fun d hd e he => ?_⟩
  refine hother (Route.flagKey e.1, e.2) ?_ ?_ inserts_placeFlag d hd
  · exact List.mem_append_right _ (List.mem_map.mpr ⟨e, he, rfl⟩)
  · rw [hroutes.ofKey_flagKey he]
    rfl

end Chain

end BuildChain.Document
