import BuildChain.Proofs.Document.Settings

/-!
# The property lines of a document

The property lines of a document are its assignments, active or not, that lead to a section. An edit
leaves their sections and suffixes alone or brings in the ones of new lines. The lines of one
section are found in order, so a place that is given by one of them cuts the document in two.
-/

namespace BuildChain

namespace Route

/-- The section and the suffix that a route leads to. -/
def property? : Route → Option (String × String)
  | property name suffix => some (name, suffix)
  | _ => none

theorem property?_eq_some_iff {r : Route} {e : String × String} :
    r.property? = some e ↔ r = .property e.1 e.2 := by
  cases r <;> simp [property?, Prod.ext_iff]

end Route

namespace Document

open Assignment (IsKey)

/-- The section and the suffix that a line addresses, active or not. -/
def propertyAt? (line : String) : Option (String × String) :=
  (Route.ofLine? line).bind Route.property?

/-- The sections and suffixes of the property lines, from top to bottom. -/
def properties (doc : Document) : List (String × String) := doc.filterMap propertyAt?

theorem properties_append (a b : Document) :
    properties (a ++ b) = a.properties ++ b.properties := List.filterMap_append

theorem properties_cons {l : String} {e : String × String} (h : propertyAt? l = some e)
    (doc : Document) : properties (l :: doc) = e :: doc.properties := List.filterMap_cons_some h

theorem propertyAt?_eq_some_iff {l : String} {e : String × String} : propertyAt? l = some e ↔
    ∃ x, Assignment.ofLine? l = some x ∧ Route.ofKey x.key = .property e.1 e.2 := by
  simp only [propertyAt?, Route.ofLine?, Option.bind_eq_some_iff, Option.map_eq_some_iff,
    Route.property?_eq_some_iff]
  constructor
  · rintro ⟨r, ⟨x, hread, rfl⟩, hkey⟩
    exact ⟨x, hread, hkey⟩
  · rintro ⟨x, hread, hkey⟩
    exact ⟨_, ⟨x, hread, rfl⟩, hkey⟩

theorem propertyAt?_of_ofLine? {l : String} {x : Assignment} (h : Assignment.ofLine? l = some x) :
    propertyAt? l = (Route.ofKey x.key).property? := by
  rw [propertyAt?, Route.ofLine?, h, Option.map_some, Option.bind_some]

theorem propertyAt?_of_none {l : String} (h : Assignment.ofLine? l = none) :
    propertyAt? l = none := by
  rw [propertyAt?, Route.ofLine?, h, Option.map_none, Option.bind_none]

/-- The property lines are the assignments that lead to a section. -/
theorem properties_eq (doc : Document) :
    doc.properties = doc.assignments.filterMap fun x => (Route.ofKey x.key).property? := by
  rw [properties, assignments, List.filterMap_filterMap]
  refine List.filterMap_congr fun l _ => ?_
  rw [propertyAt?, Route.ofLine?, Option.bind_map]
  rfl

theorem mem_properties {doc : Document} {e : String × String} :
    e ∈ doc.properties ↔ ∃ x ∈ doc.assignments, Route.ofKey x.key = .property e.1 e.2 := by
  simp only [properties_eq, List.mem_filterMap, Route.property?_eq_some_iff]

theorem hasSection_iff_mem_properties {doc : Document} {name : String} :
    doc.hasSection name = true ↔ ∃ e ∈ doc.properties, Text.sameName e.1 name = true := by
  rw [hasSection_iff]
  constructor
  · rintro ⟨x, hx, n, suffix, hkey, hname⟩
    exact ⟨(n, suffix), mem_properties.mpr ⟨x, hx, hkey⟩, hname⟩
  · rintro ⟨⟨n, suffix⟩, he, hname⟩
    obtain ⟨x, hx, hkey⟩ := mem_properties.mp he
    exact ⟨x, hx, n, suffix, hkey, hname⟩

theorem not_sameName_of_not_hasSection {doc : Document} {name : String}
    (h : doc.hasSection name = false) {e : String × String} (he : e ∈ doc.properties) :
    Text.sameName e.1 name = false := by
  rw [← Bool.not_eq_true] at h ⊢
  exact fun hname => h (hasSection_iff_mem_properties.mpr ⟨e, he, hname⟩)

/-! ## Edits -/

theorem properties_gap (neighbour : Option String) : properties (gap neighbour) = [] := by
  refine List.filterMap_eq_nil_iff.mpr fun l hl => ?_
  rw [mem_gap hl]
  rfl

theorem properties_insertAt (a b : Document) (block : List String) :
    (insertAt (a ++ b) a.length block).properties =
      a.properties ++ properties block ++ b.properties := by
  rw [insertAt, List.take_left, List.drop_left, properties_append, properties_append]

theorem properties_insertBlock (a b : Document) (block : List String) :
    (insertBlock (a ++ b) a.length block).properties =
      a.properties ++ properties block ++ b.properties := by
  rw [insertBlock, properties_insertAt]
  simp only [properties_append, properties_gap, List.nil_append, List.append_nil]

theorem Inserts.properties_eq {doc doc' : Document} {block : List String}
    (h : Inserts doc block doc') (hblock : properties block = []) :
    doc'.properties = doc.properties := by
  obtain ⟨a, b, pre, post, rfl, rfl, hempty, -⟩ := h
  have hnone : ∀ ls : List String, (∀ l ∈ ls, l = "") → properties ls = [] := fun ls hls =>
    List.filterMap_eq_nil_iff.mpr fun l hl => hls l hl ▸ rfl
  have hpre := hnone pre fun l hl => hempty l (List.mem_append_left _ hl)
  have hpost := hnone post fun l hl => hempty l (List.mem_append_right _ hl)
  simp only [properties_append, hpre, hpost, hblock, List.append_nil]

/-- A value that is written onto a line leaves what the line addresses. -/
theorem properties_upsert (doc : Document) {key value : String} (hk : IsKey key)
    (hv : Text.trim value = value) (place : Document → String → Document) :
    (doc.upsert key value place).properties = doc.properties ∨
      doc.upsert key value place = place doc (Line.assign key value) := by
  rcases upsert_cases doc key value place with ⟨a, l, b, x, rfl, hx, hkey, -, hres⟩ | ⟨-, hres⟩
  · refine .inl ?_
    have hxkey : IsKey x.key := hk.congr (by rwa [Text.sameName_comm])
    have hline : propertyAt? (Line.reassign value l) = propertyAt? l := by
      rw [propertyAt?_of_ofLine? (Line.ofLine?_reassign hx hxkey hv), propertyAt?_of_ofLine? hx]
    rw [hres, properties_append, properties_append]
    simp only [properties, List.filterMap_cons, hline]
  · exact .inr hres

theorem propertyAt?_assign {key value : String} (hk : IsKey key) (hv : Text.trim value = value) :
    propertyAt? (Line.assign key value) = (Route.ofKey key).property? :=
  propertyAt?_of_ofLine? (Assignment.ofLine?_assign_self hk hv)

theorem properties_singleton (l : String) : properties [l] = (propertyAt? l).toList := by
  rw [properties]
  cases h : propertyAt? l <;> simp [h]

theorem Inserts.subset_properties {doc doc' : Document} {block : List String}
    (h : Inserts doc block doc') : doc.properties ⊆ doc'.properties := by
  obtain ⟨a, b, pre, post, rfl, rfl, -⟩ := h
  intro e he
  simp only [properties_append, List.mem_append] at he ⊢
  exact he.imp .inl id

theorem subset_properties_upsert {doc : Document} {key value : String} (hk : IsKey key)
    (hv : Text.trim value = value) {place : Document → String → Document}
    (hplace : ∀ d line, Inserts d [line] (place d line)) :
    doc.properties ⊆ (doc.upsert key value place).properties := by
  rcases properties_upsert doc hk hv place with heq | heq
  · exact heq ▸ List.Subset.refl _
  · exact heq ▸ (hplace doc _).subset_properties

/-- A key that leads to no section leaves the property lines as they are. -/
theorem properties_upsert_of_none (doc : Document) {key value : String} (hk : IsKey key)
    (hv : Text.trim value = value) (hroute : (Route.ofKey key).property? = none)
    {place : Document → String → Document} (hplace : ∀ d line, Inserts d [line] (place d line)) :
    (doc.upsert key value place).properties = doc.properties := by
  rcases properties_upsert doc hk hv place with heq | heq
  · exact heq
  · refine heq ▸ (hplace doc _).properties_eq ?_
    rw [properties_singleton, propertyAt?_assign hk hv, hroute, Option.toList_none]

/-! ## The lines of one section -/

/-- The rank of the property that a line has in a section, if it is a line of the section. -/
def rankIn? (name line : String) : Option Nat :=
  (propertyAt? line).bind fun e =>
    if Text.sameName e.1 name then some (Property.rank e.2) else none

theorem rankIn?_eq_some_iff {name l : String} {rank : Nat} : rankIn? name l = some rank ↔
    ∃ e, propertyAt? l = some e ∧ Text.sameName e.1 name = true ∧ Property.rank e.2 = rank := by
  simp [rankIn?, Option.bind_eq_some_iff]

theorem mem_filterMap_rankIn? {doc : Document} {name : String} {rank : Nat} :
    rank ∈ doc.filterMap (rankIn? name) ↔
      ∃ e ∈ doc.properties, Text.sameName e.1 name = true ∧ Property.rank e.2 = rank := by
  simp only [List.mem_filterMap, rankIn?_eq_some_iff, properties]
  constructor
  · rintro ⟨l, hl, e, he, hname, hrank⟩
    exact ⟨e, ⟨l, hl, he⟩, hname, hrank⟩
  · rintro ⟨e, ⟨l, hl, he⟩, hname, hrank⟩
    exact ⟨l, hl, e, he, hname, hrank⟩

theorem sectionLines_eq (doc : Document) (name : String) :
    doc.sectionLines name =
      doc.zipIdx.filterMap fun e => (rankIn? name e.1).map fun rank => (e.2, rank) := by
  refine List.filterMap_congr fun e _ => ?_
  rw [rankIn?, propertyAt?]
  cases hroute : Route.ofLine? e.1 with
  | none => rfl
  | some r =>
    cases r with
    | property n suffix =>
      by_cases hname : Text.sameName n name = true <;> simp [Route.property?, hname]
    | _ => rfl

/-- The numbered lines that have a rank, and their ranks. -/
theorem map_snd_rows {f : String → Option Nat} (doc : Document) (k : Nat) :
    ((doc.zipIdx k).filterMap fun e => (f e.1).map fun rank => (e.2, rank)).map Prod.snd =
      doc.filterMap f := by
  induction doc generalizing k with
  | nil => rfl
  | cons l doc ih =>
    rw [List.zipIdx_cons, List.filterMap_cons, List.filterMap_cons]
    cases f l with
    | none => exact ih (k + 1)
    | some rank => exact congrArg (rank :: ·) (ih (k + 1))

/-- A row among the numbered lines that have a rank is one line of the list, and the rows before and
after it are those of the lines before and after. -/
theorem exists_row {f : String → Option Nat} {doc : Document} {k : Nat} {as bs : List (Nat × Nat)}
    {row : Nat × Nat} (h : ((doc.zipIdx k).filterMap fun e =>
      (f e.1).map fun rank => (e.2, rank)) = as ++ row :: bs) :
    ∃ a l b, doc = a ++ l :: b ∧ k + a.length = row.1 ∧ f l = some row.2 ∧
      a.filterMap f = as.map Prod.snd ∧ b.filterMap f = bs.map Prod.snd := by
  induction doc generalizing k as with
  | nil => simp at h
  | cons l doc ih =>
    rw [List.zipIdx_cons, List.filterMap_cons] at h
    cases hl : f l with
    | none =>
      simp only [hl, Option.map_none] at h
      obtain ⟨a, m, b, rfl, hlen, hm, ha, hb⟩ := ih h
      exact ⟨l :: a, m, b, rfl, by rw [List.length_cons]; omega, hm,
        by rw [List.filterMap_cons_none hl, ha], hb⟩
    | some rank =>
      simp only [hl, Option.map_some] at h
      cases as with
      | nil =>
        rw [List.nil_append, List.cons.injEq] at h
        obtain ⟨rfl, rfl⟩ := h
        exact ⟨[], l, doc, rfl, rfl, hl, rfl, (map_snd_rows doc (k + 1)).symm⟩
      | cons first as =>
        rw [List.cons_append, List.cons.injEq] at h
        obtain ⟨rfl, h⟩ := h
        obtain ⟨a, m, b, rfl, hlen, hm, ha, hb⟩ := ih h
        exact ⟨l :: a, m, b, rfl, by rw [List.length_cons]; omega, hm,
          by rw [List.filterMap_cons_some hl, ha, List.map_cons], hb⟩

/-- A line of a section cuts the document where it stands. -/
theorem exists_sectionLine {doc : Document} {name : String} {as bs : List (Nat × Nat)}
    {row : Nat × Nat} (h : doc.sectionLines name = as ++ row :: bs) :
    ∃ (a : Document) (l : String) (b : Document) (e : String × String),
      doc = a ++ l :: b ∧ a.length = row.1 ∧ propertyAt? l = some e ∧
      Text.sameName e.1 name = true ∧ Property.rank e.2 = row.2 ∧
      (∀ e ∈ a.properties, Text.sameName e.1 name = true → ∃ i, (i, Property.rank e.2) ∈ as) ∧
      ∀ e ∈ b.properties, Text.sameName e.1 name = true → ∃ i, (i, Property.rank e.2) ∈ bs := by
  rw [sectionLines_eq] at h
  obtain ⟨a, l, b, rfl, hlen, hl, ha, hb⟩ := exists_row h
  obtain ⟨e, he, hname, hrank⟩ := rankIn?_eq_some_iff.mp hl
  have hrows : ∀ {part : Document} {rows : List (Nat × Nat)},
      part.filterMap (rankIn? name) = rows.map Prod.snd → ∀ e ∈ part.properties,
        Text.sameName e.1 name = true → ∃ i, (i, Property.rank e.2) ∈ rows := by
    intro part rows hpart e he hname
    have hmem := mem_filterMap_rankIn?.mpr ⟨e, he, hname, rfl⟩
    rw [hpart] at hmem
    obtain ⟨⟨i, rank⟩, hrow, rfl⟩ := List.mem_map.mp hmem
    exact ⟨i, hrow⟩
  exact ⟨a, l, b, e, rfl, by rw [← hlen, Nat.zero_add], he, hname, hrank, hrows ha, hrows hb⟩

theorem exists_firstLine {doc : Document} {name : String} {row : Nat × Nat}
    (h : (doc.sectionLines name).head? = some row) :
    ∃ (a : Document) (l : String) (b : Document) (e : String × String),
      doc = a ++ l :: b ∧ a.length = row.1 ∧ propertyAt? l = some e ∧
      Text.sameName e.1 name = true ∧ ∀ x ∈ a.properties, Text.sameName x.1 name = false := by
  obtain ⟨rows, hrows⟩ := List.head?_eq_some_iff.mp h
  obtain ⟨a, l, b, e, rfl, hlen, hl, hname, -, ha, -⟩ :=
    exists_sectionLine (show _ = [] ++ row :: rows from hrows)
  refine ⟨a, l, b, e, rfl, hlen, hl, hname, fun x hx => ?_⟩
  rw [← Bool.not_eq_true]
  intro hsame
  obtain ⟨_, hmem⟩ := ha x hx hsame
  cases hmem

theorem exists_lastLine {doc : Document} {name : String} {row : Nat × Nat}
    (h : (doc.sectionLines name).getLast? = some row) :
    ∃ (a : Document) (l : String) (b : Document) (e : String × String),
      doc = a ++ l :: b ∧ a.length = row.1 ∧ propertyAt? l = some e ∧
      Text.sameName e.1 name = true ∧ ∀ x ∈ b.properties, Text.sameName x.1 name = false := by
  obtain ⟨rows, hrows⟩ := List.getLast?_eq_some_iff.mp h
  obtain ⟨a, l, b, e, rfl, hlen, hl, hname, -, -, hb⟩ := exists_sectionLine hrows
  refine ⟨a, l, b, e, rfl, hlen, hl, hname, fun x hx => ?_⟩
  rw [← Bool.not_eq_true]
  intro hsame
  obtain ⟨_, hmem⟩ := hb x hx hsame
  cases hmem

theorem exists_row_of_mem_properties {doc : Document} {name : String} {e : String × String}
    (he : e ∈ doc.properties) (hname : Text.sameName e.1 name = true) :
    ∃ i, (i, Property.rank e.2) ∈ doc.sectionLines name := by
  have hmem := mem_filterMap_rankIn?.mpr ⟨e, he, hname, rfl⟩
  rw [← map_snd_rows doc 0, ← sectionLines_eq] at hmem
  obtain ⟨⟨i, rank⟩, hrow, rfl⟩ := List.mem_map.mp hmem
  exact ⟨i, hrow⟩

/-- The comments above a line hold no property. -/
theorem exists_commentHead (a b : Document) :
    ∃ a' comments, a = a' ++ comments ∧ a'.length = commentHead (a ++ b) a.length ∧
      properties comments = [] := by
  have hcut := congrArg List.reverse
    (List.takeWhile_append_dropWhile (p := Line.isPlainComment) (l := a.reverse))
  rw [List.reverse_append, List.reverse_reverse] at hcut
  refine ⟨_, _, hcut.symm, ?_, List.filterMap_eq_nil_iff.mpr fun l hl => ?_⟩
  · have hlen := congrArg List.length hcut
    rw [List.length_append, List.length_reverse, List.length_reverse] at hlen
    rw [commentHead, List.take_left, List.length_reverse]
    omega
  · exact propertyAt?_of_none
      (Line.ofLine?_eq_none (.inr (List.mem_takeWhile_imp (List.mem_reverse.mp hl))))

end Document

end BuildChain
