import BuildChain.Proofs.Document.Search

/-!
# What an edit does to the assignments

A document is seen through the assignments on its lines. Writing a value under a key gives the last
active assignment of that key the value, or makes a disabled one active, or brings in a new one. The
other keys keep the values that are in force.
-/

namespace BuildChain.Document

open Assignment (IsKey)

/-- The assignments on the lines, in their order. -/
def assignments (doc : Document) : List Assignment := doc.filterMap Assignment.ofLine?

theorem mem_assignments {doc : Document} {x : Assignment} :
    x ∈ doc.assignments ↔ ∃ l ∈ doc, Assignment.ofLine? l = some x :=
  List.mem_filterMap

/-! ## Inserting lines -/

/-- A block comes into a document in one place, with empty lines around it or without. No empty line
comes in at the end. -/
def Inserts (doc : Document) (block : List String) (doc' : Document) : Prop :=
  ∃ a b pre post, doc = a ++ b ∧ doc' = a ++ (pre ++ block ++ post) ++ b ∧
    (∀ l ∈ pre ++ post, l = "") ∧ (b = [] → post = [])

theorem inserts_insertAt (doc : Document) (i : Nat) (block : List String) :
    Inserts doc block (doc.insertAt i block) :=
  ⟨doc.take i, doc.drop i, [], [], (List.take_append_drop i doc).symm, by simp [insertAt], by simp,
    fun _ => rfl⟩

theorem mem_gap {neighbour : Option String} {l : String} (h : l ∈ gap neighbour) : l = "" := by
  unfold gap at h
  split at h
  · split at h
    · cases h
    · exact List.mem_singleton.mp h
  · cases h

theorem inserts_insertBlock (doc : Document) (i : Nat) (block : List String) :
    Inserts doc block (doc.insertBlock i block) := by
  refine ⟨doc.take i, doc.drop i, gap (doc.take i).getLast?, gap (doc.drop i).head?,
    (List.take_append_drop i doc).symm, rfl, fun l hl => ?_, fun hend => by rw [hend]; rfl⟩
  rcases List.mem_append.mp hl with hl | hl
  · exact mem_gap hl
  · exact mem_gap hl

theorem inserts_placeGlobal (doc : Document) (line : String) :
    Inserts doc [line] (placeGlobal doc line) := by
  unfold placeGlobal
  split
  · exact inserts_insertAt doc _ [line]
  · exact inserts_insertBlock doc _ [line]

theorem inserts_placeProperty (name suffix : String) (doc : Document) (line : String) :
    Inserts doc [line] (placeProperty name suffix doc line) := by
  unfold placeProperty
  dsimp only
  split
  · exact inserts_insertAt doc _ [line]
  · split
    · exact inserts_insertAt doc _ [line]
    · exact inserts_insertAt doc _ [line]

theorem inserts_placeFlag (doc : Document) (line : String) :
    Inserts doc [line] (placeFlag doc line) := by
  unfold placeFlag
  split
  · exact inserts_insertAt doc _ [line]
  · exact inserts_insertBlock doc _ [line]

/-- Empty lines hold no assignment. -/
theorem Inserts.assignments {doc doc' : Document} {block : List String}
    (h : Inserts doc block doc') :
    ∃ a b, doc.assignments = a ++ b ∧
      doc'.assignments = a ++ block.filterMap Assignment.ofLine? ++ b := by
  obtain ⟨a, b, pre, post, rfl, rfl, hempty, -⟩ := h
  have hnone : ∀ ls : List String, (∀ l ∈ ls, l = "") → ls.filterMap Assignment.ofLine? = [] := by
    intro ls hls
    rw [List.filterMap_eq_nil_iff]
    intro l hl
    rw [hls l hl]
    rfl
  have hpre := hnone pre fun l hl => hempty l (List.mem_append_left _ hl)
  have hpost := hnone post fun l hl => hempty l (List.mem_append_right _ hl)
  refine ⟨a.filterMap Assignment.ofLine?, b.filterMap Assignment.ofLine?, ?_, ?_⟩
  · rw [Document.assignments, List.filterMap_append]
  · simp only [Document.assignments, List.filterMap_append, hpre, hpost, List.nil_append,
      List.append_nil]

theorem Inserts.mem {doc doc' : Document} {block : List String} (h : Inserts doc block doc')
    {l : String} (hl : l ∈ doc') : l ∈ doc ∨ l ∈ block ∨ l = "" := by
  obtain ⟨a, b, pre, post, rfl, rfl, hempty, -⟩ := h
  simp only [List.mem_append] at hl hempty ⊢
  rcases hl with (hl | (hl | hl) | hl) | hl
  · exact .inl (.inl hl)
  · exact .inr (.inr (hempty l (.inl hl)))
  · exact .inr (.inl hl)
  · exact .inr (.inr (hempty l (.inr hl)))
  · exact .inl (.inr hl)

theorem Inserts.length_le {doc doc' : Document} {block : List String} (h : Inserts doc block doc') :
    doc.length ≤ doc'.length := by
  obtain ⟨a, b, pre, post, rfl, rfl, -, -⟩ := h
  simp only [List.length_append]
  omega

/-- The last line is the one it was, or the last one of the block. -/
theorem Inserts.getLast?_eq {doc doc' : Document} {block : List String} (h : Inserts doc block doc')
    (hne : block ≠ []) : doc'.getLast? = doc.getLast? ∨ doc'.getLast? = block.getLast? := by
  obtain ⟨a, b, pre, post, rfl, rfl, -, hend⟩ := h
  rcases eq_or_ne b [] with rfl | hb
  · refine .inr ?_
    rw [hend rfl, List.append_nil, List.append_nil,
      List.getLast?_append_of_ne_nil _ (by simp [hne]), List.getLast?_append_of_ne_nil _ hne]
  · refine .inl ?_
    rw [List.getLast?_append_of_ne_nil _ hb, List.getLast?_append_of_ne_nil _ hb]

/-! ## Writing one value -/

/-- The ways in which writing a value under a key changes the assignments. -/
inductive Upserts (key value : String) : List Assignment → List Assignment → Prop
  | overwrite (a b : List Assignment) (x : Assignment) (hkey : Text.sameName x.key key = true)
      (hact : x.active = true)
      (hlast : ∀ y ∈ b, y.active = true → Text.sameName y.key key = false) :
      Upserts key value (a ++ x :: b) (a ++ ⟨x.key, value, true⟩ :: b)
  | enable (a b : List Assignment) (x : Assignment) (hkey : Text.sameName x.key key = true)
      (hact : x.active = false)
      (hnone : ∀ y ∈ a ++ b, y.active = true → Text.sameName y.key key = false)
      (hlast : ∀ y ∈ b, Text.sameName y.key key = false) :
      Upserts key value (a ++ x :: b) (a ++ ⟨x.key, value, true⟩ :: b)
  | add (a b : List Assignment) (hnone : ∀ y ∈ a ++ b, Text.sameName y.key key = false) :
      Upserts key value (a ++ b) (a ++ ⟨key, value, true⟩ :: b)

theorem not_same_of_holds {doc : Document} {key : String}
    (h : ∀ m ∈ doc, holds key true m = false) :
    ∀ y ∈ doc.assignments, y.active = true → Text.sameName y.key key = false := by
  intro y hy hact
  obtain ⟨m, hm, hread⟩ := mem_assignments.mp hy
  rw [← Bool.not_eq_true]
  intro hkey
  have htrue := holds_iff.mpr ⟨y, hread, hkey, hact⟩
  rw [h m hm] at htrue
  cases htrue

theorem not_same_of_names {doc : Document} {key : String} (h : ∀ m ∈ doc, names key m = false) :
    ∀ y ∈ doc.assignments, Text.sameName y.key key = false := by
  intro y hy
  obtain ⟨m, hm, hread⟩ := mem_assignments.mp hy
  rw [← Bool.not_eq_true]
  intro hkey
  have htrue := names_iff.mpr ⟨y, hread, hkey⟩
  rw [h m hm] at htrue
  cases htrue

theorem upserts_upsert (doc : Document) {key value : String} (hk : IsKey key)
    (hv : Text.trim value = value) {place : Document → String → Document}
    (hplace : ∀ d line, Inserts d [line] (place d line)) :
    Upserts key value doc.assignments (doc.upsert key value place).assignments := by
  rcases upsert_cases doc key value place with
    ⟨a, l, b, x, rfl, hx, hkey, hlast, hres⟩ | ⟨hnone, hres⟩
  · have hxkey : IsKey x.key := hk.congr (by rwa [Text.sameName_comm])
    have hread := Line.ofLine?_reassign hx hxkey hv
    have hsplit : assignments (a ++ l :: b) = assignments a ++ x :: assignments b := by
      simp [assignments, hx]
    have hsplit' : assignments (a ++ Line.reassign value l :: b) =
        assignments a ++ ⟨x.key, value, true⟩ :: assignments b := by
      simp [assignments, hread]
    rw [hres, hsplit, hsplit']
    rcases hlast with ⟨hact, hb⟩ | ⟨hact, hall, hb⟩
    · exact .overwrite _ _ x hkey hact (not_same_of_holds hb)
    · refine .enable _ _ x hkey hact (fun y hy => ?_) (not_same_of_names hb)
      apply not_same_of_holds hall
      rw [hsplit]
      rcases List.mem_append.mp hy with hy | hy
      · exact List.mem_append_left _ hy
      · exact List.mem_append_right _ (List.mem_cons_of_mem _ hy)
  · obtain ⟨a, b, hdoc, hdoc'⟩ := (hplace doc (Line.assign key value)).assignments
    rw [hres, hdoc', hdoc, List.append_assoc]
    have hline : [Line.assign key value].filterMap Assignment.ofLine? = [⟨key, value, true⟩] := by
      simp [Assignment.ofLine?_assign_self hk hv]
    rw [hline, List.singleton_append]
    exact .add a b (hdoc ▸ not_same_of_names hnone)

/-! ## Line feeds -/

/-- No line holds a line feed. -/
def Unbroken (doc : Document) : Prop := ∀ l ∈ doc, '\n' ∉ l.toList

theorem Unbroken.inserts {doc doc' : Document} {block : List String} (h : Unbroken doc)
    (hblock : ∀ l ∈ block, '\n' ∉ l.toList) (hins : Inserts doc block doc') : Unbroken doc' := by
  intro l hl
  rcases hins.mem hl with hl | hl | rfl
  · exact h l hl
  · exact hblock l hl
  · simp

theorem not_mem_assign {key value : String} (hkey : '\n' ∉ key.toList)
    (hvalue : '\n' ∉ value.toList) : '\n' ∉ (Line.assign key value).toList := by
  simp [Line.assign, hkey, hvalue]

theorem Unbroken.upsert {doc : Document} (h : Unbroken doc) {key value : String}
    (hkey : '\n' ∉ key.toList) (hvalue : '\n' ∉ value.toList)
    {place : Document → String → Document} (hplace : ∀ d line, Inserts d [line] (place d line)) :
    Unbroken (doc.upsert key value place) := by
  rcases upsert_cases doc key value place with
    ⟨a, l, b, x, rfl, -, -, -, hres⟩ | ⟨-, hres⟩
  · rw [hres]
    intro m hm
    rcases List.mem_append.mp hm with hm | hm
    · exact h m (List.mem_append_left _ hm)
    · rcases List.mem_cons.mp hm with rfl | hm
      · exact Line.not_mem_reassign (h l (by simp)) hvalue
      · exact h m (by simp [hm])
  · rw [hres]
    refine h.inserts (fun l hl => ?_) (hplace doc _)
    rw [List.mem_singleton.mp hl]
    exact not_mem_assign hkey hvalue

/-! ## The value in force -/

/-- The last active assignment of a key, whatever its case. -/
def inForce? (as : List Assignment) (key : String) : Option Assignment :=
  (as.filter fun x => x.active && Text.sameName x.key key).getLast?

theorem inForce?_congr (as : List Assignment) {key key' : String}
    (h : Text.sameName key key' = true) : inForce? as key = inForce? as key' := by
  rw [Text.sameName_iff] at h
  simp only [inForce?, Text.sameName, h]

theorem inForce?_append (as bs : List Assignment) (key : String) :
    inForce? (as ++ bs) key = (inForce? bs key).or (inForce? as key) := by
  rw [inForce?, List.filter_append, List.getLast?_append, inForce?, inForce?]

theorem inForce?_cons (x : Assignment) (as : List Assignment) (key : String) :
    inForce? (x :: as) key =
      (inForce? as key).or
        (if x.active = true ∧ Text.sameName x.key key = true then some x else none) := by
  rw [← List.singleton_append, inForce?_append]
  congr 1
  by_cases hx : x.active = true ∧ Text.sameName x.key key = true
  · rw [if_pos hx]
    simp [inForce?, hx.1, hx.2]
  · rw [if_neg hx]
    rw [not_and, Bool.not_eq_true] at hx
    cases hact : x.active with
    | false => simp [inForce?, hact]
    | true => simp [inForce?, hx hact]

theorem inForce?_eq_none_iff {as : List Assignment} {key : String} :
    inForce? as key = none ↔
      ∀ y ∈ as, y.active = true → Text.sameName y.key key = false := by
  simp [inForce?]

theorem inForce?_mem {as : List Assignment} {key : String} {x : Assignment}
    (h : inForce? as key = some x) :
    x ∈ as ∧ x.active = true ∧ Text.sameName x.key key = true := by
  have hm := List.mem_of_getLast? h
  rw [List.mem_filter, Bool.and_eq_true] at hm
  exact hm

namespace Upserts

variable {key value : String} {as as' : List Assignment}

theorem inForce?_self (h : Upserts key value as as') :
    ∃ k, Text.sameName k key = true ∧ inForce? as' key = some ⟨k, value, true⟩ := by
  cases h with
  | overwrite a b x hkey hact hlast =>
    refine ⟨x.key, hkey, ?_⟩
    rw [inForce?_append, inForce?_cons, inForce?_eq_none_iff.mpr hlast]
    simp [hkey]
  | enable a b x hkey hact hnone hlast =>
    refine ⟨x.key, hkey, ?_⟩
    have hb := inForce?_eq_none_iff.mpr fun y hy => hnone y (List.mem_append_right _ hy)
    rw [inForce?_append, inForce?_cons, hb]
    simp [hkey]
  | add a b hnone =>
    refine ⟨key, Text.sameName_refl key, ?_⟩
    have hb := inForce?_eq_none_iff.mpr fun y hy _ => hnone y (List.mem_append_right _ hy)
    rw [inForce?_append, inForce?_cons, hb]
    simp

theorem inForce?_of_not_same (h : Upserts key value as as') {k : String}
    (hk : Text.sameName key k = false) : inForce? as' k = inForce? as k := by
  have hother : ∀ n, Text.sameName n key = true → Text.sameName n k = false := by
    intro n hn
    rw [← Bool.not_eq_true]
    intro hnk
    rw [Text.sameName_comm] at hn
    rw [Text.sameName_trans hn hnk] at hk
    cases hk
  cases h with
  | overwrite a b x hkey hact hlast =>
    simp [inForce?_append, inForce?_cons, hother x.key hkey]
  | enable a b x hkey hact hnone hlast =>
    simp [inForce?_append, inForce?_cons, hother x.key hkey]
  | add a b hnone => simp [inForce?_append, inForce?_cons, hk]

/-- An assignment that is new has the key, in the case of a line or in its own. -/
theorem mem_cases (h : Upserts key value as as') {y : Assignment} (hy : y ∈ as') :
    y ∈ as ∨ Text.sameName y.key key = true ∧ (y.key = key ∨ ∃ x ∈ as, x.key = y.key) := by
  have hmodified : ∀ {a b : List Assignment} (x : Assignment), Text.sameName x.key key = true →
      y ∈ a ++ ⟨x.key, value, true⟩ :: b → y ∈ a ++ x :: b ∨
        Text.sameName y.key key = true ∧ (y.key = key ∨ ∃ z ∈ a ++ x :: b, z.key = y.key) := by
    intro a b x hkey hy
    rcases List.mem_append.mp hy with hy | hy
    · exact .inl (List.mem_append_left _ hy)
    · rcases List.mem_cons.mp hy with rfl | hy
      · exact .inr ⟨hkey, .inr ⟨x, by simp, rfl⟩⟩
      · exact .inl (by simp [hy])
  cases h with
  | overwrite a b x hkey hact hlast => exact hmodified x hkey hy
  | enable a b x hkey hact hnone hlast => exact hmodified x hkey hy
  | add a b hnone =>
    rcases List.mem_append.mp hy with hy | hy
    · exact .inl (List.mem_append_left _ hy)
    · rcases List.mem_cons.mp hy with rfl | hy
      · exact .inr ⟨Text.sameName_refl _, .inl rfl⟩
      · exact .inl (List.mem_append_right _ hy)

/-- A key that is there afterwards was there before, or it is the new one. -/
theorem key_mem (h : Upserts key value as as') {y : Assignment} (hy : y ∈ as') :
    (∃ x ∈ as, x.key = y.key) ∨
      (y.key = key ∧ ∀ x ∈ as, Text.sameName x.key key = false) := by
  cases h with
  | overwrite a b x hkey hact hlast =>
    rcases List.mem_append.mp hy with hy | hy
    · exact .inl ⟨y, List.mem_append_left _ hy, rfl⟩
    · rcases List.mem_cons.mp hy with rfl | hy
      · exact .inl ⟨x, by simp, rfl⟩
      · exact .inl ⟨y, by simp [hy], rfl⟩
  | enable a b x hkey hact hnone hlast =>
    rcases List.mem_append.mp hy with hy | hy
    · exact .inl ⟨y, List.mem_append_left _ hy, rfl⟩
    · rcases List.mem_cons.mp hy with rfl | hy
      · exact .inl ⟨x, by simp, rfl⟩
      · exact .inl ⟨y, by simp [hy], rfl⟩
  | add a b hnone =>
    rcases List.mem_append.mp hy with hy | hy
    · exact .inl ⟨y, List.mem_append_left _ hy, rfl⟩
    · rcases List.mem_cons.mp hy with rfl | hy
      · exact .inr ⟨rfl, hnone⟩
      · exact .inl ⟨y, List.mem_append_right _ hy, rfl⟩

/-- No key gets lost. -/
theorem exists_key (h : Upserts key value as as') {x : Assignment} (hx : x ∈ as) :
    ∃ y ∈ as', y.key = x.key := by
  have hmodified : ∀ {a b : List Assignment} (z z' : Assignment), z'.key = z.key →
      x ∈ a ++ z :: b → ∃ y ∈ a ++ z' :: b, y.key = x.key := by
    intro a b z z' hkey hx
    rcases List.mem_append.mp hx with hx | hx
    · exact ⟨x, List.mem_append_left _ hx, rfl⟩
    · rcases List.mem_cons.mp hx with rfl | hx
      · exact ⟨z', by simp, hkey⟩
      · exact ⟨x, by simp [hx], rfl⟩
  cases h with
  | overwrite a b z hkey hact hlast => exact hmodified z ⟨z.key, value, true⟩ rfl hx
  | enable a b z hkey hact hnone hlast => exact hmodified z ⟨z.key, value, true⟩ rfl hx
  | add a b hnone =>
    refine ⟨x, ?_, rfl⟩
    rcases List.mem_append.mp hx with hx | hx
    · exact List.mem_append_left _ hx
    · simp [hx]

end Upserts

end BuildChain.Document
