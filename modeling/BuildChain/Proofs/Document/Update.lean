import BuildChain.Proofs.Chain.Reading
import BuildChain.Proofs.Document.Upsert

/-!
# A whole update

An update writes the settings of a chain one after the other, except that a section without any line
gets all of its settings at once, and then comments out the lines of settings that the chain lacks.
-/

namespace BuildChain

/-! ## What is written -/

/-- A setting that a chain writes: its key, and the value as it is written. -/
inductive Chain.Writes (c : Chain) : String → String → Prop
  | global {key raw : String} (hget : c.globals.get? key = some raw)
      (hblank : Text.isBlank raw = false) : Writes c key (Text.trim raw)
  | property {s : Section} {suffix raw : String} (hs : s ∈ c.sections)
      (hget : s.get? suffix = some raw) (hblank : Text.isBlank raw = false) :
      Writes c (Route.propertyKey s.name suffix) (Text.trim raw)
  | flag {suite : String} {enabled : Bool} (hget : c.flags.get? suite = some enabled) :
      Writes c (Route.flagKey suite) (flagText enabled)
  | rawFlag {suite raw : String} (hget : c.rawFlags.get? suite = some raw)
      (hblank : Text.isBlank raw = false) : Writes c (Route.flagKey suite) (Text.trim raw)

theorem Globals.mem_written {g : Globals} {key value : String} :
    (key, value) ∈ g.written ↔
      ∃ raw, g.get? key = some raw ∧ Text.isBlank raw = false ∧ value = Text.trim raw := by
  have hentry : ∀ field, (key, field) ∈ g.entries ↔ g.entries.lookup key = some field := by
    intro field
    constructor
    · intro h
      simp only [entries, List.mem_cons, List.not_mem_nil, or_false, Prod.mk.injEq] at h
      rcases h with ⟨rfl, rfl⟩ | ⟨rfl, rfl⟩ | ⟨rfl, rfl⟩ <;> rfl
    · intro h
      obtain ⟨before, after, hsplit, -⟩ := List.lookup_eq_some_iff.mp h
      rw [hsplit]
      exact List.mem_append_right _ List.mem_cons_self
  unfold written
  rw [List.mem_filterMap]
  constructor
  · rintro ⟨⟨k, field⟩, he, h⟩
    obtain ⟨v, hv, heq⟩ := Option.map_eq_some_iff.mp h
    cases heq
    obtain ⟨raw, hfield, htrim⟩ := Option.bind_eq_some_iff.mp hv
    obtain ⟨hblank, rfl⟩ := Text.trimmed?_eq_some_iff.mp htrim
    refine ⟨raw, ?_, hblank, rfl⟩
    rw [get?, (hentry field).mp he]
    exact hfield
  · rintro ⟨raw, hget, hblank, rfl⟩
    rw [get?, Option.join_eq_some_iff] at hget
    refine ⟨(key, some raw), (hentry _).mpr hget, ?_⟩
    rw [Option.bind_some, Text.trimmed?_eq_some_iff.mpr ⟨hblank, rfl⟩]
    rfl

theorem Globals.mem_known_of_mem_written {g : Globals} {e : String × String} (he : e ∈ g.written) :
    e.1 ∈ GlobalKey.known := by
  obtain ⟨raw, hget, -, -⟩ := mem_written.mp he
  exact mem_known_of_get? hget

namespace Document

def sectionWrites (s : Section) : List (String × String) :=
  s.written.map fun e => (Route.propertyKey s.name e.1, e.2)

/-- Everything that a chain writes, in the order of writing. -/
def writes (c : Chain) : List (String × String) :=
  c.globals.written ++ c.sections.flatMap sectionWrites ++
    (writtenFlags c).map fun e => (Route.flagKey e.1, e.2)

theorem mem_writes_of_mem_written {c : Chain} {s : Section} (hs : s ∈ c.sections)
    {e : String × String} (he : e ∈ s.written) :
    (Route.propertyKey s.name e.1, e.2) ∈ writes c := by
  refine List.mem_append_left _ (List.mem_append_right _ (List.mem_flatMap.mpr ⟨s, hs, ?_⟩))
  exact List.mem_map.mpr ⟨e, he, rfl⟩

theorem mem_sectionWrites {s : Section} {key value : String} :
    (key, value) ∈ sectionWrites s ↔ ∃ suffix raw, s.get? suffix = some raw ∧
      Text.isBlank raw = false ∧ key = Route.propertyKey s.name suffix ∧ value = Text.trim raw := by
  unfold sectionWrites
  rw [List.mem_map]
  constructor
  · rintro ⟨⟨suffix, v⟩, he, heq⟩
    cases heq
    obtain ⟨raw, hget, hblank, rfl⟩ := Section.mem_written.mp he
    exact ⟨suffix, raw, hget, hblank, rfl, rfl⟩
  · rintro ⟨suffix, raw, hget, hblank, rfl, rfl⟩
    exact ⟨(suffix, Text.trim raw), Section.mem_written.mpr ⟨raw, hget, hblank, rfl⟩, rfl⟩

theorem mem_writes {c : Chain} {key value : String} :
    (key, value) ∈ writes c ↔ c.Writes key value := by
  simp only [writes, List.mem_append, List.mem_flatMap, Globals.mem_written, mem_sectionWrites,
    writtenFlags, List.map_append, List.mem_map, List.mem_filterMap]
  constructor
  · rintro ((⟨raw, hget, hblank, rfl⟩ | ⟨s, hs, suffix, raw, hget, hblank, rfl, rfl⟩) |
      ⟨_, ⟨⟨suite, b⟩, hmem, rfl⟩, heq⟩ | ⟨_, ⟨⟨suite, raw⟩, hmem, h⟩, heq⟩)
    · exact .global hget hblank
    · exact .property hs hget hblank
    · cases heq
      exact .flag (OrderedMap.mem_toList_iff.mp hmem)
    · obtain ⟨v, hv, hout⟩ := Option.map_eq_some_iff.mp h
      obtain ⟨hblank, rfl⟩ := Text.trimmed?_eq_some_iff.mp hv
      cases hout
      cases heq
      exact .rawFlag (OrderedMap.mem_toList_iff.mp hmem) hblank
  · intro h
    cases h with
    | global hget hblank => exact .inl (.inl ⟨_, hget, hblank, rfl⟩)
    | property hs hget hblank => exact .inl (.inr ⟨_, hs, _, _, hget, hblank, rfl, rfl⟩)
    | @flag suite enabled hget =>
      exact .inr (.inl ⟨_, ⟨(suite, enabled), OrderedMap.mem_toList_iff.mpr hget, rfl⟩, rfl⟩)
    | @rawFlag suite raw hget hblank =>
      refine .inr (.inr ⟨(suite, Text.trim raw),
        ⟨(suite, raw), OrderedMap.mem_toList_iff.mpr hget, ?_⟩, rfl⟩)
      rw [Text.trimmed?_eq_some_iff.mpr ⟨hblank, rfl⟩]
      rfl

/-- What is written is trimmed. -/
theorem trim_of_writes {c : Chain} {key value : String} (h : c.Writes key value) :
    Text.trim value = value := by
  cases h with
  | global _ _ => exact Text.trim_trim _
  | property _ _ _ => exact Text.trim_trim _
  | @flag suite enabled _ => exact trim_flagText enabled
  | rawFlag _ _ => exact Text.trim_trim _

/-- What is written holds something. -/
theorem isBlank_of_writes {c : Chain} {key value : String} (h : c.Writes key value) :
    Text.isBlank value = false := by
  cases h with
  | global _ hblank => rwa [Text.isBlank_trim]
  | property _ _ hblank => rwa [Text.isBlank_trim]
  | @flag suite enabled _ => exact isBlank_flagText enabled
  | rawFlag _ hblank => rwa [Text.isBlank_trim]

theorem sectionBlock_eq (s : Section) :
    sectionBlock s = (sectionWrites s).map fun e => Line.assign e.1 e.2 := by
  rw [sectionBlock, sectionWrites, List.map_map]
  rfl

/-- A section with nothing to write is not inserted. -/
theorem insertSection_of_nil {s : Section} (h : sectionWrites s = []) (o : Order)
    (doc : Document) : doc.insertSection o s = doc := by
  rw [insertSection, sectionBlock_eq, h, List.map_nil]

theorem inserts_insertSection (o : Order) (doc : Document) (s : Section) :
    Inserts doc (sectionBlock s) (doc.insertSection o s) := by
  unfold insertSection
  split
  · rename_i hnil
    rw [hnil]
    exact ⟨doc, [], [], [], by simp, by simp, by simp, fun _ => rfl⟩
  · exact inserts_insertBlock doc _ _

theorem Unbroken.insertSection {doc : Document} (h : doc.Unbroken) (o : Order) {s : Section}
    (hs : ∀ e ∈ sectionWrites s, '\n' ∉ e.1.toList ∧ '\n' ∉ e.2.toList) :
    (doc.insertSection o s).Unbroken := by
  refine h.inserts (fun l hl => ?_) (inserts_insertSection o doc s)
  rw [sectionBlock_eq] at hl
  obtain ⟨e, he, rfl⟩ := List.mem_map.mp hl
  obtain ⟨hkey, hvalue⟩ := hs e he
  exact not_mem_assign hkey hvalue

/-! ## One write after the other -/

/-- What each step of a fold keeps of the part that is done holds of the whole in the end. -/
theorem foldl_invariant {α σ : Type} {f : σ → α → σ} (inv : List α → σ → Prop) (l : List α) {s : σ}
    (h0 : inv [] s)
    (hstep : ∀ done a s, done ++ [a] <+: l → inv done s → inv (done ++ [a]) (f s a)) :
    inv l (l.foldl f s) := by
  induction l using List.reverseRecOn with
  | nil => exact h0
  | append_singleton l a ih =>
    have hinit := ih fun done a' s hpre => hstep done a' s (hpre.trans (List.prefix_append l [a]))
    rw [List.foldl_append, List.foldl_cons, List.foldl_nil]
    exact hstep l a _ (List.prefix_refl _) hinit

/-- A setting that a chain writes, and how it gets a line of its own. -/
inductive Places (c : Chain) : String × String → (Document → String → Document) → Prop
  | global {e : String × String} (he : e ∈ c.globals.written) : Places c e placeGlobal
  | property {s : Section} {e : String × String} (hs : s ∈ c.sections) (he : e ∈ s.written) :
      Places c (Route.propertyKey s.name e.1, e.2) (placeProperty s.name e.1)
  | flag {e : String × String} (he : e ∈ writtenFlags c) :
      Places c (Route.flagKey e.1, e.2) placeFlag

theorem Places.inserts {c : Chain} {e : String × String} {place : Document → String → Document}
    (h : Places c e place) (d : Document) (line : String) : Inserts d [line] (place d line) := by
  cases h with
  | global he => exact inserts_placeGlobal d line
  | property hs he => exact inserts_placeProperty _ _ d line
  | flag he => exact inserts_placeFlag d line

theorem Places.mem_writes {c : Chain} {e : String × String} {place : Document → String → Document}
    (h : Places c e place) : e ∈ writes c := by
  cases h with
  | global he => exact List.mem_append_left _ (List.mem_append_left _ he)
  | property hs he => exact mem_writes_of_mem_written hs he
  | flag he => exact List.mem_append_right _ (List.mem_map_of_mem he)

/-- What the writing of a setting and the insertion of a section keep holds before the lines of the
lacking settings are commented out. -/
theorem update_induction_places (inv : List (String × String) → Document → Prop) (o : Order)
    (c : Chain) {doc : Document} (h0 : inv [] doc)
    (hwrite : ∀ done e d place, done ++ [e] <+: writes c → Places c e place → inv done d →
      inv (done ++ [e]) (d.upsert e.1 e.2 place))
    (hinsert : ∀ done s d, s ∈ c.sections → done ++ sectionWrites s <+: writes c →
      d.hasSection s.name = false → inv done d →
      inv (done ++ sectionWrites s) (d.insertSection o s)) :
    ∃ d, update o c doc = d.map (retire c) ∧ inv (writes c) d := by
  have hglobals : inv c.globals.written
      (c.globals.written.foldl (fun d e => d.upsertGlobal e.1 e.2) doc) := by
    refine foldl_invariant inv _ h0 fun done e d hpre hd => ?_
    refine hwrite done e d placeGlobal (hpre.trans ?_) (.global (hpre.subset (by simp))) hd
    rw [writes, List.append_assoc]
    exact List.prefix_append _ _
  have hsections := foldl_invariant (f := upsertSection o)
    (fun done d => inv (c.globals.written ++ done.flatMap sectionWrites) d) c.sections
    (by simpa using hglobals) fun done s d hpre hd => by
      have hall : c.globals.written ++ (done ++ [s]).flatMap sectionWrites <+: writes c := by
        obtain ⟨rest, hrest⟩ := hpre
        refine ⟨rest.flatMap sectionWrites ++
          (writtenFlags c).map fun e => (Route.flagKey e.1, e.2), ?_⟩
        simp only [writes, ← hrest, List.flatMap_append, List.append_assoc]
      have hs : s ∈ c.sections := hpre.subset (by simp)
      rw [List.flatMap_append, List.flatMap_singleton, ← List.append_assoc] at hall ⊢
      unfold upsertSection
      split
      · -- the section has lines: its settings are written one by one
        have hone := foldl_invariant (f := fun d e => d.upsertProperty s.name e.1 e.2)
          (fun part d => inv (c.globals.written ++ done.flatMap sectionWrites ++
            part.map fun e => (Route.propertyKey s.name e.1, e.2)) d) s.written
          (by simpa using hd) fun part e d hpart hd => by
            rw [List.map_append, List.map_singleton, ← List.append_assoc]
            refine hwrite _ _ d (placeProperty s.name e.1) ?_
              (.property hs (hpart.subset (by simp))) hd
            refine List.IsPrefix.trans ?_ hall
            rw [List.append_assoc, List.prefix_append_right_inj]
            have hmap := hpart.map fun e => (Route.propertyKey s.name e.1, e.2)
            rwa [List.map_append, List.map_singleton] at hmap
        exact hone
      · rename_i hhas
        exact hinsert _ s d hs hall (Bool.not_eq_true _ ▸ hhas) hd
  have hflags := foldl_invariant (f := fun d e => d.upsertFlag e.1 e.2)
    (fun done d => inv (c.globals.written ++ c.sections.flatMap sectionWrites ++
      done.map fun e => (Route.flagKey e.1, e.2)) d) (writtenFlags c)
    (by simpa using hsections) fun done e d hpre hd => by
      rw [List.map_append, List.map_singleton, ← List.append_assoc]
      refine hwrite _ _ d placeFlag ?_ (.flag (hpre.subset (by simp))) hd
      rw [writes, List.append_assoc, List.prefix_append_right_inj]
      have hmap := hpre.map fun e => (Route.flagKey e.1, e.2)
      rwa [List.map_append, List.map_singleton] at hmap
  exact ⟨_, rfl, hflags⟩

/-- For most purposes it is enough that a new line is inserted somewhere. -/
theorem update_induction (inv : List (String × String) → Document → Prop) (o : Order) (c : Chain)
    {doc : Document} (h0 : inv [] doc)
    (hwrite : ∀ done e d place, done ++ [e] <+: writes c →
      (∀ d line, Inserts d [line] (place d line)) → inv done d →
      inv (done ++ [e]) (d.upsert e.1 e.2 place))
    (hinsert : ∀ done s d, s ∈ c.sections → done ++ sectionWrites s <+: writes c →
      d.hasSection s.name = false → inv done d →
      inv (done ++ sectionWrites s) (d.insertSection o s)) :
    ∃ d, update o c doc = d.map (retire c) ∧ inv (writes c) d :=
  update_induction_places inv o c h0
    (fun done e d place hpre hplace => hwrite done e d place hpre hplace.inserts) hinsert

/-! ## Settings that are kept -/

theorem keeps_global {c : Chain} {key : String} (hk : key ∈ GlobalKey.known) :
    keeps c (.global key) = (c.globals.get? key).isSome := by
  simp only [GlobalKey.known, List.mem_cons, List.not_mem_nil, or_false] at hk
  rcases hk with rfl | rfl | rfl <;> rfl

theorem keeps_global_of_not_known {c : Chain} {key : String} (hk : key ∉ GlobalKey.known) :
    keeps c (.global key) = true := by
  rw [keeps, Globals.lookup_of_not_known hk]

theorem keeps_flag_iff {c : Chain} {suite : String} :
    keeps c (.flag suite) = true ↔
      ∃ s, ((c.flags.get? s).isSome = true ∨ (c.rawFlags.get? s).isSome = true) ∧
        Text.sameName s suite = true := by
  simp [keeps, OrderedMap.mem_keys_iff, or_and_right, exists_or]

theorem keeps_property (c : Chain) (name suffix : String) :
    keeps c (.property name suffix) = (c.get? name suffix).isSome := by
  rw [keeps, Chain.get?]
  cases c.section? name <;> rfl

/-- A line that starts like a comment has no setting. -/
theorem activeEntry?_comment {ind cs : List Char} (hind : ∀ c ∈ ind, Text.isSpace c = true)
    {l : String} (hl : l.toList = ind ++ '#' :: cs) : Chain.activeEntry? l = none := by
  unfold Chain.activeEntry?
  split
  · rename_i a ha
    rw [Line.ofLine?_comment_inactive hind hl ha]
    rfl
  · rfl

/-- A line that is commented out no longer counts, the others read as before. -/
theorem activeEntry?_retire (c : Chain) (l : String) :
    Chain.activeEntry? (retire c l) =
      (Chain.activeEntry? l).filter fun e => keeps c (Route.ofKey e.1) := by
  unfold retire
  cases hread : Assignment.ofLine? l with
  | none => simp [Chain.activeEntry?, hread]
  | some x =>
    dsimp only
    split
    · rename_i hgone
      simp only [Bool.and_eq_true, Bool.not_eq_true'] at hgone
      rw [activeEntry?_comment (Line.indent_isSpace l) (Line.toList_commentOut l)]
      simp [Chain.activeEntry?, hread, hgone.1, hgone.2, Option.filter_some]
    · rename_i hkept
      rw [Bool.and_eq_true, not_and, Bool.not_eq_true, Bool.not_eq_false'] at hkept
      cases hact : x.active with
      | false => simp [Chain.activeEntry?, hread, hact]
      | true => simp [Chain.activeEntry?, hread, hact, hkept hact, Option.filter_some]

/-- A line that is commented out keeps its key, or it no longer counts as an assignment. -/
theorem key_retire (c : Chain) (l : String) :
    (Assignment.ofLine? (retire c l)).map Assignment.key =
        (Assignment.ofLine? l).map Assignment.key ∨
      Assignment.ofLine? (retire c l) = none := by
  unfold retire
  cases hread : Assignment.ofLine? l with
  | none => exact .inl (by rw [hread])
  | some x =>
    dsimp only
    split
    · rename_i hgone
      rw [Bool.and_eq_true] at hgone
      rw [Line.ofLine?_commentOut hread hgone.1]
      split
      · exact .inr rfl
      · exact .inl rfl
    · exact .inl (by rw [hread])

theorem keys_retire_sublist (c : Chain) (doc : Document) :
    ((assignments (doc.map (retire c))).map Assignment.key).Sublist
      (doc.assignments.map Assignment.key) := by
  have hkeys (doc : Document) : doc.assignments.map Assignment.key =
      doc.filterMap fun l => (Assignment.ofLine? l).map Assignment.key := List.map_filterMap
  rw [hkeys, hkeys]
  induction doc with
  | nil => exact List.Sublist.refl []
  | cons l doc ih =>
    rw [List.map_cons, List.filterMap_cons, List.filterMap_cons]
    rcases key_retire c l with hkey | hnone
    · rw [hkey]
      cases Assignment.ofLine? l with
      | none => exact ih
      | some x => exact ih.cons_cons x.key
    · rw [hnone]
      cases Assignment.ofLine? l with
      | none => exact ih
      | some x => exact ih.cons x.key

theorem not_mem_retire (c : Chain) {l : String} (hl : '\n' ∉ l.toList) :
    '\n' ∉ (retire c l).toList := by
  unfold retire
  split
  · split
    · exact Line.not_mem_commentOut hl
    · exact hl
  · exact hl

theorem retire_eq_self {c : Chain} {l : String}
    (h : ∀ x, Assignment.ofLine? l = some x → x.active = true →
      keeps c (Route.ofKey x.key) = true) : retire c l = l := by
  unfold retire
  cases hread : Assignment.ofLine? l with
  | none => rfl
  | some x =>
    dsimp only
    split
    · rename_i hgone
      simp only [Bool.and_eq_true, Bool.not_eq_true'] at hgone
      rw [h x hread hgone.1] at hgone
      cases hgone.2
    · rfl

end Document

end BuildChain
