import BuildChain.Proofs.Chain.Tidied
import BuildChain.Proofs.Order
import BuildChain.Proofs.Writer.Page
import BuildChain.Proofs.Writer.WriteBack

/-!
# Writing afresh and reading back

A chain that is laid out afresh is read back as its reordering, tidied. The writer goes through the
names of the order and shows the sections of each; a name that comes again shows the same settings
again, which changes nothing, and what is left is the arrangement of the sections.
-/

namespace BuildChain

open Assignment (IsKey)
open Document (writes MakeLines)

/-! ## The sections that are shown -/

namespace Order

variable (o : Order)

/-- The sections of each name of the order in turn, then those without a name of the order. -/
def shown (sections : List Section) : List Section :=
  (o.names.flatMap fun name => sections.filter fun s => s.isNamed name) ++
    sections.filter fun s => !o.contains s.name

theorem filter_isNamed {name : String} {i : Nat} (h : o.position? name = some i)
    (sections : List Section) :
    (sections.filter fun s => s.isNamed name) = o.placed (some i) sections := by
  refine List.filter_congr fun s _ => ?_
  rw [Bool.eq_iff_iff, beq_iff_eq, Section.isNamed]
  constructor
  · exact fun hname => (o.position?_congr hname).trans h
  · intro hplace
    obtain ⟨hi, hname, -⟩ := o.position?_eq_some_iff.mp h
    obtain ⟨hi', hsection, -⟩ := o.position?_eq_some_iff.mp hplace
    rw [Text.sameName_comm] at hsection
    exact Text.sameName_trans hsection hname

/-- A place that holds a name which stands earlier as well has no sections. -/
theorem placed_eq_nil {i j : Nat} (hi : i < o.names.length) (hj : j < i)
    (h : o.position? o.names[i] = some j) (sections : List Section) :
    o.placed (some i) sections = [] := by
  rw [List.eq_nil_iff_forall_not_mem]
  intro s hs
  obtain ⟨-, hplace⟩ := o.mem_placed.mp hs
  obtain ⟨hlt, hname, hfirst⟩ := o.position?_eq_some_iff.mp hplace
  obtain ⟨hlt', hearlier, -⟩ := o.position?_eq_some_iff.mp h
  have hne := hfirst j hj
  rw [Text.sameName_trans hearlier hname] at hne
  cases hne

/-- Whatever is written for each section, as long as no key comes twice: a map that is filled from
the sections that are shown is filled from the arranged sections. -/
theorem ofList_shown {sections : List Section} {front : List (String × String)}
    {f : Section → List (String × String)}
    (hnodup : ((front ++ (o.arrange sections).flatMap f).map Prod.fst).Nodup) :
    OrderedMap.ofList (front ++ (o.shown sections).flatMap f) =
      .ofList (front ++ (o.arrange sections).flatMap f) := by
  have hgroups : ∀ n ≤ o.names.length,
      OrderedMap.ofList (front ++ ((o.names.take n).flatMap fun name =>
        sections.filter fun s => s.isNamed name).flatMap f) =
      .ofList (front ++
        ((List.range n).flatMap fun i => o.placed (some i) sections).flatMap f) := by
    intro n hn
    induction n with
    | zero => rfl
    | succ n ih =>
      have hlt : n < o.names.length := hn
      obtain ⟨j, hj, hplace⟩ := o.exists_position? hlt
      have hleft : front ++ ((o.names.take (n + 1)).flatMap fun name =>
          sections.filter fun s => s.isNamed name).flatMap f =
          (front ++ ((o.names.take n).flatMap fun name =>
            sections.filter fun s => s.isNamed name).flatMap f) ++
            (o.placed (some j) sections).flatMap f := by
        rw [List.take_succ_eq_append_getElem hlt, List.flatMap_append, List.flatMap_singleton,
          List.flatMap_append, List.append_assoc, o.filter_isNamed hplace]
      have hright : front ++ ((List.range (n + 1)).flatMap fun i =>
          o.placed (some i) sections).flatMap f =
          (front ++ ((List.range n).flatMap fun i => o.placed (some i) sections).flatMap f) ++
            (o.placed (some n) sections).flatMap f := by
        rw [List.range_succ, List.flatMap_append, List.flatMap_singleton, List.flatMap_append,
          List.append_assoc]
      rw [hleft, hright, OrderedMap.ofList_append, ih (Nat.le_of_lt hlt),
        ← OrderedMap.ofList_append]
      rcases Nat.lt_or_eq_of_le hj with hlt' | rfl
      · -- the name has come before, and so have all of its settings
        rw [o.placed_eq_nil hlt hlt' hplace, List.flatMap_nil, List.append_nil]
        refine OrderedMap.ofList_append_of_get? fun e he => ?_
        rw [← OrderedMap.mem_toList_iff, OrderedMap.toList_ofList]
        · refine List.mem_append_right _ (List.mem_flatMap.mpr ?_)
          obtain ⟨s, hs, hes⟩ := List.mem_flatMap.mp he
          exact ⟨s, List.mem_flatMap.mpr ⟨j, List.mem_range.mpr hlt', hs⟩, hes⟩
        · refine List.Sublist.nodup (List.Sublist.map Prod.fst ?_) hnodup
          rw [arrange_eq, List.flatMap_append, ← List.append_assoc]
          refine List.Sublist.trans ?_ (List.sublist_append_left _ _)
          refine List.Sublist.append_left ?_ front
          rw [← Nat.add_sub_of_le (Nat.le_of_lt hlt), List.range_add, List.flatMap_append,
            List.flatMap_append]
          exact List.sublist_append_left _ _
      · rfl
  have hall := hgroups o.names.length (Nat.le_refl _)
  rw [List.take_length] at hall
  rw [shown, arrange_eq, List.flatMap_append, List.flatMap_append, ← List.append_assoc,
    ← List.append_assoc, OrderedMap.ofList_append, hall, ← OrderedMap.ofList_append,
    filter_not_contains]

end Order

/-! ## Chains that have a file -/

/-- The keys that a chain writes are read back from lines of their own, and so are its values. -/
structure Chain.Representable (c : Chain) : Prop where
  names : c.DistinctNames
  suites : ∀ suite ∈ c.flags.keys, suite ∉ c.rawFlags.keys
  literals : ∀ e ∈ c.rawFlags.toList, readFlag e.2 = none
  values : ∀ e ∈ writes c, '\n' ∉ e.2.toList
  propertyKeys : ∀ s ∈ c.sections, ∀ e ∈ s.written,
    ReadsBack (Route.propertyKey s.name e.1) e.2 (.property s.name e.1)
  flagKeys : ∀ e ∈ Document.writtenFlags c, ReadsBack (Route.flagKey e.1) e.2 (.flag e.1)

instance (c : Chain) : Decidable c.Representable :=
  decidable_of_iff
    (c.DistinctNames ∧ (∀ suite ∈ c.flags.keys, suite ∉ c.rawFlags.keys) ∧
      (∀ e ∈ c.rawFlags.toList, readFlag e.2 = none) ∧
      (∀ e ∈ writes c, '\n' ∉ e.2.toList) ∧
      (∀ s ∈ c.sections, ∀ e ∈ s.written,
        ReadsBack (Route.propertyKey s.name e.1) e.2 (.property s.name e.1)) ∧
      ∀ e ∈ Document.writtenFlags c, ReadsBack (Route.flagKey e.1) e.2 (.flag e.1))
    ⟨fun ⟨h₁, h₂, h₃, h₄, h₅, h₆⟩ => ⟨h₁, h₂, h₃, h₄, h₅, h₆⟩,
      fun ⟨h₁, h₂, h₃, h₄, h₅, h₆⟩ => ⟨h₁, h₂, h₃, h₄, h₅, h₆⟩⟩

namespace Chain.Representable

variable {c : Chain}

theorem hasLines (h : c.Representable) : c.HasLines := ⟨h.values, h.propertyKeys, h.flagKeys⟩

theorem not_literal (h : c.Representable) {e : String × String} (he : e ∈ c.writtenRawFlags) :
    readFlag e.2 = none := by
  obtain ⟨e', he', hout⟩ := List.mem_filterMap.mp he
  obtain ⟨v, hv, rfl⟩ := Option.map_eq_some_iff.mp hout
  obtain ⟨-, rfl⟩ := Text.trimmed?_eq_some_iff.mp hv
  have hread := h.literals e' he'
  rwa [readFlag, ← Text.trim_trim, ← readFlag] at hread

theorem reorder (h : c.Representable) (o : Order) : (o.reorder c).Representable where
  names := h.names.of_perm (o.arrange_perm c.sections)
  suites := h.suites
  literals := h.literals
  values e he := by
    refine h.values e ?_
    simp only [writes, List.mem_append, List.mem_flatMap, o.mem_sections_reorder] at he ⊢
    exact he
  propertyKeys s hs := h.propertyKeys s (o.mem_sections_reorder.mp hs)
  flagKeys := h.flagKeys

end Chain.Representable

/-! ## Writing and reading -/

namespace Writer

variable {c : Chain}

/-- The settings on a page, in the order of its lines. -/
theorem entries_page (w : Writer) (h : MakeLines (writes c)) :
    (page (w.blocks c)).filterMap Chain.activeEntry? =
      c.globals.written ++ (w.order.shown c.sections).flatMap Document.sectionWrites ++
        (Document.writtenFlags c).map fun e => (Route.flagKey e.1, e.2) := by
  have hkeys : ∀ e ∈ writes c, IsKey e.1 ∧ Text.trim e.2 = e.2 := fun e he =>
    ⟨(h e he).1, Document.trim_of_writes (Document.mem_writes.mp he)⟩
  have hglobals : (globalBlock c.globals).filterMap Chain.activeEntry? = c.globals.written :=
    filterMap_assign fun e he =>
      hkeys e (List.mem_append_left _ (List.mem_append_left _ he))
  have hsection : ∀ s ∈ c.sections, (Document.sectionBlock s).filterMap Chain.activeEntry? =
      Document.sectionWrites s := by
    intro s hs
    rw [Document.sectionBlock_eq]
    refine filterMap_assign fun e he => hkeys e (List.mem_append_left _ ?_)
    exact List.mem_append_right _ (List.mem_flatMap.mpr ⟨s, hs, he⟩)
  have hflags : (flagBlock c).filterMap Chain.activeEntry? =
      (Document.writtenFlags c).map fun e => (Route.flagKey e.1, e.2) := by
    have hblock : flagBlock c = ((Document.writtenFlags c).map fun e =>
        (Route.flagKey e.1, e.2)).map fun e => Line.assign e.1 e.2 := by
      rw [flagBlock, List.map_map]
      rfl
    rw [hblock]
    exact filterMap_assign fun e he => hkeys e (List.mem_append_right _ he)
  have hcanonical : (w.order.names.flatMap fun name =>
      (c.sections.filter fun s => s.isNamed name).map canonicalBlock).flatMap
        (fun b => b.filterMap Chain.activeEntry?) =
      (w.order.names.flatMap fun name => c.sections.filter fun s => s.isNamed name).flatMap
        Document.sectionWrites := by
    rw [List.flatMap_assoc, List.flatMap_assoc]
    refine List.flatMap_congr fun name _ => ?_
    rw [List.flatMap_map]
    refine List.flatMap_congr fun s hs => ?_
    rw [filterMap_canonicalBlock, hsection s (List.mem_of_mem_filter hs)]
  have hothers : ((c.sections.filter fun s => !w.order.contains s.name).map
      Document.sectionBlock).flatMap (fun b => b.filterMap Chain.activeEntry?) =
      (c.sections.filter fun s => !w.order.contains s.name).flatMap Document.sectionWrites := by
    rw [List.flatMap_map]
    exact List.flatMap_congr fun s hs => hsection s (List.mem_of_mem_filter hs)
  rw [filterMap_page rfl, blocks, List.flatMap_append, List.flatMap_append, List.flatMap_append,
    hcanonical, hothers, List.flatMap_singleton, hflags, List.flatMap_cons, List.flatMap_singleton,
    filterMap_header, hglobals, List.nil_append, Order.shown, List.flatMap_append]
  simp only [List.append_assoc]

/-- Each line of a page is one line, unless a placeholder breaks it up. -/
theorem unbroken_page {w : Writer} (hstamp : ∀ time ∈ w.stamp, '\n' ∉ time.toList)
    (h : MakeLines (writes c))
    (hnames : ∀ s ∈ c.sections, w.order.contains s.name = true → s.written = [] →
      '\n' ∉ s.name.toList) : (page (w.blocks c)).Unbroken := by
  have hassign : ∀ e ∈ writes c, '\n' ∉ (Line.assign e.1 e.2).toList := fun e he =>
    Document.not_mem_assign (h e he).2.1 (h e he).2.2
  have hwrites : ∀ s ∈ c.sections, ∀ e ∈ Document.sectionWrites s, e ∈ writes c := fun s hs e he =>
    List.mem_append_left _ (List.mem_append_right _ (List.mem_flatMap.mpr ⟨s, hs, he⟩))
  have hsection : ∀ s ∈ c.sections, ∀ l ∈ Document.sectionBlock s, '\n' ∉ l.toList := by
    intro s hs l hl
    rw [Document.sectionBlock_eq] at hl
    obtain ⟨e, he, rfl⟩ := List.mem_map.mp hl
    exact hassign e (hwrites s hs e he)
  intro l hl
  rcases mem_page hl with rfl | ⟨b, hb, hl⟩
  · decide
  · simp only [blocks, List.mem_append, List.mem_cons, List.not_mem_nil, or_false, List.mem_flatMap,
      List.mem_map] at hb
    rcases hb with (((rfl | rfl) | ⟨name, hname, s, hs, rfl⟩) | ⟨s, hs, rfl⟩) | rfl
    · exact not_mem_header hstamp l hl
    · obtain ⟨e, he, rfl⟩ := List.mem_map.mp hl
      exact hassign e (List.mem_append_left _ (List.mem_append_left _ he))
    · obtain ⟨hs, hnamed⟩ := List.mem_filter.mp hs
      rcases mem_canonicalBlock hl with rfl | hl
      · refine not_mem_devModePlaceholder ?_
        cases hwritten : s.written with
        | nil =>
          refine hnames s hs ?_ hwritten
          rw [Order.contains, ← w.order.position?_congr ((Text.sameName_comm _ _).trans hnamed)]
          obtain ⟨i, hi, rfl⟩ := List.getElem_of_mem hname
          obtain ⟨j, -, hj⟩ := w.order.exists_position? hi
          rw [hj]
          rfl
        | cons e rest =>
          have hfirst : (Route.propertyKey s.name e.1, e.2) ∈ Document.sectionWrites s :=
            List.mem_map_of_mem (hwritten ▸ List.mem_cons_self)
          have hkey := (h _ (hwrites s hs _ hfirst)).2.1
          rw [Route.toList_propertyKey, List.mem_append, not_or] at hkey
          exact hkey.1
      · exact hsection s hs l hl
    · exact hsection s (List.mem_of_mem_filter hs) l hl
    · obtain ⟨e, he, rfl⟩ := List.mem_map.mp hl
      exact hassign (Route.flagKey e.1, e.2)
        (List.mem_append_right _ (List.mem_map.mpr ⟨e, he, rfl⟩))

/-- The settings on the lines of a fresh layout. -/
theorem entries_renderFresh {w : Writer} (hstamp : ∀ time ∈ w.stamp, '\n' ∉ time.toList)
    (h : MakeLines (writes c))
    (hnames : ∀ s ∈ c.sections, w.order.contains s.name = true → s.written = [] →
      '\n' ∉ s.name.toList) :
    (Text.lines (w.renderFresh c)).filterMap Chain.activeEntry? =
      c.globals.written ++ (w.order.shown c.sections).flatMap Document.sectionWrites ++
        (Document.writtenFlags c).map fun e => (Route.flagKey e.1, e.2) := by
  have hread := entries_assemble "" true (unbroken_page hstamp h hnames)
  rw [renderFresh_eq, ← entries_page w h]
  exact hread

/-- A fresh layout sets what the reordered chain sets, in its order. -/
theorem settings_renderFresh {w : Writer} (hstamp : ∀ time ∈ w.stamp, '\n' ∉ time.toList)
    (h : c.Representable)
    (hnames : ∀ s ∈ c.sections, w.order.contains s.name = true → s.written = [] →
      '\n' ∉ s.name.toList) :
    Chain.settings (w.renderFresh c) = .ofList (writes (w.order.reorder c)) := by
  have hreordered := h.reorder w.order
  have hnodup := Chain.nodup_keys_writes hreordered.hasLines.routesBack hreordered.names
    hreordered.suites
  rw [writes, List.map_append] at hnodup
  have hshown : OrderedMap.ofList (c.globals.written ++
        (w.order.shown c.sections).flatMap Document.sectionWrites) =
      .ofList (c.globals.written ++
        (w.order.arrange c.sections).flatMap Document.sectionWrites) :=
    w.order.ofList_shown (List.nodup_append.mp hnodup).1
  rw [Chain.settings, entries_renderFresh hstamp h.hasLines.makeLines hnames,
    OrderedMap.ofList_append, hshown, ← OrderedMap.ofList_append]
  rfl

/-- A fresh layout reorders by itself. -/
theorem renderFresh_reorder (w : Writer) (c : Chain) :
    w.renderFresh (w.order.reorder c) = w.renderFresh c := by
  have hcanonical : (w.order.names.flatMap fun name =>
      ((w.order.reorder c).sections.filter fun s => s.isNamed name).map canonicalBlock) =
      w.order.names.flatMap fun name =>
        (c.sections.filter fun s => s.isNamed name).map canonicalBlock :=
    List.flatMap_congr fun name _ =>
      congrArg _ (w.order.filter_isNamed_arrange name c.sections)
  have hothers := w.order.filter_not_contains_arrange c.sections
  have hblocks : w.blocks (w.order.reorder c) = w.blocks c := by
    rw [blocks, blocks, hcanonical]
    simp only [Order.reorder, hothers]
    rfl
  rw [renderFresh, renderFresh, hblocks]

/-- A chain that is laid out afresh, with any order and any creation time, is read back as its
reordering without the blank values and the sections that have nothing else. Reordering it first
makes no difference for the text. -/
theorem ofText_renderFresh (o : Order) (seconds : Option Nat) (h : c.Representable)
    (hnames : ∀ s ∈ c.sections, o.contains s.name = true → s.written = [] →
      '\n' ∉ s.name.toList) :
    Chain.ofText (renderFresh ⟨o, seconds.map Stamp.ofSeconds⟩ c) =
        { (o.reorder c).tidied with
          source := some (renderFresh ⟨o, seconds.map Stamp.ofSeconds⟩ c) } ∧
      renderFresh ⟨o, seconds.map Stamp.ofSeconds⟩ c =
        renderFresh ⟨o, seconds.map Stamp.ofSeconds⟩ (o.reorder c) := by
  generalize hw : (⟨o, seconds.map Stamp.ofSeconds⟩ : Writer) = w
  have hstamp : ∀ time ∈ w.stamp, '\n' ∉ time.toList := hw ▸ Stamp.not_mem_of_mem_map
  obtain rfl : w.order = o := by rw [← hw]
  have hreordered := h.reorder w.order
  constructor
  · have hsettings := settings_renderFresh hstamp h hnames
    rw [Chain.ofText_eq, hsettings, Chain.ofSettings_writes hreordered.hasLines.routesBack
      hreordered.names hreordered.suites fun e he => hreordered.not_literal he]
  · exact (renderFresh_reorder w c).symm

theorem ofText_renderFresh_repeated_name :
    let c : Chain :=
      { globals := { version := some " 7 " }
        sections := [⟨"z", .ofList [("mode", "binary")]⟩, ⟨"B", .ofList [("mode", "source")]⟩,
          ⟨"a", .ofList [("branch", " ")]⟩]
        flags := .ofList [("smoke", true)]
        rawFlags := .ofList [("slow", " maybe ")] }
    let o : Order := ⟨["a", "b", "A"]⟩
    Chain.ofText (renderFresh ⟨o, some (Stamp.ofSeconds 0)⟩ c) =
        { (o.reorder c).tidied with
          source := some (renderFresh ⟨o, some (Stamp.ofSeconds 0)⟩ c) } ∧
      renderFresh ⟨o, some (Stamp.ofSeconds 0)⟩ c =
        renderFresh ⟨o, some (Stamp.ofSeconds 0)⟩ (o.reorder c) :=
  ofText_renderFresh ⟨["a", "b", "A"]⟩ (some 0) (by decide +kernel) (by decide +kernel)

/-- The placeholder of a section whose name holds a line feed is a setting on its second line. -/
theorem renderFresh_reads_placeholder :
    let c : Chain := { sections := [⟨"x\ny", ∅⟩] }
    let o : Order := ⟨["x\ny"]⟩
    c.Representable ∧
      (Chain.ofText (renderFresh ⟨o, none⟩ c)).sections ≠ (o.reorder c).tidied.sections := by
  decide +kernel

end Writer

end BuildChain
