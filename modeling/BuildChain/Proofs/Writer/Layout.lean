import BuildChain.Proofs.Document.Layout
import BuildChain.Proofs.Writer.Frame
import BuildChain.Proofs.Writer.WriteBack

/-!
# Keeping the layout of a file

A text whose property lines are arranged is still arranged when any chain with lines of its own has
been written onto it, so the sections that are read back stand in order. A property line that is
commented out is a property line still unless its key holds white space.
-/

namespace BuildChain

open Document (assignments properties writes)

/-! ## The sections that are read -/

theorem OrderedMap.keys_ofList_sublist {β : Type} (entries : List (String × β)) :
    (ofList entries).keys.Sublist (entries.map Prod.fst) := by
  induction entries using List.reverseRecOn with
  | nil => exact List.Sublist.refl []
  | append_singleton entries e ih =>
    rw [ofList_concat, keys_insert, List.map_append]
    split
    · exact ih.trans (List.sublist_append_left _ _)
    · exact ih.append (List.Sublist.refl _)

namespace Chain

/-- The sections stand in the order of the keys that lead to them. -/
theorem names_ofSettings_sublist (m : OrderedMap String) :
    (ofSettings m).names.Sublist (m.keys.filterMap fun k => (Route.ofKey k).section?) := by
  unfold ofSettings OrderedMap.keys
  induction m.toList using List.reverseRecOn with
  | nil => exact List.Sublist.refl []
  | append_singleton l e ih =>
    rw [List.foldl_append, List.foldl_cons, List.foldl_nil, names_place, List.map_append,
      List.filterMap_append]
    cases hsection : (Route.ofKey e.1).section? with
    | none => exact ih.trans (List.sublist_append_left _ _)
    | some n =>
      dsimp only
      split
      · exact ih.trans (List.sublist_append_left _ _)
      · refine ih.append ?_
        simp [hsection]

theorem names_ofText_sublist (text : String) :
    (ofText text).names.Sublist ((properties (Text.lines text)).map Prod.fst) := by
  have hkeys : (settings text).keys.Sublist
      ((assignments (Text.lines text)).map Assignment.key) := by
    rw [Document.settings_lines, Document.settings]
    refine (OrderedMap.keys_ofList_sublist _).trans ?_
    rw [Document.entries, List.map_filterMap]
    generalize assignments (Text.lines text) = as
    induction as with
    | nil => exact List.Sublist.refl []
    | cons x as ih =>
      cases hact : x.active with
      | false => simpa [hact] using ih.cons x.key
      | true => simpa [hact] using ih.cons_cons x.key
  have hsections : ((properties (Text.lines text)).map Prod.fst) =
      ((assignments (Text.lines text)).map Assignment.key).filterMap fun k =>
        (Route.ofKey k).section? := by
    rw [Document.properties_eq, List.map_filterMap, List.filterMap_map]
    refine List.filterMap_congr fun x _ => ?_
    rw [Function.comp_apply]
    cases Route.ofKey x.key <;> rfl
  rw [hsections]
  exact (names_ofSettings_sublist _).trans (hkeys.filterMap _)

/-- The sections of an arranged text stand in order. -/
theorem isOrdered_ofText {o : Order} {text : String}
    (h : Document.Arranged o (Text.lines text)) : o.isOrdered (ofText text) = true := by
  refine o.isOrdered_of_sorted ?_
  have hlines : ((properties (Text.lines text)).map Prod.fst).Pairwise
      fun n n' => o.rank n ≤ o.rank n' := List.pairwise_map.mpr h.sections
  have hnames := hlines.sublist (names_ofText_sublist text)
  rwa [names, List.pairwise_map] at hnames

/-- Whether the line of a property stays one: a key without white space is read even when it is
commented out, and the line of a property that the chain has is not commented out. -/
def Retains (c : Chain) (e : String × String) : Prop :=
  (Route.propertyKey e.1 e.2).toList.any Text.isSpace = false ∨ (c.get? e.1 e.2).isSome = true

instance (c : Chain) (e : String × String) : Decidable (c.Retains e) :=
  inferInstanceAs (Decidable (_ ∨ _))

end Chain

/-! ## Lines that are commented out -/

namespace Document

variable {c : Chain} {doc : Document}

theorem properties_retire_sublist (c : Chain) (doc : Document) :
    (properties (doc.map (retire c))).Sublist doc.properties := by
  have hkeys (doc : Document) : doc.properties =
      (doc.assignments.map Assignment.key).filterMap fun k => (Route.ofKey k).property? := by
    rw [properties_eq, List.filterMap_map]
    rfl
  rw [hkeys, hkeys]
  exact (keys_retire_sublist c doc).filterMap _

theorem mem_properties_retire {e : String × String} (he : e ∈ doc.properties) (h : c.Retains e) :
    e ∈ properties (doc.map (retire c)) := by
  obtain ⟨x, hx, hkey⟩ := mem_properties.mp he
  obtain ⟨l, hl, hread⟩ := mem_assignments.mp hx
  refine List.mem_filterMap.mpr ⟨retire c l, List.mem_map_of_mem hl, ?_⟩
  have hline : propertyAt? l = some e := propertyAt?_eq_some_iff.mpr ⟨x, hread, hkey⟩
  rw [← hline]
  unfold retire
  rw [hread]
  dsimp only
  split
  · rename_i hgone
    rw [Bool.and_eq_true, Bool.not_eq_true', hkey, keeps_property] at hgone
    have hspace := h.resolve_right (by rw [hgone.2]; exact Bool.false_ne_true)
    rw [← (Route.ofKey_eq_property hkey).1] at hspace
    have hout := Line.ofLine?_commentOut hread hgone.1
    rw [hspace, if_neg Bool.false_ne_true] at hout
    rw [propertyAt?_of_ofLine? hout, propertyAt?_of_ofLine? hread]
  · rfl

/-- The property lines of the text stay until the lines of lacking settings are commented out. -/
theorem subset_properties_update (o : Order) (hlines : MakeLines (writes c))
    (hdoc : doc.Unbroken) :
    ∃ d : Document, update o c doc = d.map (retire c) ∧ doc.properties ⊆ d.properties := by
  obtain ⟨d, hupdate, -, hkeys⟩ := update_assignments
    (P := fun _ as => ∀ x ∈ doc.assignments, ∃ y ∈ as, y.key = x.key) o hdoc hlines
    (fun x hx => ⟨x, hx, rfl⟩)
    (fun done e as as' _ hwrite hold x hx => by
      obtain ⟨y, hy, hkey⟩ := hold x hx
      obtain ⟨z, hz, hsame⟩ := hwrite.exists_key hy
      exact ⟨z, hz, hsame.trans hkey⟩)
    (fun done s a b _ _ _ hold x hx => by
      obtain ⟨y, hy, hkey⟩ := hold x hx
      refine ⟨y, ?_, hkey⟩
      simp only [List.mem_append] at hy ⊢
      exact hy.imp .inl id)
  refine ⟨d, hupdate, fun e he => ?_⟩
  obtain ⟨x, hx, hroute⟩ := mem_properties.mp he
  obtain ⟨y, hy, hkey⟩ := hkeys x hx
  exact mem_properties.mpr ⟨y, hy, hkey ▸ hroute⟩

end Document

/-! ## The text that is written -/

namespace Writer

variable {c : Chain} {text : String}

theorem properties_renderOnto (w : Writer) (hc : c.HasLines) (text : String) :
    properties (Text.lines (w.renderOnto text c)) =
      properties (Document.update w.order c (Text.lines text)) := by
  have hcongr : ∀ l l' : String, Text.trimChars l.toList = Text.trimChars l'.toList →
      Document.propertyAt? l = Document.propertyAt? l' := by
    intro l l' h
    rw [Document.propertyAt?, Route.ofLine?, Assignment.ofLine?_congr h]
    rfl
  refine filterMap_lines_assemble hcongr rfl text _ ?_
  exact Document.unbroken_update w.order
    (fun key value hw => (hc.makeLines (key, value) (Document.mem_writes.mpr hw)).2)
    fun l hl => Text.not_mem_of_mem_lines hl

/-- A chain that is written onto a text that is laid out leaves it arranged, and the sections that
are read back stand in order. A canonical line is left whenever one of the text is retained. -/
theorem laidOut_renderOnto (w : Writer) (ho : w.order.Distinct) (hc : c.HasLines)
    (h : Document.LaidOut w.order (Text.lines text)) :
    Document.Arranged w.order (Text.lines (w.renderOnto text c)) ∧
      w.order.isOrdered (Chain.ofText (w.renderOnto text c)) = true ∧
      ((∃ e ∈ properties (Text.lines text), w.order.contains e.1 = true ∧ c.Retains e) →
        Document.HasCanonical w.order (Text.lines (w.renderOnto text c))) := by
  have hproperties := w.properties_renderOnto hc text
  have harranged : Document.Arranged w.order (Text.lines (w.renderOnto text c)) := by
    obtain ⟨d, hupdate, hd⟩ := Document.laidOut_update ho hc.makeLines hc.routesBack h
    refine hd.arranged.of_sublist ?_
    rw [hproperties, hupdate]
    exact Document.properties_retire_sublist c d
  refine ⟨harranged, Chain.isOrdered_ofText harranged, ?_⟩
  rintro ⟨e, he, hcontains, hretains⟩
  obtain ⟨d, hupdate, hsub⟩ := Document.subset_properties_update w.order hc.makeLines
    fun l (hl : l ∈ Text.lines text) => Text.not_mem_of_mem_lines hl
  refine ⟨e, ?_, hcontains⟩
  rw [hproperties, hupdate]
  exact Document.mem_properties_retire (hsub he) hretains

/-- A property, a canonical section and another one come in, and a section goes. -/
theorem laidOut_renderOnto_edited :
    let text := "olap.mode=source\n#olap.tag=t\n# parts\nx.mode=binary"
    let c : Chain := { sections := [⟨"z", .ofList [("q", "1")]⟩,
      ⟨"OLAP", .ofList [("branch", "main"), ("mode", "source")]⟩,
      ⟨"framework", .ofList [("mode", "source")]⟩] }
    let out := renderOnto {} text c
    (Document.Arranged .standard (Text.lines out) ∧
      Order.standard.isOrdered (Chain.ofText out) = true ∧
      ((∃ e ∈ properties (Text.lines text), Order.standard.contains e.1 = true ∧ c.Retains e) →
        Document.HasCanonical .standard (Text.lines out))) ∧
    (∃ e ∈ properties (Text.lines text), Order.standard.contains e.1 = true ∧ c.Retains e) ∧
    Text.lines out = ["framework.mode=source", "", "olap.mode=source", "OLAP.branch=main",
      "#olap.tag=t", "# parts", "#x.mode=binary", "", "z.q=1"] := by
  intro text c out
  have hlaid : Document.LaidOut .standard (Text.lines text) := by
    constructor <;> decide +kernel
  exact ⟨laidOut_renderOnto {} (by decide) (by decide +kernel) hlaid, by decide +kernel,
    by decide +kernel⟩

/-- The only canonical line of a text may have white space in its key and be commented out, and the
line of a flag without a name is a line of the section of the tests, wherever it goes. -/
theorem renderOnto_leaves_layout :
    let text := "olap.build args=x"
    let text' := "framework.mode=source\ncustom.mode=source"
    let c : Chain := {
      sections := [⟨"framework", .ofList [("mode", "source")]⟩,
        ⟨"custom", .ofList [("mode", "source")]⟩, ⟨"tests", .ofList [(".run", " ")]⟩]
      flags := .ofList [("", true)] }
    (Document.Arranged .standard (Text.lines text) ∧
      Document.HasCanonical .standard (Text.lines text) ∧ Chain.HasLines {} ∧
      ¬Document.HasCanonical .standard (Text.lines (renderOnto {} text {}))) ∧
    Document.Arranged .standard (Text.lines text') ∧
      Document.HasCanonical .standard (Text.lines text') ∧
      (∀ s ∈ c.sections, ∀ e ∈ s.properties.toList,
        ReadsBack (Route.propertyKey s.name e.1) e.2 (.property s.name e.1)) ∧
      (∀ e ∈ writes c, '\n' ∉ e.2.toList) ∧
      ¬Document.Arranged .standard (Text.lines (renderOnto {} text' c)) ∧
      Order.standard.isOrdered (Chain.ofText (renderOnto {} text' c)) = false := by
  decide +kernel

end Writer

end BuildChain
