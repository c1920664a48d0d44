import BuildChain.Proofs.Chain.Place
import BuildChain.Proofs.Writer.Frame
import BuildChain.Proofs.Writer.Parts
import BuildChain.Proofs.Writer.Unchanged
import BuildChain.Proofs.Writer.WriteBack

/-!
# Saving twice

When a chain has been written onto a text, each of its values is in force there and every line whose
setting it lacks is commented out, so that writing it once more finds nothing to do. The second save
reads the lines that the first one put together, because an update keeps the parts of a text.
-/

namespace BuildChain

open Document (writes DistinctKeys SamePlaces InForce assignments)

namespace Document

/-! ## What is in force after an update -/

theorem inForce?_value (as : List Assignment) (key : String) :
    (inForce? as key).map Assignment.value =
      (((entries as).filter fun e => Text.sameName e.1 key).getLast?).map Prod.snd := by
  have hfilter : (entries as).filter (fun e => Text.sameName e.1 key) =
      (as.filter fun x => x.active && Text.sameName x.key key).map fun x => (x.key, x.value) := by
    rw [entries, List.filter_filterMap, ← List.filterMap_eq_map, List.filterMap_filter]
    refine List.filterMap_congr fun x _ => ?_
    cases hact : x.active <;> cases hsame : Text.sameName x.key key <;>
      simp [hsame, Option.filter_some]
  rw [hfilter, List.getLast?_map, Option.map_map, inForce?]
  rfl

/-- Commenting out leaves in force what is in force where the chain keeps it. -/
theorem inForce?_retire {c : Chain} {doc : Document} {key : String}
    (h : ∀ e ∈ entries doc.assignments, Text.sameName e.1 key = true →
      keeps c (Route.ofKey e.1) = true) :
    (inForce? (assignments (doc.map (retire c))) key).map Assignment.value =
      (inForce? doc.assignments key).map Assignment.value := by
  rw [inForce?_value, inForce?_value, entries_retire, List.filter_filter]
  congr 2
  refine List.filter_congr fun e he => ?_
  cases hsame : Text.sameName e.1 key with
  | false => rfl
  | true => rw [h e he hsame, Bool.and_self]

variable {c : Chain} {doc : Document}

/-- An update leaves nothing to do for a second one. -/
theorem update_update (o : Order) (hdoc : doc.Unbroken) (hdist : c.DistinctNames)
    (hlines : c.HasLines) (hkeys : DistinctKeys (writes c))
    (hplaces : SamePlaces (writes c) doc.assignments) :
    update o c (update o c doc) = update o c doc := by
  obtain ⟨d, hupdate, -, hsame, hforce⟩ := hlines.update_assignments o hkeys hdoc
    (P := fun done as => SamePlaces (writes c) as ∧ InForce done as) ⟨hplaces, by simp [InForce]⟩
    (fun _ e _ _ hpre hstep ⟨hsame, hforce⟩ =>
      ⟨hsame.upserts hkeys (hpre.subset (by simp)) hstep, hforce.upserts hkeys hpre hstep⟩)
    fun _ _ h => h.1
  -- an entry of the new document is one of the old document, and the chain keeps it
  have hentries : ∀ e ∈ entries (assignments (d.map (retire c))),
      keeps c (Route.ofKey e.1) = true ∧ ∃ x ∈ d.assignments, x.key = e.1 := by
    intro e he
    rw [entries_retire, List.mem_filter] at he
    exact ⟨he.2, _, mem_entries.mp he.1, rfl⟩
  have hwrites : ∀ key value, c.Writes key value →
      ∃ x, inForce? (assignments (d.map (retire c))) key = some x ∧ x.value = value := by
    intro key value hw
    obtain ⟨k, hk, hx⟩ := hforce (key, value) (mem_writes.mpr hw)
    have hkept : ∀ e ∈ entries d.assignments, Text.sameName e.1 key = true →
        keeps c (Route.ofKey e.1) = true := fun e he hname =>
      keeps_of_samePlace (hsame _ (mem_writes.mpr hw) _ (mem_entries.mp he) hname)
        (hlines.keeps_of_writes hdist hw)
    have hvalue := inForce?_retire hkept
    rw [hx] at hvalue
    exact Option.map_eq_some_iff.mp hvalue
  rw [hupdate]
  refine update_eq_self o hwrites (fun s hs hne => ?_) fun x hx hact => ?_
  · obtain ⟨⟨key, value⟩, hmem⟩ := List.exists_mem_of_ne_nil _ hne
    obtain ⟨suffix, raw, hget, hblank, rfl, rfl⟩ := mem_sectionWrites.mp hmem
    have hw := Chain.Writes.property hs hget hblank
    have hwritten : (suffix, Text.trim raw) ∈ s.written :=
      Section.mem_written.mpr ⟨raw, hget, hblank, rfl⟩
    obtain ⟨x, hx, -⟩ := hwrites _ _ hw
    obtain ⟨hmem, hact, hname⟩ := inForce?_mem hx
    obtain ⟨-, y, hy, hkey⟩ := hentries (x.key, x.value) (mem_entries.mpr (hact ▸ hmem))
    have hplace := hsame _ (mem_writes.mpr hw) y hy (hkey ▸ hname)
    rw [(hlines.property_isKey hs hwritten).2.2, Route.samePlace_property, hkey] at hplace
    obtain ⟨n, hroute, hn⟩ := Route.leadsTo_iff.mp hplace
    exact hasSection_iff.mpr ⟨x, hmem, n, suffix, hroute, hn⟩
  · exact (hentries (x.key, x.value) (mem_entries.mpr (hact ▸ hx))).1

end Document

/-! ## The ends of lines -/

namespace Line

/-- A line that takes the place of another one is not empty, and it ends with a carriage return at
most if the other one does. -/
structure KeepsEnd (l l' : String) : Prop where
  nonempty : l ≠ "" → l' ≠ ""
  ending : l.toList.getLast? ≠ some '\r' → l'.toList.getLast? ≠ some '\r'

theorem KeepsEnd.refl (l : String) : KeepsEnd l l := ⟨id, id⟩

theorem keepsEnd_reassign (l : String) {value : String} (hv : Text.trim value = value)
    (hblank : Text.isBlank value = false) : KeepsEnd l (reassign value l) := by
  unfold reassign
  split
  · exact .refl l
  · split
    · exact .refl l
    · obtain ⟨hne, hending⟩ := ends_assign (Text.indent l) _ hv hblank
      exact ⟨fun _ => hne, fun _ => hending⟩

theorem keepsEnd_commentOut (l : String) : KeepsEnd l (commentOut l) := by
  have hcut := congrArg String.toList (Text.indent_append_trimStart l)
  rw [String.toList_append] at hcut
  constructor
  · intro _ hempty
    have hlist := toList_commentOut l
    rw [hempty] at hlist
    simp at hlist
  · rw [toList_commentOut, ← hcut]
    cases htail : (Text.trimStart l).toList with
    | nil => simp
    | cons c cs =>
      rw [List.getLast?_append_of_ne_nil _ (List.cons_ne_nil c cs)]
      simp [List.getLast?_cons_cons]

end Line

namespace Document

theorem keepsEnd_retire (c : Chain) (l : String) : Line.KeepsEnd l (retire c l) := by
  unfold retire
  split
  · split
    · exact Line.keepsEnd_commentOut l
    · exact .refl l
  · exact .refl l

/-! ## The ends of documents -/

/-- What an edit keeps of the lines, besides their characters: there are as many at least, none ends
with a carriage return if none did, and the last one holds something if it did. -/
structure KeepsEnds (doc d : Document) : Prop where
  length_le : doc.length ≤ d.length
  ending : (∀ l ∈ doc, l.toList.getLast? ≠ some '\r') → ∀ l ∈ d, l.toList.getLast? ≠ some '\r'
  last : doc.getLast? ≠ some "" → d.getLast? ≠ some ""

namespace KeepsEnds

variable {doc d d' : Document}

theorem map (h : KeepsEnds doc d) {f : String → String} (hf : ∀ l, Line.KeepsEnd l (f l)) :
    KeepsEnds doc (d.map f) where
  length_le := by simpa using h.length_le
  ending hdoc := List.forall_mem_map.mpr fun l hl => (hf l).ending (h.ending hdoc l hl)
  last hdoc hlast := by
    rw [List.getLast?_map, Option.map_eq_some_iff] at hlast
    obtain ⟨l, hl, hempty⟩ := hlast
    exact (hf l).nonempty (fun heq => h.last hdoc (heq ▸ hl)) hempty

theorem modify {a b : Document} {l l' : String} (h : KeepsEnds doc (a ++ l :: b))
    (hl : Line.KeepsEnd l l') : KeepsEnds doc (a ++ l' :: b) where
  length_le := by simpa using h.length_le
  ending hdoc m hm := by
    have hold := h.ending hdoc
    rcases List.mem_append.mp hm with hm | hm
    · exact hold m (List.mem_append_left _ hm)
    · rcases List.mem_cons.mp hm with rfl | hm
      · exact hl.ending (hold l (by simp))
      · exact hold m (by simp [hm])
  last hdoc := by
    have hold := h.last hdoc
    rcases eq_or_ne b [] with rfl | hb
    · simpa using hl.nonempty (by simpa using hold)
    · rw [← List.singleton_append, ← List.append_assoc,
        List.getLast?_append_of_ne_nil _ hb] at hold ⊢
      exact hold

theorem inserts (h : KeepsEnds doc d) {block : List String} (hins : Inserts d block d')
    (hne : block ≠ []) (hblock : ∀ l ∈ block, l ≠ "" ∧ l.toList.getLast? ≠ some '\r') :
    KeepsEnds doc d' where
  length_le := h.length_le.trans hins.length_le
  ending hdoc l hl := by
    rcases hins.mem hl with hl | hl | rfl
    · exact h.ending hdoc l hl
    · exact (hblock l hl).2
    · simp
  last hdoc hlast := by
    rcases hins.getLast?_eq hne with heq | heq
    · exact h.last hdoc (heq ▸ hlast)
    · exact (hblock "" (List.mem_of_getLast? (heq ▸ hlast))).1 rfl

theorem update (o : Order) (c : Chain) (doc : Document) : KeepsEnds doc (update o c doc) := by
  have hends : ∀ e ∈ writes c, Text.trim e.2 = e.2 ∧ Text.isBlank e.2 = false := fun e he =>
    ⟨trim_of_writes (mem_writes.mp he), isBlank_of_writes (mem_writes.mp he)⟩
  obtain ⟨d, hupdate, hd⟩ := update_induction (fun _ d => KeepsEnds doc d) o c
    ⟨Nat.le_refl _, id, id⟩
    (by
      intro done e d place hpre hplace hd
      obtain ⟨hv, hblank⟩ := hends e (hpre.subset (by simp))
      rcases upsert_cases d e.1 e.2 place with ⟨a, l, b, x, rfl, -, -, -, hres⟩ | ⟨-, hres⟩
      · rw [hres]
        exact hd.modify (Line.keepsEnd_reassign l hv hblank)
      · rw [hres]
        refine hd.inserts (hplace d _) (List.cons_ne_nil _ _) fun l hl => ?_
        rw [List.mem_singleton.mp hl]
        simpa using Line.ends_assign "" e.1 hv hblank)
    (by
      intro done s d hs hpre _ hd
      by_cases hnil : sectionWrites s = []
      · rwa [insertSection_of_nil hnil]
      · refine hd.inserts (inserts_insertSection o d s) ?_ fun l hl => ?_
        · simpa [sectionBlock_eq] using hnil
        · rw [sectionBlock_eq] at hl
          obtain ⟨e, he, rfl⟩ := List.mem_map.mp hl
          obtain ⟨hv, hblank⟩ := hends e (hpre.subset (List.mem_append_right _ he))
          simpa using Line.ends_assign "" e.1 hv hblank)
  rw [hupdate]
  exact hd.map (keepsEnd_retire c)

end KeepsEnds

end Document

/-! ## The text -/

namespace Writer

open Document (KeepsEnds)

theorem closedLines_ne_nil_iff {closed : Bool} {doc : Document} :
    closedLines closed doc ≠ [] ↔ (if closed then 0 else 1) < doc.length := by
  rw [← List.length_pos_iff]
  cases closed with
  | true => rfl
  | false =>
    simp only [closedLines, Bool.false_eq_true, if_false, List.length_dropLast]
    omega

theorem Parts.edit {lineBreak : String} {closed : Bool} {doc d : Document}
    (h : Parts lineBreak closed doc) (hends : KeepsEnds doc d) (hd : d.Unbroken)
    (hreturn : lineBreak = "\n" → ∀ l ∈ doc, l.toList.getLast? ≠ some '\r') :
    Parts lineBreak closed d where
  unbroken := hd
  breaks := by
    refine h.breaks.imp (fun ⟨hlf, _⟩ => ⟨hlf, fun l hl => ?_⟩) fun ⟨hcrlf, hne⟩ => ⟨hcrlf, ?_⟩
    · exact hends.ending (hreturn hlf) l (mem_of_mem_closedLines hl)
    · rw [closedLines_ne_nil_iff] at hne ⊢
      exact hne.trans_le hends.length_le
  opened hopen := by
    have hold := h.opened hopen
    have hlen := hends.length_le
    subst hopen
    obtain ⟨l, hl⟩ : ∃ l, doc.getLast? = some l := by
      cases hlast : doc.getLast? with
      | none => simp [openLine, hlast] at hold
      | some l => exact ⟨l, rfl⟩
    have hne : d ≠ [] := by
      rintro rfl
      rw [List.length_nil, Nat.le_zero, List.length_eq_zero_iff] at hlen
      rw [hlen] at hl
      cases hl
    have hkept := hends.last (by simpa [openLine, hl] using hold)
    rw [List.getLast?_eq_some_getLast hne] at hkept
    simpa [openLine, List.getLast?_eq_some_getLast hne] using hkept

/-- Where a line break is a line feed alone, a line ends with a carriage return only at the end of
the text. -/
theorem ending_of_lines {text : String} (hend : text.toList.getLast? ≠ some '\r')
    (hlf : Text.lineBreak text = "\n") : ∀ l ∈ Text.lines text, l.toList.getLast? ≠ some '\r' := by
  obtain ⟨init, last, hpieces, htext⟩ := Text.exists_pieces '\n' text.toList
  obtain ⟨-, hopen⟩ := parts_of_pieces hpieces
  have hparts := parts_of_text text
  intro l hl
  rw [← hparts.closedLines_append_openLine] at hl
  rcases List.mem_append.mp hl with hl | hl
  · rcases hparts.breaks with ⟨-, hlines⟩ | ⟨hcrlf, -⟩
    · exact hlines l hl
    · rw [hlf] at hcrlf
      exact absurd hcrlf (by decide)
  · split at hl
    · cases hl
    · rw [List.mem_singleton.mp hl, hopen, String.toList_ofList]
      intro hreturn
      rw [htext, List.getLast?_append, hreturn] at hend
      exact hend rfl

/-- Writing a chain onto a text twice is writing it once. The line breaks of the text may be mixed,
but a text with line feeds alone must not end with a carriage return. -/
theorem renderOnto_renderOnto (w : Writer) {text : String} {c : Chain}
    (hend : text.toList.getLast? ≠ some '\r') (hdist : c.DistinctNames) (hlines : c.HasLines)
    (hkeys : DistinctKeys (writes c))
    (hplaces : SamePlaces (writes c) (assignments (Text.lines text))) :
    w.renderOnto (w.renderOnto text c) c = w.renderOnto text c := by
  have hdoc : Document.Unbroken (Text.lines text) := fun l hl => Text.not_mem_of_mem_lines hl
  have hupdated : (Document.update w.order c (Text.lines text)).Unbroken :=
    Document.unbroken_update w.order
      (fun key value hw => (hlines.makeLines (key, value) (Document.mem_writes.mpr hw)).2) hdoc
  have hparts := (parts_of_text text).edit (KeepsEnds.update w.order c (Text.lines text)) hupdated
    (ending_of_lines hend)
  obtain ⟨hbreak, hclosed, hread⟩ := hparts.read
  rw [renderOnto, renderOnto, hbreak, hclosed, hread,
    Document.update_update w.order hdoc hdist hlines hkeys hplaces]

/-- The text of a save that sets, enables, adds and comments out lines, with a blank value and a
section that has nothing to write. -/
theorem renderOnto_renderOnto_edited :
    let c : Chain := {
      globals := { version := some " 7 ", recipients := some "  " }
      sections := [⟨"OLAP", .ofList [("fork", "x"), ("mode", "source"), ("my tag", " ")]⟩,
        ⟨"designer", .ofList [("branch", "main")]⟩, ⟨"reports", ∅⟩]
      flags := .ofList [("unit", false)]
      rawFlags := .ofList [("slow", "maybe")] }
    let text :=
      "# chain\r\nolap.fork = y\r\n#olap.mode=binary\r\ncontent.my tag=t\r\ntests.old.run=true"
    ({} : Writer).renderOnto (({} : Writer).renderOnto text c) c =
      ({} : Writer).renderOnto text c := by
  intro c text
  exact renderOnto_renderOnto {} (by decide +kernel) (by decide +kernel) (by decide +kernel)
    (by decide +kernel) (by decide +kernel)

end Writer

end BuildChain
