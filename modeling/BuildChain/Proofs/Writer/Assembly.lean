import BuildChain.Proofs.Document.Settings
import BuildChain.Proofs.Text.Lines
import BuildChain.Writer

/-!
# Taking a text apart and putting it together

A document that is put together with either line break is read line by line as it was, since a line
counts up to white space at its ends. A text whose line feeds all follow a carriage return, or none
does, is the text of its lines.
-/

namespace BuildChain.Writer

open Text (pieces dropReturn)

/-! ## From a document to a text -/

theorem toList_assemble_concat (lineBreak : String) (closed : Bool) (init : Document)
    (last : String) :
    (assemble lineBreak closed (init ++ [last])).toList =
      (init.map String.toList).flatMap (· ++ lineBreak.toList) ++ last.toList ++
        if closed = true then lineBreak.toList else [] := by
  have hjoin : (String.intercalate lineBreak (init ++ [last])).toList =
      (init.map String.toList).flatMap (· ++ lineBreak.toList) ++ last.toList := by
    rw [String.toList_intercalate, List.map_append, List.map_singleton, Text.intercalate_concat]
  unfold assemble
  cases closed with
  | true => simp [hjoin]
  | false => simp [hjoin]

/-- The lines that a line break follows. -/
def closedLines (closed : Bool) (doc : Document) : Document := if closed then doc else doc.dropLast

/-- What stands below the last line break. -/
def openLine (closed : Bool) (doc : Document) : String :=
  if closed then "" else doc.getLast?.getD ""

theorem toList_assemble (lineBreak : String) (closed : Bool) (doc : Document) :
    (assemble lineBreak closed doc).toList =
      ((closedLines closed doc).map String.toList).flatMap (· ++ lineBreak.toList) ++
        (openLine closed doc).toList := by
  rcases List.eq_nil_or_concat doc with rfl | ⟨init, last, rfl⟩
  · cases closed <;> simp [assemble, closedLines, openLine]
  · rw [List.concat_eq_append, toList_assemble_concat]
    cases closed <;> simp [closedLines, openLine]

theorem render_of_source (w : Writer) {c : Chain} {text : String} (h : c.source = some text) :
    w.render c = assemble (Text.lineBreak text) (Text.endsClosed text)
      (Document.update w.order c (Text.lines text)) := by
  rw [render, h]
  rfl

theorem lineBreak_eq (s : String) :
    Text.lineBreak s = "\r\n" ∨ Text.lineBreak s = "\n" := by
  unfold Text.lineBreak
  split
  · exact .inl rfl
  · exact .inr rfl

theorem lines_assemble {lineBreak : String} {r : List Char} (hr : lineBreak.toList = r ++ ['\n'])
    (hno : '\n' ∉ r) (closed : Bool) {init : Document} {last : String}
    (hdoc : ∀ l ∈ init ++ [last], '\n' ∉ l.toList) :
    Text.lines (assemble lineBreak closed (init ++ [last])) =
      (init.map fun l => String.ofList (dropReturn (l.toList ++ r))) ++
        if closed = true then [String.ofList (dropReturn (last.toList ++ r))]
        else if last.toList.isEmpty then [] else [last] := by
  have hflat : ∀ ls : Document, (ls.map String.toList).flatMap (· ++ lineBreak.toList) =
      (ls.map fun l => l.toList ++ r).flatMap (· ++ ['\n']) := by
    intro ls
    simp [List.flatMap_map, hr]
  have hpart : ∀ ls : Document, (∀ l ∈ ls, '\n' ∉ l.toList) →
      ∀ p ∈ ls.map fun l => l.toList ++ r, '\n' ∉ p := by
    intro ls hls p hp
    obtain ⟨l, hl, rfl⟩ := List.mem_map.mp hp
    rw [List.mem_append, not_or]
    exact ⟨hls l hl, hno⟩
  unfold Text.lines
  rw [toList_assemble_concat]
  cases closed with
  | true =>
    have hall : (init.map String.toList).flatMap (· ++ lineBreak.toList) ++ last.toList ++
        lineBreak.toList =
        ((init ++ [last]).map fun l => l.toList ++ r).flatMap (· ++ ['\n']) ++ [] := by
      rw [← hflat]
      simp
    rw [if_pos rfl, hall, Text.pieces_flatMap (hpart _ hdoc) (by simp),
      Text.linesOfPieces_concat]
    simp
  | false =>
    have hinit := hpart init fun l hl => hdoc l (List.mem_append_left _ hl)
    rw [if_neg Bool.false_ne_true, List.append_nil, hflat,
      Text.pieces_flatMap hinit (hdoc last (by simp)), Text.linesOfPieces_concat]
    simp only [List.map_append, List.map_map]
    congr 1
    split <;> simp

/-- Whatever is read from the trimmed lines is read from them again. -/
theorem filterMap_lines_assemble {α : Type} {f : String → Option α}
    (hf : ∀ l l' : String, Text.trimChars l.toList = Text.trimChars l'.toList → f l = f l')
    (hempty : f "" = none) (source : String) (closed : Bool) {doc : Document}
    (hdoc : ∀ l ∈ doc, '\n' ∉ l.toList) :
    (Text.lines (assemble (Text.lineBreak source) closed doc)).filterMap f = doc.filterMap f := by
  obtain ⟨r, hr, hno, hspace⟩ : ∃ r, (Text.lineBreak source).toList = r ++ ['\n'] ∧ '\n' ∉ r ∧
      ∀ c ∈ r, Text.isSpace c = true := by
    rcases lineBreak_eq source with h | h
    · exact ⟨['\r'], by rw [h]; rfl, by decide, by simp [Text.isSpace]⟩
    · exact ⟨[], by rw [h]; rfl, by decide, by simp⟩
  have hline : ∀ l : String, f (String.ofList (dropReturn (l.toList ++ r))) = f l := by
    intro l
    apply hf
    rw [String.toList_ofList, Text.trimChars_dropReturn, Text.trimChars_append_right hspace]
  rcases List.eq_nil_or_concat doc with rfl | ⟨init, last, rfl⟩
  · have hnil : assemble (Text.lineBreak source) closed [] = "" := by
      simp [assemble]
    rw [hnil]
    rfl
  · have hinit : (init.map fun l => String.ofList (dropReturn (l.toList ++ r))).filterMap f =
        init.filterMap f := by
      rw [List.filterMap_map]
      exact List.filterMap_congr fun l _ => hline l
    rw [List.concat_eq_append] at hdoc ⊢
    rw [lines_assemble hr hno closed hdoc, List.filterMap_append, List.filterMap_append, hinit]
    congr 1
    cases closed with
    | true =>
      rw [if_pos rfl, List.filterMap_cons, hline, List.filterMap_cons]
    | false =>
      by_cases hlast : last.toList = []
      · have heq : last = "" := String.toList_inj.mp hlast
        simp [heq, hempty]
      · simp [hlast]

/-- What the lines of a text set is what the document sets. -/
theorem entries_assemble (source : String) (closed : Bool) {doc : Document}
    (hdoc : doc.Unbroken) :
    (Text.lines (assemble (Text.lineBreak source) closed doc)).filterMap Chain.activeEntry? =
      doc.filterMap Chain.activeEntry? := by
  have hcongr : ∀ l l' : String, Text.trimChars l.toList = Text.trimChars l'.toList →
      Chain.activeEntry? l = Chain.activeEntry? l' := by
    intro l l' h
    simp only [Chain.activeEntry?, Assignment.ofLine?_congr h]
  exact filterMap_lines_assemble hcongr rfl source closed hdoc

/-- The settings of a document are those of its text. -/
theorem settings_assemble (source : String) (closed : Bool) {doc : Document}
    (hdoc : doc.Unbroken) :
    Chain.settings (assemble (Text.lineBreak source) closed doc) =
      Document.settings doc.assignments := by
  rw [Chain.settings, entries_assemble source closed hdoc, Document.filterMap_activeEntry?,
    Document.settings]

/-! ## From a text to its lines and back -/

/-- Every line feed follows a carriage return, or none does. -/
def UniformBreaks (text : String) : Prop :=
  (∀ a b, text.toList = a ++ '\n' :: b → a.getLast? = some '\r') ∨
    ∀ a b, text.toList = a ++ '\n' :: b → a.getLast? ≠ some '\r'

/-- What is asked of the text before each line feed may be asked of the pieces that one closes. -/
theorem forall_feed_iff (text : String) (q : Prop → Prop) :
    (∀ a b, text.toList = a ++ '\n' :: b → q (a.getLast? = some '\r')) ↔
      ∀ p ∈ (pieces '\n' text.toList).dropLast, q (p.getLast? = some '\r') := by
  constructor
  · intro h p hp
    obtain ⟨init, last, hpieces, htext⟩ := Text.exists_pieces '\n' text.toList
    rw [hpieces, List.dropLast_concat] at hp
    obtain ⟨before, after, rfl⟩ := List.append_of_mem hp
    rw [← Text.getLast?_piece before p]
    refine h _ (after.flatMap (· ++ ['\n']) ++ last) ?_
    rw [htext]
    simp
  · intro h a b htext
    obtain ⟨init, last, hpieces, ha⟩ := Text.exists_pieces '\n' a
    have hcut : pieces '\n' text.toList = (init ++ [last]) ++ pieces '\n' b := by
      rw [← hpieces, Text.pieces_eq_splitOn, Text.pieces_eq_splitOn, Text.pieces_eq_splitOn, htext]
      exact List.splitOn_append_cons_self a b
    have hne : pieces '\n' b ≠ [] := by
      rw [Text.pieces_eq_splitOn]
      exact List.splitOn_ne_nil '\n' b
    rw [ha, Text.getLast?_piece init last]
    apply h
    rw [hcut, List.dropLast_append_of_ne_nil hne]
    simp

instance (text : String) : Decidable (UniformBreaks text) :=
  decidable_of_iff
    ((∀ p ∈ (pieces '\n' text.toList).dropLast, p.getLast? = some '\r') ∨
      ∀ p ∈ (pieces '\n' text.toList).dropLast, ¬p.getLast? = some '\r')
    (or_congr (forall_feed_iff text id) (forall_feed_iff text Not)).symm

/-- The closed lines of a text are its closed pieces, and what is open is the last piece. -/
theorem parts_of_pieces {text : String} {init : List (List Char)} {last : List Char}
    (h : pieces '\n' text.toList = init ++ [last]) :
    closedLines (Text.endsClosed text) (Text.lines text) =
        (init.map dropReturn).map String.ofList ∧
      openLine (Text.endsClosed text) (Text.lines text) = String.ofList last := by
  have hclosed := Text.endsClosed_iff_of_pieces h
  rw [Text.lines, h, Text.linesOfPieces_concat]
  by_cases hlast : last = []
  · rw [hclosed.mpr hlast, hlast]
    simp [closedLines, openLine]
  · rw [Bool.eq_false_iff.mpr (hclosed.not.mpr hlast), List.isEmpty_eq_false_iff.mpr hlast]
    simp [closedLines, openLine]

theorem assemble_lines {text : String} (h : UniformBreaks text) :
    assemble (Text.lineBreak text) (Text.endsClosed text) (Text.lines text) = text := by
  obtain ⟨init, last, hpieces, htext⟩ := Text.exists_pieces '\n' text.toList
  obtain ⟨hclosed, hopen⟩ := parts_of_pieces hpieces
  have hinit : (pieces '\n' text.toList).dropLast = init := by
    rw [hpieces, List.dropLast_concat]
  -- each piece but the last gets back what it gave up
  have hback : ∀ p ∈ init, dropReturn p ++ (Text.lineBreak text).toList = p ++ ['\n'] := by
    intro p hp
    have hfeed := Text.hasReturnFeed_iff_of_pieces hpieces
    unfold Text.lineBreak
    rcases h with hall | hnone
    · have hret := (forall_feed_iff text id).mp hall p (hinit ▸ hp)
      obtain ⟨q, rfl⟩ := List.getLast?_eq_some_iff.mp hret
      rw [hfeed.mpr ⟨_, hp, hret⟩, Text.dropReturn_concat]
      simp
    · have hret := (forall_feed_iff text Not).mp hnone
      rw [if_neg, Text.dropReturn_of_ne (hret p (hinit ▸ hp))]
      · rfl
      · rw [hfeed]
        rintro ⟨p', hp', hlast⟩
        exact hret p' (hinit ▸ hp') hlast
  have hflat : (init.map dropReturn).flatMap (· ++ (Text.lineBreak text).toList) =
      init.flatMap (· ++ ['\n']) := by
    rw [List.flatMap_map]
    exact List.flatMap_congr hback
  have hofList : ∀ ps : List (List Char), (ps.map String.ofList).map String.toList = ps := by
    intro ps
    simp
  apply String.toList_inj.mp
  rw [toList_assemble, hclosed, hopen, htext, hofList, hflat, String.toList_ofList]

end BuildChain.Writer
