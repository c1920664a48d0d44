import BuildChain.Proofs.Writer.Assembly

/-!
# The parts of a text

A text is taken apart into three parts: its line break, whether its last line is closed, and its
lines. `Parts` says which parts are those of a text. From the text that is put together of them the
same parts are read, so a document that keeps `Parts` is read back line by line.
-/

namespace BuildChain.Writer

open Text (pieces dropReturn)

/-- The line break, the closing and the lines of a text. -/
structure Parts (lineBreak : String) (closed : Bool) (doc : Document) : Prop where
  unbroken : doc.Unbroken
  breaks :
    (lineBreak = "\n" ∧ ∀ l ∈ closedLines closed doc, l.toList.getLast? ≠ some '\r') ∨
      (lineBreak = "\r\n" ∧ closedLines closed doc ≠ [])
  opened : closed = false → openLine closed doc ≠ ""

/-! ## From a text to its parts -/

theorem parts_of_text (text : String) :
    Parts (Text.lineBreak text) (Text.endsClosed text) (Text.lines text) := by
  obtain ⟨init, last, hpieces, -⟩ := Text.exists_pieces '\n' text.toList
  obtain ⟨hclosed, hopen⟩ := parts_of_pieces hpieces
  have hfeed := Text.hasReturnFeed_iff_of_pieces hpieces
  constructor
  case unbroken => exact fun l hl => Text.not_mem_of_mem_lines hl
  case breaks =>
    rw [hclosed, Text.lineBreak]
    by_cases hwindows : ∃ p ∈ init, p.getLast? = some '\r'
    · obtain ⟨p, hp, hlast⟩ := hwindows
      refine .inr ⟨if_pos (hfeed.mpr ⟨p, hp, hlast⟩), ?_⟩
      simpa using List.ne_nil_of_mem hp
    · refine .inl ⟨if_neg (hfeed.not.mpr hwindows), fun l hl => ?_⟩
      obtain ⟨p, hp, rfl⟩ : ∃ p ∈ init, String.ofList (dropReturn p) = l := by simpa using hl
      have hreturn : p.getLast? ≠ some '\r' := fun hlast => hwindows ⟨p, hp, hlast⟩
      rwa [String.toList_ofList, Text.dropReturn_of_ne hreturn]
  case opened =>
    intro hend
    rw [hopen]
    have hlast : last ≠ [] := by
      rw [ne_eq, ← Text.endsClosed_iff_of_pieces hpieces, hend]
      exact Bool.false_ne_true
    simpa using hlast

/-! ## From the parts to their text -/

theorem mem_of_mem_closedLines {closed : Bool} {doc : Document} {l : String}
    (hl : l ∈ closedLines closed doc) : l ∈ doc := by
  cases closed with
  | true => exact hl
  | false => exact (List.dropLast_sublist doc).subset hl

variable {lineBreak : String} {closed : Bool} {doc : Document}

/-- What a closed line gives up is the carriage return of the line break, no other. -/
theorem Parts.exists_break (h : Parts lineBreak closed doc) :
    ∃ r, lineBreak.toList = r ++ ['\n'] ∧ '\n' ∉ r ∧
      (∀ l ∈ closedLines closed doc, dropReturn (l.toList ++ r) = l.toList) ∧
      (lineBreak = "\r\n" ↔
        ∃ l ∈ closedLines closed doc, (l.toList ++ r).getLast? = some '\r') := by
  rcases h.breaks with ⟨rfl, hlines⟩ | ⟨rfl, hne⟩
  · refine ⟨[], rfl, by simp, fun l hl => ?_, ?_⟩
    · rw [List.append_nil, Text.dropReturn_of_ne (hlines l hl)]
    · simpa using hlines
  · refine ⟨['\r'], rfl, by decide, fun l _ => Text.dropReturn_concat _, ?_⟩
    simpa using List.exists_mem_of_ne_nil _ hne

theorem Parts.pieces_eq (h : Parts lineBreak closed doc) {r : List Char}
    (hr : lineBreak.toList = r ++ ['\n']) (hno : '\n' ∉ r) :
    pieces '\n' (assemble lineBreak closed doc).toList =
      ((closedLines closed doc).map fun l => l.toList ++ r) ++ [(openLine closed doc).toList] := by
  have hclosed : ∀ p ∈ (closedLines closed doc).map fun l => l.toList ++ r, '\n' ∉ p := by
    intro p hp
    obtain ⟨l, hl, rfl⟩ := List.mem_map.mp hp
    rw [List.mem_append, not_or]
    exact ⟨h.unbroken l (mem_of_mem_closedLines hl), hno⟩
  have hopen : '\n' ∉ (openLine closed doc).toList := by
    cases closed with
    | true => simp [openLine]
    | false =>
      cases hlast : doc.getLast? with
      | none => simp [openLine, hlast]
      | some l => simpa [openLine, hlast] using h.unbroken l (List.mem_of_getLast? hlast)
  rw [← Text.pieces_flatMap hclosed hopen, toList_assemble, hr]
  simp [List.flatMap_map]

theorem Parts.openLine_ne_iff (h : Parts lineBreak closed doc) :
    openLine closed doc ≠ "" ↔ closed = false := by
  refine ⟨fun hne => ?_, h.opened⟩
  cases closed with
  | true => exact absurd rfl hne
  | false => rfl

theorem Parts.closedLines_append_openLine (h : Parts lineBreak closed doc) :
    closedLines closed doc ++ (if openLine closed doc = "" then [] else [openLine closed doc]) =
      doc := by
  have hopen := h.openLine_ne_iff
  cases closed with
  | true => simp [closedLines, openLine]
  | false =>
    have hne : openLine false doc ≠ "" := hopen.mpr rfl
    rw [if_neg hne]
    rcases List.eq_nil_or_concat doc with rfl | ⟨init, last, rfl⟩
    · exact absurd rfl hne
    · simp [closedLines, openLine, List.concat_eq_append]

/-- From the text of some parts the same parts are read. -/
theorem Parts.read (h : Parts lineBreak closed doc) :
    Text.lineBreak (assemble lineBreak closed doc) = lineBreak ∧
      Text.endsClosed (assemble lineBreak closed doc) = closed ∧
      Text.lines (assemble lineBreak closed doc) = doc := by
  obtain ⟨r, hr, hno, hdrop, hwindows⟩ := h.exists_break
  have hpieces := h.pieces_eq hr hno
  refine ⟨?_, ?_, ?_⟩
  · have hfeed : Text.hasReturnFeed (assemble lineBreak closed doc).toList = true ↔
        lineBreak = "\r\n" := by
      rw [hwindows, Text.hasReturnFeed_iff_of_pieces hpieces]
      simp
    rw [Text.lineBreak]
    rcases h.breaks with ⟨hlf, -⟩ | ⟨hcrlf, -⟩
    · rw [if_neg (hfeed.not.mpr (by rw [hlf]; decide)), hlf]
    · rw [if_pos (hfeed.mpr hcrlf), hcrlf]
  · rw [Bool.eq_iff_iff, Text.endsClosed_iff_of_pieces hpieces, String.toList_eq_nil_iff,
      ← not_iff_not, Bool.not_eq_true]
    exact h.openLine_ne_iff
  · have hback : ((closedLines closed doc).map fun l => l.toList ++ r).map dropReturn =
        (closedLines closed doc).map String.toList := by
      rw [List.map_map]
      exact List.map_congr_left hdrop
    conv_rhs => rw [← h.closedLines_append_openLine]
    rw [Text.lines, hpieces, Text.linesOfPieces_concat, hback]
    by_cases hempty : openLine closed doc = "" <;> simp [hempty]

/-! ## One line replaced -/

theorem closedLines_append (closed : Bool) (doc : Document) {doc' : Document} (hne : doc' ≠ []) :
    closedLines closed (doc ++ doc') = doc ++ closedLines closed doc' := by
  cases closed with
  | true => rfl
  | false => exact List.dropLast_append_of_ne_nil hne

theorem openLine_append (closed : Bool) (doc : Document) {doc' : Document} (hne : doc' ≠ []) :
    openLine closed (doc ++ doc') = openLine closed doc' := by
  rw [openLine, openLine, List.getLast?_append_of_ne_nil _ hne]

theorem assemble_append (lineBreak : String) (closed : Bool) (doc : Document) {doc' : Document}
    (hne : doc' ≠ []) : assemble lineBreak closed (doc ++ doc') =
      assemble lineBreak true doc ++ assemble lineBreak closed doc' := by
  apply String.toList_inj.mp
  rw [String.toList_append, toList_assemble, toList_assemble, toList_assemble,
    closedLines_append closed doc hne, openLine_append closed doc hne]
  simp [closedLines, openLine]

theorem closedLines_set (closed : Bool) (doc : Document) (i : Nat) (l : String) :
    closedLines closed (doc.set i l) = (closedLines closed doc).set i l := by
  cases closed with
  | true => rfl
  | false =>
    rw [closedLines, closedLines, if_neg Bool.false_ne_true, if_neg Bool.false_ne_true,
      List.dropLast_eq_take, List.dropLast_eq_take, List.length_set, List.take_set]

/-- A line of a text may give way to another one that holds something. -/
theorem Parts.replace {front back : Document} {l l' : String}
    (h : Parts lineBreak closed (front ++ l :: back)) (hfeed : '\n' ∉ l'.toList)
    (hreturn : l'.toList.getLast? ≠ some '\r') (hne : l' ≠ "") :
    Parts lineBreak closed (front ++ l' :: back) := by
  have hset : front ++ l' :: back = (front ++ l :: back).set front.length l' := by simp
  constructor
  case unbroken =>
    intro m hm
    rw [hset] at hm
    rcases List.mem_or_eq_of_mem_set hm with hm | rfl
    · exact h.unbroken m hm
    · exact hfeed
  case breaks =>
    rw [hset, closedLines_set]
    refine h.breaks.imp (fun ⟨hlf, hlines⟩ => ⟨hlf, fun m hm => ?_⟩) fun ⟨hcrlf, hsome⟩ => ?_
    · rcases List.mem_or_eq_of_mem_set hm with hm | rfl
      · exact hlines m hm
      · exact hreturn
    · exact ⟨hcrlf, by simpa using hsome⟩
  case opened =>
    intro hclosed
    have hopened := h.opened hclosed
    rw [openLine_append _ _ (List.cons_ne_nil _ _)] at hopened ⊢
    by_cases hback : back = []
    · simpa [openLine, hclosed, hback] using hne
    · rw [← List.singleton_append, openLine_append _ _ hback] at hopened ⊢
      exact hopened

/-- Where a line stands among the characters of a text does not depend on what it holds. -/
theorem Parts.exists_around {front back : Document} {l : String}
    (h : Parts lineBreak closed (front ++ l :: back)) :
    ∃ before after, Text.lines before = front ∧
      ∀ l', assemble lineBreak closed (front ++ l' :: back) = before ++ l' ++ after := by
  have hlines : Text.lines (assemble lineBreak true front) = front := by
    rcases eq_or_ne front [] with rfl | hne
    · rfl
    · have hfront : Parts lineBreak true front := by
        refine ⟨fun m hm => h.unbroken m (List.mem_append_left _ hm), ?_, by simp⟩
        refine h.breaks.imp (fun ⟨hlf, hreturn⟩ => ⟨hlf, fun m hm => hreturn m ?_⟩)
          fun ⟨hcrlf, _⟩ => ⟨hcrlf, hne⟩
        rw [closedLines_append closed front (List.cons_ne_nil _ _)]
        exact List.mem_append_left _ hm
      exact hfront.read.2.2
  have hline : ∃ after, ∀ l', assemble lineBreak closed (l' :: back) = l' ++ after := by
    by_cases hback : back = []
    · subst hback
      cases closed with
      | true => exact ⟨lineBreak, fun l' => by simp [assemble]⟩
      | false => exact ⟨"", fun l' => by simp [assemble]⟩
    · refine ⟨lineBreak ++ assemble lineBreak closed back, fun l' => ?_⟩
      have hone : assemble lineBreak true [l'] = l' ++ lineBreak := by simp [assemble]
      rw [← List.singleton_append, assemble_append _ _ _ hback, hone, String.append_assoc]
  obtain ⟨after, hafter⟩ := hline
  refine ⟨assemble lineBreak true front, after, hlines, fun l' => ?_⟩
  rw [assemble_append _ _ _ (List.cons_ne_nil _ _), hafter, String.append_assoc]

end BuildChain.Writer
