import BuildChain.Proofs.Document.Growth
import BuildChain.Proofs.Document.Update
import BuildChain.Proofs.Writer.Assembly

/-!
# What writing onto a text leaves alone

Whatever chain is written onto a text, the lines of the text stay in their order. Lines that assign
nothing stay as they are. An assignment may get a new value, and it may be commented out, but keeps
its indentation and its key. The lines that come in are empty or assign keys that the chain writes.
-/

namespace BuildChain

open Assignment (IsKey)
open Document (Grows)

/-! ## Indentation -/

namespace Line

theorem indent_of_append {ind rest : List Char} (hind : ∀ c ∈ ind, Text.isSpace c = true)
    (hrest : ∀ c ∈ rest.head?, Text.isSpace c = false) {l : String} (hl : l.toList = ind ++ rest) :
    Text.indent l = String.ofList ind := by
  rw [Text.indent, hl, List.takeWhile_append_of_pos hind]
  cases rest with
  | nil => simp
  | cons c rest => simp [hrest c rfl]

theorem indent_indent_append (l : String) {key : String} (hk : IsKey key) (value : String) :
    Text.indent (Text.indent l ++ assign key value) = Text.indent l := by
  have hhead : ∀ c ∈ (assign key value).toList.head?, Text.isSpace c = false := by
    obtain ⟨d, ds, hd⟩ := List.exists_cons_of_ne_nil hk.nonempty
    intro c hc
    have hcd : c = d := by simpa [assign, hd, eq_comm] using hc
    exact hk.tight.head c (by rw [hd, hcd]; rfl)
  rw [indent_of_append (indent_isSpace l) hhead (by rw [String.toList_append]),
    String.ofList_toList]

theorem indent_commentOut (l : String) : Text.indent (commentOut l) = Text.indent l := by
  have hhead : ∀ c ∈ ('#' :: (Text.trimStart l).toList).head?, Text.isSpace c = false := by
    simp [Text.isSpace]
  rw [indent_of_append (indent_isSpace l) hhead (by simp [commentOut]), String.ofList_toList]

end Line

namespace Chain

variable {c : Chain}

/-! ## What becomes of a line, and what comes in -/

/-- A line before it is commented out, if it is: as it was, or with the indentation and the key it
had and a value that the chain writes under that key. -/
inductive Assigns (c : Chain) (l : String) : String → Prop
  | same : Assigns c l l
  | value {x : Assignment} {key value : String} (hread : Assignment.ofLine? l = some x)
      (hk : IsKey x.key) (hname : Text.sameName x.key key = true) (hw : c.Writes key value) :
      Assigns c l (Text.indent l ++ Line.assign x.key value)

/-- The line that a line of the text becomes. -/
structure Becomes (c : Chain) (l l' : String) : Prop where
  indent : Text.indent l' = Text.indent l
  foreign : Text.isBlank l = true ∨ Line.isPlainComment l = true ∨ Assignment.ofLine? l = none →
    l' = l
  assigned : ∃ m, c.Assigns l m ∧ (l' = m ∨ l' = Text.indent m ++ "#" ++ Text.trimStart m)

/-- A line of a key and a value that the chain writes, the key in any case. -/
def Sets (c : Chain) (l : String) : Prop :=
  ∃ (ind : List Char) (k key value : String), (∀ ch ∈ ind, Text.isSpace ch = true) ∧
    l.toList = ind ++ (Line.assign k value).toList ∧ Text.sameName k key = true ∧ c.Writes key value

/-- A line that comes in. -/
def Adds (c : Chain) (l : String) : Prop :=
  l = "" ∨ ∃ m, c.Sets m ∧ (l = m ∨ l = Text.indent m ++ "#" ++ Text.trimStart m)

/-! ## One write -/

theorem Assigns.indent {l m : String} (h : c.Assigns l m) : Text.indent m = Text.indent l := by
  cases h with
  | same => rfl
  | value _ hk _ _ => exact Line.indent_indent_append l hk _

theorem Assigns.eq_of_none {l m : String} (h : c.Assigns l m)
    (hl : Assignment.ofLine? l = none) : m = l := by
  cases h with
  | same => rfl
  | value hread _ _ _ =>
    rw [hl] at hread
    cases hread

/-- A line that has been given a value may be given another one. -/
theorem Assigns.reassign {l m : String} (h : c.Assigns l m) {x : Assignment} {key value : String}
    (hread : Assignment.ofLine? m = some x) (hname : Text.sameName x.key key = true)
    (hw : c.Writes key value) (hhash : key.toList.head? ≠ some '#') :
    c.Assigns l (Line.reassign value m) := by
  have hk : IsKey x.key := Assignment.isKey_of_head hread fun hhead =>
    hhash (Text.head?_of_sameName hname (by decide) hhead)
  unfold Line.reassign
  rw [hread]
  dsimp only
  split
  · exact h
  · rw [h.indent]
    cases h with
    | same => exact .value hread hk hname hw
    | @value y key' value' hread' hk' hname' hw' =>
      have hself := Assignment.ofLine?_assign (Line.indent_isSpace l) hk' value'
        (l := Text.indent l ++ Line.assign y.key value') (by rw [String.toList_append])
      rw [hself, Option.some.injEq] at hread
      have hkeys : x.key = y.key := by rw [← hread]
      rw [hkeys] at hname ⊢
      exact .value hread' hk' hname hw

theorem sets_assign {key value : String} (hw : c.Writes key value) :
    c.Sets (Line.assign key value) :=
  ⟨[], key, key, value, by simp, rfl, Text.sameName_refl key, hw⟩

theorem Sets.reassign {m : String} (h : c.Sets m) {x : Assignment} {key value : String}
    (hread : Assignment.ofLine? m = some x) (hname : Text.sameName x.key key = true)
    (hw : c.Writes key value) : c.Sets (Line.reassign value m) := by
  unfold Line.reassign
  rw [hread]
  dsimp only
  split
  · exact h
  · exact ⟨(Text.indent m).toList, x.key, key, value, Line.indent_isSpace m,
      String.toList_append, hname, hw⟩

end Chain

/-! ## The whole update -/

namespace Document

variable {c : Chain}

/-- No written key starts a comment when no section name does. -/
theorem head?_of_writes (hnames : ∀ s ∈ c.sections, s.name.toList.head? ≠ some '#')
    {key value : String} (hw : c.Writes key value) : key.toList.head? ≠ some '#' := by
  cases hw with
  | @global key raw hget _ =>
    have hk := Globals.mem_known_of_get? hget
    simp only [GlobalKey.known, List.mem_cons, List.not_mem_nil, or_false] at hk
    rcases hk with rfl | rfl | rfl <;> decide
  | @property s suffix raw hs _ _ =>
    intro hhead
    apply hnames s hs
    cases hname : s.name.toList with
    | nil => simp [Route.propertyKey, hname] at hhead
    | cons ch rest =>
      rw [← hhead]
      simp [Route.propertyKey, hname]
  | flag _ => simp [Route.flagKey]
  | rawFlag _ _ => simp [Route.flagKey]

/-- Before any line is commented out, the lines of the document have got values and others have
come in. -/
theorem grows_upsert {doc d : Document} {key value : String}
    (h : Grows c.Assigns (fun l => l = "" ∨ c.Sets l) doc d) (hw : c.Writes key value)
    (hhash : key.toList.head? ≠ some '#') {place : Document → String → Document}
    (hplace : ∀ d line, Inserts d [line] (place d line)) :
    Grows c.Assigns (fun l => l = "" ∨ c.Sets l) doc (d.upsert key value place) := by
  rcases upsert_cases d key value place with ⟨a, l, b, x, rfl, hread, hname, -, hres⟩ | ⟨-, hres⟩
  · rw [hres]
    refine h.modify (fun m hm => hm.reassign hread hname hw hhash) ?_
    rintro (rfl | hsets)
    · cases hread
    · exact .inr (hsets.reassign hread hname hw)
  · rw [hres]
    refine h.inserts (hplace d _) (fun l hl => ?_) (.inl rfl)
    rw [List.mem_singleton.mp hl]
    exact .inr (Chain.sets_assign hw)

theorem becomes_retire {l m : String} (h : c.Assigns l m) : c.Becomes l (retire c m) := by
  have hcases : retire c m = m ∨ retire c m = Line.commentOut m := by
    unfold retire
    split
    · split
      · exact .inr rfl
      · exact .inl rfl
    · exact .inl rfl
  constructor
  case indent =>
    rcases hcases with hm | hm
    · rw [hm, h.indent]
    · rw [hm, Line.indent_commentOut, h.indent]
  case foreign =>
    intro hl
    have hnone : Assignment.ofLine? l = none := by
      rcases hl with hl | hl | hl
      · exact Line.ofLine?_eq_none (.inl hl)
      · exact Line.ofLine?_eq_none (.inr hl)
      · exact hl
    rw [h.eq_of_none hnone]
    refine retire_eq_self fun x hx => ?_
    rw [hnone] at hx
    cases hx
  case assigned => exact ⟨m, h, hcases⟩

theorem adds_retire {l : String} (h : l = "" ∨ c.Sets l) : c.Adds (retire c l) := by
  rcases h with rfl | h
  · exact .inl rfl
  · refine .inr ⟨l, h, ?_⟩
    unfold retire
    split
    · split
      · exact .inr rfl
      · exact .inl rfl
    · exact .inl rfl

theorem grows_update (o : Order) (hnames : ∀ s ∈ c.sections, s.name.toList.head? ≠ some '#')
    (doc : Document) : Grows c.Becomes c.Adds doc (update o c doc) := by
  obtain ⟨d, hupdate, hd⟩ := update_induction
    (fun _ d => Grows c.Assigns (fun l => l = "" ∨ c.Sets l) doc d) o c
    (Grows.refl (fun _ => .same) doc)
    (by
      intro done e d place hpre hplace hd
      have hw : c.Writes e.1 e.2 := mem_writes.mp (hpre.subset (by simp))
      exact grows_upsert hd hw (head?_of_writes hnames hw) hplace)
    (by
      intro done s d hs hpre _ hd
      refine hd.inserts (inserts_insertSection o d s) (fun l hl => ?_) (.inl rfl)
      rw [sectionBlock_eq] at hl
      obtain ⟨e, he, rfl⟩ := List.mem_map.mp hl
      exact .inr (Chain.sets_assign (mem_writes.mp (hpre.subset (List.mem_append_right _ he)))))
  rw [hupdate]
  exact hd.map (fun _ _ => becomes_retire) fun _ => adds_retire

theorem unbroken_update (o : Order)
    (hlines : ∀ key value, c.Writes key value → '\n' ∉ key.toList ∧ '\n' ∉ value.toList)
    {doc : Document} (hdoc : doc.Unbroken) : (update o c doc).Unbroken := by
  obtain ⟨d, hupdate, hd⟩ := update_induction (fun _ d => d.Unbroken) o c hdoc
    (by
      intro done e d place hpre hplace hd
      obtain ⟨hkey, hvalue⟩ := hlines e.1 e.2 (mem_writes.mp (hpre.subset (by simp)))
      exact hd.upsert hkey hvalue hplace)
    (by
      intro done s d hs hpre _ hd
      exact hd.insertSection o fun e he =>
        hlines e.1 e.2 (mem_writes.mp (hpre.subset (List.mem_append_right _ he))))
  rw [hupdate]
  intro l hl
  obtain ⟨m, hm, rfl⟩ := List.mem_map.mp hl
  exact not_mem_retire c (hd m hm)

end Document

namespace Writer

/-- Each line of the text becomes one line of the result, in the order of the text. What is not an
assignment stays character by character, an assignment keeps its indentation and its key. All other
lines of the result are empty or hold a key that the chain writes, in whatever case. -/
theorem renderOnto_frame (w : Writer) (text : String) {c : Chain}
    (hlines : ∀ key value, c.Writes key value → '\n' ∉ key.toList ∧ '\n' ∉ value.toList)
    (hnames : ∀ s ∈ c.sections, s.name.toList.head? ≠ some '#') :
    ∃ out : Document, out = Document.update w.order c (Text.lines text) ∧
      w.renderOnto text c = assemble (Text.lineBreak text) (Text.endsClosed text) out ∧
      out.Unbroken ∧
      ∃ f : Fin (Text.lines text).length → Fin out.length, StrictMono f ∧
        (∀ i, c.Becomes (Text.lines text)[i] out[f i]) ∧
        ∀ j, j ∉ Set.range f → c.Adds out[j] :=
  ⟨_, rfl, rfl,
    Document.unbroken_update w.order hlines fun _ hl => Text.not_mem_of_mem_lines hl,
    (Document.grows_update w.order hnames (Text.lines text)).exists_strictMono⟩

/-- The lines of an edited chain: one gets a value, one is commented out and one comes in. -/
theorem renderOnto_frame_edited :
    let c : Chain := { sections := [⟨"OLAP", .ofList [("fork", "x"), ("mode", "source")]⟩] }
    let text := "# olap\n\n  olap.fork = y\r\n#content.tag=t\n content.fork=z\nno assignment"
    ∃ out : Document, out = Document.update Order.standard c (Text.lines text) ∧
      ({} : Writer).renderOnto text c =
        assemble (Text.lineBreak text) (Text.endsClosed text) out ∧
      out.Unbroken ∧
      ∃ f : Fin (Text.lines text).length → Fin out.length, StrictMono f ∧
        (∀ i, c.Becomes (Text.lines text)[i] out[f i]) ∧
        ∀ j, j ∉ Set.range f → c.Adds out[j] := by
  intro c text
  have hlines : ∀ e ∈ Document.writes c, '\n' ∉ e.1.toList ∧ '\n' ∉ e.2.toList := by
    decide +kernel
  have hnames : ∀ s ∈ c.sections, s.name.toList.head? ≠ some '#' := by decide +kernel
  exact renderOnto_frame {} text
    (fun key value hw => hlines (key, value) (Document.mem_writes.mpr hw)) hnames

/-- The key of a line that comes in need not be one that the chain writes: the line of the first
property is read with the key `A.b`, and so it takes the value of `a.b`. -/
theorem update_nil_takes_spelling :
    let c : Chain :=
      { sections := [⟨"A.b=c", .ofList [("d", "v")]⟩, ⟨"a", .ofList [("b", "w")]⟩] }
    (∀ key value, c.Writes key value → '\n' ∉ key.toList ∧ '\n' ∉ value.toList) ∧
      (∀ s ∈ c.sections, s.name.toList.head? ≠ some '#') ∧
      Document.update Order.standard c (Text.lines "") = ["A.b=w"] ∧
      ∀ key value, c.Writes key value → ∀ front any, "A.b=w" ≠ front ++ Line.assign key any := by
  intro c
  have hlines : ∀ e ∈ Document.writes c, '\n' ∉ e.1.toList ∧ '\n' ∉ e.2.toList := by
    decide +kernel
  -- each key that is written has a letter that the line lacks
  have hletters : ∀ e ∈ Document.writes c, ¬e.1.toList ⊆ "A.b=w".toList := by
    decide +kernel
  refine ⟨fun key value hw => hlines (key, value) (Document.mem_writes.mpr hw), by decide +kernel,
    by decide +kernel, fun key value hw front any heq => ?_⟩
  refine hletters (key, value) (Document.mem_writes.mpr hw) fun ch hch => ?_
  rw [heq]
  simp only [Line.assign, String.toList_append, List.mem_append]
  exact .inr (.inl (.inl hch))

end Writer

end BuildChain
