import BuildChain.Proofs.Chain.Naming
import BuildChain.Proofs.Writer.Idempotence
import BuildChain.Proofs.Writer.Toggle
import BuildChain.Proofs.Writer.WriteBack

/-!
# One edit, one line

A property that is set in a chain that was read is written to one line of the text: the line of its
key if there is one, else a new one. All other settings are in force already, so each of their writes
changes nothing, before the write of the property and after it. A property that is removed has its
active lines commented out, and no other line changes.
-/

namespace BuildChain

open Assignment (IsKey)

namespace Document

/-! ## One line changed -/

/-- What writing a value under a key may do to the lines: nothing if the last active line of the key
holds the value; else this line takes it; else the last line that is commented out; and if no line
has the key, one line comes in. -/
inductive OneLine (key value : String) : Document → Document → Prop
  | same (a b : Document) {l : String} {x : Assignment} (hread : Assignment.ofLine? l = some x)
      (hkey : Text.sameName x.key key = true) (hact : x.active = true)
      (hlast : ∀ m ∈ b, holds key true m = false) (hvalue : x.value = value) :
      OneLine key value (a ++ l :: b) (a ++ l :: b)
  | overwrite (a b : Document) {l : String} {x : Assignment}
      (hread : Assignment.ofLine? l = some x) (hkey : Text.sameName x.key key = true)
      (hact : x.active = true) (hlast : ∀ m ∈ b, holds key true m = false)
      (hvalue : x.value ≠ value) :
      OneLine key value (a ++ l :: b) (a ++ (Text.indent l ++ Line.assign x.key value) :: b)
  | enable (a b : Document) {l : String} {x : Assignment}
      (hread : Assignment.ofLine? l = some x) (hkey : Text.sameName x.key key = true)
      (hact : x.active = false) (hnone : ∀ m ∈ a ++ l :: b, holds key true m = false)
      (hlast : ∀ m ∈ b, names key m = false) :
      OneLine key value (a ++ l :: b) (a ++ (Text.indent l ++ Line.assign x.key value) :: b)
  | insert (a b : Document) (hnone : ∀ m ∈ a ++ b, names key m = false) :
      OneLine key value (a ++ b) (a ++ Line.assign key value :: b)

theorem exists_insertAt (doc : Document) (i : Nat) (line : String) :
    ∃ a b, doc = a ++ b ∧ doc.insertAt i [line] = a ++ line :: b :=
  ⟨doc.take i, doc.drop i, (List.take_append_drop i doc).symm, by simp [insertAt]⟩

/-- A new property comes with no empty lines around it. -/
theorem exists_placeProperty (name suffix : String) (doc : Document) (line : String) :
    ∃ a b, doc = a ++ b ∧ placeProperty name suffix doc line = a ++ line :: b := by
  unfold placeProperty
  dsimp only
  split
  · exact exists_insertAt doc _ line
  · split
    · exact exists_insertAt doc _ line
    · exact exists_insertAt doc _ line

theorem oneLine_upsert (doc : Document) (key value name suffix : String) :
    OneLine key value doc (doc.upsert key value (placeProperty name suffix)) := by
  rcases upsert_cases doc key value (placeProperty name suffix) with
    ⟨a, l, b, x, rfl, hread, hkey, hlast, hres⟩ | ⟨hnone, hres⟩
  · rw [hres, Line.reassign, hread]
    dsimp only
    rcases hlast with ⟨hact, hlast⟩ | ⟨hact, hnone, hlast⟩
    · by_cases hvalue : x.value = value
      · rw [if_pos (by simp [hact, hvalue])]
        exact .same a b hread hkey hact hlast hvalue
      · rw [if_neg (by simp [hvalue])]
        exact .overwrite a b hread hkey hact hlast hvalue
    · rw [if_neg (by simp [hact])]
      exact .enable a b hread hkey hact hnone hlast
  · obtain ⟨a, b, rfl, hplace⟩ := exists_placeProperty name suffix doc (Line.assign key value)
    rw [hres, hplace]
    exact .insert a b hnone

/-! ## A property without rivals -/

/-- The key of a property is read back, and the lines that have it, in whatever case, are lines of
the property. -/
structure Unrivalled (doc : Document) (name suffix : String) : Prop where
  key : IsKey (Route.propertyKey name suffix)
  route : Route.ofKey (Route.propertyKey name suffix) = .property name suffix
  alone : ∀ x ∈ doc.assignments, Text.sameName x.key (Route.propertyKey name suffix) = true →
    ∃ n, Route.ofKey x.key = .property n suffix

namespace Unrivalled

variable {doc : Document} {name suffix value : String} {c : Chain}

/-- A key leads to the property exactly when it is the key of the property, in whatever case. -/
theorem sameName_of_route (h : Unrivalled doc name suffix) {n key : String}
    (hroute : Route.ofKey key = .property n suffix) :
    Text.sameName key (Route.propertyKey name suffix) = true ↔ Text.sameName n name = true := by
  obtain ⟨rfl, hdot⟩ := Route.ofKey_eq_property hroute
  rw [Route.sameName_propertyKey_iff hdot (Route.ofKey_eq_property h.route).2]
  exact and_iff_left (Text.sameName_refl suffix)

theorem exists_route (h : Unrivalled doc name suffix) {x : Assignment} (hx : x ∈ doc.assignments)
    (hkey : Text.sameName x.key (Route.propertyKey name suffix) = true) :
    ∃ n, Route.ofKey x.key = .property n suffix ∧ Text.sameName n name = true := by
  obtain ⟨n, hroute⟩ := h.alone x hx hkey
  exact ⟨n, hroute, (h.sameName_of_route hroute).mp hkey⟩

/-- A setting that leads elsewhere has another key. -/
theorem not_same_of_setting (h : Unrivalled doc name suffix) {k v key : String}
    (hget : (settings doc.assignments).get? k = some v)
    (hroute : ∀ n, Text.sameName n name = true → Route.ofKey k ≠ .property n suffix)
    (hkey : Text.sameName k key = true) :
    Text.sameName (Route.propertyKey name suffix) key = false := by
  rw [← Bool.not_eq_true]
  intro hsame
  rw [Text.sameName_comm] at hsame
  obtain ⟨n, hroute', hname⟩ :=
    h.exists_route (mem_of_get?_settings hget) (Text.sameName_trans hkey hsame)
  exact hroute n hname hroute'

/-! ## Setting the property -/

theorem mem_names_of_mem_set (hname : name ∈ c.names) {s : Section}
    (hs : s ∈ (c.upsertSection name fun s => s.set suffix value).sections) : s.name ∈ c.names := by
  rw [Chain.upsertSection_of_mem hname] at hs
  have hmem : s.name ∈ (c.modifySection name fun s => s.set suffix value).names :=
    List.mem_map_of_mem hs
  rw [Chain.names_modifySection] at hmem
  · exact hmem
  · exact fun _ => rfl

/-- What the chain writes with the property set: its value, on a line of the section if it has none
yet, and what is in force under other keys. -/
theorem places_set (h : Unrivalled doc name suffix) (hspelled : doc.SpelledOnce)
    (hflags : doc.LowerFlags) (hc : c.Describes (settings doc.assignments)) (hname : name ∈ c.names)
    {e : String × String} {place : Document → String → Document}
    (he : Places (c.upsertSection name fun s => s.set suffix value) e place) :
    (e = (Route.propertyKey name suffix, Text.trim value) ∧ place = placeProperty name suffix) ∨
      Text.sameName (Route.propertyKey name suffix) e.1 = false ∧
        ∃ x, inForce? doc.assignments e.1 = some x ∧ x.value = e.2 := by
  obtain ⟨hglobals, hflags', hrawFlags, -⟩ :=
    c.upsertSection_fields name fun s => s.set suffix value
  have hforce : ∀ {place'}, Places c e place' →
      ∃ x, inForce? doc.assignments e.1 = some x ∧ x.value = e.2 :=
    fun he' => inForce_of_describes hc hspelled hflags (mem_writes.mp he'.mem_writes)
  cases he with
  | global he =>
    rw [hglobals] at he
    obtain ⟨raw, hget, -, -⟩ := Globals.mem_written.mp he
    have hroute := GlobalKey.ofKey_of_known (Globals.mem_known_of_mem_written he)
    refine .inr ⟨h.not_same_of_setting (hc.exists_global hget) (fun n _ => ?_)
      (Text.sameName_refl _), hforce (.global he)⟩
    simp [hroute]
  | @flag e' he =>
    have he' : e' ∈ writtenFlags c := by rwa [writtenFlags, ← hflags', ← hrawFlags]
    obtain ⟨v, hv, hroute⟩ := hc.exists_writtenFlag he'
    refine .inr ⟨h.not_same_of_setting hv (fun n _ => ?_) (Text.sameName_refl _),
      hforce (.flag he')⟩
    simp [hroute]
  | @property s e' hs he =>
    obtain ⟨p, v⟩ := e'
    obtain ⟨raw, hraw, -, rfl⟩ := Section.mem_written.mp he
    have hget := (Chain.get?_of_mem (hc.distinctNames.upsertSection name suffix value) hs
      (Text.sameName_refl s.name) p).trans hraw
    rw [Chain.get?_upsertSection] at hget
    split at hget
    · rename_i hsame
      obtain ⟨hsame, rfl⟩ := hsame
      cases hget
      rw [hc.distinctNames.eq_of_same hname (mem_names_of_mem_set hname hs) hsame]
      exact .inl ⟨rfl, rfl⟩
    · rename_i hother
      obtain ⟨k, n, hk, hroute, hn⟩ := hc.exists_property hget
      have hkey : Text.sameName k (Route.propertyKey s.name p) = true := by
        rw [(Route.ofKey_eq_property hroute).1]
        exact Route.sameName_propertyKey hn p
      refine .inr ⟨h.not_same_of_setting hk (fun n' hn' hroute' => ?_) hkey,
        (inForce_of_property hc hspelled hget).1⟩
      -- the setting would be one of the property itself
      rw [hroute, Route.property.injEq] at hroute'
      obtain ⟨rfl, rfl⟩ := hroute'
      rw [Text.sameName_comm] at hn'
      exact hother ⟨Text.sameName_trans hn' hn, rfl⟩

/-- Every section of the chain has a line, before the property is written and after it. -/
theorem hasSection_set (h : Unrivalled doc name suffix)
    (hc : c.Describes (settings doc.assignments)) (hname : name ∈ c.names) {s : Section}
    (hs : s ∈ (c.upsertSection name fun s => s.set suffix value).sections) :
    doc.hasSection s.name = true ∧ (doc.upsert (Route.propertyKey name suffix) (Text.trim value)
      (placeProperty name suffix)).hasSection s.name = true := by
  obtain ⟨key, hkey, hsection⟩ := hc.exists_key_of_mem_names (mem_names_of_mem_set hname hs)
  obtain ⟨x, hx, -, rfl⟩ := mem_keys_settings.mp hkey
  obtain ⟨n, p, hroute, hn⟩ : ∃ n p, Route.ofKey x.key = .property n p ∧
      Text.sameName n s.name = true := by
    cases hroute : Route.ofKey x.key with
    | property n p =>
      rw [hroute] at hsection
      cases hsection
      exact ⟨_, p, rfl, Text.sameName_refl _⟩
    | global _ | flag _ | nowhere =>
      rw [hroute] at hsection
      cases hsection
  obtain ⟨y, hy, hykey⟩ := (upserts_upsert doc h.key (Text.trim_trim value)
    (inserts_placeProperty name suffix)).exists_key hx
  exact ⟨hasSection_iff.mpr ⟨x, hx, n, p, hroute, hn⟩,
    hasSection_iff.mpr ⟨y, hy, n, p, hykey ▸ hroute, hn⟩⟩

/-- No line of a setting is commented out, and the property's own line is not either. -/
theorem keeps_set (h : Unrivalled doc name suffix) (hc : c.Describes (settings doc.assignments))
    {y : Assignment} (hy : y ∈ (doc.upsert (Route.propertyKey name suffix) (Text.trim value)
      (placeProperty name suffix)).assignments) (hact : y.active = true) :
    keeps (c.upsertSection name fun s => s.set suffix value) (Route.ofKey y.key) = true := by
  obtain ⟨hglobals, hflags, hrawFlags, -⟩ :=
    c.upsertSection_fields name fun s => s.set suffix value
  rcases (upserts_upsert doc h.key (Text.trim_trim value)
    (inserts_placeProperty name suffix)).mem_cases hy with hold | ⟨hsame, hline⟩
  · have hkept : keeps c (Route.ofKey y.key) = true :=
      hc.keeps (mem_keys_settings.mpr ⟨y, hold, hact, rfl⟩)
    refine Chain.keeps_of_keeps hkept hglobals hflags hrawFlags fun n p _ hget => ?_
    rw [Chain.get?_upsertSection]
    split
    · rfl
    · exact hget
  · obtain ⟨n, hroute, hn⟩ : ∃ n, Route.ofKey y.key = .property n suffix ∧
        Text.sameName n name = true := by
      rcases hline with hkey | ⟨x, hx, hkey⟩
      · exact ⟨name, hkey ▸ h.route, Text.sameName_refl name⟩
      · rw [← hkey] at hsame ⊢
        exact h.exists_route hx hsame
    rw [Text.sameName_comm] at hn
    rw [hroute, keeps_property, Chain.get?_upsertSection, if_pos ⟨hn, rfl⟩]
    rfl

/-- The write of the property is the only one that changes the document. -/
theorem update_set (h : Unrivalled doc name suffix) (o : Order) (hspelled : doc.SpelledOnce)
    (hflags : doc.LowerFlags) (hc : c.Describes (settings doc.assignments)) (hname : name ∈ c.names)
    (hblank : Text.isBlank value = false) :
    update o (c.upsertSection name fun s => s.set suffix value) doc =
      doc.upsert (Route.propertyKey name suffix) (Text.trim value) (placeProperty name suffix) := by
  have hupserts := upserts_upsert doc h.key (Text.trim_trim value)
    (inserts_placeProperty name suffix)
  obtain ⟨k, -, hself⟩ := hupserts.inForce?_self
  refine update_eq_of_one_write o (c.exists_writes_set name suffix hblank) (fun e place he => ?_)
    (fun s hs _ => h.hasSection_set hc hname hs) fun y hy hact => h.keeps_set hc hy hact
  rcases h.places_set hspelled hflags hc hname he with ⟨rfl, rfl⟩ | ⟨hkey, hforce⟩
  · exact .inl ⟨rfl, upsert_eq_self hself _⟩
  · refine .inr ⟨hkey, hforce, ?_⟩
    rwa [hupserts.inForce?_of_not_same hkey]

/-! ## Removing the property -/

/-- Exactly the active lines of the key are commented out. -/
theorem retire_erase (h : Unrivalled doc name suffix) (hc : c.Describes (settings doc.assignments))
    {l : String} (hl : l ∈ doc) : retire (c.modifySection name fun s => s.erase suffix) l =
      if holds (Route.propertyKey name suffix) true l = true then Line.commentOut l else l := by
  unfold retire holds
  cases hread : Assignment.ofLine? l with
  | none => rfl
  | some x =>
    have hx : x ∈ doc.assignments := mem_assignments.mpr ⟨l, hl, hread⟩
    cases hact : x.active with
    | false => simp [hact]
    | true =>
      cases hkey : Text.sameName x.key (Route.propertyKey name suffix) with
      | true =>
        obtain ⟨n, hroute, hn⟩ := h.exists_route hx hkey
        rw [Text.sameName_comm] at hn
        have hgone : keeps (c.modifySection name fun s => s.erase suffix) (Route.ofKey x.key) =
            false := by
          rw [hroute, keeps_property, Chain.get?_modifySection_erase, if_pos ⟨hn, rfl⟩]
          rfl
        simp [hact, hgone, hkey]
      | false =>
        have hkept : keeps c (Route.ofKey x.key) = true :=
          hc.keeps (mem_keys_settings.mpr ⟨x, hx, hact, rfl⟩)
        have hstays : keeps (c.modifySection name fun s => s.erase suffix) (Route.ofKey x.key) =
            true := by
          refine Chain.keeps_of_keeps hkept rfl rfl rfl fun n p hroute hget => ?_
          rw [Chain.get?_modifySection_erase, if_neg]
          · exact hget
          · rintro ⟨hn, rfl⟩
            rw [Text.sameName_comm] at hn
            rw [(h.sameName_of_route hroute).mpr hn] at hkey
            cases hkey
        simp [hstays, hkey]

theorem update_erase (h : Unrivalled doc name suffix) (o : Order) (hspelled : doc.SpelledOnce)
    (hflags : doc.LowerFlags) (hc : c.Describes (settings doc.assignments)) :
    update o (c.modifySection name fun s => s.erase suffix) doc = doc.map fun l =>
      if holds (Route.propertyKey name suffix) true l = true then Line.commentOut l else l := by
  rw [Document.update_erase o hspelled hflags hc name suffix]
  exact List.map_congr_left fun l hl => h.retire_erase hc hl

end Unrivalled

end Document

/-! ## The text -/

namespace Writer

open Document (OneLine OneSpelling LowerFlags Unrivalled KeepsEnds assignments holds)

/-- A text of given lines, broken and closed like another text. The lines are read from it again,
unless the other text ends with a carriage return, which a line feed below it would swallow. -/
structure IsTextOf (source : String) (doc : Document) (text : String) : Prop where
  assembled : text = assemble (Text.lineBreak source) (Text.endsClosed source) doc
  unbroken : doc.Unbroken
  lines : source.toList.getLast? ≠ some '\r' → Text.lines text = doc

theorem isTextOf_render (w : Writer) {c : Chain} {source : String} {doc : Document}
    (hsource : c.source = some source)
    (hupdate : Document.update w.order c (Text.lines source) = doc) (hdoc : doc.Unbroken) :
    IsTextOf source doc (w.render c) := by
  have hrender := render_of_source w hsource
  rw [hupdate] at hrender
  refine ⟨hrender, hdoc, fun hend => ?_⟩
  have hends := KeepsEnds.update w.order c (Text.lines source)
  rw [hupdate] at hends
  rw [hrender]
  exact ((parts_of_text source).edit hends hdoc (ending_of_lines hend)).read.2.2

/-- A property of a chain that was read is set on one line of the text, and it is removed by a
character in front of the active lines of its key. -/
theorem render_property (w : Writer) {text suffix : String} {s : Section}
    (hbreaks : UniformBreaks text) (hspelling : OneSpelling (assignments (Text.lines text)))
    (hflags : LowerFlags (Text.lines text)) (hs : s ∈ (Chain.ofText text).sections)
    (hkey : ReadsBack (Route.propertyKey s.name suffix) "" (.property s.name suffix))
    (halone : ∀ x ∈ assignments (Text.lines text),
      Text.sameName x.key (Route.propertyKey s.name suffix) = true →
        ∃ n, Route.ofKey x.key = .property n suffix) :
    IsTextOf text (Text.lines text) text ∧
      (∀ v, Text.isBlank v = false → '\n' ∉ v.toList → ∃ doc,
        OneLine (Route.propertyKey s.name suffix) (Text.trim v) (Text.lines text) doc ∧
          IsTextOf text doc
            (w.render ((Chain.ofText text).modifySection s.name fun s => s.set suffix v))) ∧
      IsTextOf text
        ((Text.lines text).map fun l =>
          if holds (Route.propertyKey s.name suffix) true l = true then
            Text.indent l ++ "#" ++ Text.trimStart l
          else l)
        (w.render ((Chain.ofText text).modifySection s.name fun s => s.erase suffix)) := by
  have hc : (Chain.ofText text).Describes (Document.settings (assignments (Text.lines text))) :=
    describes_of_lines rfl
  have hlines : Document.Unbroken (Text.lines text) := fun l hl => Text.not_mem_of_mem_lines hl
  have hspelled : Document.SpelledOnce (Text.lines text) := .of_oneSpelling hspelling
  have hname : s.name ∈ (Chain.ofText text).names := List.mem_map_of_mem hs
  obtain ⟨hk, hfeed, hroute⟩ :=
    hkey.isKey (by decide) fun k hk => (Route.ofKey_eq_property hk).1
  have hfree : Unrivalled (Text.lines text) s.name suffix := ⟨hk, hroute, halone⟩
  refine ⟨⟨(assemble_lines hbreaks).symm, hlines, fun _ => rfl⟩, fun v hblank hv => ?_, ?_⟩
  · have hupdate := hfree.update_set w.order hspelled hflags hc hname hblank
    have hvalue : '\n' ∉ (Text.trim v).toList := by
      rw [Text.toList_trim]
      exact fun hmem => hv (Text.mem_of_mem_trimChars hmem)
    rw [Chain.upsertSection_of_mem hname] at hupdate
    exact ⟨_, Document.oneLine_upsert _ _ _ s.name suffix, isTextOf_render w rfl hupdate
      (hlines.upsert hfeed hvalue (Document.inserts_placeProperty s.name suffix))⟩
  · refine isTextOf_render w rfl (hfree.update_erase w.order hspelled hflags hc) ?_
    refine List.forall_mem_map.mpr fun l hl => ?_
    split
    · exact Line.not_mem_commentOut (hlines l hl)
    · exact hlines l hl

theorem render_property_commented_out :
    (∃ doc, OneLine "a.tag" "v 1" (Text.lines "# chain\r\na.mode=source\r\n  #a.tag=t\r\n") doc ∧
      IsTextOf "# chain\r\na.mode=source\r\n  #a.tag=t\r\n" doc
        (({} : Writer).render ((Chain.ofText
          "# chain\r\na.mode=source\r\n  #a.tag=t\r\n").modifySection "a"
            fun s => s.set "tag" " v 1 "))) ∧
      Text.lines "# chain\r\na.mode=source\r\n  #a.tag=t\r\n" =
        ["# chain", "a.mode=source", "  #a.tag=t"] ∧
      ({} : Writer).render ((Chain.ofText
        "# chain\r\na.mode=source\r\n  #a.tag=t\r\n").modifySection "a"
          fun s => s.set "tag" " v 1 ") = "# chain\r\na.mode=source\r\n  a.tag=v 1\r\n" := by
  have hread : assignments (Text.lines "# chain\r\na.mode=source\r\n  #a.tag=t\r\n") =
      [⟨"a.mode", "source", true⟩, ⟨"a.tag", "t", false⟩] := by decide +kernel
  have halone : ∀ x ∈ assignments (Text.lines "# chain\r\na.mode=source\r\n  #a.tag=t\r\n"),
      Text.sameName x.key (Route.propertyKey "a" "tag") = true →
        ∃ n, Route.ofKey x.key = .property n "tag" := by
    rw [hread]
    intro x hx hsame
    rcases List.mem_pair.mp hx with rfl | rfl
    · exact absurd hsame (by decide +kernel)
    · exact ⟨"a", by decide +kernel⟩
  have hs : (Section.mk "a" ∅).set "mode" "source" ∈
      (Chain.ofText "# chain\r\na.mode=source\r\n  #a.tag=t\r\n").sections := by decide +kernel
  obtain ⟨-, hset, -⟩ := render_property {} (by decide +kernel) (by decide +kernel)
    (by decide +kernel) hs (by decide +kernel) halone
  exact ⟨hset " v 1 " (by decide +kernel) (by decide +kernel), by decide +kernel, by decide +kernel⟩

end Writer

end BuildChain
