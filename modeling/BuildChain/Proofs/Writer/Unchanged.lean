import BuildChain.Proofs.Document.Reread
import BuildChain.Proofs.Writer.Assembly

/-!
# Saving without edits

A chain that is saved as it was read gives the text back, character by character, when the text
breaks its lines in one way, spells each active key in one way and has its boolean flags in lower
case. Each write finds its value in force, and no line is commented out.
-/

namespace BuildChain

namespace Document

/-- The boolean literals among the values of active flags are in lower case. -/
def LowerFlags (doc : Document) : Prop :=
  ∀ x ∈ doc.assignments, x.active = true → isFlag (Route.ofKey x.key) = true →
    ∀ enabled, readFlag x.value = some enabled → x.value = flagText enabled

instance (doc : Document) : Decidable doc.LowerFlags :=
  inferInstanceAs (Decidable (∀ x ∈ doc.assignments, x.active = true →
    isFlag (Route.ofKey x.key) = true → ∀ enabled, readFlag x.value = some enabled →
      x.value = flagText enabled))

/-! ## Nothing to do -/

/-- Writing the value that is in force changes nothing. -/
theorem upsert_eq_self {doc : Document} {key : String} {x : Assignment}
    (h : inForce? doc.assignments key = some x) (place : Document → String → Document) :
    doc.upsert key x.value place = doc := by
  obtain ⟨hmem, hact, hkey⟩ := inForce?_mem h
  rcases upsert_cases doc key x.value place with
    ⟨a, l, b, y, rfl, hread, hykey, hlast, hres⟩ | ⟨hnone, -⟩
  · rcases hlast with ⟨hyact, hb⟩ | ⟨-, hall, -⟩
    · have hsplit : assignments (a ++ l :: b) = assignments a ++ y :: assignments b := by
        simp [assignments, hread]
      rw [hsplit, inForce?_append, inForce?_cons, inForce?_eq_none_iff.mpr (not_same_of_holds hb),
        if_pos ⟨hyact, hykey⟩] at h
      cases h
      rw [hres, Line.reassign_eq_self hread hact rfl]
    · rw [inForce?_eq_none_iff.mpr (not_same_of_holds hall)] at h
      cases h
  · obtain ⟨l, hl, hread⟩ := mem_assignments.mp hmem
    have htrue := names_iff.mpr ⟨x, hread, hkey⟩
    rw [hnone l hl] at htrue
    cases htrue

/-- Where every value is in force already, an update comments out lines at most. -/
theorem update_eq_map_retire (o : Order) {c : Chain} {doc : Document}
    (hwrites : ∀ key value, c.Writes key value →
      ∃ x, inForce? doc.assignments key = some x ∧ x.value = value)
    (hsections : ∀ s ∈ c.sections, sectionWrites s ≠ [] → doc.hasSection s.name = true) :
    update o c doc = doc.map (retire c) := by
  obtain ⟨d, hupdate, rfl⟩ := update_induction (fun _ d => d = doc) o c rfl
    (by
      rintro done e d place hpre - rfl
      have hmem : e ∈ writes c := hpre.subset (by simp)
      obtain ⟨x, hx, hvalue⟩ := hwrites e.1 e.2 (mem_writes.mp hmem)
      rw [← hvalue]
      exact upsert_eq_self hx place)
    (by
      rintro done s d hs - hhas rfl
      have hnil : sectionWrites s = [] := by
        by_contra hne
        rw [hsections s hs hne] at hhas
        cases hhas
      exact insertSection_of_nil hnil o d)
  exact hupdate

theorem map_retire_eq_self {c : Chain} {doc : Document}
    (hkeeps : ∀ x ∈ doc.assignments, x.active = true → keeps c (Route.ofKey x.key) = true) :
    doc.map (retire c) = doc := by
  have hretire : doc.map (retire c) = doc.map id := List.map_congr_left fun l hl =>
    retire_eq_self fun x hread hact => hkeeps x (mem_assignments.mpr ⟨l, hl, hread⟩) hact
  rw [hretire, List.map_id]

/-- An update with nothing to change leaves the document as it is. -/
theorem update_eq_self (o : Order) {c : Chain} {doc : Document}
    (hwrites : ∀ key value, c.Writes key value →
      ∃ x, inForce? doc.assignments key = some x ∧ x.value = value)
    (hsections : ∀ s ∈ c.sections, sectionWrites s ≠ [] → doc.hasSection s.name = true)
    (hkeeps : ∀ x ∈ doc.assignments, x.active = true → keeps c (Route.ofKey x.key) = true) :
    update o c doc = doc := by
  rw [update_eq_map_retire o hwrites hsections, map_retire_eq_self hkeeps]

/-- Where the values of all other keys are in force, before one key is written and after it, the write
of this key is the only one that counts. -/
theorem update_eq_of_one_write (o : Order) {c : Chain} {doc doc' : Document} {key : String}
    (hkey : ∃ k v, c.Writes k v ∧ Text.sameName key k = true)
    (hwrites : ∀ e place, Places c e place →
      (doc.upsert e.1 e.2 place = doc' ∧ doc'.upsert e.1 e.2 place = doc') ∨
        Text.sameName key e.1 = false ∧
          (∃ x, inForce? doc.assignments e.1 = some x ∧ x.value = e.2) ∧
          ∃ x, inForce? doc'.assignments e.1 = some x ∧ x.value = e.2)
    (hsections : ∀ s ∈ c.sections, sectionWrites s ≠ [] →
      doc.hasSection s.name = true ∧ doc'.hasSection s.name = true)
    (hkeeps : ∀ x ∈ doc'.assignments, x.active = true → keeps c (Route.ofKey x.key) = true) :
    update o c doc = doc' := by
  obtain ⟨d, hupdate, hd⟩ := update_induction_places
    (fun done d => (d = doc ∧ ∀ e ∈ done, Text.sameName key e.1 = false) ∨ d = doc')
    o c (.inl ⟨rfl, by simp⟩)
    (by
      rintro done e d place - he hd
      rcases hwrites e place he with ⟨hfirst, hagain⟩ | ⟨hother, ⟨x, hx, hvalue⟩, y, hy, hvalue'⟩
      · rcases hd with ⟨rfl, -⟩ | rfl
        · exact .inr hfirst
        · exact .inr hagain
      · rcases hd with ⟨rfl, hdone⟩ | rfl
        · rw [← hvalue, upsert_eq_self hx place]
          refine .inl ⟨rfl, fun e' he' => ?_⟩
          rcases List.mem_append.mp he' with he' | he'
          · exact hdone e' he'
          · rwa [List.mem_singleton.mp he']
        · rw [← hvalue', upsert_eq_self hy place]
          exact .inr rfl)
    (by
      rintro done s d hs - hhas hd
      have hnil : sectionWrites s = [] := by
        by_contra hne
        obtain ⟨hbefore, hafter⟩ := hsections s hs hne
        rcases hd with ⟨rfl, -⟩ | rfl
        · rw [hbefore] at hhas
          cases hhas
        · rw [hafter] at hhas
          cases hhas
      rwa [insertSection_of_nil hnil, hnil, List.append_nil])
  have hwritten : d = doc' := by
    refine hd.resolve_left fun ⟨_, hnone⟩ => ?_
    obtain ⟨k, v, hw, hsame⟩ := hkey
    rw [hnone _ (mem_writes.mpr hw)] at hsame
    cases hsame
  rw [hupdate, hwritten, map_retire_eq_self hkeeps]

/-- What a chain writes that was read from a document is in force there. -/
theorem inForce_of_describes {c : Chain} {doc : Document}
    (hc : c.Describes (settings doc.assignments)) (hspelled : doc.SpelledOnce)
    (hflags : doc.LowerFlags) {key value : String} (hw : c.Writes key value) :
    ∃ x, inForce? doc.assignments key = some x ∧ x.value = value := by
  obtain ⟨k, v, hget, hkey, hvalue⟩ := hc.exists_setting hw
  have hmem := mem_of_get?_settings hget
  refine ⟨_, inForce?_of_setting hspelled hget hkey, ?_⟩
  rcases hvalue with rfl | ⟨suite, enabled, hroute, hread, rfl⟩
  · exact (trim_of_mem_assignments hmem).symm
  · exact hflags _ hmem rfl (by rw [hroute]; rfl) enabled hread

theorem update_of_describes (o : Order) {c : Chain} {doc : Document}
    (hc : c.Describes (settings doc.assignments)) (hspelled : doc.SpelledOnce)
    (hflags : doc.LowerFlags) : update o c doc = doc := by
  apply update_eq_self
  · exact fun key value hw => inForce_of_describes hc hspelled hflags hw
  · intro s hs hne
    exact hasSection_iff.mpr (hc.exists_assignment hs hne)
  · intro x hx hact
    exact hc.keeps (mem_keys_settings.mpr ⟨x, hx, hact, rfl⟩)

end Document

namespace Writer

/-- Saving a chain as it was read, whatever the order of its sections, keeps every character. -/
theorem render_ofText (w : Writer) {text : String} (hbreaks : UniformBreaks text)
    (hspelled : Document.SpelledOnce (Text.lines text))
    (hflags : Document.LowerFlags (Text.lines text)) :
    w.render (Chain.ofText text) = text ∧
      ∀ sections : List Section, sections.Perm (Chain.ofText text).sections →
        w.render { Chain.ofText text with sections := sections } = text := by
  have hall : ∀ sections : List Section, sections.Perm (Chain.ofText text).sections →
      w.render { Chain.ofText text with sections := sections } = text := by
    intro sections hperm
    have hread := Chain.describes_ofText text
    rw [Document.settings_lines] at hread
    have hc : Chain.Describes { Chain.ofText text with sections := sections }
        (Document.settings (Document.assignments (Text.lines text))) :=
      ⟨hread.globals, hread.flags, hread.rawFlags, hperm.trans hread.sections⟩
    have hsource : Chain.source { Chain.ofText text with sections := sections } = some text := rfl
    rw [render_of_source w hsource, Document.update_of_describes w.order hc hspelled hflags,
      assemble_lines hbreaks]
  exact ⟨hall _ (List.Perm.refl _), hall⟩

theorem render_ofText_repeated_key :
    ({} : Writer).render (Chain.ofText
      "# chain\r\n b.Fork = x\r\nB.tag=\r\ngarbage\r\nb.Fork=y\r\n#b.fork=z\r\ntests.s.run=true") =
      "# chain\r\n b.Fork = x\r\nB.tag=\r\ngarbage\r\nb.Fork=y\r\n#b.fork=z\r\ntests.s.run=true" :=
  (render_ofText {} (by decide +kernel) (by decide +kernel) (by decide +kernel)).1

end Writer

end BuildChain
