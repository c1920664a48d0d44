import BuildChain.Proofs.Chain.Naming
import BuildChain.Proofs.Repair.Descent
import BuildChain.Proofs.Writer.Landed

/-!
# Saving what was fixed

What fixing makes of a chain that was read from a text can be written to that text: its keys can
stand on lines, its values are read back as they are, and where its settings land it is read back
whole. A chain that is settled then stays settled.
-/

namespace BuildChain

open Assignment (IsKey)
open Document (assignments puts target? Lands Writable)
open Route (IsName)

variable {text : String} {cat : Catalog} {c c' : Chain}

/-! ## Chains that were read -/

theorem Document.isKey_of_line {x : Assignment} (hx : x ∈ assignments (Text.lines text))
    (hactive : x.active = true) : IsKey x.key ∧ '\n' ∉ x.key.toList := by
  obtain ⟨l, hl, hread⟩ := mem_assignments.mp hx
  exact ⟨Assignment.isKey_of_active hread hactive,
    fun hfeed => Text.not_mem_of_mem_lines hl (Line.key_subset hread _ hfeed)⟩

theorem Document.lineValue_of_line {x : Assignment} (hx : x ∈ assignments (Text.lines text)) :
    LineValue x.value := by
  obtain ⟨l, hl, hread⟩ := mem_assignments.mp hx
  have htrim := Assignment.tight_value hread
  exact ⟨fun hfeed => Text.not_mem_of_mem_lines hl (Line.value_subset hread _ hfeed), htrim⟩

namespace Chain

theorem held?_ofText (text : String) (r : Route) :
    (ofText text).held? r = (ofSettings (settings text)).held? r := by
  cases r <;> rfl

theorem onLines_ofText (text : String) : (ofText text).OnLines := by
  intro r value h
  rw [held?_ofText] at h
  rcases settingAt?_of_held? h with hat | ⟨-, enabled, rfl⟩
  · obtain ⟨k, hk, -⟩ := exists_key_of_settingAt? hat
    rw [Document.settings_lines] at hk
    exact Document.lineValue_of_line (Document.mem_of_get?_settings hk)
  · exact (tidy_flagText enabled).1

theorem distinctNames_ofText (text : String) : (ofText text).DistinctNames :=
  distinctNames_ofSettings (settings text)

theorem isName_of_mem_names {name : String} (h : name ∈ (ofText text).names) : IsName name := by
  obtain ⟨key, hkey, hsection⟩ := exists_key_of_mem_names (m := settings text) h
  rw [Document.settings_lines] at hkey
  obtain ⟨x, hx, hactive, rfl⟩ := Document.mem_keys_settings.mp hkey
  obtain ⟨hk, hfeed⟩ := Document.isKey_of_line hx hactive
  cases hroute : Route.ofKey x.key <;> rw [hroute] at hsection <;> cases hsection
  exact Route.isName_of_ofKey hk hfeed hroute

/-- What was read from a text at a place stands on an active line that leads there. -/
theorem exists_line_of_held? {r : Route} (h : ((ofText text).held? r).isSome = true) :
    ∃ x ∈ assignments (Text.lines text), x.active = true ∧
      (Route.ofKey x.key).samePlace r = true := by
  obtain ⟨raw, hraw⟩ := Option.isSome_iff_exists.mp h
  rw [held?_ofText] at hraw
  have hat : (settingAt? (settings text) r).isSome = true := by
    rcases settingAt?_of_held? hraw with hat | ⟨hat, -⟩
    · rw [hat]
      rfl
    · exact hat
  obtain ⟨v, hv⟩ := Option.isSome_iff_exists.mp hat
  obtain ⟨k, hk, hplace⟩ := exists_key_of_settingAt? hv
  rw [Document.settings_lines] at hk
  exact ⟨⟨k, v, true⟩, Document.mem_of_get?_settings hk, rfl, hplace⟩

/-- The key of a place that a text has is one, and a value for it finds a line. -/
theorem isKey_of_held? {r : Route} (hr : r ≠ .nowhere)
    (h : ((ofText text).held? r).isSome = true) :
    (IsKey r.key ∧ '\n' ∉ r.key.toList) ∧ target? (assignments (Text.lines text)) r.key ≠ none := by
  obtain ⟨x, hx, hactive, hplace⟩ := exists_line_of_held? h
  have hsame := Route.sameName_key hplace hr
  obtain ⟨hkey, hfeed⟩ := Document.isKey_of_line hx hactive
  refine ⟨⟨hkey.congr hsame, fun hmem => hfeed ?_⟩, fun hnone => ?_⟩
  · exact Text.mem_of_sameName (by rwa [Text.sameName_comm]) (by decide) hmem
  · have hline : x ∈ Document.named (assignments (Text.lines text)) r.key :=
      Document.mem_named.mpr ⟨hx, hsame⟩
    rw [Document.named_eq_nil_of_target? hnone] at hline
    cases hline

/-! ## Chains that were fixed -/

theorem mem_names_of_mem_puts {name p value : String}
    (h : (Route.property name p, value) ∈ puts c) : name ∈ c.names := by
  rcases Document.mem_puts.mp h with ⟨w, -, heq⟩ | ⟨s, hs, w, -, heq⟩ | ⟨w, -, heq⟩
  · cases heq
  · cases heq
    exact List.mem_map_of_mem hs
  · cases heq

namespace Descends

theorem isName (h : (ofText text).Descends cat c) (hnames : ∀ n ∈ cat.order.names, IsName n)
    {name : String} (hname : name ∈ c.names) : IsName name := by
  rcases h.names name hname with hname | hname
  · exact isName_of_mem_names hname
  · exact hnames name hname

/-- The line of a property that fixing does not know is kept. -/
theorem keeps_of_not_known (h : (ofText text).Descends cat c) {x : Assignment}
    (hx : x ∈ assignments (Text.lines text)) (hactive : x.active = true) {name p : String}
    (hroute : Route.ofKey x.key = .property name p) (hp : p ∉ Property.known) :
    Document.keeps c (.property name p) = true := by
  have hread : x.key ∈ (settings text).keys := by
    rw [Document.settings_lines]
    exact Document.mem_keys_settings.mpr ⟨x, hx, hactive, rfl⟩
  have hkept := (describes_ofText text).keeps hread
  rw [hroute, Document.keeps_property] at hkept
  rw [Document.keeps_property]
  rcases h.places (.property name p) with hsame | ⟨hknown, -⟩
  · rw [held?, held?] at hsame
    rwa [hsame]
  · exact absurd hknown hp

/-- What a fixed chain writes was read from the text, unless it is at a known place. -/
theorem held_or_known (h : (ofText text).Descends cat c) (hnames : ∀ n ∈ cat.order.names, IsName n)
    (hdist : c.DistinctNames) (hsuites : ∀ suite ∈ c.flags.keys, suite ∉ c.rawFlags.keys)
    {e : Route × String} (he : e ∈ puts c) :
    ((ofText text).held? e.1).isSome = true ∨ e.1.IsKnown := by
  obtain ⟨r, value⟩ := e
  obtain ⟨raw, hraw, -, -⟩ := Document.held?_of_mem_puts hdist hsuites he
  rcases h.places r with hsame | ⟨hmend, -⟩
  · refine .inl ?_
    rw [← hsame, hraw]
    rfl
  · cases r with
    | global key => exact .inr (.global hmend)
    | flag suite => exact .inl hmend
    | property name p => exact .inr (.property (h.isName hnames (mem_names_of_mem_puts he)) hmend)
    | nowhere => exact absurd hmend id

/-- What a fixed chain writes at a place has a key that can stand on a line; on a line of its own,
it leads there. -/
theorem isKey_of_mem_puts (h : (ofText text).Descends cat c)
    (hnames : ∀ n ∈ cat.order.names, IsName n) (hdist : c.DistinctNames)
    (hsuites : ∀ suite ∈ c.flags.keys, suite ∉ c.rawFlags.keys) {e : Route × String}
    (he : e ∈ puts c) : (IsKey e.1.key ∧ '\n' ∉ e.1.key.toList) ∧
      (target? (assignments (Text.lines text)) e.1.key = none →
        (Route.ofKey e.1.key).samePlace e.1 = true) := by
  rcases h.held_or_known hnames hdist hsuites he with hsome | hknown
  · obtain ⟨hkey, htarget⟩ := isKey_of_held? (Document.ne_nowhere_of_mem_puts he) hsome
    exact ⟨hkey, fun hnone => absurd hnone htarget⟩
  · refine ⟨hknown.isKey, fun _ => ?_⟩
    rw [hknown.ofKey]
    exact Route.samePlace_refl _

theorem writable (h : (ofText text).Descends cat c) (hnames : ∀ n ∈ cat.order.names, IsName n)
    (hdist : c.DistinctNames) (hsuites : ∀ suite ∈ c.flags.keys, suite ∉ c.rawFlags.keys) :
    Writable (assignments (Text.lines text)) c := by
  constructor
  case lines =>
    intro e he
    rw [← Document.map_puts] at he
    obtain ⟨put, hput, rfl⟩ := List.mem_map.mp he
    obtain ⟨⟨hkey, hfeed⟩, -⟩ := h.isKey_of_mem_puts hnames hdist hsuites hput
    obtain ⟨raw, hraw, -, hvalue⟩ := Document.held?_of_mem_puts hdist hsuites hput
    have hline := (onLines_ofText text).of_descends h _ raw hraw
    exact ⟨hkey, hfeed, by rw [hvalue, hline.trim]; exact hline.feed⟩
  case places => exact fun e he => (h.isKey_of_mem_puts hnames hdist hsuites he).2

/-- Fixing leaves nothing blank that was not blank before. -/
theorem leavesBlank (h : (ofText text).Descends cat c) : c.LeavesBlank (settings text) := by
  constructor
  case blank =>
    intro r raw hraw hblank
    rcases h.places r with hsame | ⟨-, htidy⟩
    · rw [hsame] at hraw
      rw [(onLines_ofText text r raw hraw).trim]
      rw [held?_ofText] at hraw
      rcases settingAt?_of_held? hraw with hat | ⟨-, enabled, rfl⟩
      · exact hat
      · rw [isBlank_flagText] at hblank
        cases hblank
    · rw [(htidy raw hraw).2] at hblank
      cases hblank
  case flags =>
    intro suite hnone
    have hflag := h.flags suite
    rw [hnone, held?_ofText, held?_flag_ofSettings] at hflag
    exact Option.not_isSome_iff_eq_none.mp (Bool.eq_false_iff.mp hflag.symm)

theorem render_eq (h : (ofText text).Descends cat c) (w : Writer) :
    w.render c = w.renderOnto text c := by
  rw [Writer.render, h.source]
  rfl

/-- A fixed chain that lands is read back. -/
theorem restores (h : (ofText text).Descends cat c) (hnames : ∀ n ∈ cat.order.names, IsName n)
    (hdist : c.DistinctNames) (hraw : ∀ suite, c.rawFlags.get? suite = none)
    (hlands : Lands (assignments (Text.lines text)) c) (w : Writer) :
    (ofText (w.render c)).Restores c := by
  have hsuites : ∀ suite ∈ c.flags.keys, suite ∉ c.rawFlags.keys := fun suite _ =>
    OrderedMap.get?_eq_none_iff.mp (hraw suite)
  have hliterals : ∀ suite raw, c.rawFlags.get? suite = some raw → readFlag raw = none := by
    intro suite raw hsome
    rw [hraw] at hsome
    cases hsome
  rw [h.render_eq]
  exact w.restores_of_lands hdist hsuites hliterals hlands
    (h.writable hnames hdist hsuites) h.leavesBlank

end Descends

/-! ## Rules and chains that were read back -/

/-- Where every section has a mode, a chain that was read back holds what the other one holds. -/
theorem Restores.hasSection_eq (h : c'.Restores c) (hdist : c.DistinctNames)
    (hmode : ∀ x ∈ c.sections, x.has Property.mode = true) (name : String) :
    c'.hasSection name = c.hasSection name := by
  rw [Bool.eq_iff_iff, h.sections]
  constructor
  · rintro ⟨suffix, hsome⟩
    rw [hasSection_eq_isSome]
    obtain ⟨v, hv⟩ := Option.isSome_iff_exists.mp hsome
    obtain ⟨x, hx, -⟩ := Option.bind_eq_some_iff.mp hv
    rw [hx]
    rfl
  · intro hhas
    obtain ⟨x, hx, hname⟩ := List.any_eq_true.mp hhas
    obtain ⟨v, hv⟩ := Option.isSome_iff_exists.mp (hmode x hx)
    refine ⟨Property.mode, ?_⟩
    rw [get?_of_mem hdist hx hname, (Option.filter_eq_some_iff.mp hv).1]
    rfl

end Chain

namespace RuleSet

variable {s : RuleSet}

/-- Nothing is to be fixed in a settled chain that was written and read back. -/
theorem fixables_of_restores (h : s.fixables c = []) (hread : c'.Restores c)
    (hdist : c.DistinctNames) (hlines : c.OnLines)
    (hraw : ∀ suite, c.rawFlags.get? suite = none)
    (hmode : ∀ x ∈ c.sections, x.has Property.mode = true) : s.fixables c' = [] := by
  have htrim : ∀ r, (c.held? r).map Text.trim = c.held? r := fun r => by
    cases hheld : c.held? r with
    | none => rfl
    | some v => rw [Option.map_some, (hlines r v hheld).trim]
  have hglobals : c'.globals = c.globals := by
    refine Globals.ext_get? fun key => ?_
    rw [hread.globals, Globals.get?_trimmed]
    exact htrim (.global key)
  rw [fixables_eq_nil_iff] at h ⊢
  intro r hr henabled
  refine (h r hr henabled).of_get? hdist hread.names (hread.hasSection_eq hdist hmode)
    (fun name p => (hread.properties name p).trans (htrim (.property name p))) hglobals
    fun suite => ?_
  rw [hread.rawFlags, hraw]
  rfl

end RuleSet

end BuildChain
