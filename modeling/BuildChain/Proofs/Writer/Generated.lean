import BuildChain.Proofs.Repair.Saving
import BuildChain.Proofs.Request
import BuildChain.Proofs.Writer.Fresh

/-!
# Reading a generated chain back

A request may ask for names, suites and values that no line can carry, and they are not refused. A
generated chain is read back from its file exactly if the request has none of them; otherwise the
file describes another chain.
-/

namespace BuildChain

open Assignment (IsKey)
open Document (writes)
open Route (IsName)

/-! ## What a file can express -/

/-- A name that makes the key of a flag. -/
structure Route.IsSuite (suite : String) : Prop where
  nonempty : suite ≠ ""
  equals : '=' ∉ suite.toList
  feed : '\n' ∉ suite.toList

instance (suite : String) : Decidable (Route.IsSuite suite) :=
  decidable_of_iff (suite ≠ "" ∧ '=' ∉ suite.toList ∧ '\n' ∉ suite.toList)
    ⟨fun ⟨h₁, h₂, h₃⟩ => ⟨h₁, h₂, h₃⟩, fun ⟨h₁, h₂, h₃⟩ => ⟨h₁, h₂, h₃⟩⟩

theorem Route.isSuite_iff {suite : String} : IsSuite suite ↔
    (IsKey (flagKey suite) ∧ '\n' ∉ (flagKey suite).toList) ∧
      ofKey (flagKey suite) = flag suite := by
  constructor
  · intro h
    refine ⟨⟨⟨?_, ⟨?_, ?_⟩, ?_, ?_⟩, ?_⟩, ofKey_eq_flag_iff.mpr ⟨h.nonempty, rfl⟩⟩
    · simp [toList_flagKey]
    · intro c hc
      rw [toList_flagKey] at hc
      cases hc
      decide
    · intro c hc
      rw [toList_flagKey, List.getLast?_append_of_ne_nil _ (by decide)] at hc
      cases hc
      decide
    · simp [toList_flagKey, h.equals]
    · rw [toList_flagKey]
      exact fun hhead => absurd (Option.some.inj hhead) (by decide)
    · simp [toList_flagKey, h.feed]
  · rintro ⟨⟨hkey, hfeed⟩, hroute⟩
    have hequals := hkey.not_mem
    simp only [toList_flagKey, List.mem_append, not_or] at hequals hfeed
    exact ⟨(ofKey_eq_flag_iff.mp hroute).1, hequals.1.2, hfeed.1.2⟩

namespace ChainRequest

/-- A request of which every setting has a line of its own. -/
structure Expressible (r : ChainRequest) : Prop where
  names : ∀ p ∈ r.projects, r.entries p ≠ [] → IsName (Text.trim p.name)
  values : ∀ p ∈ r.projects, ∀ e ∈ r.entries p, '\n' ∉ e.2.toList
  globals : ∀ e ∈ (⟨r.version, r.devVersion, r.recipients⟩ : Globals).written, '\n' ∉ e.2.toList
  suites : ∀ suite ∈ r.flags.keys, Route.IsSuite suite

instance (r : ChainRequest) : Decidable r.Expressible :=
  decidable_of_iff
    ((∀ p ∈ r.projects, r.entries p ≠ [] → IsName (Text.trim p.name)) ∧
      (∀ p ∈ r.projects, ∀ e ∈ r.entries p, '\n' ∉ e.2.toList) ∧
      (∀ e ∈ (⟨r.version, r.devVersion, r.recipients⟩ : Globals).written, '\n' ∉ e.2.toList) ∧
      ∀ suite ∈ r.flags.keys, Route.IsSuite suite)
    ⟨fun ⟨h₁, h₂, h₃, h₄⟩ => ⟨h₁, h₂, h₃, h₄⟩, fun ⟨h₁, h₂, h₃, h₄⟩ => ⟨h₁, h₂, h₃, h₄⟩⟩

end ChainRequest

/-! ## What a file conveys -/

/-- One name and the same properties, in whatever order. -/
def Section.Same (s s' : Section) : Prop :=
  s.name = s'.name ∧ s.properties.toList.Perm s'.properties.toList

instance (s s' : Section) : Decidable (s.Same s') := inferInstanceAs (Decidable (_ ∧ _))

/-- The chain has the sections of the other one that have a property, its global settings up to
white space and its flags. -/
structure Chain.Conveys (c g : Chain) : Prop where
  sections : List.Forall₂ Section.Same c.sections
    (g.sections.filter fun s => !s.properties.toList.isEmpty)
  globals : c.globals.tidied = g.globals.tidied
  flags : c.flags.toList.Perm g.flags.toList

theorem Globals.mem_written_iff {g : Globals} {key value : String} :
    (key, value) ∈ g.written ↔ g.tidied.get? key = some value := by
  have hget : g.tidied.get? key = (g.get? key).bind Text.trimmed? := by
    by_cases h : key ∈ GlobalKey.known
    · simp only [GlobalKey.known, List.mem_cons, List.not_mem_nil, or_false] at h
      rcases h with rfl | rfl | rfl <;> rfl
    · rw [get?_of_not_known h, get?_of_not_known h]
      rfl
  simp only [hget, mem_written, Option.bind_eq_some_iff, Text.trimmed?_eq_some_iff]

theorem exists_of_forall₂ {α β : Type} {R : α → β → Prop} {l : List α} {l' : List β}
    (h : List.Forall₂ R l l') {b : β} (hb : b ∈ l') : ∃ a ∈ l, R a b := by
  induction h with
  | nil => cases hb
  | @cons a b' l l' hab _ ih =>
    rcases List.mem_cons.mp hb with rfl | hb
    · exact ⟨a, List.mem_cons_self, hab⟩
    · obtain ⟨a', ha', hrel⟩ := ih hb
      exact ⟨a', List.mem_cons_of_mem _ ha', hrel⟩

theorem Globals.tidied_tidied (g : Globals) : g.tidied.tidied = g.tidied := by
  have htwice : ∀ field : Option String,
      (field.bind Text.trimmed?).bind Text.trimmed? = field.bind Text.trimmed? := by
    intro field
    cases htrim : field.bind Text.trimmed? with
    | none => rfl
    | some v =>
      obtain ⟨raw, -, hraw⟩ := Option.bind_eq_some_iff.mp htrim
      obtain ⟨hblank, rfl⟩ := Text.trimmed?_eq_some_iff.mp hraw
      rw [Option.bind_some, Text.trimmed?_eq_some_iff]
      exact ⟨by rw [Text.isBlank_trim, hblank], (Text.trim_trim raw).symm⟩
  simp only [tidied, htwice]

theorem Section.toList_tidied (s : Section) : s.tidied.properties.toList = s.written :=
  OrderedMap.toList_ofList s.nodup_keys_written

/-- A section whose values are trimmed and not blank is written as it is, in another order. -/
theorem Section.written_perm {s : Section}
    (h : ∀ e ∈ s.properties.toList, Text.trim e.2 = e.2 ∧ Text.isBlank e.2 = false) :
    s.written.Perm s.properties.toList := by
  refine (List.perm_ext_iff_of_nodup s.nodup_keys_written.of_map
    s.properties.nodup_keys.of_map).mpr ?_
  rintro ⟨suffix, value⟩
  rw [mem_written]
  constructor
  · rintro ⟨raw, hget, -, rfl⟩
    have hraw : (suffix, raw) ∈ s.properties.toList := OrderedMap.mem_toList_iff.mpr hget
    rwa [(h _ hraw).1]
  · intro hvalue
    exact ⟨value, OrderedMap.mem_toList_iff.mp hvalue, (h _ hvalue).2, (h _ hvalue).1.symm⟩

/-! ## Generated chains -/

namespace ChainRequest

variable {r : ChainRequest} {o : Order} {c g : Chain}

theorem written_perm (h : r.chain o = .ok g) {s : Section} (hs : s ∈ g.sections) :
    s.written.Perm s.properties.toList := by
  obtain ⟨p, -, -, hentries⟩ := (mem_sections_chain h).mp hs
  refine Section.written_perm fun e he => (mem_entries h (p := p) ?_).2
  rwa [hentries] at he

/-- A chain is representable if what was asked for can be expressed. -/
theorem representable_chain (h : r.chain o = .ok g) (hr : r.Expressible) : g.Representable := by
  have hglobals : g.globals = ⟨r.version, r.devVersion, r.recipients⟩ ∧ g.flags = r.flags ∧
      g.rawFlags = ∅ := by
    obtain ⟨featureBranch, -, -, -, rfl⟩ := chain_ok h
    exact ⟨rfl, rfl, rfl⟩
  obtain ⟨hglobals, hflags, hraw⟩ := hglobals
  -- each pair of a section is one of its project
  have hpair : ∀ s ∈ g.sections, ∀ e ∈ s.written, ∃ p ∈ r.projects,
      s.name = Text.trim p.name ∧ e ∈ r.entries p := by
    intro s hs e he
    obtain ⟨p, hp, hname, hentries⟩ := (mem_sections_chain h).mp hs
    exact ⟨p, hp, hname, hentries ▸ (written_perm h hs).mem_iff.mp he⟩
  have hflag : ∀ e ∈ Document.writtenFlags g,
      Route.IsSuite e.1 ∧ ∃ enabled, e.2 = flagText enabled := by
    intro e he
    simp only [Document.writtenFlags, hraw, List.mem_append] at he
    rcases he with he | he
    · obtain ⟨⟨suite, enabled⟩, hmem, rfl⟩ := List.mem_map.mp he
      rw [hflags] at hmem
      exact ⟨hr.suites suite (List.mem_map_of_mem hmem), enabled, rfl⟩
    · cases he
  constructor
  case names => exact distinctNames_chain h
  case suites =>
    intro suite _
    rw [hraw]
    exact List.not_mem_nil
  case literals =>
    rw [hraw]
    exact fun e he => absurd he List.not_mem_nil
  case values =>
    intro e he
    rcases List.mem_append.mp he with he | he
    · rcases List.mem_append.mp he with he | he
      · rw [hglobals] at he
        exact hr.globals e he
      · obtain ⟨s, hs, he⟩ := List.mem_flatMap.mp he
        obtain ⟨w, hw, rfl⟩ := List.mem_map.mp he
        obtain ⟨p, hp, -, hentry⟩ := hpair s hs w hw
        exact hr.values p hp w hentry
    · obtain ⟨w, hw, rfl⟩ := List.mem_map.mp he
      obtain ⟨-, enabled, hvalue⟩ := hflag w hw
      rw [hvalue]
      exact (tidy_flagText enabled).1.feed
  case propertyKeys =>
    intro s hs e he
    obtain ⟨p, hp, hname, hentry⟩ := hpair s hs e he
    have hknown := (mem_entries h hentry).1
    have hisName := hr.names p hp (List.ne_nil_of_mem hentry)
    rw [hname, ← hisName.ofKey hknown]
    obtain ⟨hkey, hfeed⟩ := hisName.isKey hknown
    exact .of_isKey hkey hfeed (hr.values p hp e hentry)
  case flagKeys =>
    intro e he
    obtain ⟨hsuite, enabled, hvalue⟩ := hflag e he
    obtain ⟨⟨hkey, hfeed⟩, hroute⟩ := Route.isSuite_iff.mp hsuite
    rw [← hroute, hvalue]
    exact .of_isKey hkey hfeed (tidy_flagText enabled).1.feed

/-- What a file conveys can be expressed, since it has lines of its own there. -/
theorem expressible_of_conveys (h : r.chain o = .ok g) {text : String}
    (hc : (Chain.ofText text).Conveys g) : r.Expressible := by
  have hlines := Chain.onLines_ofText text
  have hsame : ∀ p ∈ r.projects, r.entries p ≠ [] → ∃ s ∈ (Chain.ofText text).sections,
      s.name = Text.trim p.name ∧ s.properties.toList.Perm (r.entries p) := by
    intro p hp hne
    obtain ⟨t, ht, hname, hentries⟩ : ∃ t ∈ g.sections, t.name = Text.trim p.name ∧
        t.properties.toList = r.entries p :=
      ⟨⟨Text.trim p.name, .ofList (r.entries p)⟩, (mem_sections_chain h).mpr
        ⟨p, hp, rfl, OrderedMap.toList_ofList (p.nodup_keys_entries _)⟩, rfl,
        OrderedMap.toList_ofList (p.nodup_keys_entries _)⟩
    obtain ⟨s, hs, hsname, hperm⟩ := exists_of_forall₂ hc.sections (b := t)
      (List.mem_filter.mpr ⟨ht, by simpa [hentries] using hne⟩)
    exact ⟨s, hs, hsname.trans hname, hentries ▸ hperm⟩
  constructor
  case names =>
    intro p hp hne
    obtain ⟨s, hs, hname, -⟩ := hsame p hp hne
    rw [← hname]
    exact Chain.isName_of_mem_names (List.mem_map_of_mem hs)
  case values =>
    intro p hp e he
    obtain ⟨s, hs, -, hperm⟩ := hsame p hp (List.ne_nil_of_mem he)
    have hget : (Chain.ofText text).get? s.name e.1 = some e.2 := by
      rw [Chain.get?_of_mem (Chain.distinctNames_ofText text) hs (Text.sameName_refl s.name)]
      exact OrderedMap.mem_toList_iff.mp (hperm.mem_iff.mpr he)
    exact (hlines (.property s.name e.1) e.2 hget).feed
  case globals =>
    obtain ⟨featureBranch, -, -, -, rfl⟩ := chain_ok h
    rintro ⟨key, value⟩ he
    have hread : (key, value) ∈ (Chain.ofText text).globals.written := by
      rw [Globals.mem_written_iff, hc.globals]
      exact Globals.mem_written_iff.mp he
    obtain ⟨raw, hraw, -, rfl⟩ := Globals.mem_written.mp hread
    have hline := hlines (.global key) raw hraw
    rw [hline.trim]
    exact hline.feed
  case suites =>
    obtain ⟨featureBranch, -, -, -, rfl⟩ := chain_ok h
    intro suite hsuite
    obtain ⟨⟨suite', enabled⟩, hmem, rfl⟩ := List.mem_map.mp hsuite
    have hget : (Chain.ofText text).flags.get? suite' = some enabled :=
      OrderedMap.mem_toList_iff.mp (hc.flags.mem_iff.mpr hmem)
    have hheld : ((Chain.ofText text).held? (.flag suite')).isSome = true := by
      simp [Chain.held?, hget]
    have hkey := (Chain.isKey_of_held? (by simp) hheld).1
    refine Route.isSuite_iff.mpr ⟨hkey, Route.ofKey_eq_flag_iff.mpr ⟨?_, rfl⟩⟩
    rintro rfl
    have hnone := Chain.flags_ofSettings (Chain.settings text) ""
    rw [if_pos rfl] at hnone
    rw [Chain.ofText_eq] at hget
    exact absurd (hnone.symm.trans hget) (Option.some_ne_none enabled).symm

end ChainRequest

namespace Writer

/-- A generated chain is read back from its file exactly if every setting of the request has a line
of its own. -/
theorem conveys_render_iff {r : ChainRequest} {o : Order} {g : Chain} (seconds : Option Nat)
    (h : r.chain o = .ok g)
    (hnames : ∀ p ∈ r.projects, o.contains (Text.trim p.name) = true → r.entries p = [] →
      '\n' ∉ (Text.trim p.name).toList) :
    (Chain.ofText (render ⟨o, seconds.map Stamp.ofSeconds⟩ g)).Conveys g ↔ r.Expressible := by
  refine ⟨ChainRequest.expressible_of_conveys h, fun hr => ?_⟩
  have hempty : ∀ s ∈ g.sections, s.written.isEmpty = s.properties.toList.isEmpty := by
    intro s hs
    rw [Bool.eq_iff_iff, List.isEmpty_iff, List.isEmpty_iff]
    have hperm := ChainRequest.written_perm h hs
    exact ⟨fun hnil => (hnil ▸ hperm).nil_eq.symm, fun hnil => (hnil ▸ hperm).eq_nil⟩
  have hplaceholders : ∀ s ∈ g.sections, o.contains s.name = true → s.written = [] →
      '\n' ∉ s.name.toList := by
    intro s hs hcontains hnil
    obtain ⟨p, hp, hname, hentries⟩ := (ChainRequest.mem_sections_chain h).mp hs
    rw [hname] at hcontains ⊢
    refine hnames p hp hcontains ?_
    rw [← hentries, ← List.isEmpty_iff, ← hempty s hs, hnil]
    rfl
  have hrepresentable := ChainRequest.representable_chain h hr
  have hread := (ofText_renderFresh o seconds hrepresentable hplaceholders).1
  obtain ⟨featureBranch, -, -, -, rfl⟩ := ChainRequest.chain_ok h
  generalize hg : o.reorder (r.draft featureBranch) = g at *
  have hsource : g.source = none := by rw [← hg]; rfl
  have hordered : o.reorder g = g := by rw [← hg, o.reorder_reorder]
  rw [render, hsource]
  dsimp only
  rw [hread, hordered]
  constructor
  case sections =>
    have hfilter : (g.sections.filter fun s => !s.properties.toList.isEmpty) =
        g.sections.filter fun s => !s.written.isEmpty :=
      List.filter_congr fun s hs => by rw [hempty s hs]
    rw [hfilter]
    refine List.forall₂_map_left_iff.mpr (List.forall₂_same.mpr fun s hs => ⟨rfl, ?_⟩)
    rw [s.toList_tidied]
    exact ChainRequest.written_perm h (List.mem_of_mem_filter hs)
  case globals => exact g.globals.tidied_tidied
  case flags => exact List.Perm.refl _

theorem conveys_render_iff_feature_branch :
    let r : ChainRequest :=
      { version := some " 7 "
        projects := [{ name := " x ", mode := some "source", testsUnit := some true },
          { name := "tests", tag := some "t" }, { name := "olap" }]
        flags := .ofList [("smoke", false)]
        featureBranch := some "dev" }
    r.Expressible ∧ ∃ g, r.chain .standard = .ok g ∧
      ((Chain.ofText (render ⟨.standard, (some 0).map Stamp.ofSeconds⟩ g)).Conveys g ↔
        r.Expressible) :=
  ⟨by decide +kernel, _, rfl, conveys_render_iff (some 0) rfl (by decide +kernel)⟩

/-- The name of a project may hold a dot, and then the file has a section of another name. -/
theorem not_conveys_render_dotted_name :
    let r : ChainRequest := { projects := [{ name := "a.b", mode := some "source" }] }
    ∃ g, r.chain .standard = .ok g ∧
      ¬(Chain.ofText (render ⟨.standard, none⟩ g)).Conveys g ∧
      (Chain.ofText (render ⟨.standard, none⟩ g)).sections =
        [⟨"a", .ofList [("b.mode", "source")]⟩] := by
  refine ⟨_, rfl, fun h => ?_, by decide +kernel⟩
  have hsections := h.sections
  revert hsections
  decide +kernel

end Writer

end BuildChain
