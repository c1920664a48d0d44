import BuildChain.Proofs.Request

/-!
# Feature branches

A request may name a feature branch for the projects that are built from source and have neither
branch nor tag. The section of a project shows no white space around its mode, but a mode with white
space around it is not taken for `source` when the feature branch is given out. So every section
that is built from source has a branch or a tag exactly if no project without either has its mode
spelled in that way.
-/

namespace BuildChain

/-! ## The section of a project -/

namespace ProjectRequest

variable {p : ProjectRequest}

theorem lacksRef_iff : p.lacksRef = true ↔
    p.branch.bind Text.trimmed? = none ∧ p.tag.bind Text.trimmed? = none := by
  simp [lacksRef]

theorem mem_entries_iff {featureBranch : Option String} {suffix v : String} :
    (suffix, v) ∈ p.entries featureBranch ↔ (suffix, v) ∈ p.settings ∨
      (suffix = Property.testsUnit ∧ ∃ enabled, p.testsUnit = some enabled ∧ v = flagText enabled) ∨
      (suffix = Property.branch ∧ p.takesBranch = true ∧ featureBranch = some v) := by
  have htests : (suffix, v) ∈ (p.testsUnit.map fun enabled =>
        (Property.testsUnit, flagText enabled)).toList ↔
      suffix = Property.testsUnit ∧ ∃ enabled, p.testsUnit = some enabled ∧
        v = flagText enabled := by
    cases p.testsUnit <;> simp
  have hbranch : (suffix, v) ∈ (if p.takesBranch then
        (featureBranch.map fun branch => (Property.branch, branch)).toList else []) ↔
      suffix = Property.branch ∧ p.takesBranch = true ∧ featureBranch = some v := by
    cases p.takesBranch <;> cases featureBranch <;> simp [eq_comm]
  rw [entries, List.mem_append, List.mem_append, htests, hbranch, or_assoc]

/-- The mode and the tag are those of the project, and so is the branch unless the project is put on
the feature branch. -/
theorem get?_of_entries {s : Section} {branch : String}
    (h : s.properties.toList = p.entries (some branch)) :
    s.get? Property.mode = p.mode.bind Text.trimmed? ∧
      s.get? Property.tag = p.tag.bind Text.trimmed? ∧
      s.get? Property.branch =
        if p.takesBranch then some branch else p.branch.bind Text.trimmed? := by
  have hget (suffix v : String) :
      s.get? suffix = some v ↔ (suffix, v) ∈ p.entries (some branch) := by
    rw [← h, OrderedMap.mem_toList_iff]
    rfl
  refine ⟨Option.ext fun v => ?_, Option.ext fun v => ?_, Option.ext fun v => ?_⟩
  case refine_3 =>
    rw [hget]
    cases htakes : p.takesBranch with
    | false =>
      simp [mem_entries_iff, mem_settings_iff, htakes, Property.mode, Property.devMode,
        Property.fork, Property.branch, Property.tag, Property.testsUnit]
    | true =>
      have hnone : p.branch.bind Text.trimmed? = none := by
        rw [takesBranch, Bool.and_eq_true, lacksRef_iff] at htakes
        exact htakes.2.1
      simp [mem_entries_iff, mem_settings_iff, htakes, hnone, Property.mode, Property.devMode,
        Property.fork, Property.branch, Property.tag, Property.testsUnit]
  all_goals
    rw [hget]
    simp [mem_entries_iff, mem_settings_iff, Property.mode, Property.devMode, Property.fork,
      Property.branch, Property.tag, Property.testsUnit]

end ProjectRequest

/-! ## References in a generated chain -/

namespace ChainRequest

/-- A section has the branch and the tag of its project, or the feature branch alone if it is built
from source and its project has neither. -/
def TakesReferences (featureBranch : String) (p : ProjectRequest) (s : Section) : Prop :=
  if s.get? Property.mode = some "source" ∧
      p.branch.bind Text.trimmed? = none ∧ p.tag.bind Text.trimmed? = none then
    s.get? Property.branch = some (Text.trim featureBranch) ∧ s.get? Property.tag = none
  else
    s.get? Property.branch = p.branch.bind Text.trimmed? ∧
      s.get? Property.tag = p.tag.bind Text.trimmed?

/-- Every section that is built from source has a branch or a tag, and every section has its
references from its project or from the feature branch. -/
structure Referenced (r : ChainRequest) (featureBranch : String) (g : Chain) : Prop where
  present : ∀ s ∈ g.sections, s.get? Property.mode = some "source" →
    s.has Property.branch = true ∨ s.has Property.tag = true
  projects : ∀ s ∈ g.sections, ∃ p ∈ r.projects, s.name = Text.trim p.name
  references : ∀ s ∈ g.sections, ∀ p ∈ r.projects, s.name = Text.trim p.name →
    TakesReferences featureBranch p s

variable {r : ChainRequest} {o : Order} {g : Chain} {featureBranch : String}

/-- A section has the entries of every project of its name, since no two projects share a name. -/
theorem entries_of_name (h : r.chain o = .ok g) {s : Section} (hs : s ∈ g.sections)
    {p : ProjectRequest} (hp : p ∈ r.projects) (hname : s.name = Text.trim p.name) :
    s.properties.toList = r.entries p := by
  have hentries : (OrderedMap.ofList (r.entries p)).toList = r.entries p :=
    OrderedMap.toList_ofList (p.nodup_keys_entries _)
  have hown : ⟨Text.trim p.name, .ofList (r.entries p)⟩ ∈ g.sections :=
    (mem_sections_chain h).mpr ⟨p, hp, rfl, hentries⟩
  have hfirst := Chain.section?_of_mem (distinctNames_chain h) hs (Text.sameName_refl s.name)
  rw [hname, Chain.section?_of_mem (distinctNames_chain h) hown (Text.sameName_refl _)] at hfirst
  rw [← Option.some.inj hfirst, hentries]

theorem isBlank_trim_branch (h : r.chain o = .ok g)
    (hbranch : r.featureBranch = some featureBranch) :
    Text.isBlank (Text.trim featureBranch) = false := by
  obtain ⟨branch, hok, -⟩ := chain_ok h
  obtain ⟨rfl, hvalue⟩ := trimmedBranch_ok hok
  exact (hvalue _ (by rw [hbranch]; rfl)).2

/-- What a section has of its project, whose mode may be spelled in any way. -/
theorem get?_sections (h : r.chain o = .ok g) (hbranch : r.featureBranch = some featureBranch)
    {s : Section} (hs : s ∈ g.sections) {p : ProjectRequest} (hp : p ∈ r.projects)
    (hname : s.name = Text.trim p.name) :
    s.get? Property.mode = p.mode.bind Text.trimmed? ∧
      s.get? Property.tag = p.tag.bind Text.trimmed? ∧
      s.get? Property.branch = if p.takesBranch then some (Text.trim featureBranch)
        else p.branch.bind Text.trimmed? := by
  have hentries := entries_of_name h hs hp hname
  rw [entries, hbranch] at hentries
  exact ProjectRequest.get?_of_entries hentries

/-- A project that is taken for one that is built from source whenever its section is gets its
references. -/
theorem takesReferences_of_spelled (h : r.chain o = .ok g)
    (hbranch : r.featureBranch = some featureBranch) {s : Section} (hs : s ∈ g.sections)
    {p : ProjectRequest} (hp : p ∈ r.projects) (hname : s.name = Text.trim p.name)
    (hspelled : p.branch.bind Text.trimmed? = none → p.tag.bind Text.trimmed? = none →
      p.mode.bind Text.trimmed? = some "source" → p.mode = some "source") :
    TakesReferences featureBranch p s := by
  obtain ⟨hmode, htag, hbranch'⟩ := get?_sections h hbranch hs hp hname
  rw [TakesReferences, hmode, htag, hbranch']
  have htakes : p.takesBranch = true ↔ p.mode = some "source" ∧
      p.branch.bind Text.trimmed? = none ∧ p.tag.bind Text.trimmed? = none := by
    rw [ProjectRequest.takesBranch, Bool.and_eq_true, ProjectRequest.lacksRef_iff]
    exact and_congr_left fun _ => decide_eq_true_iff
  split
  · rename_i hlacks
    rw [if_pos (htakes.mpr ⟨hspelled hlacks.2.1 hlacks.2.2 hlacks.1, hlacks.2⟩)]
    exact ⟨rfl, hlacks.2.2⟩
  · rename_i hkept
    rw [if_neg fun hown => hkept ⟨by rw [(htakes.mp hown).1]; rfl, (htakes.mp hown).2⟩]
    exact ⟨rfl, rfl⟩

theorem has_reference (h : r.chain o = .ok g) (hbranch : r.featureBranch = some featureBranch)
    {s : Section} {p : ProjectRequest} (href : TakesReferences featureBranch p s)
    (hmode : s.get? Property.mode = some "source") :
    s.has Property.branch = true ∨ s.has Property.tag = true := by
  -- what is left of a text after trimming is not blank
  have hhas {suffix : String} {field : Option String}
      (hget : s.get? suffix = field.bind Text.trimmed?)
      (hsome : field.bind Text.trimmed? ≠ none) : s.has suffix = true := by
    obtain ⟨v, hv⟩ := Option.ne_none_iff_exists'.mp hsome
    obtain ⟨raw, -, htrim⟩ := Option.bind_eq_some_iff.mp hv
    obtain ⟨hblank, rfl⟩ := Text.trimmed?_eq_some_iff.mp htrim
    exact Section.has_of_get? (hget.trans hv) ((Text.isBlank_trim raw).trans hblank)
  unfold TakesReferences at href
  split at href
  · exact .inl (Section.has_of_get? href.1 (isBlank_trim_branch h hbranch))
  · rename_i hkept
    by_cases hown : p.branch.bind Text.trimmed? = none
    · exact .inr (hhas href.2 fun htag => hkept ⟨hmode, hown, htag⟩)
    · exact .inl (hhas href.1 hown)

/-- Every section that is built from source has a branch or a tag exactly if each project without
either that asks for `source` asks for it without white space around the word. -/
theorem referenced_iff (h : r.chain o = .ok g) (hbranch : r.featureBranch = some featureBranch) :
    Referenced r featureBranch g ↔
      ∀ p ∈ r.projects, p.branch.bind Text.trimmed? = none → p.tag.bind Text.trimmed? = none →
        p.mode.bind Text.trimmed? = some "source" → p.mode = some "source" := by
  constructor
  · intro href p hp hnoBranch hnoTag hmode
    obtain ⟨s, hs, hname⟩ : ∃ s ∈ g.sections, s.name = Text.trim p.name :=
      ⟨⟨Text.trim p.name, .ofList (r.entries p)⟩, (mem_sections_chain h).mpr ⟨p, hp, rfl,
        OrderedMap.toList_ofList (p.nodup_keys_entries _)⟩, rfl⟩
    obtain ⟨hmode', htag, hbranch'⟩ := get?_sections h hbranch hs hp hname
    by_contra hne
    -- the project is not taken for one that is built from source, so its section has no reference
    have htakes : p.takesBranch = false := by
      rw [ProjectRequest.takesBranch, ProjectRequest.isSource, BuildMode.text, decide_eq_false hne,
        Bool.false_and]
    rw [htakes, if_neg Bool.false_ne_true, hnoBranch] at hbranch'
    rcases href.present s hs (hmode'.trans hmode) with hhas | hhas
    · rw [Section.has_of_get?_none hbranch'] at hhas
      cases hhas
    · rw [Section.has_of_get?_none (htag.trans hnoTag)] at hhas
      cases hhas
  · intro hspelled
    have hreferences : ∀ s ∈ g.sections, ∀ p ∈ r.projects, s.name = Text.trim p.name →
        TakesReferences featureBranch p s := fun s hs p hp hname =>
      takesReferences_of_spelled h hbranch hs hp hname (hspelled p hp)
    have hprojects : ∀ s ∈ g.sections, ∃ p ∈ r.projects, s.name = Text.trim p.name := by
      intro s hs
      obtain ⟨p, hp, hname, -⟩ := (mem_sections_chain h).mp hs
      exact ⟨p, hp, hname⟩
    refine ⟨fun s hs hmode => ?_, hprojects, hreferences⟩
    obtain ⟨p, hp, hname⟩ := hprojects s hs
    exact has_reference h hbranch (hreferences s hs p hp hname) hmode

theorem referenced_iff_spellings :
    let r : ChainRequest :=
      { projects := [{ name := " a ", mode := some "source", branch := some " " },
          { name := "b", mode := some " source ", tag := some " t " }, { name := "c" }]
        featureBranch := some " dev " }
    ∃ g, r.chain .standard = .ok g ∧ r.featureBranch = some " dev " ∧
      (Referenced r " dev " g ↔
        ∀ p ∈ r.projects, p.branch.bind Text.trimmed? = none → p.tag.bind Text.trimmed? = none →
          p.mode.bind Text.trimmed? = some "source" → p.mode = some "source") :=
  ⟨_, rfl, rfl, referenced_iff rfl rfl⟩

/-- A project may ask for `source` with white space around it, and then its section has neither
branch nor tag. -/
theorem not_referenced_padded_mode :
    let r : ChainRequest :=
      { projects := [{ name := "a", mode := some " source " }], featureBranch := some "dev" }
    ∃ g, r.chain .standard = .ok g ∧ ¬Referenced r "dev" g ∧
      g.sections = [⟨"a", .ofList [("mode", "source")]⟩] := by
  refine ⟨_, rfl, fun h => ?_, by decide +kernel⟩
  have hpresent := h.present
  revert hpresent
  decide +kernel

end ChainRequest

end BuildChain
