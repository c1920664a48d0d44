import BuildChain.Proofs.Chain.Tidied
import BuildChain.Proofs.Repair.Completion
import BuildChain.Request

/-!
# What a request is made into

A request that is accepted has one section for each project, under a name that no project before it
has, and its flags are those of the request. The sections are then put into order.
-/

namespace BuildChain

/-- Flags that are set one after the other make up a map, and no text is kept for any suite. -/
theorem Chain.foldl_setFlag (c : Chain) (hflags : c.flags = ∅) (hraw : c.rawFlags = ∅)
    (entries : List (String × Bool)) :
    entries.foldl (fun (c : Chain) e => c.setFlag e.1 e.2) c =
      { c with flags := .ofList entries } := by
  induction entries using List.reverseRecOn with
  | nil =>
    obtain ⟨⟩ := c
    cases hflags
    rfl
  | append_singleton entries e ih =>
    have herase : c.rawFlags.erase e.1 = c.rawFlags := by
      rw [hraw]
      exact OrderedMap.erase_eq_self (OrderedMap.get?_empty e.1)
    rw [List.foldl_append, List.foldl_cons, List.foldl_nil, ih, OrderedMap.ofList_concat,
      Chain.setFlag]
    simp only [herase]

/-! ## Sections of projects -/

namespace ProjectRequest

/-- Whether the project is put on the feature branch, if there is one. -/
def takesBranch (p : ProjectRequest) : Bool := p.isSource && p.lacksRef

/-- The properties of the section of a project, in the order in which they are set. -/
def entries (featureBranch : Option String) (p : ProjectRequest) : List (String × String) :=
  p.settings ++ (p.testsUnit.map fun enabled => (Property.testsUnit, flagText enabled)).toList ++
    if p.takesBranch then (featureBranch.map fun branch => (Property.branch, branch)).toList else []

theorem foldl_set (l : List (String × String)) (s : Section) :
    l.foldl (fun (s : Section) e => s.set e.1 e.2) s =
      ⟨s.name, l.foldl (fun m e => m.insert e.1 e.2) s.properties⟩ := by
  induction l generalizing s with
  | nil => rfl
  | cons e l ih => rw [List.foldl_cons, ih, List.foldl_cons, Section.set]

theorem sectionOn_eq (featureBranch : Option String) (p : ProjectRequest) :
    p.sectionOn featureBranch = ⟨Text.trim p.name, .ofList (p.entries featureBranch)⟩ := by
  have hsection : p.toSection = ⟨Text.trim p.name, .ofList (p.settings ++
      (p.testsUnit.map fun enabled => (Property.testsUnit, flagText enabled)).toList)⟩ := by
    unfold toSection
    rw [foldl_set]
    cases p.testsUnit with
    | none => rw [Option.map_none, Option.toList_none, List.append_nil]; rfl
    | some enabled => rw [Option.map_some, Option.toList_some, OrderedMap.ofList_concat]; rfl
  cases featureBranch with
  | none => simp [sectionOn, entries, hsection]
  | some branch =>
    cases htakes : p.takesBranch with
    | false =>
      rw [takesBranch] at htakes
      simp [sectionOn, entries, hsection, htakes, takesBranch]
    | true =>
      rw [entries, htakes, if_pos rfl, Option.map_some, Option.toList_some,
        OrderedMap.ofList_concat]
      rw [takesBranch] at htakes
      rw [sectionOn, if_pos htakes, hsection, Section.set]

theorem name_sectionOn (featureBranch : Option String) (p : ProjectRequest) :
    (p.sectionOn featureBranch).name = Text.trim p.name := by
  rw [sectionOn_eq]

/-- A project has the settings of its fields that are not blank, trimmed. -/
theorem mem_settings_iff {p : ProjectRequest} {suffix v : String} : (suffix, v) ∈ p.settings ↔
    ∃ field, (suffix, field) ∈ [(Property.mode, p.mode), (Property.devMode, p.devMode),
        (Property.fork, p.fork), (Property.branch, p.branch), (Property.tag, p.tag)] ∧
      field.bind Text.trimmed? = some v := by
  rw [settings, List.mem_filterMap]
  constructor
  · rintro ⟨⟨suffix', field⟩, hfield, hsome⟩
    obtain ⟨v', hv, heq⟩ := Option.map_eq_some_iff.mp hsome
    cases heq
    exact ⟨field, hfield, hv⟩
  · rintro ⟨field, hfield, hv⟩
    exact ⟨(suffix, field), hfield, by rw [hv]; rfl⟩

theorem mem_settings {p : ProjectRequest} {e : String × String} (he : e ∈ p.settings) :
    e.1 ∈ [Property.mode, Property.devMode, Property.fork, Property.branch, Property.tag] ∧
      Text.trim e.2 = e.2 ∧ Text.isBlank e.2 = false := by
  obtain ⟨field, hfield, hv⟩ := mem_settings_iff.mp he
  obtain ⟨raw, -, htrim⟩ := Option.bind_eq_some_iff.mp hv
  obtain ⟨hblank, hvalue⟩ := Text.trimmed?_eq_some_iff.mp htrim
  rw [hvalue]
  refine ⟨?_, Text.trim_trim raw, by rw [Text.isBlank_trim, hblank]⟩
  have hsuffix := List.mem_map_of_mem (f := Prod.fst) hfield
  simpa using hsuffix

/-- A project without a reference has no branch among its settings. -/
theorem branch_not_mem_settings {p : ProjectRequest} (h : p.lacksRef = true) :
    Property.branch ∉ p.settings.map Prod.fst := by
  intro hmem
  obtain ⟨⟨suffix, v⟩, he, rfl⟩ := List.mem_map.mp hmem
  obtain ⟨field, hfield, hv⟩ := mem_settings_iff.mp he
  simp only [List.mem_cons, List.not_mem_nil, or_false, Prod.mk.injEq] at hfield
  rcases hfield with ⟨hne, -⟩ | ⟨hne, -⟩ | ⟨hne, -⟩ | ⟨-, rfl⟩ | ⟨hne, -⟩
  case inr.inr.inr.inl =>
    simp [lacksRef, hv] at h
  all_goals exact absurd hne (by decide)

theorem nodup_keys_concat {l : List (String × String)} {e : String × String}
    (hl : (l.map Prod.fst).Nodup) (he : e.1 ∉ l.map Prod.fst) :
    ((l ++ [e]).map Prod.fst).Nodup := by
  rw [List.map_append, List.map_singleton, List.nodup_append]
  refine ⟨hl, List.nodup_singleton _, ?_⟩
  rintro a ha b hb rfl
  rw [List.mem_singleton.mp hb] at ha
  exact he ha

theorem nodup_keys_entries (featureBranch : Option String) (p : ProjectRequest) :
    ((p.entries featureBranch).map Prod.fst).Nodup := by
  have hkeys : [Property.mode, Property.devMode, Property.fork, Property.branch,
      Property.tag].Nodup := by decide
  have hsettings : (p.settings.map Prod.fst).Nodup :=
    OrderedMap.nodup_keys_filterMap (f := fun field : Option String => field.bind Text.trimmed?)
      (l := [(Property.mode, p.mode), (Property.devMode, p.devMode), (Property.fork, p.fork),
        (Property.branch, p.branch), (Property.tag, p.tag)]) hkeys
  have htests : Property.testsUnit ∉ p.settings.map Prod.fst := by
    intro hmem
    obtain ⟨e, he, heq⟩ := List.mem_map.mp hmem
    have hknown := (mem_settings he).1
    rw [heq] at hknown
    exact absurd hknown (by decide)
  have hset : ∀ more, more = (p.testsUnit.map fun enabled =>
        (Property.testsUnit, flagText enabled)).toList →
      ((p.settings ++ more).map Prod.fst).Nodup ∧
        (p.lacksRef = true → Property.branch ∉ (p.settings ++ more).map Prod.fst) := by
    rintro more rfl
    cases p.testsUnit with
    | none =>
      rw [Option.map_none, Option.toList_none, List.append_nil]
      exact ⟨hsettings, branch_not_mem_settings⟩
    | some enabled =>
      refine ⟨nodup_keys_concat hsettings htests, fun hlacks hmem => ?_⟩
      rw [List.map_append, List.mem_append] at hmem
      rcases hmem with hmem | hmem
      · exact branch_not_mem_settings hlacks hmem
      · have hne : Property.branch ≠ Property.testsUnit := by decide
        exact hne (List.mem_singleton.mp hmem)
  obtain ⟨hnodup, hfree⟩ := hset _ rfl
  unfold entries
  cases htakes : p.takesBranch with
  | false => simpa using hnodup
  | true =>
    rw [takesBranch, Bool.and_eq_true] at htakes
    cases featureBranch with
    | none => simpa using hnodup
    | some branch => exact nodup_keys_concat hnodup (hfree htakes.2)

theorem toList_sectionOn (featureBranch : Option String) (p : ProjectRequest) :
    (p.sectionOn featureBranch).properties.toList = p.entries featureBranch := by
  rw [sectionOn_eq]
  exact OrderedMap.toList_ofList (p.nodup_keys_entries featureBranch)

/-- What a project sets is a known property, and its value is trimmed and not blank. -/
theorem mem_entries {featureBranch : Option String} {p : ProjectRequest}
    (hbranch : ∀ branch ∈ featureBranch, Text.trim branch = branch ∧ Text.isBlank branch = false)
    {e : String × String} (he : e ∈ p.entries featureBranch) :
    e.1 ∈ Property.known ∧ Text.trim e.2 = e.2 ∧ Text.isBlank e.2 = false := by
  rcases List.mem_append.mp he with he | he
  · rcases List.mem_append.mp he with he | he
    · obtain ⟨hsuffix, hvalue⟩ := mem_settings he
      refine ⟨?_, hvalue⟩
      revert hsuffix
      generalize e.1 = suffix
      revert suffix
      decide
    · rw [Option.mem_toList] at he
      obtain ⟨enabled, -, rfl⟩ := Option.map_eq_some_iff.mp he
      exact ⟨show Property.testsUnit ∈ _ by decide, trim_flagText enabled, isBlank_flagText enabled⟩
  · split at he
    · rw [Option.mem_toList] at he
      obtain ⟨branch, hb, rfl⟩ := Option.map_eq_some_iff.mp he
      exact ⟨show Property.branch ∈ _ by decide, hbranch branch hb⟩
    · cases he

end ProjectRequest

/-! ## Chains of requests -/

namespace ChainRequest

variable {featureBranch : Option String} {c c' : Chain}

/-- A project is accepted when it has a name that is not blank and not taken. -/
theorem addProject_ok {p : ProjectRequest} (h : addProject featureBranch c p = .ok c') :
    Text.isBlank p.name = false ∧ c.hasSection (Text.trim p.name) = false ∧
      c' = c.push (p.sectionOn featureBranch) := by
  simp only [addProject] at h
  split at h
  · cases h
  · rename_i hblank
    split at h
    · cases h
    · rename_i hnew
      cases h
      exact ⟨Bool.eq_false_iff.mpr hblank, Bool.eq_false_iff.mpr hnew, rfl⟩

theorem foldlM_addProject_ok {projects : List ProjectRequest}
    (h : projects.foldlM (addProject featureBranch) c = .ok c') (hdist : c.DistinctNames) :
    c'.DistinctNames ∧ (∀ p ∈ projects, Text.isBlank p.name = false) ∧ c' = { c with
      sections := c.sections ++ projects.map fun p => p.sectionOn featureBranch } := by
  induction projects generalizing c with
  | nil =>
    cases h
    exact ⟨hdist, by simp, by simp⟩
  | cons p projects ih =>
    rw [List.foldlM_cons] at h
    cases hp : addProject featureBranch c p with
    | error e =>
      rw [hp] at h
      cases h
    | ok c₁ =>
      rw [hp] at h
      obtain ⟨hblank, hnew, rfl⟩ := addProject_ok hp
      rw [← ProjectRequest.name_sectionOn featureBranch] at hnew
      obtain ⟨hdist', hblanks, rfl⟩ := ih h (Fixer.distinctNames_push hdist hnew)
      refine ⟨hdist', fun q hq => ?_, by simp [Chain.push]⟩
      rcases List.mem_cons.mp hq with rfl | hq
      · exact hblank
      · exact hblanks q hq

/-- The chain of an accepted request, before its sections are put into order. -/
def draft (r : ChainRequest) (featureBranch : Option String) : Chain where
  globals := ⟨r.version, r.devVersion, r.recipients⟩
  sections := r.projects.map fun p => p.sectionOn featureBranch
  flags := r.flags

/-- What it takes for a request to be accepted, and what it is made into then. -/
theorem chain_ok {r : ChainRequest} {o : Order} (h : r.chain o = .ok c) :
    ∃ featureBranch, r.trimmedBranch = .ok featureBranch ∧
      (r.draft featureBranch).DistinctNames ∧
      (∀ p ∈ r.projects, Text.isBlank p.name = false) ∧
      c = o.reorder (r.draft featureBranch) := by
  unfold chain at h
  cases hbranch : r.trimmedBranch with
  | error e =>
    rw [hbranch] at h
    cases h
  | ok featureBranch =>
    cases hadd : r.projects.foldlM (addProject featureBranch)
        { globals := ⟨r.version, r.devVersion, r.recipients⟩ } with
    | error e =>
      simp only [hbranch, hadd, bind, Except.bind] at h
      cases h
    | ok c₁ =>
      simp only [hbranch, hadd, bind, Except.bind, pure, Except.pure, Except.ok.injEq] at h
      obtain ⟨hdist, hblank, rfl⟩ := foldlM_addProject_ok hadd List.Pairwise.nil
      refine ⟨featureBranch, rfl, hdist, hblank, ?_⟩
      rw [← h, Chain.foldl_setFlag _ rfl rfl, OrderedMap.ofList_toList]
      rfl

/-! ## The sections of a generated chain -/

/-- What each project of a request sets, on the feature branch of the request. -/
def entries (r : ChainRequest) (p : ProjectRequest) : List (String × String) :=
  p.entries (r.featureBranch.map Text.trim)

variable {r : ChainRequest} {o : Order}

theorem trimmedBranch_ok {featureBranch : Option String}
    (h : r.trimmedBranch = .ok featureBranch) : featureBranch = r.featureBranch.map Text.trim ∧
      ∀ branch ∈ featureBranch, Text.trim branch = branch ∧ Text.isBlank branch = false := by
  unfold trimmedBranch at h
  split at h
  · rename_i hnone
    cases h
    exact ⟨by rw [hnone]; rfl, by simp⟩
  · rename_i branch hsome
    split at h
    · rename_i trimmed htrim
      obtain ⟨hblank, rfl⟩ := Text.trimmed?_eq_some_iff.mp htrim
      cases h
      refine ⟨by rw [hsome]; rfl, fun b hb => ?_⟩
      cases hb
      exact ⟨Text.trim_trim branch, by rw [Text.isBlank_trim, hblank]⟩
    · cases h

/-- The sections of a generated chain are those of the projects. -/
theorem mem_sections_chain (h : r.chain o = .ok c) {s : Section} : s ∈ c.sections ↔
    ∃ p ∈ r.projects, s.name = Text.trim p.name ∧ s.properties.toList = r.entries p := by
  obtain ⟨featureBranch, hbranch, -, -, rfl⟩ := chain_ok h
  obtain ⟨rfl, -⟩ := trimmedBranch_ok hbranch
  rw [Order.mem_sections_reorder, draft, List.mem_map]
  constructor
  · rintro ⟨p, hp, rfl⟩
    exact ⟨p, hp, ProjectRequest.name_sectionOn _ p, ProjectRequest.toList_sectionOn _ p⟩
  · rintro ⟨p, hp, hname, hentries⟩
    refine ⟨p, hp, ?_⟩
    obtain ⟨name, properties⟩ := s
    rw [ProjectRequest.sectionOn_eq, Section.mk.injEq]
    refine ⟨hname.symm, OrderedMap.ext ?_⟩
    rw [OrderedMap.toList_ofList (p.nodup_keys_entries _)]
    exact hentries.symm

theorem mem_entries (h : r.chain o = .ok c) {p : ProjectRequest} {e : String × String}
    (he : e ∈ r.entries p) :
    e.1 ∈ Property.known ∧ Text.trim e.2 = e.2 ∧ Text.isBlank e.2 = false := by
  obtain ⟨featureBranch, hbranch, -⟩ := chain_ok h
  obtain ⟨rfl, hvalues⟩ := trimmedBranch_ok hbranch
  exact ProjectRequest.mem_entries hvalues he

theorem distinctNames_chain (h : r.chain o = .ok c) : c.DistinctNames := by
  obtain ⟨featureBranch, -, hdist, -, rfl⟩ := chain_ok h
  exact Fixer.distinctNames_reorder hdist

end ChainRequest

end BuildChain
