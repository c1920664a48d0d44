import BuildChain.Proofs.Chain.Place
import Mathlib.Data.List.Nodup

/-!
# Reading what a chain writes

The settings that a chain writes are read back one after the other: the global fields, each section
with all of its properties at once, the boolean flags and the others. What comes of it is the chain
without its blank values and empty sections, and with its values trimmed.
-/

namespace BuildChain

/-! ## Filling a map -/

namespace OrderedMap

variable {β : Type}

theorem ofList_append (entries more : List (String × β)) :
    ofList (entries ++ more) = more.foldl (fun m e => m.insert e.1 e.2) (ofList entries) :=
  List.foldl_append

theorem toList_ofList {entries : List (String × β)} (h : (entries.map Prod.fst).Nodup) :
    (ofList entries).toList = entries := by
  induction entries using List.reverseRecOn with
  | nil => rfl
  | append_singleton entries e ih =>
    rw [List.map_append, List.nodup_append] at h
    obtain ⟨hinit, -, hdisjoint⟩ := h
    have hnew : e.1 ∉ (ofList entries).keys := by
      rw [mem_keys_ofList]
      exact fun hmem => hdisjoint e.1 hmem e.1 (by simp) rfl
    rw [ofList_concat, toList_insert_of_not_mem hnew, ih hinit]

theorem ofList_toList (m : OrderedMap β) : ofList m.toList = m := ext (toList_ofList m.nodup_keys)

/-- Giving keys the values that they have changes nothing. -/
theorem ofList_append_of_get? {entries more : List (String × β)}
    (h : ∀ e ∈ more, (ofList entries).get? e.1 = some e.2) :
    ofList (entries ++ more) = ofList entries := by
  induction more using List.reverseRecOn with
  | nil => rw [List.append_nil]
  | append_singleton more e ih =>
    rw [← List.append_assoc, ofList_concat, ih fun e' he' => h e' (List.mem_append_left _ he')]
    exact insert_self (h e (by simp))

end OrderedMap

/-! ## Tidied chains -/

def Globals.tidied (g : Globals) : Globals :=
  ⟨g.version.bind Text.trimmed?, g.devVersion.bind Text.trimmed?, g.recipients.bind Text.trimmed?⟩

/-- The section with the properties that are written out, in the order of writing. -/
def Section.tidied (s : Section) : Section := ⟨s.name, .ofList s.written⟩

def Chain.writtenRawFlags (c : Chain) : List (String × String) :=
  c.rawFlags.toList.filterMap fun e => (Text.trimmed? e.2).map fun v => (e.1, v)

/-- The chain without its blank values and without the sections that have nothing else. -/
def Chain.tidied (c : Chain) : Chain where
  globals := c.globals.tidied
  sections := (c.sections.filter fun s => !s.written.isEmpty).map Section.tidied
  flags := c.flags
  rawFlags := .ofList c.writtenRawFlags

/-! ## One group of settings after the other -/

namespace Chain

theorem foldl_place_globals {l : List (String × String)} (hl : ∀ e ∈ l, e.1 ∈ GlobalKey.known)
    (c : Chain) : l.foldl (fun c e => place c e.1 e.2) c =
      { c with globals := l.foldl (fun g e => (g.set? e.1 e.2).getD g) c.globals } := by
  induction l generalizing c with
  | nil => rfl
  | cons e l ih =>
    obtain ⟨he, hl⟩ := List.forall_mem_cons.mp hl
    have hplace : place c e.1 e.2 =
        { c with globals := (c.globals.set? e.1 e.2).getD c.globals } := by
      rw [place, GlobalKey.ofKey_of_known he]
    rw [List.foldl_cons, hplace, ih hl]
    rfl

theorem foldl_set?_written (g : Globals) :
    g.written.foldl (fun g e => (g.set? e.1 e.2).getD g) {} = g.tidied := by
  unfold Globals.written Globals.entries Globals.tidied
  simp only [List.filterMap_cons, List.filterMap_nil]
  cases g.version.bind Text.trimmed? <;> cases g.devVersion.bind Text.trimmed? <;>
    cases g.recipients.bind Text.trimmed? <;> rfl

/-- A section that stands behind sections of other names is the one that is changed. -/
theorem modifySection_push {c : Chain} {s : Section} {name : String}
    (hnone : c.hasSection name = false) (hs : s.isNamed name = true) (f : Section → Section) :
    (c.push s).modifySection name f = c.push (f s) := by
  have hconcat : ∀ l : List Section, l.any (fun s => s.isNamed name) = false →
      modifyFirst (fun s => s.isNamed name) f (l ++ [s]) = l ++ [f s] := by
    intro l hl
    induction l with
    | nil => simp [modifyFirst, hs]
    | cons x l ih =>
      rw [List.any_cons, Bool.or_eq_false_iff] at hl
      simp [modifyFirst, hl.1, ih hl.2]
  simp only [modifySection, push, hconcat c.sections hnone]

/-- The properties of a section that is not there yet make up a section at the end. -/
theorem foldl_place_section {s : Section} (hroute : ∀ e ∈ s.written,
      Route.ofKey (Route.propertyKey s.name e.1) = .property s.name e.1)
    {c : Chain} (hnone : c.hasSection s.name = false) :
    (Document.sectionWrites s).foldl (fun c e => place c e.1 e.2) c =
      if s.written.isEmpty = true then c else c.push s.tidied := by
  have hmore : ∀ (l : List (String × String)) (m : OrderedMap String),
      (∀ e ∈ l, Route.ofKey (Route.propertyKey s.name e.1) = .property s.name e.1) →
      l.foldl (fun c e => place c (Route.propertyKey s.name e.1) e.2) (c.push ⟨s.name, m⟩) =
        c.push ⟨s.name, l.foldl (fun m e => m.insert e.1 e.2) m⟩ := by
    intro l
    induction l with
    | nil => exact fun _ _ => rfl
    | cons e l ih =>
      intro m hl
      obtain ⟨he, hl⟩ := List.forall_mem_cons.mp hl
      have hhas : (c.push ⟨s.name, m⟩).hasSection s.name = true := by
        simp [hasSection, push, Section.isNamed]
      have hplace : place (c.push ⟨s.name, m⟩) (Route.propertyKey s.name e.1) e.2 =
          c.push ⟨s.name, m.insert e.1 e.2⟩ := by
        rw [place, he]
        dsimp only
        rw [upsertSection, if_pos hhas]
        exact modifySection_push (s := ⟨s.name, m⟩) hnone (Text.sameName_refl s.name) _
      rw [List.foldl_cons, hplace, ih _ hl]
      rfl
  rw [Document.sectionWrites, List.foldl_map]
  cases hwritten : s.written with
  | nil => rfl
  | cons e rest =>
    rw [hwritten] at hroute
    obtain ⟨he, hrest⟩ := List.forall_mem_cons.mp hroute
    have hfirst : place c (Route.propertyKey s.name e.1) e.2 =
        c.push ⟨s.name, (∅ : OrderedMap String).insert e.1 e.2⟩ := by
      rw [place, he]
      dsimp only
      rw [upsertSection, hnone]
      rfl
    rw [List.foldl_cons, hfirst, hmore rest _ hrest, Section.tidied, hwritten]
    rfl

theorem foldl_place_sections {sections : List Section}
    (hroute : ∀ s ∈ sections, ∀ e ∈ s.written,
      Route.ofKey (Route.propertyKey s.name e.1) = .property s.name e.1)
    (hdist : sections.Pairwise fun s s' => Text.sameName s.name s'.name = false)
    {c : Chain} (hnone : c.sections = []) :
    (sections.flatMap Document.sectionWrites).foldl (fun c e => place c e.1 e.2) c =
      { c with sections := (sections.filter fun s => !s.written.isEmpty).map Section.tidied } := by
  induction sections using List.reverseRecOn with
  | nil => rw [List.flatMap_nil, List.foldl_nil, List.filter_nil, List.map_nil, ← hnone]
  | append_singleton sections s ih =>
    rw [List.pairwise_append] at hdist
    obtain ⟨hdist, -, hlast⟩ := hdist
    have hinit := ih (fun s hs => hroute s (List.mem_append_left _ hs)) hdist
    have hfree : Chain.hasSection { c with sections :=
        (sections.filter fun s => !s.written.isEmpty).map Section.tidied } s.name = false := by
      rw [hasSection, List.any_eq_false]
      intro t ht
      obtain ⟨s', hs', rfl⟩ := List.mem_map.mp ht
      rw [Section.isNamed, Section.tidied, hlast s' (List.mem_of_mem_filter hs') s (by simp)]
      exact Bool.false_ne_true
    rw [List.flatMap_append, List.foldl_append, hinit, List.flatMap_singleton,
      foldl_place_section (hroute s (by simp)) hfree, List.filter_append, List.map_append]
    cases hwritten : s.written.isEmpty with
    | true => simp [hwritten]
    | false => simp [hwritten, push]

theorem foldl_place_flags {l : List (String × Bool)}
    (hroute : ∀ e ∈ l, Route.ofKey (Route.flagKey e.1) = .flag e.1) (c : Chain) :
    (l.map fun e => (Route.flagKey e.1, flagText e.2)).foldl (fun c e => place c e.1 e.2) c =
      { c with flags := l.foldl (fun m e => m.insert e.1 e.2) c.flags } := by
  induction l generalizing c with
  | nil => rfl
  | cons e l ih =>
    obtain ⟨he, hl⟩ := List.forall_mem_cons.mp hroute
    have hplace : place c (Route.flagKey e.1) (flagText e.2) =
        { c with flags := c.flags.insert e.1 e.2 } := by
      rw [place, he, readFlag_flagText]
    rw [List.map_cons, List.foldl_cons, hplace, ih hl]
    rfl

theorem foldl_place_rawFlags {l : List (String × String)}
    (hroute : ∀ e ∈ l, Route.ofKey (Route.flagKey e.1) = .flag e.1)
    (hread : ∀ e ∈ l, readFlag e.2 = none) (c : Chain) :
    (l.map fun e => (Route.flagKey e.1, e.2)).foldl (fun c e => place c e.1 e.2) c =
      { c with rawFlags := l.foldl (fun m e => m.insert e.1 e.2) c.rawFlags } := by
  induction l generalizing c with
  | nil => rfl
  | cons e l ih =>
    obtain ⟨he, hl⟩ := List.forall_mem_cons.mp hroute
    obtain ⟨hread, hrest⟩ := List.forall_mem_cons.mp hread
    have hplace : place c (Route.flagKey e.1) e.2 =
        { c with rawFlags := c.rawFlags.insert e.1 e.2 } := by
      rw [place, he, hread]
    rw [List.map_cons, List.foldl_cons, hplace, ih hl hrest]
    rfl

/-! ## All settings -/

/-- The keys that a chain writes lead where they are meant to. -/
structure RoutesBack (c : Chain) : Prop where
  properties : ∀ s ∈ c.sections, ∀ e ∈ s.written,
    Route.ofKey (Route.propertyKey s.name e.1) = .property s.name e.1
  flags : ∀ e ∈ c.flags.toList, Route.ofKey (Route.flagKey e.1) = .flag e.1
  rawFlags : ∀ e ∈ c.writtenRawFlags, Route.ofKey (Route.flagKey e.1) = .flag e.1

theorem map_writtenFlags (c : Chain) :
    ((Document.writtenFlags c).map fun e => (Route.flagKey e.1, e.2)) =
      (c.flags.toList.map fun e => (Route.flagKey e.1, flagText e.2)) ++
        c.writtenRawFlags.map fun e => (Route.flagKey e.1, e.2) := by
  rw [Document.writtenFlags, List.map_append, List.map_map]
  rfl

theorem RoutesBack.ofKey_flagKey {c : Chain} (h : c.RoutesBack) {e : String × String}
    (he : e ∈ Document.writtenFlags c) : Route.ofKey (Route.flagKey e.1) = .flag e.1 := by
  rcases List.mem_append.mp he with he | he
  · obtain ⟨e, hflag, rfl⟩ := List.mem_map.mp he
    exact h.flags e hflag
  · exact h.rawFlags e he

/-- No two settings that are written have the same key, since they lead to different places. -/
theorem nodup_keys_writes {c : Chain} (hroutes : c.RoutesBack) (hdist : c.DistinctNames)
    (hsuites : ∀ suite ∈ c.flags.keys, suite ∉ c.rawFlags.keys) :
    ((Document.writes c).map Prod.fst).Nodup := by
  have hback : ∀ e ∈ Document.puts c, Route.ofKey e.1.key = e.1 := by
    intro e he
    rcases Document.mem_puts.mp he with ⟨e, hw, rfl⟩ | ⟨s, hs, e, hw, rfl⟩ | ⟨e, hw, rfl⟩
    · exact GlobalKey.ofKey_of_known (Globals.mem_known_of_mem_written hw)
    · exact hroutes.properties s hs e hw
    · exact hroutes.ofKey_flagKey hw
  rw [← Document.map_puts, List.map_map, List.Nodup, List.pairwise_map]
  refine (Document.distinct_puts hdist hsuites).imp_of_mem fun {e e'} he he' hplace hkey => ?_
  have hroute : Route.ofKey e.1.key = Route.ofKey e'.1.key := congrArg Route.ofKey hkey
  have hsame : e.1 = e'.1 := by rw [← hback e he, hroute, hback e' he']
  rw [hsame, Route.samePlace_refl] at hplace
  cases hplace

/-- What is read for the settings that a chain writes is the chain, tidied. -/
theorem ofSettings_writes {c : Chain} (hroutes : c.RoutesBack) (hdist : c.DistinctNames)
    (hsuites : ∀ suite ∈ c.flags.keys, suite ∉ c.rawFlags.keys)
    (hread : ∀ e ∈ c.writtenRawFlags, readFlag e.2 = none) :
    ofSettings (.ofList (Document.writes c)) = c.tidied := by
  have hsections : c.sections.Pairwise fun s s' => Text.sameName s.name s'.name = false :=
    List.pairwise_map.mp hdist
  rw [ofSettings, OrderedMap.toList_ofList (nodup_keys_writes hroutes hdist hsuites),
    Document.writes, map_writtenFlags, List.foldl_append, List.foldl_append, List.foldl_append,
    foldl_place_globals fun e he => Globals.mem_known_of_mem_written he, foldl_set?_written,
    foldl_place_sections hroutes.properties hsections rfl,
    foldl_place_flags hroutes.flags, foldl_place_rawFlags hroutes.rawFlags hread]
  have hflags := c.flags.ofList_toList
  rw [OrderedMap.ofList] at hflags
  simp only [tidied, OrderedMap.ofList]
  congr

end Chain

end BuildChain
