import BuildChain.Proofs.Writer.Frame
import BuildChain.Proofs.Writer.WriteBack

/-!
# One line for a key

A key that has a line is written on that line, so single writes bring in no second line for a key. A
section that comes in as a whole is not looked up key by key; but whatever line has one of its keys,
in whatever case, leads to a section of its name, and a section is inserted only where there is
none.
-/

namespace BuildChain

open Document (assignments assigned sectionWrites writes Upserts DistinctKeys)

/-! ## Lists of assignments -/

/-- No two assignments have keys that differ in case at most. -/
def Document.SingleKeys (as : List Assignment) : Prop :=
  as.Pairwise fun x y => Text.sameName x.key y.key = false

instance (as : List Assignment) : Decidable (Document.SingleKeys as) :=
  inferInstanceAs (Decidable (as.Pairwise fun x y => Text.sameName x.key y.key = false))

namespace Document.SingleKeys

variable {as as' a b : List Assignment}

theorem iff_keys : SingleKeys as ↔
    (as.map Assignment.key).Pairwise fun k k' => Text.sameName k k' = false := by
  rw [List.pairwise_map, SingleKeys]

/-- New keys may come in anywhere. -/
theorem insert (h : SingleKeys (a ++ b)) {block : List Assignment} (hblock : SingleKeys block)
    (hnew : ∀ x ∈ block, ∀ y ∈ a ++ b, Text.sameName y.key x.key = false) :
    SingleKeys (a ++ block ++ b) := by
  have hperm : (block ++ (a ++ b)).Perm (a ++ block ++ b) := by
    rw [← List.append_assoc]
    exact List.perm_append_comm.append_right b
  have hsymm : ∀ {x y : Assignment}, Text.sameName x.key y.key = false →
      Text.sameName y.key x.key = false := fun hxy => by rwa [Text.sameName_comm]
  refine (hperm.pairwise_iff hsymm).mp (List.pairwise_append.mpr ⟨hblock, h, ?_⟩)
  intro x hx y hy
  rw [Text.sameName_comm]
  exact hnew x hx y hy

/-- A write changes no key, or it brings in a key that was not there. -/
theorem upserts (h : SingleKeys as) {key value : String} (hstep : Upserts key value as as') :
    SingleKeys as' := by
  cases hstep with
  | overwrite a b x hkey hact hlast => simpa [iff_keys] using h
  | enable a b x hkey hact hnone hlast => simpa [iff_keys] using h
  | add a b hnone =>
    have hone : SingleKeys [⟨key, value, true⟩] := List.pairwise_singleton _ _
    have hline := h.insert hone fun x hx y hy => by
      rw [List.mem_singleton.mp hx]
      exact hnone y hy
    rwa [List.append_assoc] at hline

theorem retire {doc : Document} (h : SingleKeys doc.assignments) (c : Chain) :
    SingleKeys (assignments (doc.map (Document.retire c))) :=
  iff_keys.mpr ((iff_keys.mp h).sublist (keys_retire_sublist c doc))

end Document.SingleKeys

/-! ## Chains with keys of their own -/

/-- Whatever the chain writes has its line, and no key of a section can be taken for another one of
the section, for a global setting or for a flag. -/
structure Chain.OwnsKeys (c : Chain) : Prop where
  lines : c.HasLines
  suffixes : ∀ s ∈ c.sections,
    s.properties.keys.Pairwise fun p p' => Text.sameName p p' = false
  not_global : ∀ s ∈ c.sections, Text.sameName s.name "global" = false
  not_flag : ∀ s ∈ c.sections, Text.sameName s.name "tests" = true →
    ∀ p ∈ s.properties.keys, ¬".run".toList <:+ Text.fold p

instance (c : Chain) : Decidable c.OwnsKeys :=
  decidable_of_iff
    (c.HasLines ∧
      (∀ s ∈ c.sections, s.properties.keys.Pairwise fun p p' => Text.sameName p p' = false) ∧
      (∀ s ∈ c.sections, Text.sameName s.name "global" = false) ∧
      ∀ s ∈ c.sections, Text.sameName s.name "tests" = true →
        ∀ p ∈ s.properties.keys, ¬".run".toList <:+ Text.fold p)
    ⟨fun ⟨h₁, h₂, h₃, h₄⟩ => ⟨h₁, h₂, h₃, h₄⟩, fun ⟨h₁, h₂, h₃, h₄⟩ => ⟨h₁, h₂, h₃, h₄⟩⟩

namespace Chain.OwnsKeys

variable {c : Chain} {s : Section}

theorem mem_keys_of_mem_written {e : String × String} (he : e ∈ s.written) :
    e.1 ∈ s.properties.keys := by
  obtain ⟨raw, hget, -, -⟩ := Section.mem_written.mp he
  exact OrderedMap.mem_keys_iff.mpr (Option.isSome_iff_exists.mpr ⟨raw, hget⟩)

theorem distinctKeys_sectionWrites (h : c.OwnsKeys) (hs : s ∈ c.sections) :
    DistinctKeys (sectionWrites s) := by
  rw [DistinctKeys, sectionWrites, List.pairwise_map]
  refine (List.pairwise_map.mp s.nodup_keys_written).imp_of_mem fun {e e'} he he' hne => ?_
  have hdot := (Route.ofKey_eq_property (h.lines.property_isKey hs he).2.2).2
  rw [← Bool.not_eq_true, Route.sameName_propertyKey_iff hdot hdot, not_and]
  intro _ hsame
  exact hne (Text.eq_of_sameName (f := fun p => p) (h.suffixes s hs) (mem_keys_of_mem_written he)
    (mem_keys_of_mem_written he') hsame)

/-- A line with the key of a section, in whatever case, is a line of a section of its name. -/
theorem exists_property (h : c.OwnsKeys) (hs : s ∈ c.sections) {e : String × String}
    (he : e ∈ sectionWrites s) {key : String} (hkey : Text.sameName key e.1 = true) :
    ∃ n p, Route.ofKey key = .property n p ∧ Text.sameName n s.name = true := by
  obtain ⟨e', he', rfl⟩ := List.mem_map.mp he
  exact Route.exists_property_of_sameName (h.lines.property_isKey hs he').2.2 (h.not_global s hs)
    (fun htests => h.not_flag s hs htests e'.1 (mem_keys_of_mem_written he')) hkey

end Chain.OwnsKeys

/-! ## Writing a chain -/

theorem Document.SingleKeys.update {c : Chain} {doc : Document} (h : SingleKeys doc.assignments)
    (hc : c.OwnsKeys) (hdoc : doc.Unbroken) (o : Order) :
    SingleKeys (Document.update o c doc).assignments := by
  obtain ⟨d, hupdate, -, hd⟩ := update_assignments (P := fun _ as => SingleKeys as) o hdoc
    hc.lines.makeLines h (fun _ _ _ _ _ hstep hold => hold.upserts hstep)
    (fun _ s a b hs _ hnone hold => by
      -- the keys of the block are new, since nothing leads to a section of its name
      refine hold.insert ?_ fun x hx y hy => ?_
      · exact List.pairwise_map.mpr (hc.distinctKeys_sectionWrites hs)
      · obtain ⟨e, he, rfl⟩ := List.mem_map.mp hx
        rw [← Bool.not_eq_true]
        intro hsame
        obtain ⟨n, p, hroute, hname⟩ := hc.exists_property hs he hsame
        have helse := hnone y hy p
        rw [hroute, Route.samePlace_property_iff.mpr ⟨hname, rfl⟩] at helse
        cases helse)
  rw [hupdate]
  exact hd.retire c

namespace Writer

open Document (SingleKeys)

/-- Writing a chain onto a text that has one line for a key leaves one line for a key, however often
the chain repeats names of sections and suites. -/
theorem singleKeys_renderOnto (w : Writer) {text : String} {c : Chain} (hc : c.OwnsKeys)
    (h : SingleKeys (assignments (Text.lines text))) :
    SingleKeys (assignments (Text.lines (w.renderOnto text c))) := by
  have hdoc : Document.Unbroken (Text.lines text) := fun l hl => Text.not_mem_of_mem_lines hl
  have hout : (Document.update w.order c (Text.lines text)).Unbroken :=
    Document.unbroken_update w.order
      (fun key value hw => (hc.lines.makeLines (key, value) (Document.mem_writes.mpr hw)).2) hdoc
  have hread : assignments (Text.lines (w.renderOnto text c)) =
      assignments (Document.update w.order c (Text.lines text)) :=
    filterMap_lines_assemble (fun l l' => Assignment.ofLine?_congr) rfl text _ hout
  rw [hread]
  exact h.update hc hdoc w.order

/-- Sections and suites in several spellings, a suite in both maps and a new section. -/
theorem singleKeys_renderOnto_spellings :
    let text := "olap.Mode=binary\n#OLAP.tag=1.0\ntests.Smoke.run=maybe\nGLOBAL.mode=source"
    let c : Chain := {
      globals := { version := some "20250" }
      sections := [⟨"OLAP", .ofList [("mode", "source"), ("Branch", "main")]⟩,
        ⟨"olap", .ofList [("MODE", "binary"), ("tag", "2.0")]⟩,
        ⟨"Tests", .ofList [("mode", "source"), ("extra", "on")]⟩]
      flags := .ofList [("smoke", true), ("SMOKE", false)]
      rawFlags := .ofList [("smoke", "maybe"), ("slow", "later")] }
    c.OwnsKeys ∧ SingleKeys (assignments (Text.lines text)) ∧
      SingleKeys (assignments (Text.lines (({} : Writer).renderOnto text c))) := by
  intro text c
  have hc : c.OwnsKeys := by decide +kernel
  have htext : SingleKeys (assignments (Text.lines text)) := by decide +kernel
  exact ⟨hc, htext, singleKeys_renderOnto {} hc htext⟩

end Writer

end BuildChain
