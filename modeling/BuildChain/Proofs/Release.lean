import BuildChain.Proofs.Edit
import BuildChain.Proofs.Text.Lines
import BuildChain.Proofs.Text.Numeral
import BuildChain.Proofs.Text.Split
import BuildChain.Release

/-!
# Moving a chain to another build

A tag is read as the parts that it is put together from, whatever stands in front of its last
underscore and however long its numerals are. So the tag that is put together with another build is
read with that build and with all other parts as they were, and a chain that was moved to a build
has no other build in its tags.
-/

namespace BuildChain

/-! ## Tags and their parts -/

namespace ReleaseTag

/-- A tag is made up of these parts, up to white space around it. -/
structure Spells (t : ReleaseTag) (tag : String) : Prop where
  text : Text.trimChars tag.toList =
    t.product ++ ['_'] ++ t.major ++ ['.'] ++ t.minor ++ ['.'] ++ t.build ++ ['.'] ++ t.patch
  /-- Major, minor, build and patch are non-empty runs of digits. -/
  numerals : ∀ n ∈ [t.major, t.minor, t.build, t.patch],
    n ≠ [] ∧ ∀ c ∈ n, 48 ≤ c.toNat ∧ c.toNat ≤ 57

variable {t t' : ReleaseTag} {tag : String}

def numerals (t : ReleaseTag) : List (List Char) := [t.major, t.minor, t.build, t.patch]

theorem chars_eq (t : ReleaseTag) :
    t.chars = t.product ++ '_' :: ['.'].intercalate t.numerals := by
  simp [chars, numerals, List.intercalate, List.intersperse]

theorem spells_iff : t.Spells tag ↔
    Text.trimChars tag.toList = t.chars ∧ t.numerals.all Text.isNumeral = true := by
  have htext : t.product ++ ['_'] ++ t.major ++ ['.'] ++ t.minor ++ ['.'] ++ t.build ++ ['.'] ++
      t.patch = t.chars := by simp [chars]
  have hnumerals : t.numerals.all Text.isNumeral = true ↔
      ∀ n ∈ [t.major, t.minor, t.build, t.patch],
        n ≠ [] ∧ ∀ c ∈ n, 48 ≤ c.toNat ∧ c.toNat ≤ 57 := by
    simp only [numerals, List.all_eq_true, Text.isNumeral_iff, Text.isDigit, Bool.and_eq_true,
      decide_eq_true_eq]
  rw [hnumerals, ← htext]
  exact ⟨fun h => ⟨h.text, h.numerals⟩, fun h => ⟨h.1, h.2⟩⟩

/-- No sign that is not a digit stands in a numeral. -/
theorem not_mem_numeral (h : t.numerals.all Text.isNumeral = true) {n : List Char}
    (hn : n ∈ t.numerals) {c : Char} (hc : Text.isDigit c = false) : c ∉ n := by
  intro hm
  have hdigit := (Text.isNumeral_iff.mp (List.all_eq_true.mp h n hn)).2 c hm
  rw [hc] at hdigit
  cases hdigit

theorem ofText?_eq_some_iff : ofText? tag = some t ↔ t.Spells tag := by
  rw [spells_iff]
  constructor
  · intro h
    unfold ofText? at h
    split at h
    · cases h
    · rename_i product version hcut
      split at h
      · rename_i major minor build patch hpieces
        split at h
        · rename_i hall
          cases h
          have hversion := Text.intercalate_pieces '.' version
          rw [hpieces] at hversion
          rw [(Text.splitLast_eq_some hcut).1, ← hversion, chars_eq]
          exact ⟨rfl, hall⟩
        · cases h
      · cases h
  · rintro ⟨htext, hall⟩
    have hdots : ∀ n ∈ t.numerals, '.' ∉ n := fun n hn => not_mem_numeral hall hn (by decide)
    have hpieces : Text.pieces '.' (['.'].intercalate t.numerals) = t.numerals :=
      Text.pieces_intercalate (List.cons_ne_nil _ _) hdots
    -- the version holds digits and points only, so the underscore in front of it is the last one
    have hscore : '_' ∉ ['.'].intercalate t.numerals := by
      have hnone := fun n hn => not_mem_numeral hall (n := n) hn (c := '_') (by decide)
      simp only [numerals, List.mem_cons, List.not_mem_nil, or_false, forall_eq_or_imp,
        forall_eq] at hnone
      simp [numerals, List.intercalate, List.intersperse, hnone]
    unfold ofText?
    rw [htext, chars_eq, Text.splitLast_append _ hscore]
    dsimp only
    rw [hpieces]
    exact if_pos hall

/-! ## Another build -/

theorem head?_chars (t : ReleaseTag) : t.chars.head? = some (t.product.headD '_') := by
  cases h : t.product <;> simp [chars, h]

/-- The parts of a tag, with another build among them, make up a tag again. -/
theorem spells_withBuild (h : t.Spells tag) (build : Nat) :
    (t.withBuild build).Spells (t.withBuild build).text := by
  obtain ⟨htext, hall⟩ := spells_iff.mp h
  have hall' : (t.withBuild build).numerals.all Text.isNumeral = true := by
    simp only [numerals, List.all_cons, List.all_nil, Bool.and_true, Bool.and_eq_true] at hall ⊢
    exact ⟨hall.1, hall.2.1, Text.isNumeral_toString build, hall.2.2.2⟩
  have htight : Text.Tight (t.withBuild build).chars := by
    constructor
    · intro c hc
      refine (Text.tight_trimChars tag.toList).head c ?_
      rw [head?_chars] at hc
      rw [htext, head?_chars]
      exact hc
    · intro c hc
      obtain ⟨hne, hdigits⟩ := Text.isNumeral_iff.mp
        (List.all_eq_true.mp hall t.patch (by simp [numerals]))
      have hend : (t.withBuild build).chars.getLast? = t.patch.getLast? := by
        have hcut : (t.withBuild build).chars = (t.product ++ '_' :: (t.major ++ '.' :: (t.minor ++
            '.' :: ((toString build).toList ++ ['.'])))) ++ t.patch := by
          simp [chars, withBuild]
        rw [hcut, List.getLast?_append_of_ne_nil _ hne]
      exact Text.isSpace_of_isDigit (hdigits c (List.mem_of_getLast? (hend ▸ hc)))
  rw [spells_iff, text, String.toList_ofList]
  exact ⟨htight.trimChars_eq, hall'⟩

end ReleaseTag

/-! ## Sections -/

namespace Release

open ReleaseTag (Spells)

/-- The parts of the release tag of a section. -/
def tagOf? (s : Section) : Option ReleaseTag := (s.get? Property.tag).bind ReleaseTag.ofText?

variable {s : Section} {t : ReleaseTag} {build : Nat}

theorem tagOf?_eq_some_iff :
    tagOf? s = some t ↔ ∃ tag, s.get? Property.tag = some tag ∧ t.Spells tag := by
  simp only [tagOf?, Option.bind_eq_some_iff, ReleaseTag.ofText?_eq_some_iff]

theorem rebasedTag?_eq (build : Nat) (s : Section) :
    rebasedTag? build s = (tagOf? s).map fun t => (t.withBuild build).text := by
  rw [rebasedTag?, tagOf?, Option.map_bind]
  rfl

theorem rebaseSection_of_some (h : tagOf? s = some t) (build : Nat) :
    rebaseSection build s = s.set Property.tag (t.withBuild build).text := by
  rw [rebaseSection, rebasedTag?_eq, h]
  rfl

theorem rebaseSection_of_none (h : tagOf? s = none) (build : Nat) : rebaseSection build s = s := by
  rw [rebaseSection, rebasedTag?_eq, h]
  rfl

/-- The tag of a moved section has the parts that it had, and the new build. -/
theorem tagOf?_rebaseSection (build : Nat) (s : Section) :
    tagOf? (rebaseSection build s) = (tagOf? s).map fun t => t.withBuild build := by
  cases h : tagOf? s with
  | none => rw [rebaseSection_of_none h, h, Option.map_none]
  | some t =>
    obtain ⟨tag, -, hspells⟩ := tagOf?_eq_some_iff.mp h
    rw [rebaseSection_of_some h, Option.map_some, tagOf?_eq_some_iff]
    exact ⟨_, by rw [Section.get?_set, if_pos rfl], ReleaseTag.spells_withBuild hspells build⟩

/-- The last of two moves counts. -/
theorem rebaseSection_rebaseSection (build build' : Nat) (s : Section) :
    rebaseSection build' (rebaseSection build s) = rebaseSection build' s := by
  have hmoved := tagOf?_rebaseSection build s
  cases h : tagOf? s with
  | none => rw [rebaseSection_of_none h]
  | some t =>
    rw [h, Option.map_some] at hmoved
    rw [rebaseSection_of_some hmoved, rebaseSection_of_some h, rebaseSection_of_some h,
      Section.set_set]
    rfl

/-- The sections whose tag is written anew are those with another tag afterwards. -/
theorem isRewritten_eq (build : Nat) (s : Section) : isRewritten build s =
    decide ((rebaseSection build s).get? Property.tag ≠ s.get? Property.tag) := by
  unfold isRewritten
  cases h : tagOf? s with
  | none => simp [rebasedTag?_eq, rebaseSection_of_none h, h]
  | some t =>
    rw [rebaseSection_of_some h, Section.get?_set, if_pos rfl, rebasedTag?_eq, h, Option.map_some]
    rw [Bool.eq_iff_iff, bne_iff_ne, decide_eq_true_iff, ne_comm]

/-! ## Builds of a chain -/

/-- The builds that are listed are those of the release tags. -/
theorem build_sectionVersion? (s : Section) : (sectionVersion? s).bind SectionVersion.build =
    (tagOf? s).bind fun t => Text.readDigits t.build := by
  unfold sectionVersion? tagOf?
  cases s.get? Property.tag with
  | none => rfl
  | some tag =>
    have htrim : ReleaseTag.ofText? (Text.trim tag) = ReleaseTag.ofText? tag := by
      rw [ReleaseTag.ofText?, ReleaseTag.ofText?, Text.toList_trim, Text.trimChars_trimChars]
    rw [Option.bind_some, Option.bind_some, Text.trimmed?]
    cases hblank : Text.isBlank tag with
    | false =>
      rw [if_neg Bool.false_ne_true, Option.map_some, Option.bind_some, buildNumber?, htrim]
    | true =>
      have hnone : ReleaseTag.ofText? tag = none := by
        rw [ReleaseTag.ofText?, Text.isBlank_iff.mp hblank]
        rfl
      rw [if_pos rfl, hnone]
      rfl

theorem distinct_replicate (n a : Nat) : distinct (List.replicate (n + 1) a) = [a] := by
  induction n with
  | zero => rfl
  | succ n ih =>
    rw [List.replicate_succ, List.replicate_succ, distinct, if_pos rfl, ← List.replicate_succ, ih]

/-- Builds that are all the same are listed once. -/
theorem builds_of_all_eq {v : Summary} {build : Nat}
    (hall : ∀ n ∈ v.sections.filterMap SectionVersion.build, n = build) :
    v.builds = if v.sections.filterMap SectionVersion.build = [] then [] else [build] := by
  have hsorted : ((v.sections.filterMap SectionVersion.build).mergeSort fun a b => decide (a ≤ b)) =
      List.replicate (v.sections.filterMap SectionVersion.build).length build := by
    rw [List.eq_replicate_iff]
    refine ⟨List.length_mergeSort _, fun n hn => hall n ?_⟩
    exact (List.mergeSort_perm _ _).mem_iff.mp hn
  rw [Summary.builds, hsorted]
  split
  · rename_i hnil
    rw [hnil]
    rfl
  · rename_i hne
    obtain ⟨n, hn⟩ := Nat.exists_eq_succ_of_ne_zero fun hzero =>
      hne (List.eq_nil_of_length_eq_zero hzero)
    rw [hn, distinct_replicate]

/-! ## A chain before and after -/

/-- The tag of the section is a release tag. -/
def IsReleased (s : Section) : Prop :=
  ∃ tag t, s.get? Property.tag = some tag ∧ Spells t tag

/-- A section before and after the move of its chain to a build. -/
structure Moves (build : Nat) (s s' : Section) : Prop where
  keeps : Edit.Keeps [Property.tag] s s'
  /-- A release tag keeps all its parts but the build. -/
  released : ∀ tag t, s.get? Property.tag = some tag → Spells t tag →
    ∃ tag', s'.get? Property.tag = some tag' ∧
      Spells { t with build := (toString build).toList } tag' ∧ buildNumber? tag' = some build
  other : ¬IsReleased s → s' = s

/-- A chain before and after its move to a build, and how many of its tags are different. -/
structure Rebased (build : Nat) (c c' : Chain) (n : Nat) : Prop where
  rest : c' = { c with
    globals := { c.globals with version := some (toString build) }
    sections := c'.sections }
  each : List.Forall₂ (Moves build) c.sections c'.sections
  count : n = ((c.sections.zip c'.sections).filter fun e =>
    e.1.get? Property.tag ≠ e.2.get? Property.tag).length
  builds : (∃ s ∈ c.sections, IsReleased s) → (summary c').builds = [build]
  noBuilds : (¬∃ s ∈ c.sections, IsReleased s) → (summary c').builds = []

theorem isReleased_iff : IsReleased s ↔ ∃ t, tagOf? s = some t := by
  simp only [IsReleased, tagOf?_eq_some_iff]
  exact exists_comm

theorem moves_rebaseSection (hbuild : build < Text.buildLimit) (s : Section) :
    Moves build s (rebaseSection build s) := by
  cases h : tagOf? s with
  | none =>
    rw [rebaseSection_of_none h]
    have hnot : ¬IsReleased s := by simp [isReleased_iff, h]
    exact ⟨Edit.Keeps.refl _ s, fun tag t hget hspells => absurd ⟨tag, t, hget, hspells⟩ hnot,
      fun _ => rfl⟩
  | some t =>
    rw [rebaseSection_of_some h]
    constructor
    case keeps => exact (Edit.Keeps.refl _ s).set (by simp) id _
    case released =>
      intro tag t' hget hspells
      have ht : tagOf? s = some t' := tagOf?_eq_some_iff.mpr ⟨tag, hget, hspells⟩
      rw [h, Option.some.injEq] at ht
      subst ht
      have hmoved := ReleaseTag.spells_withBuild hspells build
      refine ⟨_, by rw [Section.get?_set, if_pos rfl], hmoved, ?_⟩
      rw [buildNumber?, ReleaseTag.ofText?_eq_some_iff.mpr hmoved]
      exact Text.readDigits_toString hbuild
    case other => exact fun hnot => absurd (isReleased_iff.mpr ⟨t, h⟩) hnot

/-- Every release tag of a moved chain has the build it was moved to. -/
theorem mem_builds_rebase (hbuild : build < Text.buildLimit) (c : Chain) (n : Nat) :
    n ∈ (summary (rebase c build).1).sections.filterMap SectionVersion.build ↔
      n = build ∧ ∃ s ∈ c.sections, IsReleased s := by
  have hread (s : Section) : (sectionVersion? (rebaseSection build s)).bind SectionVersion.build =
      (tagOf? s).map fun _ => build := by
    rw [build_sectionVersion?, tagOf?_rebaseSection]
    cases tagOf? s with
    | none => rfl
    | some t => exact Text.readDigits_toString hbuild
  simp only [summary, rebase, List.filterMap_filterMap, List.mem_filterMap, isReleased_iff]
  constructor
  · rintro ⟨s', hs', hn⟩
    obtain ⟨s, hs, rfl⟩ := List.mem_map.mp hs'
    rw [hread] at hn
    obtain ⟨t, ht, rfl⟩ := Option.map_eq_some_iff.mp hn
    exact ⟨rfl, s, hs, t, ht⟩
  · rintro ⟨rfl, s, hs, t, ht⟩
    exact ⟨_, List.mem_map_of_mem hs, by rw [hread, ht]; rfl⟩

theorem rebased_rebase (hbuild : build < Text.buildLimit) (c : Chain) :
    Rebased build c (rebase c build).1 (rebase c build).2 := by
  have hall : ∀ n ∈ (summary (rebase c build).1).sections.filterMap SectionVersion.build,
      n = build := fun n hn => ((mem_builds_rebase hbuild c n).mp hn).1
  constructor
  case rest => rfl
  case each =>
    rw [rebase, List.forall₂_map_right_iff, List.forall₂_same]
    exact fun s _ => moves_rebaseSection hbuild s
  case count =>
    rw [rebase, Edit.length_filter_zip_map]
    refine congrArg List.length (List.filter_congr fun s _ => ?_)
    rw [isRewritten_eq]
    simp only [ne_comm]
  case builds =>
    intro hreleased
    rw [builds_of_all_eq hall]
    exact if_neg (List.ne_nil_of_mem ((mem_builds_rebase hbuild c build).mpr ⟨rfl, hreleased⟩))
  case noBuilds =>
    intro hnone
    rw [builds_of_all_eq hall]
    refine if_pos (List.eq_nil_iff_forall_not_mem.mpr fun n hn => ?_)
    exact hnone ((mem_builds_rebase hbuild c n).mp hn).2

theorem rebase_rebase_fst (c : Chain) (build build' : Nat) :
    (rebase (rebase c build).1 build').1 = (rebase c build').1 := by
  simp only [rebase, List.map_map, Function.comp_def, rebaseSection_rebaseSection]

/-- A chain that was moved to a build is not changed by moving it there again. -/
theorem rebase_again (c : Chain) (build : Nat) :
    rebase (rebase c build).1 build = ((rebase c build).1, 0) := by
  refine Prod.ext (rebase_rebase_fst c build build) (List.length_eq_zero_iff.mpr ?_)
  refine List.filter_eq_nil_iff.mpr fun s' hs' => ?_
  obtain ⟨s, -, rfl⟩ := List.mem_map.mp hs'
  rw [isRewritten_eq, rebaseSection_rebaseSection]
  simp

/-- Moving a chain to a build moves the version and every release tag to it and changes nothing
else. Moving it there again changes nothing at all, and of two moves the second one counts. -/
theorem rebase_moves {build : Nat} (hbuild : build < Text.buildLimit) (build' : Nat) (c : Chain) :
    Rebased build c (rebase c build).1 (rebase c build).2 ∧
      rebase (rebase c build).1 build = ((rebase c build).1, 0) ∧
      (rebase (rebase c build).1 build').1 = (rebase c build').1 :=
  ⟨rebased_rebase hbuild c, rebase_again c build, rebase_rebase_fst c build build'⟩

theorem rebase_moves_mixed_tags :
    let c : Chain := {
      globals := { version := some "1", recipients := some "qa" }
      sections := [
        ⟨"olap", .ofList [("mode", "binary"),
          ("tag", " My_Proj 2.5_01.0.99999999999999999999.007\t")]⟩,
        ⟨"tests", .ofList [("tag", "nightly")]⟩, ⟨"content", .ofList [("tag", "_1.2.21000.3")]⟩] }
    21000 < Text.buildLimit ∧ Rebased 21000 c (rebase c 21000).1 1 ∧
      ((rebase c 21000).1.get? "olap" "tag") = some "My_Proj 2.5_01.0.21000.007" ∧
      (rebase (rebase c 21000).1 7).1 = (rebase c 7).1 :=
  ⟨by decide, (rebase_moves (by decide) 7 _).1, by decide +kernel,
    (rebase_moves (by decide) 7 _).2.2⟩

end Release

end BuildChain
