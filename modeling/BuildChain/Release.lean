import BuildChain.Chain.Basic
import BuildChain.Text.Numeral
import BuildChain.Text.Split

/-!
# Release tags

A release tag ends in `_`, four numerals and the points between them; the third numeral is the build
number, which a chain shares with its global version. Rebasing moves the version and all release
tags of a chain to another build.
-/

namespace BuildChain

/-! ## Tags -/

structure ReleaseTag where
  /-- What stands before the last underscore. -/
  product : List Char
  major : List Char
  minor : List Char
  build : List Char
  patch : List Char
deriving DecidableEq

namespace ReleaseTag

def ofText? (tag : String) : Option ReleaseTag :=
  match Text.splitLast '_' (Text.trimChars tag.toList) with
  | none => none
  | some (product, version) =>
    match Text.pieces '.' version with
    | [major, minor, build, patch] =>
      if [major, minor, build, patch].all Text.isNumeral then
        some ⟨product, major, minor, build, patch⟩
      else none
    | _ => none

def chars (t : ReleaseTag) : List Char :=
  t.product ++ '_' :: (t.major ++ '.' :: (t.minor ++ '.' :: (t.build ++ '.' :: t.patch)))

def text (t : ReleaseTag) : String := String.ofList t.chars

def withBuild (t : ReleaseTag) (build : Nat) : ReleaseTag :=
  { t with build := (toString build).toList }

end ReleaseTag

namespace Release

/-- The build number of a release tag, if it is small enough to be one. -/
def buildNumber? (tag : String) : Option Nat :=
  (ReleaseTag.ofText? tag).bind fun t => Text.readDigits t.build

/-- The release tag with another build. -/
def rebaseTag? (tag : String) (build : Nat) : Option String :=
  (ReleaseTag.ofText? tag).map fun t => (t.withBuild build).text

/-! ## Versions of a chain -/

/-- A section with a tag, and the build if the tag is a release tag. -/
structure SectionVersion where
  sectionName : String
  tag : String
  build : Option Nat
deriving DecidableEq

structure Summary where
  version : Option String
  devVersion : Option String
  sections : List SectionVersion
deriving DecidableEq

def sectionVersion? (s : Section) : Option SectionVersion :=
  ((s.get? Property.tag).bind Text.trimmed?).map fun tag => ⟨s.name, tag, buildNumber? tag⟩

def summary (c : Chain) : Summary :=
  ⟨c.globals.version, c.globals.devVersion, c.sections.filterMap sectionVersion?⟩

/-- A sorted list without the repetitions of its elements. -/
def distinct : List Nat → List Nat
  | a :: b :: rest => if a = b then distinct (b :: rest) else a :: distinct (b :: rest)
  | l => l

/-- The builds of the tagged sections, each once and in ascending order. -/
def Summary.builds (s : Summary) : List Nat :=
  distinct ((s.sections.filterMap SectionVersion.build).mergeSort fun a b => decide (a ≤ b))

/-! ## Rebasing -/

/-- The tag of a section after the move to another build, if it is a release tag. -/
def rebasedTag? (build : Nat) (s : Section) : Option String :=
  (s.get? Property.tag).bind fun tag => rebaseTag? tag build

def rebaseSection (build : Nat) (s : Section) : Section :=
  match rebasedTag? build s with
  | some tag => s.set Property.tag tag
  | none => s

def isRewritten (build : Nat) (s : Section) : Bool :=
  match rebasedTag? build s with
  | some tag => s.get? Property.tag != some tag
  | none => false

/-- Moves the version and every release tag to a build, and counts the tags that change. -/
def rebase (c : Chain) (build : Nat) : Chain × Nat :=
  ({ c with
      globals := { c.globals with version := some (toString build) }
      sections := c.sections.map (rebaseSection build) },
    (c.sections.filter (isRewritten build)).length)

end Release

end BuildChain
