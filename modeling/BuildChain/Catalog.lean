import BuildChain.Json.Basic
import BuildChain.Json.Shape
import BuildChain.Order

/-!
# Catalogs

A catalog holds what rules and repairs look up: the canonical order, the known test suites, the
bands of build numbers that are in use and the values that a repair falls back to.
-/

namespace BuildChain

open Json (Record)

/-! ## Bands -/

/-- The build numbers from `min` to `max`, both included. -/
structure Band where
  name : String
  min : Nat
  max : Nat
deriving DecidableEq

namespace Band

def contains (b : Band) (n : Nat) : Bool := b.min ≤ n && n ≤ b.max

def text (b : Band) : String := b.name ++ " " ++ toString b.min ++ "-" ++ toString b.max

def standard : List Band :=
  [⟨"master", 1, 9999⟩, ⟨"integration", 10000, 19999⟩, ⟨"stage", 20000, 29999⟩,
    ⟨"development", 30000, 39999⟩, ⟨"local", 50000, 99999⟩]

/-- The first band whose bounds are the wrong way round. -/
def firstEmpty? (bands : List Band) : Option Band := bands.find? fun b => b.max < b.min

def json (b : Band) : Json :=
  .object [("name", .string b.name), ("min", .number b.min), ("max", .number b.max)]

def record : Record Band where
  title := "NumericBand"
  blank := ⟨"", 0, 0⟩
  fields := [
    .required "name" .text fun v b => { b with name := v },
    .required "min" .natural fun v b => { b with min := v },
    .required "max" .natural fun v b => { b with max := v }]

end Band

/-! ## Catalogs -/

structure Catalog where
  order : Order := .standard
  suites : List String := ["smoke", "regression", "api", "ui", "performance", "upgrade"]
  bands : List Band := Band.standard
  /-- The branch of a section that has neither branch nor tag. -/
  defaultBranch : String := "integration"
  defaultVersion : String := "20000"
  /-- The developer version of a chain that has no version at all. -/
  defaultDevVersion : String := "20000"
deriving DecidableEq

namespace Catalog

def bandFor? (c : Catalog) (n : Nat) : Option Band := c.bands.find? fun b => b.contains n

def isKnownSuite (c : Catalog) (suite : String) : Bool :=
  c.suites.any fun s => Text.sameName s suite

def json (c : Catalog) : Json :=
  .object [("canonicalOrder", .strings c.order.names), ("knownSuites", .strings c.suites),
    ("buildBands", .array (c.bands.map Band.json)), ("defaultBranch", .string c.defaultBranch),
    ("defaultBinaryVersion", .string c.defaultVersion),
    ("defaultDevVersion", .string c.defaultDevVersion)]

def record : Record Catalog where
  title := "ChainCatalog"
  blank := {}
  fields := [
    .defaulted "canonicalOrder" (.list .text) fun v c => { c with order := ⟨v⟩ },
    .defaulted "knownSuites" (.list .text) fun v c => { c with suites := v },
    .defaulted "buildBands" (.list Band.record.decode) fun v c => { c with bands := v },
    .defaulted "defaultBranch" .text fun v c => { c with defaultBranch := v },
    .defaulted "defaultBinaryVersion" .text fun v c => { c with defaultVersion := v },
    .defaulted "defaultDevVersion" .text fun v c => { c with defaultDevVersion := v }]

end Catalog

end BuildChain
