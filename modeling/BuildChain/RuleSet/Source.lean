import BuildChain.Directory
import BuildChain.RuleSet.OfText

/-!
# Where rules come from

Rules are the standard ones, or those of a rule document, or those of a file with a rule document; a
file that does not exist stands for the standard rules. A cache reads its source when it is first
asked and keeps what it read until it is cleared or made to read again.
-/

namespace BuildChain

/-! ## Sources -/

inductive RuleSource
  | standard
  | text (document : String)
  | file (path : String)
deriving DecidableEq

inductive RuleSourceError
  | unreadable (path : String) (cause : FileError)
  | unfit (cause : RuleSetError)
deriving DecidableEq

namespace RuleSourceError

def message : RuleSourceError → String
  | unreadable path cause => "io error reading rule configuration " ++ path ++ ": " ++ cause.message
  | unfit cause => cause.message

/-- The error and what caused it, in words. -/
def causes (e : RuleSourceError) : List String :=
  match e with
  | unreadable _ cause => [e.message, cause.message]
  | unfit .malformed => [e.message, Json.ShapeError.malformed.message]
  | unfit .noDocument => [e.message, RuleSetError.noDocumentMessage]
  | unfit _ => [e.message]

end RuleSourceError

namespace RuleSource

def ofDocument (text : String) : Except RuleSourceError RuleSet :=
  match RuleSet.ofText text with
  | .ok s => .ok s
  | .error e => .error (.unfit e)

def read (s : RuleSource) (d : Directory) : Except RuleSourceError RuleSet :=
  match s with
  | standard => .ok .standard
  | text document => ofDocument document
  | file path =>
    if !d.has path then .ok .standard
    else
      match d.readText path with
      | .ok document => ofDocument document
      | .error cause => .error (.unreadable path cause)

end RuleSource

/-! ## The cache -/

/-- A rule set as it was read, numbered in the order of the successful readings. -/
structure ReadRules where
  number : Nat
  rules : RuleSet
deriving DecidableEq

structure RuleCache where
  source : RuleSource
  /-- How often the source was read with success. -/
  readings : Nat := 0
  held : Option ReadRules := none
deriving DecidableEq

namespace RuleCache

def isLoaded (k : RuleCache) : Bool := k.held.isSome

/-- Reads the source again; if that fails the cache stays as it is. -/
def reload (k : RuleCache) (d : Directory) : RuleCache × Except RuleSourceError ReadRules :=
  match k.source.read d with
  | .error e => (k, .error e)
  | .ok s =>
    let held : ReadRules := ⟨k.readings, s⟩
    ({ k with readings := k.readings + 1, held := some held }, .ok held)

/-- What the cache holds, or what the source holds now if the cache is empty. -/
def load (k : RuleCache) (d : Directory) : RuleCache × Except RuleSourceError ReadRules :=
  match k.held with
  | some held => (k, .ok held)
  | none => k.reload d

def clear (k : RuleCache) : RuleCache := { k with held := none }

end RuleCache

end BuildChain
