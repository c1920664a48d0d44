import BuildChain.Json.Reading
import BuildChain.OrderedMap
import BuildChain.Text.Quoted

/-!
# Decoding records from JSON

A decoder turns a draft into a value of the library or names the first thing that is wrong with it,
in the order of the text. A record is an object of known members, in any order, or an array of its
fields in their order. Members nobody knows are passed over.
-/

namespace BuildChain.Json

/-! ## What can be wrong -/

inductive ShapeError
  /-- The text is no JSON. -/
  | malformed
  | missingField (name : String)
  | duplicateField (name : String)
  | wrongType (found wanted : String)
  | wrongValue (found wanted : String)
  | wrongLength (length : Nat) (wanted : String)
  /-- An array holds more items than its record has fields. -/
  | surplus (length : Nat)
  | unknownVariant (found : String) (known : List String)
deriving DecidableEq

namespace ShapeError

def tick (s : String) : String := "`" ++ s ++ "`"

def message : ShapeError → String
  | malformed => "malformed"
  | missingField name => "missing field " ++ tick name
  | duplicateField name => "duplicate field " ++ tick name
  | wrongType found wanted => "invalid type: " ++ found ++ ", expected " ++ wanted
  | wrongValue found wanted => "invalid value: " ++ found ++ ", expected " ++ wanted
  | wrongLength length wanted => "invalid length " ++ toString length ++ ", expected " ++ wanted
  | surplus length =>
    "invalid length " ++ toString length ++ ", expected fewer elements in array"
  | unknownVariant found known =>
    "unknown variant " ++ tick found ++ ", expected " ++
      String.intercalate " or " (known.map tick)

end ShapeError

abbrev Decoder (α : Type) := Draft → Except ShapeError α

namespace Number

def describe : Number → String
  | integer n => "integer " ++ ShapeError.tick (toString n)
  | real negative x =>
    "floating point " ++ ShapeError.tick ((if negative then "-" else "") ++ x.text)

end Number

namespace Draft

/-- What a draft is, in the words of a message. -/
def describe : Draft → String
  | null => "null"
  | bool b => "boolean " ++ ShapeError.tick (if b then "true" else "false")
  | number n => n.describe
  | string s => "string " ++ Text.quoted s
  | array _ _ => "sequence"
  | object _ _ => "map"
  | valueless => "nothing"
  | broken => "nothing"

/-- The complaint that something else is wanted, unless nothing could be read in the first place. -/
def mismatch (d : Draft) (wanted : String) : ShapeError :=
  match d with
  | broken => .malformed
  | valueless => .malformed
  | d => .wrongType d.describe wanted

end Draft

/-! ## Simple values -/

namespace Decoder

def text : Decoder String
  | .string s => .ok s
  | d => .error (d.mismatch "a string")

def boolean : Decoder Bool
  | .bool b => .ok b
  | d => .error (d.mismatch "a boolean")

def natural : Decoder Nat
  | .number (.integer n) =>
    if n < 0 then .error (.wrongValue (Number.integer n).describe "u64") else .ok n.toNat
  | d => .error (d.mismatch "u64")

/-- The draft itself. -/
def raw : Decoder Draft := .ok

def orNull {α : Type} (dec : Decoder α) : Decoder (Option α)
  | .null => .ok none
  | d => (dec d).map some

/-- Nothing is good that was not closed. -/
def onlyIfClosed {α : Type} (closed : Bool) (a : α) : Except ShapeError α :=
  if closed then .ok a else .error .malformed

def list {α : Type} (dec : Decoder α) : Decoder (List α)
  | .array items closed => do onlyIfClosed closed (← items.mapM dec)
  | d => .error (d.mismatch "a sequence")

def entry {α : Type} (dec : Decoder α) (m : Option String × Draft) :
    Except ShapeError (String × α) :=
  match m.1 with
  | some key => (dec m.2).map fun v => (key, v)
  | none => .error .malformed

def map {α : Type} (dec : Decoder α) : Decoder (OrderedMap α)
  | .object members closed => do
    onlyIfClosed closed (OrderedMap.ofList (← members.mapM (entry dec)))
  | d => .error (d.mismatch "a map")

/-- One of several named values, alone or as the only key of an object that holds nothing. -/
def variant {α : Type} (cases : List (String × α)) : Decoder α
  | .string s => pick s
  | .object ((some s, d) :: more) closed => do
    let a ← pick s
    match d with
    | .null => if closed && more.isEmpty then .ok a else .error .malformed
    | d => .error (d.mismatch "unit")
  | _ => .error .malformed
where
  pick (s : String) : Except ShapeError α :=
    match cases.lookup s with
    | some a => .ok a
    | none => .error (.unknownVariant s (cases.map Prod.fst))

end Decoder

/-! ## Records -/

inductive Presence
  /-- The field has to be there. -/
  | required
  /-- An object may leave the field out, an array may not. -/
  | optional
  /-- The field may be left out. -/
  | defaulted
deriving DecidableEq

structure RecordField (σ : Type) where
  name : String
  /-- Other names the field goes by. -/
  aliases : List String
  presence : Presence
  /-- Stores what the draft of the field holds. -/
  read : Draft → Except ShapeError (σ → σ)

namespace RecordField

variable {σ α : Type}

def required (name : String) (dec : Decoder α) (store : α → σ → σ) : RecordField σ :=
  ⟨name, [], .required, fun d => (dec d).map store⟩

def optional (name : String) (dec : Decoder α) (store : α → σ → σ) : RecordField σ :=
  ⟨name, [], .optional, fun d => (dec d).map store⟩

def defaulted (name : String) (dec : Decoder α) (store : α → σ → σ) : RecordField σ :=
  ⟨name, [], .defaulted, fun d => (dec d).map store⟩

def orCalled (f : RecordField σ) (names : List String) : RecordField σ := { f with aliases := names }

def isCalled (f : RecordField σ) (key : String) : Bool := f.name == key || f.aliases.contains key

end RecordField

structure Record (σ : Type) where
  title : String
  /-- The record before any of its fields is read. -/
  blank : σ
  fields : List (RecordField σ)

namespace Record

variable {σ : Type}

def wanted (r : Record σ) : String := "struct " ++ r.title

def wantedItems (r : Record σ) : String :=
  r.wanted ++ " with " ++ toString r.fields.length ++
    (if r.fields.length = 1 then " element" else " elements")

/-- Reads one member, given the names of the fields read before it. -/
def readMember (r : Record σ) (state : List String × σ) (m : Option String × Draft) :
    Except ShapeError (List String × σ) :=
  match m.1 with
  | none => .error .malformed
  | some key =>
    match r.fields.find? fun f => f.isCalled key with
    | none => if m.2.wellFormed then .ok state else .error .malformed
    | some f =>
      if state.1.contains f.name then .error (.duplicateField f.name)
      else (f.read m.2).map fun store => (f.name :: state.1, store state.2)

/-- The first field that has to be there and is not. -/
def missing? (r : Record σ) (seen : List String) : Option String :=
  (r.fields.find? fun f => decide (f.presence = .required) && !seen.contains f.name).map
    RecordField.name

def ofMembers (r : Record σ) (members : List (Option String × Draft)) (closed : Bool) :
    Except ShapeError σ := do
  let (seen, a) ← members.foldlM r.readMember ([], r.blank)
  let a ← Decoder.onlyIfClosed closed a
  match r.missing? seen with
  | some name => .error (.missingField name)
  | none => .ok a

/-- Reads the fields from the items in turn; `index` counts the items read so far. -/
def ofItemsFrom (r : Record σ) (closed : Bool) (total : Nat) :
    Nat → List (RecordField σ) → List Draft → σ → Except ShapeError σ
  | _, [], [], a => Decoder.onlyIfClosed closed a
  | _, [], _ :: _, _ => .error (.surplus total)
  | index, f :: fs, d :: ds, a => do
    let store ← f.read d
    ofItemsFrom r closed total (index + 1) fs ds (store a)
  | index, f :: fs, [], a =>
    if !closed then .error .malformed
    else if f.presence = .defaulted then ofItemsFrom r closed total (index + 1) fs [] a
    else .error (.wrongLength index r.wantedItems)

def ofItems (r : Record σ) (items : List Draft) (closed : Bool) : Except ShapeError σ :=
  r.ofItemsFrom closed items.length 0 r.fields items r.blank

def decode (r : Record σ) : Decoder σ
  | .object members closed => r.ofMembers members closed
  | .array items closed => r.ofItems items closed
  | d => .error (d.mismatch r.wanted)

end Record

/-! ## Whole texts -/

/-- Decodes a text that holds one value. Items too many in an array are a violation of the grammar
here, since the reader stops for the closing bracket. -/
def decodeText {α : Type} (dec : Decoder α) (text : String) : Except ShapeError α :=
  let r := read text
  match dec r.draft with
  | .ok a => if r.complete then .ok a else .error .malformed
  | .error (.surplus _) => .error .malformed
  | .error e => .error e

end BuildChain.Json
