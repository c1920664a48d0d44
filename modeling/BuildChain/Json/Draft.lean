import BuildChain.Json.Binary64

/-!
# JSON as far as it could be read

A draft is the tree of a JSON text up to the first violation of the grammar. An array or object that
was not closed is the last thing in its draft, and what could not be read at all is `broken`. So a
reader that wants something else than what stands there can say so even when the text goes wrong
later on, and one that runs into the violation finds it in its place.
-/

namespace BuildChain.Json

/-- A number of the format: an integer from `-2 ^ 63` up to `2 ^ 64 - 1`, or a floating point
number. -/
inductive Number
  | integer (value : Int)
  | real (negative : Bool) (magnitude : Binary64)
deriving DecidableEq

inductive Draft
  | null
  | bool (b : Bool)
  | number (n : Number)
  | string (s : String)
  | array (items : List Draft) (closed : Bool)
  /-- A key is absent when it is a string token that stands for no text. -/
  | object (members : List (Option String × Draft)) (closed : Bool)
  /-- A token of good form without a value: a string with an unpaired surrogate, or a number out of
  range. -/
  | valueless
  | broken

namespace Draft

/-! ## Whether the text was good -/

mutual

/-- The grammar was kept. -/
def wellFormed : Draft → Bool
  | array items closed => closed && wellFormedItems items
  | object members closed => closed && wellFormedMembers members
  | broken => false
  | _ => true

def wellFormedItems : List Draft → Bool
  | [] => true
  | d :: ds => wellFormed d && wellFormedItems ds

def wellFormedMembers : List (Option String × Draft) → Bool
  | [] => true
  | (_, d) :: ms => wellFormed d && wellFormedMembers ms

end

mutual

/-- Every token has a value, and arrays and objects are nested at most `depth` deep. -/
def sound (depth : Nat) : Draft → Bool
  | array items closed =>
    match depth with
    | 0 => false
    | n + 1 => closed && soundItems n items
  | object members closed =>
    match depth with
    | 0 => false
    | n + 1 => closed && soundMembers n members
  | broken => false
  | valueless => false
  | _ => true

def soundItems (depth : Nat) : List Draft → Bool
  | [] => true
  | d :: ds => sound depth d && soundItems depth ds

def soundMembers (depth : Nat) : List (Option String × Draft) → Bool
  | [] => true
  | (key, d) :: ms => key.isSome && sound depth d && soundMembers depth ms

end

/-! ## Objects as maps -/

/-- The members in the order of their keys, each key with its last value. -/
def distinctMembers (members : List (Option String × Draft)) : List (Option String × Draft) :=
  let lastOnes := members.foldr (fun m acc =>
    if acc.any fun other => other.1 == m.1 then acc else m :: acc) []
  lastOnes.mergeSort fun a b => decide (a.1.getD "" ≤ b.1.getD "")

mutual

/-- The draft with every object held as a sorted map. -/
def mapped : Draft → Draft
  | array items closed => array (mappedItems items) closed
  | object members closed => object (distinctMembers (mappedMembers members)) closed
  | d => d

def mappedItems : List Draft → List Draft
  | [] => []
  | d :: ds => mapped d :: mappedItems ds

def mappedMembers : List (Option String × Draft) → List (Option String × Draft)
  | [] => []
  | (key, d) :: ms => (key, mapped d) :: mappedMembers ms

end

end Draft

end BuildChain.Json
