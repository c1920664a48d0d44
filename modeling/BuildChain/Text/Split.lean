/-!
# Cutting a text in two

Each cut takes a list of characters apart at one place and reports failure when there is no such
place: at the first or the last occurrence of a character, after a given start, or before a given
end. `replaceAll` exchanges every occurrence of a token, from left to right and without overlap.
-/

namespace BuildChain.Text

/-- What stands before and after the first `sep`. -/
def splitFirst (sep : Char) (cs : List Char) : Option (List Char × List Char) :=
  match cs.dropWhile (· != sep) with
  | [] => none
  | _ :: rest => some (cs.takeWhile (· != sep), rest)

/-- What stands before and after the last `sep`. -/
def splitLast (sep : Char) (cs : List Char) : Option (List Char × List Char) :=
  (splitFirst sep cs.reverse).map fun parts => (parts.2.reverse, parts.1.reverse)

/-- What follows the given start. -/
def stripStart : List Char → List Char → Option (List Char)
  | [], cs => some cs
  | _ :: _, [] => none
  | p :: ps, c :: cs => if p = c then stripStart ps cs else none

/-- What stands before the given end. -/
def stripEnd (tail cs : List Char) : Option (List Char) :=
  (stripStart tail.reverse cs.reverse).map List.reverse

/-- The pieces between the occurrences of `sep`; there is one more of them than of `sep`. -/
def pieces (sep : Char) (cs : List Char) : List (List Char) :=
  cs.foldr (fun c acc =>
    if c = sep then [] :: acc
    else match acc with
      | [] => [[c]]
      | piece :: rest => (c :: piece) :: rest) [[]]

/-- Exchanges every occurrence of `token`; `skip` counts the characters of the last occurrence
that are still to be passed over. -/
def replaceFrom (token value : List Char) : Nat → List Char → List Char
  | _, [] => []
  | skip + 1, _ :: cs => replaceFrom token value skip cs
  | 0, c :: cs =>
    if token.isPrefixOf (c :: cs) then value ++ replaceFrom token value (token.length - 1) cs
    else c :: replaceFrom token value 0 cs

def replaceAll (token value text : String) : String :=
  String.ofList (replaceFrom token.toList value.toList 0 text.toList)

end BuildChain.Text
