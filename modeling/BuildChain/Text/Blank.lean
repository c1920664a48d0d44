/-!
# White space and trimming

White space is the Unicode property `White_Space`, twenty-five characters. Trimming, blankness and
indentation are defined on lists of characters and lifted to strings through `String.toList`.
-/

namespace BuildChain.Text

/-- The characters of the property `White_Space`. -/
def isSpace (c : Char) : Bool :=
  let n := c.toNat
  (9 ≤ n && n ≤ 13) || n == 0x20 || n == 0x85 || n == 0xA0 || n == 0x1680 ||
    (0x2000 ≤ n && n ≤ 0x200A) || n == 0x2028 || n == 0x2029 || n == 0x202F || n == 0x205F ||
    n == 0x3000

def trimStartChars (cs : List Char) : List Char := cs.dropWhile isSpace

def trimEndChars (cs : List Char) : List Char := (cs.reverse.dropWhile isSpace).reverse

def trimChars (cs : List Char) : List Char := trimEndChars (trimStartChars cs)

def trim (s : String) : String := String.ofList (trimChars s.toList)

def trimStart (s : String) : String := String.ofList (trimStartChars s.toList)

/-- A text is blank when it holds white space only; the empty text is blank. -/
def isBlank (s : String) : Bool := s.toList.all isSpace

/-- The white space a text starts with. -/
def indent (s : String) : String := String.ofList (s.toList.takeWhile isSpace)

/-- The trimmed text, if anything is left of it. -/
def trimmed? (s : String) : Option String := if isBlank s then none else some (trim s)

@[simp] theorem toList_trim (s : String) : (trim s).toList = trimChars s.toList := by
  simp [trim]

@[simp] theorem toList_trimStart (s : String) :
    (trimStart s).toList = trimStartChars s.toList := by
  simp [trimStart]

@[simp] theorem toList_indent (s : String) :
    (indent s).toList = s.toList.takeWhile isSpace := by
  simp [indent]

/-- The indentation and the rest make up the text. -/
theorem indent_append_trimStart (s : String) : indent s ++ trimStart s = s := by
  apply String.toList_inj.mp
  simp [trimStartChars, List.takeWhile_append_dropWhile]

end BuildChain.Text
