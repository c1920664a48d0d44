import BuildChain.Text.Split

/-!
# Messages of rules

A rule words its message as a template. Four tokens in braces stand for the section, the property,
the value and the allowed values that the message speaks about.
-/

namespace BuildChain

/-- What a message speaks about. -/
structure Subject where
  name : Option String := none
  property : Option String := none
  value : Option String := none
  allowed : Option String := none
deriving DecidableEq

namespace Subject

/-- The tokens, in the order in which they are filled in. -/
def bindings (s : Subject) : List (String × Option String) :=
  [("\x7bSectionName\x7d", s.name), ("\x7bPropertyName\x7d", s.property),
    ("\x7bPropertyValue\x7d", s.value), ("\x7bAllowedValues\x7d", s.allowed)]

end Subject

namespace Message

/-- Fills in one token; a token that stands for nothing stays. -/
def fill (text : String) (binding : String × Option String) : String :=
  match binding.2 with
  | some value => Text.replaceAll binding.1 value text
  | none => text

/-- Fills in one token after the other, so a value that holds a later token has it filled in. -/
def render (template : Option String) (fallback : String) (s : Subject) : String :=
  s.bindings.foldl fill (template.getD fallback)

end Message

end BuildChain
