import BuildChain.Chain.Basic

/-!
# The canonical order of projects

An order lists project names. Arranging a chain puts the sections with a canonical name first, by
the place of that name, and the others after them; sections of equal rank keep their order.
-/

namespace BuildChain

structure Order where
  names : List String
deriving DecidableEq

namespace Order

def standard : Order :=
  ⟨["framework", "repository", "olap", "modeling", "depmservice", "consolidation", "appengine",
    "designer", "dashboards", "appstudio", "officeinteg", "administration", "content",
    "deployment", "tests"]⟩

/-- The first place of a name, whatever its case. -/
def position? (o : Order) (name : String) : Option Nat :=
  o.names.findIdx? fun n => Text.sameName n name

def contains (o : Order) (name : String) : Bool := (o.position? name).isSome

/-- The names of the order that no section of the chain has. -/
def missing (o : Order) (c : Chain) : List String := o.names.filter fun n => !c.hasSection n

/-- The sections at each place of the order in turn, then those at none. -/
def arrange (o : Order) (sections : List Section) : List Section :=
  let ranked := sections.map fun s => (o.position? s.name, s)
  let placedAt (i : Option Nat) : List Section :=
    ranked.filterMap fun e => if e.1 == i then some e.2 else none
  ((List.range o.names.length).flatMap fun i => placedAt (some i)) ++ placedAt none

/-- Whether arranging leaves every name where it is. -/
def isOrdered (o : Order) (c : Chain) : Bool :=
  (o.arrange c.sections).map Section.name == c.sections.map Section.name

def reorder (o : Order) (c : Chain) : Chain := { c with sections := o.arrange c.sections }

/-! ## Arranging by positions -/

/-- Sorts by a key; elements of the same key keep their order. -/
def sortBy {α : Type} (key : α → Nat) (l : List α) : List α :=
  l.mergeSort fun x y => key x ≤ key y

/-- The positions in the sequence in which the sections are taken. -/
def positions (o : Order) (sections : List Section) : List Nat :=
  let ranked := sections.zipIdx.filterMap fun e => (o.position? e.1.name).map fun i => (i, e.2)
  let others := (sections.zipIdx.filter fun e => (o.position? e.1.name).isNone).map Prod.snd
  (sortBy Prod.fst ranked).map Prod.snd ++ others

/-- Takes what the slots hold, in the sequence of some positions. A slot is empty afterwards. -/
def takeSlots {α : Type} : List (Option α) → List Nat → List α
  | _, [] => []
  | slots, i :: rest =>
    match slots[i]?.join with
    | some x => x :: takeSlots (slots.set i none) rest
    | none => takeSlots slots rest

/-- Puts a chain into order by positions, unless every section stands where it should, and tells
whether one was moved. -/
def resequence (o : Order) (c : Chain) : Chain × Bool :=
  let positions := o.positions c.sections
  if positions.zipIdx.any fun e => e.1 != e.2 then
    ({ c with sections := takeSlots (c.sections.map some) positions }, true)
  else (c, false)

end Order

end BuildChain
