import BuildChain.Catalog
import BuildChain.Report.Basic
import BuildChain.Rule.Standard

/-!
# Repairs

A repair changes one property of the section that an issue names, one global version, or the flag of
one suite. It gives the changed chain, or nothing when there is nothing left to do, or the reason
why it cannot deal with the issue. In place it changes the chain that it is given, and tells whether
it has.
-/

namespace BuildChain

/-! ## What a repair does -/

inductive Repair
  | setProperty (suffix value : String)
  | removeProperty (suffix : String)
  /-- Sets one of the two global versions. -/
  | setGlobal (key value : String)
  /-- Sets the global version that the issue is about to the value kept for it. -/
  | resetVersion (version devVersion : String)
  /-- Gives a chain without a developer version its version, or the fallback. -/
  | fillDevVersion (fallback : String)
  | setFlag (enabled : Bool)
deriving DecidableEq

inductive RepairError
  | sectionNotFound (name : String)
  | noSection (ruleId : String)
  | noTarget (ruleId : String)
  | unsupported (target : String)
deriving DecidableEq

namespace RepairError

def message : RepairError → String
  | sectionNotFound name => "section not found: " ++ name
  | noSection id => "issue from rule '" ++ id ++ "' has no section"
  | noTarget id => "issue from rule '" ++ id ++ "' has no target"
  | unsupported target => "cannot repair target '" ++ target ++ "'"

end RepairError

namespace Repair

/-! ## Carrying a repair out -/

/-- The section that an issue names, and its name. -/
def sectionOf (c : Chain) (i : Issue) : Except RepairError (String × Section) :=
  match i.sectionName with
  | none => .error (.noSection i.ruleId)
  | some name =>
    match c.section? name with
    | some s => .ok (name, s)
    | none => .error (.sectionNotFound name)

def targetOf (i : Issue) : Except RepairError String :=
  match i.target with
  | some target => .ok target
  | none => .error (.noTarget i.ruleId)

/-- Gives a global version a value that it does not have yet. -/
def setVersion (c : Chain) (key value : String) : Except RepairError (Option Chain) :=
  if key = GlobalKey.version then
    if c.globals.version = some value then .ok none
    else .ok (some { c with globals := { c.globals with version := some value } })
  else if key = GlobalKey.devVersion then
    if c.globals.devVersion = some value then .ok none
    else .ok (some { c with globals := { c.globals with devVersion := some value } })
  else .error (.unsupported key)

def apply (r : Repair) (c : Chain) (i : Issue) : Except RepairError (Option Chain) :=
  match r with
  | setProperty suffix value => do
    let (name, s) ← sectionOf c i
    if s.get? suffix = some value then return none
    return some (c.modifySection name fun s => s.set suffix value)
  | removeProperty suffix => do
    let (name, s) ← sectionOf c i
    if (s.get? suffix).isNone then return none
    return some (c.modifySection name fun s => s.erase suffix)
  | setGlobal key value => setVersion c key value
  | resetVersion version devVersion => do
    let key ← targetOf i
    setVersion c key (if key = GlobalKey.version then version else devVersion)
  | fillDevVersion fallback =>
    if (c.globals.versionAt? GlobalKey.devVersion).isSome then .ok none
    else
      let value := ((c.globals.versionAt? GlobalKey.version).map Text.trim).getD fallback
      .ok (some { c with globals := { c.globals with devVersion := some value } })
  | setFlag enabled => do
    let suite ← targetOf i
    if !c.rawFlags.contains suite && c.flags.get? suite = some enabled then return none
    return some (c.setFlag suite enabled)

/-! ## Repairing in place -/

/-- What repairs a chain in place and tells whether it changed it, or why it cannot, and leaves what
it has done either way. -/
abbrev Repairing := EStateM RepairError Chain

/-- The first section of the name that an issue gives, and where it stands. -/
def locate (i : Issue) : Repairing (Section × Nat) := do
  match i.sectionName with
  | none => throw (.noSection i.ruleId)
  | some name =>
    match (← get).sections.zipIdx.find? fun e => e.1.isNamed name with
    | some e => return e
    | none => throw (.sectionNotFound name)

def exchange (k : Nat) (s : Section) : Repairing Unit :=
  modify fun c => { c with sections := c.sections.set k s }

def askTarget (i : Issue) : Repairing String :=
  match i.target with
  | some target => return target
  | none => throw (.noTarget i.ruleId)

/-- Stores a version, unless it is stored already. -/
def storeVersion (key value : String) : Repairing Bool := do
  let c ← get
  if key = GlobalKey.version then
    if c.globals.version = some value then return false
    set { c with globals := { c.globals with version := some value } }
    return true
  else if key = GlobalKey.devVersion then
    if c.globals.devVersion = some value then return false
    set { c with globals := { c.globals with devVersion := some value } }
    return true
  else throw (.unsupported key)

def inPlace (r : Repair) (i : Issue) : Repairing Bool :=
  match r with
  | setProperty suffix value => do
    let (s, k) ← locate i
    if s.get? suffix = some value then return false
    exchange k (s.set suffix value)
    return true
  | removeProperty suffix => do
    let (s, k) ← locate i
    exchange k (s.erase suffix)
    return (s.get? suffix).isSome
  | setGlobal key value => storeVersion key value
  | resetVersion version devVersion => do
    let key ← askTarget i
    storeVersion key (if key = GlobalKey.version then version else devVersion)
  | fillDevVersion fallback => do
    let c ← get
    if (c.globals.versionAt? GlobalKey.devVersion).isSome then return false
    let value := ((c.globals.versionAt? GlobalKey.version).map Text.trim).getD fallback
    set { c with globals := { c.globals with devVersion := some value } }
    return true
  | setFlag enabled => do
    let suite ← askTarget i
    let c ← get
    set (c.setFlag suite enabled)
    return c.rawFlags.contains suite || c.flags.get? suite != some enabled

/-! ## Default repairs -/

open Rule (StandardId)

/-- The repairs of the standard rules. Missing sections have none: they are added all at once. -/
def defaults (cat : Catalog) : OrderedMap Repair :=
  .ofList [
    (StandardId.requiredMode.text, setProperty Property.mode BuildMode.source.text),
    (StandardId.validMode.text, setProperty Property.mode BuildMode.source.text),
    (StandardId.validDevMode.text, setProperty Property.devMode BuildMode.binary.text),
    (StandardId.branchTagExclusive.text, removeProperty Property.tag),
    (StandardId.branchOrTagRequired.text, setProperty Property.branch cat.defaultBranch),
    (StandardId.forkFormat.text, removeProperty Property.fork),
    (StandardId.globalVersionWhenBinary.text, setGlobal GlobalKey.version cat.defaultVersion),
    (StandardId.buildNumberRange.text, resetVersion cat.defaultVersion cat.defaultDevVersion),
    (StandardId.integrationTests.text, setFlag false),
    (StandardId.globalDevVersionRequired.text, fillDevVersion cat.defaultDevVersion)]

end Repair

end BuildChain
