import BuildChain.Chain.Basic
import BuildChain.Json.Basic
import BuildChain.Json.Shape

/-!
# Chains as JSON

The text that a chain was read from is not part of its JSON.
-/

namespace BuildChain

open Json (Record)

namespace Globals

def json (g : Globals) : Json :=
  .object [("version", .text? g.version), ("dev_version", .text? g.devVersion),
    ("recipients", .text? g.recipients)]

def record : Record Globals where
  title := "GlobalSection"
  blank := {}
  fields := [
    .optional "version" (.orNull .text) fun v g => { g with version := v },
    .optional "dev_version" (.orNull .text) fun v g => { g with devVersion := v },
    .optional "recipients" (.orNull .text) fun v g => { g with recipients := v }]

end Globals

namespace OrderedMap

def json {α : Type} (value : α → Json) (m : OrderedMap α) : Json :=
  .object (m.toList.map fun e => (e.1, value e.2))

end OrderedMap

namespace Section

def json (s : Section) : Json :=
  .object [("name", .string s.name), ("properties", s.properties.json .string)]

def record : Record Section where
  title := "Section"
  blank := { name := "" }
  fields := [
    .required "name" .text fun v s => { s with name := v },
    .required "properties" (.map .text) fun v s => { s with properties := v }]

end Section

namespace Chain

def json (c : Chain) : Json :=
  .object [("global", c.globals.json), ("sections", .array (c.sections.map Section.json)),
    ("integration_tests", c.flags.json .bool), ("unparsed_test_flags", c.rawFlags.json .string)]

def record : Record Chain where
  title := "ChainModel"
  blank := {}
  fields := [
    .required "global" Globals.record.decode fun v c => { c with globals := v },
    .required "sections" (.list Section.record.decode) fun v c => { c with sections := v },
    .required "integration_tests" (.map .boolean) fun v c => { c with flags := v },
    .required "unparsed_test_flags" (.map .text) fun v c => { c with rawFlags := v }]

end Chain

end BuildChain
