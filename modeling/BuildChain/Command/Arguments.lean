import BuildChain.Command.Basic
import BuildChain.Text.Numeral
import BuildChain.Text.Split

/-!
# Reading a command line

Arguments are read from left to right. An argument that starts with a dash is a switch, in its long
form or as a cluster of letters; the value of a switch is attached to it or is the next argument,
which must not look like a switch. All other arguments are words, and behind two dashes all are. The
first word is the name of the command; a few switches can stand before and after it.
-/

namespace BuildChain.Command

/-! ## Switches -/

/-- What the version switch prints. -/
def versionText : String := "chainctl 0.1.0\n"

/-- How reading can end before the end of the command line. -/
inductive Ending
  | usage
  | help
  | version
deriving DecidableEq

inductive Takes
  | nothing
  /-- A value, on a condition; a switch that cannot be repeated is given once. -/
  | value (accepts : String → Bool) (repeatable : Bool)
  /-- The switch ends the reading. -/
  | stop (e : Ending)

structure Switch where
  name : String
  letter : Option Char
  takes : Takes

namespace Switch

def flag (name : String) : Switch := ⟨name, none, .nothing⟩

def taking (name : String) (accepts : String → Bool) : Switch := ⟨name, none, .value accepts false⟩

def anyText (_ : String) : Bool := true

def isPath (s : String) : Bool := !s.isEmpty

def rules : Switch := taking "rules" isPath

def verbose : Switch := ⟨"verbose", some 'v', .nothing⟩

def help : Switch := ⟨"help", some 'h', .stop .help⟩

def version : Switch := ⟨"version", some 'V', .stop .version⟩

def dryRun : Switch := flag "dry-run"

def branch : Switch := taking "branch" anyText

def mode : Switch := taking "mode" fun v => (BuildMode.ofText? v).isSome

def forDevelopers : Switch := flag "dev"

def enabled : Switch := taking "enabled" fun v => v = flagText true || v = flagText false

def suite : Switch := ⟨"suite", none, .value anyText true⟩

def build : Switch := taking "build" fun v => (Text.readNumber v).isSome

def output : Switch := ⟨"output", some 'o', .value isPath false⟩

/-- The switches that can stand on either side of the command. -/
def everywhere : List Switch := [rules, verbose, help]

end Switch

/-! ## What is given -/

/-- The words and the switches of one side of a command line. -/
structure Given where
  words : List String := []
  /-- The name and the value of every switch; a switch without a value has an empty one. -/
  switches : List (String × String) := []

namespace Given

def value? (g : Given) (s : Switch) : Option String := g.switches.lookup s.name

def values (g : Given) (s : Switch) : List String :=
  (g.switches.filter fun e => e.1 = s.name).map Prod.snd

def has (g : Given) (s : Switch) : Bool := (g.value? s).isSome

end Given

/-! ## The commands -/

structure Form where
  name : String
  switches : List Switch
  /-- The least and the greatest number of words, if there is a greatest. -/
  least : Nat
  most : Option Nat
  /-- The command, if no switch that it needs is missing. -/
  build : Given → Option Command

/-- A command on one file and nothing else. -/
def fileForm (name : String) (switches : List Switch) (build : String → Given → Option Command) :
    Form :=
  ⟨name, switches, 1, some 1, fun g => g.words.head?.bind fun file => build file g⟩

/-- A command on one file and some sections of it. -/
def sectionsForm (name : String) (switches : List Switch) (least : Nat)
    (build : String → List String → Given → Option Command) : Form :=
  ⟨name, switches, 1 + least, none, fun g =>
    match g.words with
    | [] => none
    | file :: sections => build file sections g⟩

def forms : List Form :=
  [fileForm "validate" [] fun file _ => some (.validate file),
    fileForm "fix" [.dryRun] fun file g => some (.fix file (g.has .dryRun)),
    fileForm "reorder" [.dryRun] fun file g => some (.reorder file (g.has .dryRun)),
    sectionsForm "set-branch" [.branch, .dryRun] 1 fun file sections g =>
      (g.value? .branch).map fun branch => .setBranch file sections branch (g.has .dryRun),
    sectionsForm "set-mode" [.mode, .forDevelopers, .dryRun] 1 fun file sections g =>
      (g.value? .mode).map fun mode =>
        .setMode file sections mode (g.has .forDevelopers) (g.has .dryRun),
    sectionsForm "set-tests" [.enabled, .suite, .dryRun] 0 fun file sections g =>
      (g.value? .enabled).map fun v =>
        .setTests file sections (g.values .suite) (v = flagText true) (g.has .dryRun),
    fileForm "versions" [] fun file _ => some (.versions file),
    fileForm "rebase" [.build, .dryRun] fun file g =>
      ((g.value? .build).bind Text.readNumber).map fun build =>
        .rebase file build (g.has .dryRun),
    fileForm "generate" [.output] fun request g =>
      (g.value? .output).map fun output => .generate request output]

/-- What the help switch prints. -/
def usageText : String :=
  "Usage: chainctl [--rules <file>] [--verbose] <command> <file> ...\n\nCommands:\n" ++
    String.join (forms.map fun form => "  " ++ form.name ++ "\n")

/-! ## Reading -/

structure State where
  /-- The command, as soon as it is known. -/
  form : Option Form := none
  /-- What is given on the near side of the command. -/
  before : Given := {}
  /-- What is given on the side that is being read. -/
  given : Given := {}
  /-- The switch that waits for its value. -/
  pending : Option Switch := none
  /-- Whether all arguments are words from here on. -/
  wordsOnly : Bool := false
  /-- The names that help is asked for about, once it is asked for. -/
  topics : Option (List String) := none

namespace State

def switches (s : State) : List Switch :=
  match s.form with
  | some form => form.switches ++ Switch.everywhere
  | none => Switch.version :: Switch.everywhere

/-- Notes a switch and its value. -/
def record (s : State) (sw : Switch) (v : String) : Except Ending State :=
  let noted : State :=
    { s with
      given := { s.given with switches := s.given.switches ++ [(sw.name, v)] }
      pending := none }
  match sw.takes with
  | .stop e => .error e
  | .nothing => if s.given.has sw then .error .usage else .ok noted
  | .value accepts repeatable =>
    if !accepts v || (s.given.has sw && !repeatable) then .error .usage else .ok noted

/-- Reads the long form of a switch, behind its two dashes. -/
def readLong (s : State) (cs : List Char) : Except Ending State :=
  let name := String.ofList (cs.takeWhile (· != '='))
  match s.switches.find? fun sw => sw.name = name with
  | none => .error .usage
  | some sw =>
    match sw.takes, Text.splitFirst '=' cs with
    | .value _ _, some (_, v) => s.record sw (String.ofList v)
    | .value _ _, none => .ok { s with pending := some sw }
    | _, some _ => .error .usage
    | _, none => s.record sw ""

/-- Reads a cluster of letters, behind its dash; what follows the letter of a switch that takes a
value is that value. -/
def readLetters : State → List Char → Except Ending State
  | s, [] => .ok s
  | s, c :: cs =>
    match s.switches.find? fun sw => sw.letter = some c with
    | none => .error .usage
    | some sw =>
      match sw.takes, cs with
      | .value _ _, [] => .ok { s with pending := some sw }
      | .value _ _, '=' :: v => s.record sw (String.ofList v)
      | .value _ _, v => s.record sw (String.ofList v)
      | _, cs =>
        match s.record sw "" with
        | .error e => .error e
        | .ok s => readLetters s cs

/-- Where the name of a command is expected, this word asks for help about one or all of them. -/
def helpWord : String := "help"

/-- Reads what help is asked for about: at most one command. -/
def readTopic (s : State) (topics : List String) (arg : String) : Except Ending State :=
  if topics.isEmpty && (arg = helpWord || forms.any fun form => form.name = arg) then
    .ok { s with topics := some [arg] }
  else .error .usage

/-- Reads a word: the name of the command first, then a path, then what else the command takes. -/
def readWord (s : State) (word : String) : Except Ending State :=
  match s.form with
  | none =>
    if word = helpWord then .ok { s with topics := some [] }
    else
      match forms.find? fun form => form.name = word with
      | none => .error .usage
      | some form => .ok { form := some form, before := s.given }
  | some form =>
    let n := s.given.words.length
    if (n = 0 && !Switch.isPath word) || form.most = some n then .error .usage
    else .ok { s with given := { s.given with words := s.given.words ++ [word] } }

def looksLikeSwitch (arg : String) : Bool := arg.toList.head? = some '-' && arg != "-"

/-- Reads one argument. -/
def read (s : State) (arg : String) : Except Ending State :=
  match s.topics, s.pending with
  | some topics, _ => s.readTopic topics arg
  | none, some sw => if looksLikeSwitch arg then .error .usage else s.record sw arg
  | none, none =>
    if s.wordsOnly || !looksLikeSwitch arg then s.readWord arg
    else
      match arg.toList with
      | ['-', '-'] => if s.form.isSome then .ok { s with wordsOnly := true } else .error .usage
      | '-' :: '-' :: cs => s.readLong cs
      | cs => s.readLetters (cs.drop 1)

/-- The command line as a whole. -/
def finish (s : State) : Except Ending Invocation :=
  match s.form, s.pending with
  | none, none => .error (if s.topics.isSome then .help else .usage)
  | some form, none =>
    if s.given.words.length < form.least then .error .usage
    else
      match form.build s.given with
      | none => .error .usage
      | some command =>
        .ok ⟨(s.given.value? .rules).or (s.before.value? .rules), command⟩
  | _, _ => .error .usage

end State

/-- Reads the arguments of a command line. -/
def ofArguments (args : List String) : Except Ending Invocation :=
  match args.foldlM State.read {} with
  | .error e => .error e
  | .ok s => s.finish

end BuildChain.Command
