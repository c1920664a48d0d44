import BuildChain.Command.Perform
import BuildChain.Proofs.Directory
import BuildChain.Proofs.Writer.Page

/-!
# What a command does to the files

A command writes once at most, and nothing can fail after that. So a command that fails leaves all
files as they were, and one that comes through changes no file but the one that it is about. A dry
run shows the text that the same command writes when it is none.
-/

namespace BuildChain

/-! ## Texts with a time in them -/

namespace Writer

/-- Two texts that are the same, but for the times in the headers of fresh files. -/
def SameButTime (time time' text text' : String) : Prop :=
  text = text' ∨ ∃ rest, text = title ++ "\n# Generated " ++ time ++ "\n" ++ rest ∧
    text' = title ++ "\n# Generated " ++ time' ++ "\n" ++ rest

/-- A fresh file starts with its title and its time, and nothing below depends on the time. -/
theorem exists_renderFresh (o : Order) (c : Chain) : ∃ rest, ∀ time,
    renderFresh ⟨o, some time⟩ c = title ++ "\n# Generated " ++ time ++ "\n" ++ rest := by
  obtain ⟨below, hbelow⟩ : ∃ below, ∀ time,
      ((blocks ⟨o, some time⟩ c).filter fun b => !b.isEmpty).map (String.intercalate "\n") =
        String.intercalate "\n" [title, "# Generated " ++ time] :: below :=
    ⟨((blocks ⟨o, none⟩ c).tail.filter fun b => !b.isEmpty).map (String.intercalate "\n"),
      fun _ => rfl⟩
  have hheader : ∀ time, String.intercalate "\n" [title, "# Generated " ++ time] =
      title ++ "\n# Generated " ++ time := by
    intro time
    have hgap : "\n# Generated " = "\n" ++ "# Generated " := rfl
    rw [String.intercalate_cons_of_ne_nil (by simp), String.intercalate_singleton, hgap]
    simp only [String.append_assoc]
  cases below with
  | nil =>
    refine ⟨"", fun time => ?_⟩
    rw [renderFresh, hbelow, hheader, String.intercalate_singleton, String.append_empty]
  | cons b bs =>
    refine ⟨"\n" ++ String.intercalate "\n\n" (b :: bs) ++ "\n", fun time => ?_⟩
    have hgap : "\n\n" = "\n" ++ "\n" := rfl
    rw [renderFresh, hbelow, hheader, String.intercalate_cons_of_ne_nil (by simp)]
    generalize String.intercalate "\n\n" (b :: bs) = text
    rw [hgap]
    simp only [String.append_assoc]

theorem sameButTime_render (o : Order) (time time' : String) (c : Chain) :
    SameButTime time time' (render ⟨o, some time⟩ c) (render ⟨o, some time'⟩ c) := by
  unfold render
  split
  · exact .inl rfl
  · obtain ⟨rest, hrest⟩ := exists_renderFresh o c
    exact .inr ⟨rest, hrest time, hrest time'⟩

end Writer

namespace Command

theorem readText_of_readChain {d : Directory} {file : String} {c : Chain}
    (h : readChain d file = .ok c) : ∃ text, d.readText file = .ok text := by
  have hread : ChainFile.read ChainFile.maxSize d file = .ok c := by
    unfold readChain at h
    split at h
    · cases h
      assumption
    · cases h
  have hany : ChainFile.readAny d file = .ok c := by
    unfold ChainFile.read at hread
    split at hread
    · cases hread
    · split at hread
      · cases hread
      · split at hread
        · cases hread
        · exact hread
  unfold ChainFile.readAny at hany
  split at hany
  · cases hany
  · split at hany
    · exact ⟨_, ‹_›⟩
    · cases hany

theorem chainFile_write_eq_ok {w : Writer} {d d' : Directory} {file : String} {c : Chain}
    (h : ChainFile.write w d file c = .ok d') :
    ∃ p, d.locate file = .ok p ∧ d' = d.put p (.file (w.render c).toUTF8) := by
  unfold ChainFile.write at h
  split at h
  · rename_i hwrite
    cases h
    exact Directory.write_eq_ok hwrite
  · cases h

/-! ## Running actions -/

namespace Action

theorem run_look_bind {α β : Type} (f : Directory → Except Failure α) (g : α → Action β)
    (world : World) : (look f >>= g).run world =
      match f world.directory with
      | .ok a => (g a).run world
      | .error e => .error e world := by
  have hlook : (look f).run world = match f world.directory with
      | .ok a => .ok a world
      | .error e => .error e world := by
    simp only [look, EStateM.run_bind, EStateM.run_get]
    cases f world.directory <;> rfl
  rw [EStateM.run_bind, hlook]
  cases f world.directory <;> rfl

theorem run_save (w : Writer) (file : String) (c : Chain) (failure : ChainFileError → Failure)
    (world : World) : (save w file c failure).run world =
      match ChainFile.write w world.directory file c with
      | .ok d => .ok () { world with directory := d }
      | .error e => .error (failure e) world := by
  rw [save, run_look_bind]
  cases ChainFile.write w world.directory file c <;> rfl

theorem run_finish_dry (b : Workbench) (file : String) (c : Chain) (summary : Json)
    (world : World) : (finish b file c true summary).run world = .ok (!(b.validate c).hasErrors)
      { world with output := world.output ++ b.render c } := rfl

theorem run_finish (b : Workbench) (file : String) (c : Chain) (summary : Json) (world : World) :
    (finish b file c false summary).run world =
      match ChainFile.write b.writer world.directory file c with
      | .ok d => .ok (!(b.validate c).hasErrors) ⟨d, world.output ++ print summary⟩
      | .error e => .error (.writing file e) world := by
  simp only [finish, Bool.false_eq_true, if_false, EStateM.run_bind, run_save]
  cases ChainFile.write b.writer world.directory file c <;> rfl

end Action

/-! ## Actions and outcomes -/

/-- How an action ends in a world if it is to end like a run. -/
def ending (world : World) : Except Failure Outcome → EStateM.Result Failure World Bool
  | .ok out => .ok out.clean ⟨out.directory, world.output ++ out.output⟩
  | .error f => .error f world

namespace Action

theorem run_finish_eq (b : Workbench) (file : String) (c : Chain) (dryRun : Bool) (summary : Json)
    (world : World) : (finish b file c dryRun summary).run world =
      ending world (Command.finish b world.directory file c dryRun summary) := by
  cases dryRun with
  | true => rfl
  | false =>
    rw [run_finish, Command.finish]
    cases ChainFile.write b.writer world.directory file c <;> rfl

theorem run_edit_eq (b : Workbench) (file : String) (dryRun : Bool)
    (change : Chain → Except EditError (Chain × Json)) (world : World) :
    (edit b file dryRun change).run world =
      ending world (readChain world.directory file >>= fun c =>
        match change c with
        | .error e => .error (.edit e)
        | .ok (c, summary) => Command.finish b world.directory file c dryRun summary) := by
  rw [edit, run_look_bind]
  cases readChain world.directory file with
  | error f => rfl
  | ok c =>
    dsimp only
    rw [run_look_bind]
    cases hchange : change c with
    | error e => simp [hchange, Except.mapError, bind, Except.bind, ending]
    | ok r => simp [hchange, Except.mapError, bind, Except.bind, run_finish_eq]

theorem run_count_eq (b : Workbench) (file : String) (dryRun : Bool)
    (change : Chain → Except EditError (Chain × Nat)) (summary : Nat → Json) (world : World) :
    (count b file dryRun change summary).run world =
      ending world (edited b world.directory file dryRun change summary) := by
  rw [count, run_edit_eq, edited]
  congr 2
  funext c
  cases change c <;> rfl

end Action

open BuildChain.Command.Action in
/-- Carried out as an action, a command ends as its run says, and a failure changes nothing. -/
theorem run_perform (b : Workbench) (c : Command) (world : World) :
    (c.perform b).run world = ending world (c.run b world.directory) := by
  cases c with
  | validate file =>
    rw [perform, Action.validate, run_look_bind, run, runValidate]
    cases readChain world.directory file <;> rfl
  | fix file dryRun => exact run_edit_eq b file dryRun _ world
  | reorder file dryRun => exact run_edit_eq b file dryRun _ world
  | setBranch file sections branch dryRun => exact run_count_eq b file dryRun _ _ world
  | setMode file sections mode forDevelopers dryRun => exact run_count_eq b file dryRun _ _ world
  | setTests file sections suites enabled dryRun =>
    rw [perform, Action.setTests, run, runSetTests]
    split
    · rfl
    · exact run_count_eq b file dryRun _ _ world
  | versions file =>
    rw [perform, Action.versions, run_look_bind, run, runVersions]
    cases readChain world.directory file <;> rfl
  | rebase file build dryRun => exact run_edit_eq b file dryRun _ world
  | generate request output =>
    rw [perform, Action.generate, run_look_bind, run, runGenerate]
    cases world.directory.readText request with
    | error e => rfl
    | ok text =>
      dsimp only [Except.mapError]
      rw [run_look_bind]
      cases ChainRequest.ofText text with
      | error e => rfl
      | ok r =>
        dsimp only [Except.mapError]
        rw [run_look_bind]
        cases r.chain b.order with
        | error e => rfl
        | ok c =>
          dsimp only [Except.mapError]
          rw [EStateM.run_bind, run_save]
          cases ChainFile.write b.writer world.directory output c <;> rfl

/-! ## What changes -/

/-- The file that a command changes, if it changes any. -/
def target? : Command → Option String
  | validate _ | versions _ => none
  | fix file dryRun | reorder file dryRun | setBranch file _ _ dryRun | setMode file _ _ _ dryRun
  | setTests file _ _ _ dryRun | rebase file _ dryRun => if dryRun then none else some file
  | generate _ output => some output

def isDryRun : Command → Bool
  | fix _ dryRun | reorder _ dryRun | setBranch _ _ _ dryRun | setMode _ _ _ _ dryRun
  | setTests _ _ _ _ dryRun | rebase _ _ dryRun => dryRun
  | _ => false

/-- The same command, not as a dry run. -/
def forReal : Command → Command
  | fix file _ => fix file false
  | reorder file _ => reorder file false
  | setBranch file sections branch _ => setBranch file sections branch false
  | setMode file sections mode forDevelopers _ => setMode file sections mode forDevelopers false
  | setTests file sections suites enabled _ => setTests file sections suites enabled false
  | rebase file build _ => rebase file build false
  | c => c

/-- An outcome in which at most the file at the end of a path is another one. -/
def Confined (d : Directory) (target : Option String) (out : Outcome) : Prop :=
  out.directory = d ∨ ∃ path p bytes, target = some path ∧ d.locate path = .ok p ∧
    out.directory = d.put p (.file bytes)

theorem Confined.locate_of_ne {d : Directory} {target : Option String} {out : Outcome}
    (h : Confined d target out) {place : Place}
    (hplace : out.directory.node? place ≠ d.node? place) :
    ∃ path, target = some path ∧ d.locate path = .ok place := by
  rcases h with hsame | ⟨path, p, bytes, htarget, hlocate, hput⟩
  · exact absurd (by rw [hsame]) hplace
  · rw [hput, Directory.node?_put] at hplace
    by_cases hp : place = p
    · exact ⟨path, htarget, hp ▸ hlocate⟩
    · exact absurd (if_neg hp) hplace

theorem bind_eq_ok {ε α β : Type} {x : Except ε α} {f : α → Except ε β} {r : β}
    (h : (x >>= f) = .ok r) : ∃ a, x = .ok a ∧ f a = .ok r := by
  cases x with
  | error e => cases h
  | ok a => exact ⟨a, rfl, h⟩

section Confined

variable {b : Workbench} {d : Directory} {file : String} {dryRun : Bool} {out : Outcome}

theorem confined_finish {c : Chain} {summary : Json}
    (h : finish b d file c dryRun summary = .ok out) :
    Confined d (if dryRun then none else some file) out := by
  cases dryRun with
  | true =>
    cases h
    exact .inl rfl
  | false =>
    simp only [finish, Bool.false_eq_true, if_false] at h
    split at h
    · rename_i hwrite
      cases h
      obtain ⟨p, hlocate, hput⟩ := chainFile_write_eq_ok hwrite
      exact .inr ⟨file, p, _, rfl, hlocate, hput⟩
    · cases h

theorem confined_edited {change : Chain → Except EditError (Chain × Nat)} {summary : Nat → Json}
    (h : edited b d file dryRun change summary = .ok out) :
    Confined d (if dryRun then none else some file) out := by
  obtain ⟨c, -, h⟩ := bind_eq_ok h
  split at h
  · cases h
  · exact confined_finish h

theorem confined_generate {request output : String}
    (h : runGenerate b d request output = .ok out) : Confined d (some output) out := by
  unfold runGenerate at h
  repeat' split at h
  all_goals try cases h
  rename_i hwrite
  obtain ⟨p, hlocate, hput⟩ := chainFile_write_eq_ok hwrite
  exact .inr ⟨output, p, _, rfl, hlocate, hput⟩

theorem confined_run {c : Command} (h : c.run b d = .ok out) : Confined d c.target? out := by
  cases c with
  | validate file | versions file =>
    obtain ⟨c, -, h⟩ := bind_eq_ok h
    cases h
    exact .inl rfl
  | fix file dryRun | reorder file dryRun | rebase file build dryRun =>
    obtain ⟨c, -, h⟩ := bind_eq_ok h
    exact confined_finish h
  | setBranch file sections branch dryRun => exact confined_edited h
  | setMode file sections mode forDevelopers dryRun => exact confined_edited h
  | setTests file sections suites enabled dryRun =>
    rw [run, runSetTests] at h
    split at h
    · cases h
    · exact confined_edited h
  | generate request output => exact confined_generate h

end Confined

/-! ## Dry runs -/

/-- A dry run and the run itself: both fail in the same way and leave the world alone, or both tell
the same of the chain, and the run leaves in the file what the dry run shows. -/
inductive IsPreview (time time' : String) (d : Directory) (file : String) :
    EStateM.Result Failure World Bool → EStateM.Result Failure World Bool → Prop
  | failure (f : Failure) : IsPreview time time' d file (.error f ⟨d, ""⟩) (.error f ⟨d, ""⟩)
  | success (clean : Bool) {shown written : String} {after : World}
    (hread : after.directory.read file = .ok written.toUTF8)
    (hsame : Writer.SameButTime time time' shown written) :
    IsPreview time time' d file (.ok clean ⟨d, shown⟩) (.ok clean after)

theorem IsPreview.exitStatus_eq {time time' : String} {d : Directory} {file : String}
    {r r' : EStateM.Result Failure World Bool} (h : IsPreview time time' d file r r') :
    exitStatus r = exitStatus r' := by
  cases h with
  | failure f => rfl
  | success clean hread hsame => cases clean <;> rfl

namespace Action

variable (s : RuleSet) (time time' : String) (d : Directory) (file : String)

/-- The two benches differ in the time that their writers show only. -/
theorem isPreview_finish {text : String} (hread : d.readText file = .ok text) (c : Chain)
    (summary : Json) :
    IsPreview time time' d file
      ((finish (.ofRuleSet s (some time)) file c true summary).run ⟨d, ""⟩)
      ((finish (.ofRuleSet s (some time')) file c false summary).run ⟨d, ""⟩) := by
  obtain ⟨d', hwrite, hfind⟩ := Directory.find_writeText hread
    ((Workbench.ofRuleSet s (some time')).render c)
  have hchain : ChainFile.write (Workbench.ofRuleSet s (some time')).writer d file c = .ok d' := by
    rw [Workbench.render] at hwrite
    rw [ChainFile.write, hwrite]
  have hread' : d'.read file = .ok ((Workbench.ofRuleSet s (some time')).render c).toUTF8 := by
    simp [Directory.read, hfind, bind, Except.bind]
  rw [run_finish_dry, run_finish, hchain, String.empty_append]
  exact .success _ hread' (Writer.sameButTime_render s.catalog.order time time' c)

theorem isPreview_edit (change : Chain → Except EditError (Chain × Json)) :
    IsPreview time time' d file
      ((edit (.ofRuleSet s (some time)) file true change).run ⟨d, ""⟩)
      ((edit (.ofRuleSet s (some time')) file false change).run ⟨d, ""⟩) := by
  rw [edit, edit, run_look_bind, run_look_bind]
  cases hchain : readChain d file with
  | error f => exact .failure f
  | ok c =>
    obtain ⟨text, hread⟩ := readText_of_readChain hchain
    dsimp only
    rw [run_look_bind, run_look_bind]
    cases change c with
    | error e => exact .failure (.edit e)
    | ok r => exact isPreview_finish s time time' d file hread r.1 r.2

theorem fixing_ofRuleSet : fixing (.ofRuleSet s (some time)) file =
    fixing (.ofRuleSet s (some time')) file := by
  funext c
  simp only [fixing, Workbench.fixAll, Workbench.validate, Workbench.ofRuleSet]

end Action

open BuildChain.Command.Action in
theorem isPreview_perform (s : RuleSet) (time time' : String) (d : Directory) {c : Command}
    (h : c.isDryRun = true) : ∃ file, c.forReal.target? = some file ∧
      IsPreview time time' d file ((c.perform (.ofRuleSet s (some time))).run ⟨d, ""⟩)
        ((c.forReal.perform (.ofRuleSet s (some time'))).run ⟨d, ""⟩) := by
  cases c with
  | validate file | versions file | generate request output => cases h
  | fix file dryRun =>
    cases h
    refine ⟨file, rfl, ?_⟩
    rw [forReal, perform, perform, Action.fix, Action.fix, fixing_ofRuleSet s time time']
    exact isPreview_edit s time time' d file _
  | reorder file dryRun | setBranch file sections branch dryRun
  | setMode file sections mode forDevelopers dryRun | rebase file build dryRun =>
    cases h
    exact ⟨file, rfl, isPreview_edit s time time' d file _⟩
  | setTests file sections suites enabled dryRun =>
    cases h
    refine ⟨file, rfl, ?_⟩
    simp only [perform, forReal, Action.setTests]
    split
    · exact .failure .noTarget
    · exact isPreview_edit s time time' d file _

end Command

/-! ## The program -/

namespace Invocation

open Command

/-- The same invocation, not as a dry run. -/
def forReal (i : Invocation) : Invocation := { i with command := i.command.forReal }

theorem run_perform_eq (time : String) (i : Invocation) (world : World) :
    (i.perform time).run world =
      match i.source.read world.directory with
      | .ok s => (i.command.perform (.ofRuleSet s (some time))).run world
      | .error e => .error (.rules e) world := by
  rw [perform, Action.run_look_bind]
  cases i.source.read world.directory <;> rfl

theorem run_eq_bind (time : String) (i : Invocation) (d : Directory) :
    i.run time d = (i.source.read d).mapError .rules >>= fun s =>
      i.command.run (.ofRuleSet s (some time)) d := by
  obtain ⟨rules, command⟩ := i
  cases rules with
  | none =>
    simp only [run, source]
    cases RuleSource.standard.read d <;> rfl
  | some path =>
    simp only [run, source]
    cases (RuleSource.file path).read d <;> rfl

/-- Carried out as an action, an invocation ends as its run says. -/
theorem run_perform (time : String) (i : Invocation) (world : World) :
    (i.perform time).run world = ending world (i.run time world.directory) := by
  rw [run_perform_eq, run_eq_bind]
  cases i.source.read world.directory with
  | error e => rfl
  | ok s => exact Command.run_perform _ _ world

/-- An invocation that fails has printed nothing and left the files as they were. One that comes
through has changed at most the file that its command is about. A dry run ends as the same invocation
does when it is none, and prints what that one leaves in the file. -/
theorem perform_spec (i : Invocation) (d : Directory) (time : String) :
    (∀ f after, (i.perform time).run { directory := d } = .error f after →
        after = { directory := d }) ∧
      (∀ clean after, (i.perform time).run { directory := d } = .ok clean after →
        ∀ place, after.directory.node? place ≠ d.node? place →
          ∃ path, i.command.target? = some path ∧ d.locate path = .ok place) ∧
      (i.command.isDryRun = true → ∀ time', ∃ file, i.forReal.command.target? = some file ∧
        IsPreview time time' d file ((i.perform time).run { directory := d })
          ((i.forReal.perform time').run { directory := d }) ∧
        exitStatus ((i.perform time).run { directory := d }) =
          exitStatus ((i.forReal.perform time').run { directory := d })) := by
  refine ⟨fun f after hrun => ?_, fun clean after hrun place hplace => ?_, fun hdry time' => ?_⟩
  · rw [run_perform] at hrun
    cases hout : i.run time d with
    | error f' =>
      rw [hout] at hrun
      cases hrun
      rfl
    | ok out =>
      rw [hout] at hrun
      cases hrun
  · rw [run_perform_eq] at hrun
    split at hrun
    · rename_i s hs
      rw [Command.run_perform] at hrun
      cases hout : i.command.run (.ofRuleSet s (some time)) d with
      | error f =>
        rw [hout] at hrun
        cases hrun
      | ok out =>
        rw [hout] at hrun
        cases hrun
        exact (confined_run hout).locate_of_ne hplace
    · cases hrun
  · have hpreview : ∃ file, i.forReal.command.target? = some file ∧
        IsPreview time time' d file ((i.perform time).run { directory := d })
          ((i.forReal.perform time').run { directory := d }) := by
      have hsource : i.forReal.source = i.source := rfl
      rw [run_perform_eq, run_perform_eq, hsource]
      cases i.source.read d with
      | error e =>
        obtain ⟨file, hfile, -⟩ := isPreview_perform .standard time time' d hdry
        exact ⟨file, hfile, .failure (.rules e)⟩
      | ok s => exact isPreview_perform s time time' d hdry
    obtain ⟨file, hfile, hpreview⟩ := hpreview
    exact ⟨file, hfile, hpreview, hpreview.exitStatus_eq⟩

/-- The bytes of a file at a place, counted. -/
def sizeAt? (d : Directory) (place : Place) : Option Nat :=
  match d.node? place with
  | some (.file bytes) => some bytes.size
  | _ => none

/-- A file that is missing, a file that is laid out afresh, and the same as a dry run. -/
theorem perform_spec_reorder :
    let d : Directory := ⟨[([], .folder), (["c"], .file "a.mode=source".toUTF8)]⟩
    let i : Invocation := ⟨none, .reorder "c" true⟩
    (∃ after, ((⟨none, .fix "b" false⟩ : Invocation).perform "now").run { directory := d } =
        .error (.reading "b" (.notFound "b")) after ∧ after = { directory := d }) ∧
      (∃ clean after, (i.forReal.perform "now").run { directory := d } = .ok clean after ∧
        after.directory.node? ["c"] ≠ d.node? ["c"] ∧
        ∃ path, i.forReal.command.target? = some path ∧ d.locate path = .ok ["c"]) ∧
      i.command.isDryRun = true ∧ ∃ file, i.forReal.command.target? = some file ∧
        IsPreview "now" "later" d file ((i.perform "now").run { directory := d })
          ((i.forReal.perform "later").run { directory := d }) := by
  intro d i
  have hfails : ((⟨none, .fix "b" false⟩ : Invocation).perform "now").run { directory := d } =
      .error (.reading "b" (.notFound "b")) { directory := d } := by
    with_unfolding_all rfl
  have hsize : sizeAt? (worldAfter ((i.forReal.perform "now").run { directory := d })).directory
      ["c"] ≠ sizeAt? d ["c"] := by
    decide +kernel
  refine ⟨⟨_, hfails, (perform_spec _ d "now").1 _ _ hfails⟩, ?_, rfl, ?_⟩
  · cases hrun : (i.forReal.perform "now").run { directory := d } with
    | error f after =>
      rw [hrun, (perform_spec i.forReal d "now").1 f after hrun] at hsize
      exact absurd rfl hsize
    | ok clean after =>
      rw [hrun] at hsize
      have hplace : after.directory.node? ["c"] ≠ d.node? ["c"] := by
        intro hsame
        simp only [sizeAt?, worldAfter, hsame, ne_eq, not_true_eq_false] at hsize
      exact ⟨clean, after, rfl, hplace,
        (perform_spec i.forReal d "now").2.1 clean after hrun ["c"] hplace⟩
  · obtain ⟨file, hfile, hpreview, -⟩ := (perform_spec i d "now").2.2 rfl "later"
    exact ⟨file, hfile, hpreview⟩

end Invocation

end BuildChain
