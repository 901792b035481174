import Mathlib.Data.List.Forall2
import SoftRules.Proofs.CommandLine.Directory
import SoftRules.Proofs.CommandLine.Watching
import SoftRules.Proofs.Encoding.Sketches

/-!
A run of the command line tool is all or nothing.

The files are encoded one after the other in one session, which comes to the same as encoding their
programs together. If that succeeds, the text of the encoded program is written, and nothing else.
Otherwise there is a first file with which something is wrong, the run stops there, and all that
changes is the log (`Surroundings.observe_of_encodes`, `Surroundings.observe_of_firstFault`).
-/

set_option autoImplicit false

namespace SoftRules

/-- The program in a text. -/
def Program.ofText (text : String) : Program :=
  (Program.parse text.toList).toOption.getD []

namespace Directory

variable {directory : Directory}

/-- The program in a file. -/
def Loads (directory : Directory) (file : String) (program : Program) : Prop :=
  ∃ text, directory.read file = .ok text ∧ Program.parse text.toList = .ok program

theorem loads_ofText {file text : String} (isRead : directory.read file = .ok text)
    (isOk : (Program.parse text.toList).isOk = true) :
    directory.Loads file (Program.ofText text) := by
  refine ⟨text, isRead, ?_⟩
  unfold Program.ofText
  cases parsed : Program.parse text.toList with
  | ok program => rfl
  | error error => rw [parsed] at isOk; cases isOk

/-- What can be wrong with a file, in a session that other files have left. -/
inductive FileFault (directory : Directory) (session : Session) (file : String) : RunError → Prop
  | reading {error : FileError} (failed : directory.read file = .error error) :
      FileFault directory session file (.reading file error)
  | parsing {text : String} {error : ParseError} (isRead : directory.read file = .ok text)
      (failed : Program.parse text.toList = .error error) :
      FileFault directory session file (.parsing file)
  | encoding {program : Program} {error : EncodingError} (loads : directory.Loads file program)
      (failed : (session.encodeAll program).error = some error) :
      FileFault directory session file (.encoding file)

/-- The files `done` can be encoded, and `failing` is the next one but cannot. -/
def FirstFault (directory : Directory) (session : Session) (files done : List String)
    (failing : String) (error : RunError) : Prop :=
  ∃ programs rest, files = done ++ failing :: rest ∧
    List.Forall₂ directory.Loads done programs ∧
    (session.encodeAll programs.flatten).error = none ∧
    directory.FileFault (session.encodeAll programs.flatten).session failing error

/-- What is said about a fault quotes the name of the file. -/
theorem FileFault.exists_message {session : Session} {file : String} {error : RunError}
    (fault : directory.FileFault session file error) :
    ∃ task reason, error.message = task ++ ("`" ++ file ++ "`") ++ reason := by
  cases fault with
  | @reading error failed =>
      refine ⟨"unable to read ", ": " ++ error.message, ?_⟩
      have opening : "unable to read `" = "unable to read " ++ "`" := by decide
      have closing : "`: " = "`" ++ ": " := by decide
      change "unable to read `" ++ file ++ "`: " ++ error.message = _
      simp only [opening, closing, String.append_assoc]
  | parsing isRead failed =>
      refine ⟨"unable to parse program ", "", ?_⟩
      have opening : "unable to parse program `" = "unable to parse program " ++ "`" := by decide
      change "unable to parse program `" ++ file ++ "`" = _
      simp only [opening, String.append_assoc, String.append_empty]
  | encoding loads failed =>
      refine ⟨"unable to translate program ", "", ?_⟩
      have opening : "unable to translate program `" = "unable to translate program " ++ "`" := by
        decide
      change "unable to translate program `" ++ file ++ "`" = _
      simp only [opening, String.append_assoc, String.append_empty]

theorem exists_loads_or_fault (directory : Directory) (session : Session) (file : String) :
    (∃ program, directory.Loads file program ∧ (session.encodeAll program).error = none) ∨
      ∃ error, directory.FileFault session file error := by
  cases isRead : directory.read file with
  | error error => exact .inr ⟨_, .reading isRead⟩
  | ok text =>
      cases parsed : Program.parse text.toList with
      | error error => exact .inr ⟨_, .parsing isRead parsed⟩
      | ok program =>
          have loads : directory.Loads file program := ⟨text, isRead, parsed⟩
          cases failed : (session.encodeAll program).error with
          | some error => exact .inr ⟨_, .encoding loads failed⟩
          | none => exact .inl ⟨program, loads, failed⟩

theorem FirstFault.exists_message {session : Session} {files done : List String} {failing : String}
    {error : RunError} (first : directory.FirstFault session files done failing error) :
    ∃ task reason, error.message = task ++ ("`" ++ failing ++ "`") ++ reason := by
  obtain ⟨programs, rest, isFiles, loadAll, succeed, fault⟩ := first
  exact fault.exists_message

end Directory

/-- Either all the files can be encoded together, or one of them is the first that cannot. -/
theorem Directory.exists_firstFault (directory : Directory) (session : Session)
    (files : List String) :
    (∃ programs, List.Forall₂ directory.Loads files programs ∧
        (session.encodeAll programs.flatten).error = none) ∨
      ∃ done failing error, directory.FirstFault session files done failing error := by
  induction files generalizing session with
  | nil => exact .inl ⟨[], .nil, rfl⟩
  | cons file files inductionHypothesis =>
      rcases directory.exists_loads_or_fault session file with
        ⟨program, loads, succeeds⟩ | ⟨error, fault⟩
      · rcases inductionHypothesis (session.encodeAll program).session with
          ⟨programs, loadAll, succeed⟩ |
            ⟨done, failing, error, programs, rest, rfl, loadAll, succeed, fault⟩
        · refine .inl ⟨program :: programs, .cons loads loadAll, ?_⟩
          rw [List.flatten_cons, Session.encodeAll_append_of_ok succeeds]
          exact succeed
        · refine .inr ⟨file :: done, failing, error, program :: programs, rest, rfl,
            .cons loads loadAll, ?_⟩
          rw [List.flatten_cons, Session.encodeAll_append_of_ok succeeds]
          exact ⟨succeed, fault⟩
      · exact .inr ⟨[], file, error, [], files, rfl, .nil, rfl, fault⟩

/-- In a directory, an action asks for some files and gives an answer. It changes only the log. -/
def Consults {α : Type} (directory : Directory) (action : WatchT (StateM Surroundings) α)
    (files : List String) (answer : α) : Prop :=
  ∀ reads surroundings, surroundings.directory = directory →
    ∃ log, (action.run reads).run surroundings =
      ((answer, reads ++ files), { surroundings with log })

namespace Consults

variable {α β : Type} {directory : Directory}

theorem pure (value : α) : Consults directory (Pure.pure value) [] value := by
  intro reads surroundings _
  exact ⟨surroundings.log, by rw [List.append_nil]; rfl⟩

theorem run_bind {action : WatchT (StateM Surroundings) α} {files : List String} {middle : α}
    (first : Consults directory action files middle) (next : α → WatchT (StateM Surroundings) β)
    (reads : List String) {surroundings : Surroundings}
    (isDirectory : surroundings.directory = directory) :
    ∃ log, ((action >>= next).run reads).run surroundings =
      ((next middle).run (reads ++ files)).run { surroundings with log } := by
  obtain ⟨log, ran⟩ := first reads surroundings isDirectory
  refine ⟨log, ?_⟩
  rw [StateT.run_bind, StateT.run_bind, ran]
  rfl

theorem bind {action : WatchT (StateM Surroundings) α} {next : α → WatchT (StateM Surroundings) β}
    {files others : List String} {middle : α} {answer : β}
    (first : Consults directory action files middle)
    (second : Consults directory (next middle) others answer) :
    Consults directory (action >>= next) (files ++ others) answer := by
  intro reads surroundings isDirectory
  obtain ⟨log, ran⟩ := first.run_bind next reads isDirectory
  obtain ⟨log, ranNext⟩ := second (reads ++ files) { surroundings with log } isDirectory
  exact ⟨log, by rw [ran, ranNext, List.append_assoc]⟩

theorem bind_silent {action : WatchT (StateM Surroundings) α}
    {next : α → WatchT (StateM Surroundings) β} {files : List String} {middle : α} {answer : β}
    (first : Consults directory action files middle)
    (second : Consults directory (next middle) [] answer) :
    Consults directory (action >>= next) files answer := by
  have both := first.bind second
  rwa [List.append_nil] at both

end Consults

namespace Host

variable {directory : Directory} (filter : LogFilter)

theorem consults_read (file : String) :
    Consults directory (Surroundings.host.watched.read file) [file] (directory.read file) := by
  intro reads surroundings isDirectory
  exact ⟨surroundings.log, by rw [← isDirectory]; rfl⟩

theorem consults_report (text : String) :
    Consults directory (Surroundings.host.watched.report text) [] () := by
  intro reads surroundings _
  exact ⟨surroundings.log, by rw [List.append_nil]; rfl⟩

theorem consults_emit (area : Area) (record : LogRecord) :
    Consults directory (Surroundings.host.watched.emit filter area record) [] () := by
  unfold emit
  split
  · intro reads surroundings _
    exact ⟨surroundings.log ++ [record], by rw [List.append_nil]; rfl⟩
  · exact .pure ()

theorem consults_emitAll (area : Area) (records : List LogRecord) :
    Consults directory (Surroundings.host.watched.emitAll filter area records) [] () := by
  induction records with
  | nil => exact .pure ()
  | cons record records inductionHypothesis =>
      exact (consults_emit filter area record).bind inductionHypothesis

variable {session : Session} (output : Program) {file : String}

theorem encodeFile_of_loads {program : Program} (loads : directory.Loads file program)
    (succeeds : (session.encodeAll program).error = none) :
    Consults directory (Surroundings.host.watched.encodeFile filter session output file) [file]
      (.ok ((session.encodeAll program).session,
        output ++ (session.encodeAll program).output)) := by
  obtain ⟨text, isRead, parsed⟩ := loads
  apply (consults_emit filter _ _).bind
  apply (consults_read file).bind_silent
  simp only [isRead, parsed]
  apply (consults_emitAll filter _ _).bind_silent
  simp only [succeeds]
  exact .pure _

theorem encodeFile_of_fault {error : RunError} (fault : directory.FileFault session file error) :
    Consults directory (Surroundings.host.watched.encodeFile filter session output file) [file]
      (.error error) := by
  apply (consults_emit filter _ _).bind
  apply (consults_read file).bind_silent
  cases fault with
  | reading failed =>
      simp only [failed]
      exact .pure _
  | parsing isRead failed =>
      simp only [isRead, failed]
      exact (consults_report _).bind (.pure _)
  | encoding loads failed =>
      obtain ⟨text, isRead, parsed⟩ := loads
      simp only [isRead, parsed]
      apply (consults_emitAll filter _ _).bind_silent
      simp only [failed]
      exact (consults_report _).bind (.pure _)

/-- Files that can be encoded are passed, and what follows them is encoded in the session that they
leave. -/
theorem encodeFiles_append {done rest read : List String} {programs : List Program}
    {answer : Except RunError (Session × Program)}
    (loadAll : List.Forall₂ directory.Loads done programs)
    (succeed : (session.encodeAll programs.flatten).error = none)
    (others : Consults directory (Surroundings.host.watched.encodeFiles filter
      (session.encodeAll programs.flatten).session
      (output ++ (session.encodeAll programs.flatten).output) rest) read answer) :
    Consults directory
      (Surroundings.host.watched.encodeFiles filter session output (done ++ rest))
      (done ++ read) answer := by
  -- Each file hands on its session and its output, so both are arbitrary in the induction.
  induction loadAll generalizing session output with
  | nil =>
      simp only [List.flatten_nil, Session.encodeAll, List.append_nil] at others
      exact others
  | @cons file program done programs loads loadAll inductionHypothesis =>
      rw [List.flatten_cons] at succeed others
      have succeeds := Session.encodeAll_error_of_append succeed
      rw [Session.encodeAll_append_of_ok succeeds] at succeed others
      apply (encodeFile_of_loads filter output loads succeeds).bind
      apply inductionHypothesis _ succeed
      rwa [List.append_assoc]

theorem encodeFiles_of_loads {files : List String} {programs : List Program}
    (loadAll : List.Forall₂ directory.Loads files programs)
    (succeed : (session.encodeAll programs.flatten).error = none) :
    Consults directory (Surroundings.host.watched.encodeFiles filter session output files) files
      (.ok ((session.encodeAll programs.flatten).session,
        output ++ (session.encodeAll programs.flatten).output)) := by
  rw [← List.append_nil files]
  exact encodeFiles_append filter output loadAll succeed (.pure _)

theorem encodeFiles_of_firstFault {files done : List String} {failing : String} {error : RunError}
    (first : directory.FirstFault session files done failing error) :
    Consults directory (Surroundings.host.watched.encodeFiles filter session output files)
      (done ++ [failing]) (.error error) := by
  obtain ⟨programs, rest, rfl, loadAll, succeed, fault⟩ := first
  apply encodeFiles_append filter output loadAll succeed
  exact (encodeFile_of_fault filter _ fault).bind_silent (.pure _)

end Host

/-- The programs in the files, taken together, are encoded as `target`. -/
def Options.Encodes (options : Options) (directory : Directory) (target : Program) : Prop :=
  ∃ programs, List.Forall₂ directory.Loads options.files programs ∧
    (Program.encode options.mode programs.flatten).result = .ok target

namespace Surroundings

/-- The text has arrived where it was to go, and nothing else has been written. -/
def Receives (before after : Surroundings) (text : String) : Option String → Prop
  | none => after.printed = before.printed ++ text ∧ after.directory = before.directory
  | some path =>
      after.printed = before.printed ∧ after.directory.read path = .ok text ∧
        ∃ place, Directory.Place.ofPath path = .inside place ∧ ∀ other, other ≠ place →
          after.directory.content? other = before.directory.content? other

/-- What can be seen of a run: its result, the files that it asks for, and what it leaves. -/
structure Observation where
  result : Except RunError Unit
  reads : List String
  after : Surroundings

def observe (surroundings : Surroundings) (filter : LogFilter) (options : Options) : Observation :=
  let seen := ((host.watched.run filter options).run []).run surroundings
  { result := seen.1.1, reads := seen.1.2, after := seen.2 }

variable (surroundings : Surroundings) (filter : LogFilter) (options : Options)

theorem run_eq_observe :
    (host.run filter options).run surroundings =
      ((surroundings.observe filter options).result,
        (surroundings.observe filter options).after) := by
  rw [← host.shadows_run filter options []]
  rfl

variable {surroundings options}

theorem run_write {path text : String} {directory : Directory} {reads : List String}
    (written : surroundings.directory.write path text = .ok directory) :
    ((host.watched.write path text).run reads).run surroundings =
      ((.ok (), reads), { surroundings with directory }) := by
  have plain : (host.write path text).run surroundings =
      (.ok (), { surroundings with directory }) := by
    simp [host, written]
    rfl
  change (host.write path text >>= fun answer => pure (answer, reads)).run surroundings = _
  rw [StateT.run_bind, plain]
  rfl

theorem receives_save (surroundings : Surroundings) {output : Option String} (text : String)
    (reads : List String)
    (creatable : ∀ path ∈ output, ∃ place, surroundings.directory.Creates path place) :
    ∃ after, ((host.watched.save output text).run reads).run surroundings =
        ((.ok (), reads), after) ∧ surroundings.Receives after text output := by
  cases output with
  | none => exact ⟨_, rfl, rfl, rfl⟩
  | some path =>
      obtain ⟨place, creates⟩ := creatable path rfl
      refine ⟨{ surroundings with directory := surroundings.directory.insert place text.toUTF8 },
        ?_, rfl, creates.read_insert text, place, creates.leads, ?_⟩
      · change (StateT.run (StateT.run (host.watched.write path text >>= _) reads) _) = _
        rw [StateT.run_bind, StateT.run_bind, run_write (creates.write_eq text)]
        rfl
      · intro other different
        exact Directory.content?_insert_of_ne different _

/-- A run whose files can be encoded together writes the text of what they are encoded as. -/
theorem observe_of_encodes {target : Program}
    (creatable : ∀ path ∈ options.output, ∃ place, surroundings.directory.Creates path place)
    (encodes : options.Encodes surroundings.directory target) :
    (surroundings.observe filter options).result = .ok () ∧
      (surroundings.observe filter options).reads = options.files ∧
      surroundings.Receives (surroundings.observe filter options).after target.render
        options.output := by
  obtain ⟨programs, loadAll, encoded⟩ := encodes
  obtain ⟨succeed, rfl⟩ := Program.encode_ok_iff_encodeAll.mp encoded
  -- Up to the end of the files and the message about it, only the log changes.
  have encodeFiles := Host.encodeFiles_of_loads filter [] loadAll succeed
  obtain ⟨log, ran⟩ := encodeFiles.run_bind _ [] rfl
  obtain ⟨log, said⟩ := (Host.consults_emit filter _ _).run_bind _ _ rfl
  obtain ⟨after, saved, receives⟩ := receives_save { surroundings with log } _ _ creatable
  unfold observe
  rw [Host.run, ran, said, saved]
  exact ⟨rfl, List.append_nil _, receives⟩

/-- A run stops at the first file with which something is wrong, and writes nothing. -/
theorem observe_of_firstFault {done : List String} {failing : String} {error : RunError}
    (first : surroundings.directory.FirstFault { mode := options.mode } options.files done failing
      error) :
    (surroundings.observe filter options).result = .error error ∧
      (surroundings.observe filter options).reads = done ++ [failing] ∧
      (surroundings.observe filter options).after.printed = surroundings.printed ∧
      (surroundings.observe filter options).after.directory = surroundings.directory := by
  have stops : Consults surroundings.directory (host.watched.run filter options)
      (done ++ [failing]) (.error error) :=
    (Host.encodeFiles_of_firstFault filter [] first).bind_silent (.pure _)
  obtain ⟨log, ran⟩ := stops [] surroundings rfl
  unfold observe
  rw [ran]
  exact ⟨rfl, rfl, rfl, rfl⟩

/-- A run is all or nothing. It does the same as encoding the programs of its files together: if
that succeeds, the text of the encoded program is written. Otherwise nothing is written, and the
failure is about the first file at which the run cannot go on, which is also the last one that it
asks for. -/
theorem observe_allOrNothing (surroundings : Surroundings) (filter : LogFilter) (options : Options)
    (creatable : ∀ path ∈ options.output, ∃ place, surroundings.directory.Creates path place) :
    let seen := surroundings.observe filter options
    (host.run filter options).run surroundings = (seen.result, seen.after) ∧
      (∀ target, options.Encodes surroundings.directory target →
        seen.result = .ok () ∧ seen.reads = options.files ∧
          surroundings.Receives seen.after target.render options.output) ∧
      ((∀ target, ¬ options.Encodes surroundings.directory target) →
        ∃ done failing error,
          surroundings.directory.FirstFault { mode := options.mode } options.files done failing
            error ∧
          seen.result = .error error ∧
          (∃ task reason, error.message = task ++ ("`" ++ failing ++ "`") ++ reason) ∧
          seen.reads = done ++ [failing] ∧
          seen.after.printed = surroundings.printed ∧
          seen.after.directory = surroundings.directory) := by
  refine ⟨surroundings.run_eq_observe filter options,
    fun target encodes => observe_of_encodes filter creatable encodes, ?_⟩
  intro fails
  rcases surroundings.directory.exists_firstFault { mode := options.mode } options.files with
    ⟨programs, loadAll, succeed⟩ | ⟨done, failing, error, first⟩
  · have encoded := Program.encode_ok_iff_encodeAll.mpr ⟨succeed, rfl⟩
    exact (fails _ ⟨programs, loadAll, encoded⟩).elim
  · obtain ⟨isError, reads, printed, directory⟩ := observe_of_firstFault filter first
    have names := first.exists_message
    exact ⟨done, failing, error, first, isError, names, reads, printed, directory⟩

/-- Facts in one file and a soft rule in another one. -/
def twoFiles : Surroundings where
  directory := ⟨[(["one.lp"], "a. b.".toUTF8), (["two.lp"], "c :- a, &weight(2).".toUTF8)]⟩

def twoFilesToOne : Options where
  files := ["one.lp", "two.lp"]
  output := some "out.lp"
  mode := {}
  verbosity := .unchanged

theorem twoFiles_leads {name : String} (isName : name ∈ ["one.lp", "two.lp", "out.lp"]) :
    Directory.Place.ofPath name = .inside [name] := by
  simp only [List.mem_cons, List.not_mem_nil, or_false] at isName
  rcases isName with rfl | rfl | rfl
  all_goals
    apply Directory.Place.ofPath_name (by decide) _ rfl
    -- One step for each character and one for the end.
    unfold String.splitOn
    iterate 7 rw [String.splitOnAux]
    decide +kernel

theorem twoFiles_creates : ∀ path ∈ twoFilesToOne.output,
    ∃ place, twoFiles.directory.Creates path place := by
  intro path isOutput
  cases isOutput
  exact ⟨["out.lp"], twoFiles_leads (by simp), by decide +kernel, by decide +kernel,
    by decide +kernel, by decide +kernel⟩

theorem twoFiles_encodes : ∃ target, twoFilesToOne.Encodes twoFiles.directory target := by
  have readOne : twoFiles.directory.read "one.lp" = .ok "a. b." :=
    Directory.read_of_content (twoFiles_leads (by simp)) (by decide +kernel) (by decide +kernel) rfl
  have readTwo : twoFiles.directory.read "two.lp" = .ok "c :- a, &weight(2)." :=
    Directory.read_of_content (twoFiles_leads (by simp)) (by decide +kernel) (by decide +kernel) rfl
  have isOk : (Program.encode twoFilesToOne.mode (["a. b.", "c :- a, &weight(2)."].map
      Program.ofText).flatten).result.isOk = true := by decide +kernel
  obtain ⟨target, encoded⟩ := Except.exists_eq_ok isOk
  have loadOne := Directory.loads_ofText readOne (by decide +kernel)
  have loadTwo := Directory.loads_ofText readTwo (by decide +kernel)
  exact ⟨target, _, .cons loadOne (.cons loadTwo .nil), encoded⟩

theorem observe_allOrNothing_twoFiles :
    (∀ path ∈ twoFilesToOne.output, ∃ place, twoFiles.directory.Creates path place) ∧
      ∃ target, twoFilesToOne.Encodes twoFiles.directory target ∧
        let seen := twoFiles.observe (Verbosity.unchanged.filter none) twoFilesToOne
        seen.result = .ok () ∧ seen.reads = ["one.lp", "two.lp"] ∧
          seen.after.directory.read "out.lp" = .ok target.render := by
  obtain ⟨target, encodes⟩ := twoFiles_encodes
  obtain ⟨-, succeeds, -⟩ := observe_allOrNothing twoFiles (Verbosity.unchanged.filter none)
    twoFilesToOne twoFiles_creates
  obtain ⟨isOk, reads, -, written, -⟩ := succeeds target encodes
  exact ⟨twoFiles_creates, target, encodes, isOk, reads, written⟩

end Surroundings

end SoftRules
