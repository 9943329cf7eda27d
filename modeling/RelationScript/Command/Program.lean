/-
# The program

What the command line does for a request, in any monad that gives access to files and
standard input.

* `Outcome` : exit code and the two outputs;
* `Program.run` : the outcome of a command line.
-/
import RelationScript.Command.Access
import RelationScript.Command.Arguments
import RelationScript.Manual
import RelationScript.Text.Lines

namespace RelationScript

/-- What the program leaves behind. -/
structure Outcome where
  /-- The exit code: 0 on success, 1 for a fault and 2 for a wrong command line; 134 stands for
  an abort, as in shells. -/
  code : Nat
  /-- Standard output. -/
  output : String
  /-- Standard error. -/
  errors : String
  deriving DecidableEq

namespace Program

/-! ## Texts -/

/-- What the program says of itself. -/
def helpText : String :=
  String.join ([
    "Rela - A relational-algebra script language over typed relations",
    "",
    "Usage: rela [OPTIONS] <COMMAND>",
    "",
    "Commands:",
    "  run   Run a script against a set of relations",
    "  docs  List documentation categories",
    "  doc   Show documentation for a specific category",
    "  help  Print this message or the help of the given subcommand(s)",
    "",
    "Options:",
    "  -v, --verbose...  Log verbosity (-v debug, -vv trace); RELA_LOG overrides",
    "  -h, --help        Print help",
    "  -V, --version     Print version"].map (· ++ "\n"))

/-- What the program calls itself. -/
def versionText : String :=
  "rela 0.1.0\n"

/-- What the program writes when a command line is wrong. -/
def usageText : String :=
  "Usage: rela [OPTIONS] <COMMAND>\n\nFor more information, try '--help'.\n"

/-! ## Outcomes -/

/-- The outcome of a command line that is no request. -/
def ofRefusal : Refusal → Outcome
  | .usage => ⟨2, "", usageText⟩
  | .help => ⟨0, helpText, ""⟩
  | .version => ⟨0, versionText, ""⟩

/-- The outcome of an output, an abort or a fault. -/
def ofResult : Except JobFault (Except Table.Abort String) → Outcome
  | .ok (.ok output) => ⟨0, output, ""⟩
  | .ok (.error abort) => ⟨134, "", abort.message ++ "\n"⟩
  | .error fault => ⟨1, "", fault.message ++ "\n"⟩

/-- The output of a job.  It is rendered as a whole before it is written. -/
def perform (job : Job) : Except JobFault (Except Table.Abort String) := do
  match ← job.execute with
  | .checked count => return .ok s!"Syntax is valid ({count} statements)\n"
  | .finished store => return (job.render store).map (· ++ "\n")

/-- The manual's text on a topic. -/
def topicText (name : String) : Except JobFault String :=
  match Manual.Topic.ofName? name with
  | some topic => .ok topic.text
  | none => .error (.unknownTopic name)

/-! ## Running -/

variable {m : Type → Type} [Monad m]

/-- The content of a file, or why it cannot be read. -/
def readContent (access : Access m) (path : String) : m (Except JobFault String) := do
  return (← access.file path).mapError .unreadable

/-- The lines of a script. -/
def readScript (access : Access m) : ScriptSource → m (Except JobFault (List String))
  | .file path => do return (← readContent access path).map Text.linesOf
  | .lines lines => return .ok lines
  | .standardInput => do
    match ← access.input with
    | some text => return (text.mapError .unreadable).map Text.linesOf
    | none => return .error .noScript

/-- The text of the relations document, if there is one. -/
def readRelations (access : Access m) : Option String → m (Except JobFault (Option String))
  | some path => do return (← readContent access path).map some
  | none => return .ok none

/-- The job of a request: the script is read first, then the relations document. -/
def readJob (access : Access m) (request : RunRequest) : m (Except JobFault Job) := do
  match ← readScript access request.source with
  | .error fault => return .error fault
  | .ok script =>
    match ← readRelations access request.relationsPath with
    | .error fault => return .error fault
    | .ok relations => return .ok { request.job with script, relations }

/-- The outcome of a request. -/
def answer (access : Access m) : Request → m Outcome
  | .overview => return ofResult (.ok (.ok Manual.overview))
  | .topic name => return ofResult ((topicText name).map .ok)
  | .run request => do return ofResult ((← readJob access request).bind perform)

/-- The outcome of a command line. -/
def run (access : Access m) (environment : String → Option String) (arguments : List String) :
    m Outcome :=
  match Request.ofArguments environment arguments with
  | .error refusal => return ofRefusal refusal
  | .ok request => answer access request

end Program

end RelationScript
