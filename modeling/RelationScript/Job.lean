/-
# Jobs

A job runs a script on the relations of a document and renders what it leaves, or only
checks the lines of the script.

* `Job.execute` : the result of a job, or its first fault;
* `Job.render` : a store in the format of the job.
-/
import RelationScript.Document
import RelationScript.Script
import RelationScript.Table

namespace RelationScript

/-! ## Faults -/

/-- Why a document cannot be loaded. -/
inductive DocumentFault where
  /-- The text is no JSON. -/
  | malformed
  /-- The JSON describes no store. -/
  | load (fault : LoadFault)
  deriving DecidableEq

/-- What relations documents fix about their JSON: arrays and objects are nested to a depth of
at most 127, and a number may be written as a string under a reserved key. -/
def Store.jsonProfile : Json.Profile where
  depth := 127
  numberKey := "$serde_json::private::Number"

/-- The store of a relations document given as text. -/
def Store.ofText (text : String) : Except DocumentFault Store :=
  match Json.read? Store.jsonProfile text with
  | none => .error .malformed
  | some json => (Store.ofJson json).mapError .load

/-- Why a job fails. -/
inductive JobFault where
  /-- A line of the script fails. -/
  | script (fault : ScriptFault)
  /-- The relations cannot be loaded. -/
  | document (fault : DocumentFault)
  /-- A relation to show does not exist. -/
  | unknownRelation (name : String)
  /-- A topic of the manual does not exist. -/
  | unknownTopic (name : String)
  /-- A file cannot be read. -/
  | unreadable (reason : String)
  /-- There is no script. -/
  | noScript
  deriving DecidableEq

/-- The wording of a fault. -/
def JobFault.message : JobFault → String
  | script fault => "Error: " ++ fault.message
  | document .malformed => "Invalid JSON: the relations file is not a JSON document"
  | document (.load fault) => fault.message
  | unknownRelation name => "No relation named '" ++ name ++ "' to show"
  | unknownTopic name =>
    "Unknown category: '" ++ name ++ "'\nRun 'rela docs' to see available categories."
  | unreadable reason => "IO error: " ++ reason
  | noScript => "No script provided. Use --script, -e, or pipe the script to stdin."

/-! ## Jobs -/

/-- How a store is rendered. -/
inductive Format where
  | json
  | table
  deriving DecidableEq

/-- A script with all that a run of it needs. -/
structure Job where
  /-- The lines of the script. -/
  script : List String
  /-- The text of the relations document; without one, the script starts from nothing. -/
  relations : Option String := none
  /-- How the result is rendered. -/
  format : Format := .json
  /-- Whether JSON is laid out over lines. -/
  pretty : Bool := false
  /-- Whether the script is only checked. -/
  syntaxOnly : Bool := false
  /-- The relations to show; all when empty. -/
  chosen : List String := []
  /-- How queries are evaluated. -/
  options : Options := {}

/-- What a job results in. -/
inductive JobResult where
  /-- All lines are statements, this many of them. -/
  | checked (statements : Nat)
  /-- The script leaves this store. -/
  | finished (store : Store)

namespace Job

/-- The store that the script starts from. -/
def initialStore (job : Job) : Except DocumentFault Store :=
  match job.relations with
  | some text => Store.ofText text
  | none => .ok .empty

/-- Check the script, or run it and look for the relations to show.  A check does not look at
the relations document. -/
def execute (job : Job) : Except JobFault JobResult :=
  if job.syntaxOnly then do
    let statements ← (Script.check job.script).mapError .script
    return .checked statements.length
  else do
    let store ← job.initialStore.mapError .document
    let final ← (Script.run job.options store job.script).mapError .script
    match job.chosen.find? fun name => (final.find? name).isNone with
    | some missing => throw (.unknownRelation missing)
    | none => return .finished final

/-- A store in the format of the job; there may be no table of it. -/
def render (job : Job) (store : Store) : Except Table.Abort String :=
  match job.format with
  | .table => store.tables job.chosen
  | .json =>
    .ok (if job.pretty then (store.toJson job.chosen).pretty
      else (store.toJson job.chosen).compact)

end Job

end RelationScript
