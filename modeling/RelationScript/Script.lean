/-
# Scripts

A script is a list of lines.  A line binds the value of a query to a name; blank lines and
comments are skipped, and the first line at fault ends a run.

* `Script.isSkipped` : which lines carry no statement;
* `Script.execute` : one line, from a store to a store;
* `Script.run` : all lines up to the first fault;
* `Script.session` : all lines, going on after faults;
* `Script.check` : the statements of all lines, without evaluation.
-/
import RelationScript.Evaluation
import RelationScript.Query.Reading

namespace RelationScript

/-- Why a line of a script fails. -/
inductive ScriptFault where
  /-- The line is no statement; it is shown without the blanks around it. -/
  | line (shown : String) (fault : LineFault)
  /-- The query of the line has no value. -/
  | evaluation (fault : EvalFault)
  deriving DecidableEq

/-- The wording of a fault. -/
def ScriptFault.message : ScriptFault → String
  | line shown fault => "Syntax error in '" ++ shown ++ "': " ++ fault.message
  | evaluation fault => fault.message

namespace Script

/-- Lines without a statement: nothing but blanks, or a comment. -/
def isSkipped (line : String) : Bool :=
  match Text.trim line.toList with
  | [] => true
  | c :: _ => c == '#'

/-- The statement of a line. -/
def statement (line : String) : Except ScriptFault Statement :=
  (Statement.ofLine line).mapError (.line (String.ofList (Text.trim line.toList)))

/-- Bind the result of a statement. -/
def perform (options : Options) (store : Store) (statement : Statement) :
    Except ScriptFault Store :=
  match statement.query.evaluate store options with
  | .ok relation => .ok (store.bind statement.target relation)
  | .error fault => .error (.evaluation fault)

/-- Execute a line: the name it binds, if it is not skipped, and the store after it. -/
def execute (options : Options) (store : Store) (line : String) :
    Except ScriptFault (Option String × Store) :=
  if isSkipped line then
    .ok (none, store)
  else do
    let stmt ← statement line
    return (some stmt.target, ← perform options store stmt)

/-- The store after all lines, or the first fault. -/
def run (options : Options) (store : Store) : List String → Except ScriptFault Store
  | [] => .ok store
  | line :: lines => do
    let (_, after) ← execute options store line
    run options after lines

/-- What each line binds or why it fails, with the store after it.  A line that fails leaves
the store as it is. -/
def session (options : Options) (store : Store) :
    List String → List (Except ScriptFault (Option String) × Store)
  | [] => []
  | line :: lines =>
    match execute options store line with
    | .ok (bound, after) => (.ok bound, after) :: session options after lines
    | .error fault => (.error fault, store) :: session options store lines

/-- The statements of the lines that are not skipped, or the first fault. -/
def check (lines : List String) : Except ScriptFault (List Statement) :=
  (lines.filter (!isSkipped ·)).mapM statement

end Script

end RelationScript
