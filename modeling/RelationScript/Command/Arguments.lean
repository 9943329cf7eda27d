/-
# Command-line arguments

The arguments of the command line, read from left to right.  The first that is wrong, or asks
for help, decides.

* `Request` : what a command line asks for;
* `Request.ofArguments` : the request that arguments and environment make.
-/
import RelationScript.Job

namespace RelationScript

/-! ## Requests -/

/-- Where the lines of a script come from. -/
inductive ScriptSource where
  /-- A file. -/
  | file (path : String)
  /-- The command line itself. -/
  | lines (lines : List String)
  /-- Standard input. -/
  | standardInput
  deriving DecidableEq

/-- A job whose files have not been read. -/
structure RunRequest where
  /-- Where the script comes from. -/
  source : ScriptSource
  /-- The file of the relations document. -/
  relationsPath : Option String
  /-- All else; script and relations are left out. -/
  job : Job

/-- What a command line asks for. -/
inductive Request where
  | run (request : RunRequest)
  /-- The overview of the manual. -/
  | overview
  /-- A topic of the manual. -/
  | topic (name : String)

/-- Why a command line is not a request. -/
inductive Refusal where
  /-- An argument is wrong or missing. -/
  | usage
  /-- Help is asked for. -/
  | help
  /-- The version is asked for. -/
  | version
  deriving DecidableEq

/-! ## Options of a run -/

/-- Options that take a value. -/
inductive ValueOption where
  /-- The file of the relations document. -/
  | relations
  /-- The file of the script. -/
  | script
  /-- A line of the script. -/
  | expr
  /-- The format of the output. -/
  | format
  /-- Names of relations to show, separated by commas. -/
  | chosen

/-- Options that take none. -/
inductive Flag where
  /-- Log more; it leaves the output as it is. -/
  | verbose
  /-- Lay JSON out over lines. -/
  | pretty
  /-- Drop repeated rows in projections. -/
  | dedup
  /-- Only check the script. -/
  | syntaxOnly
  /-- Show help. -/
  | help

/-- The options of a run read so far. -/
structure RunArguments where
  /-- The file of the relations document. -/
  relations : Option String := none
  /-- The file of the script. -/
  script : Option String := none
  /-- Lines of the script. -/
  lines : List String := []
  /-- The format of the output. -/
  format : Option Format := none
  /-- The relations to show. -/
  chosen : List String := []
  /-- Whether JSON is laid out over lines. -/
  pretty : Bool := false
  /-- Whether projections drop repeated rows. -/
  dedup : Bool := false
  /-- Whether the script is only checked. -/
  syntaxOnly : Bool := false

/-- The option with a value behind one hyphen. -/
def ValueOption.ofChar? : Char → Option ValueOption
  | 'r' => some relations
  | 's' => some script
  | 'e' => some expr
  | 'f' => some format
  | _ => none

/-- The option with a value behind two hyphens. -/
def ValueOption.ofName? : String → Option ValueOption
  | "relations" => some relations
  | "script" => some script
  | "expr" => some expr
  | "format" => some format
  | "show" => some chosen
  | _ => none

/-- The flag behind one hyphen. -/
def Flag.ofChar? : Char → Option Flag
  | 'v' => some verbose
  | 'p' => some pretty
  | 'h' => some help
  | _ => none

/-- The flag behind two hyphens. -/
def Flag.ofName? : String → Option Flag
  | "verbose" => some verbose
  | "pretty" => some pretty
  | "dedup-projection" => some dedup
  | "syntax-only" => some syntaxOnly
  | "help" => some help
  | _ => none

/-- The format that a value names. -/
def Format.ofName? : String → Option Format
  | "json" => some .json
  | "table" => some .table
  | _ => none

namespace RunArguments

/-- Give an option its value.  Lines and names to show add up, all else is given once; paths
are not empty. -/
def setValue (arguments : RunArguments) (value : String) :
    ValueOption → Except Refusal RunArguments
  | .relations =>
    if arguments.relations.isSome || value.isEmpty then .error .usage
    else .ok { arguments with relations := some value }
  | .script =>
    if arguments.script.isSome || value.isEmpty then .error .usage
    else .ok { arguments with script := some value }
  | .expr => .ok { arguments with lines := arguments.lines ++ [value] }
  | .format =>
    match arguments.format, Format.ofName? value with
    | none, some format => .ok { arguments with format := some format }
    | _, _ => .error .usage
  | .chosen => .ok { arguments with chosen := arguments.chosen ++ value.splitOn "," }

/-- Raise a flag.  Only `-v` may be repeated. -/
def setFlag (arguments : RunArguments) : Flag → Except Refusal RunArguments
  | .verbose => .ok arguments
  | .pretty => if arguments.pretty then .error .usage else .ok { arguments with pretty := true }
  | .dedup => if arguments.dedup then .error .usage else .ok { arguments with dedup := true }
  | .syntaxOnly =>
    if arguments.syntaxOnly then .error .usage else .ok { arguments with syntaxOnly := true }
  | .help => .error .help

/-- Read letters behind one hyphen: flags, and at last possibly an option.  Its value is what
follows, with or without an equals sign; if nothing follows, the option waits for it. -/
def readLetters (arguments : RunArguments) :
    List Char → Except Refusal (RunArguments × Option ValueOption)
  | [] => .ok (arguments, none)
  | c :: cs =>
    match Flag.ofChar? c, ValueOption.ofChar? c, cs with
    | some flag, _, cs => do readLetters (← arguments.setFlag flag) cs
    | none, some option, [] => .ok (arguments, some option)
    | none, some option, '=' :: value => do
      return (← arguments.setValue (String.ofList value) option, none)
    | none, some option, value => do
      return (← arguments.setValue (String.ofList value) option, none)
    | none, none, _ => .error .usage

/-- Read a word behind two hyphens: a flag, or an option with a value after an equals sign; if
there is none, the option waits for it. -/
def readWord (arguments : RunArguments) (word : List Char) :
    Except Refusal (RunArguments × Option ValueOption) :=
  let name := String.ofList (word.takeWhile (· != '='))
  match Flag.ofName? name, ValueOption.ofName? name, word.dropWhile (· != '=') with
  | some flag, _, [] => do return (← arguments.setFlag flag, none)
  | none, some option, [] => .ok (arguments, some option)
  | none, some option, _ :: value => do
    return (← arguments.setValue (String.ofList value) option, none)
  | _, _, _ => .error .usage

/-- Read one argument.  A run takes none but options. -/
def readArgument (arguments : RunArguments) (argument : String) :
    Except Refusal (RunArguments × Option ValueOption) :=
  match argument.toList with
  | '-' :: '-' :: word => arguments.readWord word
  | '-' :: c :: letters => arguments.readLetters (c :: letters)
  | _ => .error .usage

/-- Whether an argument is an option, so that it cannot be the value of the one before. -/
def isOption (argument : String) : Bool :=
  match argument.toList with
  | '-' :: _ :: _ => true
  | _ => false

/-- Read all arguments.  Two hyphens alone end them. -/
def readAll (arguments : RunArguments) : List String → Except Refusal RunArguments
  | [] => .ok arguments
  | argument :: rest =>
    if argument = "--" then
      if rest.isEmpty then .ok arguments else .error .usage
    else
      match arguments.readArgument argument with
      | .error refusal => .error refusal
      | .ok (after, none) => readAll after rest
      | .ok (after, some option) =>
        match rest with
        | [] => .error .usage
        | value :: rest =>
          if isOption value then .error .usage
          else
            match after.setValue value option with
            | .ok after => readAll after rest
            | .error refusal => .error refusal

/-- The file of the relations document: that of the option, or else of the environment. -/
def relationsPath (arguments : RunArguments) (environment : String → Option String) :
    Except Refusal (Option String) :=
  match arguments.relations, environment "RELA_RELATIONS" with
  | some path, _ => .ok (some path)
  | none, some path => if path.isEmpty then .error .usage else .ok (some path)
  | none, none => .ok none

/-- Whether projections drop repeated rows: by the flag, or else by the environment. -/
def dedupProjection (arguments : RunArguments) (environment : String → Option String) :
    Except Refusal Bool :=
  match arguments.dedup, environment "RELA_DEDUP_PROJECTION" with
  | true, _ => .ok true
  | false, some "true" => .ok true
  | false, some "false" => .ok false
  | false, some _ => .error .usage
  | false, none => .ok false

/-- Where the script comes from.  A file and lines exclude each other. -/
def source (arguments : RunArguments) : Except Refusal ScriptSource :=
  match arguments.script, arguments.lines with
  | some path, [] => .ok (.file path)
  | some _, _ :: _ => .error .usage
  | none, [] => .ok .standardInput
  | none, lines => .ok (.lines lines)

/-- The request that the options make. -/
def request (arguments : RunArguments) (environment : String → Option String) :
    Except Refusal RunRequest := do
  let path ← arguments.relationsPath environment
  let dedup ← arguments.dedupProjection environment
  let source ← arguments.source
  let job : Job :=
    { script := []
      format := arguments.format.getD .json
      pretty := arguments.pretty
      syntaxOnly := arguments.syntaxOnly
      chosen := arguments.chosen
      options := ⟨dedup⟩ }
  return ⟨source, path, job⟩

end RunArguments

/-! ## Other commands -/

/-- Read letters behind one hyphen that every command takes: `v` any number of times, `h` for
help and, where no command has been named yet, `V` for the version. -/
def readGlobal (version : Bool) : List Char → Except Refusal Unit
  | [] => .ok ()
  | 'v' :: letters => readGlobal version letters
  | 'h' :: _ => .error .help
  | 'V' :: _ => .error (if version then .version else .usage)
  | _ :: _ => .error .usage

/-- Read an option that every command takes. -/
def readGlobalArgument (version : Bool) (argument : String) : Except Refusal Unit :=
  if argument = "--verbose" then .ok ()
  else if argument = "--help" then .error .help
  else if argument = "--version" && version then .error .version
  else
    match argument.toList with
    | '-' :: c :: letters => readGlobal version (c :: letters)
    | _ => .error .usage

/-- The values among the arguments of a command that has no options of its own and takes at
most `count` values.  After two hyphens alone, all arguments are values. -/
def readValues (count : Nat) (values : List String) : List String → Except Refusal (List String)
  | [] => .ok values
  | argument :: rest =>
    if argument = "--" then
      if (values ++ rest).length ≤ count then .ok (values ++ rest) else .error .usage
    else if RunArguments.isOption argument then do
      readGlobalArgument false argument
      readValues count values rest
    else if values.length < count then
      readValues count (values ++ [argument]) rest
    else
      .error .usage

/-- Help on one of the commands, or on all. -/
def readHelp : List String → Refusal
  | [] => .help
  | ["run"] | ["docs"] | ["doc"] | ["help"] => .help
  | _ => .usage

namespace Request

/-- The request that arguments and environment make. -/
def ofArguments (environment : String → Option String) : List String → Except Refusal Request
  | [] => .error .usage
  | "run" :: rest => do
    let arguments ← RunArguments.readAll {} rest
    return .run (← arguments.request environment)
  | "docs" :: rest => do
    let _ ← readValues 0 [] rest
    return .overview
  | "doc" :: rest => do
    match ← readValues 1 [] rest with
    | [name] => return .topic name
    | _ => throw .usage
  | "help" :: rest => .error (readHelp rest)
  | argument :: rest => do
    readGlobalArgument true argument
    ofArguments environment rest

end Request

end RelationScript
