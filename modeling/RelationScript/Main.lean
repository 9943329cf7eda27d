/-
# The command line

Connects the program to files, standard input and output, and the environment.
-/
import RelationScript.Command.Program

namespace RelationScript

/-- The number of a system's fault, which may come negated in 32 bits. -/
def systemNumber (code : UInt32) : Nat :=
  if code.toNat < 0x80000000 then code.toNat else 0x100000000 - code.toNat

/-- The wording of a system's fault, given its code and other words for it. -/
def systemWording (code : UInt32) (words : String) : String :=
  match PathFault.ofNumber? (systemNumber code) with
  | some fault => fault.message
  | none => PathFault.wording words.capitalize (systemNumber code)

/-- The reason why a file cannot be read. -/
def ioReason : IO.Error → String
  | .noFileOrDirectory _ code words
  | .interrupted _ code words
  | .permissionDenied _ code words
  | .inappropriateType _ code words
  | .invalidArgument _ code words
  | .resourceExhausted _ code words
  | .noSuchThing _ code words
  | .alreadyExists _ code words
  | .resourceBusy code words
  | .resourceVanished code words
  | .unsupportedOperation code words
  | .hardwareFault code words
  | .unsatisfiedConstraints code words
  | .illegalOperation code words
  | .protocolError code words
  | .timeExpired code words
  | .otherError code words => systemWording code words
  | error => toString error

/-- The text of some bytes, which have to be UTF-8. -/
def textOf (bytes : ByteArray) : Except String String :=
  match String.fromUTF8? bytes with
  | some text => .ok text
  | none => .error "stream did not contain valid UTF-8"

/-- Read bytes as text, and keep the reason of a failure. -/
def readingText (read : IO ByteArray) : IO (Except String String) := do
  try
    return textOf (← read)
  catch error =>
    return .error (ioReason error)

/-- Files and standard input of the process. -/
def processAccess : Access IO where
  file path := readingText (IO.FS.readBinFile path)
  input := do
    let input ← IO.getStdin
    if ← input.isTty then
      return none
    else
      return some (← readingText input.readBinToEnd)

end RelationScript

open RelationScript

/-- Answer the command line of the process. -/
def main (arguments : List String) : IO UInt32 := do
  let relations ← IO.getEnv "RELA_RELATIONS"
  let dedup ← IO.getEnv "RELA_DEDUP_PROJECTION"
  let environment := fun name =>
    if name = "RELA_RELATIONS" then relations
    else if name = "RELA_DEDUP_PROJECTION" then dedup
    else none
  let outcome ← Program.run processAccess environment arguments
  (← IO.getStdout).putStr outcome.output
  (← IO.getStderr).putStr outcome.errors
  return UInt32.ofNat outcome.code
