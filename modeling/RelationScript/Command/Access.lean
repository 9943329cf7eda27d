/-
# Access to texts

How a program reaches files and standard input, and why a path may lead to no text.

* `Access` : reading files and standard input;
* `PathFault` : the faults of paths, with their numbers and wordings.
-/

namespace RelationScript

/-- How the program reads.  Each reading results in a text or in the reason why there is
none. -/
structure Access (m : Type → Type) where
  /-- The content of a file. -/
  file : String → m (Except String String)
  /-- All of standard input, unless it is a terminal. -/
  input : m (Option (Except String String))

/-- Why a path leads to no text. -/
inductive PathFault where
  /-- Nothing has the name. -/
  | missing
  /-- The path goes on behind a file. -/
  | notAFolder
  /-- The path ends at a folder. -/
  | isAFolder
  /-- A name or the path is too long. -/
  | tooLong
  deriving DecidableEq

namespace PathFault

/-- The number that the system gives a fault. -/
def number : PathFault → Nat
  | missing => 2
  | notAFolder => 20
  | isAFolder => 21
  | tooLong => 36

/-- The words that the system has for a fault. -/
def words : PathFault → String
  | missing => "No such file or directory"
  | notAFolder => "Not a directory"
  | isAFolder => "Is a directory"
  | tooLong => "File name too long"

/-- The wording of a system's fault: its words, and its number behind them. -/
def wording (words : String) (number : Nat) : String :=
  words ++ s!" (os error {number})"

/-- The wording of a fault. -/
def message (fault : PathFault) : String :=
  wording fault.words fault.number

/-- The fault with a given number. -/
def ofNumber? (number : Nat) : Option PathFault :=
  [missing, notAFolder, isAFolder, tooLong].find? (·.number == number)

end PathFault

end RelationScript
