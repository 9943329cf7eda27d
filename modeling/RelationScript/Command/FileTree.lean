/-
# File trees

Text files in folders, and what a path leads to in them.  Paths are read name by name; those
that do not start at the top start in the working folder.

* `FileTree.resolve` : the place that a path leads to;
* `FileTree.read` : the content of a file, or why there is none;
* `FileTree.access` : the program's access to a tree and to a text on standard input.
-/
import RelationScript.Command.Access

namespace RelationScript

/-- Files, and the folder that the program runs in. -/
structure FileTree where
  /-- The content of each file, under the names that lead to it from the top. -/
  files : List (List String × String)
  /-- The names that lead to the working folder from the top. -/
  working : List String

/-- What a path leads to. -/
inductive Place where
  /-- A folder, by the names that lead to it from the top. -/
  | folder (names : List String)
  /-- A file. -/
  | file (content : String)

namespace FileTree

/-- The most bytes that a name may have. -/
def maxNameSize : Nat := 255

/-- The most bytes that a path may have. -/
def maxPathSize : Nat := 4095

/-- Whether a name stays in the folder in which it is looked for. -/
def isIdle (name : String) : Bool :=
  name == "" || name == "."

/-- The names that a path lists. -/
def namesOf (path : String) : List String :=
  path.splitOn "/"

/-- The names that lead to the folder of `ofFolder`. -/
def workNames : List String := ["tmp", "work"]

/-- The tree of a working folder with some files, under names below it.  Elsewhere are the null
device, which is empty, and standard input. -/
def ofFolder (files : List (String × String)) (input : String) : FileTree where
  files :=
    (["dev", "null"], "") :: (["dev", "stdin"], input) ::
      files.map fun (path, content) =>
        (workNames ++ (namesOf path).filter (!isIdle ·), content)
  working := workNames

/-- Whether some names lead to a folder: one that holds the working folder or a file. -/
def hasFolder (tree : FileTree) (names : List String) : Bool :=
  names.isPrefixOf tree.working || tree.files.any fun (path, _) => names.isPrefixOf path

/-- Where a name leads to.  Two dots lead to the folder above, and at the top nowhere else. -/
def step (tree : FileTree) (place : Place) (name : String) : Except PathFault Place :=
  match place with
  | .file _ => .error .notAFolder
  | .folder names =>
    if isIdle name then .ok place
    else if name = ".." then .ok (.folder names.dropLast)
    else if maxNameSize < name.utf8ByteSize then .error .tooLong
    else
      match tree.files.lookup (names ++ [name]) with
      | some content => .ok (.file content)
      | none =>
        if tree.hasFolder (names ++ [name]) then .ok (.folder (names ++ [name]))
        else .error .missing

/-- The folder that a path starts from. -/
def start (tree : FileTree) (path : String) : Place :=
  .folder (if path.toList.head? = some '/' then [] else tree.working)

/-- Where a path leads to; an empty one leads nowhere. -/
def resolve (tree : FileTree) (path : String) : Except PathFault Place :=
  if path.isEmpty then .error .missing
  else if maxPathSize < path.utf8ByteSize then .error .tooLong
  else (namesOf path).foldlM tree.step (tree.start path)

/-- The content of the file that a path leads to. -/
def read (tree : FileTree) (path : String) : Except PathFault String :=
  match tree.resolve path with
  | .ok (.file content) => .ok content
  | .ok (.folder _) => .error .isAFolder
  | .error fault => .error fault

/-- Access to a tree, with a text on standard input. -/
def access (tree : FileTree) (input : String) : Access Id where
  file path := (tree.read path).mapError PathFault.message
  input := some (.ok input)

end FileTree

end RelationScript
