-- A tree of files held in memory, and how a path is followed through it.
import ScriptLang.Fault
import ScriptLang.Host.Path

namespace ScriptLang

/-- What stands at a path. -/
inductive FileNode where
  | file (content : ByteArray)
  | directory

/-- Files and directories by the names on the way to them from the root, the newest first. The
directories on the way need no entry. -/
structure FileTree where
  entries : List (List String × FileNode)

namespace FileTree

def empty : FileTree := ⟨[]⟩

/-- The tree with a file or a directory put at a path. -/
def put (tree : FileTree) (path : List String) (node : FileNode) : FileTree :=
  ⟨(path, node) :: tree.entries⟩

/-- What stands at a path. -/
def node? (tree : FileTree) (path : List String) : Option FileNode :=
  match tree.entries.lookup path with
  | some node => some node
  | none => if tree.entries.any (fun e => path.isPrefixOf e.1) then some .directory else none

/-- The longest name, in bytes. -/
def maxName : Nat := 255

/-- The longest path, in bytes. -/
def maxPath : Nat := 4095

/-- Follows steps from a directory to the content of a file. -/
def follow (tree : FileTree) (directory : List String) : List String → Except FileError ByteArray
  | [] => .error .isDirectory
  | step :: rest =>
    if step = "" ∨ step = "." then tree.follow directory rest
    else if step = ".." then tree.follow directory.dropLast rest
    else if maxName < step.utf8ByteSize then .error .nameTooLong
    else
      match tree.node? (directory ++ [step]) with
      | none => .error .notFound
      | some .directory => tree.follow (directory ++ [step]) rest
      | some (.file content) => if rest.isEmpty then .ok content else .error .notDirectory

/-- Reads a file as text. A relative path starts at the given directory. -/
def read (tree : FileTree) (directory : List String) (path : String) : Except FileError String :=
  if path.toList.contains (Char.ofNat 0) then .error .nulInName
  else if path.isEmpty then .error .notFound
  else if maxPath < path.utf8ByteSize then .error .nameTooLong
  else
    let start := if Path.isAbsolute path then [] else directory
    match tree.follow start (Path.steps path) with
    | .ok content =>
      match String.fromUTF8? content with
      | some text => .ok text
      | none => .error .notText
    | .error reason => .error reason

end FileTree

end ScriptLang
