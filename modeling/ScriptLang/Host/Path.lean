-- The names of files: joining them, comparing them and going up from them.
import ScriptLang.Text.Search

namespace ScriptLang

namespace Path

def isAbsolute (path : String) : Bool := Text.startsWith path "/"

/-- The steps of a path as they are written, empty ones included. -/
def steps (path : String) : List String := Text.split path "/"

/-- What identifies a path: its steps without empty ones and without dots, except that a dot at
the start of a relative path counts. -/
def components (path : String) : List String :=
  let plain := fun step => step ≠ "" ∧ step ≠ "."
  match steps path with
  | [] => []
  | first :: rest =>
    if isAbsolute path then "/" :: rest.filter plain
    else if first = "" then rest.filter plain
    else first :: rest.filter plain

/-- Whether two paths are the same by their components. -/
def same (a b : String) : Bool := components a == components b

/-- A path inside a directory. An absolute path stands for itself. -/
def join (directory path : String) : String :=
  if isAbsolute path || directory.isEmpty then path
  else if Text.endsWith directory "/" then directory ++ path
  else directory ++ "/" ++ path

/-- The directory of a path. The root and the empty path have none. -/
def parent? (path : String) : Option String :=
  match components path with
  | [] => none
  | ["/"] => none
  | "/" :: rest => some ("/" ++ "/".intercalate rest.dropLast)
  | steps => some ("/".intercalate steps.dropLast)

end Path

end ScriptLang
