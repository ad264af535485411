import DotFraming.Fault

/-!
# Trees of files

* `FileTree` : files and directories by their paths, seen from a working directory.
* `FileTree.step` : one name of a path. Which fault is found depends on the place that the path has
  come to: the names are followed one after the other, and the first fault counts.
* `FileTree.read` : the content of the file that a path leads to.

Paths and names are texts. A path whose bytes are no text is not modelled.
-/

namespace DotFraming

/-- What has a name in a directory. -/
inductive FileNode where
  /-- A file. -/
  | file (content : List UInt8)
  /-- A directory. -/
  | directory
  deriving DecidableEq, Repr

/-- The files and directories below a working directory, by the names that lead to them. The
directories on the way to a file need no mention. -/
structure FileTree where
  /-- The files and directories. -/
  nodes : List (List Text × FileNode)

namespace FileTree

/-- Where a path has come to. -/
inductive Place where
  /-- The working directory or one below it, by the names that lead there. -/
  | inside (names : List Text)
  /-- A directory above the working directory, where nothing else is known to be. -/
  | outside
  /-- A file. -/
  | file (content : List UInt8)
  deriving DecidableEq, Repr

/-- What the names lead to. -/
def node? (t : FileTree) (names : List Text) : Option FileNode :=
  match t.nodes.find? fun n => n.1 == names with
  | some (_, node) => some node
  | none => if t.nodes.any fun n => names.isPrefixOf n.1 then some .directory else none

/-- The number of bytes that a text takes in UTF-8. -/
def utf8Size (t : Text) : Nat := (String.ofList t).utf8ByteSize

/-- The most bytes that a name can have. -/
def nameLimit : Nat := 255

/-- The most bytes that a path can have. -/
def pathLimit : Nat := 4095

/-- Follows one name. -/
def step (t : FileTree) (place : Place) (name : Text) : Except FileFault Place :=
  match place with
  | .file _ => .error .notDirectory
  | .outside =>
    if name = ['.'] ∨ name = ['.', '.'] then .ok .outside
    else if nameLimit < utf8Size name then .error .nameTooLong
    else .error .notFound
  | .inside names =>
    if name = ['.'] then .ok place
    else if name = ['.', '.'] then
      .ok (if names = [] then .outside else .inside names.dropLast)
    else if nameLimit < utf8Size name then .error .nameTooLong
    else
      match t.node? (names ++ [name]) with
      | none => .error .notFound
      | some (.file content) => .ok (.file content)
      | some .directory => .ok (.inside (names ++ [name]))

/-- Follows names one after the other. -/
def walk (t : FileTree) : Place → List Text → Except FileFault Place
  | place, [] => .ok place
  | place, name :: rest =>
    match t.step place name with
    | .ok place' => walk t place' rest
    | .error f => .error f

/-- The parts between the slashes. -/
def parts : Text → List Text
  | [] => [[]]
  | c :: t =>
    if c = '/' then [] :: parts t
    else
      match parts t with
      | p :: ps => (c :: p) :: ps
      | [] => [[c]]

/-- The names in a path. A slash at the end asks for a directory, as the name of the directory
itself would. -/
def names (path : Text) : List Text :=
  (parts path).filter (· ≠ []) ++ if path.getLast? = some '/' then [['.']] else []

/-- Where a path begins. -/
def start (path : Text) : Place := if path.head? = some '/' then .outside else .inside []

/-- The content of the file that a path leads to. -/
def open? (t : FileTree) (path : Text) : Except FileFault (List UInt8) :=
  if pathLimit < utf8Size path then .error .nameTooLong
  else
    match t.walk (start path) (names path) with
    | .error f => .error f
    | .ok (.file content) => .ok content
    | .ok _ => .error .isDirectory

/-- The content of the file that a path leads to. No path has a null character in it. -/
def read (t : FileTree) (path : Text) : Except Fault (List UInt8) :=
  if path.contains '\x00' then .error .nullInPath
  else
    match t.open? path with
    | .ok content => .ok content
    | .error f => .error (.file f (String.ofList path))

end FileTree

end DotFraming
