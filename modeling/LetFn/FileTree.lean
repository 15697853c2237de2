import LetFn.Failure

/-! Files and directories, and what reading a path in them gives. -/

namespace LetFn

/-- What was made in an otherwise empty directory: the parts of each path, and the content of a
file or `none` for a directory. The directories above a path exist, too. -/
structure FileTree where
  entries : List (List String × Option (List UInt8))

namespace FileTree

inductive Node where
  | file (content : List UInt8)
  | directory

/-- The names of a path, with an empty one between two slashes and behind a last one. -/
def parts (path : String) : List String := path.splitToList (· = '/')

/-- Empty parts and dots lead nowhere else. -/
def isIdle (part : String) : Bool := part = "" || part = "."

def ofEntries (entries : List (String × Option (List UInt8))) : FileTree :=
  ⟨entries.map fun (path, content) => ((parts path).filter (!isIdle ·), content)⟩

def node? (t : FileTree) (here : List String) : Option Node :=
  match t.entries.lookup here with
  | some (some content) => some (.file content)
  | some none => some .directory
  | none =>
    if here = [] || t.entries.any fun (entry, _) => here.isPrefixOf entry then some .directory
    else none

/-- Longer names, counted in bytes, cannot exist. -/
def longestName : Nat := 255

/-- Follows the parts of a path from outside of the tree, where no name is known. -/
def walkOutside : List String → Except IoFault Node
  | [] => .ok .directory
  | part :: rest =>
    if isIdle part || part = ".." then walkOutside rest
    else if longestName < part.utf8ByteSize then .error .invalidName
    else .error .notFound

/-- Follows the parts of a path from `here`; only directories can be passed through. -/
def walk (t : FileTree) (here : List String) : List String → Except IoFault Node
  | [] =>
    match t.node? here with
    | some node => .ok node
    | none => .error .notFound
  | part :: rest =>
    match t.node? here with
    | some .directory =>
      if isIdle part then t.walk here rest
      else if part = ".." then if here = [] then walkOutside rest else t.walk here.dropLast rest
      else if longestName < part.utf8ByteSize then .error .invalidName
      else t.walk (here ++ [part]) rest
    | some (.file _) => .error .notADirectory
    | none => .error .notFound

/-- The content of the file at a path. -/
def read (t : FileTree) (path : String) : Except IoFault (List UInt8) :=
  if path.contains '\x00' then .error .invalidInput
  else if path = "" then .error .notFound
  else
    match if path.startsWith "/" then walkOutside (parts path) else t.walk [] (parts path) with
    | .ok (.file content) => .ok content
    | .ok .directory => .error .isADirectory
    | .error fault => .error fault

end FileTree

end LetFn
