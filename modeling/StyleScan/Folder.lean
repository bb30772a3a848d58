import StyleScan.SystemError
import StyleScan.Utf8.Decoder

/-! # Folders

A folder is a tree of files and directories, seen from a working directory at its top.  Paths are
relative to that directory; what lies outside of it is known to be directories only, and holds
nothing that can be found. -/

namespace StyleScan

/-- What a name stands for. -/
inductive Node where
  | file (content : List UInt8)
  | directory
deriving Repr, DecidableEq, Inhabited

/-- The files and directories below a working directory, by their names from the top. -/
structure Folder where
  nodes : List (List String × Node)
deriving Repr, DecidableEq, Inhabited

namespace Folder

/-- A place that a path leads to. -/
inductive Place where
  /-- Below the working directory, or that directory itself. -/
  | inside (names : List String)
  /-- Somewhere else. -/
  | outside
deriving Repr, DecidableEq, Inhabited

/-- An empty folder. -/
def empty : Folder :=
  ⟨[]⟩

/-- What is at the given names. -/
def find? (f : Folder) (names : List String) : Option Node :=
  if names.isEmpty then some .directory
  else (f.nodes.find? (·.1 = names)).map (·.2)

/-- Puts a node at the given names, in the place of what is there. -/
def put (f : Folder) (names : List String) (node : Node) : Folder :=
  if (f.find? names).isSome then
    ⟨f.nodes.map fun entry => if entry.1 = names then (names, node) else entry⟩
  else ⟨f.nodes ++ [(names, node)]⟩

/-- Makes the directories that lead to the given names. -/
def makeParents (f : Folder) (names : List String) : Folder :=
  (List.range names.length).foldl
    (fun f k =>
      let above := names.take k
      if (f.find? above).isSome then f else f.put above .directory)
    f

/-- The parts of a path between its slashes. -/
def parts (path : String) : List String :=
  (path.splitOn "/").filter fun part => part ≠ "" ∧ part ≠ "."

/-- Adds a node at a path, with the directories that lead to it. -/
def add (f : Folder) (path : String) (node : Node) : Folder :=
  let names := parts path
  (f.makeParents names).put names node

/-- What is at a place. -/
def nodeAt? (f : Folder) : Place → Option Node
  | .inside names => f.find? names
  | .outside => some .directory

/-- The place that a name leads to from a directory. -/
def step : Place → String → Place
  | place, "" => place
  | place, "." => place
  | .inside [], ".." => .outside
  | .inside names, ".." => .inside names.dropLast
  | .inside names, name => .inside (names ++ [name])
  | .outside, _ => .outside

/-- Follows names from a place.  All of them but the last must lead to directories. -/
def follow (f : Folder) (place : Place) : List String → Except SystemError Place
  | [] => .ok place
  | name :: rest =>
    match f.nodeAt? place with
    | none => .error .notFound
    | some (.file _) => .error .notDirectory
    | some .directory =>
      if 255 < name.utf8ByteSize then .error .nameTooLong
      else if place = .outside ∧ name ≠ "" ∧ name ≠ "." ∧ name ≠ ".." then .error .notFound
      else follow f (step place name) rest

/-- The names of a path with the place where they begin. -/
def origin (path : String) : Except SystemError (Place × List String) :=
  if path.isEmpty then .error .notFound
  else if path.toList.contains '\x00' then .error .nulInPath
  else if 4096 ≤ path.utf8ByteSize then .error .nameTooLong
  else
    .ok (if path.startsWith "/" then .outside else .inside [], path.splitOn "/")

/-- The place that a path leads to. -/
def locate (f : Folder) (path : String) : Except SystemError Place := do
  let (start, names) ← origin path
  f.follow start names

/-- What is at a path. -/
def node (f : Folder) (path : String) : Except SystemError Node := do
  let place ← f.locate path
  match f.nodeAt? place with
  | some node => return node
  | none => .error .notFound

/-- The content of the file at a path. -/
def read (f : Folder) (path : String) : Except SystemError (List UInt8) := do
  match ← f.node path with
  | .file content => return content
  | .directory => .error .isDirectory

/-- The text of the file at a path. -/
def readText (f : Folder) (path : String) : Except SystemError String := do
  match Utf8.text? (← f.read path) with
  | some text => return text
  | none => .error .notText

/-- The place of a file that is to be written to at its end, whether or not it exists.  A path that
ends in a slash is taken for a directory, even if there is nothing of that name. -/
def writable (f : Folder) (path : String) : Except SystemError Place := do
  let (start, names) ← origin path
  let closed := (names.reverse.dropWhile String.isEmpty).reverse
  let last := closed.getLast?.getD ""
  let above ← f.follow start (closed.dropLast ++ [""])
  if closed ≠ names ∨ last = "." ∨ last = ".." then .error .isDirectory
  else
    let place ← f.follow above [last]
    match f.nodeAt? place with
    | some .directory => .error .isDirectory
    | _ => return place

/-- Whether what is written at the end of one path can be read from the other. -/
def isSame (f : Folder) (written read : String) : Bool :=
  match f.writable written, f.locate read with
  | .ok place, .ok place' => place = place'
  | _, _ => false

/-- Opens the file at a path for writing at its end.  A file that does not exist is made. -/
def openAppend (f : Folder) (path : String) : Except SystemError Folder := do
  match ← f.writable path with
  | .outside => .error .notFound
  | .inside names =>
    return if (f.find? names).isSome then f else f.put names (.file [])

/-- Writes at the end of the file at a path. -/
def append (f : Folder) (path : String) (bytes : List UInt8) : Folder :=
  match f.writable path with
  | .ok (.inside names) =>
    match f.find? names with
    | some (.file content) => f.put names (.file (content ++ bytes))
    | _ => f
  | _ => f

end Folder

end StyleScan
