import SdfShader.Settings.Files

/-!
# File trees

Files and directories below one root, as a value. A path is walked from the root step by step; every
step but the last must lead to a directory that is there, also one that goes nowhere or back up.
A path or a step that is too long leads nowhere.
-/

namespace SdfShader

/-- Names of the steps from the root to a file or directory. -/
abbrev Location := List String

inductive FileEntry
  | file (text : String)
  | directory
  deriving DecidableEq

/-- The root's name, and what is below it, every location once. -/
structure FileTree where
  root : String
  entries : List (Location × FileEntry)
  deriving DecidableEq

/-! ## Paths -/

namespace Path

/-- The steps of a path. Empty steps and those that stay where they are matter only at the end. -/
def steps (path : String) : List String :=
  (path.toList.splitOn '/').map String.ofList

/-- Whether a step stays in its directory. -/
def isStay (step : String) : Bool :=
  step = "" || step = "."

/-- Whether a text can be a path at all: fewer than 4096 bytes, none of them zero. -/
def isValid (path : String) : Bool :=
  path.utf8ByteSize < 4096 && path.toList.all (· ≠ '\x00')

/-- Whether a step can be the name of a file: at most 255 bytes. -/
def isName (step : String) : Bool :=
  step.utf8ByteSize ≤ 255

/-- The steps that lead somewhere. -/
def moves (path : String) : List String :=
  (steps path).filter (!isStay ·)

/-- Whether a path ends with the step that stays in its directory. -/
def endsInDot (path : String) : Bool :=
  ((steps path).reverse.dropWhile (· = "")).head? = some "."

/-- The path of the directory that holds a path: its text before the last step that leads somewhere,
up to the last but one. -/
def parent (path : String) : String :=
  let before := (((steps path).reverse.dropWhile isStay).drop 1).dropWhile isStay
  if before.isEmpty ∧ path.startsWith "/" then "/" else "/".intercalate before.reverse

end Path

namespace FileTree

def empty (root : String) : FileTree :=
  ⟨root, []⟩

/-! ## Entries -/

def find? (t : FileTree) (l : Location) : Option FileEntry :=
  if l = [] then some .directory else t.entries.lookup l

def isDirectory (t : FileTree) (l : Location) : Bool :=
  t.find? l = some .directory

/-- Puts an entry at a location, in the place of one that was there. -/
def put (t : FileTree) (l : Location) (e : FileEntry) : FileTree :=
  { t with entries := t.entries.filter (·.1 ≠ l) ++ [(l, e)] }

/-! ## Walking -/

/-- The path below the root: one that begins with the root's name, or a relative one. -/
def relative? (t : FileTree) (path : String) : Option String :=
  if path = t.root then some ""
  else if path.startsWith (t.root ++ "/") then
    some (String.ofList (path.toList.drop (t.root.length + 1)))
  else if path.startsWith "/" then none
  else some path

/-- Where one step leads from a location. -/
def move (t : FileTree) (l : Location) (step : String) : Option Location :=
  if !t.isDirectory l then none
  else if Path.isStay step then some l
  else if step = ".." then (if l = [] then none else some l.dropLast)
  else if Path.isName step then some (l ++ [step])
  else none

/-- Where a path leads; there need not be anything. -/
def locate? (t : FileTree) (path : String) : Option Location := do
  if Path.isValid path then (Path.steps (← t.relative? path)).foldlM t.move [] else none

/-! ## Access -/

def read? (t : FileTree) (path : String) : Option String := do
  match t.find? (← t.locate? path) with
  | some (.file text) => some text
  | _ => none

/-- Writes a file into a directory that is there. -/
def write? (t : FileTree) (path text : String) : Option FileTree := do
  let l ← t.locate? path
  if t.isDirectory l then none else some (t.put l (.file text))

/-- Walks along a path and makes the directories that are missing. -/
def makeDirectory (t : FileTree) (steps : List String) : FileTree × Bool :=
  go t [] steps
where
  go (t : FileTree) (l : Location) : List String → FileTree × Bool
    | [] => (t, true)
    | step :: rest =>
      match t.move l step with
      | none => (t, false)
      | some next =>
        match t.find? next with
        | some .directory => go t next rest
        -- A file stands in the way.
        | some (.file _) => (t, false)
        | none => go (t.put next .directory) next rest

/-- Makes the directory that a path leads to and those on its way. A text that can be no path makes
none; behind a final dot the directory must be there, so that only those above it are made. -/
def makeDirectories (t : FileTree) (path : String) : FileTree × Bool :=
  match if Path.isValid path then t.relative? path else none with
  | none => (t, false)
  | some path =>
    let moves := Path.moves path
    if Path.endsInDot path then
      let (t, _) := t.makeDirectory moves.dropLast
      (t, (moves.foldlM t.move []).any t.isDirectory)
    else t.makeDirectory moves

def makeParents (t : FileTree) (path : String) : FileTree × Bool :=
  t.makeDirectories (Path.parent path)

/-- Writes a file and the directories on its way. -/
def install (t : FileTree) (path text : String) : FileTree :=
  let t := (t.makeParents path).1
  (t.write? path text).getD t

/-- All files with their paths from the root, in the order of the paths. -/
def files (t : FileTree) : List (String × String) :=
  let found := t.entries.filterMap fun
    | (l, .file text) => some ("/".intercalate l, text)
    | (_, .directory) => none
  found.mergeSort fun a b => a.1 ≤ b.1

/-- Names in the root, with what they stand for. -/
def topEntries (t : FileTree) : List (String × FileEntry) :=
  t.entries.filterMap fun
    | ([name], e) => some (name, e)
    | _ => none

instance : FileAccess (StateM FileTree) where
  read path := do return (← get).read? path
  makeParents path := modifyGet fun t => (t.makeParents path).swap
  write path text := modifyGet fun t =>
    match t.write? path text with
    | some t => (true, t)
    | none => (false, t)

end FileTree
end SdfShader
