import SdfShader.Toml.Value

/-!
# Tables under construction

A document defines its tables piece by piece. Each table remembers how it came to be, which decides
how it may be extended: a header opens a table at most once, a header's longer path and a dotted key
make the tables on their way, and a dotted key enters no table that a header has opened.
-/

namespace SdfShader.Toml

/-- How a table came to be. -/
inductive Origin
  | header
  | implied
  | dotted
  deriving DecidableEq

/-- What a key stands for while the document is read. -/
inductive Item
  | value (v : Toml)
  | table (origin : Origin) (entries : List (String × Item))
  | tables (elements : List (List (String × Item)))

abbrev Entries := List (String × Item)

namespace Item

mutual

/-- The finished value. -/
def toValue : Item → Toml
  | value v => v
  | table _ entries => .table (valuesOf entries)
  | tables elements => .array (tablesOf elements)

def valuesOf : List (String × Item) → List (String × Toml)
  | [] => []
  | (key, item) :: rest => (key, item.toValue) :: valuesOf rest

def tablesOf : List (List (String × Item)) → List Toml
  | [] => []
  | entries :: rest => .table (valuesOf entries) :: tablesOf rest

end

end Item

namespace Entries

def find? (entries : Entries) (key : String) : Option Item :=
  entries.lookup key

/-- Gives a key another item, in its old place if it had one. -/
def put (key : String) (item : Item) : Entries → Entries
  | [] => [(key, item)]
  | (k, old) :: rest => if k = key then (k, item) :: rest else (k, old) :: put key item rest

/-- Changes the table at the end of a path by a function of its origin and entries, making the
tables that are missing on the way. In an array of tables the way leads through the last one. -/
def descend (made : Origin) (change : Origin → Entries → Option Entries) :
    List String → Origin → Entries → Option Entries
  | [], origin, entries => change origin entries
  | key :: path, _, entries =>
    match find? entries key with
    | none =>
      (descend made change path made []).map fun new => put key (.table made new) entries
    | some (.value _) => none
    | some (.table origin inner) =>
      -- Dotted keys enter no table that a header has opened.
      if made = .dotted ∧ origin = .header then none
      else (descend made change path origin inner).map fun new =>
        put key (.table origin new) entries
    | some (.tables elements) =>
      match elements.getLast? with
      | none => none
      | some last => (descend made change path .header last).map fun new =>
        put key (.tables (elements.dropLast ++ [new])) entries

/-- Defines a key that a dotted path leads to. Only tables made by dotted keys take keys from afar.
-/
def define (path : List String) (key : String) (v : Toml) (origin : Origin) (entries : Entries) :
    Option Entries :=
  descend .dotted (fun origin inner =>
    if (origin = .dotted) = (path = []) then none
    else if (find? inner key).isSome then none
    else some (put key (.value v) inner)) path origin entries

/-- Opens the table of a header; one that was only implied keeps what it has. -/
def openTable (path : List String) (key : String) (root : Entries) : Option Entries :=
  descend .implied (fun _ entries =>
    match find? entries key with
    | none => some (put key (.table .header []) entries)
    | some (.table .implied inner) => some (put key (.table .header inner) entries)
    | some _ => none) path .header root

/-- Appends a table to the array of a header. -/
def openElement (path : List String) (key : String) (root : Entries) : Option Entries :=
  descend .implied (fun _ entries =>
    match find? entries key with
    | none => some (put key (.tables [[]]) entries)
    | some (.tables elements) => some (put key (.tables (elements ++ [[]])) entries)
    | some _ => none) path .header root

/-- Defines a key in the table that the last header has opened. -/
def defineAt (cursor path : List String) (key : String) (v : Toml) (root : Entries) :
    Option Entries :=
  descend .implied (define path key v) cursor .header root

end Entries
end SdfShader.Toml
