import NoteQuery.Setting.Basic

namespace NoteQuery.Toml

/-- A part of a document under construction. -/
inductive Node where
  /-- A value, which nothing can be added to. -/
  | leaf (v : Setting)
  /-- A table. It is implicit until a header defines it, and dotted once a dotted key has gone
  through it. -/
  | table (isImplicit isDotted : Bool) (entries : List (Text × Node))
  /-- A list of tables that each came with a header. -/
  | tables (elements : List (List (Text × Node)))

abbrev Entries := List (Text × Node)

namespace Entries

def find? (key : Text) : Entries → Option Node
  | [] => none
  | (k, node) :: rest => if k = key then some node else find? key rest

def put (key : Text) (node : Node) : Entries → Entries
  | [] => [(key, node)]
  | (k, old) :: rest => if k = key then (k, node) :: rest else (k, old) :: put key node rest

/-- Changes the table at the end of a path below a table. Tables on the way are made if they are
missing. A dotted path does not go through a table that a header has defined, and makes every other
table on its way a dotted one. `finish` is told whether the table at the end is a dotted one. -/
def change (isDotted : Bool) (finish : Bool → Entries → Option Entries) :
    (path : List Text) → (here : Bool) → Entries → Option Entries
  | [], here, entries => finish here entries
  | key :: path, _, entries =>
    match entries.find? key with
    | none =>
      (change isDotted finish path isDotted []).map fun below =>
        entries.put key (.table true isDotted below)
    | some (.leaf _) => none
    | some (.table isImplicit madeDotted below) =>
      if isDotted && !isImplicit then none
      else
        let dotted := madeDotted || isDotted
        (change isDotted finish path dotted below).map fun below =>
          entries.put key (.table isImplicit dotted below)
    | some (.tables elements) =>
      match elements.getLast? with
      | none => none
      | some last =>
        (change isDotted finish path false last).map fun last =>
          entries.put key (.tables (elements.dropLast ++ [last]))

def addValue (path : List Text) (key : Text) (v : Setting) (entries : Entries) : Option Entries :=
  entries.change true (fun here below =>
    if here == path.isEmpty then none
    else match below.find? key with
      | some _ => none
      | none => some (below.put key (.leaf v))) path false

def openTable (path : List Text) (key : Text) (entries : Entries) : Option Entries :=
  entries.change false (fun _ below =>
    match below.find? key with
    | none => some (below.put key (.table false false []))
    | some (.table true false old) => some (below.put key (.table false false old))
    | some _ => none) path false

def openElement (path : List Text) (key : Text) (entries : Entries) : Option Entries :=
  entries.change false (fun _ below =>
    match below.find? key with
    | none => some (below.put key (.tables [[]]))
    | some (.tables elements) => some (below.put key (.tables (elements ++ [[]])))
    | some _ => none) path false

end Entries

mutual

def Node.setting : Node → Setting
  | .leaf v => v
  | .table _ _ entries => .table (settingsOf entries)
  | .tables elements => .list (settingsOfTables elements)

def settingsOf : Entries → Dictionary Setting
  | [] => []
  | entry :: rest => insertEntry entry (settingsOf rest)

def insertEntry : Text × Node → Dictionary Setting → Dictionary Setting
  | (key, node), d => d.insert key node.setting

def settingsOfTables : List Entries → List Setting
  | [] => []
  | entries :: rest => .table (settingsOf entries) :: settingsOfTables rest

end

end NoteQuery.Toml
