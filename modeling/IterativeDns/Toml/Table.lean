import IterativeDns.Document

/-!
# Tables of TOML while they are read

The tables of a document are written in pieces: a header opens a table, dotted keys reach into
tables below it, and the tables on the way to both come into being by the way. What may still be
added to a table depends on how it came to be, so that is kept with it (`TableOrigin`); values,
among them the tables in braces, are complete as they stand.

* A header opens a table once. It may follow headers of tables below it.
* A dotted key adds only to tables that came to be by dotted keys, never to one with a header.
* A key is written once in a table.
* A header in double brackets adds a table to a sequence of tables; all that is said about the
  sequence later is said about its last table.
-/

namespace IterativeDns.Toml

/-- How a table came to be. -/
inductive TableOrigin where
  /-- By a header of its own, or as the whole document. -/
  | header
  /-- On the way to a table with a header. -/
  | path
  /-- On the way of a dotted key. -/
  | key
deriving DecidableEq, Repr

/-- A part of a document while it is read. -/
inductive Node where
  | value (d : Document)
  | table (origin : TableOrigin) (members : List (String × Node))
  /-- A sequence of tables: those that are complete, and the members of the last one. -/
  | tables (complete : List Document) (members : List (String × Node))

/-- The named parts of a table. -/
abbrev Members := List (String × Node)

mutual

/-- A part of a document once everything has been read. -/
def Node.toDocument : Node → Document
  | .value d => d
  | .table _ members => .table (documents members)
  | .tables complete members => .sequence (complete ++ [.table (documents members)])

/-- The parts of a table once everything has been read. -/
def documents : List (String × Node) → List (String × Document)
  | [] => []
  | (key, node) :: members => (key, node.toDocument) :: documents members

end

namespace Members

/-! ### Changing one member -/

/-- Replaces the member with a key by what `change` makes of it; `none` stands for a member that
is not there yet. -/
def alter? (key : String) (change : Option Node → Option Node) : Members → Option Members
  | [] => (change none).map fun node => [(key, node)]
  | (k, node) :: members =>
    if k = key then (change (some node)).map fun node => (k, node) :: members
    else (alter? key change members).map fun members => (k, node) :: members

/-- Changes the table at the end of a path, making the tables on the way that are not there yet.
`dotted` says whether the path is part of a dotted key. -/
def alterAt? (dotted : Bool) (change : TableOrigin → Members → Option Members) :
    List String → TableOrigin → Members → Option Members
  | [], origin, members => change origin members
  | key :: path, _, members =>
    let step : Option Node → Option Node
      | none =>
        let origin : TableOrigin := if dotted then .key else .path
        (alterAt? dotted change path origin []).map (.table origin)
      | some (.table origin inner) =>
        if dotted && origin = .header then none
        else (alterAt? dotted change path origin inner).map (.table origin)
      | some (.tables complete inner) =>
        (alterAt? dotted change path .header inner).map (.tables complete)
      | some (.value _) => none
    alter? key step members

/-! ### Statements -/

/-- Opens a table by its header. -/
def openTable? (path : List String) (key : String) : Members → Option Members :=
  let step : Option Node → Option Node
    | none => some (.table .header [])
    | some (.table .path inner) => some (.table .header inner)
    | some _ => none
  alterAt? false (fun _ members => alter? key step members) path .header

/-- Opens the next table of a sequence of tables by its header in double brackets. -/
def openItem? (path : List String) (key : String) : Members → Option Members :=
  let step : Option Node → Option Node
    | none => some (.tables [] [])
    | some (.tables complete inner) => some (.tables (complete ++ [.table (documents inner)]) [])
    | some _ => none
  alterAt? false (fun _ members => alter? key step members) path .header

/-- Puts a value under a key that is not there yet. -/
def add? (key : String) (d : Document) : Members → Option Members :=
  alter? key fun
    | none => some (.value d)
    | some _ => none

/-- Puts a value under a key, dotted if `path` is not empty, in the table with a given header. -/
def put? (header : List String) (path : List String) (key : String) (d : Document) :
    Members → Option Members :=
  let addTo (origin : TableOrigin) (members : Members) : Option Members :=
    if (origin == .key) == path.isEmpty then none else add? key d members
  alterAt? false (alterAt? true addTo path) header .header

end Members

end IterativeDns.Toml
