import TailLoop.Json.Basic

/-!
# TOML documents

A document is a tree of tables that grows statement by statement.  Tables
written inline and arrays are frozen: nothing may be added to them afterwards.
A table opened by a header or by a dotted key is explicit and cannot be opened
by a header again; those of dotted keys become explicit at the next header.
-/

namespace TailLoop.Toml

/-- Why a text is not a document. -/
inductive Fault where
  | malformed
  | digitLimit (count : Nat)
deriving DecidableEq

/-- The members of a table in the order of their definition. -/
abbrev Table := List (Text × Json)

/-- The names on the way from one table to another. -/
abbrev Route := List Text

/-- A key: the tables it passes through, and the name it defines. -/
structure Key where
  parents : Route
  stem : Text

namespace Key

def route (key : Key) : Route := key.parents ++ [key.stem]

/-- The key one level further down. -/
def under (parent : Text) (key : Key) : Key :=
  ⟨parent :: key.parents, key.stem⟩

end Key

namespace Table

/-- Changes the table at the end of a route.  Missing tables on the way are
made; where `arrays` is set, an array stands for its last item. -/
def alter (arrays : Bool) (change : Table → Option Table) :
    Route → Table → Option Table
  | [], table => change table
  | name :: route, table =>
      match Json.find? name table with
      | none =>
          (alter arrays change route []).map fun inner =>
            Json.insert name (.obj inner) table
      | some (.obj inner) =>
          (alter arrays change route inner).map fun inner =>
            Json.insert name (.obj inner) table
      | some (.arr items) =>
          if arrays then
            match items.getLast? with
            | some (.obj inner) =>
                (alter arrays change route inner).map fun inner =>
                  Json.insert name (.arr (items.dropLast ++ [.obj inner])) table
            | _ => none
          else none
      | some _ => none

/-- Defines a name that has no value yet. -/
def define (name : Text) (value : Json) (table : Table) : Option Table :=
  match Json.find? name table with
  | none => some (Json.insert name value table)
  | some _ => none

/-- Adds an empty table to an array of tables, which is made if it is
missing. -/
def extend (name : Text) (table : Table) : Option Table :=
  match Json.find? name table with
  | none => some (Json.insert name (.arr [.obj []]) table)
  | some (.arr items) =>
      some (Json.insert name (.arr (items ++ [.obj []])) table)
  | some _ => none

end Table

/-- Some beginning of a route, or all of it, is among the given ones. -/
def covered (routes : List Route) (route : Route) : Bool :=
  routes.any fun beginning => !beginning.isEmpty && beginning.isPrefixOf route

/-- Whether values of this kind are closed to later statements. -/
def isContainer : Json → Bool
  | .arr _ => true
  | .obj _ => true
  | _ => false

structure Document where
  root : Table
  frozen : List Route
  explicit : List Route
  pending : List Route
  header : Route

namespace Document

def empty : Document := ⟨[], [], [], [], []⟩

def accept : Option Document → Except Fault Document
  | some document => .ok document
  | none => .error .malformed

/-- Makes the tables of dotted keys explicit, as a header ends their section. -/
def settle (document : Document) : Document :=
  { document with explicit := document.pending ++ document.explicit,
                    pending := [] }

/-- Opens a table by its header. -/
def openTable (key : Key) (document : Document) : Except Fault Document :=
  let document := document.settle
  let route := key.route
  if document.explicit.contains route || covered document.frozen route then
    .error .malformed
  else
    accept ((Table.alter true some route document.root).map fun root =>
      { document with root, explicit := route :: document.explicit,
                        header := route })

/-- Opens a further item of an array of tables by its header.  What was said
about the tables of the item before it is forgotten. -/
def openItem (key : Key) (document : Document) : Except Fault Document :=
  let document := document.settle
  let route := key.route
  if covered document.frozen route then .error .malformed
  else
    let outside := fun other : Route => !route.isPrefixOf other
    accept
      ((Table.alter true (Table.extend key.stem) key.parents document.root).map
      fun root =>
        { document with
          root, header := route,
          frozen := document.frozen.filter outside,
          explicit := route :: document.explicit.filter outside })

/-- Defines a key in the open table. -/
def assign (key : Key) (value : Json) (document : Document) :
    Except Fault Document :=
  let passed := (List.range key.parents.length).map fun i =>
    document.header ++ key.parents.take (i + 1)
  let parent := document.header ++ key.parents
  if passed.any document.explicit.contains ||
    covered document.frozen parent then
    .error .malformed
  else
    accept
      ((Table.alter true (Table.define key.stem value) parent document.root).map
      fun root =>
        { document with
          root, pending := passed ++ document.pending,
          frozen :=
            if isContainer value then (document.header ++ key.route) ::
              document.frozen
            else document.frozen })

end Document

end TailLoop.Toml
