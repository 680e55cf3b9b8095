import TailLoop.Core.Program
import TailLoop.Diagnostic

/-!
# Constructor tags

Constructors keep the tags they are given.  The others take, in the order of
their declarations, the least numbers that are left.
-/

namespace TailLoop

/-- The tag of each constructor of a program. -/
structure TagTable where
  entries : List (Name × Int)

namespace TagTable

def empty : TagTable := ⟨[]⟩

def tagOf? (table : TagTable) (name : Name) : Option Int :=
  table.entries.lookup name

/-- Why declarations have no tag table. -/
inductive Conflict where
  | repeated (name : Name)
  | negative (name : Name) (tag : Int)
  | shared (owner name : Name) (tag : Int)
deriving DecidableEq

def Conflict.message : Conflict → Text
  | .repeated name =>
      "constructor `" ++ name.text ++ "` is declared more than once"
  | .negative name tag =>
      "constructor `" ++ name.text ++ "` has negative tag " ++ Text.ofInt tag
  | .shared owner name tag =>
      "constructors `" ++ owner.text ++ "` and `" ++ name.text ++
        "` share tag " ++ Text.ofInt tag

def Conflict.diagnostic (conflict : Conflict) : Diagnostic :=
  ⟨.error, "E102", conflict.message, none, []⟩

/-- The conflicts of declarations after the given names and owners of tags. -/
def conflictsAfter (names : List Name) (owners : List (Int × Name)) :
    List Constructor → List Conflict
  | [] => []
  | c :: rest =>
      if c.name ∈ names then
        .repeated c.name :: conflictsAfter names owners rest
      else
        match c.tag with
        | none => conflictsAfter (c.name :: names) owners rest
        | some tag =>
            if tag < 0 then
              .negative c.name tag ::
                conflictsAfter (c.name :: names) owners rest
            else
              match owners.lookup tag with
              | some owner =>
                  .shared owner c.name tag ::
                    conflictsAfter (c.name :: names) owners rest
              | none =>
                  conflictsAfter (c.name :: names) ((tag, c.name) :: owners)
                    rest

def conflicts (constructors : List Constructor) : List Conflict :=
  conflictsAfter [] [] constructors

/-- The least number from `start` on that is no given tag. -/
def leastFree (given : List Int) (start : Nat) : Nat :=
  let candidates := (List.range (given.length + 1)).map (start + ·)
  (candidates.find? fun (candidate : Nat) => (candidate : Int) ∉ given).getD
  start

/-- Tags for all constructors; `next` bounds the tags that were assigned
before. -/
def assign (given : List Int) (next : Nat) :
    List Constructor → List (Name × Int)
  | [] => []
  | c :: rest =>
      match c.tag with
      | some tag => (c.name, tag) :: assign given next rest
      | none =>
          let tag := leastFree given next
          (c.name, (tag : Int)) :: assign given (tag + 1) rest

def ofConstructors (constructors : List Constructor) :
    Except (List Conflict) TagTable :=
  match conflicts constructors with
  | [] => .ok ⟨assign (constructors.filterMap Constructor.tag) 0 constructors⟩
  | conflicts => .error conflicts

end TagTable

end TailLoop
