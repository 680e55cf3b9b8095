import TailLoop.Code.Basic
import TailLoop.Contract.Breach
import TailLoop.Core.Expr

/-!
# Lowering

Lowering an expression emits the statements that prepare its value and yields a
term for the value.  It numbers temporaries and keeps track of the names bound
so far.
-/

namespace TailLoop

/-- What stays fixed while a function is lowered. -/
structure Context where
  tags : TagTable
  function : Name
  params : List Name
  /-- Deferred values freeze the variables that a restart would overwrite. -/
  freeze : Bool

namespace Lowering

inductive Fault where
  | breach (breach : Breach)
  /-- An index has more digits than are converted to text. -/
  | digitLimit
  /-- A decision tree was asked for alternatives that are not constructors. -/
  | notConstructors
  /-- A decision was asked for without any alternative. -/
  | noClauses

structure State where
  /-- The number of the next temporary. -/
  next : Nat
  bound : List Name

/-- The state at the start of a function. -/
def State.initial (params : List Name) : State :=
  ⟨1, params⟩

end Lowering

/-- A computation that emits statements. -/
def Lowering (α : Type) : Type :=
  Lowering.State → Except Lowering.Fault (α × Lowering.State × List Code.Stmt)

namespace Lowering

variable {α β : Type}

def pure (value : α) : Lowering α := fun state =>
  .ok (value, state, [])

/-- The statements of the first computation come first. -/
def bind (first : Lowering α) (next : α → Lowering β) : Lowering β :=
    fun state =>
  match first state with
  | .error fault => .error fault
  | .ok (value, state, emitted) =>
      match next value state with
      | .error fault => .error fault
      | .ok (result, state, further) => .ok (result, state, emitted ++ further)

instance : Monad Lowering where
  pure := Lowering.pure
  bind := Lowering.bind

def fail (fault : Fault) : Lowering α := fun _ =>
  .error fault

def refuse (breach : Breach) : Lowering α :=
  fail (.breach breach)

def emit (stmt : Code.Stmt) : Lowering Unit := fun state =>
  .ok ((), state, [stmt])

/-- The next temporary. -/
def fresh : Lowering Var := fun state =>
  .ok (.slot (-(state.next : Int)), { state with next := state.next + 1 }, [])

def declare (names : List Name) : Lowering Unit := fun state =>
  .ok ((), { state with bound := names ++ state.bound }, [])

def bound : Lowering (List Name) := fun state =>
  .ok (state.bound, state, [])

/-- Hands the emitted statements over instead of emitting them. -/
def suite (body : Lowering α) : Lowering (α × List Code.Stmt) := fun state =>
  match body state with
  | .error fault => .error fault
  | .ok (value, state, emitted) => .ok ((value, emitted), state, [])

/-- A suite that runs later: the names it binds are forgotten. -/
def deferred (body : Lowering α) : Lowering (α × List Code.Stmt) := fun state =>
  match body state with
  | .error fault => .error fault
  | .ok (value, after, emitted) =>
      .ok ((value, emitted), { after with bound := state.bound }, [])

/-- Assigns a value, unless there is none because the function was restarted. -/
def assign (target : Var) (value : Code.Term) : Lowering Unit :=
  if value.isRestart then pure () else emit (.assign target value)

def tagOf (context : Context) (name : Name) : Lowering Int :=
  match context.tags.tagOf? name with
  | some tag => pure tag
  | none => refuse (.undeclaredConstructor name)

end Lowering

end TailLoop
