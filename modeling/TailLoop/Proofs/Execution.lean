import Mathlib.Logic.Function.Basic
import TailLoop.Code.Print
import TailLoop.Lowering.Expr

/-!
# Running code

What the forms of target code mean: assignments change a frame, a branch runs
the first clause whose guard holds, `continue` starts the loop of the function
anew, and a call runs the loop of another function in a frame of its own.
Frames are indexed by the printed identifiers, so two variables that were
printed alike would share their value.  A name that a function assigns anywhere
is local to it and hides the function of that name.

Terms that fail, defer their work or talk to the outside have no meaning here:
code that reaches one does not return.
-/

namespace TailLoop

namespace Code

/-- A value of running code.  A constructed value is a tuple that starts with
its tag. -/
inductive Value where
  | int (value : Int)
  | str (value : Text)
  | tuple (items : List Value)

namespace Value

mutual

def decEq : (left right : Value) → Decidable (left = right)
  | .int m, .int n => decidable_of_iff (m = n) (by simp)
  | .str s, .str t => decidable_of_iff (s = t) (by simp)
  | .tuple items, .tuple others =>
      match decEqList items others with
      | isTrue same => isTrue (by rw [same])
      | isFalse different => isFalse fun same => different (by cases same; rfl)
  | .int _, .str _ => isFalse nofun
  | .int _, .tuple _ => isFalse nofun
  | .str _, .int _ => isFalse nofun
  | .str _, .tuple _ => isFalse nofun
  | .tuple _, .int _ => isFalse nofun
  | .tuple _, .str _ => isFalse nofun

def decEqList : (left right : List Value) → Decidable (left = right)
  | [], [] => isTrue rfl
  | [], _ :: _ => isFalse nofun
  | _ :: _, [] => isFalse nofun
  | value :: values, other :: others =>
      match decEq value other, decEqList values others with
      | isTrue first, isTrue rest => isTrue (by rw [first, rest])
      | isFalse different, _ =>
          isFalse fun same => different (by cases same; rfl)
      | _, isFalse different =>
          isFalse fun same => different (by cases same; rfl)

end

instance : DecidableEq Value := decEq

/-- The value of a comparison. -/
def ofBool (truth : Bool) : Value :=
  .int (if truth then 1 else 0)

/-- A constructed value. -/
def con (tag : Int) (fields : List Value) : Value :=
  .tuple (.int tag :: fields)

/-- The items after the first. -/
def fields : Value → List Value
  | .tuple (_ :: fields) => fields
  | _ => []

/-- An item at a position; negative positions count from the end. -/
def item? (value : Value) (index : Int) : Option Value :=
  let place (length : Nat) : Option Nat :=
    if 0 ≤ index then some index.toNat
    else if 0 ≤ length + index then some (length + index).toNat
    else none
  match value with
  | .tuple items => (place items.length).bind fun position => items[position]?
  | .str text =>
      (place text.length).bind fun position => text[position]?.map fun c =>
        .str [c]
  | .int _ => none

end Value

def BinaryOp.result? : BinaryOp → Value → Value → Option Value
  | .add, .int m, .int n => some (.int (m + n))
  | .add, .str s, .str t => some (.str (s ++ t))
  | .add, .tuple items, .tuple others => some (.tuple (items ++ others))
  | .sub, .int m, .int n => some (.int (m - n))
  | .mul, .int m, .int n => some (.int (m * n))
  | _, _, _ => none

/-- Integers are ordered by size and texts like words in a dictionary. -/
def CompareOp.result? : CompareOp → Value → Value → Option Bool
  | .eq, left, right => some (decide (left = right))
  | .lt, .int m, .int n => some (decide (m < n))
  | .le, .int m, .int n => some (decide (m ≤ n))
  | .gt, .int m, .int n => some (decide (n < m))
  | .ge, .int m, .int n => some (decide (n ≤ m))
  | .lt, .str s, .str t => some (!Text.le t s)
  | .le, .str s, .str t => some (Text.le s t)
  | .gt, .str s, .str t => some (!Text.le s t)
  | .ge, .str s, .str t => some (Text.le t s)
  | _, _, _ => none

/-- What a guard says about the value of its subject, if it can be asked. -/
def Guard.holds? (value : Value) : Guard → Option Bool
  | .hasTag tag _ =>
      (value.item? 0).bind fun first => CompareOp.result? .eq first (.int tag)
  | .equals (.int constant) => CompareOp.result? .eq value (.int constant)
  | .equals (.str constant) => CompareOp.result? .eq value (.str constant)
  | .equals _ => none
  | .tagBelow tag =>
      (value.item? 0).bind fun first => CompareOp.result? .lt first (.int tag)
  | .otherwise => some true

/-- The suite of the first clause whose guard holds. -/
def Clause.chosen? (value : Value) : List Clause → Option (List Stmt)
  | [] => none
  | .mk guard body :: clauses =>
      match guard.holds? value with
      | some true => some body
      | some false => chosen? value clauses
      | none => none

end Code

/-- The values of variables. -/
abbrev Store (κ : Type) := κ → Option Code.Value

namespace Store

variable {κ : Type}

def empty : Store κ := fun _ => none

variable [DecidableEq κ]

def set (store : Store κ) (key : κ) (value : Code.Value) : Store κ :=
  Function.update store key (some value)

/-- Assigns values to keys, one after the other. -/
def setAll (store : Store κ) : List κ → List Code.Value → Store κ
  | key :: keys, value :: values => (store.set key value).setAll keys values
  | _, _ => store

end Store

namespace Code

namespace Stmt

mutual

/-- The variables that a statement assigns or defines.  The body of a nested
function assigns variables of its own. -/
@[simp] def writes : Stmt → List Var
  | .assign target _ => [target]
  | .unpack targets _ => targets.map .named
  | .rebind targets _ => targets.map .named
  | .continue => []
  | .unreachable => []
  | .branch _ clauses => writesClauses clauses
  | .define name _ _ _ _ => [name]

@[simp] def writesList : List Stmt → List Var
  | [] => []
  | stmt :: stmts => writes stmt ++ writesList stmts

@[simp] def writesClauses : List Clause → List Var
  | [] => []
  | .mk _ body :: clauses => writesList body ++ writesClauses clauses

end

@[simp] theorem writesList_append (first second : List Stmt) :
    writesList (first ++ second) = writesList first ++ writesList second := by
  induction first with
  | nil => rfl
  | cons stmt first ih =>
      simp [ih]

@[simp] theorem writesClauses_append (first second : List Clause) :
    writesClauses (first ++ second) = writesClauses first ++
      writesClauses second := by
  induction first with
  | nil => rfl
  | cons clause first ih =>
      cases clause
      simp [ih]

end Stmt

/-- A function with its body. -/
structure Definition where
  name : Text
  params : List Text
  body : Block

/-- The identifiers that belong to the function itself. -/
def Definition.locals (definition : Definition) : List Text :=
  definition.params ++ (Stmt.writesList definition.body.statements).map
    Var.identifier

/-- The functions of a script, in the order of their definitions. -/
abbrev Module := List Definition

/-- A later definition replaces an earlier one of the same name. -/
def Module.find? (module : Module) (name : Text) : Option Definition :=
  module.reverse.find? fun definition => definition.name = name

/-- How a suite ends: at its end, or by a restart of the function. -/
inductive Ending where
  | next (frame : Store Text)
  | restart (frame : Store Text)

mutual

/-- The value of a term in a frame of a function. -/
inductive Term.Yields (module : Module) :
    Definition → Store Text → Term → Value → Prop where
  | var {self : Definition} {frame : Store Text} {v : Var} {value : Value} :
      frame v.identifier = some value →
      Term.Yields module self frame (.var v) value
  | int {self : Definition} {frame : Store Text} {value : Int} :
      Term.Yields module self frame (.int value) (.int value)
  | str {self : Definition} {frame : Store Text} {value : Text} :
      Term.Yields module self frame (.str value) (.str value)
  | paren {self : Definition} {frame : Store Text} {body : Term}
      {value : Value} :
      Term.Yields module self frame body value →
      Term.Yields module self frame (.paren body) value
  | tuple {self : Definition} {frame : Store Text} {items : List Term}
      {values : List Value} :
      Term.YieldsAll module self frame items values →
      Term.Yields module self frame (.tuple items) (.tuple values)
  | item {self : Definition} {frame : Store Text} {body : Term} {index : Int}
      {value result : Value} :
      Term.Yields module self frame body value →
      value.item? index = some result →
      Term.Yields module self frame (.item body index) result
  | binary {self : Definition} {frame : Store Text} {op : BinaryOp}
      {left right : Term} {first second result : Value} :
      Term.Yields module self frame left first →
      Term.Yields module self frame right second →
      op.result? first second = some result →
      Term.Yields module self frame (.binary op left right) result
  | compare {self : Definition} {frame : Store Text} {op : CompareOp}
      {left right : Term} {first second : Value} {truth : Bool} :
      Term.Yields module self frame left first →
      Term.Yields module self frame right second →
      op.result? first second = some truth →
      Term.Yields module self frame (.compare op left right)
        (Value.ofBool truth)
  | call {self callee : Definition} {frame : Store Text} {v : Var}
      {args : List Term} {values : List Value} {result : Value} :
      v.identifier ∉ self.locals →
      module.find? v.identifier = some callee →
      Term.YieldsAll module self frame args values →
      Definition.Returns module callee values result →
      Term.Yields module self frame (.call (.var v) args) result

inductive Term.YieldsAll (module : Module) :
    Definition → Store Text → List Term → List Value → Prop where
  | nil {self : Definition} {frame : Store Text} :
      Term.YieldsAll module self frame [] []
  | cons {self : Definition} {frame : Store Text} {term : Term}
      {terms : List Term} {value : Value} {values : List Value} :
      Term.Yields module self frame term value →
      Term.YieldsAll module self frame terms values →
      Term.YieldsAll module self frame (term :: terms) (value :: values)

/-- The run of a suite in a frame of a function. -/
inductive Stmt.Runs (module : Module) :
    Definition → Store Text → List Stmt → Ending → Prop where
  | nil {self : Definition} {frame : Store Text} :
      Stmt.Runs module self frame [] (.next frame)
  | assign {self : Definition} {frame : Store Text} {target : Var} {term : Term}
      {value : Value} {rest : List Stmt} {ending : Ending} :
      Term.Yields module self frame term value →
      Stmt.Runs module self (frame.set target.identifier value) rest ending →
      Stmt.Runs module self frame (.assign target term :: rest) ending
  | unpack {self : Definition} {frame : Store Text} {targets : List Name}
      {subject : Var} {first : Value} {fields : List Value} {rest : List Stmt}
      {ending : Ending} :
      frame subject.identifier = some (.tuple (first :: fields)) →
      fields.length = targets.length →
      Stmt.Runs module self (frame.setAll (targets.map Name.identifier) fields)
        rest ending →
      Stmt.Runs module self frame (.unpack targets subject :: rest) ending
  | rebind {self : Definition} {frame : Store Text} {targets : List Name}
      {terms : List Term} {values : List Value} {rest : List Stmt}
      {ending : Ending} :
      Term.YieldsAll module self frame terms values →
      values.length = targets.length →
      Stmt.Runs module self (frame.setAll (targets.map Name.identifier) values)
        rest ending →
      Stmt.Runs module self frame (.rebind targets terms :: rest) ending
  | continue {self : Definition} {frame : Store Text} {rest : List Stmt} :
      Stmt.Runs module self frame (.continue :: rest) (.restart frame)
  | branch {self : Definition} {frame middle : Store Text} {subject : Var}
      {value : Value} {clauses : List Clause} {suite rest : List Stmt}
      {ending : Ending} :
      frame subject.identifier = some value →
      Clause.chosen? value clauses = some suite →
      Stmt.Runs module self frame suite (.next middle) →
      Stmt.Runs module self middle rest ending →
      Stmt.Runs module self frame (.branch subject clauses :: rest) ending
  | branchRestart {self : Definition} {frame last : Store Text} {subject : Var}
      {value : Value} {clauses : List Clause} {suite rest : List Stmt} :
      frame subject.identifier = some value →
      Clause.chosen? value clauses = some suite →
      Stmt.Runs module self frame suite (.restart last) →
      Stmt.Runs module self frame (.branch subject clauses :: rest)
        (.restart last)

/-- The loop of a function from a frame on.  Without a value to return the loop
starts again at the end of its body. -/
inductive Definition.Loops (module : Module) :
    Definition → Store Text → Value → Prop where
  | return {self : Definition} {frame last : Store Text} {value : Value} :
      Stmt.Runs module self frame self.body.statements (.next last) →
      Term.Yields module self last self.body.value value →
      Definition.Loops module self frame value
  | restart {self : Definition} {frame last : Store Text} {value : Value} :
      Stmt.Runs module self frame self.body.statements (.restart last) →
      Definition.Loops module self last value →
      Definition.Loops module self frame value
  | again {self : Definition} {frame last : Store Text} {value : Value} :
      Stmt.Runs module self frame self.body.statements (.next last) →
      self.body.value.isRestart = true →
      Definition.Loops module self last value →
      Definition.Loops module self frame value

/-- The value of a call. -/
inductive Definition.Returns (module : Module) :
    Definition → List Value → Value → Prop where
  | enter {self : Definition} {args : List Value} {value : Value} :
      args.length = self.params.length →
      Definition.Loops module self (Store.empty.setAll self.params args) value →
      Definition.Returns module self args value

end

theorem Term.Yields.isRestart_eq_false {module : Module} {self : Definition}
    {frame : Store Text} {term : Term} {value : Value}
    (yields : Term.Yields module self frame term value) :
    term.isRestart = false := by
  cases yields <;> rfl

mutual

theorem Term.Yields.unique {module : Module} {self : Definition}
    {frame : Store Text} {term : Term} {value other : Value} :
    Term.Yields module self frame term value →
    Term.Yields module self frame term other →
      value = other
  | .var read, .var read' => Option.some.inj (read.symm.trans read')
  | .int, .int => rfl
  | .str, .str => rfl
  | .paren body, .paren body' => body.unique body'
  | .tuple items, .tuple items' => by rw [items.unique items']
  | .item body selected, .item body' selected' => by
      cases body.unique body'
      exact Option.some.inj (selected.symm.trans selected')
  | .binary left right applied, .binary left' right' applied' => by
      cases left.unique left'
      cases right.unique right'
      exact Option.some.inj (applied.symm.trans applied')
  | .compare left right applied, .compare left' right' applied' => by
      cases left.unique left'
      cases right.unique right'
      rw [Option.some.inj (applied.symm.trans applied')]
  | .call _ found args returned, .call _ found' args' returned' => by
      cases Option.some.inj (found.symm.trans found')
      cases args.unique args'
      exact returned.unique returned'
termination_by structural first => first

theorem Term.YieldsAll.unique {module : Module} {self : Definition}
    {frame : Store Text} {terms : List Term} {values others : List Value} :
    Term.YieldsAll module self frame terms values →
      Term.YieldsAll module self frame terms others → values = others
  | .nil, .nil => rfl
  | .cons head tail, .cons head' tail' => by
      rw [head.unique head', tail.unique tail']
termination_by structural first => first

theorem Stmt.Runs.unique {module : Module} {self : Definition}
    {frame : Store Text} {suite : List Stmt} {ending other : Ending} :
    Stmt.Runs module self frame suite ending →
    Stmt.Runs module self frame suite other →
      ending = other
  | .nil, .nil => rfl
  | .assign term rest, .assign term' rest' => by
      cases term.unique term'
      exact rest.unique rest'
  | .unpack read _ rest, .unpack read' _ rest' => by
      cases Option.some.inj (read.symm.trans read')
      exact rest.unique rest'
  | .rebind terms _ rest, .rebind terms' _ rest' => by
      cases terms.unique terms'
      exact rest.unique rest'
  | .continue, .continue => rfl
  | .branch read chosen body rest, .branch read' chosen' body' rest' => by
      cases Option.some.inj (read.symm.trans read')
      cases Option.some.inj (chosen.symm.trans chosen')
      cases body.unique body'
      exact rest.unique rest'
  | .branch read chosen body _, .branchRestart read' chosen' body' => by
      cases Option.some.inj (read.symm.trans read')
      cases Option.some.inj (chosen.symm.trans chosen')
      cases body.unique body'
  | .branchRestart read chosen body, .branch read' chosen' body' _ => by
      cases Option.some.inj (read.symm.trans read')
      cases Option.some.inj (chosen.symm.trans chosen')
      cases body.unique body'
  | .branchRestart read chosen body, .branchRestart read' chosen' body' => by
      cases Option.some.inj (read.symm.trans read')
      cases Option.some.inj (chosen.symm.trans chosen')
      exact body.unique body'
termination_by structural first => first

/-- The body ends in one way only, so two loops from one frame take the same
turns. -/
theorem Definition.Loops.unique {module : Module} {self : Definition}
    {frame : Store Text} {value other : Value} :
    Definition.Loops module self frame value →
    Definition.Loops module self frame other →
      value = other
  | .return body term, .return body' term' => by
      cases body.unique body'
      exact term.unique term'
  | .return body _, .restart body' _ => by
      cases body.unique body'
  | .return _ term, .again _ noValue _ => by
      rw [term.isRestart_eq_false] at noValue
      cases noValue
  | .restart body _, .return body' _ => by
      cases body.unique body'
  | .restart body rest, .restart body' rest' => by
      cases body.unique body'
      exact rest.unique rest'
  | .restart body _, .again body' _ _ => by
      cases body.unique body'
  | .again _ noValue _, .return _ term => by
      rw [term.isRestart_eq_false] at noValue
      cases noValue
  | .again body _ _, .restart body' _ => by
      cases body.unique body'
  | .again body _ rest, .again body' _ rest' => by
      cases body.unique body'
      exact rest.unique rest'
termination_by structural first => first

theorem Definition.Returns.unique {module : Module} {self : Definition}
    {args : List Value} {value other : Value} :
    Definition.Returns module self args value →
    Definition.Returns module self args other →
      value = other
  | .enter _ loop, .enter _ loop' => loop.unique loop'
termination_by structural first => first

end

end Code

end TailLoop
