import TailLoop.Proofs.Execution

/-!
# Evaluating expressions

What the strict part of the source language means: variables, calls of the
functions of a program by name, bindings, constructed values, case analyses,
fields, integers, texts, and arithmetic and comparisons on them.  Arguments are
evaluated before a call, names mean what the innermost binding around them says,
and a case analysis takes the first alternative that matches.  Constructed
values are tuples that start with their tag, as they are when code runs.
-/

namespace TailLoop

open Code (Value)

/-- What a pattern says about a value, if it can be asked.  Only constructed
values are held against constructors. -/
def Pattern.matches? (tags : TagTable) (value : Value) : Pattern → Option Bool
  | .con ctor _ =>
      match value with
      | .tuple (.int tag :: _) =>
          (tags.tagOf? ctor).map fun own => decide (own = tag)
      | _ => none
  | .const (.int constant) => some (decide (value = .int constant))
  | .const (.string constant) => some (decide (value = .str constant))
  | .const _ => none
  | .default => some true

/-- A pattern for constructed values of a tag. -/
def Pattern.hasTag (tags : TagTable) (tag : Int) : Pattern → Bool
  | .con ctor _ => tags.tagOf? ctor == some tag
  | _ => false

/-- The first item in a list whose pattern matches a value, if there is one. -/
inductive Chooses (tags : TagTable) (value : Value) {α : Type}
    (pattern : α → Pattern) :
    List α → Option α → Prop where
  | nil : Chooses tags value pattern [] none
  | here {item : α} {items : List α} :
      (pattern item).matches? tags value = some true →
      Chooses tags value pattern (item :: items) (some item)
  | there {item : α} {items : List α} {chosen : Option α} :
      (pattern item).matches? tags value = some false →
      Chooses tags value pattern items chosen →
      Chooses tags value pattern (item :: items) chosen

namespace Chooses

variable {tags : TagTable} {value : Value} {α β : Type} {pattern : α → Pattern}
  {items : List α}

theorem unique {chosen other : Option α}
    (first : Chooses tags value pattern items chosen)
      (second : Chooses tags value pattern items other) : chosen = other := by
  induction first with
  | nil =>
      cases second with
      | nil => rfl
  | here agrees =>
      cases second with
      | here => rfl
      | there denies =>
          rw [agrees] at denies
          cases denies
  | there denies _ ih =>
      cases second with
      | here agrees =>
          rw [agrees] at denies
          cases denies
      | there _ rest => exact ih rest

theorem map {chosen : Option α}
    (chooses : Chooses tags value pattern items chosen) {pattern' : β → Pattern}
    (f : α → β) (same : ∀ item, pattern' (f item) = pattern item) :
    Chooses tags value pattern' (items.map f) (chosen.map f) := by
  induction chooses with
  | nil => exact .nil
  | here agrees => exact .here (by rw [same]; exact agrees)
  | there denies _ ih => exact .there (by rw [same]; exact denies) ih

theorem mem {item : α}
    (chooses : Chooses tags value pattern items (some item)) :
    item ∈ items ∧ (pattern item).matches? tags value = some true := by
  generalize chosenIs : some item = chosen at chooses
  induction chooses with
  | nil => cases chosenIs
  | here agrees =>
      cases chosenIs
      exact ⟨List.mem_cons_self, agrees⟩
  | there _ _ ih =>
      exact ⟨List.mem_cons_of_mem _ (ih chosenIs).1, (ih chosenIs).2⟩

theorem none_denies (chooses : Chooses tags value pattern items none) :
    ∀ item ∈ items, (pattern item).matches? tags value = some false := by
  generalize chosenIs : none = chosen at chooses
  induction chooses with
  | nil => nofun
  | here => cases chosenIs
  | there denies _ ih =>
      intro item member
      rcases List.mem_cons.mp member with rfl | later
      · exact denies
      · exact ih chosenIs item later

end Chooses

/-- Only a constructed value can be held against a constructor. -/
theorem Pattern.matches?_con_eq_some {tags : TagTable} {value : Value}
    {ctor : Name} {args : List Name} {truth : Bool}
    (answer : (Pattern.con ctor args).matches? tags value = some truth) :
    ∃ own tag fields, tags.tagOf? ctor = some own ∧
    value = Value.con tag fields ∧
      truth = decide (own = tag) := by
  unfold Pattern.matches? at answer
  cases value with
  | tuple items =>
      match items, answer with
      | .int tag :: fields, answer =>
          obtain ⟨own, found, rfl⟩ := Option.map_eq_some_iff.mp answer
          exact ⟨own, tag, fields, found, rfl, rfl⟩
  | _ => cases answer

/-- Integers are ordered by size and texts like words in a dictionary. -/
def Code.Value.below? : Value → Value → Option Bool
  | .int m, .int n => some (decide (m < n))
  | .str s, .str t => some (!Text.le t s)
  | _, _ => none

namespace PrimOp

def arithmetic? : PrimOp → Option (Int → Int → Int)
  | .plus => some (· + ·)
  | .minus => some (· - ·)
  | .times => some (· * ·)
  | _ => none

/-- What a comparison says about two values; the sign of numbers always
counts. -/
def comparison? (op : PrimOp) (left right : Value) : Option Bool :=
  match op with
  | .eq | .strEq => some (decide (left = right))
  | .lt | .slt | .strLt => left.below? right
  | .gt | .sgt => right.below? left
  | .le | .sle => (right.below? left).map (!·)
  | .ge | .sge => (left.below? right).map (!·)
  | _ => none

/-- The value of an operation on two values. -/
def value? (op : PrimOp) (left right : Value) : Option Value :=
  match op.arithmetic?, left, right with
  | some operation, .int m, .int n => some (.int (operation m n))
  | some _, _, _ => none
  | none, left, right => (op.comparison? left right).map Value.ofBool

end PrimOp

/-- What the names around an expression are bound to. -/
abbrev Env := Store Name

/-- Binds the fields of a value to the names of a pattern. -/
def Pattern.bind? (env : Env) (value : Value) : Pattern → Option Env
  | .con _ args =>
      if value.fields.length = args.length then
        some (env.setAll args value.fields) else none
  | _ => some env

def Program.function? (program : Program) (name : Name) : Option Function :=
  program.functions.find? fun function => function.name = name

mutual

/-- The value of an expression. -/
inductive Evaluates (program : Program) (tags : TagTable) : Env → Expr → Value →
    Prop where
  | var {env : Env} {name : Name} {value : Value} :
      env name = some value →
      Evaluates program tags env (.var (.named name)) value
  | app {env : Env} {name : Name} {args : List Expr} {tail : Bool}
      {function : Function} {values : List Value} {value : Value} :
      env name = none →
      program.function? name = some function →
      EvaluatesAll program tags env args values →
      Applies program tags function values value →
      Evaluates program tags env (.app (.var (.named name)) args tail) value
  | letIn {env : Env} {name : Name} {bound body : Expr} {first value : Value} :
      Evaluates program tags env bound first →
      Evaluates program tags (env.set name first) body value →
      Evaluates program tags env (.letIn name bound body) value
  | con {env : Env} {name : Name} {args : List Expr} {hint : Option Int}
      {tag : Int} {fields : List Value} :
      tags.tagOf? name = some tag →
      EvaluatesAll program tags env args fields →
      Evaluates program tags env (.con name args hint) (Value.con tag fields)
  | case {env inner : Env} {scrutinee : Expr} {alts : List Alt} {alt : Alt}
      {subject value : Value} :
      Evaluates program tags env scrutinee subject →
      Chooses tags subject Alt.pattern alts (some alt) →
      alt.pattern.bind? env subject = some inner →
      Evaluates program tags inner alt.body value →
      Evaluates program tags env (.case scrutinee alts) value
  | proj {env : Env} {body : Expr} {index : Int} {whole value : Value} :
      Evaluates program tags env body whole →
      0 ≤ index →
      whole.fields[index.toNat]? = some value →
      Evaluates program tags env (.proj body index) value
  | int {env : Env} {value : Int} :
      Evaluates program tags env (.lit (.int value)) (.int value)
  | string {env : Env} {value : Text} :
      Evaluates program tags env (.lit (.string value)) (.str value)
  | op {env : Env} {op : PrimOp} {kind : NumKind} {left right : Expr}
      {first second value : Value} :
      Evaluates program tags env left first →
      Evaluates program tags env right second →
      op.value? first second = some value →
      Evaluates program tags env (.op (.standard op kind) [left, right]) value

inductive EvaluatesAll (program : Program) (tags : TagTable) :
    Env → List Expr → List Value → Prop where
  | nil {env : Env} : EvaluatesAll program tags env [] []
  | cons {env : Env} {expr : Expr} {exprs : List Expr} {value : Value}
      {values : List Value} :
      Evaluates program tags env expr value →
      EvaluatesAll program tags env exprs values →
      EvaluatesAll program tags env (expr :: exprs) (value :: values)

/-- The value of a call: nothing but the parameters is bound in the body. -/
inductive Applies (program : Program) (tags : TagTable) :
    Function → List Value → Value → Prop where
  | enter {function : Function} {args : List Value} {value : Value} :
      args.length = function.params.length →
      Evaluates program tags (Store.empty.setAll function.params args)
        function.body value →
      Applies program tags function args value

end

end TailLoop
