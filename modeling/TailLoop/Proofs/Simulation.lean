import Mathlib.Data.List.Nodup
import TailLoop.Proofs.Frames

/-!
# Lowered code follows evaluation

Where an expression has a value, the code that was lowered from it runs to its
end and leaves a term of that value.  The term is often evaluated only after the
code of other expressions has run, so it has to keep its value as long as the
names in scope, the names the expression binds and its temporaries keep theirs.
In tail position the code may restart the function instead; the loop of the
function then returns the value.
-/

namespace TailLoop

open Code (Value Stmt Term Module Definition)
open Lowering

/-- The code of a function. -/
def Function.definition (function : Function) (block : Code.Block) :
    Definition :=
  ⟨function.name.identifier, function.params.map Name.identifier, block⟩

def Function.IsDefinedBy (tags : TagTable) (function : Function)
    (definition : Definition) :
    Prop :=
  ∃ block, function.lower tags = .ok block ∧
    definition = function.definition block

/-- A module holds the code of every function of a program, and the names that a
function binds are distinct from each other and from all functions. -/
structure Linked (program : Program) (tags : TagTable) (module : Module) :
    Prop where
  defined : ∀ name function, program.function? name = some function →
    ∃ block, function.lower tags = .ok block ∧
      module.find? name.identifier = some (function.definition block)
  distinct : ∀ name function, program.function? name = some function →
    (function.params ++ function.body.binders).Nodup
  apart : ∀ name function other host, program.function? name = some function →
    program.function? other = some host →
    name ∉ host.params ++ host.body.binders

/-- The function whose code runs. -/
structure Hosts (program : Program) (tags : TagTable) (host : Function)
    (definition : Definition) : Prop where
  found : program.function? host.name = some host
  lowered : host.IsDefinedBy tags definition

theorem Program.name_of_function? {program : Program} {name : Name}
    {function : Function} (found : program.function? name = some function) :
    function.name = name := by
  have named := List.find?_some found
  exact of_decide_eq_true named

/-- No function is hidden by a variable of the function whose code runs. -/
theorem Linked.not_mem_locals {program : Program} {tags : TagTable}
    {module : Module} {host function : Function} {self : Definition}
    {name : Name} (linked : Linked program tags module)
    (hosts : Hosts program tags host self)
    (found : program.function? name = some function) :
    name.identifier ∉ self.locals := by
  obtain ⟨block, lowered, rfl⟩ := hosts.lowered
  have absent := linked.apart name function host.name host found hosts.found
  obtain ⟨after, ran⟩ := Function.lower_eq_ok lowered
  have permits : Permits (host.context tags)
      (fun v => ∃ own ∈ host.params ++ host.body.binders, v = .named own)
      host.markedBody.binders (host.markedBody.restarts host.name) := by
    constructor
    · intro own member
      rw [Function.markedBody, Expr.binders_marked] at member
      exact ⟨own, List.mem_append_right _ member, rfl⟩
    · intro _ own member
      exact ⟨own, List.mem_append_left _ member, rfl⟩
  intro hidden
  rcases List.mem_append.mp hidden with param | assigned
  · obtain ⟨own, member, same⟩ := List.mem_map.mp param
    cases Name.identifier_injective same
    exact absent (List.mem_append_left _ member)
  · obtain ⟨v, written, same⟩ := List.mem_map.mp assigned
    have writes := (Expr.lower_confined permits ran).within
    have sameVar : v = .named name := Var.identifier_injective same
    subst sameVar
    rcases writes _ written with ⟨own, member, same⟩ | ⟨_, _, _, same⟩
    · cases same
      exact absent member
    · cases same

section Prepared

variable {module : Module} {self : Definition}

/-- Code runs to its end, and then something holds as long as some variables
keep their values. -/
def Prepares (module : Module) (self : Definition) (kept : Var → Prop)
    (frame : Store Text) (code : List Stmt) (holds : Store Text → Prop) :
    Prop :=
  ∃ final, Stmt.Runs module self frame code (.next final) ∧
    ∀ later, SameOn kept final later → holds later

namespace Prepares

variable {kept fewer : Var → Prop} {frame middle : Store Text}
    {code more : List Stmt}
  {holds alsoHolds : Store Text → Prop}

theorem mono (prepares : Prepares module self fewer frame code holds)
    (weaker : ∀ v, fewer v → kept v)
    (implies : ∀ later, holds later → alsoHolds later) :
    Prepares module self kept frame code alsoHolds := by
  obtain ⟨final, runs, stable⟩ := prepares
  exact ⟨final, runs, fun later same =>
    implies later (stable later (same.mono weaker))⟩

theorem prepend (runs : Stmt.Runs module self frame code (.next middle))
    (prepares : Prepares module self kept middle more holds) :
    Prepares module self kept frame (code ++ more) holds := by
  obtain ⟨final, runs', stable⟩ := prepares
  exact ⟨final, runs.append runs', stable⟩

/-- Code that runs later leaves alone what the first value needs. -/
theorem both {first second : Var → Prop}
    (prepares : Prepares module self first frame code holds)
    (next : ∀ middle, Stmt.Runs module self frame code (.next middle) →
      Prepares module self second middle more alsoHolds)
    (apart : ∀ v ∈ Stmt.writesList more, ¬ first v)
    (firstKept : ∀ v, first v → kept v) (secondKept : ∀ v, second v → kept v) :
    Prepares module self kept frame (code ++ more) fun later =>
      holds later ∧ alsoHolds later := by
  obtain ⟨middle, runs, stable⟩ := prepares
  obtain ⟨final, runs', stable'⟩ := next middle runs
  refine ⟨final, runs.append runs', ?_⟩
  intro later same
  exact ⟨stable later ((runs'.sameOn apart).trans (same.mono firstKept)),
    stable' later (same.mono secondKept)⟩

end Prepares

/-- Code leaves a term of a value, or restarts the function in a frame of some
kind. -/
def Finishes (module : Module) (self : Definition)
    (restarts : Store Text → Prop) (frame : Store Text) (code : List Stmt)
    (term : Term) (value : Value) : Prop :=
  (∃ final, Stmt.Runs module self frame code (.next final) ∧
    Term.Yields module self final term value) ∨
    ∃ last, Stmt.Runs module self frame code (.restart last) ∧ restarts last

namespace Finishes

variable {restarts : Store Text → Prop} {frame middle : Store Text}
    {code more : List Stmt}
  {term : Term} {value : Value}

theorem prepend (runs : Stmt.Runs module self frame code (.next middle))
    (finishes : Finishes module self restarts middle more term value) :
    Finishes module self restarts frame (code ++ more) term value := by
  rcases finishes with ⟨final, runs', yields⟩ | ⟨last, runs', loops⟩
  · exact .inl ⟨final, runs.append runs', yields⟩
  · exact .inr ⟨last, runs.append runs', loops⟩

/-- Where there is a value it can be assigned. -/
theorem assign (finishes : Finishes module self restarts frame code term value)
    (result : Var) :
    Finishes module self restarts frame
      (code ++ if term.isRestart then [] else [.assign result term])
      (.var result) value := by
  rcases finishes with ⟨final, runs, yields⟩ | ⟨last, runs, loops⟩
  · rw [yields.isRestart_eq_false]
    exact .inl ⟨_, runs.append (.assign yields .nil), .var (Store.set_self ..)⟩
  · exact .inr ⟨last, runs.append_of_restart _, loops⟩

end Finishes

theorem Prepares.finishes {kept : Var → Prop} {restarts : Store Text → Prop}
    {frame : Store Text} {code : List Stmt} {term : Term} {value : Value}
    (prepares : Prepares module self kept frame code fun later =>
      Term.Yields module self later term value) :
    Finishes module self restarts frame code term value := by
  obtain ⟨final, runs, stable⟩ := prepares
  exact .inl ⟨final, runs, stable final (.refl _ _)⟩

end Prepared

/-- The code of a function is about to evaluate something that binds some names:
the frame agrees with the environment, and nothing in scope is bound again. -/
structure Ready (program : Program) (tags : TagTable) (host : Function)
    (definition : Definition) (scope : List Name) (env : Env)
    (frame : Store Text) (names : List Name) : Prop where
  hosts : Hosts program tags host definition
  within : ∀ name, env name ≠ none → name ∈ scope
  distinct : (scope ++ names).Nodup
  agrees : Agrees env frame

section Statements

variable (program : Program) (tags : TagTable) (module : Module)

/-- The code of an expression prepares its value. -/
def Simulates (env : Env) (expr : Expr) (value : Value) : Prop :=
  ∀ ⦃host self scope frame⦄,
    Ready program tags host self scope env frame expr.binders →
    ∀ ⦃state term after code⦄,
      expr.unmarked.lower (host.context tags) state = .ok (term, after, code) →
      Prepares module self (Kept (scope ++ expr.binders) state.next after.next)
        frame code fun later => Term.Yields module self later term value

def SimulatesAll (env : Env) (exprs : List Expr) (values : List Value) : Prop :=
  ∀ ⦃host self scope frame⦄,
    Ready program tags host self scope env frame (Expr.bindersList exprs) →
    ∀ ⦃state terms after code⦄,
      Expr.lowerList (host.context tags) (Expr.unmarkedList exprs) state =
        .ok (terms, after, code) →
      Prepares module self
        (Kept (scope ++ Expr.bindersList exprs) state.next after.next)
        frame code fun later => Term.YieldsAll module self later terms values

/-- The code of an expression in tail position leaves its value, or restarts the
function in a frame from which the loop of the function returns the value. -/
def SimulatesTail (env : Env) (expr : Expr) (value : Value) : Prop :=
  ∀ ⦃host self scope frame⦄,
    Ready program tags host self scope env frame expr.binders →
    ∀ ⦃state term after code⦄,
      (expr.marked host.name).lower (host.context tags) state =
        .ok (term, after, code) →
      Finishes module self (fun last => Definition.Loops module self last value)
        frame code term value

/-- The loop of a function returns the value of a call. -/
def SimulatesCall (function : Function) (args : List Value) (value : Value) :
    Prop :=
  args.length = function.params.length ∧
    ∀ ⦃self frame⦄, Hosts program tags function self →
      Agrees (Store.empty.setAll function.params args) frame →
      Definition.Loops module self frame value

end Statements

/-- The fields of a constructed value stand after its tag. -/
theorem Code.Value.item?_succ {whole value : Value} {index : Int}
    (positive : 0 ≤ index)
    (selected : whole.fields[index.toNat]? = some value) :
    whole.item? (index + 1) = some value := by
  cases whole with
  | tuple items =>
      cases items with
      | nil => cases selected
      | cons first others =>
          have place : (index + 1).toNat = index.toNat + 1 := by omega
          have above : 0 ≤ index + 1 := by omega
          simpa [item?, above, place, fields] using selected
  | _ => cases selected

namespace Code.CompareOp

@[simp] theorem result?_lt (left right : Value) :
    result? .lt left right = left.below? right := by
  cases left <;> cases right <;> rfl

@[simp] theorem result?_gt (left right : Value) :
    result? .gt left right = right.below? left := by
  cases left <;> cases right <;> rfl

@[simp] theorem result?_le (left right : Value) :
    result? .le left right = (right.below? left).map (!·) := by
  cases left with
  | int m =>
      cases right with
      | int n =>
          have flipped : decide (m ≤ n) = !decide (n < m) := by
            rw [← decide_not, decide_eq_decide]
            exact Int.not_lt.symm
          exact congrArg some flipped
      | _ => rfl
  | str s =>
      cases right with
      | str t => exact congrArg some (Bool.not_not _).symm
      | _ => rfl
  | tuple items => cases right <;> rfl

@[simp] theorem result?_ge (left right : Value) :
    result? .ge left right = (left.below? right).map (!·) := by
  have turned : result? .ge left right = result? .le right left := by
    cases left <;> cases right <;> rfl
  rw [turned, result?_le]

end Code.CompareOp

namespace PrimOp

/-- The comparison of the target says what the comparison of the source says. -/
theorem result?_of_comparison? {op : PrimOp} {left right : Value} {truth : Bool}
    (compared : op.comparison? left right = some truth) :
    ∃ target, op.compare? = some target ∧ target.result? left right =
      some truth := by
  cases op with
  | eq | strEq => exact ⟨.eq, rfl, compared⟩
  | lt | slt | strLt =>
      exact ⟨.lt, rfl, (Code.CompareOp.result?_lt ..).trans compared⟩
  | gt | sgt => exact ⟨.gt, rfl, (Code.CompareOp.result?_gt ..).trans compared⟩
  | le | sle => exact ⟨.le, rfl, (Code.CompareOp.result?_le ..).trans compared⟩
  | ge | sge => exact ⟨.ge, rfl, (Code.CompareOp.result?_ge ..).trans compared⟩
  | _ => cases compared

/-- An operation is lowered to arithmetic or to a comparison of the same
meaning. -/
theorem yields_term {module : Module} {self : Definition} {frame : Store Text}
    {op : PrimOp} {kind : NumKind} {left right : Term}
    {first second value : Value}
      (computed : op.value? first second = some value)
    (leftYields : Term.Yields module self frame left first)
    (rightYields : Term.Yields module self frame right second) :
    Term.Yields module self frame (Prim.term (.standard op kind) [left, right])
      value := by
  unfold value? at computed
  split at computed
  · rename_i operation m n arithmetic
    cases computed
    cases op with
    | plus | minus | times =>
        cases arithmetic
        exact .binary leftYields rightYields rfl
    | _ => cases arithmetic
  · cases computed
  · obtain ⟨truth, compared, rfl⟩ := Option.map_eq_some_iff.mp computed
    obtain ⟨target, compare, applied⟩ := result?_of_comparison? compared
    have isCompare : Prim.term (.standard op kind) [left, right] =
        .compare target left right := by
      cases op <;> cases compare <;> rfl
    rw [isCompare]
    exact .compare leftYields rightYields applied

end PrimOp

section Rules

variable {program : Program} {tags : TagTable} {module : Module} {env : Env}

namespace Ready

variable {host : Function} {self : Definition} {scope : List Name}
    {frame : Store Text}
  {names some : List Name}

theorem part (ready : Ready program tags host self scope env frame names)
    (fewer : some.Sublist names) :
    Ready program tags host self scope env frame some :=
  ⟨ready.hosts, ready.within, ready.distinct.sublist (fewer.append_left scope),
    ready.agrees⟩

/-- Names and temporaries outside the scope may be assigned. -/
theorem after {final : Store Text} {code : List Stmt} {written : List Name}
    {low high : Nat}
    (ready : Ready program tags host self scope env frame names)
    (runs : Stmt.Runs module self frame code (.next final))
    (writes : ∀ v ∈ Stmt.writesList code, Kept written low high v)
    (apart : scope.Disjoint written) :
    Ready program tags host self scope env final names := by
  refine ⟨ready.hosts, ready.within, ready.distinct, ?_⟩
  have same : SameOn (Kept scope 0 0) frame final :=
    runs.sameOn fun v member kept =>
      kept.apart apart (Nat.zero_le low) (writes v member)
  exact ready.agrees.ofSame ready.within (fun name member => .named member) same

end Ready

theorem Expr.writes_of_unmarked {context : Context} {expr : Expr}
    {state after : State} {term : Term} {code : List Stmt}
    (ran : expr.unmarked.lower context state = .ok (term, after, code)) :
    state.next ≤ after.next ∧
      ∀ v ∈ Stmt.writesList code,
        Kept expr.binders state.next after.next v := by
  have permits :
      Permits context (fun v => ∃ name ∈ expr.binders, v = .named name)
      expr.unmarked.binders (expr.unmarked.restarts context.function) := by
    rw [binders_unmarked, restarts_unmarked]
    exact ⟨fun name member => ⟨name, member, rfl⟩, nofun⟩
  obtain ⟨advances, writes⟩ := lower_confined permits ran
  exact ⟨advances, writes⟩

theorem Expr.writes_of_unmarkedList {context : Context} {exprs : List Expr}
    {state after : State} {terms : List Term} {code : List Stmt}
    (ran : lowerList context (unmarkedList exprs) state =
      .ok (terms, after, code)) :
    state.next ≤ after.next ∧
      ∀ v ∈ Stmt.writesList code,
        Kept (bindersList exprs) state.next after.next v := by
  have permits :
      Permits context (fun v => ∃ name ∈ bindersList exprs, v = .named name)
        (bindersList (unmarkedList exprs))
      (restartsList context.function (unmarkedList exprs)) := by
    rw [bindersList_unmarked, restartsList_unmarked]
    exact ⟨fun name member => ⟨name, member, rfl⟩, nofun⟩
  obtain ⟨advances, writes⟩ := lowerList_confined permits ran
  exact ⟨advances, writes⟩

theorem Simulates.var {name : Name} {value : Value}
    (bound : env name = some value) :
    Simulates program tags module env (.var (.named name)) value := by
  intro host self scope frame ready state term after code ran
  obtain ⟨rfl, rfl, rfl⟩ := pure_eq_ok.mp ran
  refine ⟨frame, .nil, ?_⟩
  intro later same
  have member : name ∈ scope :=
    ready.within name (by rw [bound]; exact Option.some_ne_none _)
  have kept := same (.named name) (.named (List.mem_append_left _ member))
  exact .var (kept.symm.trans (ready.agrees name value bound))

theorem Simulates.int (value : Int) :
    Simulates program tags module env (.lit (.int value)) (.int value) := by
  intro host self scope frame _ state term after code ran
  obtain ⟨rfl, rfl, rfl⟩ := pure_eq_ok.mp ran
  exact ⟨frame, .nil, fun _ _ => .int⟩

theorem Simulates.string (value : Text) :
    Simulates program tags module env (.lit (.string value)) (.str value) := by
  intro host self scope frame _ state term after code ran
  obtain ⟨rfl, rfl, rfl⟩ := pure_eq_ok.mp ran
  exact ⟨frame, .nil, fun _ _ => .str⟩

theorem SimulatesAll.nil : SimulatesAll program tags module env [] [] := by
  intro host self scope frame _ state terms after code ran
  obtain ⟨rfl, rfl, rfl⟩ := pure_eq_ok.mp ran
  exact ⟨frame, .nil, fun _ _ => .nil⟩

theorem SimulatesAll.cons {expr : Expr} {exprs : List Expr} {value : Value}
    {values : List Value} (first : Simulates program tags module env expr value)
    (rest : SimulatesAll program tags module env exprs values) :
    SimulatesAll program tags module env (expr :: exprs) (value :: values) := by
  intro host self scope frame ready state terms after code ran
  rw [Expr.unmarkedList, Expr.lowerList] at ran
  obtain ⟨term, middle, emitted, further, firstRan, restRan, rfl⟩ :=
    bind_eq_ok.mp ran
  obtain ⟨others, last, inner, none, othersRan, lastRan, rfl⟩ :=
    bind_eq_ok.mp restRan
  obtain ⟨rfl, rfl, rfl⟩ := pure_eq_ok.mp lastRan
  obtain ⟨advances, writes⟩ := Expr.writes_of_unmarked firstRan
  obtain ⟨advances', writes'⟩ := Expr.writes_of_unmarkedList othersRan
  rw [Expr.bindersList] at ready ⊢
  rw [List.append_nil]
  have apart :=
    List.disjoint_append_right.mp (List.disjoint_of_nodup_append ready.distinct)
  have later : (scope ++ expr.binders).Disjoint (Expr.bindersList exprs) :=
    List.disjoint_of_nodup_append
      (by rw [List.append_assoc]; exact ready.distinct)
  have firstPrepared :=
    first (ready.part (List.sublist_append_left _ _)) firstRan
  have restPrepared :=
    fun final (runs : Stmt.Runs module self frame emitted (.next final)) =>
    rest ((ready.part (List.sublist_append_right _ _)).after runs writes
      apart.1) othersRan
  refine (firstPrepared.both restPrepared ?_ ?_ ?_).mono (fun _ => id)
    fun later both => .cons both.1 both.2
  · intro v written kept
    exact kept.apart later (Nat.le_refl _) (writes' v written)
  · intro v kept
    exact kept.mono ((List.sublist_append_left _ _).append_left scope).subset
      (Nat.le_refl _) advances'
  · intro v kept
    exact kept.mono ((List.sublist_append_right _ _).append_left scope).subset
      advances (Nat.le_refl _)

theorem Simulates.con {name : Name} {args : List Expr} {hint : Option Int}
    {tag : Int} {fields : List Value} (declared : tags.tagOf? name = some tag)
    (all : SimulatesAll program tags module env args fields) :
    Simulates program tags module env (.con name args hint)
      (Value.con tag fields) := by
  intro host self scope frame ready state term after code ran
  rw [Expr.unmarked, Expr.lower] at ran
  obtain ⟨own, middle, emitted, further, tagRan, restRan, rfl⟩ :=
    bind_eq_ok.mp ran
  obtain ⟨found, rfl, rfl⟩ := tagOf_eq_ok.mp tagRan
  obtain ⟨terms, last, inner, none, argsRan, lastRan, rfl⟩ :=
    bind_eq_ok.mp restRan
  obtain ⟨rfl, rfl, rfl⟩ := pure_eq_ok.mp lastRan
  cases declared.symm.trans found
  rw [List.nil_append, List.append_nil]
  exact (all ready argsRan).mono (fun _ => id) fun later yields =>
    .tuple (.cons .int yields)

theorem Simulates.proj {body : Expr} {index : Int} {whole value : Value}
    (inner : Simulates program tags module env body whole)
    (positive : 0 ≤ index)
    (selected : whole.fields[index.toNat]? = some value) :
    Simulates program tags module env (.proj body index) value := by
  intro host self scope frame ready state term after code ran
  rw [Expr.unmarked, Expr.lower] at ran
  obtain ⟨bodyTerm, middle, emitted, further, bodyRan, restRan, rfl⟩ :=
    bind_eq_ok.mp ran
  split at restRan
  · cases restRan
  · obtain ⟨rfl, rfl, rfl⟩ := pure_eq_ok.mp restRan
    rw [List.append_nil]
    exact (inner ready bodyRan).mono (fun _ => id) fun later yields =>
      .item yields (Value.item?_succ positive selected)

/-- An operation has the value that its operands give it. -/
theorem Simulates.op {op : PrimOp} {kind : NumKind} {left right : Expr}
    {first second value : Value}
      (all : SimulatesAll program tags module env [left, right]
      [first, second]) (computed : op.value? first second = some value) :
    Simulates program tags module env (.op (.standard op kind) [left, right])
      value := by
  intro host self scope frame ready state term after code ran
  rw [Expr.unmarked, Expr.lower] at ran
  obtain ⟨terms, middle, emitted, further, argsRan, restRan, rfl⟩ :=
    bind_eq_ok.mp ran
  obtain ⟨rfl, rfl, rfl⟩ := pure_eq_ok.mp restRan
  rw [List.append_nil]
  refine (all ready argsRan).mono (fun _ => id) ?_
  intro later yields
  cases yields with
  | cons leftYields rest =>
      cases rest with
      | cons rightYields none =>
          cases none
          exact PrimOp.yields_term computed leftYields rightYields

/-- A call that does not restart the function. -/
theorem SimulatesAll.call {name : Name} {args : List Expr} {flag : Bool}
    {function host : Function} {values : List Value} {value : Value}
    {self : Definition} {scope : List Name} {frame : Store Text}
    {state after : State} {term : Term} {code : List Stmt}
    (all : SimulatesAll program tags module env args values)
    (linked : Linked program tags module)
    (found : program.function? name = some function)
    (called : SimulatesCall program tags module function values value)
    (ready : Ready program tags host self scope env frame
      (Expr.bindersList args)) (returns : (flag && Expr.isSelfCall host.name
      (.app (.var (.named name)) (Expr.unmarkedList args) flag)) = false)
    (ran : Expr.lower (host.context tags)
      (.app (.var (.named name)) (Expr.unmarkedList args) flag) state =
        .ok (term, after, code)) :
    Prepares module self (Kept (scope ++ Expr.bindersList args) state.next
      after.next) frame
      code fun later => Term.Yields module self later term value := by
  rw [Expr.lower, if_neg (by rw [Bool.not_eq_true]; exact returns)] at ran
  obtain ⟨callee, middle, emitted, further, calleeRan, restRan, rfl⟩ :=
    bind_eq_ok.mp ran
  obtain ⟨rfl, rfl, rfl⟩ := pure_eq_ok.mp calleeRan
  obtain ⟨terms, last, inner, none, argsRan, lastRan, rfl⟩ :=
    bind_eq_ok.mp restRan
  obtain ⟨rfl, rfl, rfl⟩ := pure_eq_ok.mp lastRan
  rw [List.nil_append, List.append_nil]
  refine (all ready argsRan).mono (fun _ => id) ?_
  intro later yields
  obtain ⟨block, lowered, defined⟩ := linked.defined name function found
  have hosts : Hosts program tags function (function.definition block) :=
    ⟨by rw [Program.name_of_function? found]; exact found, block, lowered, rfl⟩
  refine .call (linked.not_mem_locals ready.hosts found) defined yields
    (.enter ?_ ?_)
  · rw [called.1, Function.definition, List.length_map]
  · exact called.2 hosts ((Agrees.empty Store.empty).setAll _ _)

theorem Simulates.app {name : Name} {args : List Expr} {tail : Bool}
    {function : Function} {values : List Value} {value : Value}
    (linked : Linked program tags module)
    (found : program.function? name = some function)
    (all : SimulatesAll program tags module env args values)
    (called : SimulatesCall program tags module function values value) :
    Simulates program tags module env (.app (.var (.named name)) args tail)
      value := by
  intro host self scope frame ready state term after code ran
  exact all.call linked found called ready rfl ran

/-- The code of a binding leaves a frame in which the body can be evaluated. -/
theorem Simulates.bind {name : Name} {bound : Expr} {first : Value}
    {host : Function} {self : Definition} {scope names : List Name}
    {frame : Store Text} {state middle : State} {term : Term}
    {emitted : List Stmt}
    (simulates : Simulates program tags module env bound first)
    (ready : Ready program tags host self scope env frame
      (name :: (bound.binders ++ names))) (ran :
      bound.unmarked.lower (host.context tags) state =
        .ok (term, middle, emitted)) :
    ∃ final, Stmt.Runs module self frame
        (emitted ++ if term.isRestart then [] else [.assign (.named name) term])
        (.next final) ∧
      Ready program tags host self (name :: scope) (env.set name first)
        final names := by
  have boundReady := ready.part ((List.sublist_append_left _ _).cons name)
  obtain ⟨final, runs, stable⟩ := simulates boundReady ran
  have yields := stable final (.refl _ _)
  have apart := List.disjoint_of_nodup_append boundReady.distinct
  have agrees :=
    (boundReady.after runs (Expr.writes_of_unmarked ran).2 apart).agrees
  rw [yields.isRestart_eq_false]
  refine ⟨_, runs.append (.assign yields .nil), ready.hosts, ?_, ?_,
    agrees.set name first⟩
  · intro other bound
    by_cases same : other = name
    · rw [same]
      exact List.mem_cons_self
    · rw [Store.set_of_ne same] at bound
      exact List.mem_cons_of_mem _ (ready.within other bound)
  · have order : (scope ++ name :: names).Nodup :=
      ready.distinct.sublist
        (((List.sublist_append_right _ _).cons_cons name).append_left scope)
    exact List.nodup_middle.mp order

theorem Expr.lower_letIn_eq_ok {context : Context} {name : Name}
    {value body : Expr} {state after : State} {term : Term} {code : List Stmt}
    (ran : lower context (.letIn name value body) state =
      .ok (term, after, code)) :
    ∃ first middle emitted inner further,
      value.lower context state = .ok (first, middle, emitted) ∧
      inner.next = middle.next ∧ body.lower context inner =
        .ok (term, after, further) ∧
      code = (emitted ++ if first.isRestart then [] else
        [.assign (.named name) first]) ++ further := by
  rw [lower] at ran
  obtain ⟨first, middle, emitted, further, valueRan, restRan, rfl⟩ :=
    bind_eq_ok.mp ran
  obtain ⟨_, same, assigned, others, assignRan, declareRan, rfl⟩ :=
    bind_eq_ok.mp restRan
  obtain ⟨rfl, rfl⟩ := assign_eq_ok.mp assignRan
  obtain ⟨_, inner, nothing, last, boundRan, bodyRan, rfl⟩ :=
    bind_eq_ok.mp declareRan
  obtain ⟨rfl, rfl⟩ := declare_eq_ok.mp boundRan
  refine ⟨first, same, emitted, { same with bound := [name] ++ same.bound },
    last, valueRan, rfl, bodyRan, ?_⟩
  rw [List.nil_append, List.append_assoc]

theorem Simulates.letIn {name : Name} {bound body : Expr} {first value : Value}
    (boundSimulates : Simulates program tags module env bound first)
    (bodySimulates : Simulates program tags module (env.set name first)
      body value) :
    Simulates program tags module env (.letIn name bound body) value := by
  intro host self scope frame ready state term after code ran
  rw [Expr.unmarked] at ran
  obtain ⟨boundTerm, middle, emitted, inner, further, boundRan, sameNext,
    bodyRan, rfl⟩ :=
    Expr.lower_letIn_eq_ok ran
  rw [Expr.binders] at ready ⊢
  obtain ⟨final, runs, bodyReady⟩ := boundSimulates.bind ready boundRan
  refine Prepares.prepend runs
    ((bodySimulates bodyReady bodyRan).mono ?_ fun _ => id)
  intro v kept
  refine kept.mono ?_ (sameNext ▸ (Expr.writes_of_unmarked boundRan).1)
    (Nat.le_refl _)
  grind

theorem SimulatesTail.letIn {name : Name} {bound body : Expr}
    {first value : Value} (boundSimulates : Simulates program tags module env
      bound first)
    (bodySimulates : SimulatesTail program tags module (env.set name first)
      body value) :
    SimulatesTail program tags module env (.letIn name bound body) value := by
  intro host self scope frame ready state term after code ran
  rw [Expr.marked] at ran
  obtain ⟨boundTerm, middle, emitted, inner, further, boundRan, -, bodyRan,
    rfl⟩ :=
    Expr.lower_letIn_eq_ok ran
  obtain ⟨final, runs, bodyReady⟩ := boundSimulates.bind ready boundRan
  exact Finishes.prepend runs (bodySimulates bodyReady bodyRan)

end Rules

end TailLoop
