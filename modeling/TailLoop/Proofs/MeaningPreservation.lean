import TailLoop.Proofs.CaseSimulation
import TailLoop.Proofs.CompileAgreement

/-!
# Lowering preserves meaning

If a call has a value, the code of the called function returns that value and no
other.  A call of the function itself in tail position becomes one more round of
its loop: the arguments are all evaluated before any parameter is assigned, and
the frame then agrees with the environment of the new call, whatever else is
left in it.
-/

namespace TailLoop

open Code (Value Stmt Term Module Definition)
open Contract Lowering

section Rules

variable {program : Program} {tags : TagTable} {module : Module} {env : Env}

/-- The parameters are assigned all at once, and the function is restarted. -/
theorem Code.Term.YieldsAll.rebind {self : Definition} {frame : Store Text}
    {terms : List Term} {values : List Value} {params : List Name}
    (yields : Term.YieldsAll module self frame terms values)
    (count : values.length = params.length) :
    Stmt.Runs module self frame
      ((if terms.isEmpty then [] else [.rebind params terms]) ++ [.continue])
      (.restart (frame.setAll (params.map Name.identifier) values)) := by
  cases yields with
  | nil =>
      cases List.eq_nil_of_length_eq_zero count.symm
      exact .continue
  | cons first others => exact .rebind (.cons first others) count .continue

/-- Expressions that restart nothing are evaluated alike in tail position. -/
theorem Simulates.tail {expr : Expr} {value : Value}
    (same : ∀ name, expr.marked name = expr.unmarked)
    (simulates : Simulates program tags module env expr value) :
    SimulatesTail program tags module env expr value := by
  intro host self scope frame ready state term after code ran
  rw [same] at ran
  exact (simulates ready ran).finishes

/-- A call of the function itself is one more round of its loop. -/
theorem SimulatesTail.selfCall {args : List Expr} {tail : Bool}
    {host : Function} {values : List Value} {value : Value} {self : Definition}
    {scope : List Name} {frame : Store Text} {state after : State} {term : Term}
    {code : List Stmt} (all : SimulatesAll program tags module env args values)
    (called : SimulatesCall program tags module host values value)
    (ready : Ready program tags host self scope env frame
      (Expr.bindersList args))
    (ran : ((Expr.app (.var (.named host.name)) args tail).marked
      host.name).lower (host.context tags) state = .ok (term, after, code)) :
    Finishes module self (fun last => Definition.Loops module self last value)
      frame code term value := by
  have isSelf :
      Expr.isSelfCall host.name (.app (.var (.named host.name)) args tail) =
        true :=
    beq_self_eq_true _
  rw [Expr.marked, Expr.unmarked, isSelf, Bool.true_or, Expr.lower,
    if_pos ?flagged] at ran
  case flagged =>
    rw [Bool.true_and]
    exact beq_self_eq_true _
  split at ran
  · obtain ⟨terms, emitted, argsRan, -, rfl⟩ := restart_eq_ok ran
    obtain ⟨final, runs, stable⟩ := all ready argsRan
    have rebound := (stable final (.refl _ _)).rebind called.1
    refine .inr ⟨_, runs.append rebound, called.2 ready.hosts ?_⟩
    exact (Agrees.empty final).setAll host.params values
  · cases ran

theorem SimulatesTail.app {name : Name} {args : List Expr} {tail : Bool}
    {function : Function} {values : List Value} {value : Value}
    (linked : Linked program tags module)
    (found : program.function? name = some function)
    (all : SimulatesAll program tags module env args values)
    (called : SimulatesCall program tags module function values value) :
    SimulatesTail program tags module env (.app (.var (.named name)) args tail)
      value := by
  intro host self scope frame ready state term after code ran
  by_cases same : name = host.name
  · subst same
    cases found.symm.trans ready.hosts.found
    exact SimulatesTail.selfCall all called ready ran
  · have notSelf : ∀ flag exprs,
        Expr.isSelfCall host.name (.app (.var (.named name)) exprs flag) =
          false :=
      fun _ _ => beq_false_of_ne same
    refine (all.call linked found called ready ?_ ran).finishes
    rw [notSelf, notSelf, Bool.and_false]

/-- The loop of a function returns what the body evaluates to. -/
theorem SimulatesCall.enter {function : Function} {args : List Value}
    {value : Value} (linked : Linked program tags module)
    (count : args.length = function.params.length)
    (simulates : SimulatesTail program tags module
      (Store.empty.setAll function.params args) function.body value) :
    SimulatesCall program tags module function args value := by
  refine ⟨count, ?_⟩
  intro self frame hosts agrees
  have within : ∀ name, (Store.empty : Env).setAll function.params args name ≠
      none →
      name ∈ function.params := by
    intro name bound
    rcases Store.mem_of_setAll_ne_none bound with param | impossible
    · exact param
    · exact (impossible rfl).elim
  have ready : Ready program tags function self function.params _ frame
      function.body.binders :=
    ⟨hosts, within, linked.distinct _ _ hosts.found, agrees⟩
  obtain ⟨block, lowered, rfl⟩ := hosts.lowered
  obtain ⟨after, ran⟩ := Function.lower_eq_ok lowered
  rcases simulates ready ran with ⟨final, runs, yields⟩ | ⟨last, runs, loops⟩
  · exact .return runs yields
  · exact .restart runs loops

mutual

/-- The code of an expression follows its evaluation, in tail position and
elsewhere. -/
theorem Evaluates.simulates (linked : Linked program tags module) {env : Env}
    {expr : Expr} {value : Value} : Evaluates program tags env expr value →
      Simulates program tags module env expr value ∧
        SimulatesTail program tags module env expr value
  | .var bound => ⟨.var bound, (Simulates.var bound).tail fun _ => rfl⟩
  | .app _ found args call =>
      have all := args.simulates linked
      have called := call.simulates linked
      ⟨.app linked found all called, .app linked found all called⟩
  | .letIn first body =>
      have bound := (first.simulates linked).1
      have inner := body.simulates linked
      ⟨.letIn bound inner.1, .letIn bound inner.2⟩
  | .con declared args =>
      have simulates := Simulates.con declared (args.simulates linked)
      ⟨simulates, simulates.tail fun _ => rfl⟩
  | .case scrutinee chooses bound body =>
      have subject := (scrutinee.simulates linked).1
      have inner := body.simulates linked
      ⟨.case subject chooses bound inner.1, .case subject chooses bound inner.2⟩
  | .proj body positive selected =>
      have simulates :=
        Simulates.proj (body.simulates linked).1 positive selected
      ⟨simulates, simulates.tail fun _ => rfl⟩
  | .int => ⟨.int _, (Simulates.int _).tail fun _ => rfl⟩
  | .string => ⟨.string _, (Simulates.string _).tail fun _ => rfl⟩
  | .op left right computed =>
      have first := (left.simulates linked).1
      have second := (right.simulates linked).1
      have simulates := Simulates.op (.cons first (.cons second .nil)) computed
      ⟨simulates, simulates.tail fun _ => rfl⟩
termination_by structural evaluation => evaluation

theorem EvaluatesAll.simulates (linked : Linked program tags module) {env : Env}
    {exprs : List Expr} {values : List Value} :
    EvaluatesAll program tags env exprs values →
      SimulatesAll program tags module env exprs values
  | .nil => .nil
  | .cons first rest => .cons (first.simulates linked).1 (rest.simulates linked)
termination_by structural evaluation => evaluation

theorem Applies.simulates (linked : Linked program tags module)
    {function : Function} {args : List Value} {value : Value} :
    Applies program tags function args value →
      SimulatesCall program tags module function args value
  | .enter count body => .enter linked count (body.simulates linked).2
termination_by structural evaluation => evaluation

end

end Rules

namespace Function

/-- The code of functions, up to the first that cannot be lowered. -/
def definitions (tags : TagTable) : List Function → Except Failure Module
  | [] => .ok []
  | function :: functions =>
      match function.lower tags with
      | .error fault => .error ⟨function.name, fault⟩
      | .ok block =>
          (definitions tags functions).map (function.definition block :: ·)

theorem definitions_eq_ok {tags : TagTable} {functions : List Function}
    {module : Module} (ran : definitions tags functions = .ok module) :
    List.Forall₂ (IsDefinedBy tags) functions module := by
  induction functions generalizing module with
  | nil =>
      cases ran
      exact .nil
  | cons function functions ih =>
      unfold definitions at ran
      split at ran
      · cases ran
      · rename_i block lowered
        cases rest : definitions tags functions with
        | error failure =>
            rw [rest] at ran
            cases ran
        | ok others =>
            rw [rest] at ran
            cases ran
            exact .cons ⟨block, lowered, rfl⟩ (ih rest)

theorem map_name_definitions {tags : TagTable} {functions : List Function}
    {module : Module}
    (defined : List.Forall₂ (IsDefinedBy tags) functions module) :
    module.map Definition.name =
      (functions.map Function.name).map Name.identifier := by
  induction defined with
  | nil => rfl
  | cons first _ ih =>
      obtain ⟨block, -, rfl⟩ := first
      rw [List.map_cons, ih, List.map_cons, List.map_cons]
      rfl

theorem exists_definition_of_mem {tags : TagTable} {functions : List Function}
    {module : Module} {function : Function}
    (defined : List.Forall₂ (IsDefinedBy tags) functions module)
    (member : function ∈ functions) :
    ∃ block, function.lower tags = .ok block ∧ function.definition block ∈
      module := by
  induction defined with
  | nil => cases member
  | cons first _ ih =>
      obtain ⟨block, lowered, rfl⟩ := first
      rcases List.mem_cons.mp member with rfl | later
      · exact ⟨block, lowered, List.mem_cons_self⟩
      · obtain ⟨block, lowered, inside⟩ := ih later
        exact ⟨block, lowered, List.mem_cons_of_mem _ inside⟩

theorem definitions_ok {tags : TagTable} {functions : List Function}
    (lowers : ∀ function ∈ functions, ∃ block, function.lower tags =
      .ok block) :
    ∃ module, definitions tags functions = .ok module := by
  induction functions with
  | nil => exact ⟨[], rfl⟩
  | cons function functions ih =>
      obtain ⟨block, lowered⟩ := lowers function List.mem_cons_self
      obtain ⟨others, rest⟩ := ih fun other member =>
        lowers other (List.mem_cons_of_mem _ member)
      exact ⟨function.definition block ::
        others, by rw [definitions, lowered, rest]; rfl⟩

end Function

/-- Among distinct keys the search for a key finds its item. -/
theorem find?_of_nodup {α κ : Type} [DecidableEq κ] {key : α → κ}
    {items : List α} {item : α} (distinct : (items.map key).Nodup)
    (member : item ∈ items) :
    items.find? (fun other => key other = key item) = some item := by
  cases found : items.find? fun other => decide (key other = key item) with
  | none =>
      have different := List.find?_eq_none.mp found item member
      exact (different (decide_eq_true rfl)).elim
  | some other =>
      have same : key other = key item := by simpa using List.find?_some found
      rw [List.inj_on_of_nodup_map distinct (List.mem_of_find?_eq_some found)
        member same]

theorem Program.function?_of_mem {program : Program} {function : Function}
    (distinct : (program.functions.map Function.name).Nodup)
    (member : function ∈ program.functions) :
    program.function? function.name = some function :=
  find?_of_nodup distinct member

/-- Every function has its code in the module, and is found there by its
name. -/
theorem Function.find?_of_definitions {tags : TagTable}
    {functions : List Function} {module : Module} {function : Function}
    (distinct : (functions.map Function.name).Nodup)
    (ran : definitions tags functions = .ok module)
    (member : function ∈ functions) :
    ∃ block, function.lower tags = .ok block ∧
      module.find? function.name.identifier =
        some (function.definition block) := by
  have defined := definitions_eq_ok ran
  obtain ⟨block, lowered, inside⟩ := exists_definition_of_mem defined member
  refine ⟨block, lowered, find?_of_nodup ?_ (List.mem_reverse.mpr inside)⟩
  rw [List.map_reverse, List.nodup_reverse, map_name_definitions defined]
  exact distinct.map Name.identifier_injective

/-- The names that a function binds are distinct from each other and from all
functions. -/
structure Program.WellNamed (program : Program) : Prop where
  distinct : ∀ function ∈ program.functions,
    (function.params ++ function.body.binders).Nodup
  apart : ∀ function ∈ program.functions, ∀ other ∈ program.functions,
    other.name ∉ function.params ++ function.body.binders

theorem Program.WellNamed.linked {program : Program} {tags : TagTable}
    {module : Module} (named : program.WellNamed)
    (distinct : (program.functions.map Function.name).Nodup)
    (ran : Function.definitions tags program.functions = .ok module) :
    Linked program tags module := by
  constructor
  · intro name function found
    cases Program.name_of_function? found
    exact Function.find?_of_definitions distinct ran
      (List.mem_of_find?_eq_some found)
  · intro name function found
    exact named.distinct function (List.mem_of_find?_eq_some found)
  · intro name function other host found hostFound
    cases Program.name_of_function? found
    exact named.apart host (List.mem_of_find?_eq_some hostFound) function
      (List.mem_of_find?_eq_some found)

/-- The code of a function returns the value that a call of the function has. -/
theorem Hosts.returns {program : Program} {tags : TagTable} {module : Module}
    {function : Function} {definition : Definition}
    (hosts : Hosts program tags function definition)
    (linked : Linked program tags module) {args : List Value} {value : Value}
    (applies : Applies program tags function args value) :
    definition.Returns module args value := by
  obtain ⟨count, loops⟩ := applies.simulates linked
  obtain ⟨block, -, rfl⟩ := hosts.lowered
  refine .enter ?_ (loops hosts ((Agrees.empty Store.empty).setAll _ _))
  rw [count, Function.definition, List.length_map]

/-- An accepted program whose names are distinct is lowered, unless an index in
it is too long, and if a call of one of its functions has a value, then the code
that is written for the function returns this value and no other. -/
theorem lowering_preserves_meaning (program : Program)
    (accepted : (Checker.initial.check program).hasErrors = false)
    (named : program.WellNamed) :
    let tags := (Checker.initial.check program).tags
    ((∀ function ∈ program.functions, ¬ function.HasLongIndex) →
      ∃ module, Function.definitions tags program.functions = .ok module) ∧
      ∀ module, Function.definitions tags program.functions = .ok module →
        ∀ function ∈ program.functions, ∃ block,
          module.find? function.name.identifier =
            some (function.definition block) ∧
          (∀ options, function.lines options tags =
            .ok
              (function.frame options
                (block.bodyLines (Function.layout options)))) ∧
          ∀ args value, Applies program tags function args value → ∀ result,
            (function.definition block).Returns module args result ↔
            result = value := by
  intro tags
  obtain ⟨table, built⟩ := Checker.ofConstructors_of_not_hasErrors accepted
  have sameTags : tags = table := Checker.tags_check_initial built
  have distinct := Checker.nodup_of_not_hasErrors accepted
  constructor
  · intro short
    apply Function.definitions_ok
    intro function member
    cases ran : function.lower tags with
    | ok block => exact ⟨block, rfl⟩
    | error fault =>
        rw [sameTags] at ran
        obtain ⟨-, long⟩ :=
          Function.lower_error_of_accepted built accepted member ran
        exact (short function member long).elim
  · intro module ran function member
    have linked := named.linked distinct ran
    obtain ⟨block, lowered, found⟩ :=
      Function.find?_of_definitions distinct ran member
    refine ⟨block, found,
      fun options => by rw [Function.lines, lowered]; rfl, ?_⟩
    intro args value applies result
    have hosts : Hosts program tags function (function.definition block) :=
      ⟨Program.function?_of_mem distinct member, block, lowered, rfl⟩
    have returns := hosts.returns linked applies
    constructor
    · intro other
      exact other.unique returns
    · rintro rfl
      exact returns

/-- The sum of a list of integers. -/
def totalFunction : Function :=
  ⟨.user "total", [.user "items", .user "sum"],
    .case (.var (.named (.user "items")))
      [.con (.user "Nil") [] (.var (.named (.user "sum"))),
        .con (.user "Cons") [.user "first", .user "rest"]
          (.app (.var (.named (.user "total")))
            [.var (.named (.user "rest")),
              .op (.standard .plus .int) [.var (.named (.user "sum")),
                .var (.named (.user "first"))]] false)]⟩

def totalProgram : Program :=
  ⟨[.constructor ⟨.user "Nil", 0, none⟩, .constructor ⟨.user "Cons", 2, none⟩,
    .function totalFunction], .user "total"⟩

theorem lowering_preserves_meaning_total :
    let tags : TagTable := ⟨[(.user "Nil", 0), (.user "Cons", 1)]⟩
    let args := [Value.con 1 [.int 5, Value.con 1 [.int 7, Value.con 0 []]],
      .int 0]
    (Checker.initial.check totalProgram).hasErrors = false ∧
    totalProgram.WellNamed ∧
      (∀ function ∈ totalProgram.functions, ¬ function.HasLongIndex) ∧
      Applies totalProgram tags totalFunction args (.int 12) ∧
      ∃ module block, Function.definitions tags totalProgram.functions =
        .ok module ∧
        module.find? totalFunction.name.identifier =
          some (totalFunction.definition block) ∧
        ∀ result, (totalFunction.definition block).Returns module args result ↔
          result = .int 12 := by
  intro tags args
  have accepted : (Checker.initial.check totalProgram).hasErrors = false := by
    decide +kernel
  have named : totalProgram.WellNamed := by
    constructor
    · intro function member
      cases List.mem_singleton.mp member
      decide
    · intro function member other otherMember
      cases List.mem_singleton.mp member
      cases List.mem_singleton.mp otherMember
      decide
  have short : ∀ function ∈ totalProgram.functions,
      ¬ function.HasLongIndex := by
    rintro function member ⟨body, index, part, -⟩
    cases List.mem_singleton.mp member
    simp [totalFunction, Expr.subexprs, Expr.subexprsAlts, Expr.subexprsList]
      at part
  have applies : Applies totalProgram tags totalFunction args (.int 12) := by
    refine .enter rfl
      (.case (.var rfl) (.there rfl (.here rfl)) rfl (.app rfl rfl
      (.cons (.var rfl) (.cons (.op (.var rfl) (.var rfl) rfl) .nil)) ?_))
    refine .enter rfl
      (.case (.var rfl) (.there rfl (.here rfl)) rfl (.app rfl rfl
      (.cons (.var rfl) (.cons (.op (.var rfl) (.var rfl) rfl) .nil)) ?_))
    exact .enter rfl (.case (.var rfl) (.here rfl) rfl (.var rfl))
  obtain ⟨lowers, preserves⟩ :=
    lowering_preserves_meaning totalProgram accepted named
  obtain ⟨module, ran⟩ := lowers short
  obtain ⟨block, found, -, returns⟩ :=
    preserves module ran totalFunction (List.mem_singleton.mpr rfl)
  exact ⟨accepted, named, short, applies, module, block, ran, found,
    returns _ _ applies⟩

end TailLoop
