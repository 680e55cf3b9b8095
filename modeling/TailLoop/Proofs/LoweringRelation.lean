import TailLoop.Proofs.DecisionSteps
import TailLoop.Proofs.Subexpressions

/-!
# Lowering as a relation

How an expression is lowered depends on its form only.  Most forms lower their
parts from left to right and make one value of their values; a binding, a case
analysis and a deferred value have rules of their own.  A derivation by these
rules tells all lowerings that lead to a result, each with the names that
bindings and patterns around it bind, and a property can be asked of each of
them.  Every result of lowering has a derivation.
-/

namespace TailLoop

open Code (Term Stmt Clause Guard)

namespace Lowering

/-- The clause after the clauses of alternatives of which the last is no
default. -/
def unmatched (alts : List Alt) : List Clause :=
  if alts.getLast?.any Alt.isDefault then [] else
    [.mk .otherwise [.unreachable]]

end Lowering

open Lowering

/-- An expression that lowers its operands in order, makes a value of their
values and may end with further code. -/
structure RowForm where
  operands : List Expr
  result : List Term → Term
  ending : List Term → List Stmt

namespace Expr

/-- The form of an expression that only lowers its parts in order.  There is
none if it cannot be lowered. -/
def rowForm? (context : Context) : Expr → Option RowForm
  | .var v => some ⟨[], fun _ => .var v, fun _ => []⟩
  | .app func args tail =>
      if tail && isSelfCall context.function (.app func args tail) then
        if args.length = context.params.length then
          some ⟨args, fun _ => .restart, restartCode context⟩
        else none
      else
        some ⟨func :: args,
          fun values => .call (callee func (values.headD .none)) values.tail,
          fun _ => []⟩
  | .force body =>
      some ⟨[body], fun values => .call (callee body (values.headD .none)) [],
        fun _ => []⟩
  | .con name args _ => (context.tags.tagOf? name).map fun tag =>
      ⟨args, fun values => .tuple (.int tag :: values), fun _ => []⟩
  | .proj body index =>
      if Nat.pow 10 indexLimit ≤ (index + 1).natAbs then none
      else some ⟨[body], fun values => .item (values.headD .none) (index + 1),
        fun _ => []⟩
  | .lit const => some ⟨[], fun _ => const.term, fun _ => []⟩
  | .foreign (.named function) args =>
      some ⟨args, fun values => .call (.verbatim function) values, fun _ => []⟩
  | .op prim args => some ⟨args, prim.term, fun _ => []⟩
  | .fail message => some ⟨[], fun _ => .raise message, fun _ => []⟩
  | .null => some ⟨[], fun _ => .none, fun _ => []⟩
  | _ => none

/-- Only a restart has further code. -/
theorem ending_cases {context : Context} {expr : Expr} {form : RowForm}
    (isRow : expr.rowForm? context = some form) :
    form.ending = (fun _ => []) ∨
      ∃ func args, expr = .app func args true ∧
        isSelfCall context.function (.app func args true) = true ∧
        args.length = context.params.length ∧
        form = ⟨args, fun _ => .restart, restartCode context⟩ := by
  cases expr with
  | app func args tail =>
      rw [rowForm?] at isRow
      split at isRow
      · rename_i restarts
        obtain ⟨rfl, isSelf⟩ := Bool.and_eq_true_iff.mp restarts
        split at isRow
        · rename_i counted
          cases isRow
          exact .inr ⟨func, args, rfl, isSelf, counted, rfl⟩
        · cases isRow
      · cases isRow
        exact .inl rfl
  | con name args remark =>
      obtain ⟨tag, -, rfl⟩ := Option.map_eq_some_iff.mp isRow
      exact .inl rfl
  | proj body index =>
      rw [rowForm?] at isRow
      split at isRow
      · cases isRow
      · cases isRow
        exact .inl rfl
  | foreign target args =>
      cases target with
      | named name =>
          cases isRow
          exact .inl rfl
      | _ => cases isRow
  | var | force | lit | op | fail | null =>
      cases isRow
      exact .inl rfl
  | lam | lazy | lazyApp | letIn | case => cases isRow

/-- The parameters and the body of a deferred value. -/
def deferral? : Expr → Option (List Name × Expr)
  | .lam params body => some (params, body)
  | .lazy body => some ([], body)
  | .lazyApp name args => some ([], .app (.var (.named name)) args false)
  | _ => none

end Expr

namespace Lowering

/-- A hoisted function as a value: itself, or below its parameters one by
one. -/
def hoisted (context : Context) (function : Var) (params : List Name) : Term :=
  if params.length ≤ 1 then .var function
  else curried (if context.freeze then [function] else [])
    (.call (.var function) (params.map fun param => .var (.named param))) params

/-- What becomes of a deferred value, given what its body became: a function of
its own if the body needs statements. -/
inductive Closes (context : Context) (params : List Name) (frozen : List Var)
    (bound : List Name) (value : Term) (inner : State) :
    List Stmt → Term → State → List Stmt → Prop where
  | inline :
      Closes context params frozen bound value inner []
        (curried frozen value params) { inner with bound := bound } []
  | hoist {block : List Stmt} : block ≠ [] →
      Closes context params frozen bound value inner block
        (hoisted context inner.temporary params)
        { inner.advanced with bound := bound }
        [.define inner.temporary params frozen block value]

end Lowering

/-- A property of the lowering of an expression below binders: from a state to a
value, a state and code. -/
abbrev LoweringProperty : Type :=
  List Name → Expr → State → Term → State → List Stmt → Prop

mutual

/-- The lowering of an expression, such that it and all lowerings in it have the
property. -/
inductive Lowers (context : Context) (has : LoweringProperty) :
    List Name → Expr → State → Term → State → List Stmt → Prop where
  | row {scope : List Name} {expr : Expr} {form : RowForm}
      {before after : State} {values : List Term} {code : List Stmt} :
      expr.rowForm? context = some form →
      LowersRow context has scope form.operands before values after code →
      has scope expr before (form.result values) after
        (code ++ form.ending values) →
      Lowers context has scope expr before (form.result values) after
        (code ++ form.ending values)
  | letIn {scope : List Name} {name : Name} {bound body : Expr}
      {before middle after : State} {first value : Term}
      {code further : List Stmt} :
      Lowers context has scope bound before first middle code →
      Lowers context has (name :: scope) body (middle.binding [name]) value
        after further →
      has scope (.letIn name bound body) before value after
        (code ++ assigned (.named name) first ++ further) →
      Lowers context has scope (.letIn name bound body) before value after
        (code ++ assigned (.named name) first ++ further)
  | caseVar {scope : List Name} {subject : Var} {alts : List Alt}
      {before after : State} {value : Term} {code : List Stmt} :
      Decides context has scope subject alts before value after code →
      has scope (.case (.var subject) alts) before value after code →
      Lowers context has scope (.case (.var subject) alts) before
        value after code
  | caseCompound {scope : List Name} {scrutinee : Expr} {alts : List Alt}
      {before middle after : State} {first value : Term}
      {code further : List Stmt} :
      scrutinee.isVar = false →
      Lowers context has scope scrutinee before.advanced first middle code →
      Decides context has scope before.temporary alts middle value
        after further →
      has scope (.case scrutinee alts) before value after
        (code ++ assigned before.temporary first ++ further) →
      Lowers context has scope (.case scrutinee alts) before value after
        (code ++ assigned before.temporary first ++ further)
  | deferred {scope : List Name} {expr body : Expr} {params : List Name}
      {before inner after : State} {bodyValue value : Term}
      {block code : List Stmt} :
      expr.deferral? = some (params, body) →
      Lowers context has scope body before bodyValue inner block →
      Closes context params (captured context before.bound (.lam params body))
        before.bound bodyValue inner block value after code →
      has scope expr before value after code →
      Lowers context has scope expr before value after code

inductive LowersRow (context : Context) (has : LoweringProperty) :
    List Name → List Expr → State → List Term → State → List Stmt → Prop where
  | nil {scope : List Name} {state : State} :
      LowersRow context has scope [] state [] state []
  | cons {scope : List Name} {expr : Expr} {exprs : List Expr}
      {before middle after : State} {value : Term} {values : List Term}
      {code further : List Stmt} :
      Lowers context has scope expr before value middle code →
      LowersRow context has scope exprs middle values after further →
      LowersRow context has scope (expr :: exprs) before (value :: values) after
        (code ++ further)

/-- The decision between alternatives; a lone default needs none. -/
inductive Decides (context : Context) (has : LoweringProperty) :
    List Name → Var → List Alt → State → Term → State → List Stmt → Prop where
  | lone {scope : List Name} {subject : Var} {body : Expr}
      {before after : State} {value : Term} {code : List Stmt} :
      Lowers context has scope body before value after code →
      Decides context has scope subject [.default body] before value after code
  | dispatch {scope : List Name} {subject : Var} {alts : List Alt}
      {before after : State} {code : List Stmt} :
      Dispatches context has scope subject before.temporary alts before.advanced
        after code →
      Decides context has scope subject alts before (.var before.temporary)
        after code

/-- The tests of a decision: a chain for some of the alternatives, or a
comparison of tags. -/
inductive Dispatches (context : Context) (has : LoweringProperty) :
    List Name → Var → Var → List Alt → State → State → List Stmt → Prop where
  | chain {scope : List Name} {subject result : Var} {alts group : List Alt}
      {before after : State} {clauses : List Clause} :
      group ≠ [] → Pattern.Ordered true (group.map Alt.pattern) → group ⊆ alts →
      LowersArms context has scope subject result group before after clauses →
      Dispatches context has scope subject result alts before after
        [.branch subject (clauses ++ unmatched group)]
  | split {scope : List Name} {subject result : Var} {alts : List Alt}
      {before middle after : State} {pivot : Int} {low high : List Stmt} :
      Dispatches context has scope subject result alts before middle low →
      Dispatches context has scope subject result alts middle after high →
      Dispatches context has scope subject result alts before after
        [.branch subject [.mk (.tagBelow pivot) low, .mk .otherwise high]]

/-- One clause for each alternative, which binds the fields and stores the
value. -/
inductive LowersArms (context : Context) (has : LoweringProperty) :
    List Name → Var → Var → List Alt → State → State → List Clause → Prop where
  | nil {scope : List Name} {subject result : Var} {state : State} :
      LowersArms context has scope subject result [] state state []
  | cons {scope : List Name} {subject result : Var} {alt : Alt}
      {alts : List Alt} {before middle after : State} {guard : Guard}
      {value : Term} {code : List Stmt} {clauses : List Clause} :
      alt.pattern.guard? context.tags = some guard →
      Lowers context has (alt.binders ++ scope) alt.body
        (before.binding alt.binders) value middle code →
      LowersArms context has scope subject result alts middle after clauses →
      LowersArms context has scope subject result (alt :: alts) before after
        (.mk guard (unpackCode subject alt.pattern ++ code ++
          assigned result value) :: clauses)

end

variable {context : Context} {has : LoweringProperty}

namespace Expr

@[simp] theorem lowerList_cons_eq_ok {expr : Expr} {exprs : List Expr}
    {before after : State} {values : List Term} {code : List Stmt} :
    lowerList context (expr :: exprs) before = .ok (values, after, code) ↔
      ∃ value others middle emitted further,
        expr.lower context before = .ok (value, middle, emitted) ∧
        lowerList context exprs middle = .ok (others, after, further) ∧
        values = value :: others ∧ code = emitted ++ further := by
  rw [lowerList]
  constructor
  · intro ran
    obtain ⟨value, middle, emitted, further, ownRan, restRan, rfl⟩ :=
      bind_eq_ok.mp ran
    obtain ⟨others, othersRan, rfl⟩ := bind_pure_eq_ok.mp restRan
    exact ⟨value, others, middle, emitted, further, ownRan, othersRan, rfl, rfl⟩
  · rintro ⟨value, others, middle, emitted, further, ownRan, othersRan, rfl,
      rfl⟩
    refine bind_eq_ok.mpr ⟨value, middle, emitted, further, ownRan, ?_, rfl⟩
    exact bind_pure_eq_ok.mpr ⟨others, othersRan, rfl⟩

theorem lowerList_singleton_eq_ok {expr : Expr} {before after : State}
    {value : Term} {code : List Stmt}
    (ran : expr.lower context before = .ok (value, after, code)) :
    lowerList context [expr] before = .ok ([value], after, code) :=
  lowerList_cons_eq_ok.mpr ⟨value, [], after, code, [], ran, rfl,
    rfl, by rw [List.append_nil]⟩

/-- An expression in a row form lowers its operands and nothing else. -/
theorem lower_eq_ok_of_rowForm? {expr : Expr} {form : RowForm}
    {before after : State} {value : Term} {code : List Stmt}
    (isRow : expr.rowForm? context = some form)
    (ran : expr.lower context before = .ok (value, after, code)) :
    ∃ values emitted,
      lowerList context form.operands before = .ok (values, after, emitted) ∧
      value = form.result values ∧ code = emitted ++ form.ending values := by
  cases expr with
  | var | lit | fail | null =>
      cases isRow
      obtain ⟨rfl, rfl, rfl⟩ := pure_eq_ok.mp ran
      exact ⟨[], [], rfl, rfl, rfl⟩
  | app func args tail =>
      rw [rowForm?] at isRow
      rw [lower] at ran
      split at isRow
      · rename_i restarts
        rw [if_pos restarts] at ran
        split at isRow
        · rename_i counted
          cases isRow
          rw [if_pos counted] at ran
          exact restart_eq_ok ran
        · cases isRow
      · rename_i returns
        cases isRow
        rw [if_neg returns] at ran
        obtain ⟨function, middle, emitted, further, funcRan, restRan, rfl⟩ :=
          bind_eq_ok.mp ran
        obtain ⟨values, argsRan, rfl⟩ := bind_pure_eq_ok.mp restRan
        exact ⟨function :: values, emitted ++ further,
          lowerList_cons_eq_ok.mpr ⟨_, _, _, _, _, funcRan, argsRan, rfl, rfl⟩,
          rfl, by rw [List.append_nil]⟩
  | force body =>
      cases isRow
      rw [lower] at ran
      obtain ⟨inner, bodyRan, rfl⟩ := bind_pure_eq_ok.mp ran
      exact ⟨[inner], code, lowerList_singleton_eq_ok bodyRan,
        rfl, by rw [List.append_nil]⟩
  | con name args remark =>
      obtain ⟨tag, found, rfl⟩ := Option.map_eq_some_iff.mp isRow
      rw [lower] at ran
      obtain ⟨own, middle, emitted, further, tagRan, restRan, rfl⟩ :=
        bind_eq_ok.mp ran
      obtain ⟨ownFound, rfl, rfl⟩ := tagOf_eq_ok.mp tagRan
      cases found.symm.trans ownFound
      obtain ⟨values, argsRan, rfl⟩ := bind_pure_eq_ok.mp restRan
      exact ⟨values, further, argsRan,
        rfl, by rw [List.append_nil, List.nil_append]⟩
  | proj body index =>
      rw [rowForm?] at isRow
      split at isRow
      · cases isRow
      · rename_i short
        cases isRow
        rw [lower] at ran
        obtain ⟨inner, last, emitted, _, bodyRan, restRan, rfl⟩ :=
          bind_eq_ok.mp ran
        rw [if_neg short] at restRan
        obtain ⟨rfl, rfl, rfl⟩ := pure_eq_ok.mp restRan
        exact ⟨[inner], emitted, lowerList_singleton_eq_ok bodyRan, rfl, rfl⟩
  | foreign target args =>
      cases target with
      | named function =>
          cases isRow
          rw [lower] at ran
          obtain ⟨values, argsRan, rfl⟩ := bind_pure_eq_ok.mp ran
          exact ⟨values, code, argsRan, rfl, by rw [List.append_nil]⟩
      | _ => cases isRow
  | op prim args =>
      cases isRow
      rw [lower] at ran
      obtain ⟨values, argsRan, rfl⟩ := bind_pure_eq_ok.mp ran
      exact ⟨values, code, argsRan, rfl, by rw [List.append_nil]⟩
  | lam | lazy | lazyApp | letIn | case => cases isRow

/-- Only bindings, case analyses and deferred values are no row forms. -/
theorem rowForm?_eq_none {expr : Expr} {before after : State} {value : Term}
    {code : List Stmt} (noRow : expr.rowForm? context = none)
    (ran : expr.lower context before = .ok (value, after, code)) :
    (∃ name bound body, expr = .letIn name bound body) ∨
      (∃ scrutinee alts, expr = .case scrutinee alts) ∨
      expr.deferral?.isSome = true := by
  cases expr with
  | letIn name bound body => exact .inl ⟨name, bound, body, rfl⟩
  | case scrutinee alts => exact .inr (.inl ⟨scrutinee, alts, rfl⟩)
  | lam params body => exact .inr (.inr rfl)
  | lazy body => exact .inr (.inr rfl)
  | lazyApp name args => exact .inr (.inr rfl)
  | app func args tail =>
      rw [rowForm?] at noRow
      rw [lower] at ran
      split at noRow
      · rename_i restarts
        rw [if_pos restarts] at ran
        split at noRow
        · cases noRow
        · rename_i miscounted
          rw [if_neg miscounted] at ran
          cases ran
      · cases noRow
  | con name args remark =>
      rw [rowForm?, Option.map_eq_none_iff] at noRow
      rw [lower] at ran
      obtain ⟨tag, middle, emitted, _, tagRan, _, rfl⟩ := bind_eq_ok.mp ran
      cases noRow.symm.trans (tagOf_eq_ok.mp tagRan).1
  | proj body index =>
      rw [rowForm?] at noRow
      split at noRow
      · rename_i long
        rw [lower] at ran
        obtain ⟨inner, last, emitted, _, bodyRan, restRan, rfl⟩ :=
          bind_eq_ok.mp ran
        rw [if_pos long] at restRan
        cases restRan
      · cases noRow
  | foreign target args =>
      cases target with
      | named function => cases noRow
      | _ =>
          rw [lower] at ran
          · cases ran
          · intro name same
            cases same
  | _ => cases noRow

@[simp] theorem freeVars_lam_nil (body : Expr) :
    (lam [] body).freeVars = body.freeVars := by
  rw [freeVars, occurrences]
  rfl

theorem freeVars_deferral? {expr body : Expr} {params : List Name}
    (isDeferred : expr.deferral? = some (params, body)) :
    (lam params body).freeVars = expr.freeVars := by
  cases expr with
  | lam =>
      cases isDeferred
      rfl
  | lazy =>
      cases isDeferred
      simp [freeVars]
  | lazyApp name args =>
      cases isDeferred
      simp [freeVars]
  | _ => cases isDeferred

end Expr

theorem Lowering.captured_sublist (context : Context) (bound : List Name)
    (source : Expr) :
    (captured context bound source).Sublist source.freeVars := by
  rw [captured]
  split
  · exact List.filter_sublist
  · exact List.nil_sublist _

theorem Lowering.defer_eq_ok {params : List Name} {source : Expr}
    {body : Lowering Term} {before after : State} {value : Term}
    {code : List Stmt}
    (ran : defer context params source body before = .ok (value, after, code)) :
    ∃ bodyValue inner block, body before = .ok (bodyValue, inner, block) ∧
      Closes context params (captured context before.bound source) before.bound
        bodyValue inner block value after code := by
  obtain ⟨names, same, _, _, boundRan, workRan, rfl⟩ := bind_eq_ok.mp ran
  cases boundRan
  obtain ⟨⟨bodyValue, block⟩, middle, _, _, deferredRan, closeRan, rfl⟩ :=
    bind_eq_ok.mp workRan
  obtain ⟨inner, bodyRan, rfl, rfl⟩ := deferred_eq_ok.mp deferredRan
  refine ⟨bodyValue, inner, block, bodyRan, ?_⟩
  rw [List.nil_append, List.nil_append]
  cases block with
  | nil =>
      obtain ⟨rfl, rfl, rfl⟩ := pure_eq_ok.mp closeRan
      exact .inline
  | cons stmt block =>
      obtain ⟨function, _, _, _, freshRan, hoistRan, rfl⟩ :=
        bind_eq_ok.mp closeRan
      obtain ⟨rfl, rfl, rfl⟩ := fresh_eq_ok.mp freshRan
      obtain ⟨_, _, _, _, emitRan, doneRan, rfl⟩ := bind_eq_ok.mp hoistRan
      obtain ⟨rfl, rfl⟩ := emit_eq_ok.mp emitRan
      have closes :
          Closes context params (captured context before.bound source)
            before.bound
          bodyValue inner (stmt :: block) _ _ _ :=
            .hoist (List.cons_ne_nil stmt block)
      rw [hoisted] at closes
      dsimp only at doneRan
      split at doneRan
      · rename_i few
        obtain ⟨rfl, rfl, rfl⟩ := pure_eq_ok.mp doneRan
        rw [if_pos few] at closes
        exact closes
      · rename_i many
        obtain ⟨rfl, rfl, rfl⟩ := pure_eq_ok.mp doneRan
        rw [if_neg many] at closes
        exact closes

namespace Expr

/-- The body of a deferred value is lowered, and the value closes over it. -/
theorem lower_eq_ok_of_deferral? {expr body : Expr} {params : List Name}
    {before after : State} {value : Term} {code : List Stmt}
    (isDeferred : expr.deferral? = some (params, body))
    (ran : expr.lower context before = .ok (value, after, code)) :
    ∃ bodyValue inner block, body.lower context before =
      .ok (bodyValue, inner, block) ∧
      Closes context params (captured context before.bound (.lam params body))
        before.bound bodyValue inner block value after code := by
  cases expr with
  | lam params body =>
      cases isDeferred
      rw [lower] at ran
      exact defer_eq_ok ran
  | lazy body =>
      cases isDeferred
      rw [lower] at ran
      rw [captured, freeVars_lam_nil]
      exact defer_eq_ok ran
  | lazyApp name args =>
      cases isDeferred
      rw [lower] at ran
      rw [captured, freeVars_lam_nil]
      obtain ⟨bodyValue, inner, block, bodyRan, closes⟩ := defer_eq_ok ran
      refine ⟨bodyValue, inner, block, ?_, closes⟩
      rw [lower]
      exact bind_eq_ok.mpr ⟨_, before, [], block, rfl, bodyRan, rfl⟩
  | _ => cases isDeferred

end Expr

/-- Whatever an expression is lowered to is derived, and the names bound before
stay bound. -/
def Derived (context : Context) (has : LoweringProperty) (expr : Expr) : Prop :=
  ∀ scope before value after code, scope ⊆ before.bound →
    expr.lower context before = .ok (value, after, code) →
    before.bound ⊆ after.bound ∧
    Lowers context has scope expr before value after code

theorem LowersArms.of_clauses {scope : List Name} {subject result : Var}
    {alts : List Alt} {before after : State} {clauses : List Clause}
    {code : List Stmt} (bodies : ∀ alt ∈ alts, Derived context has alt.body)
    (known : scope ⊆ before.bound)
    (ran : Lowering.clauses context subject result
      (alts.map (Alt.branch context)) before = .ok (clauses, after, code)) :
    before.bound ⊆ after.bound ∧
      LowersArms context has scope subject result alts before after
        clauses := by
  induction alts generalizing before clauses code with
  | nil =>
      obtain ⟨rfl, rfl, rfl⟩ := pure_eq_ok.mp ran
      exact ⟨List.Subset.refl _, .nil⟩
  | cons alt alts ih =>
      obtain ⟨own, later⟩ := List.forall_mem_cons.mp bodies
      obtain ⟨guard, body, rest, middle, rfl, guardIs, armRan, othersRan⟩ :=
        clauses_cons_eq_ok ran
      obtain ⟨value, code, bodyRan, rfl⟩ := arm_eq_ok armRan
      have bodyRan' : alt.body.lower context (before.binding alt.binders) =
          .ok (value, middle, code) := by
        rw [← alt.binders_pattern]
        exact bodyRan
      have inside : alt.binders ++ scope ⊆ (before.binding alt.binders).bound :=
        List.append_subset.mpr ⟨List.subset_append_left _ _,
          List.Subset.trans known (List.subset_append_right _ _)⟩
      obtain ⟨grows, lowers⟩ := own _ _ _ _ _ inside bodyRan'
      have kept : before.bound ⊆ middle.bound :=
        List.Subset.trans (List.subset_append_right _ _) grows
      obtain ⟨growsOn, arms⟩ :=
        ih later (List.Subset.trans known kept) othersRan
      exact ⟨List.Subset.trans kept growsOn, .cons guardIs lowers arms⟩

/-- Branches of alternatives are the branches of a row of them. -/
theorem exists_alts_of_branches {alts : List Alt} {branches : List Branch}
    (original : branches ⊆ alts.map (Alt.branch context)) :
    ∃ group, group ⊆ alts ∧ branches = group.map (Alt.branch context) := by
  induction branches with
  | nil => exact ⟨[], List.nil_subset _, rfl⟩
  | cons branch branches ih =>
      obtain ⟨own, later⟩ := List.cons_subset.mp original
      obtain ⟨alt, member, rfl⟩ := List.mem_map.mp own
      obtain ⟨group, within, rfl⟩ := ih later
      exact ⟨alt :: group, List.cons_subset.mpr ⟨member, within⟩, rfl⟩

section Decisions

variable {scope : List Name} {subject result : Var} {alts : List Alt}

theorem Dispatches.of_emitChain {branches : List Branch}
    {before after : State} {code : List Stmt}
    (bodies : ∀ alt ∈ alts, Derived context has alt.body)
    (known : scope ⊆ before.bound)
    (original : branches ⊆ alts.map (Alt.branch context))
    (ordered : Pattern.Ordered true (branches.map Branch.pattern))
    (ran : emitChain context subject result branches before =
      .ok ((), after, code)) :
    before.bound ⊆ after.bound ∧
      Dispatches context has scope subject result alts before after code := by
  obtain ⟨group, within, rfl⟩ := exists_alts_of_branches original
  obtain ⟨made, last, madeRan, lastIs, rfl⟩ := emitChain_eq_ok ran
  obtain ⟨grows, arms⟩ := LowersArms.of_clauses
    (fun alt member => bodies alt (within member)) known madeRan
  rw [List.getLast?_map, Option.map_eq_some_iff] at lastIs
  obtain ⟨alt, lastIs, rfl⟩ := lastIs
  have others : unmatched group =
      if (alt.branch context).pattern.isDefault then []
      else [.mk .otherwise [.unreachable]] := by
    rw [unmatched, lastIs, Option.any_some, ← alt.isDefault_pattern]
    rfl
  rw [← others]
  rw [List.map_map] at ordered
  refine ⟨grows, .chain ?_ ordered within arms⟩
  rintro rfl
  cases lastIs

theorem Dispatches.of_emitTree {default : Option Branch}
    (branches : List (Int × Branch)) (some : branches ≠ [])
    {before after : State} {code : List Stmt}
    (bodies : ∀ alt ∈ alts, Derived context has alt.body)
    (known : scope ⊆ before.bound)
    (original : ∀ pair ∈ branches, pair.2 ∈ alts.map (Alt.branch context))
    (plain : ∀ pair ∈ branches, pair.2.pattern.isDefault = false)
    (originalDefault : ∀ branch ∈ default,
      branch ∈ alts.map (Alt.branch context))
    (ran : emitTree context subject result default branches before =
      .ok ((), after, code)) :
    before.bound ⊆ after.bound ∧
      Dispatches context has scope subject result alts before after code := by
  induction branches using emitTree.induct generalizing before after code with
  | case1 branches wide inside lowHalf highHalf =>
      have many : 3 < branches.length := wide
      have lowSome : branches.take (branches.length / 2) ≠ [] := by
        rw [← List.length_pos_iff, List.length_take]
        omega
      have highSome : branches.drop (branches.length / 2) ≠ [] := by
        rw [← List.length_pos_iff, List.length_drop]
        omega
      obtain ⟨middle, low, high, lowRan, highRan, rfl⟩ :=
        emitTree_eq_ok wide inside ran
      obtain ⟨grows, lowDispatches⟩ := lowHalf lowSome known
        (fun pair member => original pair (List.mem_of_mem_take member))
        (fun pair member => plain pair (List.mem_of_mem_take member)) lowRan
      obtain ⟨growsOn, highDispatches⟩ :=
        highHalf highSome (List.Subset.trans known grows)
        (fun pair member => original pair (List.mem_of_mem_drop member))
        (fun pair member => plain pair (List.mem_of_mem_drop member)) highRan
      exact ⟨List.Subset.trans grows growsOn,
        .split lowDispatches highDispatches⟩
  | case2 branches narrow =>
      rw [emitTree, dif_neg narrow] at ran
      refine Dispatches.of_emitChain bodies known ?_ ?_ ran
      · intro branch member
        rcases List.mem_append.mp member with inGroup | last
        · obtain ⟨pair, pairMember, rfl⟩ := List.mem_map.mp inGroup
          exact original pair pairMember
        · exact originalDefault branch (Option.mem_toList.mp last)
      · have tests : ∀ pattern ∈ branches.map fun pair => pair.2.pattern,
            pattern.isDefault = false := List.forall_mem_map.mpr plain
        have patterns :
            (branches.map Prod.snd ++ default.toList).map Branch.pattern =
              (branches.map fun pair => pair.2.pattern) ++
                (default.map Branch.pattern).toList := by
          rw [List.map_append, List.map_map]
          cases default <;> rfl
        rw [patterns]
        exact Pattern.ordered_append tests (fun _ => by simpa using some) _

theorem Decides.of_chain {before after : State} {value : Term}
    {code : List Stmt} (bodies : ∀ alt ∈ alts, Derived context has alt.body)
    (known : scope ⊆ before.bound)
    (ordered : Pattern.Ordered true
      ((alts.map (Alt.branch context)).map Branch.pattern))
    (ran : chain context subject (alts.map (Alt.branch context)) before =
      .ok (value, after, code)) :
    before.bound ⊆ after.bound ∧
      Decides context has scope subject alts before value after code := by
  obtain ⟨result, _, _, _, freshRan, testsRan, rfl⟩ := bind_eq_ok.mp ran
  obtain ⟨rfl, rfl, rfl⟩ := fresh_eq_ok.mp freshRan
  obtain ⟨_, _, _, _, emitRan, doneRan, rfl⟩ := bind_eq_ok.mp testsRan
  obtain ⟨rfl, rfl, rfl⟩ := pure_eq_ok.mp doneRan
  have stillKnown : scope ⊆ before.advanced.bound := known
  obtain ⟨grows, dispatches⟩ := Dispatches.of_emitChain bodies stillKnown
    (List.Subset.refl _) ordered emitRan
  rw [List.nil_append, List.append_nil]
  exact ⟨grows, .dispatch dispatches⟩

theorem Decides.of_tree {constructors : List Branch} {default : Option Branch}
    {before after : State} {value : Term} {code : List Stmt}
    (bodies : ∀ alt ∈ alts, Derived context has alt.body)
    (known : scope ⊆ before.bound) (some : constructors ≠ [])
    (original : constructors ++ default.toList ⊆ alts.map (Alt.branch context))
    (plain : ∀ branch ∈ constructors, branch.pattern.isDefault = false)
    (last : ∀ branch ∈ default, branch.pattern = .default)
    (ran : tree context subject (constructors ++ default.toList) before =
      .ok (value, after, code)) :
    before.bound ⊆ after.bound ∧
      Decides context has scope subject alts before value after code := by
  rw [tree, splitDefault_append plain last] at ran
  obtain ⟨tests, defaults⟩ := List.append_subset.mp original
  obtain ⟨chosen, middle, _, _, taggedRan, treeRan, rfl⟩ := bind_eq_ok.mp ran
  obtain ⟨collected, same, rfl⟩ := tagged_eq_ok taggedRan
  obtain ⟨result, _, _, _, freshRan, testsRan, rfl⟩ := bind_eq_ok.mp treeRan
  obtain ⟨rfl, rfl, rfl⟩ := fresh_eq_ok.mp freshRan
  obtain ⟨_, _, _, _, emitRan, doneRan, rfl⟩ := bind_eq_ok.mp testsRan
  obtain ⟨rfl, rfl, rfl⟩ := pure_eq_ok.mp doneRan
  subst same
  have stillKnown : scope ⊆ middle.advanced.bound := known
  have within : ∀ pair ∈ chosen.mergeSort fun left right =>
      decide (left.1 ≤ right.1), pair.2 ∈ constructors :=
    fun pair member => (collected.mem (List.mem_mergeSort.mp member)).1
  have someChosen : (chosen.mergeSort fun left right =>
      decide (left.1 ≤ right.1)) ≠ [] := by
    intro empty
    apply collected.ne_nil some
    rw [← List.length_eq_zero_iff, ← List.length_mergeSort, empty]
    rfl
  obtain ⟨grows, dispatches⟩ := Dispatches.of_emitTree _ someChosen bodies
    stillKnown (fun pair member => tests (within pair member))
    (fun pair member => plain _ (within pair member))
    (fun branch member => defaults (Option.mem_toList.mpr member)) emitRan
  rw [List.nil_append, List.nil_append, List.append_nil]
  exact ⟨grows, .dispatch dispatches⟩

theorem Decides.of_decision {before after : State} {value : Term}
    {code : List Stmt} (bodies : ∀ alt ∈ alts, Derived context has alt.body)
    (known : scope ⊆ before.bound)
    (ran : decision context subject (alts.map (Alt.branch context)) before =
      .ok (value, after, code)) :
    before.bound ⊆ after.bound ∧
      Decides context has scope subject alts before value after code := by
  obtain ⟨_, middle, _, _, shapeRan, choiceRan, rfl⟩ := bind_eq_ok.mp ran
  obtain ⟨-, early, rfl, rfl⟩ := checkShape_eq_ok shapeRan
  rw [List.nil_append]
  generalize form : alts.map (Alt.branch context) = branches
    at choiceRan early
  split at choiceRan
  · obtain ⟨alt, rfl, isDefault⟩ := List.map_eq_singleton_iff.mp form
    cases alt with
    | default body =>
        cases isDefault
        obtain ⟨grows, lowers⟩ :=
          bodies _ (List.mem_singleton.mpr rfl) scope _ _ _ _ known choiceRan
        exact ⟨grows, .lone lowers⟩
    | _ => cases isDefault
  · rename_i notLone
    split at choiceRan
    · rename_i wide
      obtain ⟨constructors, last, rfl, many, plain, lastIs⟩ :=
        usesTree_eq_true wide
      have treeRan : tree context subject
          (constructors ++ (some last).toList) _ = _ := choiceRan
      refine Decides.of_tree bodies known many ?_ ?_ ?_ treeRan
      · rw [form]
        exact List.Subset.refl _
      · intro branch member
        obtain ⟨ctor, args, isCon⟩ := plain branch member
        rw [isCon]
        rfl
      · rintro branch ⟨⟩
        exact lastIs
    · subst form
      refine Decides.of_chain bodies known ?_ choiceRan
      refine Pattern.ordered_of_not_lone ?_ ?_
      · rw [← List.map_dropLast]
        exact List.forall_mem_map.mpr early
      · intro lone
        obtain ⟨branch, same, isDefault⟩ := List.map_eq_singleton_iff.mp lone
        obtain ⟨pattern, body⟩ := branch
        cases isDefault
        exact notLone body same

end Decisions

theorem LowersRow.of_lowerList {scope : List Name} {exprs : List Expr}
    {before after : State} {values : List Term} {code : List Stmt}
    (operands : ∀ expr ∈ exprs, Derived context has expr)
    (known : scope ⊆ before.bound)
    (ran : Expr.lowerList context exprs before = .ok (values, after, code)) :
    before.bound ⊆ after.bound ∧
      LowersRow context has scope exprs before values after code := by
  induction exprs generalizing before values code with
  | nil =>
      obtain ⟨rfl, rfl, rfl⟩ := pure_eq_ok.mp ran
      exact ⟨List.Subset.refl _, .nil⟩
  | cons expr exprs ih =>
      obtain ⟨own, later⟩ := List.forall_mem_cons.mp operands
      obtain ⟨value, others, middle, emitted, further, ownRan, othersRan, rfl,
        rfl⟩ :=
        Expr.lowerList_cons_eq_ok.mp ran
      obtain ⟨grows, lowers⟩ := own _ _ _ _ _ known ownRan
      obtain ⟨growsOn, rest⟩ :=
        ih later (List.Subset.trans known grows) othersRan
      exact ⟨List.Subset.trans grows growsOn, .cons lowers rest⟩

/-- The operands of a row form are among the parts of the expression. -/
theorem Expr.operands_subset {expr : Expr} {form : RowForm}
    (isRow : expr.rowForm? context = some form) :
    form.operands ⊆ expr.children := by
  cases expr with
  | app func args tail =>
      rw [rowForm?] at isRow
      split at isRow
      · split at isRow
        · cases isRow
          exact List.subset_cons_self func args
        · cases isRow
      · cases isRow
        exact List.Subset.refl _
  | con name args remark =>
      obtain ⟨tag, -, rfl⟩ := Option.map_eq_some_iff.mp isRow
      exact List.Subset.refl _
  | proj body index =>
      rw [rowForm?] at isRow
      split at isRow
      · cases isRow
      · cases isRow
        exact List.Subset.refl _
  | foreign target args =>
      cases target with
      | named function =>
          cases isRow
          exact List.Subset.refl _
      | _ => cases isRow
  | lam | lazy | lazyApp | letIn | case => cases isRow
  | _ =>
      cases isRow
      exact List.Subset.refl _

/-- The property is asked of every lowering that is made below names that are
bound. -/
def Throughout (context : Context) (has : LoweringProperty) : Prop :=
  ∀ scope expr before value after code, scope ⊆ before.bound →
    expr.lower context before = .ok (value, after, code) →
    has scope expr before value after code

theorem Derived.of_rowForm? {expr : Expr} {form : RowForm}
    (everywhere : Throughout context has)
    (isRow : expr.rowForm? context = some form)
    (operands : ∀ operand ∈ form.operands, Derived context has operand) :
    Derived context has expr := by
  intro scope before value after code known ran
  have own := everywhere scope expr before value after code known ran
  obtain ⟨values, emitted, rowRan, rfl, rfl⟩ :=
    Expr.lower_eq_ok_of_rowForm? isRow ran
  obtain ⟨grows, row⟩ := LowersRow.of_lowerList operands known rowRan
  exact ⟨grows, .row isRow row own⟩

theorem Derived.of_letIn {name : Name} {bound body : Expr}
    (everywhere : Throughout context has)
    (boundDerived : Derived context has bound)
    (bodyDerived : Derived context has body) :
    Derived context has (.letIn name bound body) := by
  intro scope before value after code known ran
  have own := everywhere scope _ before value after code known ran
  rw [Expr.lower] at ran
  obtain ⟨first, middle, _, _, boundRan, assignRan, rfl⟩ := bind_eq_ok.mp ran
  obtain ⟨_, same, _, _, storeRan, declareRan, rfl⟩ := bind_eq_ok.mp assignRan
  obtain ⟨rfl, rfl⟩ := assign_eq_ok.mp storeRan
  obtain ⟨_, inner, _, _, bindRan, bodyRan, rfl⟩ := bind_eq_ok.mp declareRan
  obtain ⟨rfl, rfl⟩ := declare_eq_ok.mp bindRan
  obtain ⟨grows, lowers⟩ := boundDerived _ _ _ _ _ known boundRan
  have inside : name :: scope ⊆ (same.binding [name]).bound :=
    List.cons_subset_cons name (List.Subset.trans known grows)
  obtain ⟨growsOn, bodyLowers⟩ := bodyDerived _ _ _ _ _ inside bodyRan
  have kept : same.bound ⊆ after.bound :=
    List.Subset.trans (List.subset_append_right [name] _) growsOn
  rw [List.nil_append, ← List.append_assoc] at own ⊢
  exact ⟨List.Subset.trans grows kept, .letIn lowers bodyLowers own⟩

theorem Derived.of_case {scrutinee : Expr} {alts : List Alt}
    (everywhere : Throughout context has)
    (scrutineeDerived : Derived context has scrutinee)
    (bodies : ∀ alt ∈ alts, Derived context has alt.body) :
    Derived context has (.case scrutinee alts) := by
  intro scope before value after code known ran
  have own := everywhere scope _ before value after code known ran
  cases simple : scrutinee.isVar with
  | true =>
      cases scrutinee with
      | var subject =>
          rw [Expr.lower, Expr.lowerAlts_eq_map] at ran
          obtain ⟨grows, decides⟩ := Decides.of_decision bodies known ran
          exact ⟨grows, .caseVar decides own⟩
      | _ => cases simple
  | false =>
      rw [Expr.lower_case_compound simple, Expr.lowerAlts_eq_map] at ran
      obtain ⟨subject, _, _, _, freshRan, scrutineeRan, rfl⟩ :=
        bind_eq_ok.mp ran
      obtain ⟨rfl, rfl, rfl⟩ := fresh_eq_ok.mp freshRan
      obtain ⟨first, middle, _, _, firstRan, assignRan, rfl⟩ :=
        bind_eq_ok.mp scrutineeRan
      obtain ⟨_, same, _, _, storeRan, decisionRan, rfl⟩ :=
        bind_eq_ok.mp assignRan
      obtain ⟨rfl, rfl⟩ := assign_eq_ok.mp storeRan
      have stillKnown : scope ⊆ before.advanced.bound := known
      obtain ⟨grows, lowers⟩ := scrutineeDerived _ _ _ _ _ stillKnown firstRan
      obtain ⟨growsOn, decides⟩ :=
        Decides.of_decision bodies (List.Subset.trans stillKnown grows)
          decisionRan
      rw [List.nil_append, ← List.append_assoc] at own ⊢
      exact ⟨List.Subset.trans grows growsOn,
        .caseCompound simple lowers decides own⟩

/-- A deferred value forgets the names that its body binds. -/
theorem Derived.of_deferral? {expr body : Expr} {params : List Name}
    (everywhere : Throughout context has)
    (isDeferred : expr.deferral? = some (params, body))
    (bodyDerived : Derived context has body) : Derived context has expr := by
  intro scope before value after code known ran
  have own := everywhere scope _ before value after code known ran
  obtain ⟨bodyValue, inner, block, bodyRan, closes⟩ :=
    Expr.lower_eq_ok_of_deferral? isDeferred ran
  obtain ⟨-, lowers⟩ := bodyDerived _ _ _ _ _ known bodyRan
  refine ⟨?_, .deferred isDeferred lowers closes own⟩
  cases closes <;> exact List.Subset.refl _

/-- Every lowering has a derivation all of whose lowerings have the property, if
every lowering below bound names has it. -/
theorem Derived.of_throughout (everywhere : Throughout context has)
    (expr : Expr) :
    Derived context has expr := by
  induction expr using Expr.inductionOnParts with
  | step expr ih =>
      cases isRow : expr.rowForm? context with
      | some form =>
          apply Derived.of_rowForm? everywhere isRow
          exact fun operand member =>
            ih operand (Expr.operands_subset isRow member)
      | none =>
          intro scope before value after code known ran
          suffices derived :
              Derived context has expr from derived _ _ _ _ _ known ran
          rcases Expr.rowForm?_eq_none isRow ran with
            ⟨name, bound, body, rfl⟩ | ⟨scrutinee, alts, rfl⟩ | isDeferred
          · exact Derived.of_letIn everywhere
              (ih bound (by simp [Expr.children]))
              (ih body (by simp [Expr.children]))
          · apply Derived.of_case everywhere (ih scrutinee List.mem_cons_self)
            intro alt member
            exact ih alt.body
              (List.mem_cons_of_mem _ (List.mem_map_of_mem member))
          · obtain ⟨⟨params, body⟩, isDeferred⟩ :=
              Option.isSome_iff_exists.mp isDeferred
            apply Derived.of_deferral? everywhere isDeferred
            cases expr with
            | lam | lazy =>
                cases isDeferred
                exact ih body List.mem_cons_self
            | lazyApp name args =>
                cases isDeferred
                have callee : Derived context has (.var (.named name)) :=
                  Derived.of_rowForm? everywhere rfl (List.forall_mem_nil _)
                exact Derived.of_rowForm? everywhere rfl
                  (List.forall_mem_cons.mpr ⟨callee, ih⟩)
            | _ => cases isDeferred

theorem throughout_true : Throughout context fun _ _ _ _ _ _ => True :=
  fun _ _ _ _ _ _ _ _ => trivial

/-- Whatever lowering yields is derived. -/
theorem Expr.lowers {expr : Expr} {before after : State} {value : Term}
    {code : List Stmt}
    (ran : expr.lower context before = .ok (value, after, code)) :
    Lowers context (fun _ _ _ _ _ _ => True) [] expr before value after code :=
  (Derived.of_throughout throughout_true expr _ _ _ _ _ (List.nil_subset _)
    ran).2

theorem Expr.lowersRow {exprs : List Expr} {before after : State}
    {values : List Term} {code : List Stmt}
    (ran : lowerList context exprs before = .ok (values, after, code)) :
    LowersRow context (fun _ _ _ _ _ _ => True) [] exprs before values after
      code :=
  (LowersRow.of_lowerList
    (fun expr _ => Derived.of_throughout throughout_true expr)
    (List.nil_subset _) ran).2

/-- The code of a function, if what is said of all lowerings holds. -/
theorem Function.lowers_of_throughout {function : Function} {tags : TagTable}
    {block : Code.Block} (everywhere : Throughout (function.context tags) has)
    (lowered : function.lower tags = .ok block) :
    ∃ after, Lowers (function.context tags) has function.params
      function.markedBody (State.initial function.params) block.value after
      block.statements := by
  obtain ⟨after, ran⟩ := lower_eq_ok lowered
  have derived := Derived.of_throughout everywhere function.markedBody
  exact ⟨after, (derived _ _ _ _ _ (List.Subset.refl _) ran).2⟩

end TailLoop
