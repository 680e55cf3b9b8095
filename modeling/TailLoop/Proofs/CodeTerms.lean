import TailLoop.Proofs.LoweringRelation

/-!
# Terms in lowered code

Lowering builds terms from smaller ones.  A property of terms that every form of
term takes over from its parts holds of all terms in lowered code, if it holds
of the foreign functions that are named there and of the value of a restart.
-/

namespace TailLoop

namespace Code

/-- A property that a term without functions of its own has if its parts have
it.  Nothing is said about variables, the value of a restart and code that is
given as text. -/
structure Term.Composed (good : Term → Prop) : Prop where
  int : ∀ value, good (.int value)
  float : ∀ value, good (.float value)
  str : ∀ value, good (.str value)
  none : good .none
  raise : ∀ message, good (.raise message)
  paren : ∀ {body}, good body → good (.paren body)
  call : ∀ {callee args}, good callee → (∀ arg ∈ args, good arg) →
    good (.call callee args)
  tuple : ∀ {items}, (∀ item ∈ items, good item) → good (.tuple items)
  item : ∀ {body} index, good body → good (.item body index)
  binary : ∀ op {left right}, good left → good right →
    good (.binary op left right)
  compare : ∀ op {left right}, good left → good right →
    good (.compare op left right)
  unary : ∀ op {arg}, good arg → good (.unary op arg)
  readLine : good .readLine
  write : ∀ {arg}, good arg → good (.write arg)
  unsupported : ∀ prim {args}, (∀ arg ∈ args, good arg) →
    good (.unsupported prim args)

/-- A property that a term has if its parts have it.  Nothing is said about the
value of a restart and about code that is given as text. -/
structure Term.Closed (good : Term → Prop) :
    Prop extends Term.Composed good where
  var : ∀ v, good (.var v)
  thunk : ∀ frozen {body}, good body → good (.thunk frozen body)
  lambda : ∀ param frozen {body}, good body → good (.lambda param frozen body)

/-- What is asked of code: of its terms, of its tests and of the variables that
its functions freeze. -/
structure Requirement where
  term : Term → Prop
  test : Guard → Prop
  frozen : List Var → Prop

namespace Stmt

mutual

/-- The parts of the statement, at any depth, are as required. -/
@[simp] def Meets (required : Requirement) : Stmt → Prop
  | .assign _ value => required.term value
  | .unpack _ _ => True
  | .rebind _ values => ∀ value ∈ values, required.term value
  | .continue => True
  | .unreachable => True
  | .branch _ clauses => MeetsClauses required clauses
  | .define _ _ frozen body result =>
      MeetsList required body ∧ required.term result ∧ required.frozen frozen

@[simp] def MeetsList (required : Requirement) : List Stmt → Prop
  | [] => True
  | stmt :: stmts => Meets required stmt ∧ MeetsList required stmts

@[simp] def MeetsClauses (required : Requirement) : List Clause → Prop
  | [] => True
  | .mk guard body :: clauses =>
      required.test guard ∧ MeetsList required body ∧
        MeetsClauses required clauses

end

variable {required : Requirement}

theorem MeetsList.append {first second : List Stmt}
    (before : MeetsList required first) (after : MeetsList required second) :
    MeetsList required (first ++ second) := by
  induction first with
  | nil => exact after
  | cons stmt first ih => exact ⟨before.1, ih before.2⟩

theorem MeetsClauses.append {first second : List Clause}
    (before : MeetsClauses required first)
    (after : MeetsClauses required second) :
    MeetsClauses required (first ++ second) := by
  induction first with
  | nil => exact after
  | cons clause first ih =>
      obtain ⟨guard, body⟩ := clause
      obtain ⟨guardMeets, bodyMeets, laterMeets⟩ := before
      exact ⟨guardMeets, bodyMeets, ih laterMeets⟩

end Stmt

@[simp] def Guard.Forall (good : Term → Prop) : Guard → Prop
  | .equals value => good value
  | _ => True

/-- Terms are good, wherever they stand. -/
def Requirement.terms (good : Term → Prop) : Requirement :=
  ⟨good, Guard.Forall good, fun _ => True⟩

namespace Term.Composed

open Lowering (callee)

variable {good : Term → Prop} (closed : Composed good)

include closed

theorem constant (const : Const) : good const.term := by
  cases const with
  | int value => exact closed.int value
  | bigInt value => exact closed.int value
  | float value => exact closed.float value
  | char value => exact closed.str [value]
  | string value => exact closed.str value
  | world => exact closed.raise _
  | type => exact closed.raise _

theorem applied (source : Expr) {term : Term} (termGood : good term) :
    good (callee source term) := by
  unfold callee
  split
  · exact termGood
  · exact closed.paren termGood

theorem unaryTerm? {op : PrimOp} {arg term : Term} (argGood : good arg)
    (found : op.unaryTerm? arg = some term) : good term := by
  unfold PrimOp.unaryTerm? at found
  split at found
  · cases found
    exact argGood
  · obtain ⟨unary, -, rfl⟩ := Option.map_eq_some_iff.mp found
    exact closed.unary unary argGood

theorem binaryTerm? {op : PrimOp} {kind : NumKind} {left right term : Term}
    (leftGood : good left) (rightGood : good right)
    (found : op.binaryTerm? kind left right = some term) : good term := by
  unfold PrimOp.binaryTerm? at found
  split at found
  · cases found
    exact closed.binary _ leftGood rightGood
  · obtain ⟨compare, -, rfl⟩ := Option.map_eq_some_iff.mp found
    exact closed.compare compare leftGood rightGood

theorem terminalTerm? {op : PrimOp} {args : List Term} {term : Term}
    (argsGood : ∀ arg ∈ args, good arg)
    (found : op.terminalTerm? args = some term) :
    good term := by
  unfold PrimOp.terminalTerm? at found
  split at found
  · cases found
    exact closed.readLine
  · obtain ⟨arg, last, rfl⟩ := Option.map_eq_some_iff.mp found
    exact closed.write (argsGood arg (List.mem_of_getLast? last))
  · cases found

theorem operation (prim : Prim) {args : List Term}
    (argsGood : ∀ arg ∈ args, good arg) :
    good (prim.term args) := by
  cases prim with
  | external name kind =>
      unfold Prim.term externalTerm
      dsimp only
      split
      · exact closed.none
      · exact closed.raise _
  | standard op kind =>
      unfold Prim.term
      dsimp only
      split
      · rename_i term found
        split at found
        · exact closed.unaryTerm? (argsGood _ (List.mem_singleton.mpr rfl))
            found
        · obtain ⟨leftGood, others⟩ := List.forall_mem_cons.mp argsGood
          exact closed.binaryTerm? leftGood
            (List.forall_mem_singleton.mp others) found
        · cases found
      · cases found : op.terminalTerm? args with
        | none => exact closed.unsupported _ argsGood
        | some term => exact closed.terminalTerm? argsGood found

end Term.Composed

end Code

open Code

namespace Expr

open Lowering

/-- The value of a row form is composed of the values of its operands. -/
theorem result_good {context : Context} {good : Term → Prop}
    (composed : Term.Composed good) {expr : Expr} {form : RowForm}
    (isRow : expr.rowForm? context = some form)
    (silent : form.ending = fun _ => [])
    (named : ∀ v, expr = .var v → good (.var v))
    (foreign : ∀ name args, expr = .foreign (.named name) args →
      good (.verbatim name)) {values : List Term} (valuesGood :
        ∀ value ∈ values, good value) :
    good (form.result values) := by
  have first : good (values.headD .none) := by
    cases values with
    | nil => exact composed.none
    | cons value values => exact valuesGood value List.mem_cons_self
  have others : ∀ value ∈ values.tail, good value :=
    fun value member => valuesGood value (List.mem_of_mem_tail member)
  cases expr with
  | var v =>
      cases isRow
      exact named v rfl
  | app func args tail =>
      rw [rowForm?] at isRow
      split at isRow
      · split at isRow
        · cases isRow
          have atNothing := congrFun silent []
          cases atNothing
        · cases isRow
      · cases isRow
        exact composed.call (composed.applied func first) others
  | force body =>
      cases isRow
      exact composed.call (composed.applied body first) (List.forall_mem_nil _)
  | con name args remark =>
      obtain ⟨tag, -, rfl⟩ := Option.map_eq_some_iff.mp isRow
      exact composed.tuple
        (List.forall_mem_cons.mpr ⟨composed.int tag, valuesGood⟩)
  | proj body index =>
      rw [rowForm?] at isRow
      split at isRow
      · cases isRow
      · cases isRow
        exact composed.item _ first
  | lit const =>
      cases isRow
      exact composed.constant const
  | foreign target args =>
      cases target with
      | named name =>
          cases isRow
          exact composed.call (foreign name args rfl) valuesGood
      | _ => cases isRow
  | op prim args =>
      cases isRow
      exact composed.operation prim valuesGood
  | fail message =>
      cases isRow
      exact composed.raise message
  | null =>
      cases isRow
      exact composed.none
  | lam | lazy | lazyApp | letIn | case => cases isRow

end Expr

theorem Pattern.guard_forall {good : Term → Prop}
    (composed : Term.Composed good) {pattern : Pattern} {tags : TagTable}
    {guard : Guard} (made : pattern.guard? tags = some guard) :
    guard.Forall good := by
  cases pattern with
  | con ctor args =>
      obtain ⟨tag, -, rfl⟩ := Option.map_eq_some_iff.mp made
      trivial
  | const value =>
      cases made
      exact composed.constant value
  | default =>
      cases made
      trivial

namespace Expr

/-- The parts whose value is the value of the expression. -/
def tails : Expr → List Expr
  | .letIn _ _ body => [body]
  | .case _ alts => alts.map Alt.body
  | _ => []

/-- The other parts. -/
def inner : Expr → List Expr
  | .letIn _ value _ => [value]
  | .case scrutinee _ => [scrutinee]
  | expr => expr.children

theorem tails_subset (expr : Expr) : expr.tails ⊆ expr.children := by
  cases expr with
  | letIn name value body => exact List.subset_cons_self _ _
  | case scrutinee alts => exact List.subset_cons_self _ _
  | _ => exact List.nil_subset _

theorem inner_subset (expr : Expr) : expr.inner ⊆ expr.children := by
  cases expr with
  | letIn name value body =>
      exact List.cons_subset_cons value (List.nil_subset _)
  | case scrutinee alts =>
      exact List.cons_subset_cons scrutinee (List.nil_subset _)
  | _ => exact List.Subset.refl _

theorem operands_subset_inner {context : Context} {expr : Expr} {form : RowForm}
    (isRow : expr.rowForm? context = some form) :
    form.operands ⊆ expr.inner := by
  have parts := operands_subset isRow
  cases expr with
  | letIn | case => cases isRow
  | _ => exact parts

/-- The parts of the expression are allowed where they stand, in tail position
or elsewhere. -/
inductive Admits (allows : Bool → Expr → Prop) : Bool → Expr → Prop where
  | node {tail : Bool} {expr : Expr} :
      allows tail expr →
      (∀ part ∈ expr.inner, Admits allows false part) →
      (∀ part ∈ expr.tails, Admits allows tail part) →
      Admits allows tail expr

namespace Admits

variable {allows : Bool → Expr → Prop} {tail : Bool} {expr : Expr}

theorem allowed (admits : Admits allows tail expr) : allows tail expr := by
  obtain ⟨allowed, -, -⟩ := admits
  exact allowed

theorem inner (admits : Admits allows tail expr) :
    ∀ part ∈ expr.inner, Admits allows false part := by
  obtain ⟨-, inner, -⟩ := admits
  exact inner

theorem tails (admits : Admits allows tail expr) :
    ∀ part ∈ expr.tails, Admits allows tail part := by
  obtain ⟨-, -, tails⟩ := admits
  exact tails

theorem of_contains
    (allowed : ∀ part, expr.Contains part → ∀ tail, allows tail part)
    (tail : Bool) : Admits allows tail expr := by
  induction expr using inductionOnParts generalizing tail with
  | step expr ih =>
      have part : ∀ part ∈ expr.children, ∀ tail, Admits allows tail part :=
        fun part place => ih part place
          fun other within => allowed other (.inside place within)
      exact .node (allowed expr (.self _) tail)
        (fun _ place => part _ (expr.inner_subset place) _)
        (fun _ place => part _ (expr.tails_subset place) _)

theorem unmarked
    (allowed : ∀ part, expr.Contains part → ∀ tail, allows tail part.unmarked)
    (tail : Bool) : Admits allows tail expr.unmarked := by
  refine of_contains (fun part within => ?_) tail
  have member := (mem_subexprs_iff _).mpr within
  rw [subexprs_unmarked] at member
  obtain ⟨own, place, rfl⟩ := List.mem_map.mp member
  exact allowed own ((mem_subexprs_iff _).mp place)

/-- What is marked stands in tail position. -/
theorem marked (function : Name)
    (apart : ∀ part, expr.Contains part → ∀ tail, allows tail part.unmarked)
    (allowed : ∀ part, expr.Contains part →
      allows true (part.marked function)) :
    Admits allows true (expr.marked function) := by
  induction expr using inductionOnParts with
  | step expr ih =>
      have own := allowed expr (.self _)
      have unmarkedPart : ∀ part ∈ expr.children,
          Admits allows false part.unmarked := fun part place =>
        unmarked (fun other within => apart other (.inside place within)) false
      have markedPart : ∀ part ∈ expr.children,
          Admits allows true (part.marked function) := fun part place =>
        ih part place (fun other within => apart other (.inside place within))
          fun other within => allowed other (.inside place within)
      cases expr with
      | letIn name value body =>
          refine .node own ?_ ?_
          · exact List.forall_mem_singleton.mpr
              (unmarkedPart value List.mem_cons_self)
          · exact List.forall_mem_singleton.mpr
              (markedPart body (by simp [children]))
      | case scrutinee alts =>
          refine .node own ?_ ?_
          · exact List.forall_mem_singleton.mpr
              (unmarkedPart scrutinee List.mem_cons_self)
          · rw [Expr.marked, Expr.tails, markedAlts_eq_map, List.map_map]
            refine List.forall_mem_map.mpr fun alt place => ?_
            have body := markedPart alt.body
              (List.mem_cons_of_mem _ (List.mem_map_of_mem place))
            cases alt <;> exact body
      | app func args tail =>
          refine .node own ?_ (List.forall_mem_nil _)
          have parts : ((Expr.app func args tail).marked function).inner =
              func.unmarked :: args.map Expr.unmarked := by
            rw [← unmarkedList_eq_map]
            rfl
          rw [parts]
          refine List.forall_mem_cons.mpr
            ⟨unmarkedPart func List.mem_cons_self, ?_⟩
          exact List.forall_mem_map.mpr fun arg place =>
            unmarkedPart arg (List.mem_cons_of_mem _ place)
      | _ => exact unmarked apart true

end Admits

/-- The names of foreign functions are good code.  So is the value of a restart,
unless the function is restarted in tail position only. -/
structure Sound (good : Term → Prop) (tail : Bool) (expr : Expr) : Prop where
  restart : expr.isTailCall = true → tail = true ∨ good .restart
  foreign : ∀ name args, expr = .foreign (.named name) args →
    good (.verbatim name)

namespace Sound

variable {good : Term → Prop} {expr : Expr}

/-- The value of a restart is good, or nothing restarts the function. -/
theorem admits
    (restarts : ∀ func args, expr.Contains (.app func args true) →
      good .restart)
    (names : ∀ name args, expr.Contains (.foreign (.named name) args) →
      good (.verbatim name)) (tail : Bool) :
    expr.Admits (Sound good) tail := by
  refine .of_contains (fun part within tail => ⟨fun isTail => ?_, ?_⟩) tail
  · cases part with
    | app func args flag =>
        cases isTail
        exact .inr (restarts func args within)
    | _ => cases isTail
  · rintro name args rfl
    exact names name args within

/-- Marking flags calls in tail position. -/
theorem admits_marked (function : Name)
    (names : ∀ name args, expr.Contains (.foreign (.named name) args) →
      good (.verbatim name)) :
    (expr.marked function).Admits (Sound good) true := by
  refine .marked function (fun part within tail => ⟨?_, ?_⟩)
    fun part within => ⟨fun _ => .inl rfl, ?_⟩
  · cases part <;> rintro ⟨⟩
  all_goals
    intro name args same
    cases part with
    | foreign target own =>
        cases same
        exact names name own within
    | _ => cases same

/-- The body of a deferred value is not in tail position. -/
theorem deferral? {tail : Bool} (admits : expr.Admits (Sound good) tail)
    {params : List Name} {body : Expr}
    (isDeferred : expr.deferral? = some (params, body)) :
    body.Admits (Sound good) false := by
  have parts := admits.inner
  cases expr with
  | lam | lazy =>
      cases isDeferred
      exact parts body List.mem_cons_self
  | lazyApp name args =>
      cases isDeferred
      refine .node ⟨?_, ?_⟩ (List.forall_mem_cons.mpr ⟨?_, parts⟩)
        (List.forall_mem_nil _)
      · rintro ⟨⟩
      · rintro _ _ ⟨⟩
      · refine .node ⟨?_, ?_⟩ (List.forall_mem_nil _) (List.forall_mem_nil _)
        · rintro ⟨⟩
        · rintro _ _ ⟨⟩
  | _ => cases isDeferred

end Sound

end Expr

section Meets

open Lowering

variable {context : Context} {has : LoweringProperty} {required : Requirement}

/-- What is required holds of the functions that deferred values become. -/
structure Code.Requirement.Defers (context : Context) (required : Requirement) :
    Prop where
  var : ∀ v, required.term (.var v)
  call : ∀ {callee args}, required.term callee →
    (∀ arg ∈ args, required.term arg) → required.term (.call callee args)
  thunk : ∀ {frozen body}, required.frozen frozen → required.term body →
    required.term (.thunk frozen body)
  lambda : ∀ param {frozen body}, required.frozen frozen →
    required.term body → required.term (.lambda param frozen body)
  frozen : ∀ {vars}, (context.freeze = false → vars = []) →
    required.frozen vars

/-- Lowering builds what is required from parts that are as required, if the
expressions are allowed. -/
structure Code.Requirement.KeptOn (context : Context)
    (allows : Bool → Expr → Prop) (required : Requirement) : Prop where
  row : ∀ {tail expr form}, allows tail expr →
    expr.rowForm? context = some form → form.ending = (fun _ => []) →
    ∀ {values : List Term}, values.length = form.operands.length →
    (∀ value ∈ values, required.term value) → required.term (form.result values)
  restart : ∀ {tail func args}, allows tail (.app func args true) →
    tail = true ∨ required.term .restart
  deferral : ∀ {tail expr params body}, Expr.Admits allows tail expr →
    expr.deferral? = some (params, body) →
    body.Admits allows false ∧ required.Defers context
  case : ∀ {tail scrutinee alts}, allows tail (.case scrutinee alts) →
    ∀ alt ∈ alts, ∀ guard, alt.pattern.guard? context.tags = some guard →
    required.test guard
  var : ∀ v, required.term (.var v)
  tagBelow : ∀ pivot, required.test (.tagBelow pivot)
  otherwise : required.test .otherwise

/-- Lowering builds what is required from parts that are as required. -/
structure Code.Requirement.Kept (context : Context) (required : Requirement) :
    Prop where
  composed : Term.Composed required.term
  var : ∀ v, required.term (.var v)
  thunk : ∀ {frozen body}, required.frozen frozen → required.term body →
    required.term (.thunk frozen body)
  lambda : ∀ param {frozen body}, required.frozen frozen →
    required.term body → required.term (.lambda param frozen body)
  frozen : ∀ {vars}, (context.freeze = false → vars = []) →
    required.frozen vars
  test : ∀ {pattern guard}, Pattern.guard? context.tags pattern = some guard →
    required.test guard
  tagBelow : ∀ pivot, required.test (.tagBelow pivot)

theorem Code.Requirement.Kept.keptOn (kept : required.Kept context) :
    required.KeptOn context (Expr.Sound required.term) where
  row sound isRow silent _ _ good :=
    Expr.result_good kept.composed isRow silent (fun v _ => kept.var v)
      sound.foreign good
  restart sound := sound.restart rfl
  deferral admits isDeferred :=
    ⟨Expr.Sound.deferral? admits isDeferred,
      ⟨kept.var, kept.composed.call, kept.thunk, kept.lambda, kept.frozen⟩⟩
  case _ _ _ _ made := kept.test made
  var := kept.var
  tagBelow := kept.tagBelow
  otherwise := by
    have made : Pattern.guard? context.tags .default = some .otherwise := rfl
    exact kept.test made

/-- The code is as required, and so is the value.  In tail position the function
may have been restarted instead, which ends the code. -/
structure Outcome (required : Requirement) (tail : Bool) (value : Term)
    (code : List Stmt) : Prop where
  meets : Stmt.MeetsList required code
  good : required.term value ∨
    tail = true ∧ value = .restart ∧ ∃ before, code = before ++ [.continue]

theorem Outcome.term {value : Term} {code : List Stmt}
    (outcome : Outcome required false value code) : required.term value := by
  rcases outcome.good with good | ⟨⟨⟩, -⟩
  exact good

theorem Outcome.after {tail : Bool} {value : Term} {first second : List Stmt}
    (before : Stmt.MeetsList required first)
    (outcome : Outcome required tail value second) :
    Outcome required tail value (first ++ second) := by
  refine ⟨before.append outcome.meets, outcome.good.imp_right ?_⟩
  rintro ⟨isTail, rfl, early, rfl⟩
  exact ⟨isTail, rfl, first ++ early, (List.append_assoc _ _ _).symm⟩

theorem Outcome.assigned {tail : Bool} {value : Term} {code : List Stmt}
    (outcome : Outcome required tail value code) (target : Var) :
    Stmt.MeetsList required (code ++ Lowering.assigned target value) := by
  refine outcome.meets.append ?_
  rw [Lowering.assigned]
  split
  · trivial
  · rename_i present
    rcases outcome.good with good | ⟨-, rfl, -⟩
    · exact ⟨good, trivial⟩
    · exact (present rfl).elim

theorem meets_restartCode {values : List Term}
    (good : ∀ value ∈ values, required.term value) :
    Stmt.MeetsList required (restartCode context values) := by
  rw [restartCode]
  refine Stmt.MeetsList.append ?_ ⟨trivial, trivial⟩
  split
  · trivial
  · exact ⟨good, trivial⟩

theorem restartCode_ends (values : List Term) :
    ∃ before, restartCode context values = before ++ [.continue] :=
  ⟨_, rfl⟩

theorem meets_unpackCode (subject : Var) (pattern : Pattern) :
    Stmt.MeetsList required (unpackCode subject pattern) := by
  rw [unpackCode.eq_def]
  split
  · exact ⟨trivial, trivial⟩
  · trivial

namespace Code.Requirement.Defers

variable (defers : required.Defers context)

include defers

theorem curried {frozen : List Var} (mayFreeze : required.frozen frozen)
    {body : Term} (good : required.term body) (params : List Name) :
    required.term (Lowering.curried frozen body params) := by
  cases params with
  | nil => exact defers.thunk mayFreeze good
  | cons param params =>
      apply defers.lambda param mayFreeze
      induction params with
      | nil => exact good
      | cons next params ih =>
          exact defers.lambda next (defers.frozen fun _ => rfl) ih

theorem hoisted (function : Var) (params : List Name) :
    required.term (Lowering.hoisted context function params) := by
  rw [Lowering.hoisted]
  split
  · exact defers.var function
  · refine defers.curried (defers.frozen fun noFreeze => ?_) ?_ params
    · rw [noFreeze]
      rfl
    · refine defers.call (defers.var function) ?_
      exact List.forall_mem_map.mpr fun param _ => defers.var _

theorem closes {params bound : List Name} {source : Expr}
    {bodyValue value : Term} {inner after : State} {block code : List Stmt}
    (closes : Closes context params (captured context bound source) bound
      bodyValue inner block value after code)
    (body : Outcome required false bodyValue block) (tail : Bool) :
    Outcome required tail value code := by
  have mayFreeze : required.frozen (captured context bound source) := by
    refine defers.frozen fun noFreeze => ?_
    rw [captured, noFreeze]
    rfl
  cases closes with
  | inline =>
      exact ⟨trivial, .inl (defers.curried mayFreeze body.term params)⟩
  | hoist =>
      exact ⟨⟨⟨body.meets, body.term, mayFreeze⟩, trivial⟩,
        .inl (defers.hoisted _ params)⟩

end Code.Requirement.Defers

theorem meets_unmatched (otherwise : required.test .otherwise)
    (alts : List Alt) : Stmt.MeetsClauses required (unmatched alts) := by
  rw [unmatched]
  split
  · trivial
  · exact ⟨otherwise, ⟨trivial, trivial⟩, trivial⟩

theorem LowersRow.length_eq {scope : List Name} {exprs : List Expr}
    {before after : State} {values : List Term} {code : List Stmt}
    (row : LowersRow context has scope exprs before values after code) :
    values.length = exprs.length := by
  match row with
  | .nil => rfl
  | .cons _ others =>
      rw [List.length_cons, List.length_cons, LowersRow.length_eq others]

variable {allows : Bool → Expr → Prop}

mutual

/-- Lowering keeps to what is required. -/
theorem Lowers.meets (kept : required.KeptOn context allows) {scope : List Name}
    {expr : Expr} {before after : State} {value : Term} {code : List Stmt}
    (lowers : Lowers context has scope expr before value after code)
    {tail : Bool} (admits : expr.Admits allows tail) :
    Outcome required tail value code := by
  match lowers with
  | .row isRow operands _ =>
      obtain ⟨good, meets⟩ := LowersRow.meets kept operands
        fun operand member =>
          admits.inner operand (Expr.operands_subset_inner isRow member)
      rcases Expr.ending_cases isRow with
        silent | ⟨func, args, rfl, -, -, rfl⟩
      · rw [silent, List.append_nil]
        exact ⟨meets, .inl (kept.row admits.allowed isRow silent
          operands.length_eq good)⟩
      · refine Outcome.after meets ⟨meets_restartCode good, ?_⟩
        rcases kept.restart admits.allowed with isTail | restart
        · exact .inr ⟨isTail, rfl, restartCode_ends _⟩
        · exact .inl restart
  | .letIn bound body _ =>
      have first := Lowers.meets kept bound (admits.inner _ List.mem_cons_self)
      have second := Lowers.meets kept body (admits.tails _ List.mem_cons_self)
      exact .after (first.assigned _) second
  | .caseVar decides _ =>
      exact Decides.meets kept decides (kept.case admits.allowed)
        fun alt member => admits.tails _ (List.mem_map_of_mem member)
  | .caseCompound _ scrutinee decides _ =>
      have first :=
        Lowers.meets kept scrutinee (admits.inner _ List.mem_cons_self)
      have second := Decides.meets kept decides (kept.case admits.allowed)
        fun alt member => admits.tails _ (List.mem_map_of_mem member)
      exact .after (first.assigned _) second
  | .deferred isDeferred body closes _ =>
      obtain ⟨bodyAdmits, defers⟩ := kept.deferral admits isDeferred
      exact defers.closes closes (Lowers.meets kept body bodyAdmits) tail

theorem LowersRow.meets (kept : required.KeptOn context allows)
    {scope : List Name} {exprs : List Expr} {before after : State}
    {values : List Term} {code : List Stmt}
    (row : LowersRow context has scope exprs before values after code)
    (admitted : ∀ expr ∈ exprs, expr.Admits allows false) :
    (∀ value ∈ values, required.term value) ∧
      Stmt.MeetsList required code := by
  match row with
  | .nil => exact ⟨List.forall_mem_nil _, trivial⟩
  | .cons own others =>
      obtain ⟨ownAdmits, othersAdmit⟩ := List.forall_mem_cons.mp admitted
      have first := Lowers.meets kept own ownAdmits
      have rest := LowersRow.meets kept others othersAdmit
      exact ⟨List.forall_mem_cons.mpr ⟨first.term, rest.1⟩,
        first.meets.append rest.2⟩

theorem Decides.meets (kept : required.KeptOn context allows)
    {scope : List Name} {subject : Var} {alts : List Alt}
    {before after : State} {value : Term} {code : List Stmt}
    (decides : Decides context has scope subject alts before value after code)
    (tests : ∀ alt ∈ alts, ∀ guard,
      alt.pattern.guard? context.tags = some guard → required.test guard)
    {tail : Bool}
    (admitted : ∀ alt ∈ alts, alt.body.Admits allows tail) :
    Outcome required tail value code := by
  match decides with
  | .lone body => exact Lowers.meets kept body (admitted _ List.mem_cons_self)
  | .dispatch dispatches =>
      exact ⟨Dispatches.meets kept dispatches tests admitted, .inl (kept.var _)⟩

theorem Dispatches.meets (kept : required.KeptOn context allows)
    {scope : List Name} {subject result : Var} {alts : List Alt}
    {before after : State} {code : List Stmt}
    (dispatches : Dispatches context has scope subject result alts before after
      code)
    (tests : ∀ alt ∈ alts, ∀ guard,
      alt.pattern.guard? context.tags = some guard → required.test guard)
    {tail : Bool}
    (admitted : ∀ alt ∈ alts, alt.body.Admits allows tail) :
    Stmt.MeetsList required code := by
  match dispatches with
  | .chain _ _ within arms =>
      have clauses := LowersArms.meets kept arms
        (fun alt member => tests alt (within member))
        fun alt member => admitted alt (within member)
      exact ⟨clauses.append (meets_unmatched kept.otherwise _), trivial⟩
  | .split low high =>
      exact ⟨⟨kept.tagBelow _, Dispatches.meets kept low tests admitted,
        kept.otherwise, Dispatches.meets kept high tests admitted, trivial⟩,
        trivial⟩

theorem LowersArms.meets (kept : required.KeptOn context allows)
    {scope : List Name} {subject result : Var} {alts : List Alt}
    {before after : State} {clauses : List Clause}
    (arms : LowersArms context has scope subject result alts before after
      clauses)
    (tests : ∀ alt ∈ alts, ∀ guard,
      alt.pattern.guard? context.tags = some guard → required.test guard)
    {tail : Bool}
    (admitted : ∀ alt ∈ alts, alt.body.Admits allows tail) :
    Stmt.MeetsClauses required clauses := by
  match arms with
  | .nil => trivial
  | .cons guardIs body others =>
      obtain ⟨ownAdmits, othersAdmit⟩ := List.forall_mem_cons.mp admitted
      obtain ⟨ownTest, otherTests⟩ := List.forall_mem_cons.mp tests
      have first := Lowers.meets kept body ownAdmits
      refine ⟨ownTest _ guardIs, ?_,
        LowersArms.meets kept others otherTests othersAdmit⟩
      rw [List.append_assoc]
      exact (meets_unpackCode _ _).append (first.assigned _)

end

end Meets

theorem Code.Term.Closed.kept {good : Term → Prop} (closed : Term.Closed good)
    (context : Context) : (Requirement.terms good).Kept context where
  composed := closed.toComposed
  var := closed.var
  thunk := fun _ bodyGood => closed.thunk _ bodyGood
  lambda := fun param _ _ _ bodyGood => closed.lambda param _ bodyGood
  frozen := fun _ => trivial
  test := Pattern.guard_forall closed.toComposed
  tagBelow := fun _ => trivial

/-- All terms of lowered code are good if the foreign functions it names are,
and if the value of a restart is wherever the function is restarted. -/
theorem Expr.lower_forall {context : Context} {good : Term → Prop}
    (closed : Term.Closed good) {expr : Expr}
    (restarts : ∀ func args, expr.Contains (.app func args true) →
      good .restart)
    (names : ∀ name args, expr.Contains (.foreign (.named name) args) →
      good (.verbatim name))
    {before after : Lowering.State} {value : Term} {code : List Stmt}
    (ran : expr.lower context before = .ok (value, after, code)) :
    good value ∧ Stmt.MeetsList (.terms good) code := by
  have outcome := (Expr.lowers ran).meets (closed.kept context).keptOn
    (Expr.Sound.admits restarts names false)
  exact ⟨outcome.term, outcome.meets⟩

/-- The body of the function calls the foreign function. -/
def Function.CallsForeign (function : Function) (name : Text) : Prop :=
  ∃ args, function.body.Contains (.foreign (.named name) args)

/-- The code of a function is as required; it may end in a restart. -/
theorem Function.outcome {function : Function} {tags : TagTable} {block : Block}
    {required : Requirement} (kept : required.Kept (function.context tags))
    (names : ∀ name, function.CallsForeign name →
      required.term (.verbatim name))
    (lowered : function.lower tags = .ok block) :
    Outcome required true block.value block.statements := by
  obtain ⟨after, ran⟩ := Function.lower_eq_ok lowered
  exact (Expr.lowers ran).meets kept.keptOn (Expr.Sound.admits_marked
    function.name fun name args within => names name ⟨args, within⟩)

end TailLoop
