import Mathlib.Data.List.Nodup
import TailLoop.Code.Print
import TailLoop.Proofs.CodeTerms
import TailLoop.Proofs.IdentifierUniqueness
import TailLoop.Proofs.Positions

/-!
# Frozen captures

A restart assigns the parameters of its function anew, and code that runs again
assigns the names it binds anew.  A deferred value is evaluated after that, so
it freezes what it has free and the function may assign: its closure has a
default for each such variable, and a hoisted function that is wrapped is frozen
itself.  A function without restarts assigns every variable once, and nothing is
frozen in it.
-/

namespace TailLoop

open Code (Term Stmt Clause Guard Requirement frozenText)
open Lowering

namespace Code

mutual

/-- The variables that the functions in a term freeze, in the order of their
defaults. -/
@[simp] def Term.defaults : Term → List Var
  | .paren body => body.defaults
  | .call callee args => callee.defaults ++ Term.defaultsList args
  | .tuple items => Term.defaultsList items
  | .item body _ => body.defaults
  | .binary _ left right => left.defaults ++ right.defaults
  | .compare _ left right => left.defaults ++ right.defaults
  | .unary _ arg => arg.defaults
  | .write arg => arg.defaults
  | .unsupported _ args => Term.defaultsList args
  | .thunk frozen body => frozen ++ body.defaults
  | .lambda _ frozen body => frozen ++ body.defaults
  | _ => []

@[simp] def Term.defaultsList : List Term → List Var
  | [] => []
  | term :: terms => term.defaults ++ Term.defaultsList terms

end

@[simp] def Guard.defaults : Guard → List Var
  | .equals value => value.defaults
  | _ => []

mutual

@[simp] def Stmt.defaults : Stmt → List Var
  | .assign _ value => value.defaults
  | .rebind _ values => Term.defaultsList values
  | .branch _ clauses => Stmt.defaultsClauses clauses
  | .define _ _ frozen body result =>
      frozen ++ Stmt.defaultsList body ++ result.defaults
  | _ => []

@[simp] def Stmt.defaultsList : List Stmt → List Var
  | [] => []
  | stmt :: stmts => stmt.defaults ++ Stmt.defaultsList stmts

@[simp] def Stmt.defaultsClauses : List Clause → List Var
  | [] => []
  | .mk guard body :: clauses =>
      guard.defaults ++ Stmt.defaultsList body ++ Stmt.defaultsClauses clauses

end

/-- No function in the term has a default. -/
def Term.FreezesNothing (term : Term) : Prop :=
  term.defaults = []

@[simp] theorem Term.defaultsList_eq_nil_iff {terms : List Term} :
    Term.defaultsList terms = [] ↔ ∀ term ∈ terms, term.FreezesNothing := by
  induction terms with
  | nil => simp [Term.defaultsList]
  | cons term terms ih => simp [Term.defaultsList, Term.FreezesNothing, ih]

theorem Term.composed_freezesNothing : Term.Composed Term.FreezesNothing where
  int _ := rfl
  float _ := rfl
  str _ := rfl
  none := rfl
  raise _ := rfl
  paren body := body
  call callee args := by
    rw [FreezesNothing, defaults, callee, defaultsList_eq_nil_iff.mpr args,
      List.append_nil]
  tuple items := defaultsList_eq_nil_iff.mpr items
  item _ body := body
  binary _ _ _ left right := by rw [FreezesNothing, defaults, left, right,
      List.append_nil]
  compare _ _ _ left right := by rw [FreezesNothing, defaults, left, right,
      List.append_nil]
  unary _ _ arg := arg
  readLine := rfl
  write arg := arg
  unsupported _ _ args := defaultsList_eq_nil_iff.mpr args

/-- Nothing is frozen anywhere. -/
def Requirement.unfrozen : Requirement :=
  ⟨Term.FreezesNothing, fun guard => guard.defaults = [], fun vars => vars = []⟩

mutual

theorem Stmt.defaults_of_meets {stmt : Stmt} (meets : stmt.Meets .unfrozen) :
    stmt.defaults = [] := by
  cases stmt with
  | assign target value => exact meets
  | rebind targets values => exact Term.defaultsList_eq_nil_iff.mpr meets
  | branch subject clauses => exact Stmt.defaultsClauses_of_meets meets
  | define target params frozen body result =>
      obtain ⟨bodyMeets, resultFree, noneFrozen⟩ := meets
      have resultDefaults : result.defaults = [] := resultFree
      have frozenIs : frozen = [] := noneFrozen
      rw [Stmt.defaults, Stmt.defaultsList_of_meets bodyMeets, resultDefaults,
        frozenIs]
      rfl
  | _ => rfl

theorem Stmt.defaultsList_of_meets {stmts : List Stmt}
    (meets : Stmt.MeetsList .unfrozen stmts) :
    Stmt.defaultsList stmts = [] := by
  cases stmts with
  | nil => rfl
  | cons stmt stmts =>
      rw [Stmt.defaultsList, Stmt.defaults_of_meets meets.1,
        Stmt.defaultsList_of_meets meets.2]
      rfl

theorem Stmt.defaultsClauses_of_meets {clauses : List Clause}
    (meets : Stmt.MeetsClauses .unfrozen clauses) :
    Stmt.defaultsClauses clauses = [] := by
  cases clauses with
  | nil => rfl
  | cons clause clauses =>
      obtain ⟨guard, body⟩ := clause
      obtain ⟨guardMeets, bodyMeets, laterMeets⟩ := meets
      have guardDefaults : guard.defaults = [] := guardMeets
      rw [Stmt.defaultsClauses, guardDefaults,
        Stmt.defaultsList_of_meets bodyMeets,
        Stmt.defaultsClauses_of_meets laterMeets]
      rfl

end

end Code

open Code in
/-- A function without restarts has nothing to freeze. -/
theorem Code.Requirement.kept_unfrozen {context : Context}
    (noFreeze : context.freeze = false) :
    Requirement.unfrozen.Kept context where
  composed := Term.composed_freezesNothing
  var _ := rfl
  thunk noneFrozen bodyFree :=
    List.append_eq_nil_iff.mpr ⟨noneFrozen, bodyFree⟩
  lambda _ _ _ noneFrozen bodyFree :=
    List.append_eq_nil_iff.mpr ⟨noneFrozen, bodyFree⟩
  frozen nothing := nothing noFreeze
  test made := by
    have free := Pattern.guard_forall Term.composed_freezesNothing made
    rename_i guard
    cases guard with
    | equals value => exact free
    | _ => rfl
  tagBelow _ := rfl

namespace Code

theorem frozenText_injective : Function.Injective frozenText := by
  intro left right same
  have lengths : left.identifier.length = right.identifier.length := by
    have whole := congrArg List.length same
    simp only [frozenText, List.length_append] at whole
    omega
  rw [frozenText, frozenText, List.append_assoc, List.append_assoc] at same
  exact Var.identifier_injective (List.append_inj same lengths).1

end Code

private theorem nodup_eraseDups {α : Type} [BEq α] [LawfulBEq α]
    (items : List α) :
    items.eraseDups.Nodup := by
  match items with
  | [] => exact List.nodup_nil
  | item :: items =>
      rw [List.eraseDups_cons]
      refine List.nodup_cons.mpr ⟨?_,
        nodup_eraseDups (items.filter fun other => !other == item)⟩
      rw [List.mem_eraseDups, List.mem_filter]
      simp
termination_by items.length
decreasing_by exact Nat.lt_succ_of_le (List.length_filter_le _ _)

namespace Expr

theorem not_mem_freeVars_lam {params : List Name} {body : Expr} {param : Name}
    (member : param ∈ params) : .named param ∉ (lam params body).freeVars := by
  rw [freeVars, List.mem_eraseDups, occurrences, mem_occurrences_iff]
  intro free
  exact free.2 param (List.mem_append_left _ member) rfl

end Expr

/-- The function may assign the variable anew while an expression below the
binders is evaluated: the variable is a slot, or one of the binders. -/
def Var.Rebound (scope : List Name) : Var → Prop
  | .slot _ => True
  | .named name => name ∈ scope

theorem Lowering.mem_captured {context : Context} {bound scope : List Name}
    {source : Expr} {v : Var} (freezes : context.freeze = true)
    (known : scope ⊆ bound) (free : v ∈ source.freeVars)
    (rebound : v.Rebound scope) :
    v ∈ captured context bound source := by
  rw [captured, if_pos freezes, List.mem_filter]
  refine ⟨free, ?_⟩
  cases v with
  | slot => rfl
  | named name => exact decide_eq_true (known rebound)

/-- Functions that take the parameters one by one, without a default. -/
def Code.Term.taking (body : Term) : List Name → Term
  | [] => body
  | param :: params => .lambda param [] (body.taking params)

/-- A closure of the parameters with a default for each of the variables, on its
outermost function or on the function that is defined before it.  A function
that is defined before it and has several parameters is a default of its own
where it is called, below the parameters one by one. -/
inductive FrozenClosure (frozen : List Var) :
    List Name → Term → List Stmt → Prop where
  | thunk {body : Term} : FrozenClosure frozen [] (.thunk frozen body) []
  | lambda {param : Name} {params : List Name} {body : Term} :
      FrozenClosure frozen (param :: params)
        (.lambda param frozen (body.taking params)) []
  | defined {params : List Name} {function : Var} {block : List Stmt}
      {result : Term} :
      params.length ≤ 1 →
      FrozenClosure frozen params (.var function)
        [.define function params frozen block result]
  | wrapped {first second : Name} {params : List Name} {function : Var}
      {block : List Stmt} {result : Term} :
      FrozenClosure frozen (first :: second :: params)
        (.lambda first [function]
          (Term.taking
            (.call (.var function) ((first :: second :: params).map fun param =>
              .var (.named param)))
            (second :: params)))
        [.define function (first :: second :: params) frozen block result]

@[simp] theorem Lowering.curried_cons (frozen : List Var) (body : Term)
    (param : Name) (params : List Name) :
    curried frozen body (param :: params) =
      .lambda param frozen (body.taking params) := by
  have nested :
      params.foldr (fun param body => Term.lambda param [] body) body =
      body.taking params := by
    induction params with
    | nil => rfl
    | cons param params ih => rw [List.foldr_cons, ih, Code.Term.taking]
  rw [curried, nested]

theorem Lowering.Closes.frozenClosure {context : Context}
    {params bound : List Name} {frozen : List Var} {bodyValue value : Term}
    {inner after : State} {block code : List Stmt}
    (freezes : context.freeze = true)
    (closes : Closes context params frozen bound bodyValue inner block value
      after code) :
    FrozenClosure frozen params value code := by
  cases closes with
  | inline =>
      cases params with
      | nil => exact .thunk
      | cons param params =>
          rw [curried_cons]
          exact .lambda
  | hoist needed =>
      rw [hoisted, if_pos freezes]
      split
      · rename_i few
        exact .defined few
      · rename_i many
        rcases params with _ | ⟨first, _ | ⟨second, params⟩⟩
        · exact absurd (Nat.zero_le 1) many
        · exact absurd (Nat.le_refl 1) many
        · rw [curried_cons]
          exact .wrapped

/-- A deferred value has one default for each variable that is free in it and
may be assigned anew, and none for a parameter of its own. -/
def FreezesCaptures : LoweringProperty := fun scope expr _ value _ code =>
  ∀ params body, expr.deferral? = some (params, body) →
    ∃ frozen, FrozenClosure frozen params value code ∧
      (∀ v, (∃ path, expr.FreeAt path v) → v.Rebound scope →
        (frozen.map frozenText).count (frozenText v) = 1) ∧
      ∀ param ∈ params, frozenText (.named param) ∉ frozen.map frozenText

theorem throughout_freezesCaptures {context : Context}
    (freezes : context.freeze = true) :
    Throughout context FreezesCaptures := by
  intro scope expr before value after code known ran params body isDeferred
  obtain ⟨bodyValue, inner, block, -, closes⟩ :=
    Expr.lower_eq_ok_of_deferral? isDeferred ran
  refine ⟨_, closes.frozenClosure freezes, ?_, ?_⟩
  · intro v free rebound
    rw [← Expr.mem_freeVars_iff, ← Expr.freeVars_deferral? isDeferred] at free
    have distinct : (captured context before.bound (.lam params body)).Nodup :=
      (nodup_eraseDups _).sublist (captured_sublist context before.bound _)
    apply List.count_eq_one_of_mem
    · exact distinct.map Code.frozenText_injective
    · exact List.mem_map_of_mem (mem_captured freezes known free rebound)
  · intro param member default
    obtain ⟨v, isCaptured, same⟩ := List.mem_map.mp default
    cases Code.frozenText_injective same
    exact Expr.not_mem_freeVars_lam member
      ((captured_sublist ..).subset isCaptured)

/-- In a function with restarts every deferred value, at any depth, freezes what
the function may assign anew; in one without restarts nothing is frozen. -/
theorem closures_freeze_captures {function : Function} {tags : TagTable}
    {block : Code.Block} (lowered : function.lower tags = .ok block) :
    (function.markedBody.hasSelfTailCall function.name = true →
      ∃ after, Lowers (function.context tags) FreezesCaptures function.params
        function.markedBody (State.initial function.params) block.value after
        block.statements) ∧
    (function.markedBody.hasSelfTailCall function.name = false →
      Stmt.defaultsList block.statements = [] ∧ block.value.defaults = []) := by
  constructor
  · intro restarts
    exact Function.lowers_of_throughout (throughout_freezesCaptures restarts)
      lowered
  · intro returns
    have outcome := Function.outcome (Requirement.kept_unfrozen returns)
      (fun _ _ => rfl) lowered
    refine ⟨Stmt.defaultsList_of_meets outcome.meets, ?_⟩
    rcases outcome.good with free | ⟨-, restarts, -⟩
    · exact free
    · rw [restarts]
      rfl

/-- It restarts with a function of two parameters that defers a value in
turn. -/
def nestingFunction : Function :=
  ⟨.user "nest", [.user "base"],
    .app (.var (.named (.user "nest")))
      [.lam [.user "left", .user "right"]
        (.letIn (.user "later") (.lazy (.var (.named (.user "base"))))
          (.app (.var (.named (.user "left"))) [.var (.named (.user "later"))]
            false))] false⟩

/-- The function of two parameters is defined with the default of its variable,
and it is a default itself where it is called. -/
def nestingBlock : Code.Block where
  statements :=
    [.define (.slot (-1)) [.user "left", .user "right"] [.named (.user "base")]
      [.assign (.named (.user "later"))
        (.thunk [.named (.user "base")] (.var (.named (.user "base"))))]
      (.call (.var (.named (.user "left"))) [.var (.named (.user "later"))]),
    .rebind [.user "base"]
      [.lambda (.user "left") [.slot (-1)] (.lambda (.user "right") []
        (.call (.var (.slot (-1)))
          [.var (.named (.user "left")), .var (.named (.user "right"))]))],
    .continue]
  value := .restart

theorem closures_freeze_captures_nesting :
    nestingFunction.markedBody.hasSelfTailCall nestingFunction.name = true ∧
      nestingFunction.lower ⟨[]⟩ = .ok nestingBlock ∧
      ∃ after, Lowers (nestingFunction.context ⟨[]⟩) FreezesCaptures
        nestingFunction.params nestingFunction.markedBody
        (State.initial nestingFunction.params) nestingBlock.value after
        nestingBlock.statements := by
  have restarts :
      nestingFunction.markedBody.hasSelfTailCall nestingFunction.name =
        true := by
    decide
  have lowered : nestingFunction.lower ⟨[]⟩ = .ok nestingBlock := rfl
  exact ⟨restarts, lowered, (closures_freeze_captures lowered).1 restarts⟩

end TailLoop
