import TailLoop.Proofs.Positions
import TailLoop.Proofs.Remarks

/-!
# Marking self calls

Marking changes flags only, and it decides about them by the place: calls of the
named function are flagged at tail positions, and nothing else is flagged
anywhere else.  It goes by the name alone.  Where a parameter, a binding or a
pattern takes the name of the function, a call of what is bound there is flagged
like a call of the function.
-/

namespace TailLoop

@[simp] theorem Alt.binders_mapBody (f : Expr → Expr) (alt : Alt) :
    (alt.mapBody f).binders = alt.binders := by
  cases alt <;> rfl

@[simp] theorem Alt.body_mapBody (f : Expr → Expr) (alt : Alt) :
    (alt.mapBody f).body = f alt.body := by
  cases alt <;> rfl

namespace Expr

variable {name : Name}

/-- Bodies of bindings and branches are marked, all other parts are unmarked. -/
@[simp] theorem children_marked (name : Name) (expr : Expr) (index : Nat) :
    (expr.marked name).children[index]? =
      (expr.children[index]?).map fun child =>
      if expr.isTailStep index then child.marked name else child.unmarked := by
  cases expr with
  | letIn binder value body =>
      rcases index with _ | _ | index <;> rfl
  | case scrutinee alts =>
      cases index with
      | zero => rfl
      | succ index =>
          rw [marked, children, children, List.getElem?_cons_succ,
            List.getElem?_cons_succ, markedAlts_eq_map, List.map_map,
            List.getElem?_map, List.getElem?_map, Option.map_map]
          congr 1
          funext alt
          exact Alt.body_mapBody _ alt
  | app func args tail =>
      rw [marked, children, children, unmarkedList_eq_map, ← List.map_cons,
        List.getElem?_map]
      rfl
  | _ =>
      exact (congrArg (·[index]?) (children_unmarked _)).trans List.getElem?_map

@[simp] theorem isTailStep_marked (name : Name) (expr : Expr) (index : Nat) :
    (expr.marked name).isTailStep index = expr.isTailStep index := by
  cases expr <;> rfl

theorem boundIn_case_map (f : Expr → Expr) (scrutinee scrutinee' : Expr)
    (alts : List Alt) (index : Nat) :
    (Expr.case scrutinee' (alts.map (Alt.mapBody f))).boundIn index =
      (Expr.case scrutinee alts).boundIn index := by
  cases index with
  | zero => rfl
  | succ index =>
      have same : Alt.binders ∘ Alt.mapBody f = Alt.binders :=
        funext (Alt.binders_mapBody f)
      rw [boundIn, boundIn, List.getElem?_map, Option.map_map, same]

@[simp] theorem boundIn_unmarked (expr : Expr) (index : Nat) :
    expr.unmarked.boundIn index = expr.boundIn index := by
  cases expr with
  | case scrutinee alts =>
      rw [unmarked, unmarkedAlts_eq_map]
      exact boundIn_case_map unmarked scrutinee _ alts index
  | _ => rfl

@[simp] theorem boundIn_marked (name : Name) (expr : Expr) (index : Nat) :
    (expr.marked name).boundIn index = expr.boundIn index := by
  cases expr with
  | case scrutinee alts =>
      rw [marked, markedAlts_eq_map]
      exact boundIn_case_map (marked name) scrutinee _ alts index
  | _ => rfl

@[simp] theorem partAt?_unmarked (expr : Expr) (path : List Nat) :
    expr.unmarked.partAt? path = (expr.partAt? path).map unmarked := by
  induction path generalizing expr with
  | nil => rfl
  | cons index path ih =>
      rw [partAt?, partAt?, children_unmarked, List.getElem?_map]
      cases expr.children[index]? with
      | none => rfl
      | some child => exact ih child

/-- Along the spine the parts of a marked expression are marked, elsewhere
unmarked. -/
@[simp] theorem partAt?_marked (name : Name) (expr : Expr) (path : List Nat) :
    (expr.marked name).partAt? path = (expr.partAt? path).map fun part =>
      if expr.isSpine path then part.marked name else part.unmarked := by
  induction path generalizing expr with
  | nil => rfl
  | cons index path ih =>
      rw [partAt?, partAt?, children_marked, isSpine]
      cases expr.children[index]? with
      | none => rfl
      | some child =>
          simp only [Option.map_some, Option.bind_some, Option.any_some]
          cases expr.isTailStep index with
          | true => exact ih child
          | false => exact partAt?_unmarked child path

@[simp] theorem isSpine_marked (name : Name) (expr : Expr) (path : List Nat) :
    (expr.marked name).isSpine path = expr.isSpine path := by
  induction path generalizing expr with
  | nil => rfl
  | cons index path ih =>
      rw [isSpine, isSpine, isTailStep_marked, children_marked]
      cases expr.children[index]? with
      | none => rfl
      | some child =>
          simp only [Option.map_some, Option.any_some]
          cases expr.isTailStep index with
          | true => exact ih child
          | false => rfl

@[simp] theorem scopeAt_unmarked (expr : Expr) (path : List Nat) :
    expr.unmarked.scopeAt path = expr.scopeAt path := by
  induction path generalizing expr with
  | nil => rfl
  | cons index path ih =>
      rw [scopeAt, scopeAt, boundIn_unmarked, children_unmarked,
        List.getElem?_map]
      cases expr.children[index]? with
      | none => rfl
      | some child => exact congrArg _ (ih child)

/-- Marking binds nothing and keeps all binders. -/
@[simp] theorem scopeAt_marked (name : Name) (expr : Expr) (path : List Nat) :
    (expr.marked name).scopeAt path = expr.scopeAt path := by
  induction path generalizing expr with
  | nil => rfl
  | cons index path ih =>
      rw [scopeAt, scopeAt, boundIn_marked, children_marked]
      cases expr.children[index]? with
      | none => rfl
      | some child =>
          refine congrArg (expr.boundIn index ++ ·) ?_
          simp only [Option.map_some, Option.getD_some]
          cases expr.isTailStep index with
          | true => exact ih child
          | false => exact scopeAt_unmarked child path

/-- An application is flagged along the spine only, and there if it calls the
named function or was flagged before. -/
theorem app_at_marked {expr func : Expr} {args : List Expr} {tail : Bool}
    {path : List Nat}
    (found : (expr.marked name).partAt? path = some (.app func args tail)) :
    ∃ func' args' tail', expr.partAt? path = some (.app func' args' tail') ∧
      func = func'.unmarked ∧
      tail =
        (expr.isSpine path &&
          (isSelfCall name (.app func args tail) || tail')) := by
  rw [partAt?_marked, Option.map_eq_some_iff] at found
  obtain ⟨part, source, same⟩ := found
  cases spine : expr.isSpine path with
  | true =>
      rw [spine, if_pos rfl] at same
      cases part with
      | app func' args' tail' =>
          rw [marked] at same
          injection same with sameFunc sameArgs sameTail
          refine ⟨func', args', tail', source, sameFunc.symm, ?_⟩
          rw [Bool.true_and, ← sameTail, ← sameFunc, unmarked_eq_relabeled,
            isSelfCall_app _ _ name func' args args' _ tail']
      | _ => cases same
  | false =>
      rw [spine, if_neg Bool.false_ne_true] at same
      cases part with
      | app func' args' tail' =>
          rw [unmarked] at same
          injection same with sameFunc sameArgs sameTail
          exact ⟨func', args', tail', source, sameFunc.symm, sameTail.symm⟩
      | _ => cases same

/-- A call of the named function is flagged exactly along the spine. -/
theorem selfCall_at_marked {expr : Expr} {args : List Expr} {tail : Bool}
    {path : List Nat}
    (found : (expr.marked name).partAt? path =
      some (.app (.var (.named name)) args tail)) :
    tail = expr.isSpine path := by
  obtain ⟨func', args', tail', -, -, flag⟩ := app_at_marked found
  rw [flag, isSelfCall, BEq.rfl, Bool.true_or, Bool.and_true]

@[simp] theorem marked_marked (name : Name) (expr : Expr) :
    (expr.marked name).marked name = expr.marked name := by
  induction expr using inductionOnParts with
  | step expr ih =>
      cases expr with
      | letIn binder value body =>
          simp [ih body (by simp [children])]
      | case scrutinee alts =>
          rw [marked, marked, unmarked_unmarked, markedAlts_eq_map,
            markedAlts_eq_map, List.map_map]
          congr 1
          refine List.map_congr_left fun alt member => ?_
          have inBranch :=
            ih alt.body (List.mem_cons_of_mem _ (List.mem_map_of_mem member))
          cases alt with
          | con ctor args body => exact congrArg (Alt.con ctor args) inBranch
          | const value body => exact congrArg (Alt.const value) inBranch
          | default body => exact congrArg Alt.default inBranch
      | app func args tail =>
          have sameCallee (flag : Bool) :
              isSelfCall name (.app func.unmarked (unmarkedList args)
              flag) = isSelfCall name (.app func args tail) := by
            rw [unmarked_eq_relabeled]
            exact isSelfCall_app _ _ name func _ _ _ _
          rw [marked, marked, unmarked_unmarked, unmarkedList_unmarked,
            sameCallee, ← Bool.or_assoc, Bool.or_self]
      | _ => exact unmarked_unmarked _

/-- Marking for a function changes nothing but flags, and a second time nothing
at all.  In the result a call of the function is flagged exactly if it is at a
tail path, and no other application is flagged elsewhere.  The result restarts
the function exactly if the expression calls it in tail position. -/
theorem marking_exact (name : Name) (expr : Expr) :
    let result := expr.marked name
    result.relabeled (fun _ => false) id = expr.relabeled (fun _ => false) id ∧
      result.marked name = result ∧
      result.tailPaths.map result.partAt? = result.tailPositions.map some ∧
      (∀ path args tail, result.partAt? path =
        some (.app (.var (.named name)) args tail) →
        (tail = true ↔ path ∈ result.tailPaths)) ∧
      (∀ path func args tail, result.partAt? path = some (.app func args tail) →
        path ∉ result.tailPaths → tail = false) ∧
      (result.hasSelfTailCall name = true ↔
        ∃ leaf ∈ expr.tailPositions, leaf.isSelfCall name = true) := by
  intro result
  refine ⟨?_, marked_marked name expr, map_partAt?_tailPaths result, ?_, ?_, ?_⟩
  · rw [← unmarked_eq_relabeled, ← unmarked_eq_relabeled]
    exact unmarked_marked name expr
  · intro path args tail found
    rw [mem_tailPaths_iff_of_app found, isSpine_marked,
      selfCall_at_marked found]
  · intro path func args tail found elsewhere
    rw [mem_tailPaths_iff_of_app found, isSpine_marked, Bool.not_eq_true]
      at elsewhere
    obtain ⟨func', args', tail', -, -, flag⟩ := app_at_marked found
    rw [flag, elsewhere, Bool.false_and]
  · rw [hasSelfTailCall_marked, List.any_eq_true]

end Expr

/-- All calls that restart a function call the function itself exactly if,
wherever its body applies its name in tail position, the name is free in the
function.  The free variables are those that are free somewhere. -/
theorem restarts_genuine_iff_unshadowed (function : Function) :
    let whole := Expr.lam function.params function.body
    ((∀ path args,
        function.markedBody.partAt? path =
          some (.app (.var (.named function.name)) args true) → function.name ∉
            function.params ∧ function.name ∉
              function.markedBody.scopeAt path) ↔
      ∀ path args tail, path ∈ function.body.tailPaths →
        function.body.partAt? path =
          some (.app (.var (.named function.name)) args tail) →
          whole.FreeAt (0 :: (path ++ [0])) (.named function.name)) ∧
      ∀ v, v ∈ whole.freeVars ↔ ∃ path, whole.FreeAt path v := by
  intro whole
  refine ⟨?_, fun v => Expr.mem_freeVars_iff⟩
  rw [Function.markedBody]
  constructor
  · intro genuine path args tail inTail found
    rw [Expr.mem_tailPaths_iff_of_app found] at inTail
    have restart : (function.body.marked function.name).partAt? path =
        some
          (.app (.var (.named function.name)) (Expr.unmarkedList args)
            true) := by
      simp [found, inTail, Expr.isSelfCall, BEq.rfl]
    have unbound := genuine path _ restart
    rw [Expr.scopeAt_marked] at unbound
    exact (Expr.freeAt_callee_iff found).mpr unbound
  · intro free path args restart
    have spine : true = function.body.isSpine path :=
      Expr.selfCall_at_marked restart
    obtain ⟨func, args', tail, found, callee, -⟩ := Expr.app_at_marked restart
    cases func with
    | var v =>
        cases callee
        have inTail := (Expr.mem_tailPaths_iff_of_app found).mpr spine.symm
        rw [Expr.scopeAt_marked]
        exact (Expr.freeAt_callee_iff found).mp
          (free path args' tail inTail found)
    | _ => cases callee

/-- A function that applies the identity under its own name. -/
def shadowed : Function :=
  ⟨.user "f", [.user "x"],
    .letIn (.user "f") (.lam [.user "y"] (.var (.named (.user "y"))))
      (.app (.var (.named (.user "f"))) [.var (.named (.user "x"))] false)⟩

def shadowedProgram : Program :=
  ⟨[.function shadowed], .user "f"⟩

/-- The program is accepted, and the call of the identity restarts the
function. -/
theorem shadowed_call_restarts :
    (Contract.Checker.initial.check shadowedProgram).hasErrors = false ∧
      shadowed ∈ shadowedProgram.functions ∧
      shadowed.markedBody.partAt? [1] =
        some
          (.app (.var (.named shadowed.name)) [.var (.named (.user "x"))]
            true) ∧
      shadowed.name ∈ shadowed.markedBody.scopeAt [1] ∧
      shadowed.lower .empty = .ok
        ⟨[.assign (.named (.user "f"))
          (.lambda (.user "y") [] (.var (.named (.user "y")))),
          .rebind [.user "x"] [.var (.named (.user "x"))], .continue],
          .restart⟩ :=
  ⟨by decide +kernel, List.mem_singleton.mpr rfl, rfl,
        List.mem_singleton.mpr rfl, rfl⟩

end TailLoop
