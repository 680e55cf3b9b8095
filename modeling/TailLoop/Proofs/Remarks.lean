import TailLoop.Compile
import TailLoop.Proofs.LoweringSteps
import TailLoop.Proofs.Subexpressions

/-!
# Remarks of the writer

The flag of an application and the tag of a constructed value are remarks of
whoever wrote the program.  The pass that marks tail calls and the tag table
decide instead, so programs that differ in their remarks only are checked and
written out alike.
-/

namespace TailLoop

namespace Expr

/-- The expression without flags and without tags. -/
def bare (expr : Expr) : Expr :=
  expr.relabeled (fun _ => false) fun _ => none

end Expr

/-- The function without flags and without tags in its body. -/
def Function.bare (function : Function) : Function :=
  { function with body := function.body.bare }

@[simp] def Declaration.bare : Declaration → Declaration
  | .function f => .function f.bare
  | .constructor c => .constructor c

/-- The program without flags and without tags in its bodies.  The tags of
constructor declarations stay. -/
def Program.bare (program : Program) : Program :=
  { program with declarations := program.declarations.map Declaration.bare }

namespace Expr

variable (flag : Bool → Bool) (remark : Option Int → Option Int)

@[simp] theorem unmarked_bare (expr : Expr) :
    expr.bare.unmarked = expr.bare := by
  rw [unmarked_eq_relabeled, bare, relabeled_relabeled]
  rfl

mutual

@[simp] theorem occurrences_relabeled (bound : List Name) (expr : Expr) :
    occurrences bound (expr.relabeled flag remark) =
      occurrences bound expr := by
  cases expr with
  | app func args tail =>
      simp [occurrences_relabeled _ func, occurrencesList_relabeled _ args]
  | lazyApp name args =>
      simp [occurrencesList_relabeled _ args]
  | lazy body =>
      simp [occurrences_relabeled _ body]
  | force body =>
      simp [occurrences_relabeled _ body]
  | lam params body =>
      simp [occurrences_relabeled _ body]
  | letIn name value body =>
      simp [occurrences_relabeled _ value, occurrences_relabeled _ body]
  | con name args tag =>
      simp [occurrencesList_relabeled _ args]
  | case scrutinee alts =>
      simp [occurrences_relabeled _ scrutinee, occurrencesAlts_relabeled _ alts]
  | proj body index =>
      simp [occurrences_relabeled _ body]
  | foreign target args =>
      simp [occurrencesList_relabeled _ args]
  | op prim args =>
      simp [occurrencesList_relabeled _ args]
  | _ => rw [relabeled]

@[simp] theorem occurrencesList_relabeled (bound : List Name)
    (exprs : List Expr) :
    occurrencesList bound (relabeledList flag remark exprs) =
      occurrencesList bound exprs := by
  cases exprs with
  | nil => rfl
  | cons expr exprs =>
      simp [occurrences_relabeled _ expr, occurrencesList_relabeled _ exprs]

@[simp] theorem occurrencesAlts_relabeled (bound : List Name)
    (alts : List Alt) :
    occurrencesAlts bound (relabeledAlts flag remark alts) =
      occurrencesAlts bound alts := by
  cases alts with
  | nil => rfl
  | cons alt alts =>
      cases alt <;>
        simp [occurrences_relabeled _ _, occurrencesAlts_relabeled _ alts]

end

@[simp] theorem freeVars_relabeled (expr : Expr) :
    (expr.relabeled flag remark).freeVars = expr.freeVars := by
  rw [freeVars, freeVars, occurrences_relabeled]

open Lowering

/-- A deferred value depends on its source through the free variables. -/
theorem defer_congr {context : Context} {params : List Name}
    {source source' : Expr} (body : Lowering Code.Term)
    (same : source.freeVars = source'.freeVars) :
    defer context params source body = defer context params source' body := by
  simp only [defer, captured, same]

mutual

/-- Without flags the tags of constructed values do not matter. -/
theorem lower_unflagged (context : Context)
    (remark remark' : Option Int → Option Int) (expr : Expr) :
    (expr.relabeled (fun _ => false) remark).lower context =
      (expr.relabeled (fun _ => false) remark').lower context := by
  cases expr with
  | app func args tail =>
      simp only [relabeled, lower, Bool.false_and, Bool.false_eq_true, if_false,
        lower_unflagged context remark remark' func,
        lowerList_unflagged context remark remark' args, callee,
        isVar_relabeled]
  | lazyApp name args =>
      have same (remark : Option Int → Option Int) :
          (app (.var (.named name)) (relabeledList (fun _ => false) remark args)
            false).freeVars =
            (app (.var (.named name)) args false).freeVars := by
        rw [← freeVars_relabeled (fun _ => false) remark
          (app (.var (.named name)) args false), relabeled, relabeled]
      simp only [relabeled, lower,
        lowerList_unflagged context remark remark' args]
      exact defer_congr _ ((same remark).trans (same remark').symm)
  | lazy body =>
      simp only [relabeled, lower, lower_unflagged context remark remark' body]
      apply defer_congr
      simp
  | force body =>
      simp [lower, lower_unflagged context remark remark' body, callee]
  | lam params body =>
      have same (remark : Option Int → Option Int) :
          (lam params (relabeled (fun _ => false) remark body)).freeVars =
            (lam params body).freeVars := by
        rw [← freeVars_relabeled (fun _ => false) remark (lam params body),
          relabeled]
      simp only [relabeled, lower, lower_unflagged context remark remark' body]
      exact defer_congr _ ((same remark).trans (same remark').symm)
  | letIn name value body =>
      simp [lower, lower_unflagged context remark remark' value,
        lower_unflagged context remark remark' body]
  | con name args tag =>
      simp [lower, lowerList_unflagged context remark remark' args]
  | case scrutinee alts =>
      have branches := lowerAlts_unflagged context remark remark' alts
      cases compound : scrutinee.isVar with
      | true =>
          cases scrutinee with
          | var subject => simp only [relabeled, lower, branches]
          | _ => cases compound
      | false =>
          rw [relabeled, relabeled,
            lower_case_compound (by rw [isVar_relabeled]; exact compound),
            lower_case_compound (by rw [isVar_relabeled]; exact compound),
            branches, lower_unflagged context remark remark' scrutinee]
  | proj body index =>
      simp [lower, lower_unflagged context remark remark' body]
  | foreign target args =>
      cases target with
      | named function =>
          simp [lower, lowerList_unflagged context remark remark' args]
      | _ => simp [lower]
  | op prim args =>
      simp [lower, lowerList_unflagged context remark remark' args]
  | _ => simp

theorem lowerList_unflagged (context : Context)
    (remark remark' : Option Int → Option Int) (exprs : List Expr) :
    lowerList context (relabeledList (fun _ => false) remark exprs) =
      lowerList context (relabeledList (fun _ => false) remark' exprs) := by
  cases exprs with
  | nil => rfl
  | cons expr exprs =>
      simp [lowerList, lower_unflagged context remark remark' expr,
        lowerList_unflagged context remark remark' exprs]

theorem lowerAlts_unflagged (context : Context)
    (remark remark' : Option Int → Option Int) (alts : List Alt) :
    lowerAlts context (relabeledAlts (fun _ => false) remark alts) =
      lowerAlts context (relabeledAlts (fun _ => false) remark' alts) := by
  cases alts with
  | nil => rfl
  | cons alt alts =>
      cases alt <;>
        simp only [relabeledAlts, lowerAlts,
          lower_unflagged context remark remark' _,
          lowerAlts_unflagged context remark remark' alts]

end

theorem lower_unmarked (context : Context) (expr : Expr) :
    expr.unmarked.lower context = expr.bare.lower context := by
  rw [unmarked_eq_relabeled]
  exact lower_unflagged context _ _ expr

theorem lowerList_unmarked (context : Context) (exprs : List Expr) :
    lowerList context (unmarkedList exprs) =
      lowerList context (relabeledList (fun _ => false) (fun _ => none)
        exprs) := by
  rw [unmarkedList_eq_relabeled]
  exact lowerList_unflagged context _ _ exprs

/-- Only the function of an application says whom it calls. -/
theorem calleeName?_app (func : Expr) (args args' : List Expr)
    (tail tail' : Bool) :
    calleeName? (.app (func.relabeled flag remark) args tail) =
      calleeName? (.app func args' tail') := by
  cases func with
  | var v =>
      rw [relabeled]
      cases v <;> rfl
  | _ => simp [calleeName?]

@[simp] theorem calleeName?_relabeled (expr : Expr) :
    (expr.relabeled flag remark).calleeName? = expr.calleeName? := by
  cases expr with
  | app func args tail =>
      rw [relabeled]
      exact calleeName?_app _ _ func _ _ _ _
  | _ => simp [calleeName?]

theorem isSelfCall_eq_calleeName? (name : Name) (expr : Expr) :
    expr.isSelfCall name = (expr.calleeName? == some name) := by
  unfold isSelfCall calleeName?
  split <;> rfl

theorem isSelfCall_app (name : Name) (func : Expr) (args args' : List Expr)
    (tail tail' : Bool) :
    isSelfCall name (.app (func.relabeled flag remark) args tail) =
      isSelfCall name (.app func args' tail') := by
  rw [isSelfCall_eq_calleeName?, isSelfCall_eq_calleeName?, calleeName?_app]

mutual

/-- Only the flags that marking sets matter, and it sets the same ones. -/
theorem lower_marked (context : Context) (expr : Expr) :
    (expr.marked context.function).lower context =
      (expr.bare.marked context.function).lower context := by
  cases expr with
  | letIn name value body =>
      rw [bare, relabeled, marked, marked, lower, lower, ← bare, ← bare,
        unmarked_bare, lower_unmarked, lower_marked context body]
  | case scrutinee alts =>
      have branches := lowerAlts_marked context alts
      rw [bare, relabeled, marked, marked, ← bare, unmarked_bare]
      cases compound : scrutinee.isVar with
      | true =>
          cases scrutinee with
          | var subject =>
              simp only [bare, relabeled, unmarked, lower, branches]
          | _ => cases compound
      | false =>
          have compound' : scrutinee.unmarked.isVar = false := by
            rw [unmarked_eq_relabeled, isVar_relabeled, compound]
          rw [lower_case_compound compound', branches,
            lower_unmarked context scrutinee,
            lower_case_compound (by rw [bare, isVar_relabeled, compound])]
  | app func args tail =>
      have sameArgs :
          unmarkedList (relabeledList (fun _ => false) (fun _ => none) args) =
          relabeledList (fun _ => false) (fun _ => none) args := by
        rw [unmarkedList_eq_relabeled, relabeledList_relabeled]
        rfl
      have sameLength :
          (relabeledList (fun _ => false) (fun _ => none) args).length =
          args.length := by
        rw [relabeledList_eq_map, List.length_map]
      have sameIsVar : func.unmarked.isVar = func.bare.isVar := by
        rw [unmarked_eq_relabeled, bare, isVar_relabeled, isVar_relabeled]
      have selfUnmarked (flag : Bool) : isSelfCall context.function
          (.app func.unmarked (unmarkedList args) flag) =
            isSelfCall context.function (.app func args tail) := by
        rw [unmarked_eq_relabeled]
        exact isSelfCall_app _ _ _ func _ _ _ _
      have selfBare (flag : Bool) : isSelfCall context.function
          (.app func.bare (relabeledList (fun _ => false) (fun _ => none) args)
            flag) =
            isSelfCall context.function (.app func args tail) :=
        isSelfCall_app _ _ _ func _ _ _ _
      rw [bare, relabeled, marked, marked, ← bare, unmarked_bare, sameArgs,
        lower, lower, selfUnmarked, selfBare, selfBare, length_unmarkedList,
        sameLength, lowerList_unmarked context args,
        lower_unmarked context func]
      cases isSelfCall context.function (.app func args tail) with
      | true => simp only [Bool.true_or, Bool.and_self, if_true]
      | false =>
          simp only [Bool.and_false, Bool.false_eq_true, if_false, callee,
            sameIsVar]
  | _ =>
      refine (lower_unmarked context _).trans ?_
      exact congrArg (lower context) (unmarked_bare _).symm

theorem lowerAlts_marked (context : Context) (alts : List Alt) :
    lowerAlts context (markedAlts context.function alts) =
      lowerAlts context (markedAlts context.function
        (relabeledAlts (fun _ => false) (fun _ => none) alts)) := by
  cases alts with
  | nil => rfl
  | cons alt alts =>
      cases alt <;>
        rw [relabeledAlts, markedAlts, markedAlts, lowerAlts, lowerAlts,
          lower_marked context _, lowerAlts_marked context alts, bare]

end

mutual

@[simp] theorem tailPositions_relabeled (expr : Expr) :
    (expr.relabeled flag remark).tailPositions =
      expr.tailPositions.map (relabeled flag remark) := by
  cases expr with
  | letIn name value body =>
      simp [tailPositions_relabeled body]
  | case scrutinee alts =>
      simp [tailPositionsAlts_relabeled alts]
  | _ => simp

@[simp] theorem tailPositionsAlts_relabeled (alts : List Alt) :
    tailPositionsAlts (relabeledAlts flag remark alts) =
      (tailPositionsAlts alts).map (relabeled flag remark) := by
  cases alts with
  | nil => rfl
  | cons alt alts =>
      cases alt <;>
        simp [tailPositions_relabeled _, tailPositionsAlts_relabeled alts]

end

@[simp] theorem tailCallees_relabeled (expr : Expr) :
    (expr.relabeled flag remark).tailCallees = expr.tailCallees := by
  rw [tailCallees, tailCallees, tailPositions_relabeled, List.filterMap_map]
  congr 1
  funext leaf
  exact calleeName?_relabeled flag remark leaf

theorem any_isSelfCall_relabeled (name : Name) (expr : Expr) :
    (expr.relabeled flag remark).tailPositions.any (isSelfCall name) =
      expr.tailPositions.any (isSelfCall name) := by
  rw [tailPositions_relabeled, List.any_map]
  congr 1
  funext leaf
  rw [Function.comp_apply, isSelfCall_eq_calleeName?, isSelfCall_eq_calleeName?,
    calleeName?_relabeled]

mutual

/-- After marking, the function restarts itself exactly if a self call stands in
tail position. -/
theorem hasSelfTailCall_marked (name : Name) (expr : Expr) :
    (expr.marked name).hasSelfTailCall name =
      expr.tailPositions.any (isSelfCall name) := by
  cases expr with
  | letIn binder value body => exact hasSelfTailCall_marked name body
  | case scrutinee alts => exact hasSelfTailCall_markedAlts name alts
  | app func args tail =>
      have self : isSelfCall name (.app func.unmarked (unmarkedList args)
          (isSelfCall name (.app func args tail) || tail)) =
            isSelfCall name (.app func args tail) := by
        rw [unmarked_eq_relabeled]
        exact isSelfCall_app _ _ _ func _ _ _ _
      rw [marked, hasSelfTailCall, tailPositions, tailPositions, List.any_cons,
        List.any_nil, List.any_cons, List.any_nil, self, isTailCall]
      · cases isSelfCall name (.app func args tail) <;> rfl
      all_goals nofun
  | _ => rfl

theorem hasSelfTailCall_markedAlts (name : Name) (alts : List Alt) :
    ((tailPositionsAlts (markedAlts name alts)).any fun leaf =>
        leaf.isSelfCall name && leaf.isTailCall) =
      (tailPositionsAlts alts).any (isSelfCall name) := by
  cases alts with
  | nil => rfl
  | cons alt alts =>
      have rest := hasSelfTailCall_markedAlts name alts
      cases alt with
      | con ctor args body | const const body | default body =>
          have own := hasSelfTailCall_marked name body
          rw [hasSelfTailCall] at own
          simp [own, rest]

end

end Expr

namespace Function

@[simp] theorem hasSelfTailCall_bare (function : Function) :
    function.bare.markedBody.hasSelfTailCall function.name =
      function.markedBody.hasSelfTailCall function.name := by
  have bareBody := Expr.hasSelfTailCall_marked function.name function.body.bare
  rw [Expr.bare, Expr.any_isSelfCall_relabeled] at bareBody
  exact bareBody.trans
    (Expr.hasSelfTailCall_marked function.name function.body).symm

@[simp] theorem context_bare (function : Function) (tags : TagTable) :
    function.bare.context tags = function.context tags := by
  rw [context, context, ← function.hasSelfTailCall_bare]
  rfl

@[simp] theorem lower_bare (function : Function) (tags : TagTable) :
    function.bare.lower tags = function.lower tags := by
  have body : function.bare.markedBody.lower (function.context tags) =
      function.markedBody.lower (function.context tags) :=
    (Expr.lower_marked (function.context tags) function.body).symm
  rw [lower, lower, context_bare, body]

@[simp] theorem text_bare (options : ScriptOptions) (tags : TagTable)
    (function : Function) :
    function.bare.text options tags = function.text options tags := by
  rw [text, text, lines, lines, lower_bare]
  rfl

@[simp] theorem texts_bare (options : ScriptOptions) (tags : TagTable)
    (functions : List Function) :
    texts options tags (functions.map bare) = texts options tags functions := by
  induction functions with
  | nil => rfl
  | cons function functions ih =>
      rw [List.map_cons, texts, texts, text_bare, ih]
      rfl

end Function

namespace Program

@[simp] theorem constructors_bare (program : Program) :
    program.bare.constructors = program.constructors := by
  rw [constructors, constructors, bare, List.filterMap_map]
  congr 1
  funext declaration
  cases declaration <;> rfl

@[simp] theorem functions_bare (program : Program) :
    program.bare.functions = program.functions.map Function.bare := by
  rw [functions, functions, bare, List.filterMap_map, List.map_filterMap]
  congr 1
  funext declaration
  cases declaration <;> rfl

@[simp] theorem script_bare (options : ScriptOptions) (tags : TagTable)
    (program : Program) :
    program.bare.script options tags = program.script options tags := by
  rw [script, script, functions_bare, Function.texts_bare]
  rfl

end Program

namespace Contract

mutual

@[simp] theorem exprConstructors_relabeled (flag : Bool → Bool)
    (remark : Option Int → Option Int) (expr : Expr) :
    exprConstructors (expr.relabeled flag remark) = exprConstructors expr := by
  cases expr with
  | app func args tail =>
      simp [exprConstructors_relabeled _ _ func,
        listConstructors_relabeled _ _ args]
  | lazyApp name args =>
      simp [listConstructors_relabeled _ _ args]
  | lazy body =>
      simp [exprConstructors_relabeled _ _ body]
  | force body =>
      simp [exprConstructors_relabeled _ _ body]
  | lam params body =>
      simp [exprConstructors_relabeled _ _ body]
  | letIn name value body =>
      simp [exprConstructors_relabeled _ _ value,
        exprConstructors_relabeled _ _ body]
  | con name args tag =>
      simp [listConstructors_relabeled _ _ args]
  | case scrutinee alts =>
      simp [exprConstructors_relabeled _ _ scrutinee,
        altConstructors_relabeled _ _ alts]
  | proj body index =>
      simp [exprConstructors_relabeled _ _ body]
  | foreign target args =>
      simp [listConstructors_relabeled _ _ args]
  | op prim args =>
      simp [listConstructors_relabeled _ _ args]
  | _ => rw [Expr.relabeled]

@[simp] theorem listConstructors_relabeled (flag : Bool → Bool)
    (remark : Option Int → Option Int) (exprs : List Expr) :
    listConstructors (Expr.relabeledList flag remark exprs) =
      listConstructors exprs := by
  cases exprs with
  | nil => rfl
  | cons expr exprs =>
      simp [exprConstructors_relabeled _ _ expr,
        listConstructors_relabeled _ _ exprs]

@[simp] theorem altConstructors_relabeled (flag : Bool → Bool)
    (remark : Option Int → Option Int) (alts : List Alt) :
    altConstructors (Expr.relabeledAlts flag remark alts) =
      altConstructors alts := by
  cases alts with
  | nil => rfl
  | cons alt alts =>
      cases alt <;>
        simp [exprConstructors_relabeled _ _ _,
          altConstructors_relabeled _ _ alts]

end

@[simp] theorem selfCallBreaches_bare (function : Function) :
    selfCallBreaches function.bare = selfCallBreaches function := by
  rw [selfCallBreaches, selfCallBreaches, Function.bare, Expr.bare,
    Expr.tailPositions_relabeled, List.flatMap_map]
  congr 1
  funext leaf
  cases leaf with
  | app func args tail =>
      cases func with
      | var v =>
          cases v with
          | named callee =>
              simp [Expr.relabeledList_eq_map]
          | _ => rfl
      | _ => rfl
  | _ => rfl

@[simp] theorem functionBreaches_bare (constructors : List Constructor)
    (function : Function) :
    functionBreaches constructors function.bare =
      functionBreaches constructors function := by
  rw [functionBreaches, functionBreaches, selfCallBreaches_bare, Function.bare,
    Expr.bare, exprBreaches_relabeled]

namespace Checker

/-- The checker, had it seen the functions without remarks. -/
def bare (checker : Checker) : Checker :=
  { checker with functions := checker.functions.map Function.bare }

@[simp] theorem registerTags_bare (checker : Checker)
    (constructors : List Constructor) :
    checker.bare.registerTags constructors =
      (checker.registerTags constructors).bare := by
  rw [registerTags, registerTags]
  cases TagTable.ofConstructors constructors <;> rfl

@[simp] theorem registerConstructor_bare (checker : Checker) (c : Constructor) :
    checker.bare.registerConstructor c =
      (checker.registerConstructor c).bare := by
  rw [registerConstructor, registerConstructor, bare]
  split <;> rfl

@[simp] theorem registerFunction_bare (checker : Checker)
    (function : Function) :
    checker.bare.registerFunction function.bare =
      (checker.registerFunction function).bare := by
  have known :
      (checker.bare.functions.any fun other =>
        other.name = function.bare.name) =
      checker.functions.any fun other => other.name = function.name := by
    rw [bare, List.any_map]
    rfl
  rw [registerFunction, registerFunction, known]
  split
  · rfl
  · simp only [bare, List.map_append, List.map_cons, List.map_nil]

@[simp] theorem inspect_bare (checker : Checker) (function : Function) :
    checker.bare.inspect function.bare = (checker.inspect function).bare := by
  have mentioned : exprConstructors function.bare.body =
      exprConstructors function.body :=
    exprConstructors_relabeled _ _ function.body
  simp only [inspect, functionBreaches_bare, mentioned]
  rfl

@[simp] theorem entryFindings_bare (checker : Checker) (entry : Name) :
    checker.bare.entryFindings entry = checker.entryFindings entry := by
  rw [entryFindings, entryFindings, bare, List.isEmpty_map, List.any_map]
  rfl

@[simp] theorem cycleFindings_bare (checker : Checker) :
    checker.bare.cycleFindings = checker.cycleFindings := by
  have callees (defined : List Name) (function : Function) :
      TailGraph.calleesOf defined function.bare =
        TailGraph.calleesOf defined function := by
    have tails : function.bare.body.tailCallees = function.body.tailCallees :=
      Expr.tailCallees_relabeled _ _ function.body
    rw [TailGraph.calleesOf, TailGraph.calleesOf, tails]
    rfl
  have graph : TailGraph.ofFunctions (checker.functions.map Function.bare) =
      TailGraph.ofFunctions checker.functions := by
    simp only [TailGraph.ofFunctions, List.map_map]
    refine List.map_congr_left fun function _ => ?_
    rw [Function.comp_apply, callees]
    rfl
  rw [cycleFindings, cycleFindings, bare, graph, List.filterMap_map]
  rfl

/-- A checker learns the same from a program without remarks. -/
@[simp] theorem check_bare (checker : Checker) (program : Program) :
    checker.bare.check program.bare = (checker.check program).bare := by
  rw [check, check, Program.constructors_bare, Program.functions_bare,
    registerTags_bare, List.foldl_hom bare registerConstructor_bare,
    List.foldl_map, List.foldl_map, List.foldl_hom bare registerFunction_bare,
    List.foldl_hom bare inspect_bare]
  simp only [entryFindings_bare, cycleFindings_bare]
  rfl

end Checker

end Contract

namespace Program

theorem compile_bare (options : ScriptOptions) (program : Program) :
    program.bare.compile options = program.compile options := by
  have checked : Contract.Checker.initial.check program.bare =
      (Contract.Checker.initial.check program).bare :=
    Contract.Checker.check_bare .initial program
  rw [compile, compile, checked]
  simp only [script_bare]
  rfl

/-- Programs that differ in their remarks only are judged alike and have the
same text. -/
theorem compile_eq_of_bare_eq {program program' : Program}
    (sameButRemarks : program.bare = program'.bare) (options : ScriptOptions) :
    program.compile options = program'.compile options := by
  rw [← compile_bare options program, sameButRemarks, compile_bare]

/-- A function that wraps its argument forever, with its two remarks left
open. -/
def wrapping (tail : Bool) (tag : Option Int) : Program :=
  let body : Expr := .app (.var (.named (.user "wrap")))
    [.con (.user "Box") [.var (.named (.user "x"))] tag] tail
  ⟨[.constructor ⟨.user "Box", 1, none⟩,
    .function ⟨.user "wrap", [.user "x"], body⟩],
    .user "wrap"⟩

theorem compile_eq_of_bare_eq_wrapping :
    wrapping false none ≠ wrapping true (some 5) ∧
      (wrapping false none).bare = (wrapping true (some 5)).bare ∧
      ∀ options, (wrapping false none).compile options =
        (wrapping true (some 5)).compile options := by
  have same : (wrapping false none).bare = (wrapping true (some 5)).bare := rfl
  refine ⟨?_, same, compile_eq_of_bare_eq same⟩
  intro equal
  simp [wrapping] at equal

end Program

end TailLoop
