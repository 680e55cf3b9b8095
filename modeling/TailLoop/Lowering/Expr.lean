import TailLoop.Core.FreeVars
import TailLoop.Core.TailPosition
import TailLoop.Lowering.Decision

/-!
# Lowering expressions
-/

namespace TailLoop

namespace Lowering

/-- A term as it stands before an argument list: anything but a variable in
parentheses. -/
def callee (source : Expr) (term : Code.Term) : Code.Term :=
  if source.isVar then term else .paren term

/-- Nested functions of one parameter each; the outermost freezes the
variables. -/
def curried (frozen : List Var) (body : Code.Term) : List Name → Code.Term
  | [] => .thunk frozen body
  | param :: params =>
      .lambda param frozen
        (params.foldr (fun param body => .lambda param [] body) body)

/-- The variables that a deferred value freezes: those of its free variables
that the function itself binds. -/
def captured (context : Context) (bound : List Name) (deferred : Expr) :
    List Var :=
  if context.freeze then
    deferred.freeVars.filter fun
      | .slot _ => true
      | .named name => name ∈ bound
  else []

/-- A function that evaluates its body when it is applied.  A body that needs
statements is defined as a function of its own. -/
def defer (context : Context) (params : List Name) (deferredExpr : Expr)
    (body : Lowering Code.Term) : Lowering Code.Term := do
  let frozen := captured context (← bound) deferredExpr
  let (value, block) ← deferred body
  if block.isEmpty then return curried frozen value params
  else
    let function ← fresh
    emit (.define function params frozen block value)
    if params.length ≤ 1 then return .var function
    else
      let call :=
        .call (.var function) (params.map fun param => .var (.named param))
      return curried (if context.freeze then [function] else []) call params

/-- Assigns the arguments to the parameters, all at once, and restarts the
function. -/
def restart (context : Context) (args : Lowering (List Code.Term)) :
    Lowering Code.Term := do
  let values ← args
  if !values.isEmpty then emit (.rebind context.params values)
  emit .continue
  return .restart

/-- The greatest number of digits of an index in the output. -/
def indexLimit : Nat := 4300

end Lowering

open Lowering

mutual

def Expr.lower (context : Context) : Expr → Lowering Code.Term
  | .var v => return .var v
  | .app func args tail =>
      if tail && Expr.isSelfCall context.function (.app func args tail) then
        if args.length = context.params.length then
          restart context (lowerList context args)
        else refuse (.selfCallCount args.length context.params.length)
      else do
        let function ← func.lower context
        let values ← lowerList context args
        return .call (callee func function) values
  | .lazyApp name args =>
      defer context [] (.app (.var (.named name)) args false) do
        return .call (.var (.named name)) (← lowerList context args)
  | .lazy body => defer context [] body (body.lower context)
  | .force body => do
      let value ← body.lower context
      return .call (callee body value) []
  | .lam params body =>
      defer context params (.lam params body) (body.lower context)
  | .letIn name value body => do
      assign (.named name) (← value.lower context)
      declare [name]
      body.lower context
  | .con name args _ => do
      let tag ← tagOf context name
      let fields ← lowerList context args
      return .tuple (.int tag :: fields)
  | .case (.var subject) alts =>
      decision context subject (lowerAlts context alts)
  | .case scrutinee alts => do
      let subject ← fresh
      assign subject (← scrutinee.lower context)
      decision context subject (lowerAlts context alts)
  | .proj body index => do
      let value ← body.lower context
      if Nat.pow 10 indexLimit ≤ (index + 1).natAbs then
        Lowering.fail .digitLimit
      else return .item value (index + 1)
  | .lit const => return const.term
  | .foreign (.named function) args => do
      return .call (.verbatim function) (← lowerList context args)
  | .foreign target _ => refuse (.foreignTarget target)
  | .op prim args => return prim.term (← lowerList context args)
  | .fail message => return .raise message
  | .null => return .none

def Expr.lowerList (context : Context) : List Expr → Lowering (List Code.Term)
  | [] => return []
  | expr :: exprs => do
      let first ← expr.lower context
      let rest ← lowerList context exprs
      return first :: rest

/-- The alternatives of a case analysis, their bodies still to be lowered. -/
def Expr.lowerAlts (context : Context) : List Alt → List Branch
  | [] => []
  | .con ctor args body :: alts =>
      ⟨.con ctor args, body.lower context⟩ :: lowerAlts context alts
  | .const const body :: alts =>
      ⟨.const const, body.lower context⟩ :: lowerAlts context alts
  | .default body :: alts =>
      ⟨.default, body.lower context⟩ :: lowerAlts context alts

end

namespace Lowering

/-- Lowers an expression from the start of a function. -/
def start (context : Context) (body : Lowering Code.Term) :
    Except Fault (Code.Block × State) :=
  match body (State.initial context.params) with
  | .error fault => .error fault
  | .ok (value, state, statements) => .ok (⟨statements, value⟩, state)

end Lowering

namespace Function

/-- The body with its self calls marked. -/
def markedBody (function : Function) : Expr :=
  function.body.marked function.name

/-- Values are frozen in functions that can be restarted. -/
def context (function : Function) (tags : TagTable) : Context :=
  ⟨tags, function.name, function.params,
    function.markedBody.hasSelfTailCall function.name⟩

def lower (function : Function) (tags : TagTable) : Except Fault Code.Block :=
  let context := function.context tags
  (start context (function.markedBody.lower context)).map Prod.fst

end Function

end TailLoop
