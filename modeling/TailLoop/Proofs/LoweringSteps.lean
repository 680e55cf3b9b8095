import TailLoop.Lowering.Expr

/-!
# Steps of lowering

Each step of lowering is described once, by what it yields and by how it can
fail.  A sequence yields what its parts yield, with their statements in order,
and fails where its first failing part does.
-/

namespace TailLoop

namespace Lowering

namespace State

/-- The temporary that is handed out next. -/
def temporary (state : State) : Var :=
  .slot (-(state.next : Int))

/-- The state after a temporary was handed out. -/
def advanced (state : State) : State :=
  { state with next := state.next + 1 }

def binding (names : List Name) (state : State) : State :=
  { state with bound := names ++ state.bound }

end State

/-- The code that stores a value, unless there is none because the function was
restarted. -/
def assigned (target : Var) (value : Code.Term) : List Code.Stmt :=
  if value.isRestart then [] else [.assign target value]

/-- The code of a restart with new arguments. -/
def restartCode (context : Context) (values : List Code.Term) :
    List Code.Stmt :=
  (if values.isEmpty then [] else [.rebind context.params values]) ++
    [.continue]

variable {α β : Type}

@[simp] theorem bind_eq_ok {first : Lowering α} {next : α → Lowering β}
    {state after : State} {result : β} {code : List Code.Stmt} :
    (first >>= next) state = .ok (result, after, code) ↔
      ∃ value middle emitted further,
      first state = .ok (value, middle, emitted) ∧
        next value middle = .ok (result, after, further) ∧
          code = emitted ++ further := by
  change Lowering.bind first next state = _ ↔ _
  unfold Lowering.bind
  constructor
  · intro run
    split at run
    · cases run
    · rename_i value middle emitted ran
      split at run
      · cases run
      · rename_i result' after' further ran'
        cases run
        exact ⟨value, middle, emitted, further, ran, ran', rfl⟩
  · rintro ⟨value, middle, emitted, further, ran, ran', rfl⟩
    simp only [ran, ran']

@[simp] theorem pure_eq_ok {value result : α} {state after : State}
    {code : List Code.Stmt} :
    (Pure.pure value : Lowering α) state = .ok (result, after, code) ↔
      result = value ∧ after = state ∧ code = [] := by
  constructor
  · intro run
    cases run
    exact ⟨rfl, rfl, rfl⟩
  · rintro ⟨rfl, rfl, rfl⟩
    rfl

/-- A computation whose last step makes a result of a value. -/
@[simp] theorem bind_pure_eq_ok {first : Lowering α} {make : α → β}
    {state after : State} {result : β} {code : List Code.Stmt} :
    (first >>= fun value => Pure.pure (make value)) state =
      .ok (result, after, code) ↔
      ∃ value, first state = .ok (value, after, code) ∧
      result = make value := by
  constructor
  · intro ran
    obtain ⟨value, middle, emitted, _, firstRan, doneRan, rfl⟩ :=
      bind_eq_ok.mp ran
    obtain ⟨rfl, rfl, rfl⟩ := pure_eq_ok.mp doneRan
    rw [List.append_nil]
    exact ⟨value, firstRan, rfl⟩
  · rintro ⟨value, firstRan, rfl⟩
    exact bind_eq_ok.mpr ⟨value, after, code, [], firstRan,
      rfl, by rw [List.append_nil]⟩

@[simp] theorem emit_eq_ok {stmt : Code.Stmt} {state after : State}
    {code : List Code.Stmt} :
    emit stmt state = .ok ((), after, code) ↔ after = state ∧
    code = [stmt] := by
  constructor
  · intro run
    cases run
    exact ⟨rfl, rfl⟩
  · rintro ⟨rfl, rfl⟩
    rfl

@[simp] theorem fresh_eq_ok {state after : State} {v : Var}
    {code : List Code.Stmt} :
    fresh state = .ok (v, after, code) ↔
      v = .slot (-(state.next : Int)) ∧
      after = { state with next := state.next + 1 } ∧
        code = [] := by
  constructor
  · intro run
    cases run
    exact ⟨rfl, rfl, rfl⟩
  · rintro ⟨rfl, rfl, rfl⟩
    rfl

@[simp] theorem declare_eq_ok {names : List Name} {state after : State}
    {code : List Code.Stmt} :
    declare names state = .ok ((), after, code) ↔
      after = { state with bound := names ++ state.bound } ∧ code = [] := by
  constructor
  · intro run
    cases run
    exact ⟨rfl, rfl⟩
  · rintro ⟨rfl, rfl⟩
    rfl

@[simp] theorem suite_eq_ok {body : Lowering α} {result : α × List Code.Stmt}
    {state after : State} {code : List Code.Stmt} :
    suite body state = .ok (result, after, code) ↔
      body state = .ok (result.1, after, result.2) ∧ code = [] := by
  unfold suite
  constructor
  · intro run
    split at run
    · cases run
    · rename_i ran
      cases run
      exact ⟨ran, rfl⟩
  · rintro ⟨ran, rfl⟩
    simp only [ran]

@[simp] theorem deferred_eq_ok {body : Lowering α} {result : α × List Code.Stmt}
    {state after : State} {code : List Code.Stmt} :
    deferred body state = .ok (result, after, code) ↔
      ∃ inner, body state = .ok (result.1, inner, result.2) ∧
        after = { inner with bound := state.bound } ∧ code = [] := by
  unfold deferred
  constructor
  · intro run
    split at run
    · cases run
    · rename_i value inner emitted ran
      cases run
      exact ⟨inner, ran, rfl, rfl⟩
  · rintro ⟨inner, ran, rfl, rfl⟩
    simp only [ran]

/-- Nothing is assigned where the function was restarted. -/
@[simp] theorem assign_eq_ok {target : Var} {value : Code.Term}
    {state after : State} {code : List Code.Stmt} :
    assign target value state = .ok ((), after, code) ↔
      after = state ∧
        code = if value.isRestart then [] else [.assign target value] := by
  unfold assign
  cases value.isRestart
  · exact emit_eq_ok
  · constructor
    · intro run
      cases run
      exact ⟨rfl, rfl⟩
    · rintro ⟨rfl, rfl⟩
      rfl

@[simp] theorem tagOf_eq_ok {context : Context} {name : Name} {tag : Int}
    {state after : State} {code : List Code.Stmt} :
    tagOf context name state = .ok (tag, after, code) ↔
      context.tags.tagOf? name = some tag ∧ after = state ∧ code = [] := by
  unfold tagOf
  cases found : context.tags.tagOf? name with
  | none =>
      constructor
      · intro run
        cases run
      · rintro ⟨impossible, -⟩
        cases impossible
  | some known =>
      constructor
      · intro run
        cases run
        exact ⟨rfl, rfl, rfl⟩
      · rintro ⟨same, rfl, rfl⟩
        cases same
        rfl

theorem restart_eq_ok {context : Context} {args : Lowering (List Code.Term)}
    {state after : State} {value : Code.Term} {code : List Code.Stmt}
    (ran : restart context args state = .ok (value, after, code)) :
    ∃ values emitted, args state = .ok (values, after, emitted) ∧
    value = .restart ∧
      code = emitted ++
        ((if values.isEmpty then [] else [.rebind context.params values]) ++
        [.continue]) := by
  obtain ⟨values, middle, emitted, _, argsRan, restRan, rfl⟩ :=
    bind_eq_ok.mp ran
  refine ⟨values, emitted, ?_⟩
  cases values with
  | nil =>
      obtain ⟨_, last, _, _, emitRan, doneRan, rfl⟩ := bind_eq_ok.mp restRan
      obtain ⟨rfl, rfl⟩ := emit_eq_ok.mp emitRan
      obtain ⟨rfl, rfl, rfl⟩ := pure_eq_ok.mp doneRan
      exact ⟨argsRan, rfl, rfl⟩
  | cons first values =>
      obtain ⟨_, inner, _, _, storeRan, againRan, rfl⟩ := bind_eq_ok.mp restRan
      obtain ⟨rfl, rfl⟩ := emit_eq_ok.mp storeRan
      obtain ⟨_, last, _, _, emitRan, doneRan, rfl⟩ := bind_eq_ok.mp againRan
      obtain ⟨rfl, rfl⟩ := emit_eq_ok.mp emitRan
      obtain ⟨rfl, rfl, rfl⟩ := pure_eq_ok.mp doneRan
      exact ⟨argsRan, rfl, rfl⟩

/-- Every failure is of an allowed kind. -/
def FailsOnly (allowed : Fault → Prop) (step : Lowering α) : Prop :=
  ∀ state fault, step state = .error fault → allowed fault

/-- The step never fails. -/
def Succeeds (step : Lowering α) : Prop :=
  ∀ state, ∃ result, step state = .ok result

namespace FailsOnly

variable {allowed : Fault → Prop}

theorem pure (value : α) :
    FailsOnly allowed (Pure.pure value : Lowering α) := by
  intro state fault failed
  cases failed

/-- The second step need only be looked at after results that the first one
has. -/
theorem bindResult {first : Lowering α} {next : α → Lowering β}
    (firstFails : FailsOnly allowed first)
    (nextFails : ∀ state value middle emitted,
      first state = .ok (value, middle, emitted) →
      FailsOnly allowed (next value)) :
    FailsOnly allowed (first >>= next) := by
  intro state fault failed
  change Lowering.bind first next state = _ at failed
  unfold Lowering.bind at failed
  split at failed
  · rename_i ran
    cases failed
    exact firstFails state _ ran
  · rename_i value middle emitted ran
    split at failed
    · rename_i ran'
      cases failed
      exact nextFails state value middle emitted ran middle _ ran'
    · cases failed

theorem bind {first : Lowering α} {next : α → Lowering β}
    (firstFails : FailsOnly allowed first)
    (nextFails : ∀ value, FailsOnly allowed (next value)) :
    FailsOnly allowed (first >>= next) :=
  firstFails.bindResult fun _ value _ _ _ => nextFails value

theorem mono {permitted : Fault → Prop} {step : Lowering α}
    (fails : FailsOnly permitted step)
    (weaker : ∀ fault, permitted fault → allowed fault) :
    FailsOnly allowed step :=
  fun state fault failed => weaker fault (fails state fault failed)

theorem emit (stmt : Code.Stmt) : FailsOnly allowed (Lowering.emit stmt) := by
  intro state fault failed
  cases failed

theorem fresh : FailsOnly allowed Lowering.fresh := by
  intro state fault failed
  cases failed

theorem declare (names : List Name) :
    FailsOnly allowed (Lowering.declare names) := by
  intro state fault failed
  cases failed

theorem bound : FailsOnly allowed Lowering.bound := by
  intro state fault failed
  cases failed

theorem fail {fault : Fault} (permitted : allowed fault) :
    FailsOnly allowed (Lowering.fail fault : Lowering α) := by
  intro state cause failed
  cases failed
  exact permitted

theorem suite {body : Lowering α} (bodyFails : FailsOnly allowed body) :
    FailsOnly allowed (Lowering.suite body) := by
  intro state fault failed
  unfold Lowering.suite at failed
  split at failed
  · rename_i ran
    cases failed
    exact bodyFails state _ ran
  · cases failed

theorem deferred {body : Lowering α} (bodyFails : FailsOnly allowed body) :
    FailsOnly allowed (Lowering.deferred body) := by
  intro state fault failed
  unfold Lowering.deferred at failed
  split at failed
  · rename_i ran
    cases failed
    exact bodyFails state _ ran
  · cases failed

theorem assign (target : Var) (value : Code.Term) :
    FailsOnly allowed (Lowering.assign target value) := by
  unfold Lowering.assign
  split
  · exact pure ()
  · exact emit _

theorem tagOf {context : Context} {name : Name}
    (undeclared : context.tags.tagOf? name = none →
      allowed (.breach (.undeclaredConstructor name))) :
    FailsOnly allowed (Lowering.tagOf context name) := by
  unfold Lowering.tagOf
  split
  · exact pure _
  · rename_i missing
    exact fail (undeclared missing)

/-- A step all of whose failures are excluded succeeds. -/
theorem succeeds {step : Lowering α} (fails : FailsOnly allowed step)
    (excluded : ∀ fault, ¬ allowed fault) : Succeeds step := by
  intro state
  cases ran : step state with
  | ok result => exact ⟨result, rfl⟩
  | error fault => exact (excluded fault (fails state fault ran)).elim

end FailsOnly

/-- A step that always succeeds has no failures. -/
theorem Succeeds.failsOnly {allowed : Fault → Prop} {step : Lowering α}
    (succeeds : Succeeds step) : FailsOnly allowed step := by
  intro state fault failed
  obtain ⟨result, ran⟩ := succeeds state
  rw [ran] at failed
  cases failed

end Lowering

/-- An alternative with its body still to be lowered. -/
def Alt.branch (context : Context) (alt : Alt) : Lowering.Branch :=
  ⟨alt.pattern, alt.body.lower context⟩

namespace Expr

open Lowering

/-- A scrutinee that is no variable is evaluated once, into a temporary. -/
theorem lower_case_compound {context : Context} {scrutinee : Expr}
    {alts : List Alt} (compound : scrutinee.isVar = false) :
    lower context (.case scrutinee alts) = (do
      let subject ← fresh
      assign subject (← scrutinee.lower context)
      decision context subject (lowerAlts context alts)) := by
  rw [lower]
  rintro subject rfl
  cases compound

@[simp] theorem lowerAlts_eq_map (context : Context) (alts : List Alt) :
    lowerAlts context alts = alts.map (Alt.branch context) := by
  induction alts with
  | nil => rw [lowerAlts, List.map_nil]
  | cons alt alts ih =>
      cases alt <;> rw [lowerAlts, List.map_cons, ih] <;> rfl

end Expr

theorem Function.lower_eq_ok {function : Function} {tags : TagTable}
    {block : Code.Block} (lowered : function.lower tags = .ok block) :
    ∃ after, function.markedBody.lower (function.context tags)
      (Lowering.State.initial function.params) =
        .ok (block.value, after, block.statements) := by
  unfold lower Lowering.start at lowered
  dsimp only at lowered
  cases ran : function.markedBody.lower (function.context tags)
      (Lowering.State.initial (function.context tags).params) with
  | error fault =>
      rw [ran] at lowered
      cases lowered
  | ok result =>
      obtain ⟨value, after, statements⟩ := result
      rw [ran] at lowered
      cases lowered
      exact ⟨after, ran⟩

end TailLoop
