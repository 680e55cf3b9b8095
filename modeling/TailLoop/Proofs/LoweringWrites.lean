import TailLoop.Proofs.Execution
import TailLoop.Proofs.LoweringRelation

/-!
# What lowered code assigns

The code of an expression assigns the temporaries that were handed out for it,
the names its bindings and patterns bind, and, where it restarts the function,
the parameters.  The parts of an expression that are evaluated later assign
variables of their own.
-/

namespace TailLoop

namespace Expr

mutual

/-- The names that bindings and patterns bind, outside the parts evaluated
later. -/
@[simp] def binders : Expr → List Name
  | .var _ => []
  | .app func args _ => binders func ++ bindersList args
  | .lazyApp _ _ => []
  | .lazy _ => []
  | .force body => binders body
  | .lam _ _ => []
  | .letIn name value body => name :: (binders value ++ binders body)
  | .con _ args _ => bindersList args
  | .case scrutinee alts => binders scrutinee ++ bindersAlts alts
  | .proj body _ => binders body
  | .lit _ => []
  | .foreign _ args => bindersList args
  | .op _ args => bindersList args
  | .fail _ => []
  | .null => []

@[simp] def bindersList : List Expr → List Name
  | [] => []
  | expr :: exprs => binders expr ++ bindersList exprs

@[simp] def bindersAlts : List Alt → List Name
  | [] => []
  | .con _ args body :: alts => args ++ binders body ++ bindersAlts alts
  | .const _ body :: alts => binders body ++ bindersAlts alts
  | .default body :: alts => binders body ++ bindersAlts alts

end

mutual

/-- A flagged call of the named function stands outside the parts evaluated
later. -/
@[simp] def restarts (function : Name) : Expr → Bool
  | .var _ => false
  | .app func args tail =>
      (tail && isSelfCall function (.app func args tail)) ||
        restarts function func || restartsList function args
  | .lazyApp _ _ => false
  | .lazy _ => false
  | .force body => restarts function body
  | .lam _ _ => false
  | .letIn _ value body => restarts function value || restarts function body
  | .con _ args _ => restartsList function args
  | .case scrutinee alts =>
      restarts function scrutinee || restartsAlts function alts
  | .proj body _ => restarts function body
  | .lit _ => false
  | .foreign _ args => restartsList function args
  | .op _ args => restartsList function args
  | .fail _ => false
  | .null => false

@[simp] def restartsList (function : Name) : List Expr → Bool
  | [] => false
  | expr :: exprs => restarts function expr || restartsList function exprs

@[simp] def restartsAlts (function : Name) : List Alt → Bool
  | [] => false
  | .con _ _ body :: alts =>
      restarts function body || restartsAlts function alts
  | .const _ body :: alts =>
      restarts function body || restartsAlts function alts
  | .default body :: alts =>
      restarts function body || restartsAlts function alts

end

theorem bindersList_eq_flatMap (exprs : List Expr) :
    bindersList exprs = exprs.flatMap binders := by
  induction exprs with
  | nil => rfl
  | cons expr exprs ih => rw [bindersList, List.flatMap_cons, ih]

theorem bindersAlts_eq_flatMap (alts : List Alt) :
    bindersAlts alts = alts.flatMap fun alt =>
      alt.binders ++ alt.body.binders := by
  induction alts with
  | nil => rfl
  | cons alt alts ih =>
      cases alt <;> rw [bindersAlts, List.flatMap_cons, ih] <;> rfl

theorem restartsList_eq_any (function : Name) (exprs : List Expr) :
    restartsList function exprs = exprs.any (restarts function) := by
  induction exprs with
  | nil => rfl
  | cons expr exprs ih => rw [restartsList, List.any_cons, ih]

theorem restartsAlts_eq_any (function : Name) (alts : List Alt) :
    restartsAlts function alts = alts.any fun alt =>
      alt.body.restarts function := by
  induction alts with
  | nil => rfl
  | cons alt alts ih =>
      cases alt <;> rw [restartsAlts, List.any_cons, ih] <;> rfl

mutual

@[simp] theorem binders_unmarked (expr : Expr) :
    expr.unmarked.binders = expr.binders := by
  cases expr with
  | app func args tail =>
      simp [binders_unmarked func, bindersList_unmarked args]
  | force body => simp [binders_unmarked body]
  | letIn name value body =>
      simp [binders_unmarked value, binders_unmarked body]
  | con name args tag =>
      simp [bindersList_unmarked args]
  | case scrutinee alts =>
      simp [binders_unmarked scrutinee, bindersAlts_unmarked alts]
  | proj body index => simp [binders_unmarked body]
  | foreign target args =>
      simp [bindersList_unmarked args]
  | op prim args => simp [bindersList_unmarked args]
  | _ => rfl

@[simp] theorem bindersList_unmarked (exprs : List Expr) :
    bindersList (unmarkedList exprs) = bindersList exprs := by
  cases exprs with
  | nil => rfl
  | cons expr exprs =>
      simp [binders_unmarked expr, bindersList_unmarked exprs]

@[simp] theorem bindersAlts_unmarked (alts : List Alt) :
    bindersAlts (unmarkedAlts alts) = bindersAlts alts := by
  cases alts with
  | nil => rfl
  | cons alt alts =>
      cases alt <;>
        simp [binders_unmarked _, bindersAlts_unmarked alts]

end

mutual

@[simp] theorem binders_marked (name : Name) (expr : Expr) :
    (expr.marked name).binders = expr.binders := by
  cases expr with
  | letIn binder value body =>
      simp [binders_unmarked value, binders_marked name body]
  | case scrutinee alts =>
      simp [binders_unmarked scrutinee, bindersAlts_marked name alts]
  | app func args tail =>
      simp [binders_unmarked func, bindersList_unmarked args]
  | _ => exact binders_unmarked _

@[simp] theorem bindersAlts_marked (name : Name) (alts : List Alt) :
    bindersAlts (markedAlts name alts) = bindersAlts alts := by
  cases alts with
  | nil => rfl
  | cons alt alts =>
      cases alt <;>
        simp [binders_marked name _, bindersAlts_marked name alts]

end

mutual

/-- Unmarked expressions do not restart the function. -/
@[simp] theorem restarts_unmarked (function : Name) (expr : Expr) :
    expr.unmarked.restarts function = false := by
  cases expr with
  | app func args tail =>
      simp [restarts_unmarked function func,
        restartsList_unmarked function args]
  | force body =>
      simp [restarts_unmarked function body]
  | letIn name value body =>
      simp [restarts_unmarked function value, restarts_unmarked function body]
  | con name args tag =>
      simp [restartsList_unmarked function args]
  | case scrutinee alts =>
      simp [restarts_unmarked function scrutinee,
        restartsAlts_unmarked function alts]
  | proj body index =>
      simp [restarts_unmarked function body]
  | foreign target args =>
      simp [restartsList_unmarked function args]
  | op prim args =>
      simp [restartsList_unmarked function args]
  | _ => rfl

@[simp] theorem restartsList_unmarked (function : Name) (exprs : List Expr) :
    restartsList function (unmarkedList exprs) = false := by
  cases exprs with
  | nil => rfl
  | cons expr exprs =>
      simp [restarts_unmarked function expr,
        restartsList_unmarked function exprs]

@[simp] theorem restartsAlts_unmarked (function : Name) (alts : List Alt) :
    restartsAlts function (unmarkedAlts alts) = false := by
  cases alts with
  | nil => rfl
  | cons alt alts =>
      cases alt <;>
        simp [restarts_unmarked function _, restartsAlts_unmarked function alts]

end

end Expr

/-- A temporary with a number from `low` on and below `high`. -/
def Var.IsTemporary (low high : Nat) (v : Var) : Prop :=
  ∃ number, low ≤ number ∧ number < high ∧ v = .slot (-(number : Int))

theorem Var.IsTemporary.mono {low low' high high' : Nat} {v : Var}
    (temporary : v.IsTemporary low high) (lower : low' ≤ low)
    (higher : high ≤ high') :
    v.IsTemporary low' high' := by
  obtain ⟨number, above, below, rfl⟩ := temporary
  exact ⟨number, Nat.le_trans lower above, Nat.lt_of_lt_of_le below higher, rfl⟩

open Code (Term Stmt Clause)
open Lowering

/-- The names are allowed, and so are the parameters where the function is
restarted. -/
structure Permits (context : Context) (allowed : Var → Prop) (names : List Name)
    (restarts : Bool) : Prop where
  names : ∀ name ∈ names, allowed (.named name)
  params : restarts = true → ∀ name ∈ context.params, allowed (.named name)

theorem Permits.part {context : Context} {allowed : Var → Prop}
    {names some : List Name} {restarts also : Bool}
    (permits : Permits context allowed names restarts) (fewer : some ⊆ names)
    (implies : also = true → restarts = true) :
    Permits context allowed some also :=
  ⟨fun name member => permits.names name (fewer member),
    fun flagged => permits.params (implies flagged)⟩

/-- The variables that the code of an expression may assign are allowed. -/
abbrev Expr.Permitted (context : Context) (allowed : Var → Prop) (expr : Expr) :
    Prop :=
  Permits context allowed expr.binders (expr.restarts context.function)

/-- The variables that the clause of an alternative may assign are allowed. -/
abbrev Alt.Permitted (context : Context) (allowed : Var → Prop) (alt : Alt) :
    Prop :=
  Permits context allowed (alt.binders ++ alt.body.binders)
    (alt.body.restarts context.function)

theorem Expr.binders_sublist_bindersAlts {alt : Alt} {alts : List Alt}
    (member : alt ∈ alts) :
    (alt.binders ++ alt.body.binders).Sublist (bindersAlts alts) := by
  rw [bindersAlts_eq_flatMap]
  exact List.sublist_flatten_of_mem (List.mem_map.mpr ⟨alt, member, rfl⟩)

theorem Expr.restartsAlts_of_mem {function : Name} {alt : Alt} {alts : List Alt}
    (member : alt ∈ alts) (restarts : alt.body.restarts function = true) :
    restartsAlts function alts = true := by
  rw [restartsAlts_eq_any]
  exact List.any_eq_true.mpr ⟨alt, member, restarts⟩

theorem Alt.Permitted.body {context : Context} {allowed : Var → Prop}
    {alt : Alt} (permitted : alt.Permitted context allowed) :
    alt.body.Permitted context allowed :=
  permitted.part (List.subset_append_right _ _) id

theorem Expr.Permitted.alternative {context : Context} {allowed : Var → Prop}
    {scrutinee : Expr} {alts : List Alt}
    (permitted : (Expr.case scrutinee alts).Permitted context allowed)
    {alt : Alt} (member : alt ∈ alts) : alt.Permitted context allowed := by
  refine permitted.part ?_ ?_
  · rw [Expr.binders]
    exact List.subset_append_of_subset_right _
      (Expr.binders_sublist_bindersAlts member).subset
  · rw [Expr.restarts, Bool.or_eq_true]
    exact fun restarts => .inr (Expr.restartsAlts_of_mem member restarts)

namespace Expr

theorem deferral?_of_rowForm {context : Context} {expr : Expr} {form : RowForm}
    (isRow : expr.rowForm? context = some form) : expr.deferral? = none := by
  cases expr with
  | lam | lazy | lazyApp => cases isRow
  | _ => rfl

/-- A part binds and restarts what the expression does, unless the expression
defers it. -/
theorem binders_child {expr child : Expr} (direct : expr.deferral? = none)
    (member : child ∈ expr.children) (function : Name) :
    child.binders ⊆ expr.binders ∧
      (child.restarts function = true → expr.restarts function = true) := by
  have row {args : List Expr} (isArg : child ∈ args) :
      child.binders ⊆ bindersList args ∧
        (child.restarts function = true →
          restartsList function args = true) := by
    rw [bindersList_eq_flatMap, restartsList_eq_any]
    exact ⟨fun name inside => List.mem_flatMap.mpr ⟨child, isArg, inside⟩,
      fun restarts => List.any_eq_true.mpr ⟨child, isArg, restarts⟩⟩
  cases expr with
  | app func args tail =>
      rw [binders, restarts, Bool.or_eq_true, Bool.or_eq_true]
      rcases List.mem_cons.mp member with rfl | isArg
      · exact ⟨List.subset_append_left _ _, fun restarts =>
          .inl (.inr restarts)⟩
      · exact ⟨List.subset_append_of_subset_right _ (row isArg).1,
          fun restarts => .inr ((row isArg).2 restarts)⟩
  | letIn name value body =>
      rw [binders, restarts, Bool.or_eq_true]
      simp only [children, List.mem_cons, List.not_mem_nil, or_false] at member
      rcases member with rfl | rfl
      · exact ⟨List.subset_cons_of_subset _ (List.subset_append_left _ _), .inl⟩
      · exact ⟨List.subset_cons_of_subset _ (List.subset_append_right _ _),
          .inr⟩
  | case scrutinee alts =>
      rw [binders, restarts, Bool.or_eq_true]
      rcases List.mem_cons.mp member with rfl | isBody
      · exact ⟨List.subset_append_left _ _, .inl⟩
      · obtain ⟨alt, isAlt, rfl⟩ := List.mem_map.mp isBody
        have fewer := (List.sublist_append_right alt.binders _).trans
          (binders_sublist_bindersAlts isAlt)
        exact ⟨List.subset_append_of_subset_right _ fewer.subset,
          fun restarts => .inr (restartsAlts_of_mem isAlt restarts)⟩
  | force body | proj body index =>
      cases List.mem_singleton.mp member
      exact ⟨List.Subset.refl _, id⟩
  | con name args remark => exact row member
  | foreign target args => exact row member
  | op prim args => exact row member
  | lam | lazy | lazyApp => cases direct
  | var | lit | fail | null => cases member

end Expr

/-- The variables are allowed or temporaries from a range. -/
structure Confined (allowed : Var → Prop) (first last : Nat) (vars : List Var) :
    Prop where
  advances : first ≤ last
  within : ∀ v ∈ vars, allowed v ∨ v.IsTemporary first last

namespace Confined

variable {allowed : Var → Prop} {first middle last : Nat}
  {early late : List Var}

theorem of_allowed (within : ∀ v ∈ early, allowed v) (next : Nat) :
    Confined allowed next next early :=
  ⟨Nat.le_refl _, fun v member => .inl (within v member)⟩

theorem temporary (allowed : Var → Prop) (next : Nat) :
    Confined allowed next (next + 1) [.slot (-(next : Int))] := by
  refine ⟨Nat.le_succ _, List.forall_mem_singleton.mpr (.inr ?_)⟩
  exact ⟨next, Nat.le_refl _, Nat.lt_succ_self _, rfl⟩

theorem append (own : Confined allowed first middle early)
    (others : Confined allowed middle last late) :
    Confined allowed first last (early ++ late) := by
  refine ⟨Nat.le_trans own.advances others.advances, ?_⟩
  intro v member
  rcases List.mem_append.mp member with inEarly | inLate
  · exact (own.within v inEarly).imp_right fun temporary =>
      temporary.mono (Nat.le_refl _) others.advances
  · exact (others.within v inLate).imp_right fun temporary =>
      temporary.mono own.advances (Nat.le_refl _)

theorem mono {permitted : Var → Prop}
    (confined : Confined permitted first last early)
    (weaker : ∀ v, permitted v → allowed v) :
    Confined allowed first last early :=
  ⟨confined.advances, fun v member =>
    (confined.within v member).imp_left (weaker v)⟩

/-- A temporary handed out first may be assigned like those after it. -/
theorem handedOut
    (confined : Confined (fun v => allowed v ∨ v = .slot (-(first : Int)))
      (first + 1) last early) : Confined allowed first last early := by
  refine ⟨Nat.le_of_succ_le confined.advances, fun v member => ?_⟩
  rcases confined.within v member with (permitted | rfl) | temporary
  · exact .inl permitted
  · exact .inr ⟨first, Nat.le_refl _, confined.advances, rfl⟩
  · exact .inr (temporary.mono (Nat.le_succ _) (Nat.le_refl _))

end Confined

section Writes

variable {context : Context} {has : LoweringProperty} {allowed : Var → Prop}

theorem confined_assigned {target : Var} (permitted : allowed target)
    (value : Term) (next : Nat) :
    Confined allowed next next (Stmt.writesList (assigned target value)) := by
  refine .of_allowed ?_ next
  rw [assigned]
  split
  · exact List.forall_mem_nil _
  · exact List.forall_mem_singleton.mpr permitted

/-- The code that stores a value may come last where its target is allowed. -/
theorem Confined.stored {first last : Nat} {vars : List Var}
    (confined : Confined allowed first last vars) (target : Var)
    (value : Term) :
    Confined (fun v => allowed v ∨ v = target) first last
      (vars ++ Stmt.writesList (assigned target value)) :=
  (confined.mono fun _ => .inl).append (confined_assigned (.inr rfl) value last)

theorem confined_restartCode
    (params : ∀ name ∈ context.params, allowed (.named name))
    (values : List Term) (next : Nat) :
    Confined allowed next next
      (Stmt.writesList (restartCode context values)) := by
  refine .of_allowed ?_ next
  rw [restartCode, Stmt.writesList_append]
  refine List.forall_mem_append.mpr ⟨?_, List.forall_mem_nil _⟩
  split
  · exact List.forall_mem_nil _
  · rw [Stmt.writesList, Stmt.writesList, List.append_nil]
    exact List.forall_mem_map.mpr params

theorem confined_unpackCode {alt : Alt}
    (fields : ∀ name ∈ alt.binders, allowed (.named name)) (subject : Var)
    (next : Nat) :
    Confined allowed next next
      (Stmt.writesList (unpackCode subject alt.pattern)) := by
  refine .of_allowed ?_ next
  rw [← alt.binders_pattern] at fields
  rw [unpackCode.eq_def]
  split
  · rename_i form
    rw [form] at fields
    rw [Stmt.writesList, Stmt.writesList, List.append_nil]
    exact List.forall_mem_map.mpr fields
  · exact List.forall_mem_nil _

@[simp] theorem writes_unmatched (alts : List Alt) :
    Stmt.writesClauses (unmatched alts) = [] := by
  rw [unmatched]
  split
  · rfl
  · rfl

/-- The body of a function is run later and assigns nothing here. -/
theorem Lowering.Closes.confined {params bound : List Name} {frozen : List Var}
    {bodyValue value : Term} {before inner after : State}
    {block code : List Stmt}
    (closes : Closes context params frozen bound bodyValue inner block value
      after code)
    (advances : before.next ≤ inner.next) :
    Confined allowed before.next after.next (Stmt.writesList code) := by
  cases closes with
  | inline => exact ⟨advances, List.forall_mem_nil _⟩
  | hoist =>
      have body : Confined allowed before.next inner.next [] :=
        ⟨advances, List.forall_mem_nil _⟩
      exact body.append (.temporary allowed inner.next)

mutual

/-- The code of an expression assigns what the expression binds or restarts. -/
theorem Lowers.confined {allowed : Var → Prop} {scope : List Name} {expr : Expr}
    {before after : State} {value : Term} {code : List Stmt}
    (lowers : Lowers context has scope expr before value after code)
    (permitted : expr.Permitted context allowed) :
    Confined allowed before.next after.next (Stmt.writesList code) := by
  have part {child : Expr} (direct : expr.deferral? = none)
      (member : child ∈ expr.children) : child.Permitted context allowed := by
    obtain ⟨fewer, implies⟩ := Expr.binders_child direct member context.function
    exact permitted.part fewer implies
  match lowers with
  | .row isRow operands _ =>
      have row := LowersRow.confined operands fun operand member =>
        part (Expr.deferral?_of_rowForm isRow)
          (Expr.operands_subset isRow member)
      rw [Stmt.writesList_append]
      rcases Expr.ending_cases isRow with
        silent | ⟨func, args, rfl, isSelf, -, rfl⟩
      · rw [silent]
        exact row.append (.of_allowed (List.forall_mem_nil _) _)
      · have restarts : (Expr.app func args true).restarts context.function =
            true := by
          rw [Expr.restarts, isSelf]
          rfl
        exact row.append
          (confined_restartCode (permitted.params restarts) _ _)
  | .letIn bound body _ =>
      have first := Lowers.confined bound (part rfl List.mem_cons_self)
      have second :=
        Lowers.confined body
          (part rfl (List.mem_cons_of_mem _ List.mem_cons_self))
      have stored := confined_assigned (permitted.names _ List.mem_cons_self)
      rw [Stmt.writesList_append, Stmt.writesList_append]
      exact (first.append (stored _ _)).append second
  | .caseVar decides _ =>
      exact Decides.confined decides fun alt member =>
        permitted.alternative member
  | .caseCompound _ scrutinee decides _ =>
      have first := Lowers.confined scrutinee (part rfl List.mem_cons_self)
      have second := Decides.confined decides fun alt member =>
        permitted.alternative member
      rw [Stmt.writesList_append, Stmt.writesList_append]
      exact Confined.handedOut
        ((first.stored before.temporary _).append (second.mono fun _ => .inl))
  | .deferred _ body closes _ =>
      have inside : Confined (fun _ => True) before.next _ _ :=
        Lowers.confined body ⟨fun _ _ => trivial, fun _ _ _ => trivial⟩
      exact closes.confined inside.advances

theorem LowersRow.confined {allowed : Var → Prop} {scope : List Name}
    {exprs : List Expr} {before after : State} {values : List Term}
    {code : List Stmt}
    (row : LowersRow context has scope exprs before values after code)
    (permitted : ∀ expr ∈ exprs, expr.Permitted context allowed) :
    Confined allowed before.next after.next (Stmt.writesList code) := by
  match row with
  | .nil => exact .of_allowed (List.forall_mem_nil _) _
  | .cons own others =>
      obtain ⟨ownPermitted, othersPermitted⟩ :=
        List.forall_mem_cons.mp permitted
      rw [Stmt.writesList_append]
      exact (Lowers.confined own ownPermitted).append
        (LowersRow.confined others othersPermitted)

theorem Decides.confined {allowed : Var → Prop} {scope : List Name}
    {subject : Var} {alts : List Alt} {before after : State} {value : Term}
    {code : List Stmt}
    (decides : Decides context has scope subject alts before value after code)
    (permitted : ∀ alt ∈ alts, alt.Permitted context allowed) :
    Confined allowed before.next after.next (Stmt.writesList code) := by
  match decides with
  | .lone body =>
      exact Lowers.confined body (permitted _ List.mem_cons_self).body
  | .dispatch dispatches =>
      exact (Dispatches.confined dispatches permitted).handedOut

theorem Dispatches.confined {allowed : Var → Prop} {scope : List Name}
    {subject result : Var} {alts : List Alt} {before after : State}
    {code : List Stmt}
    (dispatches : Dispatches context has scope subject result alts before after
      code)
    (permitted : ∀ alt ∈ alts, alt.Permitted context allowed) :
    Confined (fun v => allowed v ∨ v = result) before.next after.next
      (Stmt.writesList code) := by
  match dispatches with
  | .chain _ _ within arms =>
      have clauses := LowersArms.confined arms fun alt member =>
        permitted alt (within member)
      rw [Stmt.writesList, Stmt.writesList, Stmt.writes,
        Stmt.writesClauses_append, writes_unmatched, List.append_nil,
        List.append_nil]
      exact clauses
  | .split low high =>
      have lowConfined := Dispatches.confined low permitted
      have highConfined := Dispatches.confined high permitted
      rw [Stmt.writesList, Stmt.writesList, Stmt.writes, Stmt.writesClauses,
        Stmt.writesClauses, Stmt.writesClauses, List.append_nil,
        List.append_nil]
      exact lowConfined.append highConfined

theorem LowersArms.confined {allowed : Var → Prop} {scope : List Name}
    {subject result : Var} {alts : List Alt} {before after : State}
    {clauses : List Clause}
    (arms : LowersArms context has scope subject result alts before after
      clauses)
    (permitted : ∀ alt ∈ alts, alt.Permitted context allowed) :
    Confined (fun v => allowed v ∨ v = result) before.next after.next
      (Stmt.writesClauses clauses) := by
  match arms with
  | .nil => exact .of_allowed (List.forall_mem_nil _) _
  | .cons _ body others =>
      obtain ⟨ownPermitted, othersPermitted⟩ :=
        List.forall_mem_cons.mp permitted
      have unpacked := confined_unpackCode (fun name member =>
        (ownPermitted.names name (List.mem_append_left _ member))) subject
      have inside := Lowers.confined body ownPermitted.body
      rw [Stmt.writesClauses, Stmt.writesList_append, Stmt.writesList_append]
      exact (((unpacked _).append inside).stored result _).append
        (LowersArms.confined others othersPermitted)

end

theorem Expr.lower_confined {expr : Expr} {before after : State} {value : Term}
    {code : List Stmt} (permitted : expr.Permitted context allowed)
    (ran : expr.lower context before = .ok (value, after, code)) :
    Confined allowed before.next after.next (Stmt.writesList code) :=
  (expr.lowers ran).confined permitted

theorem Expr.lowerList_confined {exprs : List Expr} {before after : State}
    {values : List Term} {code : List Stmt}
    (permitted : Permits context allowed (bindersList exprs)
      (restartsList context.function exprs))
    (ran : lowerList context exprs before = .ok (values, after, code)) :
    Confined allowed before.next after.next (Stmt.writesList code) := by
  rw [bindersList_eq_flatMap, restartsList_eq_any] at permitted
  refine (Expr.lowersRow ran).confined fun expr member => permitted.part ?_ ?_
  · exact fun name inside => List.mem_flatMap.mpr ⟨expr, member, inside⟩
  · exact fun restarts => List.any_eq_true.mpr ⟨expr, member, restarts⟩

/-- Lowering takes back no temporary. -/
theorem Expr.lower_advances {expr : Expr} {before after : State} {value : Term}
    {code : List Stmt}
    (ran : expr.lower context before = .ok (value, after, code)) :
    before.next ≤ after.next := by
  have permitted : expr.Permitted context fun _ => True :=
    ⟨fun _ _ => trivial, fun _ _ _ => trivial⟩
  exact (expr.lower_confined permitted ran).advances

end Writes

end TailLoop
