import TailLoop.Proofs.CodeTerms

/-!
# The shape of lowered code

In lowered code every suite has a statement, every branch starts with a test,
and a clause without a test comes last.  Restarts stand in the loop of the
function and never in a function defined inside it.
-/

namespace TailLoop

namespace Code

def Guard.isOtherwise : Guard → Bool
  | .otherwise => true
  | _ => false

/-- The term is a value, not that of a restart. -/
def Term.IsPresent (term : Term) : Prop :=
  term.isRestart = false

theorem Term.closed_isPresent : Term.Closed Term.IsPresent where
  var _ := rfl
  int _ := rfl
  float _ := rfl
  str _ := rfl
  none := rfl
  raise _ := rfl
  paren _ := rfl
  call _ _ := rfl
  tuple _ := rfl
  item _ _ := rfl
  binary _ _ _ _ _ := rfl
  compare _ _ _ _ _ := rfl
  unary _ _ _ := rfl
  readLine := rfl
  write _ := rfl
  unsupported _ _ _ := rfl
  thunk _ _ _ := rfl
  lambda _ _ _ _ := rfl

namespace Stmt

mutual

/-- Suites are not empty and restarts stand in a loop; `loop` tells whether the
statement does. -/
@[simp] def Formed (loop : Bool) : Stmt → Prop
  | .assign _ _ => True
  | .unpack targets _ => targets ≠ []
  | .rebind targets _ => targets ≠ []
  | .continue => loop = true
  | .unreachable => True
  | .branch _ clauses => FormedClauses loop true clauses
  | .define _ _ _ body _ => FormedList false body

@[simp] def FormedList (loop : Bool) : List Stmt → Prop
  | [] => True
  | stmt :: stmts => Formed loop stmt ∧ FormedList loop stmts

/-- The leading clause has a test, and a clause without one comes last. -/
@[simp] def FormedClauses (loop leading : Bool) : List Clause → Prop
  | [] => leading = false
  | .mk guard body :: clauses =>
      (guard.isOtherwise = true → leading = false ∧ clauses = []) ∧ body ≠ [] ∧
        FormedList loop body ∧ FormedClauses loop false clauses

end

theorem FormedList.append {loop : Bool} {first second : List Stmt}
    (before : FormedList loop first) (after : FormedList loop second) :
    FormedList loop (first ++ second) := by
  induction first with
  | nil => exact after
  | cons stmt first ih => exact ⟨before.1, ih before.2⟩

end Stmt

end Code

open Code

theorem Pattern.isOtherwise_guard {pattern : Pattern} {tags : TagTable}
    {guard : Guard} (made : pattern.guard? tags = some guard) :
    guard.isOtherwise = pattern.isDefault := by
  cases pattern with
  | con ctor args =>
      obtain ⟨tag, -, rfl⟩ := Option.map_eq_some_iff.mp made
      rfl
  | const value =>
      cases made
      rfl
  | default =>
      cases made
      rfl

namespace Lowering

variable {context : Context} {loop : Bool}

theorem unmatched_cons (alt : Alt) {alts : List Alt} (more : alts ≠ []) :
    unmatched (alt :: alts) = unmatched alts := by
  cases alts with
  | nil => exact (more rfl).elim
  | cons next alts => rw [unmatched, unmatched, List.getLast?_cons_cons]

theorem unmatched_default {alt : Alt} (isDefault : alt.isDefault = true) :
    unmatched [alt] = [] :=
  if_pos isDefault

theorem formed_unmatched (alts : List Alt) :
    Stmt.FormedClauses loop false (unmatched alts) := by
  rw [unmatched]
  split
  · rfl
  · exact ⟨fun _ => ⟨rfl, rfl⟩, List.cons_ne_nil _ _, ⟨trivial, trivial⟩, rfl⟩

theorem formed_remaining {alt : Alt} {alts : List Alt} {clauses : List Clause}
    (none : alts = [] → clauses = [])
    (more : alts ≠ [] →
      Stmt.FormedClauses loop false (clauses ++ unmatched alts)) :
    Stmt.FormedClauses loop false (clauses ++ unmatched (alt :: alts)) := by
  by_cases last : alts = []
  · rw [none last]
    exact formed_unmatched _
  · rw [unmatched_cons alt last]
    exact more last

theorem formed_assigned (target : Var) (value : Term) :
    Stmt.FormedList loop (assigned target value) := by
  rw [assigned]
  split
  · trivial
  · exact ⟨trivial, trivial⟩

theorem formed_unpackCode (subject : Var) (pattern : Pattern) :
    Stmt.FormedList loop (unpackCode subject pattern) := by
  rw [unpackCode.eq_def]
  split
  · exact ⟨List.cons_ne_nil _ _, trivial⟩
  · trivial

/-- The function is restarted in its loop, with a value for each parameter. -/
theorem formed_restartCode {values : List Term} (inLoop : loop = true)
    (counted : values.length = context.params.length) :
    Stmt.FormedList loop (restartCode context values) := by
  rw [restartCode]
  refine Stmt.FormedList.append ?_ ⟨inLoop, trivial⟩
  split
  · trivial
  · rename_i some
    have params : context.params ≠ [] := by
      rw [← List.length_pos_iff, ← counted, List.length_pos_iff]
      simpa using some
    exact ⟨params, trivial⟩

theorem Closes.formed {params bound : List Name} {frozen : List Var}
    {bodyValue value : Term} {inner after : State} {block code : List Stmt}
    (closes : Closes context params frozen bound bodyValue inner block value
      after code)
    (body : Stmt.FormedList false block) : Stmt.FormedList loop code := by
  cases closes with
  | inline => trivial
  | hoist => exact ⟨body, trivial⟩

/-- The suite of an alternative is not empty: it stores the value, or it ends in
a restart. -/
theorem suite_ne_nil {tail : Bool} {value : Term} {code : List Stmt}
    (outcome : Outcome (.terms Term.IsPresent) tail value code) (result : Var)
    (before : List Stmt) : before ++ code ++ assigned result value ≠ [] := by
  intro empty
  obtain ⟨early, unassigned⟩ := List.append_eq_nil_iff.mp empty
  rcases outcome.good with present | ⟨-, -, start, rfl⟩
  · rw [assigned, show value.isRestart = false from present] at unassigned
    cases unassigned
  · have ended := (List.append_eq_nil_iff.mp early).2
    cases (List.append_eq_nil_iff.mp ended).2

end Lowering

open Lowering

section Formed

variable {context : Context} {has : LoweringProperty}

theorem LowersArms.eq_nil {scope : List Name} {subject result : Var}
    {alts : List Alt} {before after : State} {clauses : List Clause}
    (arms : LowersArms context has scope subject result alts before after
      clauses)
    (none : alts = []) : clauses = [] := by
  cases arms with
  | nil => rfl
  | cons => cases none

mutual

/-- An expression that restarts the function in tail position only is lowered to
formed code. -/
theorem Lowers.formed {loop tail : Bool} {scope : List Name} {expr : Expr}
    {before after : State} {value : Term} {code : List Stmt}
    (lowers : Lowers context has scope expr before value after code)
    (admits : expr.Admits (Expr.Sound Term.IsPresent) tail)
    (inLoop : tail = true → loop = true) : Stmt.FormedList loop code := by
  have apart : false = true → loop = true := by
    rintro ⟨⟩
  match lowers with
  | .row isRow operands _ =>
      have row := LowersRow.formed loop operands fun operand member =>
        admits.inner operand (Expr.operands_subset_inner isRow member)
      rcases Expr.ending_cases isRow with
        silent | ⟨func, args, rfl, -, counted, rfl⟩
      · rw [silent, List.append_nil]
        exact row
      · refine row.append
          (formed_restartCode ?_ (operands.length_eq.trans counted))
        rcases admits.allowed.restart rfl with isTail | ⟨⟨⟩⟩
        exact inLoop isTail
  | .letIn bound body _ =>
      have first :=
        Lowers.formed bound (admits.inner _ List.mem_cons_self) apart
      have second :=
        Lowers.formed body (admits.tails _ List.mem_cons_self) inLoop
      exact (first.append (formed_assigned _ _)).append second
  | .caseVar decides _ =>
      exact Decides.formed decides
        (fun alt member => admits.tails _ (List.mem_map_of_mem member)) inLoop
  | .caseCompound _ scrutinee decides _ =>
      have first :=
        Lowers.formed scrutinee (admits.inner _ List.mem_cons_self) apart
      have second := Decides.formed decides
        (fun alt member => admits.tails _ (List.mem_map_of_mem member)) inLoop
      exact (first.append (formed_assigned _ _)).append second
  | .deferred isDeferred body closes _ =>
      refine closes.formed
        (Lowers.formed body (Expr.Sound.deferral? admits isDeferred) ?_)
      rintro ⟨⟩

theorem LowersRow.formed (loop : Bool) {scope : List Name} {exprs : List Expr}
    {before after : State} {values : List Term} {code : List Stmt}
    (row : LowersRow context has scope exprs before values after code)
    (admitted : ∀ expr ∈ exprs, expr.Admits (Expr.Sound Term.IsPresent) false) :
    Stmt.FormedList loop code := by
  match row with
  | .nil => trivial
  | .cons own others =>
      obtain ⟨ownAdmits, othersAdmit⟩ := List.forall_mem_cons.mp admitted
      have first : Stmt.FormedList loop _ := Lowers.formed own ownAdmits (by
        rintro ⟨⟩)
      exact first.append (LowersRow.formed loop others othersAdmit)

theorem Decides.formed {loop tail : Bool} {scope : List Name} {subject : Var}
    {alts : List Alt} {before after : State} {value : Term} {code : List Stmt}
    (decides : Decides context has scope subject alts before value after code)
    (admitted : ∀ alt ∈ alts, alt.body.Admits (Expr.Sound Term.IsPresent) tail)
    (inLoop : tail = true → loop = true) : Stmt.FormedList loop code := by
  match decides with
  | .lone body =>
      exact Lowers.formed body (admitted _ List.mem_cons_self) inLoop
  | .dispatch dispatches =>
      exact (Dispatches.formed dispatches admitted inLoop).2

theorem Dispatches.formed {loop tail : Bool} {scope : List Name}
    {subject result : Var} {alts : List Alt} {before after : State}
    {code : List Stmt}
    (dispatches : Dispatches context has scope subject result alts before after
      code)
    (admitted : ∀ alt ∈ alts, alt.body.Admits (Expr.Sound Term.IsPresent) tail)
    (inLoop : tail = true → loop = true) :
    code ≠ [] ∧ Stmt.FormedList loop code := by
  match dispatches with
  | .chain nonempty ordered within arms =>
      have clauses := LowersArms.formed arms
        (fun alt member => admitted alt (within member)) inLoop ordered nonempty
      exact ⟨List.cons_ne_nil _ _, clauses, trivial⟩
  | .split low high =>
      obtain ⟨lowSome, lowFormed⟩ := Dispatches.formed low admitted inLoop
      obtain ⟨highSome, highFormed⟩ := Dispatches.formed high admitted inLoop
      refine ⟨List.cons_ne_nil _ _, ⟨?_, lowSome, lowFormed, ?_, highSome,
        highFormed, rfl⟩, trivial⟩
      · rintro ⟨⟩
      · exact fun _ => ⟨rfl, rfl⟩

theorem LowersArms.formed {loop tail : Bool} {scope : List Name}
    {subject result : Var} {alts : List Alt} {before after : State}
    {clauses : List Clause}
    (arms : LowersArms context has scope subject result alts before after
      clauses)
    (admitted : ∀ alt ∈ alts, alt.body.Admits (Expr.Sound Term.IsPresent) tail)
    (inLoop : tail = true → loop = true) {leading : Bool}
    (ordered : Pattern.Ordered leading (alts.map Alt.pattern))
    (nonempty : alts ≠ []) :
    Stmt.FormedClauses loop leading (clauses ++ unmatched alts) := by
  match arms with
  | .nil => exact (nonempty rfl).elim
  | .cons guardIs body others =>
      obtain ⟨ownAdmits, othersAdmit⟩ := List.forall_mem_cons.mp admitted
      obtain ⟨last, orderedOthers⟩ := ordered
      have bodyFormed := Lowers.formed body ownAdmits inLoop
      have outcome :=
        body.meets (Term.closed_isPresent.kept context).keptOn ownAdmits
      refine ⟨fun untested => ?_, suite_ne_nil outcome _ _, ?_, ?_⟩
      · rw [Pattern.isOtherwise_guard guardIs] at untested
        obtain ⟨follows, noMore⟩ := last untested
        rw [Alt.isDefault_pattern] at untested
        obtain rfl := List.map_eq_nil_iff.mp noMore
        refine ⟨follows, ?_⟩
        rw [others.eq_nil rfl, unmatched_default untested]
        rfl
      · exact ((formed_unpackCode _ _).append bodyFormed).append
          (formed_assigned _ _)
      · exact formed_remaining others.eq_nil
          (LowersArms.formed others othersAdmit inLoop orderedOthers)

end

end Formed

namespace Function

variable {function : Function} {tags : TagTable} {block : Block}

/-- The code of a function is formed in the loop of the function. -/
theorem lower_formed (lowered : function.lower tags = .ok block) :
    Stmt.FormedList true block.statements := by
  obtain ⟨after, ran⟩ := lower_eq_ok lowered
  exact (Expr.lowers ran).formed
    (Expr.Sound.admits_marked function.name fun _ _ _ => rfl) fun _ => rfl

theorem ne_nil_of_restart (lowered : function.lower tags = .ok block)
    (restarted : block.value.isRestart = true) : block.statements ≠ [] := by
  have outcome :=
    outcome (Term.closed_isPresent.kept _) (fun _ _ => rfl) lowered
  rcases outcome.good with present | ⟨-, -, before, ended⟩
  · cases restarted.symm.trans present
  · rw [ended]
    exact List.append_ne_nil_of_right_ne_nil _ (List.cons_ne_nil _ _)

end Function

end TailLoop
