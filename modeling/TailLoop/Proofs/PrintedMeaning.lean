import TailLoop.Proofs.CodeShape
import TailLoop.Proofs.MeaningPreservation
import TailLoop.Proofs.SuiteReading

/-!
# What printed functions compute

Functions whose bodies call functions, bind and take apart values and operate on
integers and strings are lowered to code that is read back from its printed
lines.  If a program has no other functions, then the functions that are read
from its script return what the calls in the program have as their values.
-/

namespace TailLoop

namespace Code

open Reading

theorem Guard.Readable.mono {scope wider : List Var} (subset : scope ⊆ wider)
    {guard : Guard} (readable : guard.Readable scope) :
    guard.Readable wider := by
  cases readable with
  | hasTag tag ctor => exact .hasTag tag ctor
  | equals value => exact .equals (value.mono subset)
  | tagBelow tag => exact .tagBelow tag
  | otherwise => exact .otherwise

mutual

theorem Stmt.Readable.mono {scope wider : List Var} (subset : scope ⊆ wider)
    {stmt : Stmt} (readable : stmt.Readable scope) : stmt.Readable wider := by
  match readable with
  | .assign known value => exact .assign (subset known) (value.mono subset)
  | .unpack nonempty known subject =>
      exact .unpack nonempty (fun target member => subset (known target member))
        (subset subject)
  | .rebind nonempty known values =>
      exact .rebind nonempty (fun target member => subset (known target member))
        fun value member => (values value member).mono subset
  | .continue => exact .continue
  | .unreachable => exact .unreachable
  | .branch known test each =>
      exact .branch (subset known) test fun clause member =>
        (each clause member).mono subset

theorem Clause.Readable.mono {scope wider : List Var} (subset : scope ⊆ wider)
    {clause : Clause} (readable : clause.Readable scope) :
    clause.Readable wider := by
  match readable with
  | .mk guard nonempty each =>
      exact .mk (guard.mono subset) nonempty fun stmt member =>
        (each stmt member).mono subset

end

theorem Guard.Readable.widens (guard : Guard) : Widens (guard.Readable ·) :=
  fun _ _ subset readable => readable.mono subset

theorem Stmt.Readable.widens (stmt : Stmt) : Widens (stmt.Readable ·) :=
  fun _ _ subset readable => readable.mono subset

theorem Clause.Readable.widens (clause : Clause) :
    Widens (clause.Readable ·) :=
  fun _ _ subset readable => readable.mono subset

theorem Block.Readable.widens (block : Block) : Widens (block.Readable ·) :=
  fun _ _ subset readable =>
    ⟨fun stmt member => (readable.statements stmt member).mono subset,
      fun present => (readable.value present).mono subset⟩

/-- Terms and tests are read back, and no functions are defined. -/
def Requirement.readable : Requirement where
  term := Term.IsReadable
  test := fun guard => ∃ scope, guard.Readable scope
  frozen := fun _ => False

namespace Stmt

mutual

/-- Formed code whose terms and tests are read back is read back. -/
theorem exists_readable {loop : Bool} {stmt : Stmt} (formed : stmt.Formed loop)
    (meets : stmt.Meets .readable) : ∃ scope, stmt.Readable scope := by
  cases stmt with
  | assign target value =>
      obtain ⟨scope, readable⟩ := meets
      exact ⟨target :: scope, .assign List.mem_cons_self
        (readable.mono (List.subset_cons_self target scope))⟩
  | unpack targets subject =>
      refine ⟨subject :: targets.map Var.named, .unpack formed ?_
        List.mem_cons_self⟩
      exact fun target member =>
        List.mem_cons_of_mem _ (List.mem_map_of_mem member)
  | rebind targets values =>
      obtain ⟨scope, readable⟩ :=
        Widens.exists_forall Term.Readable.widens meets
      refine ⟨targets.map Var.named ++ scope, .rebind formed ?_ ?_⟩
      · exact fun target member =>
          List.mem_append_left _ (List.mem_map_of_mem member)
      · exact fun value member =>
          (readable value member).mono (List.subset_append_right ..)
  | «continue» => exact ⟨[], .continue⟩
  | unreachable => exact ⟨[], .unreachable⟩
  | branch subject clauses =>
      obtain ⟨scope, readable⟩ := Widens.exists_forall Clause.Readable.widens
        (exists_readable_clauses formed meets)
      cases clauses with
      | nil => cases formed
      | cons clause clauses =>
          obtain ⟨guard, body⟩ := clause
          refine ⟨subject :: scope, .branch List.mem_cons_self ?_ ?_⟩
          · rintro rfl
            obtain ⟨leading, -⟩ := formed.1 rfl
            cases leading
          · exact fun clause member => (readable clause member).mono
              (List.subset_cons_self subject scope)
  | define name params frozen body result =>
      obtain ⟨-, -, ⟨⟩⟩ := meets

theorem exists_readable_list {loop : Bool} {stmts : List Stmt}
    (formed : FormedList loop stmts) (meets : MeetsList .readable stmts) :
    ∀ stmt ∈ stmts, ∃ scope, stmt.Readable scope := by
  cases stmts with
  | nil => exact List.forall_mem_nil _
  | cons stmt stmts =>
      exact List.forall_mem_cons.mpr ⟨exists_readable formed.1 meets.1,
        exists_readable_list formed.2 meets.2⟩

theorem exists_readable_clauses {loop leading : Bool} {clauses : List Clause}
    (formed : FormedClauses loop leading clauses)
    (meets : MeetsClauses .readable clauses) :
    ∀ clause ∈ clauses, ∃ scope, clause.Readable scope := by
  cases clauses with
  | nil => exact List.forall_mem_nil _
  | cons clause clauses =>
      obtain ⟨guard, body⟩ := clause
      obtain ⟨-, nonempty, bodyFormed, othersFormed⟩ := formed
      obtain ⟨test, bodyMeets, othersMeet⟩ := meets
      obtain ⟨scope, own, suite⟩ := Widens.exists_and
        (Guard.Readable.widens guard) (Widens.forall Stmt.Readable.widens body)
        test (Widens.exists_forall Stmt.Readable.widens
          (exists_readable_list bodyFormed bodyMeets))
      exact List.forall_mem_cons.mpr ⟨⟨scope, .mk own nonempty suite⟩,
        exists_readable_clauses othersFormed othersMeet⟩

end

end Stmt

end Code

open Code Code.Reading Lowering

def Const.isReadable : Const → Bool
  | .int _ => true
  | .bigInt _ => true
  | .char _ => true
  | .string _ => true
  | _ => false

theorem Const.isReadable_term {const : Const}
    (readable : const.isReadable = true) : const.term.IsReadable := by
  cases const with
  | int value => exact ⟨[], .int value⟩
  | bigInt value => exact ⟨[], .int value⟩
  | char value => exact ⟨[], .str [value]⟩
  | string value => exact ⟨[], .str value⟩
  | _ => cases readable

def Pattern.isReadable : Pattern → Bool
  | .const value => value.isReadable
  | _ => true

theorem Pattern.exists_readable_guard {pattern : Pattern}
    (readable : pattern.isReadable = true) {tags : TagTable} {guard : Guard}
    (made : pattern.guard? tags = some guard) :
    ∃ scope, guard.Readable scope := by
  cases pattern with
  | con ctor args =>
      obtain ⟨tag, -, rfl⟩ := Option.map_eq_some_iff.mp made
      exact ⟨[], .hasTag tag ctor⟩
  | const value =>
      cases made
      obtain ⟨scope, inScope⟩ := Const.isReadable_term readable
      exact ⟨scope, .equals inScope⟩
  | default =>
      cases made
      exact ⟨[], .otherwise⟩

/-- The operation on two values has a sign of its own. -/
def Prim.isReadable : Prim → Bool
  | .standard op kind => (op.binary? kind).isSome || op.compare?.isSome
  | .external _ _ => false

theorem Prim.isReadable_term {prim : Prim} (readable : prim.isReadable = true)
    {left right : Term} (first : left.IsReadable)
    (second : right.IsReadable) : (prim.term [left, right]).IsReadable := by
  cases prim with
  | external name kind => cases readable
  | standard op kind =>
      rw [Prim.term, PrimOp.binaryTerm?]
      cases binary : op.binary? kind with
      | some op => exact .binary op first second
      | none =>
          cases compare : op.compare? with
          | some op => exact .compare op first second
          | none =>
              rw [isReadable, binary, compare] at readable
              cases readable

namespace Expr

/-- Code of this form is read back if the code of its parts is. -/
def isReadable : Expr → Bool
  | .var _ => true
  | .app _ _ _ => true
  | .force _ => true
  | .letIn _ _ _ => true
  | .con _ _ _ => true
  | .case _ alts => alts.all fun alt => alt.pattern.isReadable
  | .proj _ _ => true
  | .lit const => const.isReadable
  | .op prim args => prim.isReadable && args.length == 2
  | _ => false

@[simp] theorem isReadable_unmarked (expr : Expr) :
    expr.unmarked.isReadable = expr.isReadable := by
  cases expr with
  | case scrutinee alts =>
      rw [unmarked, isReadable, isReadable, unmarkedAlts_eq_map, List.all_map]
      refine List.all_congr rfl fun alt => ?_
      cases alt <;> rfl
  | op prim args =>
      rw [unmarked, isReadable, isReadable, unmarkedList_eq_map,
        List.length_map]
  | _ => rfl

@[simp] theorem isReadable_marked (function : Name) (expr : Expr) :
    (expr.marked function).isReadable = expr.isReadable := by
  rw [← isReadable_unmarked, unmarked_marked, isReadable_unmarked]

/-- A readable form, which restarts the function in tail position only. -/
structure AllowsReading (tail : Bool) (expr : Expr) : Prop where
  form : expr.isReadable = true
  restart : expr.isTailCall = true → tail = true

theorem allowsReading_unmarked {expr : Expr}
    (readable : expr.isReadable = true) (tail : Bool) :
    AllowsReading tail expr.unmarked where
  form := expr.isReadable_unmarked.trans readable
  restart := by cases expr <;> rintro ⟨⟩

theorem isReadable_callee (source : Expr) {term : Term}
    (readable : term.IsReadable) : (callee source term).IsReadable := by
  rw [callee]
  split
  · exact readable
  · exact .paren readable

/-- The value of a row form is read back if the values of its operands are. -/
theorem isReadable_result {context : Context} {expr : Expr} {form : RowForm}
    (readable : expr.isReadable = true)
    (isRow : expr.rowForm? context = some form)
    (silent : form.ending = fun _ => []) {values : List Term}
    (counted : values.length = form.operands.length)
    (each : ∀ value ∈ values, value.IsReadable) :
    (form.result values).IsReadable := by
  have first : form.operands ≠ [] → (values.headD .none).IsReadable := by
    intro some
    cases values with
    | nil => exact (some (List.length_eq_zero_iff.mp counted.symm)).elim
    | cons value values => exact each value List.mem_cons_self
  cases expr with
  | var v =>
      cases isRow
      exact .var v
  | app func args tail =>
      rw [rowForm?] at isRow
      split at isRow
      · split at isRow
        · cases isRow
          cases congrFun silent []
        · cases isRow
      · cases isRow
        exact .call (isReadable_callee func (first (List.cons_ne_nil _ _)))
          fun value member => each value (List.mem_of_mem_tail member)
  | force body =>
      cases isRow
      exact .call (isReadable_callee body (first (List.cons_ne_nil _ _)))
        (List.forall_mem_nil _)
  | con name args remark =>
      obtain ⟨tag, -, rfl⟩ := Option.map_eq_some_iff.mp isRow
      exact .tuple (List.forall_mem_cons.mpr ⟨⟨[], .int tag⟩, each⟩)
  | proj body index =>
      rw [rowForm?] at isRow
      split at isRow
      · cases isRow
      · cases isRow
        exact .item _ (first (List.cons_ne_nil _ _))
  | lit const =>
      cases isRow
      exact Const.isReadable_term readable
  | op prim args =>
      cases isRow
      rw [isReadable, Bool.and_eq_true, beq_iff_eq] at readable
      obtain ⟨left, right, rfl⟩ :=
        List.length_eq_two.mp (counted.trans readable.2)
      obtain ⟨own, other⟩ := List.forall_mem_cons.mp each
      exact Prim.isReadable_term readable.1 own
        (List.forall_mem_singleton.mp other)
  | letIn | case => cases isRow
  | _ => cases readable

end Expr

/-- Readable expressions are lowered to code that is read back. -/
theorem Code.Requirement.keptOn_readable (context : Context) :
    Requirement.readable.KeptOn context Expr.AllowsReading where
  row allowed isRow silent _ counted each :=
    Expr.isReadable_result allowed.form isRow silent counted each
  restart allowed := .inl (allowed.restart rfl)
  deferral {_ expr _ _} admits isDeferred := by
    have form := admits.allowed.form
    cases expr with
    | lam | lazy | lazyApp => cases form
    | _ => cases isDeferred
  case allowed alt member guard made :=
    Pattern.exists_readable_guard
      (List.all_eq_true.mp allowed.form alt member) made
  var v := .var v
  tagBelow pivot := ⟨[], .tagBelow pivot⟩
  otherwise := ⟨[], .otherwise⟩

namespace Function

/-- All parts of the body are of readable forms. -/
def isReadable (function : Function) : Bool :=
  function.body.subexprs.all Expr.isReadable

theorem exists_readable {function : Function} {tags : TagTable} {block : Block}
    (readable : function.isReadable = true)
    (lowered : function.lower tags = .ok block) :
    ∃ scope, block.Readable scope := by
  have part : ∀ part, function.body.Contains part → part.isReadable = true :=
    fun part within => List.all_eq_true.mp readable part
      ((Expr.mem_subexprs_iff _).mpr within)
  have admits : (function.body.marked function.name).Admits
      Expr.AllowsReading true :=
    .marked function.name
      (fun own within => Expr.allowsReading_unmarked (part own within))
      fun own within =>
        ⟨(own.isReadable_marked _).trans (part own within), fun _ => rfl⟩
  obtain ⟨after, ran⟩ := lower_eq_ok lowered
  have outcome := (Expr.lowers ran).meets
    (Requirement.keptOn_readable (function.context tags)) admits
  have value : ∃ scope, block.value.isRestart = false →
      block.value.Readable scope := by
    rcases outcome.good with ⟨scope, inScope⟩ | ⟨-, restart, -⟩
    · exact ⟨scope, fun _ => inScope⟩
    · refine ⟨[], fun present => ?_⟩
      rw [restart] at present
      cases present
  have valueWidens : Widens fun scope => block.value.isRestart = false →
      block.value.Readable scope :=
    fun _ _ subset known present => (known present).mono subset
  obtain ⟨scope, statements, result⟩ := Widens.exists_and
    (Widens.forall Stmt.Readable.widens block.statements) valueWidens
    (Widens.exists_forall Stmt.Readable.widens
      (Stmt.exists_readable_list (lower_formed lowered) outcome.meets)) value
  exact ⟨scope, statements, result⟩

/-- One scope is enough for all functions. -/
theorem exists_readable_of_forall₂ {tags : TagTable}
    {functions : List Function} {module : Module}
    (defined : List.Forall₂ (IsDefinedBy tags) functions module)
    (readable : ∀ function ∈ functions, function.isReadable = true) :
    ∃ scope, ∀ definition ∈ module, definition.body.Readable scope := by
  refine Widens.exists_forall (fun definition : Definition =>
    Block.Readable.widens definition.body) ?_
  induction defined with
  | nil => exact List.forall_mem_nil _
  | cons first _ ih =>
      obtain ⟨own, others⟩ := List.forall_mem_cons.mp readable
      obtain ⟨block, lowered, rfl⟩ := first
      exact List.forall_mem_cons.mpr ⟨exists_readable own lowered, ih others⟩

end Function

/-- If all functions of a program are readable, then the functions that are read
from their printed lines return the values that calls have in the program, and
no others. -/
theorem Program.exists_read_returns {program : Program} {tags : TagTable}
    {module : Module}
    (distinct : (program.functions.map Function.name).Nodup)
    (named : program.WellNamed)
    (readable : ∀ function ∈ program.functions, function.isReadable = true)
    (ran : Function.definitions tags program.functions = .ok module)
    (options : ScriptOptions) (ctor : Name) :
    ∃ scope texts read,
      List.Forall₂ (fun function texts => function.lines options tags =
        .ok texts) program.functions texts ∧
      texts.mapM (definition? scope ctor) = some read ∧
      ∀ function ∈ program.functions, ∃ definition,
        Module.find? read function.name.identifier = some definition ∧
        ∀ args value, Applies program tags function args value → ∀ result,
          definition.Returns read args result ↔ result = value := by
  have linked := named.linked distinct ran
  have defined := Function.definitions_eq_ok ran
  obtain ⟨scope, inScope⟩ :=
    Function.exists_readable_of_forall₂ defined readable
  obtain ⟨texts, read, printed, reads, returns⟩ :=
    Function.exists_lines_returns options defined inScope ctor
  refine ⟨scope, texts, read, printed, reads, fun function member => ?_⟩
  obtain ⟨block, lowered, found⟩ :=
    Function.find?_of_definitions distinct ran member
  obtain ⟨definition, foundRead, sameReturns⟩ := returns _ _ found
  refine ⟨definition, foundRead, fun args value applies result => ?_⟩
  have hosts : Hosts program tags function (function.definition block) :=
    ⟨Program.function?_of_mem distinct member, block, lowered, rfl⟩
  have own := sameReturns args value (hosts.returns linked applies)
  constructor
  · intro other
    exact other.unique own
  · rintro rfl
    exact own

example : Function.isReadable ⟨.user "f", [.user "n"],
    .case (.var (.named (.user "n")))
      [.const (.int 0) (.lit (.string "a")),
        .default (.app (.var (.named (.user "f")))
          [.op (.standard .minus .int) [.var (.named (.user "n")),
            .lit (.int 1)]] false)]⟩ = true := by
  decide

end TailLoop
