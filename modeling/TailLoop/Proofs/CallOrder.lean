import Mathlib.Data.List.Perm.Basic
import TailLoop.Proofs.LoweringSteps
import TailLoop.Proofs.PrintedText

/-!
# The order of foreign calls

An expression of foreign calls, variables, constructed values, bindings and case
analyses with nothing but a default calls its foreign functions in a fixed
order.  Lowering moves the calls of bound values and scrutinees into statements,
which run before the term for the value is evaluated.  So the calls keep their
order exactly if no constructed value has a field that leaves a call in its term
before a field that moves one into a statement.
-/

namespace TailLoop

namespace Code

namespace Term

mutual

/-- The parts of a term that are given as text, as they are printed from left to
right.  The arguments of an operation without code are quoted in a message. -/
@[simp] def verbatims : Term → List Text
  | .verbatim source => [source]
  | .paren body => verbatims body
  | .call callee args => verbatims callee ++ verbatimsList args
  | .tuple items => verbatimsList items
  | .item body _ => verbatims body
  | .binary _ left right => verbatims left ++ verbatims right
  | .compare _ left right => verbatims left ++ verbatims right
  | .unary _ arg => verbatims arg
  | .write arg => verbatims arg
  | .thunk _ body => verbatims body
  | .lambda _ _ body => verbatims body
  | .unsupported _ _ => []
  | .var _ | .int _ | .float _ | .str _ | .none | .restart | .raise
      _ | .readLine => []

@[simp] def verbatimsList : List Term → List Text
  | [] => []
  | term :: terms => verbatims term ++ verbatimsList terms

end

@[simp] theorem verbatimsList_eq_flatMap (terms : List Term) :
    verbatimsList terms = terms.flatMap verbatims := by
  induction terms with
  | nil => rfl
  | cons term terms ih => rw [verbatimsList, List.flatMap_cons, ih]

end Term

@[simp] def Guard.verbatims : Guard → List Text
  | .equals value => value.verbatims
  | _ => []

namespace Stmt

mutual

@[simp] def verbatims : Stmt → List Text
  | .assign _ value => value.verbatims
  | .unpack _ _ => []
  | .rebind _ values => Term.verbatimsList values
  | .continue => []
  | .unreachable => []
  | .branch _ clauses => verbatimsClauses clauses
  | .define _ _ _ body result => verbatimsList body ++ result.verbatims

@[simp] def verbatimsList : List Stmt → List Text
  | [] => []
  | stmt :: stmts => verbatims stmt ++ verbatimsList stmts

@[simp] def verbatimsClauses : List Clause → List Text
  | [] => []
  | .mk guard body :: clauses =>
      guard.verbatims ++ verbatimsList body ++ verbatimsClauses clauses

end

theorem verbatimsList_append (first second : List Stmt) :
    verbatimsList (first ++ second) = verbatimsList first ++
      verbatimsList second := by
  induction first with
  | nil => rfl
  | cons stmt first ih =>
      simp [ih]

end Stmt

end Code

namespace Expr

mutual

/-- Evaluation calls these foreign functions, in this order: fields from left to
right, a bound value before the body, a scrutinee before the branch. -/
inductive Performs (tags : TagTable) : Expr → List Text → Prop where
  | var (v : Var) : Performs tags (.var v) []
  | foreign (function : Text) : Performs tags (.foreign (.named function) [])
      [function]
  | con {name : Name} {fields : List Expr} {remark : Option Int} {tag : Int}
      {calls : List Text} :
      tags.tagOf? name = some tag →
      PerformsAll tags fields calls →
      Performs tags (.con name fields remark) calls
  | letIn {name : Name} {value body : Expr} {first rest : List Text} :
      Performs tags value first →
      Performs tags body rest →
      Performs tags (.letIn name value body) (first ++ rest)
  | case {scrutinee body : Expr} {first rest : List Text} :
      Performs tags scrutinee first →
      Performs tags body rest →
      Performs tags (.case scrutinee [.default body]) (first ++ rest)

inductive PerformsAll (tags : TagTable) : List Expr → List Text → Prop where
  | nil : PerformsAll tags [] []
  | cons {expr : Expr} {exprs : List Expr} {first rest : List Text} :
      Performs tags expr first →
      PerformsAll tags exprs rest →
      PerformsAll tags (expr :: exprs) (first ++ rest)

end

mutual

/-- The calls that are left in the term for the value. -/
def pending : Expr → List Text
  | .foreign (.named function) _ => [function]
  | .con _ fields _ => pendingList fields
  | .letIn _ _ body => pending body
  | .case _ [.default body] => pending body
  | _ => []

def pendingList : List Expr → List Text
  | [] => []
  | expr :: exprs => pending expr ++ pendingList exprs

end

mutual

/-- The calls that are moved into statements. -/
def hoisted : Expr → List Text
  | .con _ fields _ => hoistedList fields
  | .letIn _ value body => hoisted value ++ pending value ++ hoisted body
  | .case scrutinee [.default body] =>
      hoisted scrutinee ++ pending scrutinee ++ hoisted body
  | _ => []

def hoistedList : List Expr → List Text
  | [] => []
  | expr :: exprs => hoisted expr ++ hoistedList exprs

end

mutual

/-- No constructed value has a field with a call left in its term before fields
with calls in their statements. -/
def Orderly : Expr → Prop
  | .con _ fields _ => OrderlyList fields
  | .letIn _ value body => Orderly value ∧ Orderly body
  | .case scrutinee [.default body] => Orderly scrutinee ∧ Orderly body
  | _ => True

def OrderlyList : List Expr → Prop
  | [] => True
  | expr :: exprs =>
      Orderly expr ∧ (pending expr = [] ∨ hoistedList exprs = []) ∧
        OrderlyList exprs

end

mutual

theorem Performs.perm {tags : TagTable} {expr : Expr} {calls : List Text}
    (performed : Performs tags expr calls) :
    (expr.hoisted ++ expr.pending).Perm calls := by
  cases performed with
  | var v => simp only [hoisted, pending, List.append_nil, List.Perm.refl]
  | foreign function =>
      simp only [hoisted, pending, List.nil_append, List.Perm.refl]
  | con declared fields =>
      rw [hoisted, pending]
      exact fields.perm
  | letIn first rest =>
      rw [hoisted, pending, List.append_assoc]
      exact first.perm.append rest.perm
  | case first rest =>
      rw [hoisted, pending, List.append_assoc]
      exact first.perm.append rest.perm

theorem PerformsAll.perm {tags : TagTable} {exprs : List Expr}
    {calls : List Text} (performed : PerformsAll tags exprs calls) :
    (hoistedList exprs ++ pendingList exprs).Perm calls := by
  cases performed with
  | nil => rw [hoistedList, pendingList, List.append_nil]
  | @cons expr exprs _ _ first rest =>
      have swapped : (hoisted expr ++ hoistedList exprs ++
          (pending expr ++ pendingList exprs)).Perm
          (hoisted expr ++ pending expr ++
            (hoistedList exprs ++ pendingList exprs)) := by
        simp only [List.append_assoc]
        refine List.Perm.append_left _ ?_
        simp only [← List.append_assoc]
        exact List.Perm.append_right _ List.perm_append_comm
      rw [hoistedList, pendingList]
      exact swapped.trans (first.perm.append rest.perm)

end

/-- Two rows of calls that were split in two keep their order only if the second
part of the first row or the first part of the second row is empty. -/
theorem interleaved_eq_iff {moved left moved' left' row row' : List Text}
    (own : (moved ++ left).Perm row) (other : (moved' ++ left').Perm row')
    (distinct : (row ++ row').Nodup) :
    moved ++ moved' ++ (left ++ left') = row ++ row' ↔
      moved ++ left = row ∧ (left = [] ∨ moved' = []) ∧
      moved' ++ left' = row' := by
  constructor
  · intro same
    have apart : left = [] ∨ moved' = [] := by
      cases left with
      | nil => exact .inl rfl
      | cons call left =>
          cases moved' with
          | nil => exact .inr rfl
          | cons early moved' =>
              exfalso
              have longer := own.length_eq
              simp only [List.length_append, List.length_cons] at longer
              rw [List.append_assoc, List.append_eq_append_iff] at same
              rcases same with ⟨more, rfl, rests⟩ | ⟨more, rfl, -⟩
              · cases more with
                | nil =>
                    simp only [List.append_nil] at longer
                    omega
                | cons first more =>
                    obtain ⟨rfl, -⟩ := List.cons.inj rests
                    have inSecond : early ∈ row' :=
                      other.subset (List.mem_append_left _ List.mem_cons_self)
                    have inFirst : early ∈ moved ++ early :: more :=
                      List.mem_append_right _ List.mem_cons_self
                    exact (List.nodup_append.mp distinct).2.2 early inFirst
                      early inSecond rfl
              · simp only [List.length_append] at longer
                omega
    have straight : moved ++ moved' ++ (left ++ left') = moved ++ left ++
        (moved' ++ left') := by
      rcases apart with rfl | rfl <;> simp
    obtain ⟨first, second⟩ := List.append_inj (straight ▸ same) own.length_eq
    exact ⟨first, apart, second⟩
  · rintro ⟨rfl, rfl | rfl, rfl⟩ <;> simp

mutual

theorem Performs.hoisted_append_pending_eq_iff {tags : TagTable} {expr : Expr}
    {calls : List Text} (performed : Performs tags expr calls)
    (distinct : calls.Nodup) :
    expr.hoisted ++ expr.pending = calls ↔ expr.Orderly := by
  cases performed with
  | var v => simp only [hoisted, pending, Orderly, List.append_nil]
  | foreign function => simp only [hoisted, pending, Orderly, List.nil_append]
  | con declared fields =>
      rw [hoisted, pending, Orderly]
      exact fields.hoisted_append_pending_eq_iff distinct
  | letIn first rest | case first rest =>
      obtain ⟨firstDistinct, restDistinct, -⟩ := List.nodup_append.mp distinct
      rw [hoisted, pending, Orderly, List.append_assoc,
        ← first.hoisted_append_pending_eq_iff firstDistinct,
        ← rest.hoisted_append_pending_eq_iff restDistinct]
      constructor
      · intro same
        exact List.append_inj same first.perm.length_eq
      · rintro ⟨sameFirst, sameRest⟩
        rw [sameFirst, sameRest]

theorem PerformsAll.hoisted_append_pending_eq_iff {tags : TagTable}
    {exprs : List Expr} {calls : List Text}
    (performed : PerformsAll tags exprs calls) (distinct : calls.Nodup) :
    hoistedList exprs ++ pendingList exprs = calls ↔ OrderlyList exprs := by
  cases performed with
  | nil => simp only [hoistedList, pendingList, OrderlyList, List.append_nil]
  | cons first rest =>
      obtain ⟨firstDistinct, restDistinct, -⟩ := List.nodup_append.mp distinct
      rw [hoistedList, pendingList, OrderlyList,
        ← first.hoisted_append_pending_eq_iff firstDistinct,
        ← rest.hoisted_append_pending_eq_iff restDistinct]
      exact interleaved_eq_iff first.perm rest.perm distinct

end

end Expr

namespace Code

/-- A variable, a foreign call without arguments or a tuple of such terms. -/
inductive Term.Plain : Term → Prop where
  | var (v : Var) : Plain (.var v)
  | call (function : Text) : Plain (.call (.verbatim function) [])
  | tuple (tag : Int) {fields : List Term} :
      (∀ field ∈ fields, Plain field) →
      Plain (.tuple (.int tag :: fields))

theorem Term.Plain.isRestart {term : Term} (plain : term.Plain) :
    term.isRestart = false := by
  cases plain <;> rfl

/-- An assignment of a plain term. -/
def Stmt.IsPlainAssign (stmt : Stmt) : Prop :=
  ∃ target value, stmt = .assign target value ∧ value.Plain

end Code

namespace Expr

open Lowering Code

/-- What is known of the code of an expression. -/
structure Straightened (expr : Expr) (value : Term) (code : List Stmt) :
    Prop where
  plain : value.Plain
  assigns : ∀ stmt ∈ code, stmt.IsPlainAssign
  left : value.verbatims = expr.pending
  moved : Stmt.verbatimsList code = expr.hoisted

structure StraightenedAll (exprs : List Expr) (values : List Term)
    (code : List Stmt) :
    Prop where
  plain : ∀ value ∈ values, value.Plain
  assigns : ∀ stmt ∈ code, stmt.IsPlainAssign
  left : Term.verbatimsList values = pendingList exprs
  moved : Stmt.verbatimsList code = hoistedList exprs

/-- The value is stored before the body runs. -/
theorem Straightened.sequence {first second expr : Expr} {value result : Term}
    {code further : List Stmt} (target : Var)
    (stored : first.Straightened value code)
    (rest : second.Straightened result further)
    (moved : expr.hoisted = first.hoisted ++ first.pending ++ second.hoisted)
    (left : expr.pending = second.pending) :
    expr.Straightened result (code ++ ([.assign target value] ++ further)) := by
  refine ⟨rest.plain, ?_, rest.left.trans left.symm, ?_⟩
  · intro stmt member
    rcases List.mem_append.mp member with early | member
    · exact stored.assigns stmt early
    · rcases List.mem_append.mp member with own | late
      · exact ⟨target, value, List.mem_singleton.mp own, stored.plain⟩
      · exact rest.assigns stmt late
  · simp [Stmt.verbatimsList_append, stored.moved, rest.moved, moved,
      stored.left]

@[simp] theorem decision_default (context : Context) (subject : Var)
    (body : Expr) :
    decision context subject (lowerAlts context [.default body]) =
      body.lower context := by
  funext state
  change Lowering.bind (Lowering.pure ()) (fun _ => body.lower context) state =
    _
  cases ran : body.lower context state <;>
    simp only [Lowering.bind, Lowering.pure, ran, List.nil_append]

mutual

theorem Performs.lower {context : Context} {expr : Expr} {calls : List Text}
    (performed : Performs context.tags expr calls) (state : State) :
    ∃ value after code, expr.lower context state = .ok (value, after, code) ∧
      expr.Straightened value code := by
  cases performed with
  | var v =>
      refine ⟨.var v, state, [], rfl, .var v, List.forall_mem_nil _, ?_, ?_⟩
      · simp [pending]
      · simp [hoisted]
  | foreign function =>
      refine ⟨.call (.verbatim function) [], state, [], rfl, .call function,
        List.forall_mem_nil _, ?_, ?_⟩
      · simp [pending]
      · simp [hoisted]
  | @con name fields remark tag calls declared performedFields =>
      obtain ⟨values, after, code, ran, known⟩ :=
        performedFields.lowerList state
      refine ⟨.tuple (.int tag :: values), after, code, ?_,
        .tuple tag known.plain, known.assigns, ?_, ?_⟩
      · rw [Expr.lower]
        refine bind_eq_ok.mpr ⟨tag, state, [], code,
          tagOf_eq_ok.mpr ⟨declared, rfl, rfl⟩, ?_, rfl⟩
        exact bind_eq_ok.mpr ⟨values, after, code, [], ran, rfl,
          (List.append_nil code).symm⟩
      · rw [Term.verbatims, Term.verbatimsList, Term.verbatims, List.nil_append,
          known.left, pending]
      · rw [known.moved, hoisted]
  | @letIn name value body first rest performedValue performedBody =>
      obtain ⟨stored, middle, code, ran, known⟩ := performedValue.lower state
      obtain ⟨result, after, further, ranBody, knownBody⟩ := performedBody.lower
        { middle with bound := [name] ++ middle.bound }
      refine ⟨result, after, _, ?_,
        known.sequence (.named name) knownBody ?_ ?_⟩
      · rw [Expr.lower]
        refine bind_eq_ok.mpr ⟨stored, middle, code, _, ran, ?_, rfl⟩
        refine bind_eq_ok.mpr ⟨(), middle, [.assign (.named name) stored],
          further, ?_, ?_, rfl⟩
        · rw [assign_eq_ok, known.plain.isRestart]
          exact ⟨rfl, rfl⟩
        · exact bind_eq_ok.mpr ⟨(), _, [], further, rfl, ranBody, rfl⟩
      · rw [hoisted]
      · rw [pending]
  | @case scrutinee body first rest performedScrutinee performedBody =>
      cases compound : scrutinee.isVar with
      | true =>
          obtain ⟨subject, rfl⟩ : ∃ subject, scrutinee = .var subject := by
            cases scrutinee with
            | var subject => exact ⟨subject, rfl⟩
            | _ => cases compound
          obtain ⟨result, after, code, ran, known⟩ := performedBody.lower state
          refine ⟨result, after, code, ?_, known.plain, known.assigns, ?_, ?_⟩
          · rw [Expr.lower, decision_default]
            exact ran
          · rw [known.left, pending]
          · rw [known.moved]
            simp only [hoisted, pending, List.nil_append]
      | false =>
          obtain ⟨stored, middle, code, ran, known⟩ := performedScrutinee.lower
            { state with next := state.next + 1 }
          obtain ⟨result, after, further, ranBody, knownBody⟩ :=
            performedBody.lower middle
          refine ⟨result, after, _, ?_,
            known.sequence (.slot (-(state.next : Int))) knownBody ?_ ?_⟩
          · rw [lower_case_compound compound]
            simp only [decision_default]
            refine bind_eq_ok.mpr ⟨_, _, [], _, rfl, ?_, rfl⟩
            refine bind_eq_ok.mpr ⟨stored, middle, code, _, ran, ?_, rfl⟩
            refine bind_eq_ok.mpr ⟨(), middle, _, further, ?_, ranBody, rfl⟩
            rw [assign_eq_ok, known.plain.isRestart]
            exact ⟨rfl, rfl⟩
          · rw [hoisted]
          · rw [pending]

theorem PerformsAll.lowerList {context : Context} {exprs : List Expr}
    {calls : List Text} (performed : PerformsAll context.tags exprs calls)
    (state : State) :
    ∃ values after code, Expr.lowerList context exprs state =
      .ok (values, after, code) ∧
      StraightenedAll exprs values code := by
  cases performed with
  | nil =>
      refine ⟨[], state, [], rfl, List.forall_mem_nil _, List.forall_mem_nil _,
        ?_, ?_⟩
      · rw [Term.verbatimsList, pendingList]
      · rw [Stmt.verbatimsList, hoistedList]
  | @cons expr exprs first rest performedFirst performedRest =>
      obtain ⟨value, middle, code, ran, known⟩ := performedFirst.lower state
      obtain ⟨values, after, further, ranRest, knownRest⟩ :=
        performedRest.lowerList middle
      refine ⟨value :: values, after, code ++ further, ?_,
        List.forall_mem_cons.mpr ⟨known.plain, knownRest.plain⟩,
        List.forall_mem_append.mpr ⟨known.assigns, knownRest.assigns⟩, ?_, ?_⟩
      · rw [Expr.lowerList]
        refine bind_eq_ok.mpr ⟨value, middle, code, further, ran, ?_, rfl⟩
        exact bind_eq_ok.mpr ⟨values, after, further, [], ranRest, rfl,
          (List.append_nil further).symm⟩
      · rw [Term.verbatimsList, known.left, knownRest.left, pendingList]
      · rw [Stmt.verbatimsList_append, known.moved, knownRest.moved,
          hoistedList]

end

end Expr

namespace CodePoint

/-- The code points that end a word before an argument list. -/
def isDelimiter (c : CodePoint) : Bool :=
  c = '(' || c = ')' || c = ',' || c = ' '

theorem isDelimiter_of_isWordPoint {c : CodePoint}
    (word : c.isWordPoint = true) :
    c.isDelimiter = false := by
  rw [Bool.eq_false_iff]
  intro delimiter
  simp only [isDelimiter, Bool.or_eq_true, decide_eq_true_eq] at delimiter
  rcases delimiter with ((rfl | rfl) | rfl) | rfl <;> revert word <;> decide

end CodePoint

namespace Text

/-- A text without delimiters. -/
def IsCallable (text : Text) : Prop :=
  text.Only fun c => c.isDelimiter = false

theorem isCallable_ofInt (n : Int) : (ofInt n).IsCallable := by
  have digits (n : Nat) : (ofNat n).IsCallable :=
    (isWord_ofNat n).mono fun _ => CodePoint.isDelimiter_of_isWordPoint
  cases n with
  | ofNat n => exact digits n
  | negSucc n =>
      refine List.forall_mem_cons.mpr ⟨?_, digits (n + 1)⟩
      decide

theorem ofInt_ne_nil (n : Int) : ofInt n ≠ [] := by
  cases n with
  | ofNat n => exact ofNat_ne_nil n
  | negSucc n => exact List.cons_ne_nil _ _

theorem IsWord.isCallable {text : Text} (word : text.IsWord) :
    text.IsCallable :=
  word.mono fun _ => CodePoint.isDelimiter_of_isWordPoint

/-- How far a text was read: the word at hand, whether a parenthesis was opened
after it, and the words that stood before an empty argument list. -/
structure CallReader where
  word : Text
  opened : Bool
  calls : List Text

namespace CallReader

/-- The word at hand, unless it was left behind by a parenthesis. -/
def current (reader : CallReader) : Text :=
  if reader.opened then [] else reader.word

def step (reader : CallReader) (c : CodePoint) : CallReader :=
  if c = '(' then ⟨reader.current, true, reader.calls⟩
  else if c = ')' then
    ⟨[], false, if reader.opened then reader.calls ++ [reader.word] else
      reader.calls⟩
  else if c.isDelimiter then ⟨[], false, reader.calls⟩
  else ⟨reader.current ++ [c], false, reader.calls⟩

theorem step_of_not_isDelimiter (reader : CallReader) {c : CodePoint}
    (inWord : c.isDelimiter = false) :
    reader.step c = ⟨reader.current ++ [c], false, reader.calls⟩ := by
  have notOpen : c ≠ '(' := by
    rintro rfl
    revert inWord
    decide
  have notClose : c ≠ ')' := by
    rintro rfl
    revert inWord
    decide
  rw [step, if_neg notOpen, if_neg notClose, inWord]
  rfl

theorem foldl_callable {text : Text} (callable : text.IsCallable) (word : Text)
    (calls : List Text) :
    text.foldl step ⟨word, false, calls⟩ = ⟨word ++ text, false, calls⟩ := by
  induction text generalizing word with
  | nil => rw [List.foldl_nil, List.append_nil]
  | cons c text ih =>
      rw [List.foldl_cons,
        step_of_not_isDelimiter _ (callable c List.mem_cons_self),
        ih fun d member => callable d (List.mem_cons_of_mem _ member)]
      simp only [current, Bool.false_eq_true, if_false, List.append_assoc,
        List.cons_append, List.nil_append]

/-- After an opened parenthesis a new word begins. -/
theorem foldl_opened {text : Text} (callable : text.IsCallable)
    (some : text ≠ []) (word : Text) (calls : List Text) :
    text.foldl step ⟨word, true, calls⟩ = ⟨text, false, calls⟩ := by
  cases text with
  | nil => exact (some rfl).elim
  | cons c text =>
      rw [List.foldl_cons,
        step_of_not_isDelimiter _ (callable c List.mem_cons_self),
        foldl_callable fun d member =>
          callable d (List.mem_cons_of_mem _ member)]
      rfl

@[simp] theorem foldl_open (calls : List Text) :
    List.foldl step ⟨[], false, calls⟩ (Text.ofString "(") =
      ⟨[], true, calls⟩ :=
  rfl

@[simp] theorem foldl_comma (word : Text) (calls : List Text) :
    List.foldl step ⟨word, false, calls⟩ (Text.ofString ", ") =
      ⟨[], false, calls⟩ :=
  rfl

end CallReader

/-- The words that stand before an empty argument list, from left to right. -/
def emptyCalls (text : Text) : List Text :=
  (text.foldl CallReader.step ⟨[], false, []⟩).calls

/-- From a place between words the text reads as these calls. -/
def Reads (text : Text) (names : List Text) : Prop :=
  ∀ calls, ∃ word,
    text.foldl CallReader.step ⟨[], false, calls⟩ =
      ⟨word, false, calls ++ names⟩

namespace Reads

theorem emptyCalls_eq {text : Text} {names : List Text}
    (reads : Reads text names) :
    emptyCalls text = names := by
  obtain ⟨word, read⟩ := reads []
  rw [emptyCalls, read, List.nil_append]

theorem callable {text : Text} (callable : text.IsCallable) :
    Reads text [] := by
  intro calls
  rw [CallReader.foldl_callable callable, List.append_nil]
  exact ⟨_, rfl⟩

theorem call {name : Text} (callable : name.IsCallable) :
    Reads (Code.callText name []) [name] := by
  intro calls
  rw [Code.callText, Text.join, List.intercalate_nil, List.append_nil,
    List.foldl_append, List.foldl_append, CallReader.foldl_callable callable]
  exact ⟨[], rfl⟩

theorem separated {text rest : Text} {names names' : List Text}
    (first : Reads text names) (second : Reads rest names') : Reads
      (text ++ ", " ++ rest) (names ++ names') := by
  intro calls
  obtain ⟨word, readFirst⟩ := first calls
  obtain ⟨word', readSecond⟩ := second (calls ++ names)
  refine ⟨word', ?_⟩
  rw [List.foldl_append, List.foldl_append, readFirst, ← List.append_assoc]
  exact readSecond

theorem join {α : Type} {items : List α} {text : α → Text}
    {names : α → List Text}
    (each : ∀ item ∈ items, Reads (text item) (names item)) :
    Reads (Text.join ", " (items.map text)) (items.flatMap names) := by
  induction items with
  | nil => exact callable (List.forall_mem_nil _)
  | cons item items ih =>
      have own := each item List.mem_cons_self
      have others := ih fun later member =>
        each later (List.mem_cons_of_mem _ member)
      rw [List.flatMap_cons]
      cases items with
      | nil =>
          rw [List.flatMap_nil, List.append_nil, List.map_cons, List.map_nil,
            Text.join, List.intercalate_singleton]
          exact own
      | cons next items =>
          rw [List.map_cons, List.map_cons, Text.join,
            List.intercalate_cons_cons]
          exact own.separated others

/-- A tuple opens with a word that is no call. -/
theorem tuple {tag : Text} {fields : List Text} {names : List Text}
    (callable : tag.IsCallable) (some : tag ≠ [])
    (fieldsRead : Reads (Text.join ", " fields) names) :
    Reads (Code.tupleText (tag :: fields)) names := by
  intro calls
  obtain ⟨word, readFields⟩ := fieldsRead calls
  refine ⟨[], ?_⟩
  cases fields with
  | nil =>
      have nothing : names = [] := by
        have unchanged : calls = calls ++ names :=
          congrArg CallReader.calls readFields
        simpa using unchanged
      rw [Code.tupleText, List.foldl_append, List.foldl_append,
        CallReader.foldl_open, CallReader.foldl_opened callable some, nothing,
        List.append_nil]
      rfl
  | cons field fields =>
      rw [Code.tupleText, Text.join, List.intercalate_cons_cons,
        List.foldl_append, List.foldl_append, List.foldl_append,
        List.foldl_append, CallReader.foldl_open,
        CallReader.foldl_opened callable some, CallReader.foldl_comma,
        ← Text.join, readFields]
      · rfl
      · intro item same
        cases same

end Reads

end Text

namespace Code

/-- A plain term reads as the calls in it. -/
theorem Term.Plain.reads {term : Term} (plain : term.Plain)
    (callable : ∀ name ∈ term.verbatims, name.IsCallable) (restart : Text) :
    Text.Reads (term.text restart) term.verbatims := by
  induction plain with
  | var v => exact .callable v.isIdentifier_identifier.1.isCallable
  | call function => exact .call (callable function List.mem_cons_self)
  | @tuple tag fields plainFields ih =>
      rw [Term.verbatims, Term.verbatimsList, Term.verbatims, List.nil_append,
        Term.verbatimsList_eq_flatMap] at callable ⊢
      rw [Term.text, Term.texts, Term.text, Term.texts_eq_map]
      refine .tuple (Text.isCallable_ofInt tag) (Text.ofInt_ne_nil tag)
        (.join ?_)
      intro field member
      exact ih field member fun name inField =>
        callable name (List.mem_flatMap.mpr ⟨field, member, inField⟩)

namespace Stmt

theorem emptyCalls_assign (target : Var) {value : Term} (plain : value.Plain)
    (callable : ∀ name ∈ value.verbatims, name.IsCallable) (restart : Text) :
    Text.emptyCalls (target.identifier ++ " = " ++ value.text restart) =
      value.verbatims := by
  obtain ⟨word, read⟩ := plain.reads callable restart []
  have start :
      List.foldl Text.CallReader.step ⟨[], false, []⟩
        (target.identifier ++ " = ") =
      ⟨[], false, []⟩ := by
    rw [List.foldl_append,
      Text.CallReader.foldl_callable
        target.isIdentifier_identifier.1.isCallable]
    rfl
  rw [Text.emptyCalls, List.foldl_append, start, read, List.nil_append]

/-- The lines of plain assignments show their calls in order. -/
theorem emptyCalls_linesList {code : List Stmt} (layout : Layout)
    (assigns : ∀ stmt ∈ code, stmt.IsPlainAssign)
    (callable : ∀ name ∈ verbatimsList code, name.IsCallable) :
    (linesList layout code).flatMap Text.emptyCalls = verbatimsList code := by
  induction code with
  | nil => rfl
  | cons stmt code ih =>
      obtain ⟨target, value, rfl, plain⟩ := assigns stmt List.mem_cons_self
      rw [verbatimsList, verbatims] at callable ⊢
      obtain ⟨ownCallable, laterCallable⟩ := List.forall_mem_append.mp callable
      rw [linesList, lines, List.flatMap_append,
        ih (fun later member => assigns later (List.mem_cons_of_mem _ member))
          laterCallable,
        List.flatMap_singleton, emptyCalls_assign target plain ownCallable]

end Stmt

end Code

open Lowering Code

/-- An expression of foreign calls is lowered, and its calls stand in the code
in the order of their evaluation exactly if the expression is orderly.  The
printed lines show them as they stand in the code. -/
theorem calls_in_order_iff_orderly {context : Context} {expr : Expr}
    {calls : List Text} (performed : expr.Performs context.tags calls)
    (distinct : calls.Nodup) (state : State) :
    ∃ value after code, expr.lower context state = .ok (value, after, code) ∧
      (Stmt.verbatimsList code ++ value.verbatims = calls ↔ expr.Orderly) ∧
      ∀ layout, (∀ name ∈ calls, name.IsCallable) →
        (Stmt.linesList layout code ++ [value.text layout.restart]).flatMap
        Text.emptyCalls =
          Stmt.verbatimsList code ++ value.verbatims := by
  obtain ⟨value, after, code, ran, known⟩ := performed.lower state
  refine ⟨value, after, code, ran, ?_, ?_⟩
  · rw [known.moved, known.left]
    exact performed.hoisted_append_pending_eq_iff distinct
  · intro layout callable
    have shown : ∀ name ∈ Stmt.verbatimsList code ++ value.verbatims,
        name.IsCallable := by
      intro name member
      rw [known.moved, known.left] at member
      exact callable name (performed.perm.subset member)
    obtain ⟨inCode, inValue⟩ := List.forall_mem_append.mp shown
    rw [List.flatMap_append,
      Stmt.emptyCalls_linesList layout known.assigns inCode,
      List.flatMap_singleton,
      (known.plain.reads inValue layout.restart).emptyCalls_eq]

/-- A program with pairs. -/
def pairContext : Context :=
  ⟨⟨[(.user "Pair", 0)]⟩, .user "f", [], false⟩

/-- A pair whose first field stores its calls before the second field is
reached. -/
def storedFirst : Expr :=
  let call (function : Text) : Expr := .foreign (.named function) []
  let bound : Expr := .letIn (.user "x") (call "b") (.var (.named (.user "x")))
  .con (.user "Pair") [.case (call "a") [.default bound],
    .con (.user "Pair") [call "c", .var (.named (.user "x"))] none] none

theorem calls_in_order_iff_orderly_storedFirst :
    storedFirst.Performs pairContext.tags ["a", "b", "c"] ∧
    storedFirst.Orderly ∧
      ∃ value after code, storedFirst.lower pairContext (.initial []) =
        .ok (value, after, code) ∧
        (Stmt.linesList (.standard true) code ++
          [value.text restartText]).flatMap
          Text.emptyCalls = ["a", "b", "c"] := by
  have first :
      (Expr.case (.foreign (.named "a") []) [.default (.letIn (.user "x")
      (.foreign (.named "b") [])
      (.var (.named (.user "x"))))]).Performs pairContext.tags
        ["a", "b"] :=
    .case (.foreign "a") (.letIn (.foreign "b") (.var _))
  have second : (Expr.con (.user "Pair") [.foreign (.named "c") [],
      .var (.named (.user "x"))] none).Performs pairContext.tags ["c"] :=
    .con rfl (.cons (.foreign "c") (.cons (.var _) .nil))
  have performed : storedFirst.Performs pairContext.tags ["a", "b", "c"] :=
    .con rfl (.cons first (.cons second .nil))
  have orderly : storedFirst.Orderly := by
    simp [storedFirst, Expr.Orderly, Expr.OrderlyList, Expr.pending,
      Expr.hoistedList, Expr.hoisted]
  have distinct : (["a", "b", "c"] : List Text).Nodup := by decide
  have callable : ∀ name ∈ (["a", "b", "c"] : List Text), name.IsCallable := by
    unfold Text.IsCallable Text.Only
    decide
  obtain ⟨value, after, code, ran, inOrder, shown⟩ :=
    calls_in_order_iff_orderly performed distinct (.initial [])
  refine ⟨performed, orderly, value, after, code, ran, ?_⟩
  exact (shown (.standard true) callable).trans (inOrder.mpr orderly)

/-- A pair whose second field moves its call in front of that of the first. -/
def storedSecond : Expr :=
  .con (.user "Pair") [.foreign (.named "a") [],
    .letIn (.user "x") (.foreign (.named "b") []) (.var (.named (.user "x")))]
      none

theorem calls_of_storedSecond_reordered :
    storedSecond.Performs pairContext.tags ["a", "b"] ∧ ¬ storedSecond.Orderly ∧
      ∃ value after code, storedSecond.lower pairContext (.initial []) =
          .ok (value, after, code) ∧
        Stmt.linesList (.standard true) code = ["ir_x = b()"] ∧
        value.text restartText = "(0, a(), ir_x)" ∧
        (Stmt.linesList (.standard true) code ++
          [value.text restartText]).flatMap Text.emptyCalls = ["b", "a"] := by
  refine ⟨.con rfl
    (.cons (.foreign "a") (.cons (.letIn (.foreign "b") (.var _)) .nil)), ?_, _,
    _, _, rfl, by decide, by decide, by decide⟩
  simp [storedSecond, Expr.Orderly, Expr.OrderlyList, Expr.pending,
    Expr.hoistedList, Expr.hoisted]

end TailLoop
