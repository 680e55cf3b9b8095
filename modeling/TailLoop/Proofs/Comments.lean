import Mathlib.Data.List.Forall2
import TailLoop.Proofs.BlockGrammar
import TailLoop.Proofs.LexicalScan

/-!
# Comments

Comments show names: a test of a constructor is followed by the constructor it
tests for, and a function is preceded by its own name.  Without comments the
same lines are printed, one for one, but for these.  A displayed name stays on
its line, whatever it is made of.
-/

namespace TailLoop

open Code

namespace Code

/-- A test of a constructor compares with the tag that the constructor has. -/
def Guard.Declared (tags : TagTable) : Guard → Prop
  | .hasTag tag ctor => tags.tagOf? ctor = some tag
  | _ => True

/-- Constructors are tested for by the tags they have. -/
def Requirement.declaredTests (tags : TagTable) : Requirement :=
  ⟨fun _ => True, Guard.Declared tags, fun _ => True⟩

end Code

theorem Pattern.guard_declared {pattern : Pattern} {guard : Guard}
    {tags : TagTable} (made : pattern.guard? tags = some guard) :
    guard.Declared tags := by
  cases pattern with
  | con ctor args =>
      obtain ⟨tag, found, rfl⟩ := Option.map_eq_some_iff.mp made
      exact found
  | const value =>
      cases made
      trivial
  | default =>
      cases made
      trivial

theorem Code.Requirement.declaredTests_kept (context : Context) :
    (Requirement.declaredTests context.tags).Kept context where
  composed := by constructor <;> intros <;> trivial
  var := fun _ => trivial
  thunk := fun _ _ => trivial
  lambda := fun _ _ _ _ _ => trivial
  frozen := fun _ => trivial
  test := Pattern.guard_declared
  tagBelow := fun _ => trivial

namespace Code

/-- The line that tests for a tag. -/
def testText (leading : Bool) (subject : Var) (tag : Int) : Text :=
  let keyword : Text := if leading then "if " else "elif "
  keyword ++ subject.identifier ++ "[0] == " ++ Text.ofInt tag ++ ":"

/-- A line without and with comments: the same line, or the test of a
constructor at any depth and behind it, two spaces apart, the constructor. -/
inductive Commented (tags : TagTable) : Text → Text → Prop where
  | same (line : Text) : Commented tags line line
  | test (depth : Nat) (leading : Bool) (subject : Var) {ctor : Name}
      {tag : Int} :
      tags.tagOf? ctor = some tag →
      Commented tags (Draft.indentedBy depth (testText leading subject tag))
        (Draft.indentedBy depth (testText leading subject tag) ++ "  # " ++
          ctor.display)

section Lines

variable {tags : TagTable} {plain commented : List Text}

theorem commented_refl (lines : List Text) :
    List.Forall₂ (Commented tags) lines lines :=
  List.forall₂_same.mpr fun line _ => .same line

theorem Commented.deeper {line line' : Text}
    (known : Commented tags line line') :
    Commented tags (indentation ++ line) (indentation ++ line') := by
  cases known with
  | same => exact .same _
  | test depth leading subject declared =>
      rw [← List.append_assoc, ← List.append_assoc, ← Draft.indentedBy_succ]
      exact .test (depth + 1) leading subject declared

theorem commented_indented
    (known : List.Forall₂ (Commented tags) plain commented) :
    List.Forall₂ (Commented tags) (indented plain) (indented commented) := by
  rw [indented, indented, List.forall₂_map_left_iff, List.forall₂_map_right_iff]
  exact known.imp fun _ _ => Commented.deeper

end Lines

theorem Guard.commented_header {tags : TagTable} {guard : Guard}
    (declared : guard.Declared tags) (restart : Text) (leading : Bool)
    (subject : Var) :
    Commented tags (guard.header ⟨false, restart⟩ leading subject)
      (guard.header ⟨true, restart⟩ leading subject) := by
  cases guard with
  | hasTag tag ctor =>
      have plain : header ⟨false, restart⟩ leading subject (.hasTag tag ctor) =
          Draft.indentedBy 0 (testText leading subject tag) := by
        rw [header, if_neg Bool.false_ne_true, List.append_nil]
        rfl
      have commented :
          header ⟨true, restart⟩ leading subject (.hasTag tag ctor) =
          Draft.indentedBy 0 (testText leading subject tag) ++ "  # " ++
            ctor.display := by
        rw [header, if_pos rfl, ← List.append_assoc]
        rfl
      rw [plain, commented]
      exact .test 0 leading subject declared
  | equals value => exact .same _
  | tagBelow tag => exact .same _
  | otherwise => exact .same _

namespace Stmt

variable {tags : TagTable}

mutual

/-- Comments change no line but the tests of constructors. -/
theorem commented_lines (restart : Text) (stmt : Stmt)
    (declared : stmt.Meets (.declaredTests tags)) :
    List.Forall₂ (Commented tags) (stmt.lines ⟨false, restart⟩)
      (stmt.lines ⟨true, restart⟩) := by
  cases stmt with
  | branch subject clauses =>
      rw [lines, lines]
      exact commented_clausesLines restart subject true clauses declared
  | define name params frozen body result =>
      rw [lines, lines]
      refine .cons (.same _)
        (commented_indented (List.rel_append ?_ (commented_refl _)))
      exact commented_linesList restart body declared.1
  | assign target value => exact commented_refl _
  | unpack targets subject => exact commented_refl _
  | rebind targets values => exact commented_refl _
  | «continue» => exact commented_refl _
  | unreachable => exact commented_refl _

theorem commented_linesList (restart : Text) (stmts : List Stmt)
    (declared : MeetsList (.declaredTests tags) stmts) :
    List.Forall₂ (Commented tags) (linesList ⟨false, restart⟩ stmts)
      (linesList ⟨true, restart⟩ stmts) := by
  cases stmts with
  | nil => exact .nil
  | cons stmt stmts =>
      rw [linesList, linesList]
      exact List.rel_append (commented_lines restart stmt declared.1)
        (commented_linesList restart stmts declared.2)

theorem commented_clausesLines (restart : Text) (subject : Var) (leading : Bool)
    (clauses : List Clause)
    (declared : MeetsClauses (.declaredTests tags) clauses) :
    List.Forall₂ (Commented tags)
      (clausesLines ⟨false, restart⟩ subject leading clauses)
      (clausesLines ⟨true, restart⟩ subject leading clauses) := by
  cases clauses with
  | nil => exact .nil
  | cons clause clauses =>
      obtain ⟨guard, body⟩ := clause
      obtain ⟨guardDeclared, bodyDeclared, laterDeclared⟩ := declared
      rw [clausesLines, clausesLines]
      refine .cons
        (Guard.commented_header guardDeclared restart leading subject) ?_
      exact List.rel_append
        (commented_indented (commented_linesList restart body bodyDeclared))
        (commented_clausesLines restart subject false clauses laterDeclared)

end

end Stmt

end Code

namespace Function

/-- The lines of the statements of a function and the text of its result. -/
def emission (options : ScriptOptions) (tags : TagTable) (function : Function) :
    Except Lowering.Fault (List Text × Text) :=
  (function.lower tags).map fun block =>
    (block.statementLines (layout options),
      block.value.text (layout options).restart)

theorem commented_statementLines {function : Function} {tags : TagTable}
    {block : Block} (lowered : function.lower tags = .ok block)
    (restart : Text) :
    List.Forall₂ (Commented tags) (block.statementLines ⟨false, restart⟩)
      (block.statementLines ⟨true, restart⟩) := by
  have outcome := outcome
    (Requirement.declaredTests_kept (function.context tags))
    (fun _ _ => trivial) lowered
  exact Stmt.commented_linesList restart block.statements outcome.meets

end Function

open Lexical (isLineBreak)

/-- Comments never change the code.  With and without them a function fails
alike, or it has the same result and line by line the same statements, but for
the constructors behind their tests.  Its text has one line more, its name in
front.  No displayed name has a line break. -/
theorem comments_never_change_code (function : Function) (tags : TagTable)
    (trace : Bool) :
    let plain : ScriptOptions := ⟨trace, false⟩
    let commented : ScriptOptions := ⟨trace, true⟩
    ((∃ fault,
        function.emission plain tags = .error fault ∧
        function.emission commented tags = .error fault ∧
        function.text plain tags = .error fault ∧
        function.text commented tags = .error fault) ∨
      ∃ result statements statements' lines lines',
        function.emission plain tags = .ok (statements, result) ∧
        function.emission commented tags = .ok (statements', result) ∧
        List.Forall₂ (Commented tags) statements statements' ∧
        function.text plain tags = .ok (Text.join "\n" lines ++ "\n") ∧
        function.text commented tags =
          .ok (Text.join "\n" (("# " ++ function.name.display) :: lines') ++
            "\n") ∧
        List.Forall₂ (Commented tags) lines lines') ∧
      ∀ (name : Name), ∀ c ∈ name.display, isLineBreak c = false := by
  intro plain commented
  refine ⟨?_, fun name => Lexical.coversPrintable.display name⟩
  cases lowered : function.lower tags with
  | error fault =>
      have unprinted (options : ScriptOptions) :
          function.text options tags = .error fault := by
        rw [Function.text, Function.lines, lowered]
        rfl
      have unemitted (options : ScriptOptions) :
          function.emission options tags = .error fault := by
        rw [Function.emission, lowered]
        rfl
      exact .inl ⟨fault, unemitted _, unemitted _, unprinted _, unprinted _⟩
  | ok block =>
      have statements := Function.commented_statementLines lowered restartText
      have bodies :
          List.Forall₂ (Commented tags) (block.bodyLines ⟨false, restartText⟩)
            (block.bodyLines ⟨true, restartText⟩) :=
        List.rel_append statements (commented_refl _)
      let framed (body : List Text) : List Text :=
        function.header :: indented ("while True:" ::
          indented ((if trace then [function.traceLine] else []) ++ body))
      have printed (options : ScriptOptions) :
          function.text options tags = .ok (Text.join "\n"
          (function.frame options
            (block.bodyLines (Function.layout options))) ++ "\n") := by
        rw [Function.text, Function.lines, lowered]
        rfl
      refine .inr ⟨block.value.text restartText, _, _,
        framed (block.bodyLines ⟨false, restartText⟩),
        framed (block.bodyLines ⟨true, restartText⟩), ?_, ?_, statements, ?_,
        ?_, ?_⟩
      · rw [Function.emission, lowered]
        rfl
      · rw [Function.emission, lowered]
        rfl
      · rw [printed, Function.frame_eq]
        rfl
      · rw [printed, Function.frame_eq]
        rfl
      · refine .cons (.same _)
          (commented_indented (.cons (.same _) (commented_indented ?_)))
        exact List.rel_append (commented_refl _) bodies

end TailLoop
