import TailLoop.Proofs.BlockGrammar
import TailLoop.Proofs.CodeTerms

/-!
# The text of a restart

A restart has no value, yet some text has to stand for one.  Marking lets a
function be restarted in tail position only, and from there the missing value
can go to two places: to an assignment, which is then left out, or to the result
of the function, which then is not returned.  So the text that stands for the
value of a restart is never printed.
-/

namespace TailLoop

namespace Code

/-- The term is printed alike whatever text stands for the value of a
restart. -/
def Term.Settled (term : Term) : Prop :=
  ∀ restart restart', term.text restart = term.text restart'

theorem Term.not_settled_restart : ¬ Term.Settled .restart := by
  intro settled
  have same : ([] : Text) = [default] := settled [] [default]
  cases same

theorem Term.texts_eq_of_settled {terms : List Term}
    (settled : ∀ term ∈ terms, term.Settled) (restart restart' : Text) :
    texts restart terms = texts restart' terms := by
  rw [texts_eq_map, texts_eq_map]
  exact List.map_congr_left fun term member =>
    settled term member restart restart'

theorem Term.closed_settled : Term.Closed Term.Settled where
  var _ := fun _ _ => rfl
  int _ := fun _ _ => rfl
  float _ := fun _ _ => rfl
  str _ := fun _ _ => rfl
  none := fun _ _ => rfl
  raise _ := fun _ _ => rfl
  paren := by
    intro body settled restart restart'
    rw [text, text, settled restart restart']
  call := by
    intro callee args calleeSettled argsSettled restart restart'
    rw [text, text, calleeSettled restart restart',
      texts_eq_of_settled argsSettled restart restart']
  tuple := by
    intro items settled restart restart'
    rw [text, text, texts_eq_of_settled settled restart restart']
  item := by
    intro body index settled restart restart'
    rw [text, text, settled restart restart']
  binary := by
    intro op left right leftSettled rightSettled restart restart'
    rw [text, text, leftSettled restart restart', rightSettled restart restart']
  compare := by
    intro op left right leftSettled rightSettled restart restart'
    rw [text, text, leftSettled restart restart', rightSettled restart restart']
  unary := by
    intro op arg settled restart restart'
    rw [text, text, settled restart restart']
  readLine := fun _ _ => rfl
  write := by
    intro arg settled restart restart'
    rw [text, text, settled restart restart']
  unsupported := by
    intro prim args settled restart restart'
    rw [text, text, texts_eq_of_settled settled restart restart']
  thunk := by
    intro frozen body settled restart restart'
    rw [text, text, settled restart restart']
  lambda := by
    intro param frozen body settled restart restart'
    rw [text, text, settled restart restart']

theorem Guard.header_eq_of_settled {guard : Guard}
    (settled : guard.Forall Term.Settled) (comments leading : Bool)
    (subject : Var) (restart restart' : Text) :
    guard.header ⟨comments, restart⟩ leading subject =
      guard.header ⟨comments, restart'⟩ leading subject := by
  cases guard with
  | equals value => simp only [header, settled restart restart']
  | hasTag tag ctor => rfl
  | tagBelow tag => rfl
  | otherwise => rfl

namespace Stmt

mutual

theorem lines_eq_of_settled (comments : Bool) (restart restart' : Text)
    (stmt : Stmt) (settled : stmt.Meets (.terms Term.Settled)) :
    stmt.lines ⟨comments, restart⟩ = stmt.lines ⟨comments, restart'⟩ := by
  cases stmt with
  | assign target value => rw [lines, lines, settled restart restart']
  | rebind targets values =>
      have same :
          values.map (fun value => value.text restart ++ Text.ofString ",") =
          values.map (fun value => value.text restart' ++ Text.ofString ",") :=
        List.map_congr_left fun value member => by
          rw [settled value member restart restart']
      rw [lines, lines, same]
  | branch subject clauses =>
      rw [lines, lines, clausesLines_eq_of_settled comments restart restart'
        subject true clauses settled]
  | define name params frozen body result =>
      rw [lines, lines, linesList_eq_of_settled comments restart restart'
        body settled.1, settled.2.1 restart restart']
  | unpack targets subject => rfl
  | «continue» => rfl
  | unreachable => rfl

theorem linesList_eq_of_settled (comments : Bool) (restart restart' : Text)
    (stmts : List Stmt) (settled : MeetsList (.terms Term.Settled) stmts) :
    linesList ⟨comments, restart⟩ stmts =
      linesList ⟨comments, restart'⟩ stmts := by
  cases stmts with
  | nil => rfl
  | cons stmt stmts =>
      rw [linesList, linesList,
        lines_eq_of_settled comments restart restart' stmt settled.1,
        linesList_eq_of_settled comments restart restart' stmts settled.2]

theorem clausesLines_eq_of_settled (comments : Bool) (restart restart' : Text)
    (subject : Var) (leading : Bool) (clauses : List Clause)
    (settled : MeetsClauses (.terms Term.Settled) clauses) :
    clausesLines ⟨comments, restart⟩ subject leading clauses =
      clausesLines ⟨comments, restart'⟩ subject leading clauses := by
  cases clauses with
  | nil => rfl
  | cons clause clauses =>
      obtain ⟨guard, body⟩ := clause
      obtain ⟨guardSettled, bodySettled, laterSettled⟩ := settled
      rw [clausesLines, clausesLines,
        Guard.header_eq_of_settled guardSettled comments leading subject
          restart restart',
        linesList_eq_of_settled comments restart restart' body bodySettled,
        clausesLines_eq_of_settled comments restart restart' subject false
          clauses laterSettled]

end

@[simp] theorem linesList_append (layout : Layout) (first second : List Stmt) :
    linesList layout (first ++ second) = linesList layout first ++
      linesList layout second := by
  induction first with
  | nil => rfl
  | cons stmt first ih =>
      rw [List.cons_append, linesList, linesList, ih, List.append_assoc]

end Stmt

end Code

namespace Function

open Code

/-- The code of a function is settled, but for the value of a restart that ends
it. -/
theorem lower_settled {function : Function} {tags : TagTable} {block : Block}
    (lowered : function.lower tags = .ok block) :
    Outcome (.terms Term.Settled) true block.value block.statements :=
  outcome (Term.closed_settled.kept _) (fun _ _ _ _ => rfl) lowered

/-- The text of a function if the given text stands for the value of a
restart. -/
def textWith (restart : Text) (options : ScriptOptions) (tags : TagTable)
    (function : Function) : Except Lowering.Fault Text :=
  (function.lower tags).map fun block =>
    Text.join "\n"
      (function.frame options (block.bodyLines ⟨options.comments, restart⟩)) ++
        "\n"

theorem text_eq_textWith (options : ScriptOptions) (tags : TagTable)
    (function : Function) :
    function.text options tags =
      function.textWith restartText options tags := by
  unfold text lines textWith
  cases function.lower tags <;> rfl

end Function

open Code

/-- Another text for the value of a restart changes neither the statements of a
function nor its text.  It changes the result only if that is the value of a
restart itself; then no result is returned, and the last statement is a
`continue` of the function's own loop. -/
theorem restart_text_never_printed {function : Function} {tags : TagTable}
    {block : Block} (lowered : function.lower tags = .ok block)
    (options : ScriptOptions) (restart : Text) :
    block.statementLines ⟨options.comments, restart⟩ =
        block.statementLines (Function.layout options) ∧
      function.textWith restart options tags = function.text options tags ∧
      (block.value ≠ .restart → block.value.text restart =
        block.value.text restartText) ∧
      (block.value = .restart → ∃ before : List Text,
        block.statementLines (Function.layout options) = before ++
          [Text.ofString "continue"] ∧
        function.text options tags =
          .ok (Text.join "\n"
            (function.frame options (before ++ [Text.ofString "continue"])) ++
              "\n")) := by
  have settled := Function.lower_settled lowered
  have present : block.value ≠ .restart → block.value.Settled := by
    intro isValue
    rcases settled.good with good | ⟨-, same, -⟩
    · exact good
    · exact (isValue same).elim
  have sameLines : block.statementLines ⟨options.comments, restart⟩ =
      block.statementLines (Function.layout options) :=
    Stmt.linesList_eq_of_settled _ _ _ block.statements settled.meets
  have sameBody : block.bodyLines ⟨options.comments, restart⟩ =
      block.bodyLines (Function.layout options) := by
    unfold Block.bodyLines
    rw [sameLines]
    dsimp only
    split
    · rfl
    · rename_i noRestart
      have isValue : block.value ≠ .restart := by
        intro same
        exact noRestart (by rw [same]; rfl)
      rw [present isValue restart (Function.layout options).restart]
  refine ⟨sameLines, ?_, fun isValue => present isValue _ _, fun restarted =>
    ?_⟩
  · rw [Function.text_eq_textWith, Function.textWith, Function.textWith,
      lowered]
    simp only [Except.map, sameBody]
    rfl
  · obtain ⟨start, ends⟩ : ∃ start, block.statements = start ++
      [.continue] := by
      rcases settled.good with good | ⟨-, -, ended⟩
      · rw [restarted] at good
        exact (Term.not_settled_restart good).elim
      · exact ended
    have last : block.statementLines (Function.layout options) =
        Stmt.linesList (Function.layout options) start ++
          [Text.ofString "continue"] := by
      rw [Block.statementLines, ends, Stmt.linesList_append]
      rfl
    refine ⟨_, last, ?_⟩
    have unreturned : block.bodyLines (Function.layout options) =
        block.statementLines (Function.layout options) := by
      unfold Block.bodyLines
      rw [restarted]
      exact List.append_nil _
    rw [Function.text, Function.lines, lowered, ← last, ← unreturned]
    rfl

/-- A function that is always restarted, after it took its argument apart. -/
def spinning : Function :=
  let argument : Expr := .var (.named (.user "n"))
  ⟨.user "spin", [.user "n"], .letIn (.user "m")
    (.case argument
      [.con (.user "Succ") [.user "k"] (.var (.named (.user "k"))),
        .default argument])
    (.app (.var (.named (.user "spin"))) [.var (.named (.user "m"))] false)⟩

def spinningBlock : Block :=
  ⟨[.branch (.named (.user "n"))
      [.mk (.hasTag 1 (.user "Succ"))
        [.unpack [.user "k"] (.named (.user "n")),
          .assign (.slot (-1)) (.var (.named (.user "k")))],
        .mk .otherwise [.assign (.slot (-1)) (.var (.named (.user "n")))]],
    .assign (.named (.user "m")) (.var (.slot (-1))),
    .rebind [.user "n"] [.var (.named (.user "m"))],
    .continue], .restart⟩

theorem restart_text_never_printed_spinning :
    let tags : TagTable := ⟨[(.user "Succ", 1)]⟩
    spinning.lower tags = .ok spinningBlock ∧
      ∀ options restart, spinning.textWith restart options tags =
        spinning.text options tags ∧
        ∃ before : List Text,
          spinningBlock.statementLines (Function.layout options) =
            before ++ [Text.ofString "continue"] ∧
          spinning.text options tags =
            .ok (Text.join "\n"
              (spinning.frame options (before ++ [Text.ofString "continue"])) ++
                "\n") := by
  have lowered : spinning.lower ⟨[(.user "Succ", 1)]⟩ = .ok spinningBlock := rfl
  refine ⟨lowered, fun options restart => ?_⟩
  obtain ⟨-, same, -, ends⟩ :=
    restart_text_never_printed lowered options restart
  exact ⟨same, ends rfl⟩

end TailLoop
