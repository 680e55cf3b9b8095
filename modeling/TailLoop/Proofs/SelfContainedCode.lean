import TailLoop.Proofs.CodeTerms
import TailLoop.Proofs.LexicalScan

/-!
# Self-contained lines

Each line of printed code, and the text of each term, stands on its own: it has
no line break, its literals end and its brackets are closed.  What a program
says is quoted wherever it is printed, so nothing in it can change that.  Only
the names of foreign functions are printed as they are.
-/

namespace TailLoop

namespace Code

open Lexical

section Texts

variable {quiet : Bool}

theorem bare_identifier (v : Var) : IsBare v.identifier :=
  coversNumerals.identifier v

theorem bare_ofInt (value : Int) : IsBare (Text.ofInt value) :=
  coversNumerals.figures.ofInt value

/-- The equals sign of a default stands in brackets. -/
theorem moves_frozenText (v : Var) (brackets : List Bracket) :
    Moves quiet (.round :: brackets) (.round :: brackets) (frozenText v) := by
  have equals : Moves quiet (.round :: brackets) (.round :: brackets) "=" := by
    cases quiet <;> exact .mark rfl fun _ => rfl
  have name :
      Moves quiet (.round :: brackets) (.round :: brackets) v.identifier :=
    (bare_identifier v).moves _
  exact (name.append equals).append name

theorem leads_frozen (frozen : List Var) :
    ∀ part ∈ frozen.map frozenText, Leads quiet [.round] [.round] part :=
  List.forall_mem_map.mpr fun v _ => (moves_frozenText v []).leads

theorem leads_row {brackets : List Bracket} {items : List Text}
    (each : ∀ item ∈ items, Leads quiet brackets brackets item) :
    Leads quiet brackets brackets (Text.join ", " items) := by
  have comma : Moves quiet brackets brackets ", " := .mark rfl fun _ => rfl
  exact leads_join comma rfl each

theorem leads_paramsText (params : List Name) (frozen : List Var) :
    Leads quiet [.round] [.round] (paramsText params frozen) := by
  refine leads_row (List.forall_mem_append.mpr ⟨?_, leads_frozen frozen⟩)
  exact List.forall_mem_map.mpr fun name _ =>
    ((bare_identifier (.named name)).moves [.round]).leads

theorem bare_targetsText (targets : List Name) :
    IsBare (targetsText targets) := by
  have space : IsBare (Text.ofString " ") := List.all_eq_true.mp rfl
  have comma : IsBare (Text.ofString ",") := List.all_eq_true.mp rfl
  refine Text.Only.join space fun part member => ?_
  obtain ⟨name, -, rfl⟩ := List.mem_map.mp member
  exact Text.Only.append (coversNumerals.nameIdentifier name) comma

/-- A neutral text in parentheses that are part of two marks. -/
theorem neutral_parens {opening text closing : Text}
    (neutral : Neutral quiet text) (opens : Moves quiet [] [.round] opening)
    (closes : Moves quiet [.round] [] closing) (firm : isFirm closing = true) :
    Neutral quiet (opening ++ text ++ closing) :=
  (neutral.enclosed opens closes firm).leads

theorem moves_closing : Moves quiet [.round] [] ")" :=
  .mark rfl fun _ => rfl

theorem neutral_raiseText (message : Text) :
    Neutral quiet (raiseText message) :=
  neutral_parens (neutral_quoted message) (.mark rfl fun _ => rfl) moves_closing
    rfl

theorem neutral_callText {callee : Text} {args : List Text}
    (calleeNeutral : Neutral quiet callee)
    (argsNeutral : ∀ arg ∈ args, Neutral quiet arg) :
    Neutral quiet (callText callee args) := by
  have opens : Moves quiet [] [.round] (callee ++ "(") :=
    calleeNeutral.appendMoves (.mark rfl fun _ => rfl) rfl
  exact neutral_parens (leads_row argsNeutral) opens moves_closing rfl

theorem neutral_tupleText {items : List Text}
    (itemsNeutral : ∀ item ∈ items, Neutral quiet item) :
    Neutral quiet (tupleText items) := by
  have opens : Moves quiet [] [.round] "(" := .mark rfl fun _ => rfl
  unfold tupleText
  split
  · have item := itemsNeutral _ (List.mem_singleton.mpr rfl)
    exact neutral_parens item opens (.mark rfl fun _ => rfl) rfl
  · exact neutral_parens (leads_row itemsNeutral) opens moves_closing rfl

theorem neutral_thunkText (frozen : List Var) {body : Text}
    (bodyNeutral : Neutral quiet body) :
    Neutral quiet (thunkText frozen body) := by
  unfold thunkText
  split
  · exact neutral_parens bodyNeutral (.mark rfl fun _ => rfl) moves_closing rfl
  · have opens : Moves quiet [] [.round] "(lambda " := .mark rfl fun _ => rfl
    have colon : Moves quiet [.round] [.round] ": " := .mark rfl fun _ => rfl
    have row := opens.appendLeads (leads_row (leads_frozen frozen))
    exact neutral_parens bodyNeutral (row.appendMoves colon rfl)
      moves_closing rfl

theorem neutral_lambdaText (param : Name) (frozen : List Var) {body : Text}
    (bodyNeutral : Neutral quiet body) :
    Neutral quiet (lambdaText param frozen body) := by
  have opens : Moves quiet [] [.round] "(lambda " := .mark rfl fun _ => rfl
  have colon : Moves quiet [.round] [.round, .round] ": (" :=
    .mark rfl fun _ => rfl
  have closes : Moves quiet [.round, .round] [] "))" := .mark rfl fun _ => rfl
  have head :=
    (opens.appendLeads (leads_paramsText [param] frozen)).appendMoves colon rfl
  exact (bodyNeutral.enclosed head closes rfl).leads

theorem neutral_floatText (value : Double) :
    Neutral quiet (floatText value) := by
  cases value with
  | nan => exact Moves.leads (.mark rfl fun _ => rfl)
  | infinite negative =>
      cases negative with
      | false => exact Moves.leads (.mark rfl fun _ => rfl)
      | true => exact Moves.leads (.mark rfl fun _ => rfl)
  | finite negative mantissa exponent =>
      have bare : IsBare (Double.finite negative mantissa exponent).text :=
        coversNumerals.figures.double _
      exact bare.neutral

/-- Two operands with an operator between them, in parentheses. -/
theorem neutral_operationText {opening op left right : Text}
    (opens : Moves quiet [] [.round] opening)
    (between : Moves quiet [.round] [.round] op)
    (leftNeutral : Neutral quiet left) (rightNeutral : Neutral quiet right) :
    Neutral quiet (opening ++ left ++ " " ++ op ++ " " ++ right ++ ")") := by
  have space : Moves quiet [.round] [.round] " " := .mark rfl fun _ => rfl
  have head :=
    ((leftNeutral.enclosed opens space rfl).append between).append space
  exact neutral_parens rightNeutral head moves_closing rfl

theorem neutral_unaryText (op : UnaryOp) {arg : Text}
    (argNeutral : Neutral quiet arg) : Neutral quiet (op.text arg) := by
  cases op with
  | toStr =>
      exact neutral_parens argNeutral (.mark rfl fun _ => rfl) moves_closing rfl
  | toInt =>
      exact neutral_parens argNeutral (.mark rfl fun _ => rfl) moves_closing rfl
  | reversed =>
      exact (argNeutral.appendMoves (.mark rfl fun _ => rfl) rfl).leads
  | first => exact (argNeutral.appendMoves (.mark rfl fun _ => rfl) rfl).leads
  | rest => exact (argNeutral.appendMoves (.mark rfl fun _ => rfl) rfl).leads

end Texts

def Term.SelfContained (quiet : Bool) (restart : Text) (term : Term) : Prop :=
  Neutral quiet (term.text restart)

theorem Term.neutral_texts {quiet : Bool} {restart : Text} {terms : List Term}
    (each : ∀ term ∈ terms, term.SelfContained quiet restart) :
    ∀ text ∈ texts restart terms, Neutral quiet text := by
  rw [texts_eq_map]
  exact List.forall_mem_map.mpr each

theorem Term.neutral_values {quiet : Bool} {restart : Text} {values : List Term}
    (each : ∀ value ∈ values, value.SelfContained quiet restart) :
    Neutral quiet
      (Text.join " " (values.map fun value => value.text restart ++ ",")) := by
  have space : Moves quiet [] [] " " := .mark rfl fun _ => rfl
  have comma : Moves quiet [] [] "," := .mark rfl fun _ => rfl
  refine leads_join space rfl (List.forall_mem_map.mpr fun value member => ?_)
  exact ((each value member).appendMoves comma rfl).leads

theorem Term.closed_selfContained (quiet : Bool) (restart : Text) :
    Term.Closed (SelfContained quiet restart) where
  var v := (bare_identifier v).neutral
  int value := (bare_ofInt value).neutral
  float := neutral_floatText
  str := neutral_quoted
  none := Moves.leads (.mark rfl fun _ => rfl)
  raise := neutral_raiseText
  paren body := neutral_parens body (.mark rfl fun _ => rfl) moves_closing rfl
  call callee args := neutral_callText callee (neutral_texts args)
  tuple items := neutral_tupleText (neutral_texts items)
  item := by
    intro body index known
    have opens : Moves quiet [] [.square] (body.text restart ++ "[") :=
      known.appendMoves (.mark rfl fun _ => rfl) rfl
    have closes : Moves quiet [.square] [] "]" := .mark rfl fun _ => rfl
    exact ((bare_ofInt index).neutral.enclosed opens closes rfl).leads
  binary := by
    intro op left right leftKnown rightKnown
    have between : Moves quiet [.round] [.round] op.text := by
      cases op <;> exact .mark rfl fun _ => rfl
    exact neutral_operationText (.mark rfl fun _ => rfl) between leftKnown
      rightKnown
  compare := by
    intro op left right leftKnown rightKnown
    have between : Moves quiet [.round] [.round] op.text := by
      cases op <;> cases quiet <;> exact .mark rfl fun _ => rfl
    exact neutral_operationText (.mark rfl fun _ => rfl) between leftKnown
      rightKnown
  unary op _ known := neutral_unaryText op known
  readLine := Moves.leads (.mark rfl fun _ => rfl)
  write arg := neutral_parens arg (.mark rfl fun _ => rfl) moves_closing rfl
  unsupported := fun _ _ _ => neutral_raiseText _
  thunk frozen _ body := neutral_thunkText frozen body
  lambda param frozen _ body := neutral_lambdaText param frozen body

theorem neutral_indented {lines : List Text}
    (each : ∀ line ∈ lines, Neutral false line) :
    ∀ line ∈ indented lines, Neutral false line := by
  have spaces : Moves false [] [] indentation := .mark rfl fun _ => rfl
  exact List.forall_mem_map.mpr fun line member =>
    spaces.appendLeads (each line member)

theorem Guard.neutral_header {restart : Text} {guard : Guard}
    (known : guard.Forall (Term.SelfContained false restart)) (leading : Bool)
    (subject : Var) :
    Neutral false (guard.header ⟨false, restart⟩ leading subject) := by
  have keyword : Moves false [] [] (if leading then "if " else "elif ") := by
    split
    · exact .mark rfl fun _ => rfl
    · exact .mark rfl fun _ => rfl
  have start := keyword.append ((bare_identifier subject).moves [])
  cases guard with
  | hasTag tag ctor =>
      have test : Moves false [] [] "[0] == " := .mark rfl fun _ => rfl
      have colon : Moves false [] [] ":" := .mark rfl fun _ => rfl
      have line :=
        ((start.append test).append ((bare_ofInt tag).moves [])).append colon
      exact (line.append (IsPlain.moves Text.Only.nil [])).leads
  | equals value =>
      have test : Moves false [] [] " == " := .mark rfl fun _ => rfl
      exact (known.enclosed (start.append test) (.mark rfl fun _ =>
        rfl) rfl).leads
  | tagBelow tag =>
      have test : Moves false [] [] "[0] < " := .mark rfl fun _ => rfl
      have colon : Moves false [] [] ":" := .mark rfl fun _ => rfl
      exact (((start.append test).append ((bare_ofInt tag).moves [])).append
        colon).leads
  | otherwise => exact Moves.leads (.mark rfl fun _ => rfl)

namespace Stmt

mutual

/-- The lines of a statement are self-contained if its terms are. -/
theorem neutral_lines {restart : Text} (stmt : Stmt)
    (known : stmt.Meets (.terms (Term.SelfContained false restart))) :
    ∀ line ∈ stmt.lines ⟨false, restart⟩, Neutral false line := by
  have equals : Moves false [] [] " = " := .mark rfl fun _ => rfl
  cases stmt with
  | assign target value =>
      refine List.forall_mem_singleton.mpr ?_
      exact (((bare_identifier target).moves []).append equals).appendLeads
        known
  | unpack targets subject =>
      have fields : Moves false [] [] "[1:]" := .mark rfl fun _ => rfl
      refine List.forall_mem_singleton.mpr ?_
      exact ((((bare_targetsText targets).moves []).append equals).append
        ((bare_identifier subject).moves [])).append fields |>.leads
  | rebind targets values =>
      refine List.forall_mem_singleton.mpr ?_
      exact (((bare_targetsText targets).moves []).append equals).appendLeads
        (Term.neutral_values known)
  | «continue» =>
      exact List.forall_mem_singleton.mpr (Moves.leads (.mark rfl fun _ => rfl))
  | unreachable => exact List.forall_mem_singleton.mpr (neutral_raiseText _)
  | branch subject clauses =>
      exact neutral_clausesLines subject true clauses known
  | define name params frozen body result =>
      have keyword : Moves false [] [] "def " := .mark rfl fun _ => rfl
      have opens : Moves false [] [.round] "(" := .mark rfl fun _ => rfl
      have closes : Moves false [.round] [] "):" := .mark rfl fun _ => rfl
      have returns : Moves false [] [] "return " := .mark rfl fun _ => rfl
      refine List.forall_mem_cons.mpr ⟨?_, neutral_indented ?_⟩
      · have head :=
          (keyword.append ((bare_identifier name).moves [])).append opens
        exact ((head.appendLeads (leads_paramsText params frozen)).appendMoves
          closes rfl).leads
      · exact List.forall_mem_append.mpr ⟨neutral_linesList body known.1,
          List.forall_mem_singleton.mpr (returns.appendLeads known.2.1)⟩

theorem neutral_linesList {restart : Text} (stmts : List Stmt)
    (known : MeetsList (.terms (Term.SelfContained false restart)) stmts) :
    ∀ line ∈ linesList ⟨false, restart⟩ stmts, Neutral false line := by
  cases stmts with
  | nil => exact List.forall_mem_nil _
  | cons stmt stmts =>
      exact List.forall_mem_append.mpr
        ⟨neutral_lines stmt known.1, neutral_linesList stmts known.2⟩

theorem neutral_clausesLines {restart : Text} (subject : Var) (leading : Bool)
    (clauses : List Clause)
    (known : MeetsClauses (.terms (Term.SelfContained false restart)) clauses) :
    ∀ line ∈ clausesLines ⟨false, restart⟩ subject leading clauses,
      Neutral false line := by
  cases clauses with
  | nil => exact List.forall_mem_nil _
  | cons clause clauses =>
      obtain ⟨guard, body⟩ := clause
      obtain ⟨guardKnown, bodyKnown, laterKnown⟩ := known
      refine List.forall_mem_cons.mpr
        ⟨guard.neutral_header guardKnown leading subject, ?_⟩
      exact List.forall_mem_append.mpr
        ⟨neutral_indented (neutral_linesList body bodyKnown),
        neutral_clausesLines subject false clauses laterKnown⟩

end

end Stmt

end Code

open Code Lexical

/-- An expression that names foreign functions by plain names alone is lowered
to a term and to lines that have no line break and that a scan leaves outside of
literals, with every bracket closed. -/
theorem lowered_code_self_contained {context : Context} {expr : Expr}
    {before after : Lowering.State} {value : Term} {code : List Stmt}
    (names : ∀ name args, expr.Contains (.foreign (.named name) args) →
      IsPlain name)
    (lowered : expr.lower context before = .ok (value, after, code)) :
    ∀ text ∈ value.text restartText ::
      Stmt.linesList (Layout.standard false) code,
      (∀ c ∈ text, isLineBreak c = false) ∧ isComplete text = true := by
  have known := Expr.lower_forall
    (Term.closed_selfContained false restartText)
    (fun _ _ _ => neutral_raiseText _)
    (fun name args within => (names name args within).neutral) lowered
  have neutral :
      ∀ text ∈ value.text restartText ::
        Stmt.linesList (Layout.standard false) code,
      Neutral false text :=
    List.forall_mem_cons.mpr ⟨known.1, Stmt.neutral_linesList code known.2⟩
  exact fun text member =>
    ⟨(neutral text member).unbroken, (neutral text member).isComplete⟩

/-- An expression with quotes, brackets and line breaks in its constants and
names; one of its branches fails with a message that quotes two literals. -/
def quotingQuotes : Expr :=
  .case (.foreign (.named "read") [.lit (.string "'\n)")])
    [.const (.string "\"'(") (.op (.standard .strSubstr .int)
      [.lit (.string "it's"), .lit (.char '"')]),
      .default (.op (.external "\\'\n#" .int) [])]

def quotingCode : List Stmt :=
  [.assign (.slot (-1)) (.call (.verbatim "read") [.str "'\n)"]),
    .branch (.slot (-1))
      [.mk (.equals (.str "\"'(")) [.assign (.slot (-2))
        (.unsupported (.standard .strSubstr .int) [.str "it's",
          .str [CodePoint.ofChar '"']])],
        .mk .otherwise
          [.assign (.slot (-2))
            (.raise ("unimplemented external: " ++ "\\'\n#"))]]]

theorem lowered_code_self_contained_quotingQuotes :
    let context : Context := ⟨⟨[]⟩, .user "main", [], false⟩
    (∀ name args, quotingQuotes.Contains (.foreign (.named name) args) →
      IsPlain name) ∧
      quotingQuotes.lower context (.initial []) =
        .ok (.var (.slot (-2)), ⟨3, []⟩, quotingCode) ∧
      ∀ text ∈ Text.ofString "aux2" ::
        Stmt.linesList (Layout.standard false) quotingCode,
        (∀ c ∈ text, isLineBreak c = false) ∧ isComplete text = true := by
  intro context
  have names :
      ∀ name args, quotingQuotes.Contains (.foreign (.named name) args) →
      IsPlain name := by
    intro name args within
    have part := (Expr.mem_subexprs_iff _).mpr within
    simp only [quotingQuotes, Expr.subexprs, Expr.subexprsList,
      Expr.subexprsAlts, List.append_nil, List.mem_cons, List.mem_append,
      List.not_mem_nil, reduceCtorEq, Expr.foreign.injEq,
      ForeignTarget.named.injEq, or_false, false_or] at part
    obtain ⟨rfl, -⟩ := part
    exact List.all_eq_true.mp rfl
  have lowered : quotingQuotes.lower context (.initial []) =
      .ok (.var (.slot (-2)), ⟨3, []⟩, quotingCode) := rfl
  exact ⟨names, lowered, lowered_code_self_contained names lowered⟩

end TailLoop
