import TailLoop.Proofs.CodeShape
import TailLoop.Proofs.CompileAgreement
import TailLoop.Proofs.PrintedText

/-!
# Functions as indented blocks

The lines of a function follow a grammar of blocks.  A line that starts with
`def`, `while`, `if`, `elif` or `else` is a header and has a suite below it, one
step further in and not empty; other lines have none.  An `elif` or an `else`
goes on where the suite of an `if` or an `elif` ended.  Every `continue` stands
in the loop of the function and never in a function defined inside it.
-/

namespace TailLoop

/-- The row of word points at the start of a line. -/
def Text.firstWord (line : Text) : Text :=
  line.takeWhile CodePoint.isWordPoint

namespace Code

/-- The words at the start of the lines that open a suite. -/
def headerWords : List Text :=
  ["def", "while", "if", "elif", "else"]

/-- A line that starts with the word and ends in a colon; a comment may
follow. -/
def IsHeader (word header : Text) : Prop :=
  header.firstWord = word ∧
    ∃ start remark, header = start ++ ":" ++ remark ∧
      (remark = [] ∨ ∃ note : Text, remark = "  # " ++ note)

mutual

/-- The lines of a suite, without its indentation: one item after the other, and
at least one.  In a loop there may be a `continue`. -/
inductive IsSuite : Bool → List Text → Prop where
  | last {loop : Bool} {lines : List Text} : IsItem loop lines →
      IsSuite loop lines
  | next {loop : Bool} {lines rest : List Text} :
      IsItem loop lines → IsSuite loop rest → IsSuite loop (lines ++ rest)

inductive IsItem : Bool → List Text → Prop where
  | simple {loop : Bool} {line : Text} :
      line.firstWord ≠ [] →
      line.firstWord ∉ headerWords →
      (line.firstWord = "continue" → loop = true) →
      IsItem loop [line]
  | define {loop : Bool} {header : Text} {body : List Text} :
      IsHeader "def" header →
      IsSuite false body →
      IsItem loop (header :: indented body)
  | choice {loop : Bool} {header : Text} {body rest : List Text} :
      IsHeader "if" header →
      IsSuite loop body →
      IsContinuation loop rest →
      IsItem loop (header :: (indented body ++ rest))

/-- What may follow the suite of a test. -/
inductive IsContinuation : Bool → List Text → Prop where
  | nothing {loop : Bool} : IsContinuation loop []
  | test {loop : Bool} {header : Text} {body rest : List Text} :
      IsHeader "elif" header →
      IsSuite loop body →
      IsContinuation loop rest →
      IsContinuation loop (header :: (indented body ++ rest))
  | otherwise {loop : Bool} {header : Text} {body : List Text} :
      IsHeader "else" header →
      IsSuite loop body →
      IsContinuation loop (header :: indented body)

end

/-- A function, perhaps below a comment, whose suite is a loop. -/
inductive IsFunction : List Text → Prop where
  | intro {title : List Text} {header loopHeader : Text} {body : List Text} :
      (title = [] ∨ ∃ note : Text, title = [Text.ofString "# " ++ note]) →
      IsHeader "def" header →
      loopHeader = "while True:" →
      IsSuite true body →
      IsFunction (title ++ header :: indented (loopHeader :: indented body))

theorem IsFunction.ne_nil {lines : List Text} (function : IsFunction lines) :
    lines ≠ [] := by
  obtain ⟨-, -, -, -⟩ := function
  simp

theorem firstWord_append {word rest : Text} (isWord : word.IsWord)
    (stops : Text.Stops CodePoint.isWordPoint rest) :
    Text.firstWord (word ++ rest) = word :=
  Text.takeWhile_row isWord stops

/-- A line is told by its first word. -/
theorem isItem_of_word {loop : Bool} {word rest : Text} (isWord : word.IsWord)
    (some : word ≠ [])
    (different : word ∉ Text.ofString "continue" :: headerWords)
    (stops : Text.Stops CodePoint.isWordPoint rest) :
    IsItem loop [word ++ rest] := by
  rw [List.mem_cons, not_or] at different
  refine .simple ?_ ?_ ?_
  · rw [firstWord_append isWord stops]
    exact some
  · rw [firstWord_append isWord stops]
    exact different.2
  · rw [firstWord_append isWord stops]
    exact fun same => (different.1 same).elim

/-- An identifier is no header and no `continue`. -/
theorem isItem_of_isIdentifier {loop : Bool} {word rest : Text}
    (identifier : word.IsIdentifier)
    (stops : Text.Stops CodePoint.isWordPoint rest) :
    IsItem loop [word ++ rest] := by
  obtain ⟨isWord, c, member, notLetter⟩ := identifier
  refine isItem_of_word isWord (List.ne_nil_of_mem member) ?_ stops
  have keywords : ∀ keyword ∈ Text.ofString "continue" :: headerWords,
      keyword.all CodePoint.isLetter = true := by
    decide
  intro keyword
  rw [List.all_eq_true.mp (keywords word keyword) c member] at notLetter
  cases notLetter

theorem isItem_targets {loop : Bool} {targets : List Name} (some : targets ≠ [])
    (rest : Text) :
    IsItem loop [targetsText targets ++ rest] := by
  cases targets with
  | nil => exact (some rfl).elim
  | cons target targets =>
      have start : ∃ more, targetsText (target :: targets) ++ rest =
          target.identifier ++ ("," ++ more) := by
        cases targets with
        | nil =>
            rw [targetsText, List.map_cons, List.map_nil, Text.join,
              List.intercalate_singleton, List.append_assoc]
            exact ⟨rest, rfl⟩
        | cons next targets =>
            rw [targetsText, List.map_cons, List.map_cons, Text.join,
              List.intercalate_cons_cons]
            simp only [List.append_assoc]
            exact ⟨_, rfl⟩
      obtain ⟨more, parts⟩ := start
      rw [parts]
      exact isItem_of_isIdentifier target.isIdentifier_identifier
        (Text.stops_cons (by decide))

theorem isItem_return (loop : Bool) (value : Text) :
    IsItem loop ["return " ++ value] := by
  have isWord : Text.IsWord "return" := by
    unfold Text.IsWord Text.Only
    decide
  change IsItem loop [Text.ofString "return" ++ (Text.ofString " " ++ value)]
  exact isItem_of_word isWord (by decide) (by decide)
    (Text.stops_cons (by decide))

theorem isItem_raise (loop : Bool) (message : Text) :
    IsItem loop [raiseText message] := by
  have isWord : Text.IsWord "rts_error" := by
    unfold Text.IsWord Text.Only
    decide
  have parts : raiseText message = Text.ofString "rts_error" ++
      (Text.ofString "(" ++ (Text.quoted message ++ Text.ofString ")")) := by
    rw [raiseText, ← List.append_assoc, ← List.append_assoc]
    rfl
  rw [parts]
  exact isItem_of_word isWord (by decide) (by decide)
    (Text.stops_cons (by decide))

theorem isHeader_def (rest : Text) : IsHeader "def" ("def " ++ rest ++ ":") :=
  ⟨rfl, _, [], (List.append_nil _).symm, .inl rfl⟩

/-- The first line of a clause with a test. -/
theorem isHeader_test (layout : Layout) (leading : Bool) (subject : Var)
    {guard : Guard} (tests : guard.isOtherwise = false) :
    IsHeader (if leading then "if" else "elif")
      (guard.header layout leading subject) := by
  have keyword (rest : Text) : Text.firstWord
      ((if leading then Text.ofString "if " else Text.ofString "elif ") ++
        rest) =
        if leading then Text.ofString "if" else Text.ofString "elif" := by
    cases leading <;> rfl
  cases guard with
  | hasTag tag ctor =>
      refine ⟨?_, _, _, rfl, ?_⟩
      · simp only [Guard.header, List.append_assoc, keyword]
      · split
        · exact .inr ⟨_, rfl⟩
        · exact .inl rfl
  | equals value =>
      refine ⟨?_, _, [], (List.append_nil _).symm, .inl rfl⟩
      simp only [Guard.header, List.append_assoc, keyword]
  | tagBelow tag =>
      refine ⟨?_, _, [], (List.append_nil _).symm, .inl rfl⟩
      simp only [Guard.header, List.append_assoc, keyword]
  | otherwise => cases tests

namespace Stmt

variable {layout : Layout} {loop : Bool}

theorem isSuite_append {stmts : List Stmt} {rest : List Text}
    (items : ∀ stmt ∈ stmts, IsItem loop (stmt.lines layout))
    (suite : IsSuite loop rest) :
    IsSuite loop (linesList layout stmts ++ rest) := by
  induction stmts with
  | nil => exact suite
  | cons stmt stmts ih =>
      rw [linesList, List.append_assoc]
      exact .next (items stmt List.mem_cons_self)
        (ih fun later member => items later (List.mem_cons_of_mem _ member))

theorem isSuite_of_ne_nil {stmts : List Stmt}
    (items : ∀ stmt ∈ stmts, IsItem loop (stmt.lines layout))
    (some : stmts ≠ []) :
    IsSuite loop (linesList layout stmts) := by
  induction stmts with
  | nil => exact (some rfl).elim
  | cons stmt stmts ih =>
      obtain ⟨item, later⟩ := List.forall_mem_cons.mp items
      cases stmts with
      | nil =>
          rw [linesList, linesList, List.append_nil]
          exact .last item
      | cons next stmts => exact .next item (ih later (List.cons_ne_nil _ _))

mutual

/-- A formed statement prints as an item. -/
theorem isItem_lines (layout : Layout) (loop : Bool) (stmt : Stmt)
    (formed : stmt.Formed loop) :
    IsItem loop (stmt.lines layout) := by
  cases stmt with
  | assign target value =>
      rw [lines, List.append_assoc]
      exact isItem_of_isIdentifier target.isIdentifier_identifier
        (Text.stops_cons (by decide))
  | unpack targets subject =>
      rw [lines, List.append_assoc, List.append_assoc]
      exact isItem_targets formed _
  | rebind targets values =>
      rw [lines, List.append_assoc]
      exact isItem_targets formed _
  | «continue» => exact .simple (by decide) (by decide) fun _ => formed
  | unreachable => exact isItem_raise loop _
  | branch subject clauses =>
      cases clauses with
      | nil => cases formed
      | cons clause clauses =>
          obtain ⟨guard, body⟩ := clause
          obtain ⟨last, some, bodyFormed, rest⟩ := formed
          have tests : guard.isOtherwise = false := by
            rw [Bool.eq_false_iff]
            intro untested
            cases (last untested).1
          exact .choice (isHeader_test layout true subject tests)
            (isSuite_of_ne_nil (isItem_linesList layout loop body bodyFormed)
              some)
            (isContinuation_clausesLines layout loop subject clauses rest)
  | define name params frozen body result =>
      have parts :
          "def " ++ name.identifier ++ "(" ++ paramsText params frozen ++ "):" =
          "def " ++ (name.identifier ++ "(" ++ paramsText params frozen ++
            ")") ++ ":" := by
        simp only [List.append_assoc]
        rfl
      rw [lines, parts]
      exact .define (isHeader_def _) (isSuite_append
        (isItem_linesList layout false body formed)
        (.last (isItem_return false _)))

theorem isItem_linesList (layout : Layout) (loop : Bool) (stmts : List Stmt)
    (formed : FormedList loop stmts) :
    ∀ stmt ∈ stmts, IsItem loop (stmt.lines layout) := by
  cases stmts with
  | nil => exact List.forall_mem_nil _
  | cons stmt stmts =>
      exact List.forall_mem_cons.mpr
        ⟨isItem_lines layout loop stmt formed.1,
          isItem_linesList layout loop stmts formed.2⟩

theorem isContinuation_clausesLines (layout : Layout) (loop : Bool)
    (subject : Var) (clauses : List Clause)
    (formed : FormedClauses loop false clauses) :
    IsContinuation loop (clausesLines layout subject false clauses) := by
  cases clauses with
  | nil => exact .nothing
  | cons clause clauses =>
      obtain ⟨guard, body⟩ := clause
      obtain ⟨last, some, bodyFormed, rest⟩ := formed
      have suite :=
        isSuite_of_ne_nil (isItem_linesList layout loop body bodyFormed) some
      cases tests : guard.isOtherwise with
      | false =>
          exact .test (isHeader_test layout false subject tests) suite
            (isContinuation_clausesLines layout loop subject clauses rest)
      | true =>
          obtain ⟨-, rfl⟩ := last tests
          cases guard with
          | otherwise =>
              rw [clausesLines, clausesLines, List.append_nil]
              exact .otherwise ⟨rfl, "else", [], rfl, .inl rfl⟩ suite
          | _ => cases tests

end

end Stmt

namespace Draft

theorem indentedBy_succ (steps : Nat) (line : Text) :
    indentedBy (steps + 1) line = indentation ++ indentedBy steps line := by
  rw [indentedBy, indentedBy, List.replicate_succ, List.flatten_cons,
    List.append_assoc]

@[simp] theorem map_indented (steps : Nat) (lines : List Text) :
    (indented lines).map (indentedBy steps) =
      lines.map (indentedBy (steps + 1)) := by
  rw [indented, List.map_map]
  refine List.map_congr_left fun line _ => ?_
  rw [Function.comp_apply, indentedBy, indentedBy, List.replicate_succ',
    List.flatten_append, List.flatten_singleton, List.append_assoc]

theorem emitAll_eq (lines : List Text) (draft : Draft) :
    draft.emitAll lines =
      { draft with lines := draft.lines ++
                     lines.map (indentedBy draft.indent) } := by
  induction lines generalizing draft with
  | nil => simp [emitAll]
  | cons line lines ih =>
      have step :
          draft.emitAll (line :: lines) = (draft.emit line).emitAll lines := rfl
      rw [step, ih]
      simp [emit]

end Draft

end Code

namespace Function

open Code

/-- A function is its title, its header and the loop below it. -/
theorem frame_eq (options : ScriptOptions) (function : Function)
    (body : List Text) :
    function.frame options body =
      (if options.comments then ["# " ++ function.name.display] else []) ++
        function.header :: indented ("while True:" ::
          indented ((if options.trace then [function.traceLine] else []) ++
            body)) := by
  have outer : Draft.indentedBy 0 = id := by
    funext line
    rfl
  have inner :
      Draft.indentedBy 2 = (indentation ++ ·) ∘ (indentation ++ ·) := by
    funext line
    rfl
  simp only [frame, Draft.within, Draft.emit, Draft.emitAll_eq, Draft.empty,
    outer, inner, List.map_id, List.nil_append, indented, List.map_cons,
    List.map_map, List.append_assoc, List.cons_append]
  rfl

theorem isItem_traceLine (function : Function) (loop : Bool) :
    IsItem loop [function.traceLine] := by
  have isWord : Text.IsWord "print" := by
    unfold Text.IsWord Text.Only
    decide
  simp only [traceLine, List.append_assoc]
  change IsItem loop [Text.ofString "print" ++ (Text.ofString "(" ++ _)]
  exact isItem_of_word isWord (by decide) (by decide)
    (Text.stops_cons (by decide))

/-- The lines around a suite make a function. -/
theorem isFunction_frame (options : ScriptOptions) (function : Function)
    {body : List Text} (suite : IsSuite true body) :
    IsFunction (function.frame options body) := by
  rw [frame_eq]
  refine .intro ?_ (isHeader_def _) rfl ?_
  · split
    · exact .inr ⟨_, rfl⟩
    · exact .inl rfl
  · split
    · exact .next (isItem_traceLine function true) suite
    · exact suite

/-- The code of a function prints as the suite of its loop. -/
theorem isSuite_bodyLines {function : Function} {tags : TagTable}
    {block : Code.Block} (lowered : function.lower tags = .ok block)
    (layout : Layout) :
    IsSuite true (block.bodyLines layout) := by
  have items :=
    Stmt.isItem_linesList layout true block.statements (lower_formed lowered)
  unfold Block.bodyLines Block.statementLines
  dsimp only
  split
  · rename_i restarted
    rw [List.append_nil]
    exact Stmt.isSuite_of_ne_nil items (ne_nil_of_restart lowered restarted)
  · exact Stmt.isSuite_append items (.last (isItem_return true _))

section Legible

open Text (Only)

variable {legible : CodePoint → Prop} (covers : CoversPrintable legible)

include covers

theorem only_traceLine (function : Function) :
    Only legible function.traceLine := by
  have shown :
      Only legible (if (function.params.map Name.identifier).isEmpty then []
      else
        " % " ++
          tupleText ((function.params.map Name.identifier).map fun param =>
        callText "repr" [param])) := by
    split
    · exact .nil
    · refine (covers.visible (by decide)).append
        (only_tupleText covers fun item member => ?_)
      obtain ⟨param, paramMember, rfl⟩ := List.mem_map.mp member
      obtain ⟨name, -, rfl⟩ := List.mem_map.mp paramMember
      exact only_callText covers (covers.visible (by decide))
        (List.forall_mem_singleton.mpr (covers.numerals.nameIdentifier name))
  exact (((covers.visible (by decide)).append (covers.quoted _)).append
    shown).append (covers.visible (by decide))

theorem only_header (function : Function) : Only legible function.header := by
  refine covers.enclosed
    (only_callText covers (covers.numerals.nameIdentifier function.name)
    fun arg member => ?_) (by decide) (by decide)
  obtain ⟨name, -, rfl⟩ := List.mem_map.mp member
  exact covers.numerals.nameIdentifier name

theorem only_frame (options : ScriptOptions) (function : Function)
    {body : List Text} (bodyOnly : ∀ line ∈ body, Only legible line) :
    ∀ line ∈ function.frame options body, Only legible line := by
  rw [frame_eq]
  refine List.forall_mem_append.mpr ⟨?_, List.forall_mem_cons.mpr
    ⟨only_header covers function, only_indented covers (List.forall_mem_cons.mpr
      ⟨covers.visible (by decide),
        only_indented covers (List.forall_mem_append.mpr ⟨?_, bodyOnly⟩)⟩)⟩⟩
  · split
    · exact List.forall_mem_singleton.mpr
        ((covers.visible (by decide)).append (covers.display function.name))
    · exact List.forall_mem_nil _
  · split
    · exact List.forall_mem_singleton.mpr (only_traceLine covers function)
    · exact List.forall_mem_nil _

/-- Printed code is legible if the names of the foreign functions are. -/
theorem only_bodyLines {function : Function} {tags : TagTable}
    {block : Code.Block} (lowered : function.lower tags = .ok block)
    (names : ∀ name, function.CallsForeign name → Only legible name)
    (comments : Bool) :
    ∀ line ∈ block.bodyLines (Layout.standard comments), Only legible line := by
  have restartOnly : Only legible (Layout.standard comments).restart :=
    only_raiseText covers _
  have outcome := outcome
    ((Term.closed_isLegible covers (Layout.standard comments).restart).kept _)
    names lowered
  refine List.forall_mem_append.mpr
    ⟨Stmt.only_linesList covers block.statements outcome.meets, ?_⟩
  split
  · exact List.forall_mem_nil _
  · refine List.forall_mem_singleton.mpr
      ((covers.visible (by decide)).append ?_)
    rcases outcome.good with legible | ⟨-, isRestart, -⟩
    · exact legible
    · rw [isRestart]
      exact restartOnly

end Legible

end Function

namespace Text

theorem split_append {separator : CodePoint} {part : Text}
    (absent : separator ∉ part) (rest : Text) :
    split separator (part ++ separator :: rest) = part ::
      split separator rest := by
  induction part with
  | nil => rw [List.nil_append, split, if_pos rfl]
  | cons c part ih =>
      rw [List.mem_cons, not_or] at absent
      rw [List.cons_append, split, if_neg fun same => absent.1 same.symm,
        ih absent.2]

/-- A text of lines that each end in a separator is split into these lines. -/
theorem split_join {separator : CodePoint} {parts : List Text}
    (some : parts ≠ []) (absent : ∀ part ∈ parts, separator ∉ part) :
    split separator (join [separator] parts ++ [separator]) =
      parts ++ [[]] := by
  induction parts with
  | nil => exact (some rfl).elim
  | cons part parts ih =>
      obtain ⟨own, later⟩ := List.forall_mem_cons.mp absent
      cases parts with
      | nil =>
          rw [join, List.intercalate_singleton, split_append own]
          rfl
      | cons next parts =>
          rw [join, List.intercalate_cons_cons, ← join, List.append_assoc,
            List.append_assoc]
          rw [List.singleton_append, split_append own,
            ih (List.cons_ne_nil _ _) later]
          rfl

end Text

open Code Contract

/-- Every function of an accepted program prints as a block: its text has these
lines and they follow the grammar.  The lines hold no break, of any unprintable
kind, if the names of the foreign functions hold none.  Only an index that is
too long keeps a function from being printed. -/
theorem functions_print_as_blocks {program : Program} {function : Function}
    (accepted : (Checker.initial.check program).hasErrors = false)
    (defined : function ∈ program.functions) {isBreak : CodePoint → Bool}
    (newline : isBreak '\n' = true)
    (unprintable : ∀ c, isBreak c = true → c.isPrintable = false)
    (unbroken : ∀ name, function.CallsForeign name → ∀ c ∈ name,
      isBreak c = false) (options : ScriptOptions) :
    let tags := (Checker.initial.check program).tags
    (∃ text lines, function.text options tags = .ok text ∧
      text.split '\n' = lines ++ [[]] ∧ IsFunction lines ∧
      ∀ line ∈ lines, ∀ c ∈ line, isBreak c = false) ∨
    function.text options tags = .error .digitLimit ∧
    function.HasLongIndex := by
  obtain ⟨tags, built⟩ := Checker.ofConstructors_of_not_hasErrors accepted
  rw [Checker.tags_check_initial built]
  dsimp only
  cases lowered : function.lower tags with
  | error fault =>
      obtain ⟨rfl, long⟩ :=
        Function.lower_error_of_accepted built accepted defined lowered
      refine .inr ⟨?_, long⟩
      rw [Function.text, Function.lines, lowered]
      rfl
  | ok block =>
      have covers : CoversPrintable fun c => isBreak c = false := by
        intro c printable
        rw [Bool.eq_false_iff]
        intro breaks
        rw [unprintable c breaks] at printable
        cases printable
      have printed := Function.isFunction_frame options function
        (Function.isSuite_bodyLines lowered (Function.layout options))
      have clean := Function.only_frame covers options function
        (Function.only_bodyLines covers lowered unbroken options.comments)
      refine .inl ⟨_, _, ?_, Text.split_join printed.ne_nil ?_, printed, clean⟩
      · rw [Function.text, Function.lines, lowered]
        rfl
      · intro line member inLine
        rw [clean line member _ inLine] at newline
        cases newline

/-- A function that restarts itself with a deferred value that needs
statements. -/
def waiting : Function :=
  let later : Expr := .letIn (.user "t") (.foreign (.named "clock") [])
    (.var (.named (.user "t")))
  ⟨.user "wait", [.user "n"], .case (.var (.named (.user "n")))
    [.con (.user "Succ") [.user "m"]
      (.app (.var (.named (.user "wait"))) [.lazy later] false),
      .default (.var (.named (.user "n")))]⟩

def waitingProgram : Program :=
  ⟨[.constructor ⟨.user "Succ", 1, none⟩, .function waiting], .user "wait"⟩

theorem functions_print_as_blocks_waiting :
    let isBreak (c : CodePoint) : Bool := c = '\n' || c = '\r'
    (Checker.initial.check waitingProgram).hasErrors = false ∧
      ∀ options, ∃ text lines,
        waiting.text options (Checker.initial.check waitingProgram).tags =
          .ok text ∧
        text.split '\n' = lines ++ [[]] ∧ IsFunction lines ∧
        ∀ line ∈ lines, ∀ c ∈ line, isBreak c = false := by
  intro isBreak
  have accepted : (Checker.initial.check waitingProgram).hasErrors = false := by
    decide +kernel
  have unprintable : ∀ c, isBreak c = true → c.isPrintable = false := by
    intro c breaks
    simp only [isBreak, Bool.or_eq_true, decide_eq_true_eq] at breaks
    rcases breaks with rfl | rfl <;> decide +kernel
  have unbroken : ∀ name, waiting.CallsForeign name → ∀ c ∈ name,
      isBreak c = false := by
    rintro name ⟨args, within⟩
    have part := (Expr.mem_subexprs_iff _).mpr within
    simp only [waiting, Expr.subexprs, Expr.subexprsList, Expr.subexprsAlts,
      List.append_nil, List.mem_cons, List.mem_append, List.not_mem_nil,
      reduceCtorEq, Expr.foreign.injEq, ForeignTarget.named.injEq, or_false,
      false_or] at part
    obtain ⟨rfl, -⟩ := part
    decide
  have short : ¬ waiting.HasLongIndex := by
    rintro ⟨body, index, part, -⟩
    simp [waiting, Expr.subexprs, Expr.subexprsList, Expr.subexprsAlts] at part
  refine ⟨accepted, fun options => ?_⟩
  rcases functions_print_as_blocks accepted (List.mem_singleton.mpr rfl)
    rfl unprintable
    unbroken options with printed | ⟨-, long⟩
  · exact printed
  · exact (short long).elim

end TailLoop
