import TailLoop.Code.Draft
import TailLoop.Proofs.BlockGrammar
import TailLoop.Proofs.TermReading

/-!
# Reading lines back

A line is read by its first word: a variable starts an assignment, and the other
lines start with a word of their own.  Every line that is printed for a
statement whose code has a meaning is read back, at any depth.  A test is
printed as a comparison, and the guard holds when the comparison does.
-/

namespace TailLoop.Code

namespace Reading

/-- Two terms and what is asked of their values. -/
structure Comparison where
  op : CompareOp
  left : Term
  right : Term

def comparison? (scope : List Var) (tokens : List Token) : Option Comparison :=
  match run scope ⟨[.conversion], none⟩ tokens with
  | some ⟨[.comparison op left], some (.term right)⟩ => some ⟨op, left, right⟩
  | _ => none

/-- The subject of a comparison and what is asked of it.  The constructor with
the tag does not stand in the code; it is called by the given name. -/
def Comparison.guard? (ctor : Name) : Comparison → Option (Var × Guard)
  | ⟨.eq, .item (.var subject) 0, .int tag⟩ => some (subject, .hasTag tag ctor)
  | ⟨.lt, .item (.var subject) 0, .int tag⟩ => some (subject, .tagBelow tag)
  | ⟨.eq, .var subject, value⟩ => some (subject, .equals value)
  | _ => none

inductive Line where
  | statement (stmt : Stmt)
  | test (leading : Bool) (subject : Var) (guard : Guard)
  | otherwise
  | result (value : Term)
  | trace

inductive Keyword where
  | continue
  | error
  | return
  | if
  | elif
  | else
  | print

def Keyword.text : Keyword → Text
  | .continue => "continue"
  | .error => "rts_error"
  | .return => "return"
  | .if => "if"
  | .elif => "elif"
  | .else => "else"
  | .print => "print"

def Keyword.all : List Keyword :=
  [.continue, .error, .return, .if, .elif, .else, .print]

def Keyword.of? (word : Text) : Option Keyword :=
  all.find? fun keyword => keyword.text = word

section Lines

variable (scope : List Var) (ctor : Name)

def name? (word : Text) : Option Name :=
  match var? scope word with
  | some (.named name) => some name
  | _ => none

/-- Names with a comma after each. -/
def names? : List Token → Option (List Name)
  | [] => some []
  | .word word :: .mark .comma :: tokens =>
      (name? scope word).bind fun name => (names? tokens).map (name :: ·)
  | _ => none

/-- The values of a row of targets: as many terms, or the fields of a
subject. -/
def assigned? (targets : List Name) (tokens : List Token) : Option Stmt :=
  match run scope ⟨[.group []], none⟩ tokens with
  | some ⟨[.group values], none⟩ => some (.rebind targets values)
  | _ =>
      match tokens with
      | .word subject :: slice =>
          if slice = [.mark .openingIndex, .word "1", .mark .colon,
            .mark .closingIndex] then
            (var? scope subject).map (.unpack targets)
          else none
      | _ => none

def assignedTo? (values : List Token) : List Token → Option Stmt
  | [.word target] =>
      (var? scope target).bind fun target =>
        (term? scope values).map (.assign target)
  | targets =>
      (names? scope targets).bind fun targets => assigned? scope targets values

def assignment? (tokens : List Token) : Option Stmt :=
  match tokens.dropWhile (· ≠ .word "=") with
  | [] => none
  | _ :: values =>
      assignedTo? scope values (tokens.takeWhile (· ≠ .word "="))

def test? (leading : Bool) (tokens : List Token) : Option Line :=
  if tokens.getLast? = some (.mark .colon) then
    ((comparison? scope tokens.dropLast).bind (Comparison.guard? ctor)).map
      fun test => .test leading test.1 test.2
  else none

def line? : List Token → Option Line
  | .word word :: tokens =>
      match Keyword.of? word with
      | none => (assignment? scope (.word word :: tokens)).map .statement
      | some .continue =>
          if tokens = [] then some (.statement .continue) else none
      | some .error =>
          if tokens = [.mark .opening, .literal "unreachable case",
            .mark .closing] then some (.statement .unreachable)
          else none
      | some .return => (term? scope tokens).map .result
      | some .if => test? scope ctor true tokens
      | some .elif => test? scope ctor false tokens
      | some .else => if tokens = [.mark .colon] then some .otherwise else none
      | some .print => some .trace
  | _ => none

end Lines

variable (scope : List Var) (ctor : Name) in
def readLine? (text : Text) : Option Line :=
  (cut (.code []) text).bind (line? scope ctor)

/-- The number of steps that a line is indented by. -/
def depth (text : Text) : Nat :=
  (text.takeWhile fun (c : CodePoint) => c = ' ').length / 4

variable {scope : List Var} {ctor : Name}

@[simp] theorem isApart_keyword (keyword : Keyword) :
    keyword.text.isApart = true := by
  cases keyword <;> decide

@[simp] theorem Keyword.of?_text (keyword : Keyword) :
    of? keyword.text = some keyword := by
  cases keyword <;> rfl

theorem isToken_keyword (keyword : Keyword) : IsToken keyword.text := by
  cases keyword <;> exact ⟨by decide, by decide⟩

theorem leads_keyword (keyword : Keyword) :
    Leads (keyword.text ++ " ") [.word keyword.text] :=
  (cuts_word (isToken_keyword keyword)).append (parts_blank []) leads_blank

@[simp] theorem Keyword.of?_identifier (v : Var) :
    Keyword.of? v.identifier = none := by
  refine List.find?_eq_none.mpr fun keyword _ same => ?_
  have apart := isApart_keyword keyword
  rw [of_decide_eq_true same, v.isRendered_identifier.isApart_eq_false] at apart
  cases apart

theorem identifier_ne_sign (v : Var) : Token.word v.identifier ≠ .word "=" := by
  intro same
  have apart := v.isRendered_identifier.isApart_eq_false
  rw [Token.word.inj same] at apart
  cases apart

@[simp] theorem line?_identifier (v : Var) (tokens : List Token) :
    line? scope ctor (.word v.identifier :: tokens) =
      (assignment? scope (.word v.identifier :: tokens)).map .statement := by
  rw [line?, Keyword.of?_identifier]

theorem assignment?_eq {targets : List Token} (values : List Token)
    (apart : ∀ token ∈ targets, token ≠ .word "=") :
    assignment? scope (targets ++ .word "=" :: values) =
      assignedTo? scope values targets := by
  have all : ∀ token ∈ targets, decide (token ≠ .word "=") = true :=
    fun token member => decide_eq_true (apart token member)
  have stop : decide (Token.word "=" ≠ .word "=") = false := rfl
  rw [assignment?, List.dropWhile_append_of_pos all,
    List.takeWhile_append_of_pos all, List.dropWhile_cons, List.takeWhile_cons,
    stop]
  exact congrArg (assignedTo? scope values) (List.append_nil targets)

/-- The text is a line at the margin, and is read as the line. -/
structure IsLine (scope : List Var) (ctor : Name) (text : Text) (line : Line) :
    Prop where
  reads : readLine? scope ctor text = some line
  margin : text.head? ≠ some ' '

@[simp] theorem depth_indented (text : Text) :
    depth (indentation ++ text) = depth text + 1 := by
  have blanks :
      (indentation ++ text).takeWhile (fun (c : CodePoint) => c = ' ') =
      indentation ++ text.takeWhile (fun (c : CodePoint) => c = ' ') := rfl
  have four : indentation.length = 4 := rfl
  rw [depth, blanks, List.length_append, four, Nat.add_comm,
    Nat.add_div_right _ (by decide)]
  rfl

@[simp] theorem cut_indented (text : Text) :
    cut (.code []) (indentation ++ text) = cut (.code []) text := by
  have two := leads_blank.append leads_blank
  have four : Leads indentation [] := two.append two
  rw [four]
  exact Option.map_id'

theorem IsLine.depth_eq {text : Text} {line : Line}
    (isLine : IsLine scope ctor text line) (steps : Nat) :
    depth (Draft.indentedBy steps text) = steps := by
  induction steps with
  | zero =>
      have margin := isLine.margin
      have start : Draft.indentedBy 0 text = text := rfl
      rw [start, depth]
      cases text with
      | nil => rfl
      | cons c text =>
          have other : c ≠ ' ' := fun same => margin (congrArg some same)
          rw [List.takeWhile_cons_of_neg (by simpa using other)]
          rfl
  | succ steps ih => rw [Draft.indentedBy_succ, depth_indented, ih]

theorem IsLine.readLine?_eq {text : Text} {line : Line}
    (isLine : IsLine scope ctor text line) (steps : Nat) :
    readLine? scope ctor (Draft.indentedBy steps text) = some line := by
  induction steps with
  | zero => exact isLine.reads
  | succ steps ih =>
      rw [Draft.indentedBy_succ, readLine?, cut_indented]
      exact ih

theorem margin_identifier (v : Var) (text : Text) :
    (v.identifier ++ text).head? ≠ some ' ' := by
  obtain ⟨c, rest, form, letter⟩ := v.isRendered_identifier.exists_letter
  rw [form]
  intro blank
  cases Option.some.inj blank
  exact absurd letter (by decide)

/-- A line that starts with a variable is an assignment. -/
theorem isLine_of_assigned {v : Var} {text : Text} {targets values : List Token}
    {stmt : Stmt} (margin : text.head? ≠ some ' ')
    (cuts : Cuts text (.word v.identifier :: targets ++ [.word "="] ++ values))
    (apart : ∀ token ∈ targets, token ≠ .word "=")
    (assigned : assignedTo? scope values (.word v.identifier :: targets) =
      some stmt) :
    IsLine scope ctor text (.statement stmt) := by
  refine ⟨?_, margin⟩
  have whole : ∀ token ∈ .word v.identifier :: targets, token ≠ .word "=" := by
    intro token member
    rcases List.mem_cons.mp member with rfl | later
    · exact identifier_ne_sign v
    · exact apart token later
  rw [readLine?, cuts.cut_eq, Option.bind_some, List.append_assoc,
    List.cons_append, line?_identifier, ← List.cons_append,
    List.singleton_append, assignment?_eq values whole, assigned,
    Option.map_some]

theorem isToken_sign : IsToken "=" :=
  ⟨by decide, by decide⟩

theorem leads_equals : Leads " = " [.word "="] :=
  leads_sign isToken_sign

theorem parts_equals : Parts " = " :=
  parts_blank "= "

theorem Reads.exists_term {text : Text} {term : Term}
    (reads : Reads scope text term) :
    ∃ tokens, Cuts text tokens ∧ term? scope tokens = some term := by
  obtain ⟨tokens, cuts, ran⟩ := reads
  refine ⟨tokens, cuts, ?_⟩
  rw [term?, ran]

theorem isLine_assign {target : Var} {value : Term} {text : Text}
    (known : target ∈ scope) (reads : Reads scope text value) :
    IsLine scope ctor (target.identifier ++ " = " ++ text)
      (.statement (.assign target value)) := by
  obtain ⟨tokens, cuts, read⟩ := reads.exists_term
  have head := (cuts_word (isToken_identifier target)).append parts_equals
    leads_equals
  refine isLine_of_assigned ?_ (head.append_cuts cuts) (List.forall_mem_nil _)
    ?_
  · rw [List.append_assoc]
    exact margin_identifier target _
  · rw [assignedTo?, var?_identifier known, read]
    rfl

def targetTokens (targets : List Name) : List Token :=
  targets.flatMap fun target => [.word target.identifier, .mark .comma]

theorem leads_target (target : Name) :
    Leads (target.identifier ++ ",") [.word target.identifier, .mark .comma] :=
  (cuts_word (isToken_identifier (.named target))).append (parts_mark rfl [])
    (leads_mark rfl)

theorem leads_targets (targets : List Name) :
    Leads (targetsText targets) (targetTokens targets) := by
  unfold targetsText Text.join
  induction targets with
  | nil => exact fun rest => Option.map_id'.symm
  | cons target targets ih =>
      cases targets with
      | nil =>
          rw [List.map_singleton, List.intercalate_singleton]
          exact leads_target target
      | cons next targets =>
          rw [List.map_cons, List.map_cons, List.intercalate_cons_cons]
          exact ((leads_target target).append leads_blank).append ih

theorem names?_targets {targets : List Name}
    (known : ∀ target ∈ targets, Var.named target ∈ scope) :
    names? scope (targetTokens targets) = some targets := by
  induction targets with
  | nil => rfl
  | cons target targets ih =>
      obtain ⟨own, others⟩ := List.forall_mem_cons.mp known
      have found : var? scope target.identifier = some (.named target) :=
        var?_identifier own
      have form : targetTokens (target :: targets) =
          .word target.identifier :: .mark .comma :: targetTokens targets := rfl
      rw [form, names?, name?, found, ih others]
      rfl

theorem ne_sign_of_mem_targetTokens {targets : List Name} :
    ∀ token ∈ targetTokens targets, token ≠ .word "=" := by
  intro token member
  obtain ⟨target, -, inside⟩ := List.mem_flatMap.mp member
  rcases List.mem_pair.mp inside with rfl | rfl
  · exact identifier_ne_sign (.named target)
  · rintro ⟨⟩

theorem isLine_targets {targets : List Name} {values : List Token} {text : Text}
    {stmt : Stmt} (nonempty : targets ≠ [])
    (known : ∀ target ∈ targets, Var.named target ∈ scope)
    (cuts : Cuts text values)
    (assigned : assigned? scope targets values = some stmt) :
    IsLine scope ctor (targetsText targets ++ " = " ++ text)
      (.statement stmt) := by
  have named := names?_targets known
  have head := (leads_targets targets).append leads_equals
  have apart := @ne_sign_of_mem_targetTokens targets
  cases targets with
  | nil => exact (nonempty rfl).elim
  | cons target targets =>
      refine isLine_of_assigned (v := .named target) ?_ (head.append_cuts cuts)
        (List.forall_mem_cons.mp apart).2 ?_
      · rw [targetsText, List.map_cons, Text.join_cons, List.append_assoc,
          List.append_assoc, List.append_assoc]
        exact margin_identifier (.named target) _
      · have whole :
            assignedTo? scope values (targetTokens (target :: targets)) =
            (names? scope (targetTokens (target :: targets))).bind
              fun targets => assigned? scope targets values := rfl
        rw [named] at whole
        exact whole.trans assigned

theorem leads_slice : Leads "[1:]"
    [.mark .openingIndex, .word "1", .mark .colon, .mark .closingIndex] := by
  have number : IsToken "1" := ⟨by decide, by decide⟩
  have head := (leads_mark (c := '[') rfl).append_cuts (cuts_word number)
  have tail := (leads_mark (c := ':') rfl).append (leads_mark (c := ']') rfl)
  exact head.append (parts_mark rfl _) tail

theorem isLine_unpack {targets : List Name} {subject : Var}
    (nonempty : targets ≠ [])
    (known : ∀ target ∈ targets, Var.named target ∈ scope)
    (subjectKnown : subject ∈ scope) :
    IsLine scope ctor (targetsText targets ++ " = " ++ subject.identifier ++
      "[1:]") (.statement (.unpack targets subject)) := by
  have cuts :=
    (cuts_word (isToken_identifier subject)).append (parts_mark rfl _)
    leads_slice
  rw [List.append_assoc]
  refine isLine_targets nonempty known cuts.cuts ?_
  have stuck : run scope ⟨[.group []], none⟩ ([.word subject.identifier] ++
      [.mark .openingIndex, .word "1", .mark .colon, .mark .closingIndex]) =
        none := by
    rw [run_append (run_identifier subjectKnown _)]
    exact run_append (run_ofInt 1 _)
  unfold assigned?
  rw [stuck]
  exact congrArg (·.map (Stmt.unpack targets)) (var?_identifier subjectKnown)

theorem isLine_rebind {restart : Text} {targets : List Name}
    {values : List Term} (nonempty : targets ≠ [])
    (known : ∀ target ∈ targets, Var.named target ∈ scope)
    (each : ∀ value ∈ values, Reads scope (value.text restart) value) :
    IsLine scope ctor (targetsText targets ++ " = " ++
        Text.join " " (values.map fun value => value.text restart ++ ","))
      (.statement (.rebind targets values)) := by
  obtain ⟨tokens, cuts, ran⟩ := readsBehind_each collects_group each []
  refine isLine_targets nonempty known cuts ?_
  unfold assigned?
  rw [ran []]
  rfl

theorem isLine_of_cut {text : Text} {tokens : List Token} {line : Line}
    (cuts : cut (.code []) text = some tokens)
    (read : line? scope ctor tokens = some line)
    (margin : text.head? ≠ some ' ') :
    IsLine scope ctor text line :=
  ⟨by rw [readLine?, cuts, Option.bind_some, read], margin⟩

theorem isLine_continue : IsLine scope ctor "continue" (.statement .continue) :=
  isLine_of_cut rfl rfl (by decide)

theorem isLine_unreachable :
    IsLine scope ctor unreachableText (.statement .unreachable) := by
  have opens : Leads "rts_error(" [.word "rts_error", .mark .opening] :=
    (cuts_word (isToken_keyword .error)).append (parts_mark rfl [])
      leads_opening
  have whole := (opens.append (leads_quoted "unreachable case")).append
    leads_closing
  exact isLine_of_cut whole.cuts.cut_eq rfl (by rintro ⟨⟩)

theorem isLine_otherwise : IsLine scope ctor "else:" .otherwise :=
  isLine_of_cut rfl rfl (by decide)

theorem isLine_return {value : Term} {text : Text}
    (reads : Reads scope text value) :
    IsLine scope ctor ("return " ++ text) (.result value) := by
  obtain ⟨tokens, cuts, read⟩ := reads.exists_term
  have keyword : Leads "return " [.word "return"] := leads_keyword .return
  refine isLine_of_cut (keyword.append_cuts cuts).cut_eq ?_ (by rintro ⟨⟩)
  exact congrArg (·.map Line.result) read

def Comparison.text (restart : Text) (comparison : Comparison) : Text :=
  comparison.left.text restart ++ (" " ++ comparison.op.text ++ " ") ++
    comparison.right.text restart

theorem Comparison.exists_tokens {comparison : Comparison} {restart : Text}
    (left : comparison.left.Readable scope)
      (right : comparison.right.Readable scope) :
    ∃ tokens, Cuts (comparison.text restart) tokens ∧
      comparison? scope tokens = some comparison := by
  obtain ⟨tokens, cuts, ran⟩ := readsBehind_compare comparison.op
    (left.reads restart) (right.reads restart)
  refine ⟨tokens, cuts, ?_⟩
  rw [comparison?, ran []]

/-- The word before a test. -/
def testKeyword (leading : Bool) : Keyword :=
  if leading then .if else .elif

theorem isLine_test {leading : Bool} {comparison : Comparison} {subject : Var}
    {guard : Guard} {restart remark : Text}
    (left : comparison.left.Readable scope)
      (right : comparison.right.Readable scope)
    (asks : comparison.guard? ctor = some (subject, guard))
    (passed : cut (.code []) remark = some []) :
    IsLine scope ctor ((testKeyword leading).text ++ " " ++
        (comparison.text restart ++ (":" ++ remark)))
      (.test leading subject guard) := by
  obtain ⟨tokens, cuts, read⟩ : ∃ tokens,
    Cuts (comparison.text restart) tokens ∧ _ :=
    Comparison.exists_tokens left right
  have colon : cut (.code []) (":" ++ remark) = some [.mark .colon] := by
    have leads : Leads ":" [.mark .colon] := leads_mark rfl
    rw [leads, passed]
    rfl
  have parts : Text.Stops inWord (":" ++ remark) := Text.stops_cons rfl
  have whole : cut (.code []) ((testKeyword leading).text ++ " " ++
      (comparison.text restart ++ (":" ++ remark))) =
        some (.word (testKeyword leading).text ::
          (tokens ++ [.mark .colon])) := by
    rw [leads_keyword, cuts _ parts, colon]
    rfl
  have test (leading : Bool) :
      test? scope ctor leading (tokens ++ [.mark .colon]) =
        some (.test leading subject guard) := by
    rw [test?, List.getLast?_concat, if_pos rfl, List.dropLast_concat, read,
      Option.bind_some, asks, Option.map_some]
  refine isLine_of_cut whole ?_ ?_
  · rw [line?, Keyword.of?_text]
    cases leading <;> exact test _
  · cases leading <;> rintro ⟨⟩

end Reading

open Reading

/-- The comparison that a guard makes of its subject. -/
def Guard.comparison? (subject : Var) : Guard → Option Comparison
  | .hasTag tag _ => some ⟨.eq, .item (.var subject) 0, .int tag⟩
  | .equals value => some ⟨.eq, .var subject, value⟩
  | .tagBelow tag => some ⟨.lt, .item (.var subject) 0, .int tag⟩
  | .otherwise => none

/-- The comment behind a test. -/
def Guard.remark (layout : Layout) : Guard → Text
  | .hasTag _ ctor => if layout.comments then "  # " ++ ctor.display else []
  | _ => []

theorem Guard.header_eq {subject : Var} {guard : Guard}
    {comparison : Comparison}
    (asks : guard.comparison? subject = some comparison) (layout : Layout)
    (leading : Bool) :
    guard.header layout leading subject = (testKeyword leading).text ++ " " ++
      (comparison.text layout.restart ++ (":" ++ guard.remark layout)) := by
  have keyword : (testKeyword leading).text ++ " " =
      if leading then Text.ofString "if " else "elif " := by
    cases leading <;> rfl
  rw [keyword]
  cases guard with
  | hasTag tag ctor =>
      cases asks
      simp only [header, Comparison.text, Term.text, remark, List.append_assoc]
      rfl
  | equals value =>
      cases asks
      simp only [header, Comparison.text, Term.text, remark, List.append_assoc]
      rfl
  | tagBelow tag =>
      cases asks
      simp only [header, Comparison.text, Term.text, remark, List.append_assoc]
      rfl
  | otherwise => cases asks

/-- A guard that holds or fails is a comparison that does. -/
theorem Guard.yields_of_holds? {module : Module} {self : Definition}
    {frame : Store Text} {subject : Var} {value : Value} {guard : Guard}
    {comparison : Comparison} {truth : Bool}
    (found : frame subject.identifier = some value)
    (asks : guard.comparison? subject = some comparison)
    (holds : guard.holds? value = some truth) :
    Term.Yields module self frame
      (.compare comparison.op comparison.left comparison.right)
      (Value.ofBool truth) := by
  cases guard with
  | hasTag tag ctor =>
      cases asks
      obtain ⟨first, item, result⟩ := Option.bind_eq_some_iff.mp holds
      exact .compare (.item (.var found) item) .int result
  | equals constant =>
      cases asks
      cases constant with
      | int n => exact .compare (.var found) .int holds
      | str text => exact .compare (.var found) .str holds
      | _ => cases holds
  | tagBelow tag =>
      cases asks
      obtain ⟨first, item, result⟩ := Option.bind_eq_some_iff.mp holds
      exact .compare (.item (.var found) item) .int result
  | otherwise => cases asks

end TailLoop.Code
