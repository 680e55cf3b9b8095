import TailLoop.Proofs.Execution
import TailLoop.Proofs.PrintedText
import TailLoop.Proofs.SafeIdentifiers

/-!
# Reading terms back

Printed code is cut into words, literals and marks, and a term is put together
from them, from left to right: a bracket is kept open until its counterpart
comes, with what was read behind it.  A term that has a meaning is printed so
that it is read back.  So an operator is printed by the word of its operation,
and the operands of an operation stand where they belong.
-/

namespace TailLoop.Code

open Lexical (Quote)

def BinaryOp.read? (word : Text) : Option BinaryOp :=
  if word = "+" then some .add
  else if word = "-" then some .sub
  else if word = "*" then some .mul
  else if word = "%" then some .mod
  else if word = "/" then some .div
  else if word = "//" then some .floorDiv
  else none

def CompareOp.read? (word : Text) : Option CompareOp :=
  if word = "==" then some .eq
  else if word = "<" then some .lt
  else if word = "<=" then some .le
  else if word = ">" then some .gt
  else if word = ">=" then some .ge
  else none

@[simp] theorem BinaryOp.read?_text (op : BinaryOp) :
    read? op.text = some op := by
  cases op <;> decide

@[simp] theorem CompareOp.read?_text (op : CompareOp) :
    read? op.text = some op := by
  cases op <;> decide

namespace Reading

/-- The marks that stand by themselves. -/
inductive Mark where
  | opening
  | closing
  | openingIndex
  | closingIndex
  | comma
  | colon
deriving DecidableEq

def Mark.of? (c : CodePoint) : Option Mark :=
  if c = '(' then some .opening
  else if c = ')' then some .closing
  else if c = '[' then some .openingIndex
  else if c = ']' then some .closingIndex
  else if c = ',' then some .comma
  else if c = ':' then some .colon
  else none

/-- The code points that a word goes on with. -/
def inWord (c : CodePoint) : Bool :=
  c ≠ ' ' && (Mark.of? c).isNone

/-- The code points that a word may start with. -/
def startsWord (c : CodePoint) : Bool :=
  inWord c && (Quote.of? c).isNone && c ≠ '#'

inductive Token where
  | word (text : Text)
  | literal (value : Text)
  | mark (mark : Mark)
deriving DecidableEq

/-- Where a reader stands: in code, after the points of a word, or in a literal
of which a part was read. -/
inductive Mode where
  | code (word : Text)
  | literal (quote : Quote) (state : Literal.State) (value : Text)

def finished (word : Text) : List Token :=
  if word = [] then [] else [.word word]

/-- The tokens of a line.  Blanks part words, and a comment is left out. -/
def cut : Mode → Text → Option (List Token)
  | .code word, [] => some (finished word)
  | .code word, c :: text =>
      if c = ' ' then (cut (.code []) text).map (finished word ++ ·)
      else
        match Mark.of? c with
        | some mark =>
            (cut (.code []) text).map (finished word ++ .mark mark :: ·)
        | none =>
            if word ≠ [] then cut (.code (word ++ [c])) text
            else if c = '#' then some []
            else
              match Quote.of? c with
              | some quote => cut (.literal quote .plain []) text
              | none => cut (.code [c]) text
  | .literal _ _ _, [] => none
  | .literal quote state value, c :: text =>
      match Literal.step quote state c with
      | none => none
      | some (read, .closed) =>
          (cut (.code []) text).map (.literal (value ++ read) :: ·)
      | some (read, state) => cut (.literal quote state (value ++ read)) text

/-- Between words the text is cut into the tokens, if no word goes on behind
it. -/
def Cuts (text : Text) (tokens : List Token) : Prop :=
  ∀ rest, Text.Stops inWord rest →
    cut (.code []) (text ++ rest) = (cut (.code []) rest).map (tokens ++ ·)

/-- Between words the text is cut into the tokens, whatever comes behind it. -/
def Leads (text : Text) (tokens : List Token) : Prop :=
  ∀ rest, cut (.code []) (text ++ rest) =
    (cut (.code []) rest).map (tokens ++ ·)

/-- The text starts with a blank or a mark, so that it ends a word. -/
def Parts (text : Text) : Prop :=
  text ≠ [] ∧ Text.Stops inWord text

theorem Parts.append {text : Text} (parts : Parts text) (rest : Text) :
    Text.Stops inWord (text ++ rest) := by
  obtain ⟨nonempty, stops⟩ := parts
  cases text with
  | nil => exact (nonempty rfl).elim
  | cons c text => exact Text.stops_cons (stops c text rfl)

theorem Leads.cuts {text : Text} {tokens : List Token}
    (leads : Leads text tokens) :
    Cuts text tokens :=
  fun rest _ => leads rest

section Append

variable {first second : Text} {tokens others : List Token}

theorem map_append (read : Option (List Token)) (tokens others : List Token) :
    (read.map (others ++ ·)).map (tokens ++ ·) =
      read.map (tokens ++ others ++ ·) := by
  cases read with
  | none => rfl
  | some tail => exact congrArg some (List.append_assoc _ _ _).symm

theorem Leads.append (leads : Leads first tokens) (next : Leads second others) :
    Leads (first ++ second) (tokens ++ others) := by
  intro rest
  rw [List.append_assoc, leads, next, map_append]

theorem Leads.append_cuts (leads : Leads first tokens)
    (next : Cuts second others) : Cuts (first ++ second)
      (tokens ++ others) := by
  intro rest stops
  rw [List.append_assoc, leads, next rest stops, map_append]

theorem Cuts.append (cuts : Cuts first tokens) (parts : Parts second)
    (next : Leads second others) : Leads (first ++ second)
      (tokens ++ others) := by
  intro rest
  rw [List.append_assoc, cuts _ (parts.append rest), next, map_append]

end Append

theorem leads_blank : Leads " " [] := by
  intro rest
  rfl

theorem leads_mark {c : CodePoint} {mark : Mark}
    (isMark : Mark.of? c = some mark) :
    Leads [c] [.mark mark] := by
  intro rest
  have notBlank : c ≠ ' ' := by
    rintro rfl
    cases isMark
  rw [List.cons_append, List.nil_append, cut, if_neg notBlank, isMark]
  rfl

theorem parts_mark {c : CodePoint} {mark : Mark}
    (isMark : Mark.of? c = some mark) (text : Text) : Parts (c :: text) := by
  refine ⟨List.cons_ne_nil _ _, Text.stops_cons ?_⟩
  rw [inWord, isMark]
  exact Bool.and_false _

theorem parts_blank (text : Text) : Parts (" " ++ text) :=
  ⟨List.cons_ne_nil _ _, Text.stops_cons rfl⟩

/-- A text that is one word. -/
def IsToken (text : Text) : Prop :=
  text ≠ [] ∧ ∀ c ∈ text, startsWord c = true

theorem cut_word {word more rest : Text} (begun : word ≠ [])
    (goesOn : ∀ c ∈ more, inWord c = true) (stops : Text.Stops inWord rest) :
    cut (.code word) (more ++ rest) =
      (cut (.code []) rest).map (.word (word ++ more) :: ·) := by
  induction more generalizing word with
  | nil =>
      rw [List.nil_append, List.append_nil]
      cases rest with
      | nil => rw [cut, cut, finished, if_neg begun]; rfl
      | cons c rest =>
          have outside := stops c rest rfl
          rw [cut, cut, finished, if_neg begun]
          by_cases blank : c = ' '
          · rw [if_pos blank, if_pos blank, Option.map_map]
            rfl
          · rw [if_neg blank, if_neg blank]
            cases marked : Mark.of? c with
            | none => simp [inWord, blank, marked] at outside
            | some mark =>
                dsimp only
                rw [Option.map_map]
                rfl
  | cons c more ih =>
      obtain ⟨own, later⟩ := List.forall_mem_cons.mp goesOn
      simp only [inWord, Bool.and_eq_true, decide_eq_true_eq,
        Option.isNone_iff_eq_none] at own
      rw [List.cons_append, cut, if_neg own.1, own.2]
      dsimp only
      rw [if_pos begun, ih (List.append_ne_nil_of_right_ne_nil _
        (List.cons_ne_nil _ _)) later, List.append_assoc]
      rfl

theorem cuts_word {text : Text} (isToken : IsToken text) :
    Cuts text [.word text] := by
  intro rest stops
  obtain ⟨nonempty, points⟩ := isToken
  cases text with
  | nil => exact (nonempty rfl).elim
  | cons c text =>
      obtain ⟨own, later⟩ := List.forall_mem_cons.mp points
      have goesOn : ∀ d ∈ text, inWord d = true := by
        intro d member
        have whole := later d member
        simp only [startsWord, Bool.and_eq_true] at whole
        exact whole.1.1
      simp only [startsWord, inWord, Bool.and_eq_true, decide_eq_true_eq,
        Option.isNone_iff_eq_none] at own
      obtain ⟨⟨⟨notBlank, noMark⟩, noQuote⟩, noComment⟩ := own
      rw [List.cons_append, cut, if_neg notBlank, noMark]
      dsimp only
      rw [if_neg (not_not_intro rfl), if_neg noComment, noQuote]
      exact cut_word (List.cons_ne_nil _ _) goesOn stops

theorem cut_literal {quote : Quote} {state : Literal.State}
    {text value done : Text} (rest : Text)
    (read : Literal.run quote state text = some (value, .closed))
    (opened : state ≠ .closed) :
    cut (.literal quote state done) (text ++ rest) =
      (cut (.code []) rest).map (.literal (done ++ value) :: ·) := by
  induction text generalizing state done value with
  | nil =>
      cases read
      exact (opened rfl).elim
  | cons c text ih =>
      obtain ⟨⟨first, next⟩, stepped, later⟩ := Option.bind_eq_some_iff.mp read
      obtain ⟨⟨others, last⟩, restRead, same⟩ := Option.map_eq_some_iff.mp later
      cases same
      rw [List.cons_append, cut, stepped]
      by_cases closed : next = .closed
      · subst closed
        cases text with
        | nil =>
            cases restRead
            rw [List.append_nil]
            rfl
        | cons d text => cases restRead
      · have step : cut (.literal quote next (done ++ first)) (text ++ rest) =
            (cut (.code []) rest).map
              (.literal (done ++ (first ++ others)) :: ·) := by
          rw [ih restRead closed, List.append_assoc]
        cases next with
        | closed => exact (closed rfl).elim
        | _ => exact step

theorem leads_quoted (text : Text) : Leads (Text.quoted text)
    [.literal text] := by
  intro rest
  obtain ⟨quote, chosen⟩ := Lexical.exists_point_eq_quoteFor text
  have opens (text : Text) : cut (.code []) (quote.point :: text) =
      cut (.literal quote .plain []) text := by
    cases quote <;> rfl
  have closes : Literal.run quote .plain [quote.point] =
      some ([], .closed) := by
    cases quote <;> rfl
  have read : Literal.run quote .plain
      (text.flatMap (Text.quotedPoint CodePoint.isPrintable quote.point) ++
        [quote.point]) = some (text, .closed) := by
    rw [Literal.run_append (Literal.run_quotedPoints _ quote text), closes,
      Option.map_some, List.append_nil]
  rw [Text.quoted, Text.quotedBy, chosen, List.cons_append, List.cons_append,
    opens, cut_literal rest read (by rintro ⟨⟩)]
  rfl

/-- What stands before an open bracket, and what was read behind it. -/
inductive Open where
  | group (items : List Term)
  | call (callee : Term) (args : List Term)
  | index (body : Term)
  | conversion
  | operation (op : BinaryOp) (left : Term)
  | comparison (op : CompareOp) (left : Term)

/-- A term, or the word that makes an integer of a truth value. -/
inductive Operand where
  | term (term : Term)
  | toInt

/-- How far code was read: the open brackets, the innermost one first, and the
operand at hand. -/
structure Progress where
  brackets : List Open
  operand : Option Operand

/-- The variable with the identifier. -/
def var? (scope : List Var) (word : Text) : Option Var :=
  scope.find? fun v => v.identifier = word

def operand? (scope : List Var) (word : Text) : Option Operand :=
  match var? scope word with
  | some v => some (.term (.var v))
  | none =>
      if word = "int" then some .toInt
      else (Literal.integer? word).map fun value => .term (.int value)

/-- The brackets after an operator with its left operand. -/
def operated? (word : Text) (left : Term) : List Open → Option (List Open)
  | .group [] :: brackets =>
      (BinaryOp.read? word).map fun op => .operation op left :: brackets
  | .conversion :: brackets =>
      (CompareOp.read? word).map fun op => .comparison op left :: brackets
  | _ => none

def opened : Option Operand → Open
  | none => .group []
  | some (.term callee) => .call callee []
  | some .toInt => .conversion

/-- The term that ends with a closing parenthesis. -/
def closed? : Open → Option Operand → Option Term
  | .group [], some (.term body) => some (.paren body)
  | .group items, some (.term last) => some (.tuple (items ++ [last]))
  | .group items, none => some (.tuple items)
  | .call callee args, some (.term last) => some (.call callee (args ++ [last]))
  | .call callee args, none => some (.call callee args)
  | .operation op left, some (.term right) => some (.binary op left right)
  | .comparison op left, some (.term right) => some (.compare op left right)
  | _, _ => none

def separated? : Open → Term → Option Open
  | .group items, item => some (.group (items ++ [item]))
  | .call callee args, arg => some (.call callee (args ++ [arg]))
  | _, _ => none

def step (scope : List Var) : Progress → Token → Option Progress
  | ⟨brackets, none⟩, .word word =>
      (operand? scope word).map fun operand => ⟨brackets, some operand⟩
  | ⟨brackets, some (.term left)⟩, .word word =>
      (operated? word left brackets).map fun brackets => ⟨brackets, none⟩
  | ⟨brackets, none⟩, .literal value =>
      some ⟨brackets, some (.term (.str value))⟩
  | ⟨brackets, operand⟩, .mark .opening =>
      some ⟨opened operand :: brackets, none⟩
  | ⟨bracket :: brackets, operand⟩, .mark .closing =>
      (closed? bracket operand).map fun term => ⟨brackets, some (.term term)⟩
  | ⟨brackets, some (.term body)⟩, .mark .openingIndex =>
      some ⟨.index body :: brackets, none⟩
  | ⟨.index body :: brackets, some (.term (.int index))⟩, .mark .closingIndex =>
      some ⟨brackets, some (.term (.item body index))⟩
  | ⟨bracket :: brackets, some (.term item)⟩, .mark .comma =>
      (separated? bracket item).map fun bracket => ⟨bracket :: brackets, none⟩
  | _, _ => none

def run (scope : List Var) (progress : Progress) (tokens : List Token) :
    Option Progress :=
  tokens.foldlM (step scope) progress

theorem run_append {scope : List Var} {first second : List Token}
    {before middle : Progress} (read : run scope before first = some middle) :
    run scope before (first ++ second) = run scope middle second := by
  rw [run, List.foldlM_append]
  exact congrArg (· >>= fun progress => run scope progress second) read

/-- The text of a term is cut into tokens that are read as the term. -/
def Reads (scope : List Var) (text : Text) (term : Term) : Prop :=
  ∃ tokens, Cuts text tokens ∧ ∀ brackets,
    run scope ⟨brackets, none⟩ tokens = some ⟨brackets, some (.term term)⟩

def term? (scope : List Var) (tokens : List Token) : Option Term :=
  match run scope ⟨[], none⟩ tokens with
  | some ⟨[], some (.term term)⟩ => some term
  | _ => none

/-- The term that a text stands for, with the variables in the scope. -/
def read? (scope : List Var) (text : Text) : Option Term :=
  (cut (.code []) text).bind (term? scope)

end Reading

open Reading

/-- The forms of terms that have a meaning, with variables in the scope. -/
inductive Term.Readable (scope : List Var) : Term → Prop where
  | var {v : Var} : v ∈ scope → Readable scope (.var v)
  | int (value : Int) : Readable scope (.int value)
  | str (value : Text) : Readable scope (.str value)
  | paren {body : Term} : Readable scope body → Readable scope (.paren body)
  | tuple {items : List Term} :
      (∀ item ∈ items, Readable scope item) → Readable scope (.tuple items)
  | item {body : Term} (index : Int) :
      Readable scope body → Readable scope (.item body index)
  | binary (op : BinaryOp) {left right : Term} :
      Readable scope left → Readable scope right →
      Readable scope (.binary op left right)
  | compare (op : CompareOp) {left right : Term} :
      Readable scope left → Readable scope right →
      Readable scope (.compare op left right)
  | call {callee : Term} {args : List Term} :
      Readable scope callee → (∀ arg ∈ args, Readable scope arg) →
      Readable scope (.call callee args)

namespace Reading

variable {scope : List Var}

theorem Cuts.cut_eq {text : Text} {tokens : List Token}
    (cuts : Cuts text tokens) :
    cut (.code []) text = some tokens := by
  have whole := cuts [] (by rintro _ _ ⟨⟩)
  rw [List.append_nil] at whole
  exact whole.trans (congrArg some (List.append_nil tokens))

theorem Reads.read? {text : Text} {term : Term}
    (reads : Reads scope text term) :
    read? scope text = some term := by
  obtain ⟨tokens, cuts, ran⟩ := reads
  rw [Reading.read?, cuts.cut_eq, Option.bind_some, term?, ran]

theorem startsWord_of_isWordPoint {c : CodePoint}
    (word : c.isWordPoint = true) :
    startsWord c = true := by
  by_contra outside
  have among : c = ' ' ∨ c = '(' ∨ c = ')' ∨ c = '[' ∨ c = ']' ∨ c = ',' ∨
      c = ':' ∨ c = '\'' ∨ c = '"' ∨ c = '#' := by
    simp only [startsWord, inWord, Mark.of?, Quote.of?, Bool.and_eq_true,
      decide_eq_true_eq] at outside
    grind
  rcases among with
    rfl | rfl | rfl | rfl | rfl | rfl | rfl | rfl | rfl | rfl <;>
    exact absurd word (by decide)

theorem isToken_identifier (v : Var) : IsToken v.identifier := by
  obtain ⟨word, c, member, -⟩ := v.isIdentifier_identifier
  exact ⟨List.ne_nil_of_mem member, fun c member =>
    startsWord_of_isWordPoint (word c member)⟩

theorem isToken_ofInt (n : Int) : IsToken (Text.ofInt n) := by
  have digits (n : Nat) : IsToken (Text.ofNat n) :=
    ⟨Text.ofNat_ne_nil n, fun c member =>
      startsWord_of_isWordPoint (Text.isWord_ofNat n c member)⟩
  cases n with
  | ofNat n => exact digits n
  | negSucc n =>
      exact ⟨List.cons_ne_nil _ _,
        List.forall_mem_cons.mpr ⟨by decide, (digits (n + 1)).2⟩⟩

theorem var?_identifier {v : Var} (known : v ∈ scope) :
    var? scope v.identifier = some v := by
  cases search : var? scope v.identifier with
  | none =>
      have absent := List.find?_eq_none.mp search v known
      exact (absent (decide_eq_true rfl)).elim
  | some other =>
      have same := List.find?_some search
      rw [Var.identifier_injective (of_decide_eq_true same)]

theorem operand?_identifier {v : Var} (known : v ∈ scope) :
    operand? scope v.identifier = some (.term (.var v)) := by
  rw [operand?, var?_identifier known]

theorem var?_eq_none {word : Text} (apart : ¬ word.IsRendered) :
    var? scope word = none := by
  refine List.find?_eq_none.mpr fun v _ same => apart ?_
  rw [← of_decide_eq_true same]
  exact v.isRendered_identifier

theorem not_isRendered_ofInt (n : Int) : ¬ (Text.ofInt n).IsRendered := by
  intro rendered
  obtain ⟨c, rest, form, letter⟩ := rendered.exists_letter
  cases n with
  | ofNat n =>
      have digit : c.isDigit = true :=
        Text.isDigit_of_mem_ofNat (form ▸ List.mem_cons_self)
      rw [CodePoint.isLetter_eq_false_of_isDigit digit] at letter
      cases letter
  | negSucc n =>
      obtain ⟨rfl, -⟩ := List.cons_eq_cons.mp form
      exact absurd letter (by decide)

@[simp] theorem operand?_ofInt (n : Int) :
    operand? scope (Text.ofInt n) = some (.term (.int n)) := by
  have different : Text.ofInt n ≠ "int" := by
    intro same
    have read := Literal.integer?_ofInt n
    rw [same] at read
    cases read
  rw [operand?, var?_eq_none (not_isRendered_ofInt n)]
  dsimp only
  rw [if_neg different, Literal.integer?_ofInt]
  rfl

@[simp] theorem operand?_int : operand? scope "int" = some .toInt := by
  have apart : ¬ Text.IsRendered "int" := by
    intro rendered
    have impossible := rendered.isApart_eq_false
    cases impossible
  rw [operand?, var?_eq_none apart]
  rfl

theorem run_identifier {v : Var} (known : v ∈ scope) (brackets : List Open) :
    run scope ⟨brackets, none⟩ [.word v.identifier] =
      some ⟨brackets, some (.term (.var v))⟩ := by
  rw [run, List.foldlM_cons, step, operand?_identifier known]
  rfl

@[simp] theorem run_ofInt (value : Int) (brackets : List Open) :
    run scope ⟨brackets, none⟩ [.word (Text.ofInt value)] =
      some ⟨brackets, some (.term (.int value))⟩ := by
  rw [run, List.foldlM_cons, step, operand?_ofInt]
  rfl

theorem reads_var {v : Var} (known : v ∈ scope) :
    Reads scope v.identifier (.var v) :=
  ⟨_, cuts_word (isToken_identifier v), run_identifier known⟩

theorem reads_int (value : Int) : Reads scope (Text.ofInt value) (.int value) :=
  ⟨_, cuts_word (isToken_ofInt value), run_ofInt value⟩

theorem reads_str (value : Text) : Reads scope (Text.quoted value)
    (.str value) :=
  ⟨_, (leads_quoted value).cuts, fun _ => rfl⟩

/-- The text is read behind an open bracket, which it turns into another one. -/
def ReadsBehind (scope : List Var) (before : Open) (text : Text) (after : Open)
    (operand : Option Operand) : Prop :=
  ∃ tokens, Cuts text tokens ∧ ∀ brackets,
    run scope ⟨before :: brackets, none⟩ tokens =
      some ⟨after :: brackets, operand⟩

theorem Reads.behind {text : Text} {term : Term} (reads : Reads scope text term)
    (bracket : Open) :
    ReadsBehind scope bracket text bracket (some (.term term)) := by
  obtain ⟨tokens, cuts, ran⟩ := reads
  exact ⟨tokens, cuts, fun brackets => ran (bracket :: brackets)⟩

theorem leads_opening : Leads "(" [.mark .opening] :=
  leads_mark rfl

theorem leads_closing : Leads ")" [.mark .closing] :=
  leads_mark rfl

/-- What is read between an opening and a closing parenthesis. -/
theorem ReadsBehind.closed {opening text : Text} {head : List Token}
    {before after : Open} {operand : Option Operand} {term : Term}
    (behind : ReadsBehind scope before text after operand)
    (opens : Leads opening head)
    (opened : ∀ brackets, run scope ⟨brackets, none⟩ head =
      some ⟨before :: brackets, none⟩)
    (closed : closed? after operand = some term) :
    Reads scope (opening ++ text ++ ")") term := by
  obtain ⟨tokens, cuts, ran⟩ := behind
  have whole := (opens.append_cuts cuts).append (parts_mark rfl [])
    leads_closing
  refine ⟨_, whole.cuts, fun brackets => ?_⟩
  rw [List.append_assoc, run_append (opened brackets),
    run_append (ran brackets), run, List.foldlM_cons, step, closed]
  rfl

theorem reads_paren {text : Text} {body : Term}
    (reads : Reads scope text body) :
    Reads scope ("(" ++ text ++ ")") (.paren body) :=
  (reads.behind (.group [])).closed leads_opening (fun _ => rfl) rfl

theorem reads_item {text : Text} {body : Term} (reads : Reads scope text body)
    (index : Int) :
    Reads scope (text ++ "[" ++ Text.ofInt index ++ "]")
      (.item body index) := by
  obtain ⟨tokens, cuts, ran⟩ := reads
  have head := cuts.append (parts_mark rfl []) (leads_mark (c := '[') rfl)
  have number := head.append_cuts (cuts_word (isToken_ofInt index))
  refine ⟨_,
    (number.append (parts_mark rfl []) (leads_mark (c := ']') rfl)).cuts,
    fun brackets => ?_⟩
  rw [List.append_assoc, List.append_assoc, run_append (ran _)]
  exact run_append (run_ofInt index _)

theorem leads_sign {sign : Text} (isToken : IsToken sign) :
    Leads (" " ++ sign ++ " ") [.word sign] :=
  (leads_blank.append_cuts (cuts_word isToken)).append
    (parts_blank []) leads_blank

/-- An operator between two operands. -/
theorem readsBehind_operation {op first second : Text} {before after : Open}
    {left right : Term} (isToken : IsToken op)
    (operated : ∀ brackets, operated? op left (before :: brackets) =
      some (after :: brackets))
    (leftReads : Reads scope first left)
    (rightReads : Reads scope second right) :
    ReadsBehind scope before (first ++ (" " ++ op ++ " ") ++ second) after
      (some (.term right)) := by
  obtain ⟨leftTokens, leftCuts, leftRan⟩ := leftReads
  obtain ⟨rightTokens, rightCuts, rightRan⟩ := rightReads
  have toRight := leftCuts.append (parts_blank (op ++ " ")) (leads_sign isToken)
  refine ⟨_, toRight.append_cuts rightCuts, fun brackets => ?_⟩
  have stepped : run scope ⟨before :: brackets, some (.term left)⟩ [.word op] =
      some ⟨after :: brackets, none⟩ := by
    rw [run, List.foldlM_cons, step, operated]
    rfl
  rw [List.append_assoc, run_append (leftRan _), run_append stepped]
  exact rightRan _

theorem readsBehind_binary (op : BinaryOp) {first second : Text}
    {left right : Term} (leftReads : Reads scope first left)
      (rightReads : Reads scope second right) :
    ReadsBehind scope (.group []) (first ++ (" " ++ op.text ++ " ") ++ second)
      (.operation op left) (some (.term right)) := by
  have isToken : IsToken op.text := by
    cases op <;> exact ⟨by decide, by decide⟩
  refine readsBehind_operation isToken (fun brackets => ?_) leftReads rightReads
  rw [operated?, BinaryOp.read?_text, Option.map_some]

theorem readsBehind_compare (op : CompareOp) {first second : Text}
    {left right : Term} (leftReads : Reads scope first left)
    (rightReads : Reads scope second right) :
    ReadsBehind scope .conversion (first ++ (" " ++ op.text ++ " ") ++ second)
      (.comparison op left) (some (.term right)) := by
  have isToken : IsToken op.text := by
    cases op <;> exact ⟨by decide, by decide⟩
  refine readsBehind_operation isToken (fun brackets => ?_) leftReads rightReads
  rw [operated?, CompareOp.read?_text, Option.map_some]

theorem leads_conversion : Leads "int(" [.word "int", .mark .opening] := by
  have conversion : IsToken "int" := ⟨by decide, by decide⟩
  exact (cuts_word conversion).append (parts_mark rfl []) leads_opening

@[simp] theorem run_conversion (brackets : List Open) :
    run scope ⟨brackets, none⟩ [.word "int", .mark .opening] =
      some ⟨.conversion :: brackets, none⟩ := by
  rw [run, List.foldlM_cons, step, operand?_int]
  rfl

/-- The brackets that collect the terms between commas. -/
def Collects (bracket : List Term → Open) : Prop :=
  ∀ items item, separated? (bracket items) item =
    some (bracket (items ++ [item]))

theorem collects_group : Collects .group :=
  fun _ _ => rfl

theorem collects_call (callee : Term) : Collects (.call callee) :=
  fun _ _ => rfl

theorem leads_separator : Leads ", " [.mark .comma] :=
  (leads_mark rfl).append leads_blank

theorem Reads.collected {text : Text} {term : Term}
    (reads : Reads scope text term) {bracket : List Term → Open}
    (collects : Collects bracket) (items : List Term) {separator : Text}
    (parts : Parts separator) (leads : Leads separator [.mark .comma]) :
    ∃ tokens, Leads (text ++ separator) tokens ∧ ∀ brackets,
      run scope ⟨bracket items :: brackets, none⟩ tokens =
        some ⟨bracket (items ++ [term]) :: brackets, none⟩ := by
  obtain ⟨tokens, cuts, ran⟩ := reads
  refine ⟨_, cuts.append parts leads, fun brackets => ?_⟩
  rw [run_append (ran _), run, List.foldlM_cons, step, collects]
  rfl

theorem cuts_nil : Cuts [] [] := by
  intro rest _
  rw [List.nil_append]
  exact Option.map_id'.symm

/-- Terms with commas between them are collected, up to the last one, which is
the operand at hand. -/
theorem readsBehind_join {restart : Text} {bracket : List Term → Open}
    (collects : Collects bracket) {terms : List Term}
    (each : ∀ term ∈ terms, Reads scope (term.text restart) term)
    (items : List Term) :
    ReadsBehind scope (bracket items)
      (Text.join ", " (terms.map (Term.text restart)))
      (bracket (items ++ terms.dropLast)) (terms.getLast?.map .term) := by
  unfold Text.join
  induction terms generalizing items with
  | nil =>
      refine ⟨[], cuts_nil, fun brackets => ?_⟩
      rw [List.dropLast_nil, List.append_nil]
      rfl
  | cons term terms ih =>
      obtain ⟨reads, others⟩ := List.forall_mem_cons.mp each
      cases terms with
      | nil =>
          rw [List.map_singleton, List.intercalate_singleton,
            List.dropLast_singleton, List.append_nil]
          exact reads.behind (bracket items)
      | cons next terms =>
          obtain ⟨first, leads, firstRan⟩ := reads.collected collects items
            (parts_mark (c := ',') rfl " ") leads_separator
          obtain ⟨later, cuts, laterRan⟩ := ih others (items ++ [term])
          rw [List.map_cons, List.map_cons, List.intercalate_cons_cons]
          refine ⟨_, leads.append_cuts cuts, fun brackets => ?_⟩
          rw [run_append (firstRan brackets), laterRan, List.append_assoc,
            List.singleton_append, List.dropLast_cons_cons,
            List.getLast?_cons_cons]

/-- Terms with a comma after each. -/
theorem readsBehind_each {restart : Text} {bracket : List Term → Open}
    (collects : Collects bracket) {terms : List Term}
    (each : ∀ term ∈ terms, Reads scope (term.text restart) term)
    (items : List Term) :
    ReadsBehind scope (bracket items)
      (Text.join " " (terms.map fun term => term.text restart ++ ","))
      (bracket (items ++ terms)) none := by
  unfold Text.join
  induction terms generalizing items with
  | nil =>
      refine ⟨[], cuts_nil, fun brackets => ?_⟩
      rw [List.append_nil]
      rfl
  | cons term terms ih =>
      obtain ⟨reads, others⟩ := List.forall_mem_cons.mp each
      cases terms with
      | nil =>
          obtain ⟨tokens, leads, ran⟩ := reads.collected collects items
            (parts_mark (c := ',') rfl []) (leads_mark rfl)
          rw [List.map_singleton, List.intercalate_singleton]
          exact ⟨tokens, leads.cuts, ran⟩
      | cons next terms =>
          obtain ⟨first, leads, firstRan⟩ := reads.collected collects items
            (parts_mark (c := ',') rfl []) (leads_mark rfl)
          obtain ⟨later, cuts, laterRan⟩ := ih others (items ++ [term])
          rw [List.map_cons, List.map_cons, List.intercalate_cons_cons]
          refine ⟨_, (leads.append leads_blank).append_cuts cuts,
            fun brackets => ?_⟩
          rw [List.append_nil, run_append (firstRan brackets), laterRan,
            List.append_assoc, List.singleton_append]

@[simp] theorem closed?_call (callee : Term) (args : List Term) :
    closed? (.call callee args.dropLast) (args.getLast?.map .term) =
      some (.call callee args) := by
  rcases args.eq_nil_or_concat with rfl | ⟨args, last, rfl⟩
  · rfl
  · simp [closed?]

theorem closed?_group {items : List Term} (several : items.length ≠ 1) :
    closed? (.group items.dropLast) (items.getLast?.map .term) =
      some (.tuple items) := by
  rcases items.eq_nil_or_concat with rfl | ⟨items, last, rfl⟩
  · rfl
  · cases items with
    | nil => exact (several rfl).elim
    | cons item items =>
        rw [List.concat_eq_append, List.dropLast_concat, List.getLast?_concat]
        rfl

theorem reads_call {restart text : Text} {callee : Term} {args : List Term}
    (reads : Reads scope text callee)
    (each : ∀ arg ∈ args, Reads scope (arg.text restart) arg) :
    Reads scope (callText text (args.map (Term.text restart)))
      (.call callee args) := by
  obtain ⟨tokens, cuts, ran⟩ := reads
  have opens := cuts.append (parts_mark rfl []) leads_opening
  have opened (brackets : List Open) :
      run scope ⟨brackets, none⟩ (tokens ++ [.mark .opening]) =
        some ⟨.call callee [] :: brackets, none⟩ :=
    run_append (ran brackets)
  have row := readsBehind_join (collects_call callee) each []
  exact row.closed opens opened (closed?_call callee args)

theorem reads_tuple {restart : Text} {items : List Term}
    (each : ∀ item ∈ items, Reads scope (item.text restart) item) :
    Reads scope (tupleText (items.map (Term.text restart))) (.tuple items) := by
  have row := readsBehind_join collects_group each []
  have commas := readsBehind_each collects_group each []
  rcases items with _ | ⟨item, _ | ⟨next, items⟩⟩
  · exact row.closed leads_opening (fun _ => rfl) rfl
  · have single := commas.closed leads_opening (fun _ => rfl) rfl
    rw [List.map_singleton, Text.join, List.intercalate_singleton,
      ← List.append_assoc, List.append_assoc] at single
    exact single
  · exact row.closed leads_opening (fun _ => rfl) (closed?_group (by simp))

end Reading

/-- A term of a form that has a meaning is printed so that it is read back. -/
theorem Term.Readable.reads {scope : List Var} {term : Term}
    (readable : term.Readable scope) (restart : Text) :
    Reading.Reads scope (term.text restart) term := by
  induction readable with
  | var known => exact reads_var known
  | int value => exact reads_int value
  | str value => exact reads_str value
  | paren _ ih => exact reads_paren ih
  | tuple _ ih =>
      rw [text, texts_eq_map]
      exact reads_tuple ih
  | item index _ ih => exact reads_item ih index
  | binary op _ _ ihLeft ihRight =>
      have operation := (readsBehind_binary op ihLeft ihRight).closed
        leads_opening (fun _ => rfl) rfl
      simpa only [text, List.append_assoc] using operation
  | compare op _ _ ihLeft ihRight =>
      have comparison := (readsBehind_compare op ihLeft ihRight).closed
        leads_conversion run_conversion rfl
      simpa only [text, List.append_assoc] using comparison
  | call _ _ ihCallee ihArgs =>
      rw [text, texts_eq_map]
      exact reads_call ihCallee ihArgs

theorem Term.Readable.mono {scope wider : List Var} (subset : scope ⊆ wider)
    {term : Term} (readable : term.Readable scope) : term.Readable wider := by
  induction readable with
  | var known => exact .var (subset known)
  | int value => exact .int value
  | str value => exact .str value
  | paren _ ih => exact .paren ih
  | tuple _ ih => exact .tuple ih
  | item index _ ih => exact .item index ih
  | binary op _ _ ihLeft ihRight => exact .binary op ihLeft ihRight
  | compare op _ _ ihLeft ihRight => exact .compare op ihLeft ihRight
  | call _ _ ihCallee ihArgs => exact .call ihCallee ihArgs

namespace Reading

/-- What holds in a scope holds in wider ones. -/
def Widens (holds : List Var → Prop) : Prop :=
  ∀ scope wider, scope ⊆ wider → holds scope → holds wider

theorem Widens.exists_and {first second : List Var → Prop}
    (firstWidens : Widens first) (secondWidens : Widens second)
    (some : ∃ scope, first scope) (other : ∃ scope, second scope) :
    ∃ scope, first scope ∧ second scope := by
  obtain ⟨scope, inScope⟩ := some
  obtain ⟨further, inFurther⟩ := other
  exact ⟨scope ++ further,
    firstWidens _ _ (List.subset_append_left ..) inScope,
    secondWidens _ _ (List.subset_append_right ..) inFurther⟩

theorem Widens.forall {α : Type} {holds : List Var → α → Prop}
    (widens : ∀ item, Widens (holds · item)) (items : List α) :
    Widens fun scope => ∀ item ∈ items, holds scope item :=
  fun scope wider subset each item member =>
    widens item scope wider subset (each item member)

theorem Widens.exists_forall {α : Type} {holds : List Var → α → Prop}
    (widens : ∀ item, Widens (holds · item)) {items : List α}
    (each : ∀ item ∈ items, ∃ scope, holds scope item) :
    ∃ scope, ∀ item ∈ items, holds scope item := by
  induction items with
  | nil => exact ⟨[], List.forall_mem_nil _⟩
  | cons item items ih =>
      obtain ⟨own, others⟩ := List.forall_mem_cons.mp each
      obtain ⟨scope, both⟩ := Widens.exists_and (widens item)
        (Widens.forall widens items) own (ih others)
      exact ⟨scope, List.forall_mem_cons.mpr both⟩

end Reading

theorem Term.Readable.widens (term : Term) : Widens (term.Readable ·) :=
  fun _ _ subset readable => readable.mono subset

/-- The term is read back in some scope. -/
def Term.IsReadable (term : Term) : Prop :=
  ∃ scope, term.Readable scope

namespace Term.IsReadable

theorem var (v : Var) : IsReadable (.var v) :=
  ⟨[v], .var List.mem_cons_self⟩

theorem paren {body : Term} (readable : body.IsReadable) :
    IsReadable (.paren body) := by
  obtain ⟨scope, inScope⟩ := readable
  exact ⟨scope, .paren inScope⟩

theorem item {body : Term} (index : Int) (readable : body.IsReadable) :
    IsReadable (.item body index) := by
  obtain ⟨scope, inScope⟩ := readable
  exact ⟨scope, .item index inScope⟩

theorem tuple {items : List Term} (each : ∀ item ∈ items, item.IsReadable) :
    IsReadable (.tuple items) := by
  obtain ⟨scope, inScope⟩ := Widens.exists_forall Readable.widens each
  exact ⟨scope, .tuple inScope⟩

theorem binary (op : BinaryOp) {left right : Term} (first : left.IsReadable)
    (second : right.IsReadable) : IsReadable (.binary op left right) := by
  obtain ⟨scope, own, other⟩ := Widens.exists_and (Readable.widens left)
    (Readable.widens right) first second
  exact ⟨scope, .binary op own other⟩

theorem compare (op : CompareOp) {left right : Term} (first : left.IsReadable)
    (second : right.IsReadable) : IsReadable (.compare op left right) := by
  obtain ⟨scope, own, other⟩ := Widens.exists_and (Readable.widens left)
    (Readable.widens right) first second
  exact ⟨scope, .compare op own other⟩

theorem call {callee : Term} {args : List Term} (function : callee.IsReadable)
    (each : ∀ arg ∈ args, arg.IsReadable) : IsReadable (.call callee args) := by
  obtain ⟨scope, own, others⟩ := Widens.exists_and (Readable.widens callee)
    (Widens.forall Readable.widens args) function
    (Widens.exists_forall Readable.widens each)
  exact ⟨scope, .call own others⟩

end Term.IsReadable

section Meaning

variable {module : Module} {self : Definition} {frame : Store Text}

mutual

/-- A term with a value is of a form that is read back. -/
theorem Term.Yields.isReadable {term : Term} {value : Value}
    (yields : Term.Yields module self frame term value) :
    term.IsReadable := by
  match yields with
  | .var _ => exact .var _
  | .int => exact ⟨[], .int _⟩
  | .str => exact ⟨[], .str _⟩
  | .paren body => exact .paren body.isReadable
  | .tuple items => exact .tuple items.isReadable
  | .item body _ => exact .item _ body.isReadable
  | .binary left right _ => exact .binary _ left.isReadable right.isReadable
  | .compare left right _ => exact .compare _ left.isReadable right.isReadable
  | .call _ _ args _ => exact .call (.var _) args.isReadable

theorem Term.YieldsAll.isReadable {terms : List Term} {values : List Value}
    (yields : Term.YieldsAll module self frame terms values) :
    ∀ term ∈ terms, term.IsReadable := by
  match yields with
  | .nil => exact List.forall_mem_nil _
  | .cons first rest =>
      exact List.forall_mem_cons.mpr ⟨first.isReadable, rest.isReadable⟩

end

end Meaning

theorem Term.Readable.read?_text {scope : List Var} {term : Term}
    (readable : term.Readable scope) (restart : Text) :
    Reading.read? scope (term.text restart) = some term :=
  (readable.reads restart).read?

example : Reading.read? [] "((2 - -3) * int('a' < 'b'))" =
    some (.binary .mul (.binary .sub (.int 2) (.int (-3)))
      (.compare .lt (.str "a") (.str "b"))) := by
  rfl

end TailLoop.Code
