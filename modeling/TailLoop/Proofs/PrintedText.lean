import TailLoop.Code.Print
import TailLoop.Proofs.CodeTerms
import TailLoop.Proofs.IdentifierUniqueness

/-!
# What printed code is made of

Identifiers are words of letters, digits and underscores, and no keyword is
one.  Whatever a program says is printed in printable code points, but for the
names of foreign functions: these stand in the code as they are.
-/

namespace TailLoop

namespace CodePoint

/-- A code point of an identifier. -/
def isWordPoint (c : CodePoint) : Bool :=
  c.isLetter || c.isDigit || c = '_'

theorem isWordPoint_of_isLetter {c : CodePoint} (letter : c.isLetter = true) :
    c.isWordPoint = true := by
  simp only [isWordPoint, letter, Bool.true_or]

theorem isWordPoint_of_isDigit {c : CodePoint} (digit : c.isDigit = true) :
    c.isWordPoint = true := by
  simp only [isWordPoint, digit, Bool.or_true, Bool.true_or]

/-- The space and the visible characters of ASCII. -/
def isVisible (c : CodePoint) : Bool :=
  c.isBetween ' ' '~'

theorem isPrintable_of_isVisible {c : CodePoint}
    (visible : c.isVisible = true) :
    c.isPrintable = true := by
  have outside : ∀ range ∈ unprintableRanges, range.2 < ' '.toNat ∨
      '~'.toNat < range.1 := by
    decide +kernel
  simp only [isVisible, isBetween, Bool.and_eq_true, decide_eq_true_eq]
    at visible
  rw [isPrintable, Bool.not_eq_true', List.any_eq_false]
  intro range member
  rw [Bool.and_eq_true, decide_eq_true_eq, decide_eq_true_eq]
  have := outside range member
  omega

theorem isWordPoint_digitChar :
    ∀ d < 16, (ofChar d.digitChar).isWordPoint = true := by
  decide

/-- A code point of a word or of a number. -/
def isNumeralPoint (c : CodePoint) : Bool :=
  c.isWordPoint || c = '.' || c = '+' || c = '-'

/-- A code point of the text of a number. -/
def isFigurePoint (c : CodePoint) : Bool :=
  c.isDigit || (Text.ofString "+-.aefin").contains c

theorem isNumeralPoint_of_isFigurePoint {c : CodePoint}
    (figure : c.isFigurePoint = true) :
    c.isNumeralPoint = true := by
  have marks : ∀ c ∈ Text.ofString "+-.aefin", isNumeralPoint c = true := by
    decide
  rw [isFigurePoint, Bool.or_eq_true, List.contains_iff_mem] at figure
  rcases figure with digit | mark
  · simp only [isNumeralPoint, isWordPoint_of_isDigit digit, Bool.true_or]
  · exact marks c mark

theorem isVisible_of_isWordPoint {c : CodePoint} (word : c.isWordPoint = true) :
    c.isVisible = true := by
  have bounds : ' '.toNat ≤ '0'.toNat ∧ '9'.toNat ≤ '~'.toNat ∧
      ' '.toNat ≤ 'A'.toNat ∧
      'Z'.toNat ≤ '~'.toNat ∧ ' '.toNat ≤ 'a'.toNat ∧
      'z'.toNat ≤ '~'.toNat := by
    decide
  simp only [isWordPoint, isLetter, isDigit, isBetween, Bool.or_eq_true,
    Bool.and_eq_true, decide_eq_true_eq] at word
  simp only [isVisible, isBetween, Bool.and_eq_true, decide_eq_true_eq]
  rcases word with ((upper | lower) | digit) | rfl
  · omega
  · omega
  · omega
  · decide

theorem isVisible_of_isNumeralPoint {c : CodePoint}
    (point : c.isNumeralPoint = true) :
    c.isVisible = true := by
  simp only [isNumeralPoint, Bool.or_eq_true, decide_eq_true_eq] at point
  rcases point with ((word | rfl) | rfl) | rfl
  · exact isVisible_of_isWordPoint word
  · decide
  · decide
  · decide

end CodePoint

theorem exists_digitChar_of_mem_toDigits {base n : Nat} {c : Char}
    (large : 1 < base) (member : c ∈ Nat.toDigits base n) :
    ∃ d < base, c = d.digitChar := by
  induction n using Nat.strongRecOn with
  | ind n ih =>
      by_cases small : n < base
      · rw [Nat.toDigits_of_lt_base small] at member
        exact ⟨n, small, List.mem_singleton.mp member⟩
      · rw [Nat.toDigits_of_base_le large (Nat.not_lt.mp small)] at member
        rcases List.mem_append.mp member with higher | last
        · exact ih (n / base) (Nat.div_lt_self (by omega) large) higher
        · exact ⟨n % base, Nat.mod_lt n (by omega), List.mem_singleton.mp last⟩

namespace Text

def Only (allowed : CodePoint → Prop) (text : Text) : Prop :=
  ∀ c ∈ text, allowed c

namespace Only

variable {allowed : CodePoint → Prop} {left right text : Text}

theorem nil : Only allowed [] :=
  List.forall_mem_nil _

theorem append (first : Only allowed left) (second : Only allowed right) :
    Only allowed (left ++ right) := by
  intro c member
  exact (List.mem_append.mp member).elim (first c) (second c)

theorem sublist (whole : Only allowed text) (part : left.Sublist text) :
    Only allowed left :=
  fun c member => whole c (part.subset member)

theorem mono {permitted : CodePoint → Prop} (within : Only permitted text)
    (weaker : ∀ c, permitted c → allowed c) : Only allowed text :=
  fun c member => weaker c (within c member)

theorem flatMap {α : Type} {items : List α} {part : α → Text}
    (parts : ∀ item ∈ items, Only allowed (part item)) :
    Only allowed (items.flatMap part) := by
  intro c member
  obtain ⟨item, itemMember, inPart⟩ := List.mem_flatMap.mp member
  exact parts item itemMember c inPart

theorem join {separator : Text} {parts : List Text}
    (between : Only allowed separator)
    (each : ∀ part ∈ parts, Only allowed part) :
    Only allowed (Text.join separator parts) := by
  unfold Text.join
  induction parts with
  | nil => exact nil
  | cons part parts ih =>
      cases parts with
      | nil =>
          rw [List.intercalate_singleton]
          exact each part List.mem_cons_self
      | cons next parts =>
          rw [List.intercalate_cons_cons]
          exact ((each part List.mem_cons_self).append between).append
            (ih fun later member => each later (List.mem_cons_of_mem _ member))

end Only

/-- A text of word points alone. -/
def IsWord (text : Text) : Prop :=
  text.Only fun c => c.isWordPoint = true

/-- A word that holds a digit or an underscore, as no keyword does. -/
def IsIdentifier (text : Text) : Prop :=
  text.IsWord ∧ ∃ c ∈ text, c.isLetter = false

theorem isWord_ofNat (n : Nat) : (ofNat n).IsWord :=
  fun _ member => CodePoint.isWordPoint_of_isDigit (isDigit_of_mem_ofNat member)

end Text

namespace Name

theorem isWord_escaped (text : Text) : (escaped text).IsWord := by
  refine Text.Only.flatMap fun point _ => ?_
  unfold escapedPoint
  split
  · rename_i plain
    intro c member
    cases List.mem_singleton.mp member
    simp only [CodePoint.isWordPoint, plain, Bool.true_or]
  · have underscore : Text.IsWord "_" := by
      unfold Text.IsWord Text.Only
      decide
    exact (underscore.append (Text.isWord_ofNat point.val)).append underscore

theorem isWord_encoded (name : Name) : (encoded name).IsWord := by
  have marks : namespaceMark.IsWord ∧ machineMark.IsWord ∧
      separatorMark.IsWord := by
    unfold Text.IsWord Text.Only
    decide
  obtain ⟨namespaceWord, machineWord, separatorWord⟩ := marks
  induction name with
  | user text => exact isWord_escaped text
  | «scoped» namespaces name ih =>
      refine Text.Only.append (Text.Only.append namespaceWord ?_) ih
      exact Text.Only.flatMap fun part _ =>
        (isWord_escaped part).append separatorWord
  | machine index text =>
      exact ((machineWord.append (isWord_escaped _)).append
        separatorWord).append (isWord_escaped text)

theorem isIdentifier_numbered {letters : Text} (allLetters : AllLetters letters)
    (number : Nat) : (letters ++ Text.ofNat number).IsIdentifier := by
  refine ⟨Text.Only.append ?_ (Text.isWord_ofNat number), ?_⟩
  · exact fun c member =>
      CodePoint.isWordPoint_of_isLetter (allLetters c member)
  · obtain ⟨digit, member⟩ :=
      List.exists_mem_of_ne_nil _ (Text.ofNat_ne_nil number)
    exact ⟨digit, List.mem_append_right _ member,
      CodePoint.isLetter_eq_false_of_isDigit (Text.isDigit_of_mem_ofNat member)⟩

theorem isIdentifier_mangled (name : Name) : (mangled name).IsIdentifier := by
  have markerWord : marker.IsWord := by
    unfold Text.IsWord Text.Only
    decide
  refine ⟨markerWord.append (isWord_encoded name), CodePoint.ofChar '_',
    ?_, by decide⟩
  exact List.mem_append_left _ (by decide)

theorem isIdentifier_identifier (name : Name) :
    name.identifier.IsIdentifier := by
  rcases identifier_cases name with ⟨index, text, -, readable, form⟩ | form
  · rw [form]
    exact isIdentifier_numbered (isReadable_iff.mp readable).2.1 index
  · rw [form]
    exact isIdentifier_mangled name

end Name

theorem Var.isIdentifier_identifier (v : Var) : v.identifier.IsIdentifier := by
  match v with
  | .slot (.ofNat index) =>
      exact Name.isIdentifier_numbered Name.allLetters_slotText index
  | .slot (.negSucc index) =>
      exact Name.isIdentifier_numbered Name.allLetters_temporaryText (index + 1)
  | .named name => exact name.isIdentifier_identifier

/-- A class of code points that has all those of numbers. -/
def CoversFigures (legible : CodePoint → Prop) : Prop :=
  ∀ c, c.isFigurePoint = true → legible c

namespace CoversFigures

open Text (Only)

variable {legible : CodePoint → Prop} (covers : CoversFigures legible)

include covers

theorem figures {text : Text}
    (points : text.all CodePoint.isFigurePoint = true) :
    Only legible text :=
  fun c member => covers c (List.all_eq_true.mp points c member)

theorem ofNat (n : Nat) : Only legible (Text.ofNat n) := by
  intro c member
  apply covers c
  simp only [CodePoint.isFigurePoint, Text.isDigit_of_mem_ofNat member,
    Bool.true_or]

theorem ofInt (n : Int) : Only legible (Text.ofInt n) := by
  cases n with
  | ofNat n => exact covers.ofNat n
  | negSucc n =>
      have minus : Only legible [CodePoint.ofChar '-'] :=
        covers.figures (by decide)
      exact minus.append (covers.ofNat (n + 1))

theorem zeros (count : Nat) : Only legible (DecimalStyle.zeros count) := by
  intro c member
  rw [List.eq_of_mem_replicate member]
  exact covers _ (by decide)

theorem positional {digits : Text} (row : Only legible digits) (place : Int) :
    Only legible (DecimalStyle.positional digits place) := by
  unfold DecimalStyle.positional
  split
  · exact ((covers.figures (by decide)).append (covers.zeros _)).append row
  · split
    · exact ((row.sublist (List.take_sublist _ _)).append
        (covers.figures (by decide))).append
        (row.sublist (List.drop_sublist _ _))
    · exact (row.append (covers.zeros _)).append (covers.figures (by decide))

theorem scientific (style : DecimalStyle) {digits : Text}
    (row : Only legible digits) (exponent : Int) :
    Only legible (style.scientific digits exponent) := by
  have fraction : Only legible
      (if digits.length ≤ 1 then [] else "." ++ digits.drop 1) := by
    split
    · exact .nil
    · exact (covers.figures (by decide)).append
        (row.sublist (List.drop_sublist _ _))
  have sign : Only legible (if exponent < 0 then "-" else "+") := by
    split <;> exact covers.figures (by decide)
  exact (((((row.sublist (List.take_sublist _ _)).append fraction).append
    (covers.figures (by decide))).append sign).append (covers.zeros _)).append
    (covers.ofNat _)

theorem double (value : Double) : Only legible value.text := by
  cases value with
  | nan => exact covers.figures (by decide)
  | infinite negative => cases negative <;> exact covers.figures (by decide)
  | finite negative mantissa exponent =>
      have sign :
          Only legible (Text.ofString (if negative then "-" else "")) := by
        split <;> exact covers.figures (by decide)
      rw [Double.text]
      refine sign.append ?_
      unfold Double.magnitudeText
      split
      · exact covers.figures (by decide)
      · have row (n : Nat) : Only legible
            ((Text.ofNat n).reverse.dropWhile
              (· = CodePoint.ofChar '0')).reverse := by
          intro c member
          have inDigits :=
            (List.dropWhile_sublist _).subset (List.mem_reverse.mp member)
          exact covers.ofNat n c (List.mem_reverse.mp inDigits)
        dsimp only
        unfold DecimalStyle.write
        split
        · exact covers.positional (row _) _
        · exact covers.scientific _ (row _) _

end CoversFigures

/-- A class of code points that has all those of words and numbers. -/
def CoversNumerals (legible : CodePoint → Prop) : Prop :=
  ∀ c, c.isNumeralPoint = true → legible c

namespace CoversNumerals

open Text (Only)

variable {legible : CodePoint → Prop} (covers : CoversNumerals legible)

include covers

theorem figures : CoversFigures legible :=
  fun c figure => covers c (CodePoint.isNumeralPoint_of_isFigurePoint figure)

theorem word {text : Text} (word : text.IsWord) : Only legible text := by
  intro c member
  apply covers c
  simp only [CodePoint.isNumeralPoint, word c member, Bool.true_or]

theorem identifier (v : Var) : Only legible v.identifier :=
  covers.word v.isIdentifier_identifier.1

theorem nameIdentifier (name : Name) : Only legible name.identifier :=
  covers.word name.isIdentifier_identifier.1

theorem hex (width n : Nat) : Only legible (Text.hex width n) := by
  have digits : Only legible ((Nat.toDigits 16 n).map CodePoint.ofChar) := by
    refine covers.word fun c member => ?_
    obtain ⟨digit, digitMember, rfl⟩ := List.mem_map.mp member
    obtain ⟨d, small, rfl⟩ :=
      exists_digitChar_of_mem_toDigits (by decide) digitMember
    exact CodePoint.isWordPoint_digitChar d small
  rw [Text.hex, List.length_map]
  exact (covers.figures.zeros _).append digits

end CoversNumerals

/-- A class of code points that has all printable ones. -/
def CoversPrintable (legible : CodePoint → Prop) : Prop :=
  ∀ c, c.isPrintable = true → legible c

namespace CoversPrintable

open Text (Only)

variable {legible : CodePoint → Prop} (covers : CoversPrintable legible)

include covers

theorem visible {text : Text} (visible : text.all CodePoint.isVisible = true) :
    Only legible text := by
  intro c member
  exact covers c
    (CodePoint.isPrintable_of_isVisible (List.all_eq_true.mp visible c member))

/-- A legible text between two visible ones. -/
theorem enclosed {opening text closing : Text} (textOnly : Only legible text)
    (openingVisible : opening.all CodePoint.isVisible = true)
    (closingVisible : closing.all CodePoint.isVisible = true) :
    Only legible (opening ++ text ++ closing) :=
  ((covers.visible openingVisible).append textOnly).append
    (covers.visible closingVisible)

theorem numerals : CoversNumerals legible := by
  intro c point
  exact covers c
    (CodePoint.isPrintable_of_isVisible
      (CodePoint.isVisible_of_isNumeralPoint point))

theorem numericEscape (c : CodePoint) :
    Only legible (Text.numericEscape c) := by
  unfold Text.numericEscape
  split
  · exact (covers.visible (by decide)).append (covers.numerals.hex _ _)
  · split <;>
      exact (covers.visible (by decide)).append (covers.numerals.hex _ _)

theorem quotedBy {keeps : CodePoint → Bool}
    (kept : ∀ c, keeps c = true → legible c) (text : Text) :
    Only legible (Text.quotedBy keeps text) := by
  have quote : Only legible [Text.quoteFor text] := by
    unfold Text.quoteFor
    split <;> exact covers.visible (by decide)
  have point (c : CodePoint) :
      Only legible (Text.quotedPoint keeps (Text.quoteFor text) c) := by
    unfold Text.quotedPoint
    split
    · rename_i escaped
      have backslash : Only legible [CodePoint.ofChar '\\'] :=
        covers.visible (by decide)
      refine backslash.append ?_
      rcases escaped with rfl | rfl
      · exact quote
      · exact backslash
    · split
      · exact covers.visible (by decide)
      · split
        · exact covers.visible (by decide)
        · split
          · exact covers.visible (by decide)
          · split
            · rename_i keep
              intro d member
              cases List.mem_singleton.mp member
              exact kept c keep
            · exact covers.numericEscape c
  exact (quote.append (.flatMap fun c _ => point c)).append quote

theorem quoted (text : Text) : Only legible (Text.quoted text) :=
  covers.quotedBy covers text

theorem display (name : Name) : Only legible name.display := by
  unfold Name.display
  split
  · rename_i printable
    exact fun c member => covers c (List.all_eq_true.mp printable c member)
  · refine covers.quotedBy (fun c keep => ?_) _
    exact covers c (Bool.and_eq_true_iff.mp keep).2

end CoversPrintable

namespace Code

@[simp] theorem Term.texts_eq_map (restart : Text) (terms : List Term) :
    texts restart terms = terms.map (text restart) := by
  induction terms with
  | nil => rfl
  | cons term terms ih => rw [texts, List.map_cons, ih]

section Legible

open Text (Only)

variable {legible : CodePoint → Prop}

section Texts

variable (covers : CoversPrintable legible)

include covers

theorem only_raiseText (message : Text) : Only legible (raiseText message) :=
  covers.enclosed (covers.quoted message) (by decide) (by decide)

theorem only_callText {callee : Text} {args : List Text}
    (calleeOnly : Only legible callee)
    (argsOnly : ∀ arg ∈ args, Only legible arg) :
    Only legible (callText callee args) :=
  ((calleeOnly.append (covers.visible (by decide))).append
    (.join (covers.visible (by decide)) argsOnly)).append (covers.visible
    (by decide))

theorem only_tupleText {items : List Text}
    (itemsOnly : ∀ item ∈ items, Only legible item) :
    Only legible (tupleText items) := by
  unfold tupleText
  split
  · exact covers.enclosed (itemsOnly _ (List.mem_singleton.mpr rfl))
      (by decide) (by decide)
  · exact covers.enclosed (.join (covers.visible (by decide)) itemsOnly)
      (by decide) (by decide)

theorem only_frozenText (v : Var) : Only legible (frozenText v) :=
  ((covers.numerals.identifier v).append (covers.visible (by decide))).append
    (covers.numerals.identifier v)

theorem only_paramsText (params : List Name) (frozen : List Var) :
    Only legible (paramsText params frozen) := by
  refine .join (covers.visible (by decide)) fun part member => ?_
  rcases List.mem_append.mp member with param | kept
  · obtain ⟨name, -, rfl⟩ := List.mem_map.mp param
    exact covers.numerals.nameIdentifier name
  · obtain ⟨v, -, rfl⟩ := List.mem_map.mp kept
    exact only_frozenText covers v

theorem only_thunkText (frozen : List Var) {body : Text}
    (bodyOnly : Only legible body) :
    Only legible (thunkText frozen body) := by
  unfold thunkText
  split
  · exact covers.enclosed bodyOnly (by decide) (by decide)
  · refine ((covers.enclosed ?_ (by decide) (by decide)).append bodyOnly).append
      (covers.visible (by decide))
    refine .join (covers.visible (by decide)) fun part member => ?_
    obtain ⟨v, -, rfl⟩ := List.mem_map.mp member
    exact only_frozenText covers v

theorem only_lambdaText (param : Name) (frozen : List Var) {body : Text}
    (bodyOnly : Only legible body) :
    Only legible (lambdaText param frozen body) :=
  ((covers.enclosed (only_paramsText covers [param] frozen) (by decide)
    (by decide)).append bodyOnly).append (covers.visible (by decide))

theorem only_floatText (value : Double) : Only legible (floatText value) := by
  unfold floatText
  split
  · exact covers.numerals.figures.double value
  · exact covers.enclosed (covers.numerals.figures.double value)
      (by decide) (by decide)

/-- Two operands with an operator between them, in parentheses. -/
theorem only_operationText {opening op left right : Text}
    (openingVisible : opening.all CodePoint.isVisible = true)
    (opVisible : op.all CodePoint.isVisible = true)
    (leftOnly : Only legible left) (rightOnly : Only legible right) :
    Only legible (opening ++ left ++ " " ++ op ++ " " ++ right ++ ")") :=
  ((((covers.enclosed leftOnly openingVisible (by decide)).append
    (covers.visible opVisible)).append (covers.visible (by decide))).append
    rightOnly).append
      (covers.visible (by decide))

theorem only_unaryText (op : UnaryOp) {arg : Text}
    (argOnly : Only legible arg) :
    Only legible (op.text arg) := by
  cases op with
  | toStr | toInt => exact covers.enclosed argOnly (by decide) (by decide)
  | reversed | first | rest => exact argOnly.append (covers.visible (by decide))

end Texts

/-- The text of the term is legible. -/
def Term.IsLegible (legible : CodePoint → Prop) (restart : Text) (term : Term) :
    Prop :=
  Only legible (term.text restart)

theorem Term.only_texts {restart : Text} {terms : List Term}
    (each : ∀ term ∈ terms, term.IsLegible legible restart) :
    ∀ text ∈ texts restart terms, Only legible text := by
  rw [texts_eq_map]
  exact List.forall_mem_map.mpr each

theorem Term.closed_isLegible (covers : CoversPrintable legible)
    (restart : Text) : Term.Closed (Term.IsLegible legible restart) where
  var := covers.numerals.identifier
  int := covers.numerals.figures.ofInt
  float := only_floatText covers
  str := covers.quoted
  none := covers.visible rfl
  raise := only_raiseText covers
  paren body := covers.enclosed body (by decide) (by decide)
  call callee args := only_callText covers callee (only_texts args)
  tuple items := only_tupleText covers (only_texts items)
  item index body :=
    ((body.append (covers.visible (by decide))).append
      (covers.numerals.figures.ofInt index)).append (covers.visible (by decide))
  binary := by
    intro op left right leftOnly rightOnly
    have opVisible : op.text.all CodePoint.isVisible = true := by
      cases op <;> decide
    exact only_operationText covers (by decide) opVisible leftOnly rightOnly
  compare := by
    intro op left right leftOnly rightOnly
    have opVisible : op.text.all CodePoint.isVisible = true := by
      cases op <;> decide
    exact only_operationText covers (by decide) opVisible leftOnly rightOnly
  unary op _ arg := only_unaryText covers op arg
  readLine := covers.visible rfl
  write arg := covers.enclosed arg (by decide) (by decide)
  unsupported _ _ _ := only_raiseText covers _
  thunk frozen _ body := only_thunkText covers frozen body
  lambda param frozen _ body := only_lambdaText covers param frozen body

theorem only_targetsText (covers : CoversPrintable legible)
    (targets : List Name) :
    Only legible (targetsText targets) := by
  refine .join (covers.visible (by decide)) fun part member => ?_
  obtain ⟨name, -, rfl⟩ := List.mem_map.mp member
  exact (covers.numerals.nameIdentifier name).append
    (covers.visible (by decide))

theorem only_indented (covers : CoversPrintable legible) {lines : List Text}
    (linesOnly : ∀ line ∈ lines, Only legible line) :
    ∀ line ∈ indented lines, Only legible line := by
  intro line member
  obtain ⟨inner, innerMember, rfl⟩ := List.mem_map.mp member
  exact (covers.visible (by decide)).append (linesOnly inner innerMember)

theorem Guard.only_header (covers : CoversPrintable legible) {layout : Layout}
    (leading : Bool) (subject : Var) {guard : Guard}
    (known : guard.Forall (Term.IsLegible legible layout.restart)) :
    Only legible (guard.header layout leading subject) := by
  have keyword : Only legible (if leading then "if " else "elif ") := by
    split <;> exact covers.visible (by decide)
  have start := keyword.append (covers.numerals.identifier subject)
  cases guard with
  | hasTag tag ctor =>
      refine (((start.append (covers.visible (by decide))).append
        (covers.numerals.figures.ofInt tag)).append (covers.visible
        (by decide))).append ?_
      split
      · exact (covers.visible (by decide)).append (covers.display ctor)
      · exact .nil
  | equals value =>
      exact ((start.append (covers.visible (by decide))).append known).append
        (covers.visible (by decide))
  | tagBelow tag =>
      exact ((start.append (covers.visible (by decide))).append
        (covers.numerals.figures.ofInt tag)).append (covers.visible (by decide))
  | otherwise =>
      rw [Guard.header]
      exact covers.visible (by decide)

mutual

/-- The lines of a statement are legible if its terms are. -/
theorem Stmt.only_lines (covers : CoversPrintable legible) {layout : Layout}
    (stmt : Stmt)
    (known : stmt.Meets (.terms (Term.IsLegible legible layout.restart))) :
    ∀ line ∈ stmt.lines layout, Only legible line := by
  cases stmt with
  | assign target value =>
      refine List.forall_mem_singleton.mpr ?_
      exact ((covers.numerals.identifier target).append
        (covers.visible (by decide))).append known
  | unpack targets subject =>
      refine List.forall_mem_singleton.mpr ?_
      exact (((only_targetsText covers targets).append
        (covers.visible (by decide))).append
        (covers.numerals.identifier subject)).append (covers.visible
        (by decide))
  | rebind targets values =>
      refine List.forall_mem_singleton.mpr ?_
      refine ((only_targetsText covers targets).append
        (covers.visible (by decide))).append ?_
      refine .join (covers.visible (by decide)) (List.forall_mem_map.mpr ?_)
      exact fun value member =>
        (known value member).append (covers.visible (by decide))
  | «continue» =>
      rw [Stmt.lines]
      exact List.forall_mem_singleton.mpr (covers.visible (by decide))
  | unreachable =>
      exact List.forall_mem_singleton.mpr (only_raiseText covers _)
  | branch subject clauses =>
      exact Stmt.only_clausesLines covers subject true clauses known
  | define name params frozen body result =>
      obtain ⟨bodyKnown, resultKnown, -⟩ := known
      refine List.forall_mem_cons.mpr ⟨?_, only_indented covers ?_⟩
      · exact ((covers.enclosed (covers.numerals.identifier name) (by decide)
          (by decide)).append (only_paramsText covers params frozen)).append
          (covers.visible (by decide))
      · refine List.forall_mem_append.mpr
          ⟨Stmt.only_linesList covers body bodyKnown, ?_⟩
        exact List.forall_mem_singleton.mpr
          ((covers.visible (by decide)).append resultKnown)

theorem Stmt.only_linesList (covers : CoversPrintable legible) {layout : Layout}
    (stmts : List Stmt)
    (known : MeetsList (.terms (Term.IsLegible legible layout.restart)) stmts) :
    ∀ line ∈ Stmt.linesList layout stmts, Only legible line := by
  cases stmts with
  | nil => exact List.forall_mem_nil _
  | cons stmt stmts =>
      exact List.forall_mem_append.mpr ⟨Stmt.only_lines covers stmt known.1,
        Stmt.only_linesList covers stmts known.2⟩

theorem Stmt.only_clausesLines (covers : CoversPrintable legible)
    {layout : Layout} (subject : Var) (leading : Bool) (clauses : List Clause)
    (known : MeetsClauses (.terms (Term.IsLegible legible layout.restart))
      clauses) :
    ∀ line ∈ Stmt.clausesLines layout subject leading clauses,
      Only legible line := by
  cases clauses with
  | nil => exact List.forall_mem_nil _
  | cons clause clauses =>
      obtain ⟨guard, body⟩ := clause
      obtain ⟨guardKnown, bodyKnown, laterKnown⟩ := known
      refine List.forall_mem_cons.mpr
        ⟨guard.only_header covers leading subject guardKnown, ?_⟩
      exact List.forall_mem_append.mpr
        ⟨only_indented covers (Stmt.only_linesList covers body bodyKnown),
          Stmt.only_clausesLines covers subject false clauses laterKnown⟩

end

end Legible

end Code

end TailLoop
