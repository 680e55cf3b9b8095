import TailLoop.Proofs.CodeTerms
import TailLoop.Proofs.LexicalScan

/-!
# Words of code

The words of a text are its runs of name points outside of literals and
comments.  Printed code separates its parts by marks, so the words of a text are
those of its parts.  A temporary is a word of the text of a term only where a
variable or the name of a foreign function puts it: what is quoted has no words,
and numbers and the words of the target language have other letters.
-/

namespace TailLoop

namespace Lexical

namespace Mode

/-- The mode after a code point, which does not depend on the open brackets.
What follows a code point that a scan refuses counts as code. -/
def after (mode : Mode) (c : CodePoint) : Mode :=
  ((step ⟨mode, (Bracket.closed? c).toList⟩ c).map Scan.mode).getD .code

def afterText (mode : Mode) (text : Text) : Mode :=
  text.foldl after mode

@[simp] theorem afterText_append (mode : Mode) (first second : Text) :
    mode.afterText (first ++ second) =
      (mode.afterText first).afterText second :=
  List.foldl_append

end Mode

theorem mode_codeStep {brackets : List Bracket} {c : CodePoint} {next : Scan}
    (stepped : codeStep brackets c = some next) :
    (codeStep (Bracket.closed? c).toList c).map Scan.mode = some next.mode := by
  rw [codeStep] at stepped ⊢
  cases quoted : Quote.of? c with
  | some quote =>
      rw [quoted] at stepped
      cases stepped
      rfl
  | none =>
      cases opened : Bracket.opened? c with
      | some bracket =>
          rw [quoted, opened] at stepped
          cases stepped
          rfl
      | none =>
          cases closed : Bracket.closed? c with
          | some bracket =>
              rw [quoted, opened, closed] at stepped
              obtain ⟨-, made⟩ := Option.ite_none_right_eq_some.mp stepped
              cases made
              exact congrArg (Option.map Scan.mode) (if_pos rfl)
          | none =>
              rw [quoted, opened, closed] at stepped
              dsimp only at stepped ⊢
              split at stepped
              · rename_i comments
                cases stepped
                rw [if_pos comments]
                rfl
              · rename_i noComment
                obtain ⟨noBackslash, made⟩ :=
                  Option.ite_none_left_eq_some.mp stepped
                cases made
                rw [if_neg noComment, if_neg noBackslash]
                rfl

theorem mode_shortStep (quote : Quote) (brackets others : List Bracket)
    (c : CodePoint) :
    (shortStep quote brackets c).map Scan.mode =
      (shortStep quote others c).map Scan.mode := by
  rw [shortStep, shortStep]
  split
  · rfl
  split
  · rfl
  split
  · rfl
  · rfl

theorem mode_longStep (quote : Quote) (closing : Nat)
    (brackets others : List Bracket) (c : CodePoint) :
    (longStep quote closing brackets c).map Scan.mode =
      (longStep quote closing others c).map Scan.mode := by
  rw [longStep, longStep]
  split
  · rfl
  split
  · rfl
  · rfl

theorem mode_step {scan next : Scan} {c : CodePoint}
    (stepped : step scan c = some next) :
    scan.mode.after c = next.mode := by
  have same : (step ⟨scan.mode, (Bracket.closed? c).toList⟩ c).map Scan.mode =
      some next.mode := by
    obtain ⟨mode, brackets⟩ := scan
    have reached : (step ⟨mode, brackets⟩ c).map Scan.mode =
        some next.mode := by
      rw [stepped]
      rfl
    cases mode with
    | code => exact mode_codeStep stepped
    | opened quote =>
        by_cases closes : c = quote.point
        · simp only [step, if_pos closes] at reached ⊢
          exact reached
        · simp only [step, if_neg closes] at reached ⊢
          exact (mode_shortStep ..).trans reached
    | emptied quote =>
        by_cases opens : c = quote.point
        · simp only [step, if_pos opens] at reached ⊢
          exact reached
        · simp only [step, if_neg opens] at stepped ⊢
          exact mode_codeStep stepped
    | short quote => exact (mode_shortStep ..).trans reached
    | shortEscape quote => exact reached
    | long quote closing => exact (mode_longStep ..).trans reached
    | longEscape quote => exact reached
    | comment => exact reached
  rw [Mode.after, same]
  rfl

theorem mode_run {scan next : Scan} {text : Text}
    (ran : run scan text = some next) :
    scan.mode.afterText text = next.mode := by
  induction text generalizing scan with
  | nil =>
      cases ran
      rfl
  | cons c text ih =>
      obtain ⟨middle, stepped, rest⟩ := Option.bind_eq_some_iff.mp ran
      rw [Mode.afterText, List.foldl_cons, mode_step stepped]
      exact ih rest

/-- A code point of a name.  There are names with letters of any script. -/
def isNamePoint (c : CodePoint) : Bool :=
  c.isWordPoint || 0x80 ≤ c.val

/-- A word ends here, if there is one. -/
def ended (word : Text) (later : List Text) : List Text :=
  if word.isEmpty then later else word :: later

/-- The words of a text from a mode on, after the start of a word. -/
def wordsFrom : Mode → Text → Text → List Text
  | _, word, [] => ended word []
  | mode, word, c :: text =>
      if mode.isOutside && isNamePoint c then
        wordsFrom (mode.after c) (word ++ [c]) text
      else ended word (wordsFrom (mode.after c) [] text)

/-- The words of a text outside of its literals and comments. -/
def words (text : Text) : List Text :=
  wordsFrom .code [] text

example : words "aux1 + f('aux2')  # aux3" = ["aux1", "f"] := by decide

@[simp] theorem ended_append (word : Text) (first second : List Text) :
    ended word (first ++ second) = ended word first ++ second := by
  rw [ended, ended]
  split
  · rfl
  · rfl

/-- The text starts with a code point that is part of no word and of no
literal. -/
def startsApart : Text → Bool
  | [] => false
  | c :: _ => !isNamePoint c && (Quote.of? c).isNone

/-- The text ends with a code point that is part of no word. -/
def endsApart (text : Text) : Bool :=
  text.getLast?.any fun c => !isNamePoint c

theorem Mode.after_of_isOutside {mode : Mode} (outside : mode.isOutside = true)
    {c : CodePoint} (noQuote : (Quote.of? c).isNone = true) :
    mode.after c = Mode.code.after c := by
  cases mode with
  | code => rfl
  | emptied quote =>
      have same : step ⟨.emptied quote, (Bracket.closed? c).toList⟩ c =
          step ⟨.code, (Bracket.closed? c).toList⟩ c :=
        if_neg (ne_point_of_isNone noQuote quote)
      rw [after, after, same]
  | _ => cases outside

theorem wordsFrom_append_of_startsApart {mode : Mode}
    {start first second : Text}
    (outside : (mode.afterText first).isOutside = true)
    (apart : startsApart second = true) :
    wordsFrom mode start (first ++ second) = wordsFrom mode start first ++
      words second := by
  induction first generalizing mode start with
  | nil =>
      cases second with
      | nil => cases apart
      | cons c second =>
          rw [startsApart, Bool.and_eq_true, Bool.not_eq_true'] at apart
          have same : mode.after c = Mode.code.after c :=
            Mode.after_of_isOutside outside apart.2
          rw [List.nil_append, words, wordsFrom, wordsFrom, wordsFrom, apart.1,
            Bool.and_false, Bool.and_false, same]
          exact ended_append start [] _
  | cons c first ih =>
      rw [List.cons_append, wordsFrom, wordsFrom]
      split
      · exact ih outside
      · rw [ih outside, ended_append]

theorem wordsFrom_append_of_endsApart {mode : Mode} {start first second : Text}
    (inCode : mode.afterText first = .code) (apart : endsApart first = true) :
    wordsFrom mode start (first ++ second) = wordsFrom mode start first ++
      words second := by
  induction first generalizing mode start with
  | nil => cases apart
  | cons c first ih =>
      rw [List.cons_append, wordsFrom, wordsFrom]
      cases first with
      | nil =>
          have noName : isNamePoint c = false := (Bool.not_eq_true' _).mp apart
          have ends : mode.after c = .code := inCode
          rw [noName, Bool.and_false, ends, List.nil_append]
          exact ended_append start [] _
      | cons next first =>
          rw [endsApart, List.getLast?_cons_cons] at apart
          split
          · exact ih inCode apart
          · rw [ih inCode apart, ended_append]

theorem eq_or_mem_of_mem_ended {word other : Text} {later : List Text}
    (member : word ∈ ended other later) : word = other ∨ word ∈ later := by
  rw [ended] at member
  split at member
  · exact .inr member
  · exact List.mem_cons.mp member

/-- The words of a text have the code points of the text. -/
theorem mem_of_mem_wordsFrom {mode : Mode} {start text word : Text}
    {c : CodePoint} (found : word ∈ wordsFrom mode start text)
    (member : c ∈ word) : c ∈ start ++ text := by
  induction text generalizing mode start with
  | nil =>
      rcases eq_or_mem_of_mem_ended found with rfl | later
      · exact List.mem_append_left _ member
      · cases later
  | cons d text ih =>
      rw [wordsFrom] at found
      split at found
      · rw [List.append_cons]
        exact ih found
      · rcases eq_or_mem_of_mem_ended found with rfl | later
        · exact List.mem_append_left _ member
        · exact List.mem_append_right _ (List.mem_cons_of_mem _ (ih later))

/-- Nothing of the text stands outside of literals and comments. -/
def Mode.hides : Mode → Text → Bool
  | _, [] => true
  | mode, c :: text => !mode.isOutside && (mode.after c).hides text

@[simp] theorem Mode.hides_append (mode : Mode) (first second : Text) :
    mode.hides (first ++ second) =
      (mode.hides first && (mode.afterText first).hides second) := by
  induction first generalizing mode with
  | nil => rfl
  | cons c first ih =>
      rw [List.cons_append, hides, hides, ih, Bool.and_assoc]
      rfl

theorem wordsFrom_of_hides {mode : Mode} {text : Text}
    (hidden : mode.hides text = true) :
    wordsFrom mode [] text = [] := by
  induction text generalizing mode with
  | nil => rfl
  | cons c text ih =>
      rw [Mode.hides, Bool.and_eq_true, Bool.not_eq_true'] at hidden
      rw [wordsFrom, hidden.1, Bool.false_and]
      exact ih hidden.2

theorem hides_short_of_isPlain {text : Text} (plain : IsPlain text)
    (quote : Quote) :
    (Mode.short quote).hides text = true := by
  induction text with
  | nil => rfl
  | cons c text ih =>
      obtain ⟨own, later⟩ := List.forall_mem_cons.mp plain
      have stays : step ⟨.short quote, []⟩ c = some ⟨.short quote, []⟩ :=
        shortStep_of_isPlain own quote []
      have same : (Mode.short quote).after c = .short quote := mode_step stays
      rw [Mode.hides, same, ih later]
      rfl

theorem hides_quotedPoint (keeps : CodePoint → Bool) {quote : Quote}
    {mode : Mode} (isIn : mode.IsIn quote) (c : CodePoint) :
    mode.hides (Text.quotedPoint keeps quote.point c) = true := by
  rcases quotedPoint_cases keeps quote c with
    ⟨form, -⟩ | ⟨mark, digits, form, plain⟩
  · rw [form, Mode.hides, isIn.inside]
    rfl
  · have escapes : mode.after '\\' = .shortEscape quote := by
      rcases isIn with rfl | rfl
      · cases quote <;> rfl
      · cases quote <;> rfl
    rw [form, Mode.hides, isIn.inside, escapes]
    exact hides_short_of_isPlain plain quote

theorem hides_quotedPoints (keeps : CodePoint → Bool) {quote : Quote}
    {mode : Mode} (isIn : mode.IsIn quote) (text : Text) :
    mode.hides (text.flatMap (Text.quotedPoint keeps quote.point) ++
      [quote.point]) = true := by
  induction text generalizing mode with
  | nil =>
      rcases isIn with rfl | rfl
      · rfl
      · rfl
  | cons c text ih =>
      have moves :=
        mode_run (Place.run_scan (run_quotedPoint false keeps isIn c []))
      rw [List.flatMap_cons, List.append_assoc, Mode.hides_append,
        hides_quotedPoint keeps isIn, moves]
      exact ih (.inr rfl)

/-- A comment has no words. -/
theorem words_comment {note : Text} (unbroken : IsUnbroken note) :
    words ("  # " ++ note) = [] := by
  have hidden : Mode.comment.hides note = true := by
    induction note with
    | nil => rfl
    | cons c note ih =>
        obtain ⟨own, later⟩ := List.forall_mem_cons.mp unbroken
        have stays : Mode.comment.after c = .comment := by
          rw [Mode.after, step, endsLine_of_not_isLineBreak own]
          rfl
        rw [Mode.hides, stays, ih later]
        rfl
  have entered : words ("  # " ++ note) = wordsFrom .comment [] note := rfl
  rw [entered]
  exact wordsFrom_of_hides hidden

/-- A literal has no words. -/
@[simp] theorem words_quoted (text : Text) : words (Text.quoted text) = [] := by
  obtain ⟨quote, form⟩ := exists_point_eq_quoteFor text
  have opens : Mode.code.after quote.point = .opened quote := by
    cases quote <;> rfl
  have noName : isNamePoint quote.point = false := by
    cases quote <;> rfl
  rw [Text.quoted, Text.quotedBy, form, List.cons_append, words, wordsFrom,
    noName, opens, Bool.and_false]
  exact wordsFrom_of_hides (hides_quotedPoints _ (.inl rfl) text)

end Lexical

namespace Var

/-- A variable that code assigns for its own use. -/
def isTemporary : Var → Bool
  | .slot index => index < 0
  | .named _ => false

theorem exists_identifier_eq {v : Var} (temporary : v.isTemporary = true) :
    ∃ number, v.identifier = Name.temporaryText ++ Text.ofNat number := by
  match v with
  | .slot (.ofNat index) => cases temporary
  | .slot (.negSucc index) => exact ⟨index + 1, rfl⟩
  | .named name => cases temporary

theorem mem_of_not_isTemporary {v : Var} {known : List Var}
    (other : v.isTemporary = false) (temporary : v.isTemporary = true) :
    v ∈ known := by
  rw [other] at temporary
  cases temporary

end Var

namespace Lexical

/-- If the word is a temporary, it is one of the known variables. -/
def KnownWord (known : List Var) (word : Text) : Prop :=
  ∀ v : Var, v.isTemporary = true → v.identifier = word → v ∈ known

/-- The temporaries in the text are known, and its scan ends outside of literals
and comments. -/
structure Worded (known : List Var) (text : Text) : Prop where
  words : ∀ word ∈ words text, KnownWord known word
  outside : (Mode.code.afterText text).isOutside = true

/-- The temporaries in the text are known, and it ends where a new word may
start. -/
structure Parted (known : List Var) (text : Text) : Prop where
  words : ∀ word ∈ words text, KnownWord known word
  inCode : Mode.code.afterText text = .code
  apart : endsApart text = true

section Composition

variable {known : List Var} {first second text : Text}

theorem Mode.afterText_of_isOutside {mode : Mode}
    (outside : mode.isOutside = true) (starts : startsApart text = true) :
    mode.afterText text = Mode.code.afterText text := by
  cases text with
  | nil => cases starts
  | cons c text =>
      rw [startsApart, Bool.and_eq_true] at starts
      rw [afterText, afterText, List.foldl_cons, List.foldl_cons,
        after_of_isOutside outside starts.2]

theorem endsApart_append (first : Text) (apart : endsApart second = true) :
    endsApart (first ++ second) = true := by
  rw [endsApart, Option.any_eq_true] at apart ⊢
  obtain ⟨c, last, noName⟩ := apart
  refine ⟨c, ?_, noName⟩
  rw [List.getLast?_append, last]
  rfl

theorem KnownWord.of_not_isPrefixOf {word : Text}
    (other : Name.temporaryText.isPrefixOf word = false) :
    KnownWord known word := by
  rintro v temporary rfl
  obtain ⟨number, form⟩ := v.exists_identifier_eq temporary
  rw [form, List.isPrefixOf_iff_prefix.mpr (List.prefix_append _ _)] at other
  cases other

theorem Parted.worded (parted : Parted known text) : Worded known text :=
  ⟨parted.words, by rw [parted.inCode]; rfl⟩

/-- A mark, whose words can be computed. -/
theorem Parted.mark
    (others : (Lexical.words text).all (fun word =>
      !Name.temporaryText.isPrefixOf word) = true)
    (inCode : Mode.code.afterText text = .code)
    (apart : endsApart text = true) :
    Parted known text := by
  refine ⟨fun word member => .of_not_isPrefixOf ?_, inCode, apart⟩
  exact (Bool.not_eq_true' _).mp (List.all_eq_true.mp others word member)

theorem Worded.append (worded : Worded known first) (mark : Parted known second)
    (starts : startsApart second = true) : Parted known (first ++ second) := by
  refine ⟨?_, ?_, endsApart_append first mark.apart⟩
  · rw [Lexical.words, wordsFrom_append_of_startsApart worded.outside starts]
    exact List.forall_mem_append.mpr ⟨worded.words, mark.words⟩
  · rw [Mode.afterText_append,
      Mode.afterText_of_isOutside worded.outside starts]
    exact mark.inCode

theorem Parted.append (mark : Parted known first)
    (worded : Worded known second) :
    Worded known (first ++ second) := by
  constructor
  · rw [Lexical.words, wordsFrom_append_of_endsApart mark.inCode mark.apart]
    exact List.forall_mem_append.mpr ⟨mark.words, worded.words⟩
  · rw [Mode.afterText_append, mark.inCode]
    exact worded.outside

theorem Worded.enclosed {opening closing : Text} (worded : Worded known text)
    (opens : Parted known opening) (closes : Parted known closing)
    (starts : startsApart closing = true) :
    Parted known (opening ++ text ++ closing) :=
  (opens.append worded).append closes starts

theorem worded_join {separator : Text} (between : Parted known separator)
    (starts : startsApart separator = true) {parts : List Text}
    (each : ∀ part ∈ parts, Worded known part) :
    Worded known (Text.join separator parts) := by
  unfold Text.join
  induction parts with
  | nil => exact ⟨List.forall_mem_nil _, rfl⟩
  | cons part parts ih =>
      obtain ⟨own, later⟩ := List.forall_mem_cons.mp each
      cases parts with
      | nil =>
          rw [List.intercalate_singleton]
          exact own
      | cons next parts =>
          rw [List.intercalate_cons_cons]
          exact (own.append between starts).append (ih later)

end Composition

section Words

variable {known : List Var} {text : Text}

theorem afterText_of_isPlain (plain : IsPlain text) :
    Mode.code.afterText text = .code :=
  mode_run (Place.run_scan ((plain.moves []).run_eq []))

theorem wordsFrom_of_isWord (start : Text) (isWord : text.IsWord) :
    wordsFrom .code start text = ended (start ++ text) [] := by
  induction text generalizing start with
  | nil => rw [wordsFrom, List.append_nil]
  | cons c text ih =>
      obtain ⟨own, later⟩ := List.forall_mem_cons.mp isWord
      have bare : IsBare [c] :=
        coversNumerals.word (List.forall_mem_singleton.mpr own)
      have stays : Mode.code.after c = .code := afterText_of_isPlain bare.plain
      have name : isNamePoint c = true := by rw [isNamePoint, own, Bool.true_or]
      rw [wordsFrom, name, stays, List.append_cons start c text]
      exact ih (start ++ [c]) later

theorem Worded.of_isWord (isWord : text.IsWord) (own : KnownWord known text) :
    Worded known text := by
  constructor
  · rw [Lexical.words, wordsFrom_of_isWord [] isWord]
    intro word member
    rcases eq_or_mem_of_mem_ended member with rfl | later
    · exact own
    · cases later
  · have bare : IsBare text := coversNumerals.word isWord
    rw [afterText_of_isPlain bare.plain]
    rfl

theorem worded_identifier {v : Var} (own : v.isTemporary = true → v ∈ known) :
    Worded known v.identifier := by
  refine .of_isWord v.isIdentifier_identifier.1 ?_
  intro other temporary same
  cases Var.identifier_injective same
  exact own temporary

theorem worded_name (name : Name) : Worded known name.identifier := by
  have other : (Var.named name).isTemporary = false := rfl
  exact worded_identifier (Var.mem_of_not_isTemporary other)

/-- Numbers lack a letter that temporaries have. -/
theorem coversFigures : CoversFigures fun c => isPlain c = true ∧ c ≠ 'x' := by
  intro c figure
  have bare :=
    coversNumerals c (CodePoint.isNumeralPoint_of_isFigurePoint figure)
  refine ⟨(Bool.and_eq_true_iff.mp bare).1, ?_⟩
  rintro rfl
  exact absurd figure (by decide)

theorem Worded.of_figures (only : text.Only fun c => isPlain c = true ∧
    c ≠ 'x') :
    Worded known text := by
  constructor
  · rintro word member v temporary rfl
    obtain ⟨number, form⟩ := v.exists_identifier_eq temporary
    have letter : CodePoint.ofChar 'x' ∈ v.identifier := by
      rw [form]
      exact List.mem_append_left _ (by decide)
    exact ((only _ (mem_of_mem_wordsFrom member letter)).2 rfl).elim
  · rw [afterText_of_isPlain (only.mono fun _ own => own.1)]
    rfl

theorem worded_ofInt (value : Int) : Worded known (Text.ofInt value) :=
  .of_figures (coversFigures.ofInt value)

theorem worded_quoted (text : Text) : Worded known (Text.quoted text) := by
  constructor
  · rw [words_quoted]
    exact List.forall_mem_nil _
  · have neutral : Neutral false (Text.quoted text) := neutral_quoted text
    obtain ⟨mode, outside, ran⟩ := neutral.run_eq []
    have ends : Mode.code.afterText (Text.quoted text) = mode :=
      mode_run (Place.run_scan ran)
    rw [ends]
    exact outside

end Words

end Lexical

namespace Code

open Lexical

section Texts

variable {known : List Var}

theorem parted_closing : Parted known ")" :=
  .mark rfl rfl rfl

theorem worded_row {items : List Text}
    (itemsWorded : ∀ item ∈ items, Worded known item) :
    Worded known (Text.join ", " items) :=
  worded_join (.mark rfl rfl rfl) rfl itemsWorded

theorem worded_raiseText (message : Text) : Worded known (raiseText message) :=
  ((worded_quoted message).enclosed (.mark rfl rfl rfl)
    parted_closing rfl).worded

theorem worded_callText {callee : Text} {args : List Text}
    (calleeWorded : Worded known callee)
    (argsWorded : ∀ arg ∈ args, Worded known arg) :
    Worded known (callText callee args) := by
  have opens : Parted known (callee ++ "(") :=
    calleeWorded.append (.mark rfl rfl rfl) rfl
  exact ((worded_row argsWorded).enclosed opens parted_closing rfl).worded

theorem worded_tupleText {items : List Text}
    (itemsWorded : ∀ item ∈ items, Worded known item) :
    Worded known (tupleText items) := by
  have opens : Parted known "(" := .mark rfl rfl rfl
  unfold tupleText
  split
  · have item := itemsWorded _ (List.mem_singleton.mpr rfl)
    exact (item.enclosed opens (.mark rfl rfl rfl) rfl).worded
  · exact ((worded_row itemsWorded).enclosed opens parted_closing rfl).worded

theorem worded_frozenText {v : Var} (own : v.isTemporary = true → v ∈ known) :
    Worded known (frozenText v) := by
  have name := worded_identifier own
  have start : Parted known (v.identifier ++ "=") :=
    name.append (.mark rfl rfl rfl) rfl
  exact start.append name

theorem worded_frozen {frozen : List Var}
    (own : ∀ v ∈ frozen, v.isTemporary = true → v ∈ known) :
    ∀ part ∈ frozen.map frozenText, Worded known part :=
  List.forall_mem_map.mpr fun v member => worded_frozenText (own v member)

theorem worded_paramsText (params : List Name) {frozen : List Var}
    (own : ∀ v ∈ frozen, v.isTemporary = true → v ∈ known) :
    Worded known (paramsText params frozen) := by
  refine worded_row (List.forall_mem_append.mpr ⟨?_, worded_frozen own⟩)
  exact List.forall_mem_map.mpr fun name _ => worded_name name

theorem worded_thunkText {frozen : List Var} {body : Text}
    (own : ∀ v ∈ frozen, v.isTemporary = true → v ∈ known)
    (bodyWorded : Worded known body) :
    Worded known (thunkText frozen body) := by
  unfold thunkText
  split
  · exact (bodyWorded.enclosed (.mark rfl rfl rfl) parted_closing rfl).worded
  · have opens : Parted known "(lambda " := .mark rfl rfl rfl
    have colon : Parted known ": " := .mark rfl rfl rfl
    have head := (worded_row (worded_frozen own)).enclosed opens colon rfl
    exact (bodyWorded.enclosed head parted_closing rfl).worded

theorem worded_lambdaText (param : Name) {frozen : List Var} {body : Text}
    (own : ∀ v ∈ frozen, v.isTemporary = true → v ∈ known)
    (bodyWorded : Worded known body) :
    Worded known (lambdaText param frozen body) := by
  have opens : Parted known "(lambda " := .mark rfl rfl rfl
  have colon : Parted known ": (" := .mark rfl rfl rfl
  have head := (worded_paramsText [param] own).enclosed opens colon rfl
  exact (bodyWorded.enclosed head (.mark rfl rfl rfl) rfl).worded

theorem worded_floatText (value : Double) : Worded known (floatText value) := by
  unfold floatText
  split
  · exact .of_figures (coversFigures.double value)
  · cases value with
    | nan => exact Parted.worded (.mark rfl rfl rfl)
    | infinite negative =>
        cases negative with
        | false => exact Parted.worded (.mark rfl rfl rfl)
        | true => exact Parted.worded (.mark rfl rfl rfl)
    | finite => rename_i infinite; exact (infinite rfl).elim

/-- Two operands with an operator between them, in parentheses. -/
theorem worded_operationText {opening op left right : Text}
    (opens : Parted known opening) (apart : Parted known (" " ++ op ++ " "))
    (leftWorded : Worded known left) (rightWorded : Worded known right) :
    Worded known (opening ++ left ++ " " ++ op ++ " " ++ right ++ ")") := by
  have head := leftWorded.enclosed opens apart rfl
  have whole := (rightWorded.enclosed head parted_closing rfl).worded
  simpa only [List.append_assoc] using whole

theorem worded_unaryText (op : UnaryOp) {arg : Text}
    (argWorded : Worded known arg) :
    Worded known (op.text arg) := by
  cases op with
  | toStr =>
      exact (argWorded.enclosed (.mark rfl rfl rfl) parted_closing rfl).worded
  | toInt =>
      exact (argWorded.enclosed (.mark rfl rfl rfl) parted_closing rfl).worded
  | reversed => exact (argWorded.append (.mark rfl rfl rfl) rfl).worded
  | first => exact (argWorded.append (.mark rfl rfl rfl) rfl).worded
  | rest => exact (argWorded.append (.mark rfl rfl rfl) rfl).worded

end Texts

/-- The temporaries in the text of the term are known. -/
def Term.Reads (restart : Text) (known : List Var) (term : Term) : Prop :=
  Worded known (term.text restart)

theorem Term.worded_texts {restart : Text} {known : List Var}
    {terms : List Term} (each : ∀ term ∈ terms, term.Reads restart known) :
    ∀ text ∈ texts restart terms, Worded known text := by
  rw [texts_eq_map]
  exact List.forall_mem_map.mpr each

theorem Term.composed_reads (restart : Text) (known : List Var) :
    Term.Composed (Term.Reads restart known) where
  int := worded_ofInt
  float := worded_floatText
  str := worded_quoted
  none := .of_isWord (List.all_eq_true.mp rfl) (.of_not_isPrefixOf rfl)
  raise := worded_raiseText
  paren body := (body.enclosed (.mark rfl rfl rfl) parted_closing rfl).worded
  call callee args := worded_callText callee (worded_texts args)
  tuple items := worded_tupleText (worded_texts items)
  item := by
    intro body index bodyWorded
    have opens : Parted known (body.text restart ++ "[") :=
      Worded.append bodyWorded (.mark rfl rfl rfl) rfl
    exact ((worded_ofInt index).enclosed opens (.mark rfl rfl rfl) rfl).worded
  binary := by
    intro op left right leftWorded rightWorded
    have apart : Parted known (" " ++ op.text ++ " ") := by
      cases op <;> exact .mark rfl rfl rfl
    exact worded_operationText (.mark rfl rfl rfl) apart leftWorded rightWorded
  compare := by
    intro op left right leftWorded rightWorded
    have apart : Parted known (" " ++ op.text ++ " ") := by
      cases op <;> exact .mark rfl rfl rfl
    exact worded_operationText (.mark rfl rfl rfl) apart leftWorded rightWorded
  unary op _ arg := worded_unaryText op arg
  readLine := Parted.worded (.mark rfl rfl rfl)
  write arg := (arg.enclosed (.mark rfl rfl rfl) parted_closing rfl).worded
  unsupported := fun _ _ _ => worded_raiseText _

theorem Term.reads_curried {restart : Text} {known frozen : List Var}
    {body : Term} (own : ∀ v ∈ frozen, v.isTemporary = true → v ∈ known)
    (bodyReads : body.Reads restart known) (params : List Name) :
    (Lowering.curried frozen body params).Reads restart known := by
  cases params with
  | nil => exact worded_thunkText own bodyReads
  | cons param params =>
      apply worded_lambdaText param own
      induction params with
      | nil => exact bodyReads
      | cons next params ih =>
          exact worded_lambdaText next (List.forall_mem_nil _) ih

end Code

end TailLoop
