import TailLoop.Proofs.PrintedText

/-!
# Scanning code

A scan reads code from left to right and knows at each place whether it stands
in a literal and which brackets are open.  A literal stands between quotes of
one kind, one or three on each side, and a backslash takes the code point after
it into the literal.  A text is complete if its scan ends outside of literals
and comments with every bracket closed by its own kind.

Parts of code are joined by marks that hold no quote, so the scan of a text is
the scan of its parts, one after the other.
-/

namespace TailLoop.Lexical

inductive Quote where
  | single
  | double
deriving DecidableEq

def Quote.point : Quote → CodePoint
  | .single => '\''
  | .double => '"'

def Quote.of? (c : CodePoint) : Option Quote :=
  if c = '\'' then some .single else if c = '"' then some .double else none

inductive Bracket where
  | round
  | square
  | curly
deriving DecidableEq

def Bracket.opened? (c : CodePoint) : Option Bracket :=
  if c = '(' then some .round
  else if c = '[' then some .square
  else if c = '\x7b' then some .curly
  else none

def Bracket.closed? (c : CodePoint) : Option Bracket :=
  if c = ')' then some .round
  else if c = ']' then some .square
  else if c = '\x7d' then some .curly
  else none

/-- The code points that end a line of code. -/
def endsLine (c : CodePoint) : Bool :=
  c = '\n' || c = '\r'

/-- The code points that end a line of text, by any of the conventions there
are. -/
def lineBreaks : List Nat :=
  [0x0A, 0x0B, 0x0C, 0x0D, 0x1C, 0x1D, 0x1E, 0x85, 0x2028, 0x2029]

def isLineBreak (c : CodePoint) : Bool :=
  lineBreaks.contains c.val

/-- Where a scan stands. -/
inductive Mode where
  | code
  /-- After the quote that opens a literal. -/
  | opened (quote : Quote)
  /-- After two quotes: an empty literal, unless a third one makes them open a
  long one. -/
  | emptied (quote : Quote)
  | short (quote : Quote)
  | shortEscape (quote : Quote)
  /-- In a literal between three quotes, after so many quotes that may close
  it. -/
  | long (quote : Quote) (closing : Nat)
  | longEscape (quote : Quote)
  | comment
deriving DecidableEq

/-- The place is in none of the literals and comments. -/
def Mode.isOutside : Mode → Bool
  | .code => true
  | .emptied _ => true
  | _ => false

structure Scan where
  mode : Mode
  /-- The open brackets, the innermost first. -/
  brackets : List Bracket
deriving DecidableEq

/-- A step outside of literals.  A backslash has no meaning there, but before a
line end. -/
def codeStep (brackets : List Bracket) (c : CodePoint) : Option Scan :=
  match Quote.of? c, Bracket.opened? c, Bracket.closed? c with
  | some quote, _, _ => some ⟨.opened quote, brackets⟩
  | none, some bracket, _ => some ⟨.code, bracket :: brackets⟩
  | none, none, some bracket =>
      if brackets.head? = some bracket then some ⟨.code, brackets.tail⟩ else
        none
  | none, none, none =>
      if c = '#' then some ⟨.comment, brackets⟩
      else if c = '\\' then none
      else some ⟨.code, brackets⟩

/-- A step in a short literal, which has to end on its line. -/
def shortStep (quote : Quote) (brackets : List Bracket) (c : CodePoint) :
    Option Scan :=
  if c = quote.point then some ⟨.code, brackets⟩
  else if c = '\\' then some ⟨.shortEscape quote, brackets⟩
  else if endsLine c then none
  else some ⟨.short quote, brackets⟩

def longStep (quote : Quote) (closing : Nat) (brackets : List Bracket)
    (c : CodePoint) :
    Option Scan :=
  if c = quote.point then
    some ⟨if closing = 2 then .code else .long quote (closing + 1), brackets⟩
  else if c = '\\' then some ⟨.longEscape quote, brackets⟩
  else some ⟨.long quote 0, brackets⟩

def step (scan : Scan) (c : CodePoint) : Option Scan :=
  match scan.mode with
  | .code => codeStep scan.brackets c
  | .opened quote =>
      if c = quote.point then some ⟨.emptied quote, scan.brackets⟩
      else shortStep quote scan.brackets c
  | .emptied quote =>
      if c = quote.point then some ⟨.long quote 0, scan.brackets⟩
      else codeStep scan.brackets c
  | .short quote => shortStep quote scan.brackets c
  | .shortEscape quote => some ⟨.short quote, scan.brackets⟩
  | .long quote closing => longStep quote closing scan.brackets c
  | .longEscape quote => some ⟨.long quote 0, scan.brackets⟩
  | .comment => some ⟨if endsLine c then .code else .comment, scan.brackets⟩

def run : Scan → Text → Option Scan
  | scan, [] => some scan
  | scan, c :: text => (step scan c).bind fun next => run next text

/-- The scan ends outside of literals and comments, and every bracket is closed
by its own kind. -/
def isComplete (text : Text) : Bool :=
  match run ⟨.code, []⟩ text with
  | some ⟨mode, []⟩ => mode.isOutside
  | _ => false

example : isComplete "f('it\\'s', \"\", [0])" = true := by decide

example : isComplete "f('it's')" = false ∧ isComplete "f([0)]" = false := by
  decide

/-- A place in a scan, and whether a colon of the code stands right before
it. -/
structure Place where
  scan : Scan
  afterColon : Bool

namespace Place

/-- A place in code outside of literals. -/
def start (brackets : List Bracket) : Place :=
  ⟨⟨.code, brackets⟩, false⟩

/-- A quiet scan refuses an equals sign that may assign a variable, and the end
of a statement. -/
def refuses (quiet : Bool) (place : Place) (c : CodePoint) : Bool :=
  place.scan.mode.isOutside &&
    (c = '=' && quiet && (place.afterColon || place.scan.brackets.isEmpty) ||
      c = ';' && quiet && place.scan.brackets.isEmpty)

def step (quiet : Bool) (place : Place) (c : CodePoint) : Option Place :=
  if place.refuses quiet c then none
  else
    (Lexical.step place.scan c).map fun next =>
      ⟨next, place.scan.mode.isOutside && c = ':' && quiet⟩

def run (quiet : Bool) : Place → Text → Option Place
  | place, [] => some place
  | place, c :: text =>
      (place.step quiet c).bind fun next => next.run quiet text

theorem run_append (quiet : Bool) (place : Place) (first second : Text) :
    place.run quiet (first ++ second) =
      (place.run quiet first).bind fun middle => middle.run quiet second := by
  induction first generalizing place with
  | nil => rfl
  | cons c first ih =>
      rw [List.cons_append, run, run, Option.bind_assoc]
      congr 1
      funext next
      exact ih next

theorem step_scan {quiet : Bool} {place next : Place} {c : CodePoint}
    (stepped : place.step quiet c = some next) :
    Lexical.step place.scan c = some next.scan := by
  obtain ⟨-, moved⟩ := Option.ite_none_left_eq_some.mp stepped
  obtain ⟨scan, made, rfl⟩ := Option.map_eq_some_iff.mp moved
  exact made

/-- A quiet scan is a scan. -/
theorem run_scan {quiet : Bool} {place next : Place} {text : Text}
    (ran : place.run quiet text = some next) :
    Lexical.run place.scan text = some next.scan := by
  induction text generalizing place with
  | nil =>
      cases ran
      rfl
  | cons c text ih =>
      obtain ⟨middle, stepped, rest⟩ := Option.bind_eq_some_iff.mp ran
      rw [Lexical.run, step_scan stepped]
      exact ih rest

/-- In a literal no point is refused for what it means in code. -/
theorem step_inside {quiet afterColon : Bool} {mode : Mode}
    (inside : mode.isOutside = false) (brackets : List Bracket)
    (c : CodePoint) :
    step quiet ⟨⟨mode, brackets⟩, afterColon⟩ c =
      (Lexical.step ⟨mode, brackets⟩ c).map fun next => ⟨next, false⟩ := by
  simp only [step, refuses, inside, Bool.false_and, Bool.false_eq_true,
    if_false]

end Place

/-- A text on one line. -/
def IsUnbroken (text : Text) : Prop :=
  text.Only fun c => isLineBreak c = false

/-- A text on one line whose scan turns the innermost open brackets `before`
into `after`, without a sign if it has to be quiet. -/
structure Moves (quiet : Bool) (before after : List Bracket) (text : Text) :
    Prop where
  unbroken : IsUnbroken text
  run_eq : ∀ brackets, (Place.start (before ++ brackets)).run quiet text =
    some (.start (after ++ brackets))

/-- The same, but the text may end in an empty literal. -/
structure Leads (quiet : Bool) (before after : List Bracket) (text : Text) :
    Prop where
  unbroken : IsUnbroken text
  run_eq : ∀ brackets, ∃ mode, mode.isOutside = true ∧
    (Place.start (before ++ brackets)).run quiet text =
      some ⟨⟨mode, after ++ brackets⟩, false⟩

/-- The scan of the text leaves the open brackets as they were. -/
def Neutral (quiet : Bool) (text : Text) : Prop :=
  Leads quiet [] [] text

/-- The text starts with another code point than a quote. -/
def isFirm : Text → Bool
  | [] => false
  | c :: _ => (Quote.of? c).isNone

theorem ne_point_of_isNone {c : CodePoint}
    (noQuote : (Quote.of? c).isNone = true) (quote : Quote) :
    c ≠ quote.point := by
  rintro rfl
  cases quote with
  | single => exact Bool.false_ne_true noQuote
  | double => exact Bool.false_ne_true noQuote

/-- What follows an empty literal does not belong to it, unless it is a
quote. -/
theorem step_of_isOutside {mode : Mode} (outside : mode.isOutside = true)
    {c : CodePoint} (noQuote : (Quote.of? c).isNone = true)
    (brackets : List Bracket) :
    step ⟨mode, brackets⟩ c = step ⟨.code, brackets⟩ c := by
  cases mode with
  | code => rfl
  | emptied quote => exact if_neg (ne_point_of_isNone noQuote quote)
  | _ => cases outside

theorem Place.run_of_isFirm {quiet : Bool} {mode : Mode}
    (outside : mode.isOutside = true) {text : Text}
    (firm : isFirm text = true) (brackets : List Bracket) :
    run quiet ⟨⟨mode, brackets⟩, false⟩ text =
      (start brackets).run quiet text := by
  cases text with
  | nil => cases firm
  | cons c text =>
      have same : step quiet ⟨⟨mode, brackets⟩, false⟩ c =
          (start brackets).step quiet c := by
        simp only [step, refuses, start, outside,
          step_of_isOutside outside firm brackets]
        rfl
      rw [run, run, same]

section Parts

variable {quiet : Bool} {before between after : List Bracket}
  {first second : Text}

/-- A mark, whose scan can be computed. -/
theorem Moves.mark (unbroken : first.any isLineBreak = false)
    (run_eq : ∀ brackets, (Place.start (before ++ brackets)).run quiet first =
      some (.start (after ++ brackets))) :
    Moves quiet before after first :=
  ⟨fun c member =>
    Bool.eq_false_iff.mpr (List.any_eq_false.mp unbroken c member), run_eq⟩

theorem Moves.leads (moves : Moves quiet before after first) :
    Leads quiet before after first :=
  ⟨moves.unbroken, fun brackets => ⟨.code, rfl, moves.run_eq brackets⟩⟩

theorem Moves.append (moves : Moves quiet before between first)
    (moves' : Moves quiet between after second) :
    Moves quiet before after (first ++ second) := by
  refine ⟨moves.unbroken.append moves'.unbroken, fun brackets => ?_⟩
  rw [Place.run_append, moves.run_eq brackets]
  exact moves'.run_eq brackets

theorem Moves.appendLeads (moves : Moves quiet before between first)
    (leads : Leads quiet between after second) :
    Leads quiet before after (first ++ second) := by
  refine ⟨moves.unbroken.append leads.unbroken, fun brackets => ?_⟩
  obtain ⟨mode, outside, ran⟩ := leads.run_eq brackets
  refine ⟨mode, outside, ?_⟩
  rw [Place.run_append, moves.run_eq brackets]
  exact ran

theorem Leads.appendMoves (leads : Leads quiet before between first)
    (moves : Moves quiet between after second) (firm : isFirm second = true) :
    Moves quiet before after (first ++ second) := by
  refine ⟨leads.unbroken.append moves.unbroken, fun brackets => ?_⟩
  obtain ⟨mode, outside, ran⟩ := leads.run_eq brackets
  rw [Place.run_append, ran]
  exact (Place.run_of_isFirm outside firm _).trans (moves.run_eq brackets)

theorem Neutral.leads {text : Text} (neutral : Neutral quiet text)
    (brackets : List Bracket) : Leads quiet brackets brackets text :=
  ⟨neutral.unbroken, fun more => neutral.run_eq (brackets ++ more)⟩

theorem Neutral.isComplete {text : Text} (neutral : Neutral quiet text) :
    isComplete text = true := by
  obtain ⟨mode, outside, ran⟩ := neutral.run_eq []
  have ran' : run ⟨.code, []⟩ text = some ⟨mode, []⟩ := Place.run_scan ran
  rw [Lexical.isComplete, ran']
  exact outside

/-- A neutral text between two marks. -/
theorem Neutral.enclosed {opening text closing : Text}
    (neutral : Neutral quiet text) (opens : Moves quiet before between opening)
    (closes : Moves quiet between after closing)
    (firm : isFirm closing = true) :
    Moves quiet before after (opening ++ text ++ closing) :=
  (opens.appendLeads (neutral.leads between)).appendMoves closes firm

/-- Parts of a row, which may stand in brackets. -/
theorem leads_join {brackets : List Bracket} {separator : Text}
    (between : Moves quiet brackets brackets separator)
    (firm : isFirm separator = true) {parts : List Text}
    (each : ∀ part ∈ parts, Leads quiet brackets brackets part) :
    Leads quiet brackets brackets (Text.join separator parts) := by
  unfold Text.join
  induction parts with
  | nil => exact ⟨.nil, fun brackets => ⟨.code, rfl, rfl⟩⟩
  | cons part parts ih =>
      obtain ⟨own, later⟩ := List.forall_mem_cons.mp each
      cases parts with
      | nil =>
          rw [List.intercalate_singleton]
          exact own
      | cons next parts =>
          rw [List.intercalate_cons_cons]
          exact (own.appendMoves between firm).appendLeads (ih later)

end Parts

/-- Code on one line whose literals end and whose brackets are closed, without
a sign. -/
def isQuiet (text : Text) : Bool :=
  !text.any isLineBreak &&
    match (Place.start []).run true text with
    | some ⟨⟨mode, []⟩, false⟩ => mode.isOutside
    | _ => false

example : isQuiet "math.sqrt" = true ∧ isQuiet "f(key='=')" = true := by decide

example : isQuiet "x = f" = false ∧ isQuiet "(x := 0) or f" = false := by
  decide

/-- Open brackets that are not reached do not matter. -/
def Scan.within (scan : Scan) (more : List Bracket) : Scan :=
  ⟨scan.mode, scan.brackets ++ more⟩

theorem codeStep_within {brackets : List Bracket} {c : CodePoint} {next : Scan}
    (stepped : codeStep brackets c = some next) (more : List Bracket) :
    codeStep (brackets ++ more) c = some (next.within more) := by
  rw [codeStep] at stepped ⊢
  split at stepped
  · cases stepped
    rfl
  · cases stepped
    rfl
  · obtain ⟨innermost, made⟩ := Option.ite_none_right_eq_some.mp stepped
    cases made
    cases brackets with
    | nil => cases innermost
    | cons bracket brackets => exact if_pos innermost
  · split at stepped
    · rename_i comments
      cases stepped
      exact if_pos comments
    · rename_i noComment
      obtain ⟨noBackslash, made⟩ := Option.ite_none_left_eq_some.mp stepped
      cases made
      exact (if_neg noComment).trans (if_neg noBackslash)

theorem shortStep_within {quote : Quote} {brackets : List Bracket}
    {c : CodePoint} {next : Scan}
    (stepped : shortStep quote brackets c = some next) (more : List Bracket) :
    shortStep quote (brackets ++ more) c = some (next.within more) := by
  rw [shortStep] at stepped ⊢
  split at stepped
  · cases stepped
    exact if_pos ‹_›
  · rw [if_neg ‹_›]
    split at stepped
    · cases stepped
      exact if_pos ‹_›
    · rw [if_neg ‹_›]
      obtain ⟨inLine, made⟩ := Option.ite_none_left_eq_some.mp stepped
      cases made
      exact if_neg inLine

theorem step_within {scan next : Scan} {c : CodePoint}
    (stepped : step scan c = some next) (more : List Bracket) :
    step (scan.within more) c = some (next.within more) := by
  obtain ⟨mode, brackets⟩ := scan
  cases mode with
  | code => exact codeStep_within stepped more
  | opened quote =>
      by_cases closes : c = quote.point
      · simp only [step, if_pos closes, Option.some.injEq] at stepped
        subst stepped
        exact if_pos closes
      · simp only [step, if_neg closes] at stepped
        exact (if_neg closes).trans (shortStep_within stepped more)
  | emptied quote =>
      by_cases opens : c = quote.point
      · simp only [step, if_pos opens, Option.some.injEq] at stepped
        subst stepped
        exact if_pos opens
      · simp only [step, if_neg opens] at stepped
        exact (if_neg opens).trans (codeStep_within stepped more)
  | short quote => exact shortStep_within stepped more
  | shortEscape quote =>
      cases stepped
      rfl
  | long quote closing =>
      simp only [step, longStep, Scan.within] at stepped ⊢
      split at stepped
      · cases stepped
        exact if_pos ‹_›
      · rw [if_neg ‹_›]
        split at stepped
        · cases stepped
          exact if_pos ‹_›
        · cases stepped
          exact if_neg ‹_›
  | longEscape quote =>
      cases stepped
      rfl
  | comment =>
      cases stepped
      rfl

theorem Place.run_within {quiet : Bool} {place next : Place} {text : Text}
    (ran : place.run quiet text = some next) (more : List Bracket) :
    run quiet ⟨place.scan.within more, place.afterColon⟩ text =
      some ⟨next.scan.within more, next.afterColon⟩ := by
  induction text generalizing place with
  | nil =>
      cases ran
      rfl
  | cons c text ih =>
      obtain ⟨middle, stepped, rest⟩ := Option.bind_eq_some_iff.mp ran
      obtain ⟨accepted, moved⟩ := Option.ite_none_left_eq_some.mp stepped
      obtain ⟨scan, made, rfl⟩ := Option.map_eq_some_iff.mp moved
      have still :
          ¬ refuses quiet ⟨place.scan.within more, place.afterColon⟩ c =
          true := by
        intro refused
        apply accepted
        simp only [refuses, Scan.within, Bool.and_eq_true, Bool.or_eq_true,
          List.isEmpty_iff, List.append_eq_nil_iff] at refused ⊢
        grind
      rw [run, step, if_neg still, step_within made more]
      exact ih rest

/-- A quiet text is so in brackets too. -/
theorem neutral_of_isQuiet {text : Text} (isQuiet : isQuiet text = true) :
    Neutral true text := by
  obtain ⟨unbroken, ends⟩ := Bool.and_eq_true_iff.mp isQuiet
  refine ⟨fun c member => ?_, fun brackets => ?_⟩
  · exact Bool.eq_false_iff.mpr
      (List.any_eq_false.mp ((Bool.not_eq_true' _).mp unbroken) c member)
  · split at ends
    · rename_i mode ran
      exact ⟨mode, ends, Place.run_within ran brackets⟩
    · cases ends

/-- A code point that is no line break, no quote, bracket or backslash and
starts no comment. -/
def isPlain (c : CodePoint) : Bool :=
  !isLineBreak c && (Quote.of? c).isNone && (Bracket.opened? c).isNone &&
    (Bracket.closed? c).isNone && c ≠ '#' && c ≠ '\\'

/-- A code point that belongs to no sign. -/
def isSilent (c : CodePoint) : Bool :=
  c ≠ '=' && c ≠ ';' && c ≠ ':'

/-- A text of plain code points alone, such as a name of letters, digits and
underscores. -/
def IsPlain (text : Text) : Prop :=
  text.Only fun c => isPlain c = true

def IsBare (text : Text) : Prop :=
  text.Only fun c => (isPlain c && isSilent c) = true

theorem IsBare.plain {text : Text} (bare : IsBare text) : IsPlain text :=
  bare.mono fun _ own => (Bool.and_eq_true_iff.mp own).1

theorem codeStep_of_isPlain {c : CodePoint} (plain : isPlain c = true)
    (brackets : List Bracket) :
    codeStep brackets c = some ⟨.code, brackets⟩ := by
  simp only [isPlain, Bool.and_eq_true, Option.isNone_iff_eq_none,
    decide_eq_true_eq] at plain
  obtain ⟨⟨⟨⟨⟨-, noQuote⟩, notOpened⟩, notClosed⟩, noComment⟩, noBackslash⟩ :=
    plain
  rw [codeStep, noQuote, notOpened, notClosed]
  dsimp only
  rw [if_neg noComment, if_neg noBackslash]

theorem Place.step_of_isPlain {quiet : Bool} {c : CodePoint}
    (plain : isPlain c = true) (silent : quiet = true → isSilent c = true)
    (brackets : List Bracket) :
    (start brackets).step quiet c = some (start brackets) := by
  have stays : Lexical.step ⟨.code, brackets⟩ c = some ⟨.code, brackets⟩ :=
    codeStep_of_isPlain plain brackets
  cases quiet with
  | false =>
      simp only [step, refuses, start, stays, Bool.and_false, Bool.false_and,
        Bool.or_self, Bool.false_eq_true, if_false, Option.map_some]
  | true =>
      simp only [isSilent, Bool.and_eq_true, decide_eq_true_eq] at silent
      obtain ⟨⟨noEquals, noEnd⟩, noColon⟩ := silent trivial
      simp only [step, refuses, start, stays, noEquals, noEnd, noColon,
        decide_false, Bool.false_and, Bool.and_false, Bool.or_self,
        Bool.false_eq_true, if_false, Option.map_some]

theorem moves_of_isPlain {quiet : Bool} {text : Text} (plain : IsPlain text)
    (silent : quiet = true → text.Only fun c => isSilent c = true)
    (brackets : List Bracket) : Moves quiet brackets brackets text := by
  refine ⟨plain.mono fun c own => ?_, fun more => ?_⟩
  · simp only [isPlain, Bool.and_eq_true, Bool.not_eq_true'] at own
    exact own.1.1.1.1.1
  · induction text with
    | nil => rfl
    | cons c text ih =>
        obtain ⟨own, later⟩ := List.forall_mem_cons.mp plain
        have stays := Place.step_of_isPlain own
          (fun asked => silent asked c List.mem_cons_self) (brackets ++ more)
        rw [Place.run, stays]
        exact ih later fun asked c member =>
          silent asked c (List.mem_cons_of_mem _ member)

theorem IsPlain.moves {text : Text} (plain : IsPlain text)
    (brackets : List Bracket) : Moves false brackets brackets text :=
  moves_of_isPlain plain (fun asked => absurd asked Bool.false_ne_true) brackets

theorem IsPlain.neutral {text : Text} (plain : IsPlain text) :
    Neutral false text :=
  (plain.moves []).leads

theorem IsBare.moves {quiet : Bool} {text : Text} (bare : IsBare text)
    (brackets : List Bracket) : Moves quiet brackets brackets text :=
  moves_of_isPlain bare.plain
    (fun _ => bare.mono fun _ own => (Bool.and_eq_true_iff.mp own).2) brackets

theorem IsBare.neutral {quiet : Bool} {text : Text} (bare : IsBare text) :
    Neutral quiet text :=
  (bare.moves []).leads

theorem coversNumerals :
    CoversNumerals fun c => (isPlain c && isSilent c) = true := by
  have ascii : ∀ n : Fin 128,
      (CodePoint.mk n (by omega)).isNumeralPoint = true →
      (isPlain (CodePoint.mk n (by omega)) &&
        isSilent (CodePoint.mk n (by omega))) = true := by
    decide +kernel
  intro c point
  have visible := CodePoint.isVisible_of_isNumeralPoint point
  have high : '~'.toNat < 128 := by decide
  simp only [CodePoint.isVisible, CodePoint.isBetween, Bool.and_eq_true,
    decide_eq_true_eq] at visible
  exact ascii ⟨c.val, by omega⟩ point

/-- No line break is printable. -/
theorem coversPrintable : CoversPrintable fun c => isLineBreak c = false := by
  have outside : ∀ n ∈ lineBreaks, ∃ range ∈ CodePoint.unprintableRanges,
      range.1 ≤ n ∧ n ≤ range.2 := by
    decide +kernel
  intro c printable
  rw [Bool.eq_false_iff]
  intro breaks
  obtain ⟨range, member, low, high⟩ :=
    outside c.val (List.contains_iff_mem.mp breaks)
  rw [CodePoint.isPrintable, Bool.not_eq_true', List.any_eq_false] at printable
  exact printable range member
    (by rw [decide_eq_true low, decide_eq_true high]; rfl)

theorem exists_point_eq_quoteFor (text : Text) :
    ∃ quote : Quote, Text.quoteFor text = quote.point := by
  unfold Text.quoteFor
  split
  · exact ⟨.double, rfl⟩
  · exact ⟨.single, rfl⟩

theorem endsLine_of_not_isLineBreak {c : CodePoint}
    (unbroken : isLineBreak c = false) :
    endsLine c = false := by
  rw [endsLine, Bool.or_eq_false_iff, decide_eq_false_iff_not,
    decide_eq_false_iff_not]
  constructor
  · rintro rfl
    exact absurd unbroken (by decide)
  · rintro rfl
    exact absurd unbroken (by decide)

/-- A code point of a short literal that does not end it. -/
theorem shortStep_of_ne {quote : Quote} {c : CodePoint}
    (noQuote : c ≠ quote.point) (noBackslash : c ≠ '\\')
    (inLine : endsLine c = false) (brackets : List Bracket) :
    shortStep quote brackets c = some ⟨.short quote, brackets⟩ := by
  rw [shortStep, if_neg noQuote, if_neg noBackslash, inLine]
  rfl

theorem shortStep_of_isPlain {c : CodePoint} (plain : isPlain c = true)
    (quote : Quote) (brackets : List Bracket) :
    shortStep quote brackets c = some ⟨.short quote, brackets⟩ := by
  simp only [isPlain, Bool.and_eq_true, Bool.not_eq_true', decide_eq_true_eq]
    at plain
  obtain ⟨⟨⟨⟨⟨unbroken, noQuote⟩, -⟩, -⟩, -⟩, noBackslash⟩ := plain
  exact shortStep_of_ne (ne_point_of_isNone noQuote quote) noBackslash
    (endsLine_of_not_isLineBreak unbroken) brackets

theorem run_short_of_isPlain {quiet : Bool} {text : Text} (plain : IsPlain text)
    (quote : Quote) (brackets : List Bracket) :
    Place.run quiet ⟨⟨.short quote, brackets⟩, false⟩ text =
      some ⟨⟨.short quote, brackets⟩, false⟩ := by
  induction text with
  | nil => rfl
  | cons c text ih =>
      obtain ⟨own, later⟩ := List.forall_mem_cons.mp plain
      have stays : step ⟨.short quote, brackets⟩ c =
          some ⟨.short quote, brackets⟩ :=
        shortStep_of_isPlain own quote brackets
      rw [Place.run, Place.step_inside rfl, stays]
      exact ih later

/-- After the first quote of a literal, or further in. -/
def Mode.IsIn (quote : Quote) (mode : Mode) : Prop :=
  mode = .opened quote ∨ mode = .short quote

theorem Mode.IsIn.inside {quote : Quote} {mode : Mode}
    (isIn : mode.IsIn quote) :
    mode.isOutside = false := by
  rcases isIn with rfl | rfl
  · rfl
  · rfl

/-- In a literal, all but the quote is read alike. -/
theorem Mode.IsIn.step_eq {quote : Quote} {mode : Mode} (isIn : mode.IsIn quote)
    {c : CodePoint} (noQuote : c ≠ quote.point) (brackets : List Bracket) :
    step ⟨mode, brackets⟩ c = shortStep quote brackets c := by
  rcases isIn with rfl | rfl
  · exact if_neg noQuote
  · rfl

/-- An escape: a backslash, the mark of its kind and its digits. -/
theorem run_escape {quiet : Bool} {quote : Quote} {mode : Mode}
    (isIn : mode.IsIn quote) (mark : CodePoint) {digits : Text}
    (plain : IsPlain digits) (brackets : List Bracket) :
    Place.run quiet ⟨⟨mode, brackets⟩, false⟩
        (CodePoint.ofChar '\\' :: mark :: digits) =
      some ⟨⟨.short quote, brackets⟩, false⟩ := by
  have backslash : step ⟨mode, brackets⟩ '\\' =
      some ⟨.shortEscape quote, brackets⟩ := by
    rcases isIn with rfl | rfl <;> cases quote <;> rfl
  rw [Place.run, Place.step_inside isIn.inside, backslash]
  exact run_short_of_isPlain plain quote brackets

/-- A quoted code point stands for itself or is an escape. -/
theorem quotedPoint_cases (keeps : CodePoint → Bool) (quote : Quote)
    (c : CodePoint) :
    (Text.quotedPoint keeps quote.point c = [c] ∧ c ≠ quote.point ∧ c ≠ '\\' ∧
      endsLine c = false) ∨
    ∃ mark digits, Text.quotedPoint keeps quote.point c =
      CodePoint.ofChar '\\' :: mark :: digits ∧ IsPlain digits := by
  unfold Text.quotedPoint
  split
  · exact .inr ⟨c, [], rfl, .nil⟩
  rename_i ordinary
  split
  · exact .inr ⟨'t', [], rfl, .nil⟩
  split
  · exact .inr ⟨'n', [], rfl, .nil⟩
  rename_i noNewline
  split
  · exact .inr ⟨'r', [], rfl, .nil⟩
  rename_i noReturn
  split
  · refine .inl ⟨rfl, fun same => ordinary (.inl same), fun same =>
      ordinary (.inr same), ?_⟩
    rw [endsLine, decide_eq_false noNewline, decide_eq_false noReturn,
      Bool.or_self]
  · have digits (n width : Nat) : IsPlain (Text.hex n width) :=
      IsBare.plain (coversNumerals.hex n width)
    unfold Text.numericEscape
    split
    · exact .inr ⟨'x', _, rfl, digits _ _⟩
    split
    · exact .inr ⟨'u', _, rfl, digits _ _⟩
    · exact .inr ⟨'U', _, rfl, digits _ _⟩

theorem run_quotedPoint (quiet : Bool) (keeps : CodePoint → Bool)
    {quote : Quote} {mode : Mode} (isIn : mode.IsIn quote) (c : CodePoint)
    (brackets : List Bracket) :
    Place.run quiet ⟨⟨mode, brackets⟩, false⟩
        (Text.quotedPoint keeps quote.point c) =
      some ⟨⟨.short quote, brackets⟩, false⟩ := by
  rcases quotedPoint_cases keeps quote c with
    ⟨form, noQuote, noBackslash, inLine⟩ | ⟨mark, digits, form, plain⟩
  · have stays : step ⟨mode, brackets⟩ c = some ⟨.short quote, brackets⟩ :=
      (isIn.step_eq noQuote brackets).trans
        (shortStep_of_ne noQuote noBackslash inLine brackets)
    rw [form, Place.run, Place.step_inside isIn.inside, stays]
    rfl
  · rw [form]
    exact run_escape isIn mark plain brackets

theorem run_quotedPoints {quiet : Bool} (keeps : CodePoint → Bool)
    (quote : Quote) (text : Text) (brackets : List Bracket) :
    Place.run quiet ⟨⟨.short quote, brackets⟩, false⟩
        (text.flatMap (Text.quotedPoint keeps quote.point)) =
      some ⟨⟨.short quote, brackets⟩, false⟩ := by
  induction text with
  | nil => rfl
  | cons c text ih =>
      rw [List.flatMap_cons, Place.run_append,
        run_quotedPoint _ keeps (.inr rfl)]
      exact ih

/-- Quoted texts are literals, whatever they quote. -/
theorem neutral_quoted {quiet : Bool} (text : Text) :
    Neutral quiet (Text.quoted text) := by
  refine ⟨coversPrintable.quoted text, fun brackets => ?_⟩
  obtain ⟨quote, form⟩ := exists_point_eq_quoteFor text
  have opens : (Place.start brackets).step quiet quote.point =
      some ⟨⟨.opened quote, brackets⟩, false⟩ := by
    cases quote <;> rfl
  rw [Text.quoted, Text.quotedBy, form]
  rw [List.cons_append, List.nil_append, Place.run, opens, Option.bind_some]
  cases text with
  | nil =>
      have closes : step ⟨.opened quote, brackets⟩ quote.point =
          some ⟨.emptied quote, brackets⟩ :=
        if_pos rfl
      refine ⟨.emptied quote, rfl, ?_⟩
      rw [List.flatMap_nil, List.nil_append, Place.run, Place.step_inside rfl,
        closes]
      rfl
  | cons c text =>
      have closes : step ⟨.short quote, brackets⟩ quote.point =
          some ⟨.code, brackets⟩ :=
        if_pos rfl
      refine ⟨.code, rfl, ?_⟩
      rw [List.flatMap_cons, List.append_assoc, Place.run_append,
        run_quotedPoint _ _ (.inl rfl), Option.bind_some, Place.run_append,
        run_quotedPoints, Option.bind_some, Place.run, Place.step_inside rfl,
        closes]
      rfl

end TailLoop.Lexical
