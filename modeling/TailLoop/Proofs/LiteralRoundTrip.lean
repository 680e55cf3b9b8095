import TailLoop.Lowering.Leaf
import TailLoop.Proofs.LexicalScan

/-!
# Reading literals back

A literal between two equal quotes is read from left to right.  What stands in
it stands for itself, but for escapes: a backslash with a letter, with up to
three octal digits, or with two, four or eight hexadecimal ones.  A backslash
before any other code point stands for itself.  Every text is quoted so that
reading the literal gives the text again, and every integer is written so that
it is read as the same integer.
-/

namespace TailLoop

namespace Text

theorem digitValue?_digitChar :
    ∀ d < 16, (CodePoint.ofChar d.digitChar).digitValue? = some d := by
  decide

@[simp] theorem toNat_append (base : Nat) (digits : Text) (c : CodePoint) :
    toNat base (digits ++ [c]) = base * toNat base digits +
      c.digitValue?.getD 0 := by
  rw [toNat, List.foldl_append]
  rfl

/-- The digits of a number denote the number. -/
theorem toNat_toDigits {base : Nat} (large : 1 < base) (small : base ≤ 16)
    (n : Nat) :
    toNat base ((Nat.toDigits base n).map CodePoint.ofChar) = n := by
  induction n using Nat.strongRecOn with
  | ind n ih =>
      by_cases single : n < base
      · rw [Nat.toDigits_of_lt_base single]
        simp [toNat, digitValue?_digitChar n (by omega)]
      · have shorter : n / base < n := Nat.div_lt_self (by omega) large
        have last : n % base < 16 :=
          Nat.lt_of_lt_of_le (Nat.mod_lt n (by omega)) small
        rw [Nat.toDigits_of_base_le large (by omega), List.map_append,
          List.map_singleton, toNat_append, ih _ shorter,
          digitValue?_digitChar _ last, Option.getD_some, Nat.div_add_mod]

@[simp] theorem toNat_hex (width n : Nat) : toNat 16 (hex width n) = n := by
  have zeros (count : Nat) (digits : Text) :
      toNat 16 (List.replicate count (CodePoint.ofChar '0') ++ digits) =
        toNat 16 digits := by
    induction count with
    | zero => rfl
    | succ count ih => exact ih
  rw [hex, zeros, toNat_toDigits (by decide) (by decide)]

theorem length_hex {width n : Nat} (fits : n < Nat.pow 16 width)
    (some_digit : 0 < width) :
    (hex width n).length = width := by
  have short := (Nat.length_toDigits_le_iff (by decide) some_digit).mpr fits
  rw [hex, List.length_append, List.length_replicate, List.length_map]
  omega

theorem digitValue?_isSome_of_mem_hex {width n : Nat} {c : CodePoint}
    (member : c ∈ hex width n) : c.digitValue?.isSome = true := by
  rcases List.mem_append.mp member with zero | digit
  · rw [List.eq_of_mem_replicate zero]
    decide
  · obtain ⟨d, digitMember, rfl⟩ := List.mem_map.mp digit
    obtain ⟨value, small, rfl⟩ :=
      exists_digitChar_of_mem_toDigits (by decide) digitMember
    rw [digitValue?_digitChar value small, Option.isSome_some]

end Text

namespace Literal

open Lexical (Quote endsLine isLineBreak)

/-- Where a reader of a literal stands. -/
inductive State where
  | plain
  | backslash
  /-- A hexadecimal digit comes next, and so many after it. -/
  | hex (more value : Nat)
  /-- Up to so many octal digits may come. -/
  | octal (more value : Nat)
  | closed
deriving DecidableEq

/-- The code point that a letter or mark after a backslash stands for. -/
def simpleEscape? (c : CodePoint) : Option CodePoint :=
  if c = '\\' ∨ c = '\'' ∨ c = '"' then some c
  else if c = 'a' then some '\x07'
  else if c = 'b' then some '\x08'
  else if c = 't' then some '\t'
  else if c = 'n' then some '\n'
  else if c = 'v' then some '\x0b'
  else if c = 'f' then some '\x0c'
  else if c = 'r' then some '\r'
  else none

/-- The number of hexadecimal digits after the mark of an escape. -/
def hexDigits? (c : CodePoint) : Option Nat :=
  if c = 'x' then some 2 else if c = 'u' then some 4 else if c = 'U' then
    some 8 else none

def octalDigit? (c : CodePoint) : Option Nat :=
  c.digitValue?.filter (· < 8)

/-- Reads a code point: what it adds to the text that is denoted, and the state
after it. -/
def plainStep (quote : Quote) (c : CodePoint) : Option (Text × State) :=
  if c = quote.point then some ([], .closed)
  else if c = '\\' then some ([], .backslash)
  else if endsLine c then none
  else some ([c], .plain)

/-- Reads the code point after a backslash.  Escapes by the name of a character
are left out. -/
def escapeStep (c : CodePoint) : Option (Text × State) :=
  match simpleEscape? c, hexDigits? c, octalDigit? c with
  | some point, _, _ => some ([point], .plain)
  | none, some count, _ => some ([], .hex (count - 1) 0)
  | none, none, some value => some ([], .octal 2 value)
  | none, none, none =>
      if c = 'N' ∨ endsLine c then none else some (['\\', c], .plain)

/-- The code point of a number, read in full. -/
def numbered (value : Nat) : Option (Text × State) :=
  (CodePoint.ofNat? value).map fun point => ([point], .plain)

def hexStep (more value : Nat) (c : CodePoint) : Option (Text × State) :=
  c.digitValue?.bind fun digit =>
    match more with
    | 0 => numbered (16 * value + digit)
    | more + 1 => some ([], .hex more (16 * value + digit))

/-- A code point that is no octal digit ends the escape and is read as if it
were not there. -/
def octalStep (quote : Quote) (more value : Nat) (c : CodePoint) :
    Option (Text × State) :=
  match more, octalDigit? c with
  | more + 1, some digit => some ([], .octal more (8 * value + digit))
  | _, _ => (numbered value).bind fun point =>
      (plainStep quote c).map fun read => (point.1 ++ read.1, read.2)

def step (quote : Quote) : State → CodePoint → Option (Text × State)
  | .plain, c => plainStep quote c
  | .backslash, c => escapeStep c
  | .hex more value, c => hexStep more value c
  | .octal more value, c => octalStep quote more value c
  | .closed, _ => none

def run (quote : Quote) : State → Text → Option (Text × State)
  | state, [] => some ([], state)
  | state, c :: text => (step quote state c).bind fun read =>
      (run quote read.2 text).map fun rest => (read.1 ++ rest.1, rest.2)

/-- The text that a literal denotes.  It has to end with the quote it starts
with. -/
def decode? : Text → Option Text
  | [] => none
  | c :: body => (Quote.of? c).bind fun quote =>
      (run quote .plain body).bind fun read =>
        if read.2 = .closed then some read.1 else none

/-- The text is a literal in printable code points on one line, and denotes the
value. -/
structure Denotes (literal value : Text) : Prop where
  printable : ∀ c ∈ literal, c.isPrintable = true
  oneLine : ∀ c ∈ literal, isLineBreak c = false
  decoded : decode? literal = some value

variable {quote : Quote}

theorem run_append {state middle : State} {left right value : Text}
    (read : run quote state left = some (value, middle)) :
    run quote state (left ++ right) =
      (run quote middle right).map fun rest => (value ++ rest.1, rest.2) := by
  induction left generalizing state value with
  | nil =>
      cases read
      simp
  | cons c left ih =>
      obtain ⟨first, stepped, later⟩ := Option.bind_eq_some_iff.mp read
      obtain ⟨rest, restRead, same⟩ := Option.map_eq_some_iff.mp later
      cases same
      rw [List.cons_append, run, stepped, Option.bind_some, ih restRead,
        Option.map_map]
      simp [Function.comp_def]

theorem run_hex {digits : Text} {more value : Nat}
    (count : digits.length = more + 1)
    (row : ∀ c ∈ digits, c.digitValue?.isSome = true) :
    run quote (.hex more value) digits =
      numbered (digits.foldl (fun value c => 16 * value + c.digitValue?.getD 0)
        value) := by
  induction digits generalizing more value with
  | nil => cases count
  | cons c digits ih =>
      obtain ⟨first, later⟩ := List.forall_mem_cons.mp row
      obtain ⟨digit, read⟩ := Option.isSome_iff_exists.mp first
      rw [run, step, hexStep, read, Option.bind_some, List.foldl_cons, read,
        Option.getD_some]
      cases more with
      | zero =>
          rw [List.length_eq_zero_iff.mp (Nat.succ.inj count)]
          dsimp only [List.foldl_nil, run]
          cases numbered (16 * value + digit) <;> simp
      | succ more =>
          dsimp only
          rw [Option.bind_some, ih (Nat.succ.inj count) later]
          simp

@[simp] theorem step_backslash :
    step quote .plain '\\' = some ([], .backslash) := by
  cases quote <;> rfl

/-- A backslash and a mark that stands for a code point. -/
theorem run_simpleEscape {mark c : CodePoint}
    (marks : simpleEscape? mark = some c) :
    run quote .plain [CodePoint.ofChar '\\', mark] = some ([c], .plain) := by
  have escaped : step quote .backslash mark = some ([c], .plain) := by
    rw [step, escapeStep, marks]
  rw [run, step_backslash, Option.bind_some, run, escaped]
  rfl

/-- An escape by number is read as the code point of that number. -/
theorem run_hexEscape {mark c : CodePoint} {more : Nat}
    (noSimple : simpleEscape? mark = none)
    (marks : hexDigits? mark = some (more + 1))
    (fits : c.val < Nat.pow 16 (more + 1)) :
    run quote .plain (CodePoint.ofChar '\\' :: mark ::
      Text.hex (more + 1) c.val) =
      some ([c], .plain) := by
  have escaped : step quote .backslash mark = some ([], .hex more 0) := by
    rw [step, escapeStep, noSimple, marks]
    rfl
  have digits : run quote (.hex more 0) (Text.hex (more + 1) c.val) =
      some ([c], .plain) := by
    rw [run_hex (Text.length_hex fits (Nat.succ_pos more))
      (fun _ => Text.digitValue?_isSome_of_mem_hex)]
    have value : (Text.hex (more + 1) c.val).foldl
        (fun value c => 16 * value + c.digitValue?.getD 0) 0 = c.val :=
      Text.toNat_hex (more + 1) c.val
    rw [value, numbered, CodePoint.ofNat?, dif_pos c.valid]
    rfl
  rw [run, step_backslash, Option.bind_some, run, escaped, Option.bind_some,
    digits]
  rfl

/-- What stands between quotes for a code point is read as the code point. -/
@[simp] theorem run_quotedPoint (keeps : CodePoint → Bool) (quote : Quote)
    (c : CodePoint) :
    run quote .plain (Text.quotedPoint keeps quote.point c) =
      some ([c], .plain) := by
  unfold Text.quotedPoint
  split
  · rename_i escaped
    apply run_simpleEscape
    rcases escaped with rfl | rfl
    · cases quote <;> rfl
    · rfl
  rename_i ordinary
  split
  · subst c
    exact run_simpleEscape (by decide)
  split
  · subst c
    exact run_simpleEscape (by decide)
  rename_i noNewline
  split
  · subst c
    exact run_simpleEscape (by decide)
  rename_i noReturn
  split
  · obtain ⟨noQuote, noBackslash⟩ := not_or.mp ordinary
    have inLine : endsLine c = false := by
      rw [endsLine, decide_eq_false noNewline, decide_eq_false noReturn,
        Bool.or_self]
    have kept : step quote .plain c = some ([c], .plain) := by
      rw [step, plainStep, if_neg noQuote, if_neg noBackslash, inLine]
      rfl
    rw [run, kept]
    rfl
  · unfold Text.numericEscape
    split
    · exact run_hexEscape (by decide) (by decide) (by omega)
    split
    · exact run_hexEscape (by decide) (by decide) (by omega)
    · exact run_hexEscape (by decide) (by decide)
        (Nat.lt_trans c.valid (by decide))

@[simp] theorem run_quotedPoints (keeps : CodePoint → Bool) (quote : Quote)
    (text : Text) :
    run quote .plain (text.flatMap (Text.quotedPoint keeps quote.point)) =
      some (text, .plain) := by
  induction text with
  | nil => rfl
  | cons c text ih =>
      rw [List.flatMap_cons, run_append (run_quotedPoint keeps quote c), ih]
      rfl

@[simp] theorem decode?_quotedBy (keeps : CodePoint → Bool) (text : Text) :
    decode? (Text.quotedBy keeps text) = some text := by
  obtain ⟨quote, chosen⟩ := Lexical.exists_point_eq_quoteFor text
  have opens : Quote.of? quote.point = some quote := by
    cases quote <;> rfl
  have closes : run quote .plain [quote.point] = some ([], .closed) := by
    cases quote <;> rfl
  rw [Text.quotedBy, chosen, List.cons_append, decode?, opens, Option.bind_some,
    run_append (run_quotedPoints keeps quote text), closes]
  simp

example : decode? "'\\x41\\1012\\d\"'" = some "AA2\\d\"" := by
  decide

theorem denotes_quoted (text : Text) : Denotes (Text.quoted text) text where
  printable := CoversPrintable.quoted (fun _ printable => printable) text
  oneLine := Lexical.coversPrintable.quoted text
  decoded := decode?_quotedBy CodePoint.isPrintable text

/-- The number of a decimal literal, which has no zero in front. -/
def natural? (digits : Text) : Option Nat :=
  if digits ≠ [] ∧ digits.all CodePoint.isDigit ∧
      (digits.head? = some (CodePoint.ofChar '0') →
        digits = [CodePoint.ofChar '0']) then
    some (Text.toNat 10 digits)
  else none

/-- The integer of a decimal literal that may stand after a minus sign. -/
def integer? : Text → Option Int
  | [] => none
  | c :: digits =>
      if c = '-' then (natural? digits).map fun n => -n
      else (natural? (c :: digits)).map Int.ofNat

/-- Only zero starts with the digit zero. -/
theorem head?_toDigits {n : Nat} (zero : (Nat.toDigits 10 n).head? = some '0') :
    n = 0 := by
  induction n using Nat.strongRecOn with
  | ind n ih =>
      by_cases single : n < 10
      · rw [Nat.toDigits_of_lt_base single] at zero
        have alone : ∀ d < 10, [Nat.digitChar d].head? = some '0' → d = 0 := by
          decide
        exact alone n single zero
      · rw [Nat.toDigits_of_base_le (by decide) (by omega),
          List.head?_append_of_ne_nil _ Nat.toDigits_ne_nil] at zero
        have := ih (n / 10) (by omega) zero
        omega

@[simp] theorem natural?_ofNat (n : Nat) :
    natural? (Text.ofNat n) = some n := by
  rw [natural?, if_pos]
  · exact congrArg some (Text.toNat_toDigits (by decide) (by decide) n)
  · refine ⟨Text.ofNat_ne_nil n, ?_, ?_⟩
    · exact List.all_eq_true.mpr fun _ => Text.isDigit_of_mem_ofNat
    · intro zero
      rw [Text.ofNat, List.head?_map] at zero
      obtain ⟨first, head, same⟩ := Option.map_eq_some_iff.mp zero
      rw [CodePoint.ofChar_injective same] at head
      rw [head?_toDigits head]
      rfl

@[simp] theorem integer?_ofInt (n : Int) :
    integer? (Text.ofInt n) = some n := by
  cases n with
  | ofNat n =>
      have unsigned : ∀ c ∈ Text.ofNat n, c ≠ CodePoint.ofChar '-' := by
        intro c member minus
        have digit := Text.isDigit_of_mem_ofNat member
        rw [minus] at digit
        exact absurd digit (by decide)
      rw [Text.ofInt]
      cases row : Text.ofNat n with
      | nil => exact absurd row (Text.ofNat_ne_nil n)
      | cons c digits =>
          have digit : c ≠ CodePoint.ofChar '-' :=
            unsigned c (by rw [row]; exact List.mem_cons_self)
          rw [integer?, if_neg digit, ← row, natural?_ofNat]
          rfl
  | negSucc n =>
      rw [Text.ofInt, integer?, if_pos rfl, natural?_ofNat]
      rfl

end Literal

/-- Text constants, characters and messages are printed as literals that denote
them, and integer constants as the integers they are. -/
theorem literals_read_back (restart : Text) :
    (∀ value : Text,
      Literal.Denotes ((Const.string value).term.text restart) value) ∧
    (∀ value : CodePoint,
      Literal.Denotes ((Const.char value).term.text restart) [value]) ∧
    (∀ message : Text, ∃ literal, Literal.Denotes literal message ∧
      (Code.Term.raise message).text restart = "rts_error(" ++ literal ++ ")") ∧
    ∀ value : Int,
      Literal.integer? ((Const.int value).term.text restart) = some value ∧
      Literal.integer? ((Const.bigInt value).term.text restart) =
        some value := by
  refine ⟨Literal.denotes_quoted, fun value => Literal.denotes_quoted [value],
    ?_, ?_⟩
  · intro message
    exact ⟨Text.quoted message, Literal.denotes_quoted message, rfl⟩
  · intro value
    exact ⟨Literal.integer?_ofInt value, Literal.integer?_ofInt value⟩

end TailLoop
