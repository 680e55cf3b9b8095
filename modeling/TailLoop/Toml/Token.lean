import TailLoop.Json.Reader
import TailLoop.Toml.Basic

/-!
# The words of a TOML document

Blanks, comments, strings, keys and numbers.  Every reader returns what is left
of its text, which is shorter than the text.
-/

namespace TailLoop.Toml

/-- A value together with what is left of the text it was read from. -/
abbrev Reading (α : Type) (text : Text) := Except Fault (α × Text.Shorter text)

namespace Reading

variable {α β : Type} {inner outer : Text}

/-- A reading of the end of a text as a reading of the text. -/
def within (shorter : inner.length ≤ outer.length) :
    Reading α inner → Reading α outer
  | .ok (value, ⟨rest, less⟩) => .ok (value, ⟨rest, by omega⟩)
  | .error fault => .error fault

def map (f : α → β) : Reading α inner → Reading β inner
  | .ok (value, rest) => .ok (f value, rest)
  | .error fault => .error fault

end Reading

def isBlank (c : CodePoint) : Bool := c == ' ' || c == '\t'

def isBlankOrNewline (c : CodePoint) : Bool := isBlank c || c == '\n'

def skipBlanks (text : Text) : Text := text.dropWhile isBlank

theorem length_skipBlanks_le (text : Text) :
    (skipBlanks text).length ≤ text.length :=
  Text.length_dropWhile_le isBlank text

/-- What follows the first code point after blanks is shorter than the text. -/
theorem length_lt_of_skipBlanks {text rest : Text} {c : CodePoint}
    (blank : skipBlanks text = c :: rest) : rest.length < text.length := by
  have shorter := length_skipBlanks_le text
  rw [blank] at shorter
  exact shorter

/-- Control characters, of which only the tab may stand in strings and
comments. -/
def isControl (c : CodePoint) : Bool :=
  c != '\t' && (decide (c.val < 0x20) || decide (c.val = 0x7F))

/-- What is left from the newline that ends a comment. -/
def skipComment :
    (text : Text) → Except Fault { rest : Text // rest.length ≤ text.length }
  | [] => .ok ⟨[], by simp⟩
  | c :: text =>
      if c = '\n' then .ok ⟨c :: text, by simp⟩
      else if isControl c then .error .malformed
      else (skipComment text).map fun rest =>
        ⟨rest.1, by have := rest.2; simp only [List.length_cons]; omega⟩

/-- Skips blanks, newlines and comments.  `comment` tells that the text starts
inside of one. -/
def skipFiller (comment : Bool) :
    (text : Text) → Except Fault { rest : Text // rest.length ≤ text.length }
  | [] => .ok ⟨[], by simp⟩
  | c :: text =>
      if comment && isControl c && c != '\n' then .error .malformed
      else if comment || isBlankOrNewline c || c = '#' then
        let inside := c != '\n' && (comment || c == '#')
        (skipFiller inside text).map fun rest =>
          ⟨rest.1, by have := rest.2; simp only [List.length_cons]; omega⟩
      else .ok ⟨c :: text, by simp⟩

def apostrophe : CodePoint := '\x27'

def quotation : CodePoint := '\x22'

/-- The code point that a one-letter escape stands for. -/
def simpleEscape? (c : CodePoint) : Option CodePoint :=
  if c = quotation ∨ c = '\\' then some c
  else if c = 'b' then some '\x08'
  else if c = 't' then some '\t'
  else if c = 'n' then some '\n'
  else if c = 'f' then some '\x0c'
  else if c = 'r' then some '\r'
  else none

theorem length_drop_lt {count : Nat} {text : Text}
    (some_digit : 0 < count) (full : (text.take count).length = count) :
    (text.drop count).length < text.length := by
  rw [List.length_take] at full
  rw [List.length_drop]
  omega

/-- Reads a code point by its number of so many hexadecimal digits.  Surrogates
have none. -/
def readPoint (count : Nat) (text : Text) (some_digit : 0 < count) :
    Reading CodePoint text :=
  let digits := text.take count
  if full : digits.length = count then
    if digits.all fun c => c.digitValue?.isSome then
      match CodePoint.ofNat? (Text.toNat 16 digits) with
      | some point =>
          if point.isHighSurrogate || point.isLowSurrogate then
            .error .malformed
          else .ok (point, ⟨text.drop count, length_drop_lt some_digit full⟩)
      | none => .error .malformed
    else .error .malformed
  else .error .malformed

/-- Reads what follows a backslash. -/
def readEscape : (text : Text) → Reading CodePoint text
  | [] => .error .malformed
  | e :: rest =>
      if e = 'u' then (readPoint 4 rest (by decide)).within (by simp)
      else if e = 'U' then (readPoint 8 rest (by decide)).within (by simp)
      else
        match simpleEscape? e with
        | some point => .ok (point, ⟨rest, by simp⟩)
        | none => .error .malformed

/-- Reads a literal string on one line up to its closing apostrophe. -/
def readLiteral : (text : Text) → Reading Text text
  | [] => .error .malformed
  | c :: rest =>
      if c = apostrophe then .ok ([], ⟨rest, by simp⟩)
      else if isControl c then .error .malformed
      else ((readLiteral rest).map (c :: ·)).within (by simp)

/-- Reads a basic string on one line up to its closing quotation mark. -/
def readBasic (text : Text) : Reading Text text :=
  match text with
  | [] => .error .malformed
  | c :: rest =>
      if c = quotation then .ok ([], ⟨rest, by simp⟩)
      else if c = '\\' then
        match readEscape rest with
        | .error fault => .error fault
        | .ok (point, ⟨after, shorter⟩) =>
            ((readBasic after).map (point :: ·)).within
              (by simp only [List.length_cons]; omega)
      else if isControl c then .error .malformed
      else ((readBasic rest).map (c :: ·)).within (by simp)
termination_by text.length

/-- Three marks close a string of several lines; up to two more before them
belong to it. -/
def closing (mark : CodePoint) (text : Text) : Text × Text :=
  let extra := min 2 (text.takeWhile (· = mark)).length
  (List.replicate extra mark, text.drop extra)

theorem length_closing_le (mark : CodePoint) (text : Text) :
    (closing mark text).2.length ≤ text.length := by
  simp [closing]

/-- Whether three marks stand here. -/
def isTriple (mark : CodePoint) (text : Text) : Bool :=
  [mark, mark, mark].isPrefixOf text

/-- Ends a string of several lines at its three closing marks. -/
def close (mark : CodePoint) (text : Text) (some_left : 0 < text.length) :
    Reading Text text :=
  let ending := closing mark (text.drop 3)
  .ok (ending.1, ⟨ending.2, by
    have := length_closing_le mark (text.drop 3)
    simp only [ending, List.length_drop] at *
    omega⟩)

/-- Reads a literal string of several lines up to its closing marks. -/
def readLongLiteral : (text : Text) → Reading Text text
  | [] => .error .malformed
  | c :: rest =>
      if isTriple apostrophe (c :: rest) then
        close apostrophe (c :: rest) (by simp)
      else if isControl c && c != '\n' then .error .malformed
      else ((readLongLiteral rest).map (c :: ·)).within (by simp)

/-- After a backslash at the end of a line: skips to the next visible code
point. -/
def skipLineEnd (text : Text) :
    Except Fault { rest : Text // rest.length ≤ text.length } :=
  match blank : skipBlanks text with
  | [] => .error .malformed
  | c :: rest =>
      if c = '\n' then
        .ok ⟨rest.dropWhile isBlankOrNewline,
          Nat.le_trans (Text.length_dropWhile_le isBlankOrNewline rest)
            (Nat.le_of_lt (length_lt_of_skipBlanks blank))⟩
      else .error .malformed

/-- Reads a basic string of several lines up to its closing marks. -/
def readLongBasic (text : Text) : Reading Text text :=
  match text with
  | [] => .error .malformed
  | c :: rest =>
      if isTriple quotation (c :: rest) then
        close quotation (c :: rest) (by simp)
      else if c = '\\' then
        if rest.head?.any isBlankOrNewline then
          match skipLineEnd rest with
          | .error fault => .error fault
          | .ok ⟨after, shorter⟩ =>
              (readLongBasic after).within
                (by simp only [List.length_cons]; omega)
        else
          match readEscape rest with
          | .error fault => .error fault
          | .ok (point, ⟨after, shorter⟩) =>
              ((readLongBasic after).map (point :: ·)).within
                (by simp only [List.length_cons]; omega)
      else if isControl c && c != '\n' then .error .malformed
      else ((readLongBasic rest).map (c :: ·)).within (by simp)
termination_by text.length

/-- A newline right after the opening marks does not belong to the string. -/
def skipNewline (text : Text) : Text :=
  if text.head? = some (CodePoint.ofChar '\n') then text.tail else text

theorem length_skipNewline_le (text : Text) :
    (skipNewline text).length ≤ text.length := by
  unfold skipNewline
  split <;> simp

/-- Reads the string whose opening mark stands before the text. -/
def readString (mark : CodePoint) (text : Text) : Reading Text text :=
  if isTriple mark (mark :: text) then
    let inside := skipNewline (text.drop 2)
    have shorter : inside.length ≤ text.length := by
      have := length_skipNewline_le (text.drop 2)
      simp only [inside, List.length_drop] at *
      omega
    if mark = quotation then (readLongBasic inside).within shorter
    else (readLongLiteral inside).within shorter
  else if mark = quotation then readBasic text
  else readLiteral text

/-- Letters, digits, hyphens and underscores need no quotes in a key. -/
def isBare (c : CodePoint) : Bool := c.isLetter || c.isDigit || c ==
    '-' || c == '_'

def readKeyPart : (text : Text) → Reading Text text
  | [] => .error .malformed
  | c :: rest =>
      if isBare c then
        .ok (c :: rest.takeWhile isBare, ⟨rest.dropWhile isBare, by
          have := Text.length_dropWhile_le isBare rest
          simp only [List.length_cons]
          omega⟩)
      else if c = apostrophe then (readLiteral rest).within (by simp)
      else if c = quotation then (readBasic rest).within (by simp)
      else .error .malformed

/-- Reads a key and the blanks after it. -/
def readKey (text : Text) : Reading Key text :=
  match readKeyPart text with
  | .error fault => .error fault
  | .ok (part, ⟨rest, shorter⟩) =>
      have blanks := length_skipBlanks_le rest
      match dot : skipBlanks rest with
      | [] => .ok (⟨[], part⟩, ⟨[], by simp only [dot] at blanks; omega⟩)
      | c :: after =>
          have shorter' := length_lt_of_skipBlanks dot
          if c = '.' then
            have blanks' := length_skipBlanks_le after
            ((readKey (skipBlanks after)).map (Key.under part)).within
            (by omega)
          else
            .ok (⟨[], part⟩, ⟨c :: after, by
              simp only [dot, List.length_cons] at blanks ⊢
              omega⟩)
termination_by text.length

/-- Digits and the single underscores between them. -/
def moreDigits (isDigit : CodePoint → Bool) : Text → Text × Text
  | [] => ([], [])
  | c :: rest =>
      if isDigit c then
        let more := moreDigits isDigit rest
        (c :: more.1, more.2)
      else if c = '_' && rest.head?.any isDigit then moreDigits isDigit rest
      else ([], c :: rest)

/-- The digits at the start of a text, where single underscores may stand
between two. -/
def digits (isDigit : CodePoint → Bool) (text : Text) : Text × Text :=
  if text.head?.any isDigit then moreDigits isDigit text else ([], text)

theorem length_moreDigits_le (isDigit : CodePoint → Bool) (text : Text) :
    (moreDigits isDigit text).2.length + (moreDigits isDigit text).1.length ≤
      text.length := by
  induction text with
  | nil => simp [moreDigits]
  | cons c rest ih =>
      simp only [moreDigits]
      split
      · simp only [List.length_cons]
        omega
      · split
        · simp only [List.length_cons]
          omega
        · simp

theorem length_digits_le (isDigit : CodePoint → Bool) (text : Text) :
    (digits isDigit text).2.length + (digits isDigit text).1.length ≤
      text.length := by
  unfold digits
  split
  · exact length_moreDigits_le isDigit text
  · simp

/-- The base that a letter after a zero announces. -/
def base? (c : CodePoint) : Option Nat :=
  if c = 'x' then some 16
  else if c = 'o' then some 8
  else if c = 'b' then some 2
  else none

def isDigitOf (base : Nat) (c : CodePoint) : Bool :=
  c.digitValue?.any (· < base)

/-- Reads an integer in base two, eight or sixteen.  These are converted at any
length. -/
def readBased? : (text : Text) → Option (Json × Text.Shorter text)
  | zero :: letter :: rest =>
      if zero = '0' then
        match base? letter with
        | none => none
        | some base =>
            let row := digits (isDigitOf base) rest
            if row.1.isEmpty then none
            else
              some (.int (Text.toNat base row.1), ⟨row.2, by
                have := length_digits_le (isDigitOf base) rest
                simp only [row, List.length_cons] at *
                omega⟩)
      else none
  | _ => none

def readSign : Text → Bool × Text
  | c :: rest =>
      if c = '-' then (true, rest)
      else if c = '+' then (false, rest)
      else (false, c :: rest)
  | [] => (false, [])

/-- A single zero, or digits that start with another one. -/
def readWhole (text : Text) : Text × Text :=
  if text.head? = some (CodePoint.ofChar '0') then (text.take 1, text.tail)
  else digits CodePoint.isDigit text

/-- The digits after a decimal point, which is not read without them. -/
def readFraction (text : Text) : Option Text × Text :=
  if text.head? = some (CodePoint.ofChar '.') then
    let row := digits CodePoint.isDigit text.tail
    if row.1.isEmpty then (none, text) else (some row.1, row.2)
  else (none, text)

def isExponentMark (c : CodePoint) : Bool := c == 'e' || c == 'E'

/-- The sign and the digits of an exponent, whose mark is not read without
them. -/
def readExponent (text : Text) : Option (Bool × Text) × Text :=
  if text.head?.any isExponentMark then
    let sign := readSign text.tail
    let row := digits CodePoint.isDigit sign.2
    if row.1.isEmpty then (none, text) else (some (sign.1, row.1), row.2)
  else (none, text)

theorem length_readSign_le (text : Text) :
    (readSign text).2.length ≤ text.length := by
  unfold readSign
  split
  · split
    · simp
    · split <;> simp
  · simp

theorem length_readWhole_le (text : Text) :
    (readWhole text).2.length + (readWhole text).1.length ≤ text.length := by
  unfold readWhole
  split
  · cases text <;> simp
  · exact length_digits_le CodePoint.isDigit text

theorem length_readFraction_le (text : Text) :
    (readFraction text).2.length ≤ text.length := by
  have row := length_digits_le CodePoint.isDigit text.tail
  simp only [List.length_tail] at row
  simp only [readFraction]
  split
  · split
    · simp
    · simp only
      omega
  · simp

theorem length_readExponent_le (text : Text) :
    (readExponent text).2.length ≤ text.length := by
  have sign := length_readSign_le text.tail
  have row := length_digits_le CodePoint.isDigit (readSign text.tail).2
  simp only [List.length_tail] at sign
  simp only [readExponent]
  split
  · split
    · simp
    · simp only
      omega
  · simp

/-- Reads a decimal number. -/
def readDecimal? (text : Text) : Option (Json.Numeral × Text.Shorter text) :=
  let sign := readSign text
  let whole := readWhole sign.2
  let fraction := readFraction whole.2
  let exponent := readExponent fraction.2
  if row : whole.1.length = 0 then none
  else
    some (⟨sign.1, whole.1, fraction.1, exponent.1⟩, ⟨exponent.2, by
      have := length_readSign_le text
      have := length_readWhole_le sign.2
      have := length_readFraction_le whole.2
      have := length_readExponent_le fraction.2
      simp only [exponent, fraction, whole, sign] at *
      omega⟩)

/-- The values that are written as words. -/
def words : List (Text × Json) :=
  [("true", .bool true), ("false", .bool false),
    ("inf", .float (.infinite false)), ("+inf", .float (.infinite false)),
    ("-inf", .float (.infinite true)), ("nan", .float .nan),
    ("+nan", .float .nan), ("-nan", .float .nan)]

def readWord? (text : Text) : Option (Json × Text.Shorter text) :=
  words.findSome? fun (word, value) =>
    match read : Text.after? word text with
    | none => none
    | some rest =>
        if letters : 0 < word.length then
          some (value, ⟨rest, by have := Text.length_after? read; omega⟩)
        else none

end TailLoop.Toml
