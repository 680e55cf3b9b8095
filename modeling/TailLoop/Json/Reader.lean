import TailLoop.Json.Basic

/-!
# Reading JSON

A document is one value between blanks.  Reading stops at the first fault, which
is located by the number of code points left from it to the end.
-/

namespace TailLoop.Json

/-- Why a text is not a document. -/
inductive Malformed where
  | byteOrderMark
  | expectedValue
  | expectedName
  | expectedColon
  | expectedComma
  | extraData
  | unterminatedString
  | controlCharacter
  | badEscape
  | badUnicodeEscape
deriving DecidableEq

def Malformed.message : Malformed → Text
  | .byteOrderMark => "Unexpected UTF-8 BOM (decode using utf-8-sig)"
  | .expectedValue => "Expecting value"
  | .expectedName => "Expecting property name enclosed in double quotes"
  | .expectedColon => "Expecting ':' delimiter"
  | .expectedComma => "Expecting ',' delimiter"
  | .extraData => "Extra data"
  | .unterminatedString => "Unterminated string starting at"
  | .controlCharacter => "Invalid control character at"
  | .badEscape => "Invalid \\escape"
  | .badUnicodeEscape => "Invalid \\uXXXX escape"

/-- A text that cannot be read: it is malformed at a position, or holds an
integer with more digits than are converted. -/
inductive ReadFault where
  | malformed (cause : Malformed) (position : Nat)
  | digitLimit (count : Nat)
deriving DecidableEq

/-- Integers of more decimal digits than this are not converted. -/
def digitLimit : Nat := 4300

/-- A fault while reading, with the number of code points left where it lies. -/
inductive Stop where
  | malformed (cause : Malformed) (left : Nat)
  | digitLimit (count : Nat)

def isBlank (c : CodePoint) : Bool :=
  c == ' ' || c == '\t' || c == '\n' || c == '\r'

def skipBlanks (text : Text) : Text :=
  text.dropWhile isBlank

theorem length_skipBlanks_le (text : Text) :
    (skipBlanks text).length ≤ text.length :=
  Text.length_dropWhile_le isBlank text

/-- The code point a one-letter escape stands for. -/
def simpleEscape? (c : CodePoint) : Option CodePoint :=
  if c = '"' ∨ c = '\\' ∨ c = '/' then some c
  else if c = 'b' then some '\x08'
  else if c = 'f' then some '\x0c'
  else if c = 'n' then some '\n'
  else if c = 'r' then some '\r'
  else if c = 't' then some '\t'
  else none

/-- The value of four hexadecimal digits that something follows. -/
def fourDigits? : Text → Option (Nat × Text)
  | a :: b :: c :: d :: rest =>
      if rest.isEmpty then none
      else do
        let a ← a.digitValue?
        let b ← b.digitValue?
        let c ← c.digitValue?
        let d ← d.digitValue?
        some (((a * 16 + b) * 16 + c) * 16 + d, rest)
  | _ => none

theorem length_fourDigits? {text rest : Text} {value : Nat}
    (read : fourDigits? text = some (value, rest)) :
    rest.length < text.length := by
  unfold fourDigits? at read
  split at read
  · split at read
    · simp at read
    · simp only [Option.bind_eq_bind, Option.bind_eq_some_iff,
        Option.some.injEq, Prod.mk.injEq] at read
      obtain ⟨_, _, _, _, _, _, _, _, _, rfl⟩ := read
      simp only [List.length_cons]
      omega
  · simp at read

/-- The code point of a value of four hexadecimal digits. -/
def escapedPoint (value : Nat) : CodePoint :=
  ⟨value % 0x10000, by omega⟩

/-- The low surrogate whose escape comes next. -/
def lowSurrogate? : Text → Option (CodePoint × Text)
  | backslash :: u :: rest =>
      if backslash = '\\' ∧ u = 'u' then
        match fourDigits? rest with
        | some (value, rest) =>
            if (escapedPoint value).isLowSurrogate then
              some (escapedPoint value, rest)
            else none
        | none => none
      else none
  | _ => none

theorem length_lowSurrogate? {text rest : Text} {low : CodePoint}
    (read : lowSurrogate? text = some (low, rest)) :
    rest.length < text.length := by
  unfold lowSurrogate? at read
  split at read
  · split at read
    · split at read
      · rename_i four
        split at read
        · have shorter := length_fourDigits? four
          simp only [Option.some.injEq, Prod.mk.injEq] at read
          obtain ⟨_, rfl⟩ := read
          simp only [List.length_cons]
          omega
        · simp at read
      · simp at read
    · simp at read
  · simp at read

/-- The code point above the first plane that a pair of surrogates stands
for. -/
def joinSurrogates (high low : CodePoint) : CodePoint :=
  ⟨0x10000 + (high.val % 0x400) * 0x400 + low.val % 0x400, by omega⟩

/-- Reads what follows a backslash.  `opening` counts what is left from the
opening quote. -/
def readEscape (opening : Nat) : Text → Except Stop (CodePoint × Text)
  | [] => .error (.malformed .unterminatedString opening)
  | e :: rest =>
      if e = 'u' then
        match fourDigits? rest with
        | none => .error (.malformed .badUnicodeEscape (rest.length + 1))
        | some (value, rest) =>
            let point := escapedPoint value
            if point.isHighSurrogate then
              match lowSurrogate? rest with
              | some (low, rest) => .ok (joinSurrogates point low, rest)
              | none => .ok (point, rest)
            else .ok (point, rest)
      else
        match simpleEscape? e with
        | some point => .ok (point, rest)
        | none => .error (.malformed .badEscape (rest.length + 2))

theorem length_readEscape {opening : Nat} {text rest : Text} {point : CodePoint}
    (read : readEscape opening text = .ok (point, rest)) :
    rest.length < text.length := by
  unfold readEscape at read
  split at read
  · simp at read
  · split at read
    · split at read
      · simp at read
      · rename_i four
        have first := length_fourDigits? four
        simp only at read
        split at read
        · split at read
          · rename_i low
            have second := length_lowSurrogate? low
            cases read
            simp only [List.length_cons]
            omega
          · cases read
            simp only [List.length_cons]
            omega
        · cases read
          simp only [List.length_cons]
          omega
    · split at read
      · cases read
        simp
      · simp at read

/-- Reads the rest of a string up to its closing quote; `done` holds the code
points so far in reverse. -/
def readString (opening : Nat) (done : Text) (text : Text) :
    Except Stop (Text × Text) :=
  match text with
  | [] => .error (.malformed .unterminatedString opening)
  | c :: rest =>
      if c = '"' then .ok (done.reverse, rest)
      else if c.val < 0x20 then
        .error (.malformed .controlCharacter (rest.length + 1))
      else if c = '\\' then
        match escape : readEscape opening rest with
        | .error stop => .error stop
        | .ok (point, after) =>
            have := length_readEscape escape
            readString opening (point :: done) after
      else readString opening (c :: done) rest
termination_by text.length

theorem length_readString {opening : Nat} {done text value rest : Text}
    (read : readString opening done text = .ok (value, rest)) :
    rest.length < text.length := by
  fun_induction readString opening done text with
  | case1 => simp at read
  | case2 => cases read; simp
  | case3 => simp at read
  | case4 => simp at read
  | case5 done rest _ _ point after escape shorter ih =>
      have := ih read
      simp only [List.length_cons]
      omega
  | case6 done c rest _ _ _ ih =>
      have := ih read
      simp only [List.length_cons]
      omega

/-- A number as it is written. -/
structure Numeral where
  negative : Bool
  whole : Text
  fraction : Option Text
  exponent : Option (Bool × Text)

/-- Digits up to the first code point that is none; at least one. -/
def digits? (text : Text) : Option (Text × Text) :=
  let digits := text.takeWhile CodePoint.isDigit
  if digits.isEmpty then none else
    some (digits, text.dropWhile CodePoint.isDigit)

def readSign : Text → Bool × Text
  | c :: rest => if c = '-' then (true, rest) else (false, c :: rest)
  | [] => (false, [])

/-- A single zero, or digits that start with another one. -/
def readWhole? : Text → Option (Text × Text)
  | c :: rest =>
      if c = '0' then some ([c], rest) else digits? (c :: rest)
  | [] => none

def readFraction : Text → Option Text × Text
  | c :: rest =>
      if c = '.' then
        match digits? rest with
        | some (digits, rest) => (some digits, rest)
        | none => (none, c :: rest)
      else (none, c :: rest)
  | [] => (none, [])

/-- The sign of an exponent, which may also be a plus. -/
def readExponentSign : Text → Bool × Text
  | c :: rest =>
      if c = '-' then (true, rest)
      else if c = '+' then (false, rest)
      else (false, c :: rest)
  | [] => (false, [])

def readExponent : Text → Option (Bool × Text) × Text
  | c :: rest =>
      if c = 'e' ∨ c = 'E' then
        let (negative, signed) := readExponentSign rest
        match digits? signed with
        | some (digits, rest) => (some (negative, digits), rest)
        | none => (none, c :: rest)
      else (none, c :: rest)
  | [] => (none, [])

def readNumeral? (text : Text) : Option (Numeral × Text) :=
  let (negative, rest) := readSign text
  match readWhole? rest with
  | none => none
  | some (whole, rest) =>
      let (fraction, rest) := readFraction rest
      let (exponent, rest) := readExponent rest
      some (⟨negative, whole, fraction, exponent⟩, rest)

theorem length_digits? {text digits rest : Text}
    (read : digits? text = some (digits, rest)) :
    rest.length < text.length := by
  unfold digits? at read
  simp only at read
  split at read
  · simp at read
  · rename_i some_digit
    simp only [Option.some.injEq, Prod.mk.injEq] at read
    obtain ⟨_, rfl⟩ := read
    cases text with
    | nil => simp at some_digit
    | cons c text =>
        by_cases digit : c.isDigit = true
        · have := Text.length_dropWhile_le CodePoint.isDigit text
          simp only [List.dropWhile_cons, digit, if_true, List.length_cons]
          omega
        · simp [digit] at some_digit

theorem length_readSign (text : Text) :
    (readSign text).2.length ≤ text.length := by
  unfold readSign
  split
  · split <;> simp
  · simp

theorem length_readWhole? {text whole rest : Text}
    (read : readWhole? text = some (whole, rest)) :
    rest.length < text.length := by
  unfold readWhole? at read
  split at read
  · split at read
    · cases read
      simp
    · exact length_digits? read
  · simp at read

theorem length_readFraction (text : Text) :
    (readFraction text).2.length ≤ text.length := by
  unfold readFraction
  split
  · split
    · split
      · rename_i digits
        have := length_digits? digits
        simp only [List.length_cons]
        omega
      · simp
    · simp
  · simp

theorem length_readExponentSign (text : Text) :
    (readExponentSign text).2.length ≤ text.length := by
  unfold readExponentSign
  split
  · split
    · simp
    · split <;> simp
  · simp

theorem length_readExponent (text : Text) :
    (readExponent text).2.length ≤ text.length := by
  unfold readExponent
  split
  · rename_i c rest
    have signed := length_readExponentSign rest
    split
    · simp only
      split
      · rename_i digits
        have := length_digits? digits
        simp only [List.length_cons]
        omega
      · simp
    · simp
  · simp

theorem length_readNumeral? {text rest : Text} {numeral : Numeral}
    (read : readNumeral? text = some (numeral, rest)) :
    rest.length < text.length := by
  unfold readNumeral? at read
  simp only at read
  split at read
  · simp at read
  · rename_i whole
    simp only [Option.some.injEq, Prod.mk.injEq] at read
    obtain ⟨_, rfl⟩ := read
    have sign := length_readSign text
    have := length_readWhole? whole
    have fraction := length_readFraction
    have exponent := length_readExponent
    exact Nat.lt_of_le_of_lt (Nat.le_trans (exponent _) (fraction _)) (by omega)

/-- A number with a fraction or an exponent is a binary64 number, any other an
integer. -/
def Numeral.value (numeral : Numeral) : Except Stop Json :=
  match numeral.fraction, numeral.exponent with
  | none, none =>
      if digitLimit < numeral.whole.length then
        .error (.digitLimit numeral.whole.length)
      else
        let magnitude : Int := Text.toNat 10 numeral.whole
        .ok (.int (if numeral.negative then -magnitude else magnitude))
  | fraction, exponent =>
      let places := fraction.getD []
      let power : Int :=
        match exponent with
        | some (negative, digits) =>
            let magnitude : Int := Text.toNat 10 digits
            if negative then -magnitude else magnitude
        | none => 0
      .ok
        (.float
          (.ofDecimal numeral.negative (Text.toNat 10 (numeral.whole ++ places))
        (power - places.length)))

/-- The values that are written as words. -/
def words : List (Text × Json) :=
  [("null", .null), ("true", .bool true), ("false", .bool false),
    ("NaN", .float .nan), ("Infinity", .float (.infinite false)),
    ("-Infinity", .float (.infinite true))]

def readWord? (text : Text) : Option (Json × Text) :=
  words.findSome? fun (word, value) => (Text.after? word text).map fun rest =>
    (value, rest)

theorem length_readWord? {text rest : Text} {value : Json}
    (read : readWord? text = some (value, rest)) :
    rest.length < text.length := by
  obtain ⟨⟨word, _⟩, member, found⟩ := List.exists_of_findSome?_eq_some read
  simp only [Option.map_eq_some_iff, Prod.mk.injEq] at found
  obtain ⟨_, found, _, rfl⟩ := found
  have long : 0 < word.length := by
    simp only [words, List.mem_cons, Prod.mk.injEq, List.not_mem_nil, or_false]
      at member
    rcases member with ⟨rfl, _⟩ | ⟨rfl, _⟩ | ⟨rfl, _⟩ | ⟨rfl, _⟩ | ⟨rfl,
      _⟩ | ⟨rfl, _⟩ <;>
      simp [Text.ofString]
  have := Text.length_after? found
  omega

mutual

/-- Reads a value that starts right here. -/
def readValue (text : Text) : Except Stop (Json × Text.Shorter text) :=
  match text with
  | [] => .error (.malformed .expectedValue 0)
  | c :: rest =>
      if c = '"' then
        match string : readString (rest.length + 1) [] rest with
        | .error stop => .error stop
        | .ok (value, after) =>
            .ok (.str value, ⟨after, by
              have := length_readString string
              simp only [List.length_cons]
              omega⟩)
      else if c = '[' then
        match blank : skipBlanks rest with
        | [] => .error (.malformed .expectedValue 0)
        | d :: after =>
            have shorter : after.length < rest.length := by
              have := length_skipBlanks_le rest
              simp only [blank, List.length_cons] at this
              omega
            if d = ']' then
              .ok (.arr [], ⟨after, by simp only [List.length_cons]; omega⟩)
            else
              match readItems (d :: after) with
              | .error stop => .error stop
              | .ok (items, ⟨after, shorter'⟩) =>
                  .ok (.arr items,
                    ⟨after, by simp only [List.length_cons] at *; omega⟩)
      else if c = '\x7b' then
        match blank : skipBlanks rest with
        | [] => .error (.malformed .expectedName 0)
        | d :: after =>
            have shorter : after.length < rest.length := by
              have := length_skipBlanks_le rest
              simp only [blank, List.length_cons] at this
              omega
            if d = '\x7d' then
              .ok (.obj [], ⟨after, by simp only [List.length_cons]; omega⟩)
            else
              match readMembers [] (d :: after) with
              | .error stop => .error stop
              | .ok (members, ⟨after, shorter'⟩) =>
                  .ok (.obj members,
                    ⟨after, by simp only [List.length_cons] at *; omega⟩)
      else
        match word : readWord? (c :: rest) with
        | some (value, after) => .ok (value, ⟨after, length_readWord? word⟩)
        | none =>
            match number : readNumeral? (c :: rest) with
            | some (numeral, after) =>
                match numeral.value with
                | .error stop => .error stop
                | .ok value => .ok (value, ⟨after, length_readNumeral? number⟩)
            | none => .error (.malformed .expectedValue (rest.length + 1))
termination_by (text.length, 0)
decreasing_by all_goals (simp_wf; omega)

/-- Reads the items of an array and its closing bracket. -/
def readItems (text : Text) : Except Stop (List Json × Text.Shorter text) :=
  match readValue text with
  | .error stop => .error stop
  | .ok (item, ⟨rest, shorter⟩) =>
      match blank : skipBlanks rest with
      | [] => .error (.malformed .expectedComma 0)
      | c :: after =>
          have shorter' : after.length < rest.length := by
            have := length_skipBlanks_le rest
            simp only [blank, List.length_cons] at this
            omega
          if c = ']' then .ok ([item], ⟨after, by omega⟩)
          else if c = ',' then
            have blanks := length_skipBlanks_le after
            match readItems (skipBlanks after) with
            | .error stop => .error stop
            | .ok (items, ⟨after, _⟩) => .ok (item :: items, ⟨after, by omega⟩)
          else .error (.malformed .expectedComma (after.length + 1))
termination_by (text.length, 1)
decreasing_by all_goals omega

/-- Reads the members of an object and its closing brace, after the members so
far. -/
def readMembers (done : List (Text × Json)) (text : Text) :
    Except Stop (List (Text × Json) × Text.Shorter text) :=
  match text with
  | [] => .error (.malformed .expectedName 0)
  | quote :: inside =>
      if quote ≠ '"' then .error (.malformed .expectedName (inside.length + 1))
      else
        match string : readString (inside.length + 1) [] inside with
        | .error stop => .error stop
        | .ok (name, rest) =>
            have named := length_readString string
            match colon : skipBlanks rest with
            | [] => .error (.malformed .expectedColon 0)
            | c :: rest' =>
                have shorter : rest'.length < rest.length := by
                  have := length_skipBlanks_le rest
                  simp only [colon, List.length_cons] at this
                  omega
                if c ≠ ':' then
                  .error (.malformed .expectedColon (rest'.length + 1))
                else
                  have blanks := length_skipBlanks_le rest'
                  match readValue (skipBlanks rest') with
                  | .error stop => .error stop
                  | .ok (value, ⟨rest, shorter'⟩) =>
                      let members := insert name value done
                      match blank : skipBlanks rest with
                      | [] => .error (.malformed .expectedComma 0)
                      | d :: after =>
                          have shorter'' : after.length < rest.length := by
                            have := length_skipBlanks_le rest
                            simp only [blank, List.length_cons] at this
                            omega
                          if d = '\x7d' then
                            .ok (members,
                              ⟨after, by simp only [List.length_cons]; omega⟩)
                          else if d = ',' then
                            have blanks' := length_skipBlanks_le after
                            match readMembers members (skipBlanks after) with
                            | .error stop => .error stop
                            | .ok (members, ⟨after, _⟩) =>
                                .ok (members,
                                  ⟨after, by
                                    simp only [List.length_cons]; omega⟩)
                          else
                            .error
                              (.malformed .expectedComma (after.length + 1))
termination_by (text.length, 1)
decreasing_by all_goals (simp_wf; omega)

end

def byteOrderMark : CodePoint := ⟨0xFEFF, by decide⟩

/-- Reads one value between blanks. -/
def readDocument (text : Text) : Except Stop Json :=
  if text.head? = some byteOrderMark then
    .error (.malformed .byteOrderMark text.length)
  else
    match readValue (skipBlanks text) with
    | .error stop => .error stop
    | .ok (value, rest) =>
        let left := skipBlanks rest.1
        if left.isEmpty then .ok value else
          .error (.malformed .extraData left.length)

def read (text : Text) : Except ReadFault Json :=
  match readDocument text with
  | .ok value => .ok value
  | .error (.malformed cause left) =>
      .error (.malformed cause (text.length - left))
  | .error (.digitLimit count) => .error (.digitLimit count)

/-- The line and the column of a position, both counted from one. -/
def lineColumn (text : Text) (position : Nat) : Nat × Nat :=
  let before := text.take position
  let line := before.count (CodePoint.ofChar '\n') + 1
  let column := (before.reverse.takeWhile (· ≠ CodePoint.ofChar '\n')).length +
    1
  (line, column)

end TailLoop.Json
