import TailLoop.Json.Reader

/-!
# Integers in texts

A text that denotes an integer: blanks, a sign, digits of any script with single
underscores between them, and blanks.
-/

namespace TailLoop

namespace CodePoint

/-- The zeros of the scripts other than ASCII.  Each is followed by the digits
one to nine. -/
def zeros : List Nat :=
  [0x660, 0x6F0, 0x7C0, 0x966, 0x9E6, 0xA66, 0xAE6, 0xB66, 0xBE6, 0xC66, 0xCE6,
    0xD66, 0xDE6, 0xE50, 0xED0, 0xF20, 0x1040, 0x1090, 0x17E0, 0x1810, 0x1946,
    0x19D0, 0x1A80, 0x1A90, 0x1B50, 0x1BB0, 0x1C40, 0x1C50, 0xA620, 0xA8D0,
    0xA900, 0xA9D0, 0xA9F0, 0xAA50, 0xABF0, 0xFF10, 0x104A0, 0x10D30, 0x11066,
    0x110F0, 0x11136, 0x111D0, 0x112F0, 0x11450, 0x114D0, 0x11650, 0x116C0,
    0x11730, 0x118E0, 0x11950, 0x11C50, 0x11D50, 0x11DA0, 0x16A60, 0x16AC0,
    0x16B50, 0x1D7CE, 0x1D7D8, 0x1D7E2, 0x1D7EC, 0x1D7F6, 0x1E140, 0x1E2F0,
    0x1E950, 0x1FBF0]

/-- The ASCII digit of the same value as a digit of another script. -/
def asciiDigit? (c : CodePoint) : Option CodePoint :=
  (zeros.find? fun start => decide (start ≤ c.val) &&
    decide (c.val < start + 10)).bind
    fun start => ofNat? (c.val - start + '0'.toNat)

/-- The spaces and line breaks outside ASCII. -/
def isWideBlank (c : CodePoint) : Bool :=
  [0x85, 0xA0, 0x1680, 0x2028, 0x2029, 0x202F, 0x205F, 0x3000].contains c.val ||
    (decide (0x2000 ≤ c.val) && decide (c.val ≤ 0x200A))

/-- The blanks of ASCII: the space, and the controls from the tab to the
carriage return. -/
def isNarrowBlank (c : CodePoint) : Bool :=
  c == ' ' || c.isBetween '\t' '\r'

end CodePoint

namespace Text

inductive IntegerFault where
  | invalid
  | digitLimit (count : Nat)
deriving DecidableEq

/-- The text with ASCII digits and blanks in place of those of other scripts, up
to the first code point that can be neither. -/
def asciiNumeral : Text → Text
  | [] => []
  | c :: rest =>
      if c.val < 0x7F then c :: asciiNumeral rest
      else if c.isWideBlank then ' ' :: asciiNumeral rest
      else
        match c.asciiDigit? with
        | some digit => digit :: asciiNumeral rest
        | none => [c]

/-- Whether the integer is negative, and the text after its sign. -/
def afterSign : Text → Bool × Text
  | c :: rest =>
      if c = '-' then (true, rest)
      else if c = '+' then (false, rest)
      else (false, c :: rest)
  | [] => (false, [])

/-- The integer a text denotes.  The number of digits is checked before what
follows them. -/
def toInt (text : Text) : Except IntegerFault Int :=
  let (negative, body) :=
    afterSign ((asciiNumeral text).dropWhile CodePoint.isNarrowBlank)
  let inRow := fun c : CodePoint => c.isDigit || c == '_'
  let groups := split '_' (body.takeWhile inRow)
  let digits := groups.flatten
  if groups.any List.isEmpty then .error .invalid
  else if Json.digitLimit < digits.length then
    .error (.digitLimit digits.length)
  else if (body.dropWhile inRow).all CodePoint.isNarrowBlank then
    let magnitude : Int := toNat 10 digits
    .ok (if negative then -magnitude else magnitude)
  else .error .invalid

end Text

end TailLoop
