/-!
# Texts

A text is a sequence of Unicode code points.  Surrogates may stand on their own,
so every escape of a document keeps the value it was written with.
-/

namespace TailLoop

/-- A Unicode code point, surrogates included. -/
structure CodePoint where
  val : Nat
  valid : val < 0x110000
deriving DecidableEq

namespace CodePoint

theorem toNat_lt (c : Char) : c.toNat < 0x110000 := by
  have valid := c.valid
  simp only [UInt32.isValidChar, Nat.isValidChar] at valid
  simp only [Char.toNat]
  omega

def ofChar (c : Char) : CodePoint :=
  ⟨c.toNat, toNat_lt c⟩

instance : Coe Char CodePoint := ⟨ofChar⟩

instance : Inhabited CodePoint := ⟨'\x00'⟩

/-- Lexically, code points compare by their number. -/
instance : LT CodePoint := ⟨fun left right => left.val < right.val⟩

instance (left right : CodePoint) : Decidable (left < right) :=
  inferInstanceAs (Decidable (left.val < right.val))

def ofNat? (value : Nat) : Option CodePoint :=
  if valid : value < 0x110000 then some ⟨value, valid⟩ else none

def isBetween (low high : Char) (c : CodePoint) : Bool :=
  decide (low.toNat ≤ c.val) && decide (c.val ≤ high.toNat)

/-- The ASCII digits `0` to `9`. -/
def isDigit (c : CodePoint) : Bool := c.isBetween '0' '9'

/-- The ASCII letters of both cases. -/
def isLetter (c : CodePoint) :
    Bool := c.isBetween 'A' 'Z' || c.isBetween 'a' 'z'

def isAscii (c : CodePoint) : Bool := decide (c.val < 0x80)

/-- The value of a digit in a base of at most sixteen. -/
def digitValue? (c : CodePoint) : Option Nat :=
  if c.isDigit then some (c.val - '0'.toNat)
  else if c.isBetween 'a' 'f' then some (c.val - 'a'.toNat + 10)
  else if c.isBetween 'A' 'F' then some (c.val - 'A'.toNat + 10)
  else none

/-- The number of bytes of a code point in UTF-8. -/
def byteCount (c : CodePoint) : Nat :=
  if c.val < 0x80 then 1
  else if c.val < 0x800 then 2
  else if c.val < 0x10000 then 3
  else 4

def isHighSurrogate (c : CodePoint) : Bool :=
  decide (0xD800 ≤ c.val) && decide (c.val < 0xDC00)

def isLowSurrogate (c : CodePoint) : Bool :=
  decide (0xDC00 ≤ c.val) && decide (c.val < 0xE000)

/-- The character of a code point; surrogates have the replacement character. -/
def toChar (c : CodePoint) : Char :=
  if c.isHighSurrogate || c.isLowSurrogate then '\uFFFD' else Char.ofNat c.val

end CodePoint

abbrev Text := List CodePoint

namespace Text

def ofString (s : String) : Text :=
  s.toList.map CodePoint.ofChar

instance : Coe String Text := ⟨ofString⟩

/-- The text as a string, in which the replacement character stands for
surrogates. -/
def toString (text : Text) : String :=
  String.ofList (text.map CodePoint.toChar)

/-- The number of bytes of a text in UTF-8. -/
def byteCount (text : Text) : Nat :=
  text.foldl (fun count c => count + c.byteCount) 0

/-- The decimal digits of a number, without leading zeros. -/
def ofNat (n : Nat) : Text :=
  (Nat.toDigits 10 n).map CodePoint.ofChar

/-- The decimal digits of a number, after a minus sign if it is negative. -/
def ofInt : Int → Text
  | .ofNat n => ofNat n
  | .negSucc n => (CodePoint.ofChar '-') :: ofNat (n + 1)

/-- The hexadecimal digits of a number, with zeros in front up to the given
width. -/
def hex (width n : Nat) : Text :=
  let digits := (Nat.toDigits 16 n).map CodePoint.ofChar
  List.replicate (width - digits.length) (CodePoint.ofChar '0') ++ digits

/-- The number a row of digits denotes, most significant digit first. -/
def toNat (base : Nat) (digits : Text) : Nat :=
  digits.foldl (fun value c => base * value + (c.digitValue?.getD 0)) 0

def join (separator : Text) (parts : List Text) : Text :=
  List.intercalate separator parts

/-- The parts between the occurrences of a code point; one part if there is
none. -/
def split (separator : CodePoint) : Text → List Text
  | [] => [[]]
  | c :: rest =>
      if c = separator then [] :: split separator rest
      else
        match split separator rest with
        | [] => [[c]]
        | part :: parts => (c :: part) :: parts

/-- The rest of a text after a given beginning. -/
def after? : Text → Text → Option Text
  | [], text => some text
  | _ :: _, [] => none
  | b :: beginning, c :: text => if b = c then after? beginning text else none

/-- The beginning of a text before a given ending. -/
def before? (ending text : Text) : Option Text :=
  (after? ending.reverse text.reverse).map List.reverse

/-- Lexicographic order by code point; a proper beginning comes first. -/
def le : Text → Text → Bool
  | [], _ => true
  | _ :: _, [] => false
  | b :: left, c :: right => decide (b < c) || (decide (b = c) && le left right)

/-- What is left of a text after something was read from it. -/
abbrev Shorter (text : Text) := { rest : Text // rest.length < text.length }

theorem length_le_cons (c : CodePoint) (text : Text) :
    text.length ≤ (c :: text).length :=
  Nat.le_succ text.length

theorem length_lt_cons {rest text : Text} (c : CodePoint)
    (shorter : rest.length < text.length) : rest.length < (c :: text).length :=
  Nat.lt_succ_of_lt shorter

theorem length_cons_le_cons {rest text : Text} (c d : CodePoint)
    (shorter : rest.length < text.length) :
    (d :: rest).length ≤ (c :: text).length :=
  Nat.le_succ_of_le shorter

theorem length_dropWhile_le (p : CodePoint → Bool) (text : Text) :
    (text.dropWhile p).length ≤ text.length :=
  (List.dropWhile_sublist p).length_le

theorem length_after? {beginning text rest : Text}
    (read : after? beginning text = some rest) :
    rest.length + beginning.length = text.length := by
  induction beginning generalizing text with
  | nil => simp_all [after?]
  | cons b beginning ih =>
      cases text with
      | nil => simp [after?] at read
      | cons c text =>
          simp only [after?] at read
          split at read
          · have := ih read
            simp only [List.length_cons]
            omega
          · simp at read

end Text

end TailLoop
