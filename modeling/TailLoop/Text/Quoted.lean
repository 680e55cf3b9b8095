import TailLoop.Text.Printable

/-!
# Quoted texts

A quoted text stands on one line between two equal quotes.  The quote is `'`
unless the text holds a `'` and no `"`.  Backslashes, the chosen quote and every
code point that is not kept are written as escapes.
-/

namespace TailLoop.Text

/-- The single quote, unless it alone of the two quotes occurs in the text. -/
def quoteFor (text : Text) : CodePoint :=
  if (CodePoint.ofChar '\'') ∈ text ∧ (CodePoint.ofChar '"') ∉ text then
    '"' else '\''

/-- The numeric escape of a code point, with two, four or eight hexadecimal
digits. -/
def numericEscape (c : CodePoint) : Text :=
  if c.val < 0x100 then "\\x" ++ hex 2 c.val
  else if c.val < 0x10000 then "\\u" ++ hex 4 c.val
  else "\\U" ++ hex 8 c.val

/-- A code point as it stands between quotes. -/
def quotedPoint (keeps : CodePoint → Bool) (quote c : CodePoint) : Text :=
  if c = quote ∨ c = '\\' then [CodePoint.ofChar '\\', c]
  else if c = '\t' then "\\t"
  else if c = '\n' then "\\n"
  else if c = '\r' then "\\r"
  else if keeps c then [c]
  else numericEscape c

def quotedBy (keeps : CodePoint → Bool) (text : Text) : Text :=
  let quote := quoteFor text
  quote :: text.flatMap (quotedPoint keeps quote) ++ [quote]

/-- A text between quotes, with printable code points kept. -/
def quoted (text : Text) : Text :=
  quotedBy CodePoint.isPrintable text

/-- A text between quotes, with printable ASCII kept and all else escaped. -/
def quotedAscii (text : Text) : Text :=
  quotedBy (fun c => c.isAscii && c.isPrintable) text

end TailLoop.Text
