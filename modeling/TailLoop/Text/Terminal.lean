import TailLoop.Text.Basic

/-!
# Texts on a terminal

A style is switched by a control sequence: an escape character, a bracket,
parameters and a letter.  Without a terminal the sequences are left out.
-/

namespace TailLoop.Text

/-- Digits, semicolons and question marks are the parameters of a control
sequence. -/
def isParameter (c : CodePoint) : Bool := c.isDigit || c == ';' || c == '?'

/-- What follows the control sequence that an escape character before the text
starts. -/
def afterSequence? : (text : Text) → Option (Shorter text)
  | [] => none
  | c :: rest =>
      if c = '[' then
        match ending : rest.dropWhile isParameter with
        | [] => none
        | letter :: after =>
            if letter.isLetter then
              some ⟨after, by
                have := length_dropWhile_le isParameter rest
                simp only [ending, List.length_cons] at *
                omega⟩
            else none
      else none

/-- The text without its control sequences. -/
def unstyled (text : Text) : Text :=
  match text with
  | [] => []
  | c :: rest =>
      if c = '\x1b' then
        match afterSequence? rest with
        | some ⟨after, _⟩ => unstyled after
        | none => c :: unstyled rest
      else c :: unstyled rest
termination_by text.length
decreasing_by all_goals (simp only [List.length_cons]; omega)

end TailLoop.Text
