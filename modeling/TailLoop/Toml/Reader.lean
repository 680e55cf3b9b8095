import TailLoop.Text.Newline
import TailLoop.Toml.Token

/-!
# Reading TOML

Statements are read one by one, and each is carried out before the next one is
read.
-/

namespace TailLoop.Toml

/-- Reads a number or a word. -/
def readScalar (text : Text) : Reading Json text :=
  match readWord? text with
  | some word => .ok word
  | none =>
      match readBased? text with
      | some number => .ok number
      | none =>
          match readDecimal? text with
          | none => .error .malformed
          | some (numeral, rest) =>
              match numeral.value with
              | .ok value => .ok (value, rest)
              | .error (.digitLimit count) => .error (.digitLimit count)
              | .error (.malformed _ _) => .error .malformed

mutual

/-- Reads a value that starts right here. -/
def readValue (text : Text) : Reading Json text :=
  match text with
  | [] => .error .malformed
  | c :: rest =>
      if c = quotation ∨ c = apostrophe then
        ((readString c rest).map Json.str).within (Text.length_le_cons c rest)
      else if c = '[' then
        ((readItems rest).map Json.arr).within (Text.length_le_cons c rest)
      else if c = '\x7b' then
        match blank : skipBlanks rest with
        | [] => .error .malformed
        | d :: after =>
            have shorter := length_lt_of_skipBlanks blank
            if d = '\x7d' then
              .ok (.obj [], ⟨after, Text.length_lt_cons c shorter⟩)
            else
              ((readMembers [] [] (d :: after)).map Json.obj).within
                (Text.length_cons_le_cons c d shorter)
      else readScalar (c :: rest)
termination_by (text.length, 0)
decreasing_by all_goals (simp_wf; omega)

/-- Reads the items of an array that are left, and its closing bracket. -/
def readItems (text : Text) : Reading (List Json) text :=
  match skipFiller false text with
  | .error fault => .error fault
  | .ok ⟨[], _⟩ => .error .malformed
  | .ok ⟨c :: rest, shorter⟩ =>
      have shorter' : rest.length < text.length := shorter
      if c = ']' then .ok ([], ⟨rest, shorter'⟩)
      else
        match readValue (c :: rest) with
        | .error fault => .error fault
        | .ok (item, ⟨after, less⟩) =>
            match skipFiller false after with
            | .error fault => .error fault
            | .ok ⟨[], _⟩ => .error .malformed
            | .ok ⟨d :: more, filler⟩ =>
                have more_lt : more.length < text.length := by
                  simp only [List.length_cons] at *
                  omega
                if d = ']' then .ok ([item], ⟨more, more_lt⟩)
                else if d = ',' then
                  ((readItems more).map (item :: ·)).within (by omega)
                else .error .malformed
termination_by (text.length, 1)
decreasing_by all_goals (simp_wf; simp only [List.length_cons] at *; omega)

/-- Reads the members of an inline table and its closing brace.  `done` holds
the members so far, `frozen` the keys among them that are closed. -/
def readMembers (done : Table) (frozen : List Route) (text : Text) :
    Reading Table text :=
  match readPair text with
  | .error fault => .error fault
  | .ok ((key, value), ⟨rest, shorter⟩) =>
      if covered frozen key.route then .error .malformed
      else
        match Table.alter false (Table.define key.stem value)
          key.parents done with
        | none => .error .malformed
        | some members =>
            match blank : skipBlanks rest with
            | [] => .error .malformed
            | c :: after =>
                have after_lt : after.length < text.length :=
                  Nat.lt_trans (length_lt_of_skipBlanks blank) shorter
                if c = '\x7d' then .ok (members, ⟨after, after_lt⟩)
                else if c = ',' then
                  have blanks' := length_skipBlanks_le after
                  let frozen := if isContainer value then
                    key.route :: frozen else frozen
                  (readMembers members frozen (skipBlanks after)).within
                  (by omega)
                else .error .malformed
termination_by (text.length, 2)
decreasing_by all_goals omega

/-- Reads a key, an equals sign and a value. -/
def readPair (text : Text) : Reading (Key × Json) text :=
  match readKey text with
  | .error fault => .error fault
  | .ok (_, ⟨[], _⟩) => .error .malformed
  | .ok (key, ⟨c :: rest, shorter⟩) =>
      have shorter' : rest.length < text.length := by
        simp only [List.length_cons] at shorter
        omega
      if c = '=' then
        have blanks := length_skipBlanks_le rest
        ((readValue (skipBlanks rest)).map fun value => (key, value)).within
        (by omega)
      else .error .malformed
termination_by (text.length, 1)
decreasing_by all_goals omega

end

/-- Reads a header whose opening brackets stand before the text, up to its
closing ones. -/
def readHeader (brackets : Nat) (text : Text) : Reading Key text :=
  have blanks := length_skipBlanks_le text
  match readKey (skipBlanks text) with
  | .error fault => .error fault
  | .ok (key, ⟨rest, shorter⟩) =>
      if (List.replicate brackets (CodePoint.ofChar ']')).isPrefixOf rest then
        .ok (key, ⟨rest.drop brackets, by simp only [List.length_drop]; omega⟩)
      else .error .malformed

/-- Reads one statement other than a blank line and carries it out. -/
def readStatement (document : Document) : (text : Text) → Reading Document text
  | [] => .error .malformed
  | c :: rest =>
      if c = '[' then
        let double := rest.head? = some (CodePoint.ofChar '[')
        let inside := if double then rest.tail else rest
        have shorter : inside.length ≤ rest.length := by
          simp only [inside]
          split <;> simp
        match readHeader (if double then 2 else 1) inside with
        | .error fault => .error fault
        | .ok (key, ⟨after, less⟩) =>
            match if double then document.openItem key else
              document.openTable key with
            | .error fault => .error fault
            | .ok document =>
                .ok (document, ⟨after, by simp only [List.length_cons]; omega⟩)
      else
        match readPair (c :: rest) with
        | .error fault => .error fault
        | .ok ((key, value), after) =>
            match document.assign key value with
            | .error fault => .error fault
            | .ok document => .ok (document, after)

/-- Reads the statements that are left.  A statement ends with its line, before
which a comment may stand. -/
def readStatements (document : Document) (text : Text) : Except Fault Table :=
  match blank : skipBlanks text with
  | [] => .ok document.root
  | c :: rest =>
      have shorter := length_lt_of_skipBlanks blank
      if c = '\n' then readStatements document rest
      else if c = '#' then
        match skipComment rest with
        | .error fault => .error fault
        | .ok ⟨after, _⟩ => readStatements document after
      else
        match readStatement document (c :: rest) with
        | .error fault => .error fault
        | .ok (document, ⟨after, less⟩) =>
            match blank' : skipBlanks after with
            | [] => .ok document.root
            | d :: more =>
                have more_lt : more.length < text.length := by
                  have := length_lt_of_skipBlanks blank'
                  simp only [List.length_cons] at less
                  omega
                if d = '\n' then readStatements document more
                else if d = '#' then
                  match skipComment more with
                  | .error fault => .error fault
                  | .ok ⟨after, _⟩ => readStatements document after
                else .error .malformed
termination_by text.length
decreasing_by all_goals omega

/-- Reads a document.  Pairs of a carriage return and a newline count as one
newline. -/
def read (text : Text) : Except Fault Table :=
  readStatements .empty text.joinNewlines

end TailLoop.Toml
