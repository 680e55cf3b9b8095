import TailLoop.Script
import TailLoop.Proofs.LiteralRoundTrip

/-!
# Safe identifiers

An identifier begins with the mark of encoded names, or it is a row of letters
before a row of digits.  The words that are not left to the variables of a
program have neither form: the keywords, the names that the prelude brings in
and the functions that printed code takes for given.  Nor does an identifier
hold a percent sign, so a traced call has one place for each parameter.
-/

namespace TailLoop

theorem CodePoint.isAscii_of_isWordPoint {c : CodePoint}
    (word : c.isWordPoint = true) :
    c.isAscii = true := by
  have visible := isVisible_of_isWordPoint word
  simp only [isVisible, isBetween, Bool.and_eq_true, decide_eq_true_eq]
    at visible
  have last : '~'.toNat < 0x80 := by decide
  exact decide_eq_true (Nat.lt_of_le_of_lt visible.2 last)

namespace Text

/-- One or more letters before one or more digits. -/
def IsNumbered (text : Text) : Prop :=
  ∃ letters digits, text = letters ++ digits ∧ letters ≠ [] ∧ digits ≠ [] ∧
    (∀ c ∈ letters, c.isLetter = true) ∧ ∀ c ∈ digits, c.isDigit = true

theorem isNumbered_ofNat {letters : Text} (nonempty : letters ≠ [])
    (allLetters : Name.AllLetters letters) (number : Nat) :
    (letters ++ ofNat number).IsNumbered :=
  ⟨letters, ofNat number, rfl, nonempty, ofNat_ne_nil number, allLetters,
    fun _ member => isDigit_of_mem_ofNat member⟩

/-- The forms of the identifiers of variables. -/
def IsRendered (text : Text) : Prop :=
  Name.marker <+: text ∨ text.IsNumbered

/-- The word neither begins like an encoded name nor ends like a numbered
one. -/
def isApart (word : Text) : Bool :=
  !Name.marker.isPrefixOf word && !word.getLast?.any CodePoint.isDigit

theorem IsNumbered.getLast?_isDigit {text : Text} (numbered : text.IsNumbered) :
    text.getLast?.any CodePoint.isDigit = true := by
  obtain ⟨letters, digits, rfl, -, nonempty, -, allDigits⟩ := numbered
  rw [List.getLast?_append_of_ne_nil _ nonempty,
    List.getLast?_eq_some_getLast nonempty]
  exact allDigits _ (List.getLast_mem nonempty)

theorem IsRendered.isApart_eq_false {text : Text} (rendered : text.IsRendered) :
    text.isApart = false := by
  rcases rendered with marked | numbered
  · rw [isApart, List.isPrefixOf_iff_prefix.mpr marked]
    rfl
  · rw [isApart, numbered.getLast?_isDigit, Bool.not_true, Bool.and_false]

theorem IsRendered.not_mem {text : Text} {words : List Text}
    (rendered : text.IsRendered) (apart : ∀ word ∈ words, word.isApart = true) :
    text ∉ words := by
  intro member
  have impossible := apart text member
  rw [rendered.isApart_eq_false] at impossible
  cases impossible

theorem IsNumbered.underscore_not_mem {text : Text}
    (numbered : text.IsNumbered) :
    CodePoint.ofChar '_' ∉ text := by
  obtain ⟨letters, digits, rfl, -, -, allLetters, allDigits⟩ := numbered
  intro member
  rcases List.mem_append.mp member with inLetters | inDigits
  · exact absurd (allLetters _ inLetters) (by decide)
  · exact absurd (allDigits _ inDigits) (by decide)

/-- A nonempty word that does not start with a digit. -/
def IsName (text : Text) : Prop :=
  ∃ c rest, text = c :: rest ∧ c.isDigit = false ∧ text.IsWord

theorem IsRendered.exists_letter {text : Text} (rendered : text.IsRendered) :
    ∃ c rest, text = c :: rest ∧ c.isLetter = true := by
  rcases rendered with ⟨rest, rfl⟩ | ⟨letters, digits, rfl, nonempty, -,
    allLetters, -⟩
  · exact ⟨'i', "r_" ++ rest, rfl, by decide⟩
  · obtain ⟨c, letters, rfl⟩ := List.exists_cons_of_ne_nil nonempty
    exact ⟨c, letters ++ digits, rfl, allLetters c List.mem_cons_self⟩

theorem IsRendered.isName {text : Text} (rendered : text.IsRendered)
    (word : text.IsWord) :
    text.IsName := by
  obtain ⟨c, rest, form, letter⟩ := rendered.exists_letter
  refine ⟨c, rest, form, ?_, word⟩
  by_contra digit
  rw [Bool.not_eq_false] at digit
  rw [CodePoint.isLetter_eq_false_of_isDigit digit] at letter
  cases letter

end Text

theorem Name.isRendered_identifier (name : Name) :
    name.identifier.IsRendered := by
  rcases name.identifier_cases with ⟨index, text, -, readable, form⟩ | form
  · obtain ⟨nonempty, allLetters, -⟩ := isReadable_iff.mp readable
    rw [form]
    exact .inr (Text.isNumbered_ofNat nonempty allLetters index)
  · rw [form]
    exact .inl (List.prefix_append ..)

theorem Var.isRendered_identifier (v : Var) : v.identifier.IsRendered := by
  match v with
  | .named name => exact name.isRendered_identifier
  | .slot (.ofNat index) =>
      exact .inr
        (Text.isNumbered_ofNat (by decide) Name.allLetters_slotText index)
  | .slot (.negSucc index) =>
      exact .inr
        (Text.isNumbered_ofNat (by decide) Name.allLetters_temporaryText
          (index + 1))

namespace Prelude

/-- The words before a name that a line imports or defines. -/
def introducers : List Text :=
  ["import", "class", "def"]

/-- The name that a line at the margin imports, defines or assigns. -/
def introduced? (line : Text) : Option Text :=
  let word := line.takeWhile CodePoint.isWordPoint
  let rest := line.dropWhile CodePoint.isWordPoint
  if word ∈ introducers then
    some ((rest.drop 1).takeWhile CodePoint.isWordPoint)
  else (Text.after? " = " rest).map fun _ => word

/-- The names that the prelude brings into a program. -/
def names : List Text :=
  lines.filterMap fun line => introduced? (Text.ofString line)

theorem names_eq : names =
    ["importlib", "sys", "IRError", "rts_error", "MODULES", "rts_pymodule",
      "rts_getfield", "rts_call", "rts_foreach", "rts_is_none"] := by
  decide +kernel

/-- The start of the names that the prelude keeps for its functions. -/
def helperMark : Text := "rts_"

theorem not_helperMark_of_isRendered {text : Text}
    (rendered : text.IsRendered) :
    ¬ helperMark <+: text := by
  rintro ⟨rest, rfl⟩
  rcases rendered with ⟨rest', same⟩ | numbered
  · have heads : CodePoint.ofChar 'i' = CodePoint.ofChar 'r' :=
      (List.cons.inj same).1
    exact absurd heads (by decide)
  · exact numbered.underscore_not_mem (List.mem_append_left _ (by decide))

end Prelude

namespace Code

/-- The words that are no variables, among them those that are words only in
their places. -/
def keywords : List Text :=
  ["False", "None", "True", "and", "as", "assert", "async", "await", "break",
    "class", "continue", "def", "del", "elif", "else", "except", "finally",
    "for", "from", "global", "if", "import", "in", "is", "lambda", "nonlocal",
    "not", "or", "pass", "raise", "return", "try", "while", "with", "yield",
    "_", "case", "match", "type"]

/-- The functions that printed code calls without a definition. -/
def builtins : List Text :=
  ["int", "str", "float", "repr", "print"]

/-- A word that printed code can use for a variable. -/
structure IsSafe (word : Text) : Prop where
  ascii : ∀ c ∈ word, c.isAscii = true
  name : word.IsName
  rendered : word.IsRendered
  keyword : word ∉ keywords
  prelude : word ∉ Prelude.names
  helper : ¬ Prelude.helperMark <+: word
  builtin : word ∉ builtins
  percent : CodePoint.ofChar '%' ∉ word

theorem IsSafe.of_isRendered {word : Text} (isWord : word.IsWord)
    (rendered : word.IsRendered) :
    IsSafe word where
  ascii := fun c member => CodePoint.isAscii_of_isWordPoint (isWord c member)
  name := rendered.isName isWord
  rendered := rendered
  keyword := rendered.not_mem (by decide)
  prelude := by
    rw [Prelude.names_eq]
    exact rendered.not_mem (by decide)
  helper := Prelude.not_helperMark_of_isRendered rendered
  builtin := rendered.not_mem (by decide)
  percent := fun member => absurd (isWord _ member) (by decide)

theorem isSafe_identifier (v : Var) : IsSafe v.identifier :=
  .of_isRendered v.isIdentifier_identifier.1 v.isRendered_identifier

/-- Fills values into the places `%s` of a pattern.  A percent sign that stands
for anything else and a wrong number of values are refused. -/
def filled? : Text → List Text → Option Text
  | [], [] => some []
  | [], _ :: _ => none
  | c :: pattern, values =>
      if c = '%' then
        match pattern, values with
        | d :: pattern, value :: values =>
            if d = 's' then (filled? pattern values).map (value ++ ·) else none
        | _, _ => none
      else (filled? pattern values).map (c :: ·)

theorem filled?_cons {c : CodePoint} (plain : c ≠ '%') (pattern : Text)
    (values : List Text) :
    filled? (c :: pattern) values = (filled? pattern values).map (c :: ·) := by
  rw [filled?.eq_def]
  exact if_neg plain

theorem filled?_append {row : Text} (plain : CodePoint.ofChar '%' ∉ row)
    (pattern : Text) (values : List Text) :
    filled? (row ++ pattern) values =
      (filled? pattern values).map (row ++ ·) := by
  induction row with
  | nil => exact Option.map_id'.symm
  | cons c row ih =>
      obtain ⟨differs, later⟩ := List.ne_and_not_mem_of_not_mem_cons plain
      rw [List.cons_append, filled?_cons differs.symm, ih later, Option.map_map]
      rfl

/-- A pattern without places takes no values. -/
theorem filled?_plain {row : Text} (plain : CodePoint.ofChar '%' ∉ row)
    (values : List Text) :
    filled? row values = if values.length = 0 then some row else none := by
  have alone := filled?_append plain [] values
  rw [List.append_nil] at alone
  rw [alone]
  cases values with
  | nil => exact congrArg some (List.append_nil row)
  | cons value values => rfl

/-- The place of a value in a pattern. -/
def place : Text := "%s"

/-- What stands between the arguments of a call. -/
def comma : Text := ", "

/-- The first of the values goes to the first place, and the others to those
behind it. -/
theorem filled?_place {pattern shown : Text} {values : List Text} {count : Nat}
    (behind : filled? pattern values = if values.length = count then
      some shown else none)
    (value : Text) :
    filled? (place ++ pattern) (value :: values) =
      if (value :: values).length = count + 1 then some (value ++ shown) else
        none := by
  have first : filled? (place ++ pattern) (value :: values) =
      (filled? pattern values).map (value ++ ·) := rfl
  rw [first, behind, apply_ite (Option.map (value ++ ·)), List.length_cons]
  simp only [Nat.add_right_cancel_iff, Option.map_some, Option.map_none]

theorem filled?_places {α : Type} {rest : Text}
    (plain : CodePoint.ofChar '%' ∉ rest) (items : List α)
    (values : List Text) :
    filled? ((items.flatMap fun _ => comma ++ place) ++ rest) values =
      if values.length = items.length then
        some (values.flatMap (comma ++ ·) ++ rest)
      else none := by
  have plainComma : CodePoint.ofChar '%' ∉ comma := by decide
  induction items generalizing values with
  | nil =>
      refine (filled?_plain plain values).trans ?_
      cases values <;> rfl
  | cons item items ih =>
      rw [List.flatMap_cons, List.append_assoc, List.append_assoc,
        filled?_append plainComma]
      cases values with
      | nil => rfl
      | cons value values =>
          rw [filled?_place (ih values), apply_ite (Option.map (comma ++ ·)),
            List.flatMap_cons, List.append_assoc, List.append_assoc]
          rfl

theorem filled?_join {α : Type} {rest : Text}
    (plain : CodePoint.ofChar '%' ∉ rest) (items : List α)
    (values : List Text) :
    filled? (Text.join comma (items.map fun _ => place) ++ rest) values =
      if values.length = items.length then
        some (Text.join comma values ++ rest) else none := by
  cases items with
  | nil =>
      refine (filled?_plain plain values).trans ?_
      cases values <;> rfl
  | cons item items =>
      rw [List.map_cons, Text.join_cons, List.flatMap_map, List.append_assoc]
      cases values with
      | nil => rfl
      | cons value values =>
          rw [filled?_place (filled?_places plain items values), Text.join_cons,
            List.append_assoc]
          rfl

/-- Each value is shown at its place in a call. -/
theorem filled?_callText {α : Type} {callee : Text}
    (plain : CodePoint.ofChar '%' ∉ callee) (items : List α)
    (values : List Text) :
    filled? (callText callee (items.map fun _ => place)) values =
      if values.length = items.length then some (callText callee values) else
        none := by
  have opening : CodePoint.ofChar '%' ∉ callee ++ "(" := by
    rw [List.mem_append]
    exact not_or.mpr ⟨plain, by decide⟩
  have shown : ∀ texts, callText callee texts = callee ++ "(" ++
      (Text.join comma texts ++ ")") :=
    fun texts => List.append_assoc ..
  rw [shown, shown, filled?_append opening, filled?_join (by decide),
    apply_ite (Option.map _)]
  rfl

end Code

namespace Function

open Code

/-- The values that are filled into the pattern of a traced call; a pattern
without places takes none. -/
def traceValues (function : Function) : Text :=
  if function.params.isEmpty then []
  else
    " % " ++ tupleText (function.params.map fun param =>
      callText "repr" [param.identifier])

theorem traceLine_eq (function : Function) :
    function.traceLine =
      "print(" ++
        Text.quoted
          (callText function.name.identifier (function.params.map fun _ =>
            place)) ++
        function.traceValues ++ ", file=sys.stderr)" := by
  simp only [traceLine, traceValues, List.map_map, List.isEmpty_map]
  rfl

end Function

/-- The identifier of a variable is a safe word: an ASCII identifier of one of
two forms, and none of the words that are taken.  So the pattern in the line
that traces a call takes as many values as there are parameters, and shows them
as the arguments of the function. -/
theorem identifiers_safe_to_print (v : Var) (function : Function) :
    Code.IsSafe v.identifier ∧
    ∃ literal pattern,
      function.traceLine =
        "print(" ++ literal ++ function.traceValues ++ ", file=sys.stderr)" ∧
      Literal.Denotes literal pattern ∧
      ∀ values, Code.filled? pattern values =
        if values.length = function.params.length then
          some (Code.callText function.name.identifier values)
        else none := by
  have noPercent := (Code.isSafe_identifier (.named function.name)).percent
  exact ⟨Code.isSafe_identifier v, _, _, function.traceLine_eq,
    Literal.denotes_quoted _, Code.filled?_callText noPercent function.params⟩

end TailLoop
