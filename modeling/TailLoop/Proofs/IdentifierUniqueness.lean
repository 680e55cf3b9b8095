import TailLoop.Identifier
import TailLoop.Proofs.TextReading

/-!
# Uniqueness of identifiers

An encoded name is read from the left.  A letter or a digit stands for itself,
an underscore before a digit opens the number of another code point, and an
underscore before a letter opens a mark.  So a text between marks ends where the
next mark stands, and the marks show how a name is put together.  The readable
names of compilers, the slots and the temporaries are letters before a number;
encoded names hold an underscore instead.
-/

namespace TailLoop

namespace Name

/-- The end of an encoded name, or a mark. -/
inductive AtMark : Text → Prop where
  | finish : AtMark []
  | mark {letter : CodePoint} {rest : Text} :
      letter.isLetter = true → AtMark (CodePoint.ofChar '_' :: letter :: rest)

/-- A code point that stands for itself when it is encoded. -/
def IsPlain (c : CodePoint) : Prop :=
  (c.isLetter || c.isDigit) = true

private theorem not_isPlain_underscore : ¬ IsPlain (CodePoint.ofChar '_') := by
  unfold IsPlain
  decide

private theorem escapedPoint_of_isPlain {c : CodePoint} (plain : IsPlain c) :
    escapedPoint c = [c] :=
  if_pos plain

private theorem escapedPoint_of_not_isPlain {c : CodePoint}
    (special : ¬ IsPlain c) :
    escapedPoint c =
      CodePoint.ofChar '_' :: (Text.ofNat c.val ++ [CodePoint.ofChar '_']) :=
  if_neg special

private theorem stops_isDigit_underscore (rest : Text) :
    Text.Stops CodePoint.isDigit (CodePoint.ofChar '_' :: rest) :=
  Text.stops_cons (by decide)

theorem escapedPoint_append_inj {c d : CodePoint} {rest rest' : Text}
    (same : escapedPoint c ++ rest = escapedPoint d ++ rest') :
    c = d ∧ rest = rest' := by
  by_cases plain : IsPlain c <;> by_cases plain' : IsPlain d
  · rw [escapedPoint_of_isPlain plain, escapedPoint_of_isPlain plain'] at same
    exact List.cons.inj same
  · rw [escapedPoint_of_isPlain plain, escapedPoint_of_not_isPlain plain']
      at same
    obtain ⟨rfl, -⟩ := List.cons.inj same
    exact (not_isPlain_underscore plain).elim
  · rw [escapedPoint_of_not_isPlain plain, escapedPoint_of_isPlain plain']
      at same
    obtain ⟨rfl, -⟩ := List.cons.inj same
    exact (not_isPlain_underscore plain').elim
  · rw [escapedPoint_of_not_isPlain plain, escapedPoint_of_not_isPlain plain']
      at same
    simp only [List.cons_append, List.append_assoc, List.nil_append,
      List.cons.injEq, true_and] at same
    obtain ⟨values, tails⟩ :=
      Text.ofNat_append_inj (stops_isDigit_underscore rest)
        (stops_isDigit_underscore rest') same
    have points : c = d := by
      cases c
      cases d
      cases values
      rfl
    exact ⟨points, (List.cons.inj tails).2⟩

/-- An escape opens with a digit, so no mark starts like an encoded code
point. -/
theorem escapedPoint_append_not_atMark (c : CodePoint) (rest : Text) :
    ¬ AtMark (escapedPoint c ++ rest) := by
  intro atMark
  by_cases plain : IsPlain c
  · rw [escapedPoint_of_isPlain plain] at atMark
    cases atMark
    exact not_isPlain_underscore plain
  · rw [escapedPoint_of_not_isPlain plain] at atMark
    cases digits : Text.ofNat c.val with
    | nil => exact Text.ofNat_ne_nil c.val digits
    | cons digit tail =>
        rw [digits] at atMark
        cases atMark with
        | mark letter =>
            have isDigit : digit.isDigit = true := by
              apply Text.isDigit_of_mem_ofNat (n := c.val)
              rw [digits]
              exact List.mem_cons_self
            rw [CodePoint.isLetter_eq_false_of_isDigit isDigit] at letter
            cases letter

/-- A text is determined by its encoding up to the next mark. -/
theorem escaped_append_inj {text text' rest rest' : Text}
    (atMark : AtMark rest) (atMark' : AtMark rest')
    (same : escaped text ++ rest = escaped text' ++ rest') :
    text = text' ∧ rest = rest' := by
  induction text generalizing text' with
  | nil =>
      cases text' with
      | nil => exact ⟨rfl, same⟩
      | cons d text' =>
          simp only [escaped, List.flatMap_nil, List.nil_append,
            List.flatMap_cons, List.append_assoc] at same
          rw [same] at atMark
          exact (escapedPoint_append_not_atMark d _ atMark).elim
  | cons c text ih =>
      cases text' with
      | nil =>
          simp only [escaped, List.flatMap_nil, List.nil_append,
            List.flatMap_cons, List.append_assoc] at same
          rw [← same] at atMark'
          exact (escapedPoint_append_not_atMark c _ atMark').elim
      | cons d text' =>
          simp only [escaped, List.flatMap_cons, List.append_assoc] at same
          obtain ⟨rfl, tails⟩ := escapedPoint_append_inj same
          obtain ⟨rfl, rests⟩ := ih tails
          exact ⟨rfl, rests⟩

private theorem atMark_namespaceMark (rest : Text) :
    AtMark (namespaceMark ++ rest) :=
  @AtMark.mark (CodePoint.ofChar 'n') _ (by decide)

private theorem atMark_machineMark (rest : Text) :
    AtMark (machineMark ++ rest) :=
  @AtMark.mark (CodePoint.ofChar 'm') _ (by decide)

private theorem atMark_separatorMark (rest : Text) :
    AtMark (separatorMark ++ rest) :=
  @AtMark.mark (CodePoint.ofChar 'd') _ (by decide)

private theorem separatorMark_append_ne_namespaceMark (rest rest' : Text) :
    separatorMark ++ rest ≠ namespaceMark ++ rest' := by
  intro same
  have second : CodePoint.ofChar 'd' = CodePoint.ofChar 'n' :=
    (List.cons.inj (List.cons.inj same).2).1
  exact absurd second (by decide)

private theorem separatorMark_append_ne_machineMark (rest rest' : Text) :
    separatorMark ++ rest ≠ machineMark ++ rest' := by
  intro same
  have second : CodePoint.ofChar 'd' = CodePoint.ofChar 'm' :=
    (List.cons.inj (List.cons.inj same).2).1
  exact absurd second (by decide)

private theorem namespaceMark_append_ne_machineMark (rest rest' : Text) :
    namespaceMark ++ rest ≠ machineMark ++ rest' := by
  intro same
  have second : CodePoint.ofChar 'n' = CodePoint.ofChar 'm' :=
    (List.cons.inj (List.cons.inj same).2).1
  exact absurd second (by decide)

/-- The namespaces in an encoded name, each with its mark. -/
private def encodedParts (parts : List Text) : Text :=
  parts.flatMap fun part => escaped part ++ separatorMark

/-- The first text of an encoded name, and what follows it. -/
private def opening : Name → Text × Text
  | .user text => (text, [])
  | .scoped namespaces name =>
      ([], namespaceMark ++ (encodedParts namespaces ++ encoded name))
  | .machine index text =>
      ([],
        machineMark ++
          (escaped (Text.ofInt index) ++ (separatorMark ++ escaped text)))

private theorem encoded_eq_opening (name : Name) :
    encoded name = escaped (opening name).1 ++ (opening name).2 := by
  cases name with
  | user text => simp only [encoded, opening, List.append_nil]
  | «scoped» namespaces name =>
      simp only [encoded, opening, encodedParts, escaped, List.flatMap_nil,
        List.nil_append, List.append_assoc]
  | machine index text =>
      simp only [encoded, opening, escaped, List.flatMap_nil, List.nil_append,
        List.append_assoc]

private theorem atMark_opening (name : Name) : AtMark (opening name).2 := by
  cases name with
  | user text => exact .finish
  | «scoped» namespaces name => exact atMark_namespaceMark _
  | machine index text => exact atMark_machineMark _

private theorem opening_eq_of_encoded_eq {name name' : Name}
    (same : encoded name = encoded name') : opening name = opening name' := by
  rw [encoded_eq_opening name, encoded_eq_opening name'] at same
  obtain ⟨texts, rests⟩ :=
    escaped_append_inj (atMark_opening name) (atMark_opening name') same
  exact Prod.ext texts rests

/-- A separator belongs to a namespace; a name on its own has none where its
first text ends. -/
private theorem encoded_ne_encodedParts_cons (name : Name) (part : Text)
    (parts : List Text) (rest : Text) :
    encoded name ≠ encodedParts (part :: parts) ++ rest := by
  intro same
  rw [encoded_eq_opening name] at same
  simp only [encodedParts, List.flatMap_cons, List.append_assoc] at same
  have rests :=
    (escaped_append_inj (atMark_opening name) (atMark_separatorMark _) same).2
  cases name with
  | user text => cases rests
  | «scoped» namespaces name =>
      exact separatorMark_append_ne_namespaceMark _ _ rests.symm
  | machine index text =>
      exact separatorMark_append_ne_machineMark _ _ rests.symm

private theorem encodedParts_append_inj {parts parts' : List Text}
    {name name' : Name}
    (same : encodedParts parts ++ encoded name = encodedParts parts' ++
      encoded name') :
    parts = parts' ∧ encoded name = encoded name' := by
  induction parts generalizing parts' with
  | nil =>
      cases parts' with
      | nil => exact ⟨rfl, same⟩
      | cons part parts' =>
          exact (encoded_ne_encodedParts_cons _ _ _ _ same).elim
  | cons part parts ih =>
      cases parts' with
      | nil => exact (encoded_ne_encodedParts_cons _ _ _ _ same.symm).elim
      | cons part' parts' =>
          simp only [encodedParts, List.flatMap_cons, List.append_assoc] at same
          obtain ⟨rfl, rests⟩ :=
            escaped_append_inj (atMark_separatorMark _) (atMark_separatorMark _)
              same
          obtain ⟨rfl, names⟩ := ih (List.append_cancel_left rests)
          exact ⟨rfl, names⟩

theorem encoded_injective : Function.Injective encoded := by
  intro name
  induction name with
  | user text =>
      intro other same
      have openings := opening_eq_of_encoded_eq same
      cases other with
      | user text' => exact congrArg Name.user (congrArg Prod.fst openings)
      | «scoped» namespaces name => cases congrArg Prod.snd openings
      | machine index text' => cases congrArg Prod.snd openings
  | «scoped» namespaces name ih =>
      intro other same
      have rests := congrArg Prod.snd (opening_eq_of_encoded_eq same)
      cases other with
      | user text => cases rests
      | «scoped» namespaces' name' =>
          obtain ⟨rfl, names⟩ :=
            encodedParts_append_inj (List.append_cancel_left rests)
          exact congrArg (Name.scoped namespaces) (ih names)
      | machine index text =>
          exact (namespaceMark_append_ne_machineMark _ _ rests).elim
  | machine index text =>
      intro other same
      have rests := congrArg Prod.snd (opening_eq_of_encoded_eq same)
      cases other with
      | user text' => cases rests
      | «scoped» namespaces name =>
          exact (namespaceMark_append_ne_machineMark _ _ rests.symm).elim
      | machine index' text' =>
          obtain ⟨indices, tails⟩ := escaped_append_inj (atMark_separatorMark _)
            (atMark_separatorMark _) (List.append_cancel_left rests)
          have texts : escaped text ++ [] = escaped text' ++ [] := by
            simpa only [List.append_nil] using List.append_cancel_left tails
          rw [Text.ofInt_injective indices,
            (escaped_append_inj .finish .finish texts).1]

theorem mangled_injective : Function.Injective mangled := by
  intro left right same
  exact encoded_injective (List.append_cancel_left same)

/-- A text of letters alone. -/
def AllLetters (text : Text) : Prop :=
  ∀ c ∈ text, c.isLetter = true

theorem numbered_inj {letters letters' : Text} {m n : Nat}
    (allLetters : AllLetters letters) (allLetters' : AllLetters letters')
    (same : letters ++ Text.ofNat m = letters' ++ Text.ofNat n) :
    letters = letters' ∧ m = n := by
  obtain ⟨rows, numerals⟩ := Text.row_append_inj allLetters allLetters'
    (Text.stops_isLetter_ofNat m) (Text.stops_isLetter_ofNat n) same
  exact ⟨rows, Text.ofNat_injective numerals⟩

/-- The mark at the start of an encoded name holds an underscore. -/
theorem mangled_ne_numbered (name : Name) {letters : Text} (number : Nat)
    (allLetters : AllLetters letters) :
    mangled name ≠ letters ++ Text.ofNat number := by
  intro same
  have inMarker : CodePoint.ofChar '_' ∈ marker := by decide
  have member : CodePoint.ofChar '_' ∈ letters ++ Text.ofNat number := by
    rw [← same]
    exact List.mem_append_left _ inMarker
  rcases List.mem_append.mp member with inLetters | inNumeral
  · exact absurd (allLetters _ inLetters) (by decide)
  · exact absurd (Text.isDigit_of_mem_ofNat inNumeral) (by decide)

theorem allLetters_slotText : AllLetters slotText := by
  unfold AllLetters
  decide

theorem allLetters_temporaryText : AllLetters temporaryText := by
  unfold AllLetters
  decide

/-- What a readable text is: letters that are kept neither for slots nor for
temporaries. -/
@[simp] theorem isReadable_iff {text : Text} :
    isReadable text = true ↔
      text ≠ [] ∧ AllLetters text ∧ text ≠ slotText ∧ text ≠ temporaryText := by
  simp only [isReadable, AllLetters, Bool.and_eq_true, Bool.not_eq_true',
    List.isEmpty_eq_false_iff, List.all_eq_true, bne_iff_ne, and_assoc]

/-- The identifier of a name is readable or encoded. -/
theorem identifier_cases (name : Name) :
    (∃ index text, name = .machine (.ofNat index) text ∧
      isReadable text = true ∧ name.identifier = text ++ Text.ofNat index) ∨
    name.identifier = mangled name := by
  match name with
  | .user text => exact .inr rfl
  | .scoped namespaces name => exact .inr rfl
  | .machine (.negSucc index) text => exact .inr rfl
  | .machine (.ofNat index) text =>
      by_cases readable : isReadable text = true
      · exact .inl ⟨index, text, rfl, readable, if_pos readable⟩
      · exact .inr (if_neg readable)

theorem identifier_ne_numbered (name : Name) {letters : Text} (number : Nat)
    (allLetters : AllLetters letters)
    (reserved : letters = slotText ∨ letters = temporaryText) :
    name.identifier ≠ letters ++ Text.ofNat number := by
  intro same
  rcases identifier_cases name with ⟨index, text, rfl, readable, form⟩ | form
  · obtain ⟨-, textLetters, notSlot, notTemporary⟩ := isReadable_iff.mp readable
    rw [form] at same
    obtain ⟨rfl, -⟩ := numbered_inj textLetters allLetters same
    exact reserved.elim notSlot notTemporary
  · rw [form] at same
    exact mangled_ne_numbered name number allLetters same

theorem identifier_injective : Function.Injective identifier := by
  intro left right same
  rcases identifier_cases left with ⟨index, text, rfl, readable, form⟩ | form
  · have textLetters := (isReadable_iff.mp readable).2.1
    rw [form] at same
    rcases identifier_cases right with
      ⟨index', text', rfl, readable', form'⟩ | form'
    · rw [form'] at same
      obtain ⟨rfl, rfl⟩ :=
        numbered_inj textLetters (isReadable_iff.mp readable').2.1 same
      rfl
    · rw [form'] at same
      exact (mangled_ne_numbered right index textLetters same.symm).elim
  · rw [form] at same
    rcases identifier_cases right with
      ⟨index', text', rfl, readable', form'⟩ | form'
    · rw [form'] at same
      exact (mangled_ne_numbered left index' (isReadable_iff.mp readable').2.1
        same).elim
    · rw [form'] at same
      exact mangled_injective same

end Name

namespace Var

private theorem slotText_numbered_ne_temporaryText (m n : Nat) :
    Name.slotText ++ Text.ofNat m ≠ Name.temporaryText ++ Text.ofNat n := by
  intro same
  have texts :=
    (Name.numbered_inj Name.allLetters_slotText Name.allLetters_temporaryText
      same).1
  exact absurd texts (by decide)

/-- A slot and a name never share an identifier. -/
theorem identifier_slot_ne_identifier (index : Int) (name : Name) :
    (Var.slot index).identifier ≠ name.identifier := by
  intro same
  cases index with
  | ofNat index =>
      exact Name.identifier_ne_numbered name index Name.allLetters_slotText
        (.inl rfl) same.symm
  | negSucc index =>
      exact Name.identifier_ne_numbered name (index + 1)
        Name.allLetters_temporaryText (.inr rfl) same.symm

private theorem slot_identifier_injective {left right : Int}
    (same : (Var.slot left).identifier = (Var.slot right).identifier) :
    left = right := by
  match left, right with
  | .ofNat m, .ofNat n =>
      have numbers :=
        (Name.numbered_inj Name.allLetters_slotText Name.allLetters_slotText
          same).2
      exact congrArg Int.ofNat numbers
  | .ofNat m, .negSucc n =>
      exact (slotText_numbered_ne_temporaryText m (n + 1) same).elim
  | .negSucc m, .ofNat n =>
      exact (slotText_numbered_ne_temporaryText n (m + 1) same.symm).elim
  | .negSucc m, .negSucc n =>
      have numbers := (Name.numbered_inj Name.allLetters_temporaryText
        Name.allLetters_temporaryText same).2
      exact congrArg Int.negSucc (Nat.succ.inj numbers)

theorem identifier_injective : Function.Injective identifier := by
  intro left right same
  match left, right with
  | .slot m, .slot n => exact congrArg Var.slot (slot_identifier_injective same)
  | .slot m, .named name =>
      exact (identifier_slot_ne_identifier m name same).elim
  | .named name, .slot n =>
      exact (identifier_slot_ne_identifier n name same.symm).elim
  | .named name, .named name' =>
      exact congrArg Var.named (Name.identifier_injective same)

end Var

/-- No two names are encoded alike and no two variables share an identifier.  In
particular a named variable is never taken for a slot or a temporary. -/
theorem identifiers_unambiguous :
    Function.Injective Name.mangled ∧
    Function.Injective Var.identifier ∧
    ∀ (name : Name) (number : Nat),
      (Var.named name).identifier ≠ Name.slotText ++ Text.ofNat number ∧
      (Var.named name).identifier ≠ Name.temporaryText ++
        Text.ofNat number := by
  refine ⟨Name.mangled_injective, Var.identifier_injective, ?_⟩
  intro name number
  exact ⟨Name.identifier_ne_numbered name number Name.allLetters_slotText
    (.inl rfl),
    Name.identifier_ne_numbered name number Name.allLetters_temporaryText
      (.inr rfl)⟩

end TailLoop
