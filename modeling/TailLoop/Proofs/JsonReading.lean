import Mathlib.Data.List.TakeWhile
import TailLoop.Json.Reader

/-!
# What is read of a document

Reading takes a beginning off a text: what is left is an end of it.  So an
integer that is too long to be converted stands in the text, as a row of digits,
and every integer in a document that was read is short.
-/

namespace TailLoop.Json

/-- The text holds a row of so many digits, which are more than are
converted. -/
def LongRow (count : Nat) (text : Text) : Prop :=
  digitLimit < count ∧
    ∃ row : Text, row.length = count ∧ (∀ c ∈ row, c.isDigit = true) ∧
    row <:+: text

theorem LongRow.of_suffix {count : Nat} {text rest : Text}
    (long : LongRow count rest) (ending : rest <:+ text) :
    LongRow count text := by
  obtain ⟨above, row, rowLength, digits, within⟩ := long
  exact ⟨above, row, rowLength, digits, within.trans ending.isInfix⟩

/-- Reading stops at an integer only if it is too long. -/
def Stop.Justified (text : Text) : Stop → Prop
  | .malformed _ _ => True
  | .digitLimit count => LongRow count text

theorem Stop.Justified.of_suffix {stop : Stop} {text rest : Text}
    (justified : stop.Justified rest) (ending : rest <:+ text) :
    stop.Justified text := by
  cases stop with
  | malformed cause left => trivial
  | digitLimit count => exact LongRow.of_suffix justified ending

/-- The integer stands somewhere in the document. -/
inductive HoldsInt (n : Int) : Json → Prop where
  | here : HoldsInt n (.int n)
  | item {items : List Json} {item : Json} :
      item ∈ items → HoldsInt n item → HoldsInt n (.arr items)
  | member {members : List (Text × Json)} {name : Text} {value : Json} :
      find? name members = some value → HoldsInt n value →
      HoldsInt n (.obj members)

/-- No integer has more digits than are converted. -/
def IsShort (json : Json) : Prop :=
  ∀ n, json.HoldsInt n → n.natAbs < Nat.pow 10 digitLimit

theorem isShort_arr {items : List Json}
    (short : ∀ item ∈ items, item.IsShort) :
    (arr items).IsShort := by
  rintro n (_ | ⟨member, holds⟩)
  exact short _ member n holds

/-- The members of an object are short. -/
def AreShort (members : List (Text × Json)) : Prop :=
  ∀ name value, find? name members = some value → value.IsShort

@[simp] theorem areShort_nil : AreShort [] := by
  rintro name value ⟨⟩

theorem isShort_obj {members : List (Text × Json)}
    (short : AreShort members) :
    (obj members).IsShort := by
  intro n holds
  cases holds with
  | member found inside => exact short _ _ found n inside

@[simp] theorem find?_insert (asked name : Text) (value : Json)
    (members : List (Text × Json)) :
    find? asked (insert name value members) =
      if name = asked then some value else find? asked members := by
  induction members with
  | nil => rfl
  | cons member members ih =>
      obtain ⟨other, old⟩ := member
      rw [insert]
      split
      · rename_i same
        rw [find?, find?, same]
        split <;> rfl
      · rename_i different
        rw [find?, find?, ih]
        split
        · rename_i same
          rw [if_neg fun equal => different (same.trans equal.symm)]
        · rfl

theorem AreShort.insert {members : List (Text × Json)}
    (short : AreShort members) {name : Text} {value : Json}
    (isShort : value.IsShort) :
    AreShort (insert name value members) := by
  intro asked found read
  rw [find?_insert] at read
  split at read
  · cases read
    exact isShort
  · exact short asked found read

/-- What is left after reading is an end of the text and what was read is good,
or a stop is justified. -/
def Reads {α : Type} (left : α → Text) (good : α → Prop) (text : Text) :
    Except Stop α → Prop
  | .ok value => left value <:+ text ∧ good value
  | .error stop => stop.Justified text

section Reads

variable {α : Type} {left : α → Text} {good : α → Prop} {text : Text}
  {result : Except Stop α}

theorem Reads.of_suffix {rest : Text} (reads : Reads left good rest result)
    (ending : rest <:+ text) : Reads left good text result := by
  cases result with
  | ok value => exact ⟨reads.1.trans ending, reads.2⟩
  | error stop => exact Stop.Justified.of_suffix reads ending

theorem Reads.stop {stop : Stop} (reads : Reads left good text result)
    (failed : result = .error stop) : stop.Justified text := by
  rw [failed] at reads
  exact reads

theorem Reads.value {value : α} (reads : Reads left good text result)
    (read : result = .ok value) : left value <:+ text ∧ good value := by
  rw [read] at reads
  exact reads

end Reads

theorem skipBlanks_suffix (text : Text) : skipBlanks text <:+ text :=
  List.dropWhile_suffix _

/-- What comes after the first code point that is no blank. -/
theorem suffix_of_skipBlanks {text rest : Text} {c : CodePoint}
    (blank : skipBlanks text = c :: rest) : rest <:+ text :=
  (List.suffix_cons c rest).trans (blank ▸ skipBlanks_suffix text)

theorem length_lt_of_blank {text rest : Text} {c : CodePoint}
    (blank : skipBlanks text = c :: rest) : rest.length < text.length := by
  have := length_skipBlanks_le text
  rw [blank, List.length_cons] at this
  exact this

theorem fourDigits?_suffix {text rest : Text} {value : Nat}
    (read : fourDigits? text = some (value, rest)) : rest <:+ text := by
  unfold fourDigits? at read
  split at read
  · rename_i a b c d after
    split at read
    · cases read
    · simp only [Option.bind_eq_bind, Option.bind_eq_some_iff,
        Option.some.injEq, Prod.mk.injEq] at read
      obtain ⟨_, _, _, _, _, _, _, _, _, rfl⟩ := read
      exact ⟨[a, b, c, d], rfl⟩
  · cases read

theorem lowSurrogate?_suffix {text rest : Text} {low : CodePoint}
    (read : lowSurrogate? text = some (low, rest)) : rest <:+ text := by
  unfold lowSurrogate? at read
  split at read
  · rename_i backslash u after
    split at read
    · split at read
      · rename_i four
        split at read
        · cases read
          exact (fourDigits?_suffix four).trans ⟨[backslash, u], rfl⟩
        · cases read
      · cases read
    · cases read
  · cases read

theorem readEscape_reads (opening : Nat) (text : Text) :
    Reads Prod.snd (fun _ => True) text (readEscape opening text) := by
  unfold readEscape
  split
  · trivial
  · rename_i e after
    refine Reads.of_suffix ?_ (List.suffix_cons e after)
    split
    · split
      · trivial
      · rename_i four
        have unit := fourDigits?_suffix four
        dsimp only
        split
        · split
          · rename_i pair
            exact ⟨(lowSurrogate?_suffix pair).trans unit, trivial⟩
          · exact ⟨unit, trivial⟩
        · exact ⟨unit, trivial⟩
    · split
      · exact ⟨List.suffix_rfl, trivial⟩
      · trivial

theorem readString_reads (opening : Nat) (done text : Text) :
    Reads Prod.snd (fun _ => True) text (readString opening done text) := by
  fun_induction readString opening done text with
  | case1 done => trivial
  | case2 done rest => exact ⟨List.suffix_cons _ rest, trivial⟩
  | case3 done c rest => trivial
  | case4 done rest stop escape _ _ =>
      exact ((readEscape_reads opening rest).stop escape).of_suffix
        (List.suffix_cons _ rest)
  | case5 done rest point after escape _ _ _ ih =>
      have ending := ((readEscape_reads opening rest).value escape).1
      exact ih.of_suffix (ending.trans (List.suffix_cons _ rest))
  | case6 done c rest _ _ _ ih => exact ih.of_suffix (List.suffix_cons c rest)

theorem digits?_eq {text digits rest : Text}
    (read : digits? text = some (digits, rest)) :
    text = digits ++ rest ∧ ∀ c ∈ digits, c.isDigit = true := by
  unfold digits? at read
  dsimp only at read
  split at read
  · cases read
  · cases read
    refine ⟨List.takeWhile_append_dropWhile.symm, fun c member => ?_⟩
    exact List.mem_takeWhile_imp member

theorem digits?_suffix {text digits rest : Text}
    (read : digits? text = some (digits, rest)) : rest <:+ text :=
  ⟨digits, (digits?_eq read).1.symm⟩

theorem readSign_suffix (text : Text) : (readSign text).2 <:+ text := by
  unfold readSign
  split
  · split
    · exact List.suffix_cons _ _
    · exact List.suffix_rfl
  · exact List.suffix_rfl

theorem readWhole?_eq {text whole rest : Text}
    (read : readWhole? text = some (whole, rest)) :
    text = whole ++ rest ∧ ∀ c ∈ whole, c.isDigit = true := by
  unfold readWhole? at read
  split at read
  · split at read
    · rename_i zero
      cases read
      refine ⟨rfl, List.forall_mem_singleton.mpr ?_⟩
      rw [zero]
      decide
    · exact digits?_eq read
  · cases read

theorem readFraction_suffix (text : Text) : (readFraction text).2 <:+ text := by
  unfold readFraction
  split
  · split
    · split
      · rename_i digits
        exact (digits?_suffix digits).trans (List.suffix_cons _ _)
      · exact List.suffix_rfl
    · exact List.suffix_rfl
  · exact List.suffix_rfl

theorem readExponentSign_suffix (text : Text) :
    (readExponentSign text).2 <:+ text := by
  unfold readExponentSign
  split
  · split
    · exact List.suffix_cons _ _
    · split
      · exact List.suffix_cons _ _
      · exact List.suffix_rfl
  · exact List.suffix_rfl

theorem readExponent_suffix (text : Text) : (readExponent text).2 <:+ text := by
  unfold readExponent
  split
  · rename_i c rest
    split
    · dsimp only
      split
      · rename_i digits
        exact ((digits?_suffix digits).trans
          (readExponentSign_suffix rest)).trans (List.suffix_cons c rest)
      · exact List.suffix_rfl
    · exact List.suffix_rfl
  · exact List.suffix_rfl

theorem readNumeral?_eq {text rest : Text} {numeral : Numeral}
    (read : readNumeral? text = some (numeral, rest)) :
    numeral.whole <:+: text ∧ (∀ c ∈ numeral.whole, c.isDigit = true) ∧
    rest <:+ text := by
  unfold readNumeral? at read
  dsimp only at read
  split at read
  · cases read
  · rename_i whole after found
    obtain ⟨split, digits⟩ := readWhole?_eq found
    have signed := readSign_suffix text
    rw [split] at signed
    cases read
    refine ⟨?_, digits, ?_⟩
    · exact (List.prefix_append whole after).isInfix.trans signed.isInfix
    · have tail := (readExponent_suffix _).trans (readFraction_suffix after)
      exact tail.trans ((List.suffix_append whole after).trans signed)

/-- Only an integer stops the reading of a number, if it is too long. -/
theorem Numeral.value_eq_error {numeral : Numeral} {stop : Stop}
    (failed : numeral.value = .error stop) :
    digitLimit < numeral.whole.length ∧
    stop = .digitLimit numeral.whole.length := by
  unfold Numeral.value at failed
  split at failed
  · split at failed
    · rename_i long
      cases failed
      exact ⟨long, rfl⟩
    · cases failed
  · cases failed

theorem digitValue?_lt {c : CodePoint} (digit : c.isDigit = true) :
    c.digitValue?.getD 0 < 10 := by
  rw [CodePoint.digitValue?, if_pos digit, Option.getD_some]
  have last := of_decide_eq_true (Bool.and_eq_true_iff.mp digit).2
  have nine : '9'.toNat = '0'.toNat + 9 := rfl
  omega

theorem foldl_digits_lt {digits : Text}
    (areDigits : ∀ c ∈ digits, c.isDigit = true) (value place : Nat)
    (small : value < Nat.pow 10 place) :
    digits.foldl (fun value c => 10 * value + (c.digitValue?.getD 0)) value <
      Nat.pow 10 (place + digits.length) := by
  induction digits generalizing value place with
  | nil => exact small
  | cons c digits ih =>
      obtain ⟨own, others⟩ := List.forall_mem_cons.mp areDigits
      have digit := digitValue?_lt own
      have grown : Nat.pow 10 (place + 1) = Nat.pow 10 place * 10 := rfl
      have next : 10 * value + c.digitValue?.getD 0 <
          Nat.pow 10 (place + 1) := by
        omega
      have whole := ih others _ _ next
      rw [Nat.add_right_comm, Nat.add_assoc] at whole
      exact whole

/-- A row of digits denotes a number of as many digits. -/
theorem toNat_lt_pow {digits : Text} {limit : Nat}
    (areDigits : ∀ c ∈ digits, c.isDigit = true)
    (few : digits.length ≤ limit) :
    Text.toNat 10 digits < Nat.pow 10 limit := by
  have whole := foldl_digits_lt areDigits 0 0 Nat.one_pos
  rw [Nat.zero_add] at whole
  exact Nat.lt_of_lt_of_le whole (Nat.pow_le_pow_right (Nat.succ_pos 9) few)

/-- A numeral that is converted is short. -/
theorem Numeral.value_eq_ok {numeral : Numeral} {value : Json}
    (areDigits : ∀ c ∈ numeral.whole, c.isDigit = true)
    (read : numeral.value = .ok value) : value.IsShort := by
  intro n holds
  unfold Numeral.value at read
  split at read
  · split at read
    · cases read
    · rename_i short
      cases read
      cases holds
      have small := toNat_lt_pow areDigits (Nat.le_of_not_lt short)
      split
      · rw [Int.natAbs_neg]
        exact small
      · exact small
  · cases read
    cases holds

theorem after?_eq {beginning text rest : Text}
    (read : Text.after? beginning text = some rest) :
    text = beginning ++ rest := by
  induction beginning generalizing text with
  | nil => cases read; rfl
  | cons b beginning ih =>
      cases text with
      | nil => cases read
      | cons c text =>
          rw [Text.after?] at read
          split at read
          · rename_i same
            rw [ih read, same]
            rfl
          · cases read

theorem isShort_of_mem_words {word : Text} {value : Json}
    (member : (word, value) ∈ words) : value.IsShort := by
  intro n holds
  simp only [words, List.mem_cons, Prod.mk.injEq, List.not_mem_nil, or_false]
    at member
  rcases member with ⟨-, rfl⟩ | ⟨-, rfl⟩ | ⟨-, rfl⟩ | ⟨-, rfl⟩ | ⟨-, rfl⟩ | ⟨-,
    rfl⟩ <;>
    cases holds

theorem readWord?_eq {text rest : Text} {value : Json}
    (read : readWord? text = some (value, rest)) :
    rest <:+ text ∧ value.IsShort := by
  obtain ⟨⟨word, _⟩, member, found⟩ := List.exists_of_findSome?_eq_some read
  obtain ⟨_, after, same⟩ := Option.map_eq_some_iff.mp found
  cases same
  exact ⟨⟨word, (after?_eq after).symm⟩, isShort_of_mem_words member⟩

theorem readNumber_reads {text rest : Text} {numeral : Numeral} {stop : Stop}
    (read : readNumeral? text = some (numeral, rest))
    (failed : numeral.value = .error stop) :
    stop.Justified text := by
  obtain ⟨within, digits, -⟩ := readNumeral?_eq read
  obtain ⟨long, rfl⟩ := Numeral.value_eq_error failed
  exact ⟨long, numeral.whole, rfl, digits, within⟩

/-- What is left after a value, its proof of being shorter put aside. -/
def leftOf {α : Type} {text : Text} (read : α × Text.Shorter text) : Text :=
  read.2.1

mutual

theorem readValue_reads (text : Text) :
    Reads leftOf (fun read => read.1.IsShort) text (readValue text) := by
  rw [readValue.eq_def]
  cases text with
  | nil => trivial
  | cons c rest =>
      have inside := List.suffix_cons c rest
      dsimp only
      split
      · have string :=
          (readString_reads (rest.length + 1) [] rest).of_suffix inside
        split
        · exact string.stop ‹_›
        · refine ⟨(string.value ‹_›).1, ?_⟩
          rintro n ⟨⟩
      split
      · split
        · trivial
        · rename_i d after blank
          have shorter := length_lt_of_blank blank
          have start : d :: after <:+ c :: rest :=
            (blank ▸ skipBlanks_suffix rest).trans inside
          split
          · exact ⟨(List.suffix_cons d after).trans start,
              isShort_arr (List.forall_mem_nil _)⟩
          · have items := (readItems_reads (d :: after)).of_suffix start
            split
            · exact items.stop ‹_›
            · exact (items.value ‹_›).imp_right isShort_arr
      split
      · split
        · trivial
        · rename_i d after blank
          have shorter := length_lt_of_blank blank
          have start : d :: after <:+ c :: rest :=
            (blank ▸ skipBlanks_suffix rest).trans inside
          split
          · exact ⟨(List.suffix_cons d after).trans start,
              isShort_obj areShort_nil⟩
          · have members :=
              (readMembers_reads [] areShort_nil (d :: after)).of_suffix start
            split
            · exact members.stop ‹_›
            · exact (members.value ‹_›).imp_right isShort_obj
      · split
        · rename_i word
          exact readWord?_eq word
        · split
          · rename_i number
            obtain ⟨-, areDigits, ending⟩ := readNumeral?_eq number
            split
            · exact readNumber_reads number ‹_›
            · exact ⟨ending, Numeral.value_eq_ok areDigits ‹_›⟩
          · trivial
termination_by (text.length, 0)
decreasing_by all_goals (simp_wf; omega)

theorem readItems_reads (text : Text) :
    Reads leftOf (fun read => ∀ item ∈ read.1, item.IsShort) text
      (readItems text) := by
  rw [readItems.eq_def]
  have item := readValue_reads text
  split
  · exact item.stop ‹_›
  · rename_i value rest shorter read
    split
    · trivial
    · rename_i c after blank
      obtain ⟨valueEnding, valueShort⟩ := item.value read
      have ending := (suffix_of_skipBlanks blank).trans valueEnding
      have shorter' := length_lt_of_blank blank
      have blanks := length_skipBlanks_le after
      dsimp only
      split
      · exact ⟨ending, List.forall_mem_singleton.mpr valueShort⟩
      split
      · have items := (readItems_reads (skipBlanks after)).of_suffix
          ((skipBlanks_suffix after).trans ending)
        split
        · exact items.stop ‹_›
        · obtain ⟨itemsEnding, itemsShort⟩ := items.value ‹_›
          exact ⟨itemsEnding, List.forall_mem_cons.mpr ⟨valueShort, itemsShort⟩⟩
      · trivial
termination_by (text.length, 1)
decreasing_by all_goals omega

theorem readMembers_reads (done : List (Text × Json))
    (doneShort : AreShort done) (text : Text) :
    Reads leftOf (fun read => AreShort read.1) text
      (readMembers done text) := by
  rw [readMembers.eq_def]
  cases text with
  | nil => trivial
  | cons quote inside =>
      have string := (readString_reads (inside.length + 1) [] inside).of_suffix
        (List.suffix_cons quote inside)
      dsimp only
      split
      · trivial
      split
      · exact string.stop ‹_›
      · rename_i name rest read
        have named := length_readString read
        split
        · trivial
        · rename_i c rest' colon
          have shorter := length_lt_of_blank colon
          have blanks := length_skipBlanks_le rest'
          split
          · trivial
          have value := (readValue_reads (skipBlanks rest')).of_suffix
            ((skipBlanks_suffix rest').trans
              ((suffix_of_skipBlanks colon).trans (string.value read).1))
          split
          · exact value.stop ‹_›
          · rename_i item after shorter' readItem
            split
            · trivial
            · rename_i d further blank
              obtain ⟨itemEnding, itemShort⟩ := value.value readItem
              have ending := (suffix_of_skipBlanks blank).trans itemEnding
              have membersShort : AreShort (insert name item done) :=
                doneShort.insert itemShort
              have shorter'' := length_lt_of_blank blank
              have blanks' := length_skipBlanks_le further
              split
              · exact ⟨ending, membersShort⟩
              split
              · have members := (readMembers_reads _ membersShort
                  (skipBlanks further)).of_suffix
                    ((skipBlanks_suffix further).trans ending)
                split
                · exact members.stop ‹_›
                · exact members.value ‹_›
              · trivial
termination_by (text.length, 1)
decreasing_by all_goals (simp_wf; omega)

end

/-- A text is read, or it is malformed, or it holds an integer that is too
long. -/
theorem readDocument_justified {text : Text} {stop : Stop}
    (failed : readDocument text = .error stop) : stop.Justified text := by
  unfold readDocument at failed
  have value :=
    (readValue_reads (skipBlanks text)).of_suffix (skipBlanks_suffix text)
  split at failed
  · cases failed
    trivial
  · split at failed
    · cases failed
      exact value.stop ‹_›
    · dsimp only at failed
      split at failed
      · cases failed
      · cases failed
        trivial

theorem isShort_of_read {text : Text} {value : Json}
    (read : Json.read text = .ok value) : value.IsShort := by
  unfold Json.read readDocument at read
  have reads := readValue_reads (skipBlanks text)
  split at read
  · rename_i document
    cases read
    split at document
    · cases document
    · split at document
      · cases document
      · rename_i whole
        dsimp only at document
        split at document
        · cases document
          exact (reads.value whole).2
        · cases document
  · cases read
  · cases read

theorem longRow_of_read {text : Text} {count : Nat}
    (failed : read text = .error (.digitLimit count)) : LongRow count text := by
  unfold read at failed
  split at failed
  · cases failed
  · cases failed
  · rename_i stopped
    cases failed
    exact readDocument_justified stopped

theorem ne_of_isDigit {c d : CodePoint} (digit : c.isDigit = true)
    (other : d.isDigit = false) : c ≠ d := by
  rintro rfl
  exact Bool.false_ne_true (other.symm.trans digit)

theorem readWord?_of_isDigit {c : CodePoint} (digit : c.isDigit = true)
    (rest : Text) :
    readWord? (c :: rest) = none := by
  have misses {d : CodePoint} {ending : Text} (other : d.isDigit = false) :
      Text.after? (d :: ending) (c :: rest) = none :=
    if_neg (ne_of_isDigit digit other).symm
  refine List.findSome?_eq_none_iff.mpr fun entry member =>
    Option.map_eq_none_iff.mpr ?_
  simp only [words, List.mem_cons, List.not_mem_nil, or_false] at member
  rcases member with rfl | rfl | rfl | rfl | rfl | rfl <;>
    exact misses (by decide)

theorem readNumeral?_of_isDigit {c : CodePoint} {rest : Text}
    (row : ∀ d ∈ c :: rest, d.isDigit = true) (nonzero : c ≠ '0') :
    readNumeral? (c :: rest) = some (⟨false, c :: rest, none, none⟩, []) := by
  have unsigned : readSign (c :: rest) = (false, c :: rest) :=
    if_neg (ne_of_isDigit (row c List.mem_cons_self) (by decide))
  have whole : readWhole? (c :: rest) = some (c :: rest, []) := by
    rw [readWhole?, if_neg nonzero, digits?, List.takeWhile_eq_self_iff.mpr row,
      List.dropWhile_eq_nil_iff.mpr row]
    rfl
  rw [readNumeral?, unsigned]
  dsimp only
  rw [whole]
  rfl

theorem readValue_of_isDigit {c : CodePoint} {rest : Text}
    (row : ∀ d ∈ c :: rest, d.isDigit = true) (nonzero : c ≠ '0')
    (long : digitLimit < (c :: rest).length) :
    readValue (c :: rest) = .error (.digitLimit (c :: rest).length) := by
  have digit := row c List.mem_cons_self
  have other {d : CodePoint} (outside : d.isDigit = false) :
      c ≠ d := ne_of_isDigit digit outside
  rw [readValue, if_neg (other (by decide)), if_neg (other (by decide)),
    if_neg (other (by decide))]
  split
  · rename_i word
    rw [readWord?_of_isDigit digit] at word
    cases word
  · have tooLong : Numeral.value ⟨false, c :: rest, none, none⟩ =
        .error (.digitLimit (c :: rest).length) :=
      if_pos long
    split
    · rename_i number
      rw [readNumeral?_of_isDigit row nonzero] at number
      cases number
      rw [tooLong]
    · rename_i number
      rw [readNumeral?_of_isDigit row nonzero] at number
      cases number

/-- A text that is one integer, if it is too long. -/
theorem read_of_isDigit {c : CodePoint} {rest : Text}
    (row : ∀ d ∈ c :: rest, d.isDigit = true) (nonzero : c ≠ '0')
    (long : digitLimit < (c :: rest).length) :
    read (c :: rest) = .error (.digitLimit (c :: rest).length) := by
  have other {d : CodePoint} (outside : d.isDigit = false) : c ≠ d :=
    ne_of_isDigit (row c List.mem_cons_self) outside
  have visible : skipBlanks (c :: rest) = c :: rest := by
    refine List.dropWhile_cons_of_neg ?_
    simp only [isBlank, Bool.or_eq_true, beq_iff_eq, not_or]
    exact ⟨⟨⟨other (by decide), other (by decide)⟩, other (by decide)⟩,
      other (by decide)⟩
  have value : readValue (skipBlanks (c :: rest)) =
      .error (.digitLimit (c :: rest).length) := by
    rw [visible]
    exact readValue_of_isDigit row nonzero long
  have unmarked : (c :: rest).head? ≠ some byteOrderMark := by
    rw [List.head?_cons, ne_eq, Option.some.injEq]
    exact other (by decide)
  rw [read, readDocument, if_neg unmarked, value]

end TailLoop.Json
