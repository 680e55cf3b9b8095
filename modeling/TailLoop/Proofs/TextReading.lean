import Mathlib.Data.List.Basic
import TailLoop.Text.Basic

/-!
# Reading texts from the left

A row of code points of one class ends where the first code point of another
class stands.  Two texts that start with such rows therefore agree only if their
rows and their rests do.  Decimal numerals are rows of digits, and a number has
only one numeral.
-/

namespace TailLoop

namespace CodePoint

theorem ofChar_injective : Function.Injective ofChar := by
  intro left right same
  have values : left.toNat = right.toNat := congrArg CodePoint.val same
  exact Char.toNat_inj.mp values

theorem isDigit_ofChar {c : Char} (digit : c.isDigit = true) :
    (ofChar c).isDigit = true := by
  simp only [Char.isDigit, Bool.and_eq_true, decide_eq_true_eq] at digit
  obtain ⟨low, high⟩ := digit
  have low : '0'.toNat ≤ c.toNat := UInt32.le_iff_toNat_le.mp low
  have high : c.toNat ≤ '9'.toNat := UInt32.le_iff_toNat_le.mp high
  simp only [isDigit, isBetween, ofChar, low, high, decide_true, Bool.and_self]

theorem isLetter_eq_false_of_isDigit {c : CodePoint}
    (digit : c.isDigit = true) :
    c.isLetter = false := by
  simp only [isDigit, isBetween, Bool.and_eq_true, decide_eq_true_eq] at digit
  simp only [isLetter, isBetween, Bool.or_eq_false_iff, Bool.and_eq_false_iff,
    decide_eq_false_iff_not]
  have nine : '9'.toNat < 'A'.toNat := by decide
  have nine' : '9'.toNat < 'a'.toNat := by decide
  omega

end CodePoint

namespace Text

/-- The text does not go on with a code point of the class. -/
def Stops (belongs : CodePoint → Bool) (rest : Text) : Prop :=
  ∀ c tail, rest = c :: tail → belongs c = false

theorem stops_cons {belongs : CodePoint → Bool} {c : CodePoint} {rest : Text}
    (outside : belongs c = false) : Stops belongs (c :: rest) := by
  intro first tail same
  cases same
  exact outside

/-- The row of a class at the start of a text is determined by the text. -/
theorem row_append_inj {belongs : CodePoint → Bool} {row row' rest rest' : Text}
    (inRow : ∀ c ∈ row, belongs c = true)
    (inRow' : ∀ c ∈ row', belongs c = true) (stops : Stops belongs rest)
    (stops' : Stops belongs rest') (same : row ++ rest = row' ++ rest') :
    row = row' ∧ rest = rest' := by
  induction row generalizing row' with
  | nil =>
      cases row' with
      | nil => exact ⟨rfl, same⟩
      | cons c row' =>
          have outside := stops c (row' ++ rest') same
          have inside := inRow' c List.mem_cons_self
          simp [outside] at inside
  | cons b row ih =>
      cases row' with
      | nil =>
          have outside := stops' b (row ++ rest) same.symm
          have inside := inRow b List.mem_cons_self
          simp [outside] at inside
      | cons c row' =>
          simp only [List.cons_append, List.cons.injEq] at same
          obtain ⟨rfl, same⟩ := same
          have tails :=
            ih (fun c member => inRow c (List.mem_cons_of_mem _ member))
              (fun c member => inRow' c (List.mem_cons_of_mem _ member)) same
          exact ⟨by rw [tails.1], tails.2⟩

section

variable {belongs : CodePoint → Bool} {row rest : Text}

theorem takeWhile_row (inRow : ∀ c ∈ row, belongs c = true)
    (stops : Stops belongs rest) :
    (row ++ rest).takeWhile belongs = row := by
  have nothing : rest.takeWhile belongs = [] := by
    cases rest with
    | nil => rfl
    | cons c rest =>
        rw [List.takeWhile_cons, stops c rest rfl, if_neg Bool.false_ne_true]
  rw [List.takeWhile_append_of_pos inRow, nothing, List.append_nil]

theorem dropWhile_row (inRow : ∀ c ∈ row, belongs c = true)
    (stops : Stops belongs rest) :
    (row ++ rest).dropWhile belongs = rest := by
  rw [List.dropWhile_append_of_pos inRow]
  cases rest with
  | nil => rfl
  | cons c rest =>
      rw [List.dropWhile_cons, stops c rest rfl, if_neg Bool.false_ne_true]

end

/-- Each part but the first has a separator in front of it. -/
@[simp] theorem join_cons (separator part : Text) (parts : List Text) :
    join separator (part :: parts) = part ++
      parts.flatMap (separator ++ ·) := by
  rw [join]
  induction parts generalizing part with
  | nil => rw [List.intercalate_singleton, List.flatMap_nil, List.append_nil]
  | cons next parts ih =>
      rw [List.intercalate_cons_cons, ih, List.flatMap_cons, List.append_assoc,
        List.append_assoc]

theorem isDigit_of_mem_ofNat {c : CodePoint} {n : Nat} (member : c ∈ ofNat n) :
    c.isDigit = true := by
  obtain ⟨digit, digitMember, rfl⟩ := List.mem_map.mp member
  exact CodePoint.isDigit_ofChar
    (Nat.isDigit_of_mem_toDigits (by decide) (by decide) digitMember)

theorem ofNat_ne_nil (n : Nat) : ofNat n ≠ [] := by
  intro empty
  exact Nat.toDigits_ne_nil (List.map_eq_nil_iff.mp empty)

theorem ofNat_injective : Function.Injective ofNat := by
  intro left right same
  have digits : Nat.toDigits 10 left = Nat.toDigits 10 right :=
    List.map_injective_iff.mpr CodePoint.ofChar_injective same
  have read := congrArg (fun row => Nat.ofDigitChars 10 row 0) digits
  simpa only [Nat.ofDigitChars_ten_toDigits] using read

/-- A numeral starts with a digit, so it ends every row of letters before it. -/
theorem stops_isLetter_ofNat (n : Nat) :
    Stops CodePoint.isLetter (ofNat n) := by
  intro c tail same
  have member : c ∈ ofNat n := by
    rw [same]
    exact List.mem_cons_self
  exact CodePoint.isLetter_eq_false_of_isDigit (isDigit_of_mem_ofNat member)

theorem ofNat_append_inj {m n : Nat} {rest rest' : Text}
    (stops : Stops CodePoint.isDigit rest)
    (stops' : Stops CodePoint.isDigit rest')
    (same : ofNat m ++ rest = ofNat n ++ rest') : m = n ∧ rest = rest' := by
  have parts := row_append_inj (fun _ => isDigit_of_mem_ofNat)
    (fun _ => isDigit_of_mem_ofNat) stops stops' same
  exact ⟨ofNat_injective parts.1, parts.2⟩

theorem ofInt_injective : Function.Injective ofInt := by
  have minus : (CodePoint.ofChar '-').isDigit = false := by decide
  have unsigned : ∀ m n : Nat, ofNat m ≠ CodePoint.ofChar '-' :: ofNat n := by
    intro m n same
    have member : CodePoint.ofChar '-' ∈ ofNat m := by
      rw [same]
      exact List.mem_cons_self
    simp [isDigit_of_mem_ofNat member] at minus
  intro left right same
  match left, right with
  | .ofNat m, .ofNat n => exact congrArg Int.ofNat (ofNat_injective same)
  | .ofNat m, .negSucc n => exact (unsigned m (n + 1) same).elim
  | .negSucc m, .ofNat n => exact (unsigned n (m + 1) same.symm).elim
  | .negSucc m, .negSucc n =>
      have successors := ofNat_injective (List.cons.inj same).2
      exact congrArg Int.negSucc (Nat.succ.inj successors)

end Text

end TailLoop
