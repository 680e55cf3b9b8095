import TailLoop.Proofs.DecodeOutcomes

/-!
# What comes of loading

A text is a program, or an error tells what is wrong with it and names its file.
Two kinds of texts are neither: those with an integer too long to be converted,
and those that give an integer out of range for a binary64 constant.
-/

namespace TailLoop

/-- The one error that tells of a fault in a file. -/
def LoadFault.report (file code : Text) (fault : LoadFault) : Diagnostic :=
  ⟨.error, code, fault.message, some file, []⟩

/-- What may come of loading a text from a file: a program; an error for a text
that is no document, or for a document that is no program; or a fault that no
error tells of. -/
inductive LoadOutcome (file text : Text) : Except LoadFault Program → Prop where
  | loaded (program : Program) : LoadOutcome file text (.ok program)
  | noDocument {fault : LoadFault} :
      Json.load text = .error fault →
      fault.diagnostic? file = some (fault.report file "E001") →
      LoadOutcome file text (.error fault)
  | noProgram {document : Json} {fault : LoadFault} {code : Text} :
      Json.load text = .ok document → code = "E002" ∨ code = "E003" →
      fault.diagnostic? file = some (fault.report file code) →
      LoadOutcome file text (.error fault)
  | tooLong {count : Nat} :
      Json.LongRow count text →
      LoadOutcome file text (.error (.digitLimit count))
  | tooLarge {document : Json} :
      Json.load text = .ok document → document.HoldsWide →
      LoadOutcome file text (.error (.illFormed .floatRange))

theorem longRow_of_load {text : Text} {count : Nat}
    (failed : Json.load text = .error (.digitLimit count)) :
    Json.LongRow count text := by
  unfold Json.load at failed
  split at failed
  · cases failed
  · cases failed
  · rename_i stopped
    cases failed
    exact Json.longRow_of_read stopped

theorem Json.isShort_of_load {text : Text} {document : Json}
    (read : Json.load text = .ok document) : document.IsShort := by
  unfold Json.load at read
  split at read
  · rename_i whole
    cases read
    exact isShort_of_read whole
  · cases read
  · cases read

/-- A document cannot be ill-formed before it is read. -/
theorem load_ne_illFormed {text : Text} {fault : Decode.Fault} :
    Json.load text ≠ .error (.illFormed fault) := by
  intro failed
  unfold Json.load at failed
  split at failed <;> cases failed

/-- Loading a text gives a program or is reported by one error that names the
file and tells what is wrong; but for an integer of more digits than are
converted, and for a binary64 constant given as an integer out of range. -/
theorem loading_reports_faults (file text : Text) :
    LoadOutcome file text (Program.load text) := by
  unfold Program.load
  split
  · rename_i fault failed
    cases fault with
    | malformed cause line column => exact .noDocument failed rfl
    | illFormed fault => exact (load_ne_illFormed failed).elim
    | digitLimit count => exact .tooLong (longRow_of_load failed)
  · rename_i document read
    cases decoded : Decode.program document with
    | ok program => exact .loaded program
    | error fault =>
        have reported {code : Text} (coded : fault.code? = some code) :
            (LoadFault.illFormed fault).diagnostic? file =
              some ((LoadFault.illFormed fault).report file code) := by
          rw [LoadFault.diagnostic?, Decode.Fault.diagnostic?, coded]
          rfl
        rcases fault.code?_cases with rfl | coded | coded
        · have yields := Decode.program_yields document
          rw [decoded] at yields
          exact .tooLarge read (yields rfl)
        · exact .noProgram read (.inl rfl) (reported coded)
        · exact .noProgram read (.inr rfl) (reported coded)

theorem load_replicate {count : Nat} (long : Json.digitLimit < count) :
    Program.load (List.replicate count (CodePoint.ofChar '1')) =
      .error (.digitLimit count) := by
  cases count with
  | zero => exact absurd long (Nat.not_lt_zero _)
  | succ count =>
      have row :
          ∀ c ∈ CodePoint.ofChar '1' ::
            List.replicate count (CodePoint.ofChar '1'),
          c.isDigit = true := by
        intro c member
        rw [← List.replicate_succ] at member
        rw [List.eq_of_mem_replicate member]
        decide
      have read := Json.read_of_isDigit row (by decide)
      rw [List.length_cons, List.length_replicate] at read
      rw [List.replicate_succ, Program.load, Json.load, read long]

/-- A number of one digit more than are converted is a document, but no error
tells of it. -/
theorem long_integer_unreported :
    Program.load (List.replicate 4301 (CodePoint.ofChar '1')) =
      .error (.digitLimit 4301) ∧
      ∀ file, LoadFault.diagnostic? file (.digitLimit 4301) = none :=
  ⟨load_replicate (by decide), fun _ => rfl⟩

end TailLoop
