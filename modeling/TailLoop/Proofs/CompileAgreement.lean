import TailLoop.Compile
import TailLoop.Proofs.CheckerFindings
import TailLoop.Proofs.LoweringFaults

/-!
# Inspection and lowering agree

Whatever stops the work on a function was found in that function by inspection,
as an error of the same code.  A program without an error is therefore written
out, unless an index in it is too long to be written.
-/

namespace TailLoop

open Contract Lowering

@[simp] theorem TagTable.map_fst_assign (given : List Int) (next : Nat)
    (constructors : List Constructor) :
    (assign given next constructors).map Prod.fst =
      constructors.map Constructor.name := by
  induction constructors generalizing next with
  | nil => rfl
  | cons c rest ih =>
      rw [assign]
      split <;> rw [List.map_cons, List.map_cons, ih]

theorem Contract.mem_of_mem_firstConstructors
    {known constructors : List Constructor} {c : Constructor}
    (member : c ∈ firstConstructors known constructors) :
    c ∈ known ∨ c ∈ constructors := by
  induction constructors generalizing known with
  | nil => exact .inl member
  | cons head rest ih =>
      rw [firstConstructors] at member
      split at member
      · exact (ih member).imp_right (List.mem_cons_of_mem _)
      · rcases ih member with old | later
        · rcases List.mem_append.mp old with before | own
          · exact .inl before
          · rw [List.mem_singleton.mp own]
            exact .inr List.mem_cons_self
        · exact .inr (List.mem_cons_of_mem _ later)

/-- A tag table has a tag for every declared constructor. -/
theorem TagTable.declares {constructors : List Constructor} {tags : TagTable}
    (built : ofConstructors constructors = .ok tags) :
    Declares tags (firstConstructors [] constructors) := by
  intro name missing
  rw [ofConstructors] at built
  split at built
  · cases built
    rw [findConstructor?, List.find?_eq_none]
    intro c member same
    have declared : c ∈ constructors := by
      rcases mem_of_mem_firstConstructors member with impossible | declared
      · cases impossible
      · exact declared
    have entry :
        name ∈
          (assign (constructors.filterMap Constructor.tag) 0 constructors).map
        Prod.fst := by
      rw [map_fst_assign, ← of_decide_eq_true same]
      exact List.mem_map_of_mem declared
    obtain ⟨pair, pairMember, rfl⟩ := List.mem_map.mp entry
    have different := List.lookup_eq_none_iff.mp missing pair pairMember
    simp at different
  · cases built

namespace Function

/-- A field is selected at a position that is too long to be written. -/
def HasLongIndex (function : Function) : Prop :=
  ∃ body index, .proj body index ∈ function.body.subexprs ∧ IsLong index

theorem lower_eq_error {function : Function} {tags : TagTable} {fault : Fault}
    {constructors : List Constructor} (declared : Declares tags constructors)
    (failed : function.lower tags = .error fault) :
    Explained (function.context tags) constructors function.markedBody.subexprs
      fault := by
  unfold lower start at failed
  dsimp only at failed
  cases ran : function.markedBody.lower (function.context tags)
      (State.initial (function.context tags).params) with
  | ok result =>
      rw [ran] at failed
      cases failed
  | error cause =>
      rw [ran] at failed
      cases failed
      exact Expr.lower_failsOnly declared function.markedBody _ _ ran

/-- A flagged self call of the marked body is a self call in tail position. -/
theorem selfCallCount_mem {function : Function} {func : Expr} {args : List Expr}
    (member : .app func args true ∈ function.markedBody.subexprs)
    (self : Expr.isSelfCall function.name (.app func args true) = true)
    (different : args.length ≠ function.params.length) :
    .selfCallCount args.length function.params.length ∈
      selfCallBreaches function := by
  obtain ⟨func', args', tail, place, rfl, rfl⟩ :=
    Expr.app_mem_subexprs_marked _ member
  rw [Expr.length_unmarkedList] at different ⊢
  refine List.mem_flatMap.mpr ⟨_, place, ?_⟩
  cases func' with
  | var v =>
      cases v with
      | named callee =>
          have same : callee = function.name := beq_iff_eq.mp self
          simp only [same, different, ne_eq, not_false_eq_true, and_self,
            if_true]
          exact List.mem_cons_self
      | slot index => cases self
  | _ => cases self

/-- A part of the marked body that selects a field is such a part of the
body. -/
theorem proj_mem_subexprs {function : Function} {body : Expr} {index : Int}
    (member : .proj body index ∈ function.markedBody.subexprs) :
    ∃ body', .proj body' index ∈ function.body.subexprs := by
  have marked : (Expr.proj body index).unmarked ∈
      (function.body.subexprs).map Expr.unmarked := by
    rw [← Expr.subexprs_unmarked, ← Expr.unmarked_marked function.name,
      Expr.subexprs_unmarked]
    exact List.mem_map_of_mem member
  obtain ⟨part, partMember, same⟩ := List.mem_map.mp marked
  cases part with
  | proj body' index' =>
      injection same with _ sameIndex
      subst sameIndex
      exact ⟨body', partMember⟩
  | _ => cases same

/-- A function that cannot be lowered has an error of the same code, or a long
index. -/
theorem lower_error_cases {function : Function} {tags : TagTable}
    {fault : Fault} {constructors : List Constructor}
    (declared : Declares tags constructors)
    (failed : function.lower tags = .error fault) :
    (∃ cause, fault = .breach cause ∧
      ∃ found ∈ functionBreaches constructors function,
      found.code = cause.code ∧ found.severity = .error) ∨
      (fault = .digitLimit ∧ function.HasLongIndex) := by
  obtain ⟨part, member, explains⟩ := lower_eq_error declared failed
  cases explains with
  | breach broken sameCode isError =>
      refine .inl ⟨_, rfl, _,
        List.mem_append_left _ (List.mem_append_right _ ?_), sameCode, isError⟩
      rw [← exprBreaches_marked constructors function.name, exprBreaches_eq]
      exact List.mem_flatMap.mpr ⟨part, member, broken⟩
  | restart self different =>
      exact .inl ⟨_, rfl, _,
        List.mem_append_right _ (selfCallCount_mem member self different), rfl,
        rfl⟩
  | index long =>
      obtain ⟨body, place⟩ := proj_mem_subexprs member
      exact .inr ⟨rfl, body, _, place, long⟩

/-- The texts of functions fail where one of the functions does. -/
theorem texts_eq_error {options : ScriptOptions} {tags : TagTable}
    {functions : List Function} {failure : Failure}
    (failed : texts options tags functions = .error failure) :
    ∃ function ∈ functions, failure.function = function.name ∧
      function.lower tags = .error failure.fault := by
  induction functions with
  | nil => cases failed
  | cons function functions ih =>
      unfold texts text lines at failed
      cases ran : function.lower tags with
      | error fault =>
          rw [ran] at failed
          cases failed
          exact ⟨function, List.mem_cons_self, rfl, ran⟩
      | ok block =>
          rw [ran] at failed
          cases rest : texts options tags functions with
          | error cause =>
              simp only [Except.map, rest] at failed
              cases failed
              obtain ⟨other, member, names, stopped⟩ := ih rest
              exact ⟨other, List.mem_cons_of_mem _ member, names, stopped⟩
          | ok others =>
              simp only [Except.map, rest] at failed
              cases failed

end Function

theorem Program.script_eq_error {options : ScriptOptions} {tags : TagTable}
    {program : Program} {failure : Failure}
    (failed : program.script options tags = .error failure) :
    ∃ function ∈ program.functions, failure.function = function.name ∧
      function.lower tags = .error failure.fault := by
  unfold script at failed
  cases ran : Function.texts options tags program.functions with
  | error cause =>
      rw [ran] at failed
      cases failed
      exact Function.texts_eq_error ran
  | ok definitions =>
      rw [ran] at failed
      cases failed

/-- An error in a function shows up among the diagnostics. -/
theorem Contract.Checker.exists_error_of_breach {program : Program}
    {function : Function} {found : Breach}
    (defined : function ∈ program.functions)
    (broken : found ∈
      functionBreaches (firstConstructors [] program.constructors) function) :
    found.finding (some function.name.text) ∈
      (initial.check program).diagnostics :=
  List.mem_map.mpr ⟨_, mem_findings_of_mem_functionBreaches defined broken, rfl⟩

/-- In an accepted program only an index that is too long stops the work on a
function. -/
theorem Function.lower_error_of_accepted {program : Program} {tags : TagTable}
    {function : Function} {fault : Fault}
    (built : TagTable.ofConstructors program.constructors = .ok tags)
    (accepted : (Checker.initial.check program).hasErrors = false)
    (defined : function ∈ program.functions)
    (failed : function.lower tags = .error fault) :
    fault = .digitLimit ∧ function.HasLongIndex := by
  rcases lower_error_cases (TagTable.declares built) failed with
    ⟨cause, -, found, broken, -, isError⟩ | long
  · have diagnosed := Checker.exists_error_of_breach defined broken
    have noError := List.any_eq_false.mp accepted _ diagnosed
    rw [Diagnostic.isError, Breach.finding, isError] at noError
    exact (noError rfl).elim
  · exact long

/-- An accepted program is written out, or an index in it is too long. -/
theorem Program.script_error_of_accepted {program : Program}
    {options : ScriptOptions} {tags : TagTable} {failure : Failure}
    (built : TagTable.ofConstructors program.constructors = .ok tags)
    (accepted : (Checker.initial.check program).hasErrors = false)
    (failed : program.script options tags = .error failure) :
    failure.fault = .digitLimit ∧ ∃ function ∈ program.functions,
      function.HasLongIndex := by
  obtain ⟨function, defined, -, stopped⟩ := script_eq_error failed
  obtain ⟨limit, long⟩ :=
    Function.lower_error_of_accepted built accepted defined stopped
  exact ⟨limit, function, defined, long⟩

theorem Lowering.Fault.isError_of_diagnostic? {fault : Fault} {function : Name}
    {diagnostic : Diagnostic}
    (said : fault.diagnostic? function = some diagnostic) :
    diagnostic.isError = true := by
  cases fault with
  | breach cause =>
      cases said
      rfl
  | _ => cases said

/-- There is a text exactly if the program was compiled, and an error is said
about it exactly if it was not. -/
theorem Program.isSome_source_of_compile {program : Program}
    {options : ScriptOptions} {compiled : Compiled}
    (ran : program.compile options = .ok compiled) :
    compiled.source.isSome = compiled.ok ∧
      compiled.diagnostics.any Diagnostic.isError = !compiled.ok := by
  rw [compile] at ran
  split at ran
  · rename_i found
    cases ran
    exact ⟨rfl, found⟩
  · rename_i accepted
    split at ran
    · cases ran
      exact ⟨rfl, Bool.eq_false_iff.mpr accepted⟩
    · split at ran
      · rename_i diagnostic said
        cases ran
        exact ⟨rfl, List.any_eq_true.mpr ⟨diagnostic,
          List.mem_append_right _ List.mem_cons_self,
          Fault.isError_of_diagnostic? said⟩⟩
      · cases ran

/-- Every failure of lowering a function is an error that inspection reports for
it, with the same code, or comes from an index that is too long.  Without such
an index compiling always returns: the diagnostics are those of inspection, and
there is a text, that of the script, exactly if there is no error. -/
theorem inspection_covers_lowering (program : Program) (tags : TagTable)
    (built : TagTable.ofConstructors program.constructors = .ok tags) :
    let checked := Checker.initial.check program
    (∀ function ∈ program.functions, ∀ fault, function.lower tags =
      .error fault →
      (∃ refused, fault.diagnostic? function.name = some refused ∧
        ∃ found ∈ checked.diagnostics, found.severity = .error ∧
          found.code = refused.code ∧ found.place = refused.place) ∨
        (fault = .digitLimit ∧ function.HasLongIndex)) ∧
      (∀ options failure, checked.hasErrors = false →
        program.script options checked.tags = .error failure →
          failure.fault.diagnostic? failure.function = none ∧
            ∃ function ∈ program.functions, function.HasLongIndex) ∧
      ((∀ function ∈ program.functions, ¬ function.HasLongIndex) → ∀ options,
        ∃ compiled, program.compile options = .ok compiled ∧
          compiled.ok = !checked.hasErrors ∧ compiled.diagnostics =
            checked.diagnostics ∧
          ∀ source, compiled.source = some source ↔
            checked.hasErrors = false ∧ program.script options tags =
              .ok source) := by
  intro checked
  refine ⟨?_, ?_, ?_⟩
  · intro function defined fault failed
    rcases Function.lower_error_cases (TagTable.declares built) failed with
      ⟨cause, rfl, found, broken, sameCode, isError⟩ | long
    · exact .inl ⟨_, rfl, _, Checker.exists_error_of_breach defined broken,
        isError, sameCode, rfl⟩
    · exact .inr long
  · intro options failure accepted failed
    rw [Checker.tags_check_initial built] at failed
    obtain ⟨limit, long⟩ :=
      Program.script_error_of_accepted built accepted failed
    exact ⟨by rw [limit]; rfl, long⟩
  · intro short options
    cases accepted : checked.hasErrors with
    | true =>
        refine ⟨.refused checked.diagnostics, ?_, rfl, rfl, ?_⟩
        · exact if_pos accepted
        · intro source
          constructor
          · nofun
          · rintro ⟨impossible, -⟩
            cases impossible
    | false =>
        cases ran : program.script options tags with
        | error failure =>
            obtain ⟨-, function, defined, long⟩ :=
              Program.script_error_of_accepted built accepted ran
            exact (short function defined long).elim
        | ok source =>
            refine ⟨⟨true, checked.diagnostics, some source⟩, ?_, rfl, rfl, ?_⟩
            · unfold Program.compile
              rw [if_neg (by rw [accepted]; exact Bool.false_ne_true),
                Checker.tags_check_initial built, ran]
            · simp

/-- A field of a case analysis without alternatives. -/
def fieldOfNothing : Function :=
  ⟨.user "absurd", [.user "x"], .proj (.case (.var (.named (.user "x"))) []) 0⟩

def fieldOfNothingProgram : Program :=
  ⟨[.constructor ⟨.user "Pair", 2, none⟩, .function fieldOfNothing],
    .user "absurd"⟩

theorem inspection_covers_lowering_fieldOfNothing :
    let tags : TagTable := ⟨[(.user "Pair", 0)]⟩
    let checked := Checker.initial.check fieldOfNothingProgram
    TagTable.ofConstructors fieldOfNothingProgram.constructors = .ok tags ∧
      fieldOfNothing.lower tags = .error (.breach .noAlternatives) ∧
      (∃ found ∈ checked.diagnostics, found.severity = .error ∧
        found.code = "E201" ∧ found.place = some "absurd") ∧
      (∀ function ∈ fieldOfNothingProgram.functions, ¬ function.HasLongIndex) ∧
      ∀ options, ∃ compiled, fieldOfNothingProgram.compile options =
        .ok compiled ∧
        compiled.ok = !checked.hasErrors ∧ compiled.diagnostics =
          checked.diagnostics := by
  intro tags checked
  have built : TagTable.ofConstructors fieldOfNothingProgram.constructors =
      .ok tags := rfl
  have failed : fieldOfNothing.lower tags = .error (.breach .noAlternatives) :=
    rfl
  have short : ∀ function ∈ fieldOfNothingProgram.functions,
      ¬ function.HasLongIndex := by
    rintro function member ⟨body, index, part, long⟩
    cases List.mem_singleton.mp member
    simp only [fieldOfNothing, Expr.subexprs, Expr.subexprsAlts,
      List.append_nil, List.mem_cons, Expr.proj.injEq, reduceCtorEq,
      List.not_mem_nil, or_false] at part
    obtain ⟨-, rfl⟩ := part
    have limit : 1 < Nat.pow 10 indexLimit := by
      rw [Nat.pow_eq]
      exact Nat.one_lt_pow (by decide) (by decide)
    exact Nat.not_le.mpr limit long
  obtain ⟨covered, -, returned⟩ :=
    inspection_covers_lowering fieldOfNothingProgram tags built
  refine ⟨built, failed, ?_, short, ?_⟩
  · rcases covered fieldOfNothing (List.mem_singleton.mpr rfl) _ failed with
      ⟨refused, same, found, member, isError, code, place⟩ | ⟨impossible, -⟩
    · cases same
      exact ⟨found, member, isError, code, place⟩
    · cases impossible
  · intro options
    obtain ⟨compiled, ran, ok, diagnostics, -⟩ := returned short options
    exact ⟨compiled, ran, ok, diagnostics⟩

end TailLoop
