import TailLoop.Proofs.CompileAgreement
import TailLoop.Proofs.LoadOutcomes

/-!
# Where a program meets the digit limit

Integers of more digits than the limit are not converted, neither from text nor
to text.  A text that is read holds none, so no integer of the program is too
long to be written.  The position of a field is one more than its index: it
alone can pass the limit, and only by the digit that the greatest index leaves
out.
-/

namespace TailLoop

open Lowering Contract

theorem Program.short_of_load {text : Text} {program : Program}
    (loaded : Program.load text = .ok program) :
    ∀ n ∈ program.declarations.flatMap Declaration.integers,
      n.natAbs < Nat.pow 10 Json.digitLimit := by
  unfold Program.load at loaded
  split at loaded
  · cases loaded
  · rename_i document read
    have yields := Decode.program_yields document
    cases decoded : Decode.program document with
    | error fault =>
        rw [decoded] at loaded
        cases loaded
    | ok found =>
        rw [decoded] at loaded yields
        cases loaded
        intro n member
        exact Json.isShort_of_load read n (yields n member)

namespace Expr

theorem integersList_eq_flatMap (exprs : List Expr) :
    integersList exprs = exprs.flatMap integers := by
  induction exprs with
  | nil => rfl
  | cons expr exprs ih => rw [integersList, List.flatMap_cons, ih]

theorem integersAlts_eq_flatMap (alts : List Alt) :
    integersAlts alts = alts.flatMap integersAlt := by
  induction alts with
  | nil => rfl
  | cons alt alts ih => rw [integersAlts, List.flatMap_cons, ih]

theorem integers_body_subset (alt : Alt) :
    alt.body.integers ⊆ integersAlt alt := by
  cases alt with
  | con ctor args body =>
      rw [integersAlt]
      exact List.subset_append_of_subset_right _ (List.subset_append_right _ _)
  | const const body => exact List.subset_append_right _ _
  | default body => exact List.Subset.refl _

/-- The integers of a part are integers of the expression. -/
theorem integers_child_subset {expr child : Expr}
    (place : child ∈ expr.children) : child.integers ⊆ expr.integers := by
  have row {args : List Expr} (isArg : child ∈ args) :
      child.integers ⊆ integersList args := by
    rw [integersList_eq_flatMap]
    exact fun n inside => List.mem_flatMap.mpr ⟨child, isArg, inside⟩
  cases expr with
  | app func args tail =>
      rw [integers]
      rcases List.mem_cons.mp place with rfl | isArg
      · exact List.subset_append_left _ _
      · exact List.subset_append_of_subset_right _ (row isArg)
  | lazyApp name args =>
      exact List.subset_append_of_subset_right _ (row place)
  | lazy body | force body =>
      cases List.mem_singleton.mp place
      exact List.Subset.refl _
  | lam params body =>
      cases List.mem_singleton.mp place
      exact List.subset_append_right _ _
  | letIn name value body =>
      rw [integers]
      refine List.subset_append_of_subset_right _ ?_
      simp only [children, List.mem_cons, List.not_mem_nil, or_false] at place
      rcases place with rfl | rfl
      · exact List.subset_append_left _ _
      · exact List.subset_append_right _ _
  | con name args tag =>
      rw [integers]
      exact List.subset_append_of_subset_right _
        (List.subset_append_of_subset_right _ (row place))
  | case scrutinee alts =>
      rw [integers]
      rcases List.mem_cons.mp place with rfl | isBody
      · exact List.subset_append_left _ _
      · obtain ⟨alt, member, rfl⟩ := List.mem_map.mp isBody
        rw [integersAlts_eq_flatMap]
        refine List.subset_append_of_subset_right _ fun n inside => ?_
        exact List.mem_flatMap.mpr
          ⟨alt, member, integers_body_subset alt inside⟩
  | proj body index =>
      cases List.mem_singleton.mp place
      exact List.subset_append_left _ _
  | foreign target args => exact row place
  | op prim args => exact row place
  | var | lit | fail | null => cases place

theorem index_mem_integers {expr body : Expr} {index : Int}
    (within : expr.Contains (.proj body index)) : index ∈ expr.integers := by
  generalize same : Expr.proj body index = part at within
  induction within with
  | self expr =>
      cases same
      exact List.mem_append_right _ List.mem_cons_self
  | inside place _ ih => exact integers_child_subset place (ih same)

end Expr

/-- What can be read can be written. -/
theorem Lowering.indexLimit_eq : indexLimit = Json.digitLimit :=
  rfl

/-- The one index that can be written while its position cannot. -/
theorem Lowering.isLong_iff {index : Int}
    (short : index.natAbs < Nat.pow 10 indexLimit) :
    IsLong index ↔ index = (Nat.pow 10 indexLimit : Nat) - 1 := by
  rw [IsLong]
  generalize Nat.pow 10 indexLimit = limit at short
  omega

/-- In a program that was read the only field whose position is too long to be
written is the one at the greatest index that can be read. -/
theorem Function.hasLongIndex_iff_of_load {text : Text} {program : Program}
    (loaded : Program.load text = .ok program) {function : Function}
    (defined : function ∈ program.functions) :
    function.HasLongIndex ↔
      ∃ body, .proj body ((Nat.pow 10 indexLimit : Nat) - 1) ∈
        function.body.subexprs := by
  have short {body : Expr} {index : Int}
      (part : .proj body index ∈ function.body.subexprs) :
      index.natAbs < Nat.pow 10 indexLimit := by
    obtain ⟨declaration, declared, isFunction⟩ :=
      List.mem_filterMap.mp defined
    rw [indexLimit_eq]
    refine Program.short_of_load loaded index
      (List.mem_flatMap.mpr ⟨declaration, declared, ?_⟩)
    cases declaration with
    | constructor => cases isFunction
    | function =>
        cases isFunction
        refine List.mem_append_right _ (List.mem_append_right _ ?_)
        exact Expr.index_mem_integers ((Expr.mem_subexprs_iff _).mp part)
  constructor
  · rintro ⟨body, index, part, long⟩
    rw [isLong_iff (short part)] at long
    rw [← long]
    exact ⟨body, part⟩
  · rintro ⟨body, part⟩
    exact ⟨body, _, part, (isLong_iff (short part)).mpr rfl⟩

/-- Compiling a program that was read fails without a diagnostic only where a
field is selected at the greatest index that can be read. -/
theorem Program.compile_error_of_load {text : Text} {program : Program}
    (loaded : Program.load text = .ok program) {options : ScriptOptions}
    {failure : Failure} (failed : program.compile options = .error failure) :
    failure.fault = .digitLimit ∧
      ∃ function ∈ program.functions,
        ∃ body, .proj body ((Nat.pow 10 indexLimit : Nat) - 1) ∈
          function.body.subexprs := by
  rw [compile] at failed
  split at failed
  · cases failed
  · rename_i hasNone
    have accepted := Bool.eq_false_iff.mpr hasNone
    obtain ⟨tags, built⟩ := Checker.ofConstructors_of_not_hasErrors accepted
    rw [Checker.tags_check_initial built] at failed
    split at failed
    · cases failed
    · rename_i stopped
      obtain ⟨limit, function, defined, long⟩ :=
        script_error_of_accepted built accepted stopped
      split at failed
      · cases failed
      · cases failed
        exact ⟨limit, function, defined,
          (Function.hasLongIndex_iff_of_load loaded defined).mp long⟩

end TailLoop
