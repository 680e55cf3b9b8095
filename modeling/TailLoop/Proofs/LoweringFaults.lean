import TailLoop.Proofs.DecisionSteps
import TailLoop.Proofs.Subexpressions

/-!
# How lowering fails

Lowering an expression fails only for a reason that stands at one of its parts:
a breach that inspection finds there too, a restart with the wrong number of
arguments, or an index that is too long to be written.  The failures of a
decision that was asked for without alternatives, or as a tree of other things
than constructors, never come up.
-/

namespace TailLoop

namespace Lowering

open Contract

section Decisions

variable {context : Context} {subject result : Var} {allowed : Fault → Prop}

/-- Lowering a branch fails only in an allowed way. -/
structure BranchFails (tags : TagTable) (allowed : Fault → Prop)
    (branch : Branch) : Prop where
  body : FailsOnly allowed branch.body
  tag : ∀ ctor args, branch.pattern = .con ctor args → tags.tagOf? ctor = none →
    allowed (.breach (.undeclaredConstructor ctor))

private theorem arm_failsOnly {branch : Branch}
    (fails : BranchFails context.tags allowed branch) :
    FailsOnly allowed (arm subject result branch) := by
  have fields : FailsOnly allowed (bindFields subject branch.pattern) := by
    unfold bindFields
    split
    · exact FailsOnly.bind (FailsOnly.emit _) fun _ => FailsOnly.declare _
    · exact FailsOnly.pure _
  apply FailsOnly.bind fields
  intro _
  apply FailsOnly.bind fails.body
  intro value
  exact FailsOnly.assign _ _

private theorem clause_failsOnly {branch : Branch}
    (fails : BranchFails context.tags allowed branch) :
    FailsOnly allowed (clause context subject result branch) := by
  have guard : FailsOnly allowed (guardOf context branch.pattern) := by
    cases form : branch.pattern with
    | con ctor args =>
        exact FailsOnly.bind (FailsOnly.tagOf (fails.tag ctor args form))
          fun _ =>
          FailsOnly.pure _
    | const const => exact FailsOnly.pure _
    | default => exact FailsOnly.pure _
  rw [clause_eq]
  apply FailsOnly.bind guard
  intro _
  apply FailsOnly.bind (FailsOnly.suite (arm_failsOnly fails))
  intro _
  exact FailsOnly.pure _

private theorem clauses_failsOnly {branches : List Branch}
    (fails : ∀ branch ∈ branches, BranchFails context.tags allowed branch) :
    FailsOnly allowed (clauses context subject result branches) := by
  induction branches with
  | nil => exact FailsOnly.pure _
  | cons branch branches ih =>
      apply FailsOnly.bind (clause_failsOnly (fails branch List.mem_cons_self))
      intro first
      apply FailsOnly.bind (ih fun branch member =>
        fails branch (List.mem_cons_of_mem _ member))
      intro rest
      exact FailsOnly.pure _

private theorem emitChain_failsOnly {branches : List Branch}
    (many : branches ≠ [])
    (fails : ∀ branch ∈ branches, BranchFails context.tags allowed branch) :
    FailsOnly allowed (emitChain context subject result branches) := by
  apply FailsOnly.bind (clauses_failsOnly fails)
  intro tests
  split
  · rename_i missing
    exact (many (List.getLast?_eq_none_iff.mp missing)).elim
  · exact FailsOnly.emit _

theorem chain_failsOnly {branches : List Branch} (many : branches ≠ [])
    (fails : ∀ branch ∈ branches, BranchFails context.tags allowed branch) :
    FailsOnly allowed (chain context subject branches) := by
  refine FailsOnly.bind FailsOnly.fresh fun result => ?_
  apply FailsOnly.bind (emitChain_failsOnly many fails)
  intro _
  exact FailsOnly.pure _

private theorem tagged_failsOnly {branches : List Branch} (seen : List Int)
    (plain : ∀ branch ∈ branches, ∃ ctor args, branch.pattern = .con ctor args)
    (fails : ∀ branch ∈ branches, BranchFails context.tags allowed branch) :
    FailsOnly allowed (tagged context seen branches) := by
  induction branches generalizing seen with
  | nil => exact FailsOnly.pure _
  | cons branch branches ih =>
      obtain ⟨ctor, args, form⟩ := plain branch List.mem_cons_self
      have rest (seen : List Int) :
          FailsOnly allowed (tagged context seen branches) :=
        ih seen (fun branch member =>
          plain branch (List.mem_cons_of_mem _ member))
          fun branch member => fails branch (List.mem_cons_of_mem _ member)
      simp only [tagged, form]
      apply FailsOnly.bind
        (FailsOnly.tagOf ((fails branch List.mem_cons_self).tag ctor args form))
      intro tag
      split
      · exact rest seen
      · exact FailsOnly.bind (rest (tag :: seen)) fun _ => FailsOnly.pure _

private theorem emitTree_failsOnly {default : Option Branch}
    (branches : List (Int × Branch))
    (many : branches ≠ [] ∨ default.isSome = true)
    (fails : ∀ pair ∈ branches, BranchFails context.tags allowed pair.2)
    (defaultFails : ∀ branch ∈ default,
      BranchFails context.tags allowed branch) :
    FailsOnly allowed (emitTree context subject result default branches) := by
  induction branches using emitTree.induct with
  | case1 branches wide inside lowHalf highHalf =>
      have long : 3 < branches.length := wide
      rw [emitTree, dif_pos wide]
      apply FailsOnly.bind
        (FailsOnly.suite (lowHalf (.inl ?_) fun pair member =>
        fails pair (List.mem_of_mem_take member)))
      · intro low
        apply FailsOnly.bind
          (FailsOnly.suite (highHalf (.inl ?_) fun pair member =>
          fails pair (List.mem_of_mem_drop member)))
        · intro high
          exact FailsOnly.emit _
        · intro empty
          rw [List.drop_eq_nil_iff] at empty
          omega
      · intro empty
        rw [List.take_eq_nil_iff] at empty
        rcases empty with half | none
        · omega
        · rw [none] at long
          cases long
  | case2 branches narrow =>
      rw [emitTree, dif_neg narrow]
      apply emitChain_failsOnly
      · intro empty
        obtain ⟨noPairs, noDefault⟩ := List.append_eq_nil_iff.mp empty
        rcases many with pairs | last
        · exact pairs (List.map_eq_nil_iff.mp noPairs)
        · rw [Option.toList_eq_nil_iff.mp noDefault] at last
          cases last
      · intro branch member
        rcases List.mem_append.mp member with grouped | last
        · obtain ⟨pair, pairMember, rfl⟩ := List.mem_map.mp grouped
          exact fails pair pairMember
        · exact defaultFails branch (Option.mem_toList.mp last)

/-- A tree of constructors, with a default or without. -/
theorem tree_failsOnly {constructors : List Branch} {default : Option Branch}
    (many : constructors ≠ [])
    (plain : ∀ branch ∈ constructors, ∃ ctor args,
      branch.pattern = .con ctor args)
    (last : ∀ branch ∈ default, branch.pattern = .default)
    (fails : ∀ branch ∈ constructors ++ default.toList,
      BranchFails context.tags allowed branch) :
    FailsOnly allowed
      (tree context subject (constructors ++ default.toList)) := by
  have split : splitDefault (constructors ++ default.toList) =
      (constructors, default) := by
    apply splitDefault_append _ last
    intro branch member
    obtain ⟨ctor, args, form⟩ := plain branch member
    rw [form]
    rfl
  have constructorFails : ∀ branch ∈ constructors,
      BranchFails context.tags allowed branch :=
    fun branch member => fails branch (List.mem_append_left _ member)
  rw [tree, split]
  apply FailsOnly.bindResult (tagged_failsOnly [] plain constructorFails)
  intro state chosen middle emitted ran
  obtain ⟨collected, -, -⟩ := tagged_eq_ok ran
  refine FailsOnly.bind FailsOnly.fresh fun result => ?_
  refine FailsOnly.bind (emitTree_failsOnly _ (.inl ?_) ?_ ?_) fun _ =>
    FailsOnly.pure _
  · intro empty
    apply collected.ne_nil many
    rw [← List.length_eq_zero_iff, ← List.length_mergeSort, empty]
    rfl
  · intro pair member
    exact constructorFails _ (collected.mem (List.mem_mergeSort.mp member)).1
  · intro branch member
    exact fails branch (List.mem_append_right _ (Option.mem_toList.mpr member))

theorem decision_failsOnly {branches : List Branch}
    (empty : branches = [] → allowed (.breach .noAlternatives))
    (early : (branches.dropLast.any fun branch => branch.pattern.isDefault) =
      true → allowed (.breach .defaultNotLast))
    (fails : ∀ branch ∈ branches, BranchFails context.tags allowed branch) :
    FailsOnly allowed (decision context subject branches) := by
  by_cases none : branches = []
  · subst none
    intro state fault failed
    cases failed
    exact empty rfl
  · have shape : FailsOnly allowed (checkShape branches) := by
      unfold checkShape
      split
      · rename_i isEmpty
        exact (none (List.isEmpty_iff.mp isEmpty)).elim
      · split
        · rename_i found
          exact FailsOnly.fail (early found)
        · exact FailsOnly.pure _
    apply FailsOnly.bind shape
    intro _
    split
    · exact (fails _ (List.mem_singleton.mpr rfl)).body
    · split
      · rename_i wide
        obtain ⟨constructors, last, rfl, many, plain, form⟩ :=
          usesTree_eq_true wide
        rw [show [last] = (some last).toList from rfl] at fails ⊢
        refine tree_failsOnly many plain ?_ fails
        rintro branch same
        cases same
        exact form
      · exact chain_failsOnly none fails

end Decisions

private theorem defer_failsOnly {context : Context} {params : List Name}
    {source : Expr} {body : Lowering Code.Term} {allowed : Fault → Prop}
    (fails : FailsOnly allowed body) :
    FailsOnly allowed (defer context params source body) := by
  refine FailsOnly.bind FailsOnly.bound fun names => ?_
  apply FailsOnly.bind (FailsOnly.deferred fails)
  rintro ⟨value, block⟩
  dsimp only
  split
  · exact FailsOnly.pure _
  · refine FailsOnly.bind FailsOnly.fresh fun function => ?_
    refine FailsOnly.bind (FailsOnly.emit _) fun _ => ?_
    split <;> exact FailsOnly.pure _

private theorem restart_failsOnly {context : Context}
    {args : Lowering (List Code.Term)} {allowed : Fault → Prop}
    (fails : FailsOnly allowed args) :
    FailsOnly allowed (restart context args) := by
  apply FailsOnly.bind fails
  intro values
  have last : FailsOnly allowed (do emit .continue; return Code.Term.restart) :=
    FailsOnly.bind (FailsOnly.emit _) fun _ => FailsOnly.pure _
  split
  · exact FailsOnly.bind (FailsOnly.emit _) fun _ => last
  · exact last

/-- The position of a field is too long to be written. -/
def IsLong (index : Int) : Prop :=
  Nat.pow 10 indexLimit ≤ (index + 1).natAbs

/-- Why lowering can fail at the root of an expression. -/
inductive Explains (context : Context) (constructors : List Constructor) :
    Expr → Fault → Prop where
  /-- Inspection finds an error of the same code there. -/
  | breach {expr : Expr} {found cause : Breach} :
      found ∈ Contract.rootBreaches constructors expr →
      found.code = cause.code →
      found.severity = .error →
      Explains context constructors expr (.breach cause)
  | restart {func : Expr} {args : List Expr} :
      Expr.isSelfCall context.function (.app func args true) = true →
      args.length ≠ context.params.length →
      Explains context constructors (.app func args true)
        (.breach (.selfCallCount args.length context.params.length))
  | index {body : Expr} {index : Int} :
      IsLong index →
      Explains context constructors (.proj body index) .digitLimit

/-- Lowering can fail at one of the parts. -/
def Explained (context : Context) (constructors : List Constructor)
    (parts : List Expr) (fault : Fault) : Prop :=
  ∃ part ∈ parts, Explains context constructors part fault

theorem FailsOnly.ofParts {context : Context} {constructors : List Constructor}
    {parts others : List Expr} {α : Type} {step : Lowering α}
    (fails : FailsOnly (Explained context constructors parts) step)
    (fewer : parts ⊆ others) :
    FailsOnly (Explained context constructors others) step := by
  refine fails.mono ?_
  rintro fault ⟨part, member, explains⟩
  exact ⟨part, fewer member, explains⟩

/-- Alternatives of a bad shape are found by inspection too. -/
private theorem explains_shape {context : Context}
    {constructors : List Constructor} {scrutinee : Expr} {alts : List Alt}
    {cause : Breach} (bad : (alts = [] ∧ cause = .noAlternatives) ∨
      (alts.dropLast.any Alt.isDefault = true ∧ cause = .defaultNotLast)) :
    Explains context constructors (.case scrutinee alts) (.breach cause) := by
  obtain ⟨found, member, sameCode, isError⟩ : ∃ found ∈ shapeBreaches alts,
      found.code = cause.code ∧ found.severity = .error := by
    unfold shapeBreaches
    rcases bad with ⟨rfl, rfl⟩ | ⟨early, rfl⟩
    · exact ⟨_, List.mem_cons_self, rfl, rfl⟩
    · split
      · rename_i none
        rw [List.isEmpty_iff.mp none] at early
        cases early
      · split <;> exact ⟨_, List.mem_cons_self, rfl, rfl⟩
  exact .breach (List.mem_append_left _ member) sameCode isError

/-- Only undeclared constructors have no tag. -/
def Declares (tags : TagTable) (constructors : List Constructor) : Prop :=
  ∀ name, tags.tagOf? name = none → findConstructor? constructors name = none

/-- A constructor without a declaration is found by inspection too. -/
private theorem undeclared_mem {constructors : List Constructor}
    {use : ConstructorUse} {name : Name} {count : Nat}
      (missing : findConstructor? constructors name = none) :
    .undeclaredConstructor name ∈
      constructorBreaches constructors use name count := by
  rw [constructorBreaches, missing]
  exact List.mem_cons_self

private theorem explains_pattern {context : Context}
    {constructors : List Constructor} {scrutinee : Expr} {alts : List Alt}
    {alt : Alt} {ctor : Name} {args : List Name} (member : alt ∈ alts)
    (form : alt.pattern = .con ctor args)
    (missing : findConstructor? constructors ctor = none) :
    Explains context constructors (.case scrutinee alts)
      (.breach (.undeclaredConstructor ctor)) := by
  cases alt with
  | con ctor args body =>
      cases form
      exact .breach (List.mem_append_right _
        (List.mem_flatMap.mpr ⟨_, member, undeclared_mem missing⟩)) rfl rfl
  | _ => cases form

end Lowering

namespace Expr

open Lowering Contract

variable {context : Context} {constructors : List Constructor}

mutual

/-- Lowering fails for reasons that stand at the parts of the expression. -/
theorem lower_failsOnly (declared : Declares context.tags constructors)
    (expr : Expr) :
    FailsOnly (Explained context constructors expr.subexprs)
      (expr.lower context) := by
  cases expr with
  | var v =>
      rw [lower]
      exact FailsOnly.pure _
  | app func args tail =>
      have argsFail := (lowerList_failsOnly declared args).ofParts
        (show _ ⊆ (app func args tail).subexprs by simp [subexprs])
      rw [lower]
      split
      · rename_i flagged
        obtain ⟨isTail, self⟩ := Bool.and_eq_true_iff.mp flagged
        cases isTail
        split
        · exact restart_failsOnly argsFail
        · rename_i different
          exact FailsOnly.fail ⟨_, self_mem_subexprs _, .restart self different⟩
      · apply FailsOnly.bind
          ((lower_failsOnly declared func).ofParts (by simp [subexprs]))
        intro function
        exact FailsOnly.bind argsFail fun values => FailsOnly.pure _
  | lazyApp name args =>
      rw [lower]
      apply defer_failsOnly
      apply FailsOnly.bind
        ((lowerList_failsOnly declared args).ofParts (by simp [subexprs]))
      intro values
      exact FailsOnly.pure _
  | lazy body =>
      rw [lower]
      exact defer_failsOnly
        ((lower_failsOnly declared body).ofParts (by simp [subexprs]))
  | force body =>
      rw [lower]
      apply FailsOnly.bind
        ((lower_failsOnly declared body).ofParts (by simp [subexprs]))
      intro value
      exact FailsOnly.pure _
  | lam params body =>
      rw [lower]
      exact defer_failsOnly
        ((lower_failsOnly declared body).ofParts (by simp [subexprs]))
  | letIn name value body =>
      rw [lower]
      apply FailsOnly.bind
        ((lower_failsOnly declared value).ofParts (by simp [subexprs]))
      intro term
      refine FailsOnly.bind (FailsOnly.assign _ _) fun _ => ?_
      refine FailsOnly.bind (FailsOnly.declare _) fun _ => ?_
      exact (lower_failsOnly declared body).ofParts (by simp [subexprs])
  | con name args tag =>
      rw [lower]
      refine FailsOnly.bind (FailsOnly.tagOf fun missing =>
        ⟨_, self_mem_subexprs _,
        .breach (undeclared_mem (declared name missing)) rfl rfl⟩) fun own => ?_
      apply FailsOnly.bind
        ((lowerList_failsOnly declared args).ofParts (by simp [subexprs]))
      intro fields
      exact FailsOnly.pure _
  | case scrutinee alts =>
      have decisionFails (subject : Var) :
          FailsOnly
            (Explained context constructors (case scrutinee alts).subexprs)
            (decision context subject (lowerAlts context alts)) := by
        rw [lowerAlts_eq_map]
        apply decision_failsOnly
        · intro none
          exact ⟨_, self_mem_subexprs _,
            explains_shape (.inl ⟨List.map_eq_nil_iff.mp none, rfl⟩)⟩
        · intro early
          rw [← List.map_dropLast, List.any_map] at early
          refine ⟨_, self_mem_subexprs _, explains_shape (.inr ⟨?_, rfl⟩)⟩
          rw [← early]
          congr 1
          funext alt
          cases alt <;> rfl
        · intro branch member
          refine ⟨(lowerAlts_failsOnly declared alts branch
            (by rw [lowerAlts_eq_map]; exact member)).ofParts (by
              simp [subexprs]), ?_⟩
          intro ctor args form missing
          obtain ⟨alt, altMember, rfl⟩ := List.mem_map.mp member
          exact ⟨_, self_mem_subexprs _,
            explains_pattern altMember form (declared ctor missing)⟩
      cases compound : scrutinee.isVar with
      | true =>
          cases scrutinee with
          | var subject =>
              rw [lower]
              exact decisionFails subject
          | _ => cases compound
      | false =>
          rw [lower_case_compound compound]
          refine FailsOnly.bind FailsOnly.fresh fun subject => ?_
          apply FailsOnly.bind
            ((lower_failsOnly declared scrutinee).ofParts (by simp [subexprs]))
          intro term
          exact FailsOnly.bind (FailsOnly.assign _ _) fun _ =>
            decisionFails subject
  | proj body index =>
      rw [lower]
      apply FailsOnly.bind
        ((lower_failsOnly declared body).ofParts (by simp [subexprs]))
      intro value
      split
      · rename_i long
        exact FailsOnly.fail ⟨_, self_mem_subexprs _, .index long⟩
      · exact FailsOnly.pure _
  | lit const =>
      rw [lower]
      exact FailsOnly.pure _
  | foreign target args =>
      cases target with
      | named function =>
          rw [lower]
          apply FailsOnly.bind
            ((lowerList_failsOnly declared args).ofParts (by simp [subexprs]))
          intro values
          exact FailsOnly.pure _
      | _ =>
          rw [lower]
          · exact FailsOnly.fail ⟨_, self_mem_subexprs _,
              .breach List.mem_cons_self rfl rfl⟩
          · nofun
  | op prim args =>
      rw [lower]
      apply FailsOnly.bind
        ((lowerList_failsOnly declared args).ofParts (by simp [subexprs]))
      intro values
      exact FailsOnly.pure _
  | fail message =>
      rw [lower]
      exact FailsOnly.pure _
  | null =>
      rw [lower]
      exact FailsOnly.pure _

theorem lowerList_failsOnly (declared : Declares context.tags constructors)
    (exprs : List Expr) :
    FailsOnly (Explained context constructors (subexprsList exprs))
      (lowerList context exprs) := by
  cases exprs with
  | nil =>
      rw [lowerList]
      exact FailsOnly.pure _
  | cons expr exprs =>
      rw [lowerList]
      apply FailsOnly.bind
        ((lower_failsOnly declared expr).ofParts (by simp [subexprsList]))
      intro first
      apply FailsOnly.bind
        ((lowerList_failsOnly declared exprs).ofParts (by simp [subexprsList]))
      intro rest
      exact FailsOnly.pure _

theorem lowerAlts_failsOnly (declared : Declares context.tags constructors)
    (alts : List Alt) :
    ∀ branch ∈ lowerAlts context alts,
      FailsOnly (Explained context constructors (subexprsAlts alts))
        branch.body := by
  intro branch member
  cases alts with
  | nil => cases member
  | cons alt alts =>
      have rest := fun branch member =>
        (lowerAlts_failsOnly declared alts branch member).ofParts
          (show subexprsAlts alts ⊆ subexprsAlts (alt :: alts) by
            cases alt <;> simp [subexprsAlts])
      cases alt with
      | con ctor args body =>
          rw [lowerAlts] at member
          rcases List.mem_cons.mp member with rfl | later
          · exact (lower_failsOnly declared body).ofParts
              (by simp [subexprsAlts])
          · exact rest branch later
      | const value body =>
          rw [lowerAlts] at member
          rcases List.mem_cons.mp member with rfl | later
          · exact (lower_failsOnly declared body).ofParts
              (by simp [subexprsAlts])
          · exact rest branch later
      | default body =>
          rw [lowerAlts] at member
          rcases List.mem_cons.mp member with rfl | later
          · exact (lower_failsOnly declared body).ofParts
              (by simp [subexprsAlts])
          · exact rest branch later

end

end Expr

end TailLoop
