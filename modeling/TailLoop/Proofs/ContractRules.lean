import TailLoop.Proofs.CheckerFindings
import TailLoop.Proofs.Subexpressions

/-!
# The contract of programs

What a program owes is said here without a checker: distinct names, given tags
that are distinct and not negative, constructors used with the fields they are
declared with, case analyses that are neither empty nor cut short by a default,
self calls that can restart their function, foreign functions that are named,
and an entry point.  A fresh checker finds an error exactly if a program breaks
one of these rules.
-/

namespace TailLoop

/-- The constructor is declared with that many fields. -/
def DeclaredWith (constructors : List Constructor) (name : Name) (count : Nat) :
    Prop :=
  ∃ c ∈ constructors, c.name = name ∧ c.arity = count

/-- The rules at the root of an expression. -/
def Expr.KeepsRules (constructors : List Constructor) : Expr → Prop
  | .lam params _ => params.Nodup
  | .con name args _ => DeclaredWith constructors name args.length
  | .case _ alts =>
      alts ≠ [] ∧ (∀ alt ∈ alts.dropLast, alt.isDefault = false) ∧
        ∀ ctor args body, .con ctor args body ∈ alts →
          DeclaredWith constructors ctor args.length
  | .foreign target _ => ∃ name, target = .named name
  | _ => True

structure Function.KeepsRules (constructors : List Constructor)
    (function : Function) :
    Prop where
  params : function.params.Nodup
  parts : ∀ part, function.body.Contains part → part.KeepsRules constructors
  selfCalls : ∀ args tail,
    function.body.EndsIn (.app (.var (.named function.name)) args tail) →
      args.length = function.params.length

structure Program.KeepsRules (program : Program) : Prop where
  constructorNames : (program.constructors.map Constructor.name).Nodup
  givenTags : ∀ tag ∈ program.constructors.filterMap Constructor.tag, 0 ≤ tag
  distinctTags : (program.constructors.filterMap Constructor.tag).Nodup
  functionNames : (program.functions.map Function.name).Nodup
  functions : ∀ function ∈ program.functions,
    function.KeepsRules program.constructors
  entry : program.functions ≠ [] → program.entry ∈
    program.functions.map Function.name

/-- Distinct items, none of which was seen before. -/
def NewTo {α : Type} (seen items : List α) : Prop :=
  items.Nodup ∧ ∀ item ∈ items, item ∉ seen

namespace NewTo

variable {α : Type} {seen items : List α}

theorem empty : NewTo seen [] :=
  ⟨List.nodup_nil, by simp⟩

@[simp] theorem cons_iff {item : α} :
    NewTo seen (item :: items) ↔ item ∉ seen ∧ NewTo (item :: seen) items := by
  constructor
  · rintro ⟨distinct, unseen⟩
    obtain ⟨once, distinct⟩ := List.nodup_cons.mp distinct
    refine ⟨unseen item List.mem_cons_self, distinct, ?_⟩
    intro other later known
    rcases List.mem_cons.mp known with rfl | before
    · exact once later
    · exact unseen other (List.mem_cons_of_mem _ later) before
  · rintro ⟨fresh, distinct, unseen⟩
    refine ⟨List.nodup_cons.mpr ⟨?_, distinct⟩, ?_⟩
    · intro again
      exact unseen item again List.mem_cons_self
    · intro other member known
      rcases List.mem_cons.mp member with rfl | later
      · exact fresh known
      · exact unseen other later (List.mem_cons_of_mem _ known)

@[simp] theorem nil_iff : NewTo [] items ↔ items.Nodup := by
  simp [NewTo]

/-- The order in which items were seen does not matter. -/
@[simp] theorem append_singleton_iff {item : α} :
    NewTo (seen ++ [item]) items ↔ NewTo (item :: seen) items := by
  simp [NewTo, or_comm]

end NewTo

namespace TagTable

@[simp] private theorem lookup_eq_none_iff_not_mem {owners : List (Int × Name)}
    {tag : Int} :
    owners.lookup tag = none ↔ tag ∉ owners.map Prod.fst := by
  rw [List.lookup_eq_none_iff]
  constructor
  · intro different taken
    obtain ⟨owner, member, rfl⟩ := List.mem_map.mp taken
    exact bne_iff_ne.mp (different owner member) rfl
  · intro free owner member
    apply bne_iff_ne.mpr
    rintro rfl
    exact free (List.mem_map_of_mem member)

theorem conflictsAfter_eq_nil_iff {names : List Name}
    {owners : List (Int × Name)} {constructors : List Constructor} :
    conflictsAfter names owners constructors = [] ↔
      NewTo names (constructors.map Constructor.name) ∧
        (∀ tag ∈ constructors.filterMap Constructor.tag, 0 ≤ tag) ∧
        NewTo (owners.map Prod.fst)
          (constructors.filterMap Constructor.tag) := by
  induction constructors generalizing names owners with
  | nil => simp [conflictsAfter, NewTo.empty]
  | cons c rest ih =>
      rw [conflictsAfter, List.map_cons, NewTo.cons_iff]
      by_cases old : c.name ∈ names
      · simp [old]
      · rw [if_neg old]
        cases given : c.tag with
        | none => simp [given, old, ih]
        | some tag =>
            rw [List.filterMap_cons_some given, NewTo.cons_iff]
            by_cases negative : tag < 0
            · have broken : ¬ 0 ≤ tag := Int.not_le.mpr negative
              simp [negative, broken]
            · have kept : 0 ≤ tag := Int.not_lt.mp negative
              simp only [if_neg negative]
              cases owned : owners.lookup tag with
              | some owner =>
                  have taken : tag ∈ owners.map Prod.fst := by
                    by_contra free
                    rw [lookup_eq_none_iff_not_mem.mpr free] at owned
                    cases owned
                  simp [taken]
              | none =>
                  have free := lookup_eq_none_iff_not_mem.mp owned
                  simp [ih, old, kept, free]

@[simp] theorem conflicts_eq_nil_iff {constructors : List Constructor} :
    conflicts constructors = [] ↔
      (constructors.map Constructor.name).Nodup ∧
        (∀ tag ∈ constructors.filterMap Constructor.tag, 0 ≤ tag) ∧
        (constructors.filterMap Constructor.tag).Nodup := by
  rw [conflicts, conflictsAfter_eq_nil_iff, NewTo.nil_iff, List.map_nil,
    NewTo.nil_iff]

end TagTable

namespace Contract

@[simp] theorem repeatedParams_eq_nil_iff {seen params : List Name} :
    repeatedParams seen params = [] ↔ NewTo seen params := by
  induction params generalizing seen with
  | nil => simp [repeatedParams, NewTo.empty]
  | cons param params ih =>
      rw [repeatedParams, NewTo.cons_iff]
      by_cases old : param ∈ seen
      · simp [old]
      · simp [old, ih]

@[simp] theorem any_name_iff {functions : List Function} {name : Name} :
    (functions.any fun function => function.name = name) = true ↔
      name ∈ functions.map Function.name := by
  simp

@[simp] theorem repeatFindings_eq_nil_iff {known functions : List Function} :
    repeatFindings known functions = [] ↔
      NewTo (known.map Function.name) (functions.map Function.name) := by
  induction functions generalizing known with
  | nil => simp [repeatFindings, NewTo.empty]
  | cons function rest ih =>
      rw [repeatFindings, List.map_cons, NewTo.cons_iff]
      by_cases old : function.name ∈ known.map Function.name
      · rw [if_pos (any_name_iff.mpr old)]
        simp only [reduceCtorEq, old, not_true, false_and]
      · rw [if_neg (fun found => old (any_name_iff.mp found)), ih,
          List.map_append]
        simp only [old, not_false_eq_true, true_and]
        exact NewTo.append_singleton_iff

theorem firstFunctions_of_newTo {known functions : List Function}
    (new : NewTo (known.map Function.name) (functions.map Function.name)) :
    firstFunctions known functions = known ++ functions := by
  induction functions generalizing known with
  | nil => rw [firstFunctions, List.append_nil]
  | cons function rest ih =>
      obtain ⟨fresh, new⟩ := NewTo.cons_iff.mp new
      have later : NewTo ((known ++ [function]).map Function.name)
          (rest.map Function.name) := by
        rw [List.map_append]
        exact NewTo.append_singleton_iff.mpr new
      rw [firstFunctions, if_neg (fun found => fresh (any_name_iff.mp found)),
        ih later, List.append_assoc, List.singleton_append]

theorem firstConstructors_of_newTo {known constructors : List Constructor}
    (new : NewTo (known.map Constructor.name)
      (constructors.map Constructor.name)) :
    firstConstructors known constructors = known ++ constructors := by
  induction constructors generalizing known with
  | nil => rw [firstConstructors, List.append_nil]
  | cons c rest ih =>
      obtain ⟨fresh, new⟩ := NewTo.cons_iff.mp new
      have unknown : ¬ (findConstructor? known c.name).isSome = true := by
        intro found
        obtain ⟨other, member, same⟩ := List.find?_isSome.mp found
        exact fresh (List.mem_map.mpr ⟨other, member, of_decide_eq_true same⟩)
      have later : NewTo ((known ++ [c]).map Constructor.name)
          (rest.map Constructor.name) := by
        rw [List.map_append]
        exact NewTo.append_singleton_iff.mpr new
      rw [firstConstructors, if_neg unknown, ih later, List.append_assoc,
        List.singleton_append]

/-- Among distinct names a constructor is found by its declaration. -/
theorem constructorBreaches_eq_nil_iff {constructors : List Constructor}
    (distinct : (constructors.map Constructor.name).Nodup)
    {use : ConstructorUse} {name : Name} {count : Nat} :
    constructorBreaches constructors use name count = [] ↔
      DeclaredWith constructors name count := by
  rw [constructorBreaches]
  cases found : findConstructor? constructors name with
  | none =>
      have undeclared := List.find?_eq_none.mp found
      constructor
      · intro empty
        cases empty
      · rintro ⟨c, member, same, -⟩
        exact (undeclared c member (decide_eq_true same)).elim
  | some c =>
      have named : c.name = name := by simpa using List.find?_some found
      have declared : c ∈ constructors := List.mem_of_find?_eq_some found
      have only : ∀ other ∈ constructors, other.name = name → other = c := by
        intro other member same
        exact List.inj_on_of_nodup_map distinct member declared
          (same.trans named.symm)
      constructor
      · intro kept
        by_cases arity : (count : Int) = c.arity
        · exact ⟨c, declared, named, arity.symm⟩
        · simp [arity] at kept
      · rintro ⟨other, member, same, arity⟩
        rw [only other member same] at arity
        simp [arity]

@[simp] theorem shapeBreaches_eq_nil_iff {alts : List Alt} :
    shapeBreaches alts = [] ↔
      alts ≠ [] ∧ ∀ alt ∈ alts.dropLast, alt.isDefault = false := by
  rcases List.eq_nil_or_concat alts with rfl | ⟨front, last, rfl⟩
  · simp [shapeBreaches]
  · rw [List.concat_eq_append, shapeBreaches, List.dropLast_concat]
    by_cases early : front.any Alt.isDefault = true
    · obtain ⟨alt, member, isDefault⟩ := List.any_eq_true.mp early
      constructor
      · intro kept
        simp only [early, if_true] at kept
        split at kept
        · cases kept
        · split at kept <;> cases kept
      · rintro ⟨-, plain⟩
        rw [plain alt member] at isDefault
        cases isDefault
    · have plain : ∀ alt ∈ front, alt.isDefault = false := by
        simpa using early
      have none : front.filter Alt.isDefault = [] := by
        simpa using plain
      have atMostOne :
          ¬ 1 < ((front ++ [last]).filter Alt.isDefault).length := by
        rw [List.filter_append, none, List.nil_append]
        exact Nat.not_lt.mpr (List.length_filter_le _ _)
      rw [if_neg (by simp), if_neg atMostOne, if_neg early]
      exact iff_of_true rfl ⟨by simp, plain⟩

theorem rootBreaches_eq_nil_iff {constructors : List Constructor}
    (distinct : (constructors.map Constructor.name).Nodup) {expr : Expr} :
    rootBreaches constructors expr = [] ↔ expr.KeepsRules constructors := by
  cases expr with
  | lam params body =>
      rw [rootBreaches, repeatedParams_eq_nil_iff, NewTo.nil_iff]
      rfl
  | con name args tag => exact constructorBreaches_eq_nil_iff distinct
  | case scrutinee alts =>
      rw [rootBreaches, List.append_eq_nil_iff, shapeBreaches_eq_nil_iff,
        patternBreaches, List.flatMap_eq_nil_iff, and_assoc]
      refine and_congr_right fun _ => and_congr_right fun _ => ?_
      constructor
      · intro kept ctor args body member
        exact (constructorBreaches_eq_nil_iff distinct).mp (kept _ member)
      · intro declared alt member
        cases alt with
        | con ctor args body =>
            exact (constructorBreaches_eq_nil_iff distinct).mpr
              (declared ctor args body member)
        | _ => rfl
  | foreign target args =>
      cases target <;> simp [rootBreaches, targetBreaches, Expr.KeepsRules]
  | _ => exact iff_of_true rfl trivial

theorem exprBreaches_eq_nil_iff {constructors : List Constructor}
    (distinct : (constructors.map Constructor.name).Nodup) {expr : Expr} :
    exprBreaches constructors expr = [] ↔
      ∀ part, expr.Contains part → part.KeepsRules constructors := by
  rw [exprBreaches_eq, List.flatMap_eq_nil_iff]
  simp only [Expr.mem_subexprs_iff, rootBreaches_eq_nil_iff distinct]

theorem selfCallBreaches_eq_nil_iff {function : Function} :
    selfCallBreaches function = [] ↔ ∀ args tail,
      function.body.EndsIn (.app (.var (.named function.name)) args tail) →
        args.length = function.params.length := by
  rw [selfCallBreaches, List.flatMap_eq_nil_iff]
  simp only [← Expr.app_mem_tailPositions_iff]
  constructor
  · intro kept args tail place
    have atLeaf := kept _ place
    by_cases counts : args.length = function.params.length
    · exact counts
    · simp [counts] at atLeaf
  · intro counts leaf place
    split
    · rename_i callee args tail
      rw [if_neg]
      rintro ⟨rfl, different⟩
      exact different (counts args tail place)
    · rfl

theorem functionBreaches_eq_nil_iff {constructors : List Constructor}
    (distinct : (constructors.map Constructor.name).Nodup)
    {function : Function} :
    functionBreaches constructors function = [] ↔
      function.KeepsRules constructors := by
  rw [functionBreaches, List.append_eq_nil_iff, List.append_eq_nil_iff,
    repeatedParams_eq_nil_iff, NewTo.nil_iff, exprBreaches_eq_nil_iff distinct,
    selfCallBreaches_eq_nil_iff]
  constructor
  · rintro ⟨⟨params, parts⟩, selfCalls⟩
    exact ⟨params, parts, selfCalls⟩
  · rintro ⟨params, parts, selfCalls⟩
    exact ⟨⟨params, parts⟩, selfCalls⟩

theorem bodyFindings_eq_nil_iff {constructors : List Constructor}
    (distinct : (constructors.map Constructor.name).Nodup)
    {functions : List Function} :
    bodyFindings constructors functions = [] ↔
      ∀ function ∈ functions, function.KeepsRules constructors := by
  rw [bodyFindings, List.flatMap_eq_nil_iff]
  simp only [List.map_eq_nil_iff, functionBreaches_eq_nil_iff distinct]

theorem severity_of_mem_repeatedParams {seen params : List Name}
    {breach : Breach} (member : breach ∈ repeatedParams seen params) :
    breach.severity = .error := by
  induction params generalizing seen with
  | nil => cases member
  | cons param params ih =>
      rw [repeatedParams] at member
      split at member
      · rcases List.mem_cons.mp member with rfl | later
        · rfl
        · exact ih later
      · exact ih member

theorem severity_of_mem_constructorBreaches {constructors : List Constructor}
    {use : ConstructorUse} {name : Name} {count : Nat} {breach : Breach}
    (member : breach ∈ constructorBreaches constructors use name count) :
    breach.severity = .error := by
  rw [constructorBreaches] at member
  split at member
  · rw [List.mem_singleton.mp member]
    rfl
  · split at member
    · cases member
    · rw [List.mem_singleton.mp member]
      rfl

theorem severity_of_mem_shapeBreaches {alts : List Alt} {breach : Breach}
    (member : breach ∈ shapeBreaches alts) : breach.severity = .error := by
  rw [shapeBreaches] at member
  split at member
  · rw [List.mem_singleton.mp member]
    rfl
  · split at member
    · rw [List.mem_singleton.mp member]
      rfl
    · split at member
      · rw [List.mem_singleton.mp member]
        rfl
      · cases member

theorem severity_of_mem_rootBreaches {constructors : List Constructor}
    {expr : Expr} {breach : Breach}
    (member : breach ∈ rootBreaches constructors expr) :
    breach.severity = .error := by
  cases expr with
  | lam params body => exact severity_of_mem_repeatedParams member
  | con name args tag => exact severity_of_mem_constructorBreaches member
  | case scrutinee alts =>
      rcases List.mem_append.mp member with shape | inPattern
      · exact severity_of_mem_shapeBreaches shape
      · obtain ⟨alt, -, inAlt⟩ := List.mem_flatMap.mp inPattern
        cases alt with
        | con ctor args body => exact severity_of_mem_constructorBreaches inAlt
        | _ => cases inAlt
  | foreign target args =>
      cases target with
      | named name => cases member
      | _ =>
          rw [List.mem_singleton.mp member]
          rfl
  | _ => cases member

/-- Inspecting a function finds errors only. -/
theorem severity_of_mem_functionBreaches {constructors : List Constructor}
    {function : Function} {breach : Breach}
    (member : breach ∈ functionBreaches constructors function) :
    breach.severity = .error := by
  rcases List.mem_append.mp member with inside | selfCall
  · rcases List.mem_append.mp inside with inParams | inBody
    · exact severity_of_mem_repeatedParams inParams
    · rw [exprBreaches_eq] at inBody
      obtain ⟨part, -, atRoot⟩ := List.mem_flatMap.mp inBody
      exact severity_of_mem_rootBreaches atRoot
  · obtain ⟨leaf, -, atLeaf⟩ := List.mem_flatMap.mp selfCall
    split at atLeaf
    · split at atLeaf
      · rw [List.mem_singleton.mp atLeaf]
        rfl
      · cases atLeaf
    · cases atLeaf

namespace Checker

/-- All that is found before the program is looked at as a whole is an error. -/
theorem severity_of_mem_inspected {program : Program} {finding : Finding}
    (member : finding ∈ (inspected program).findings) :
    finding.breach.severity = .error := by
  rcases List.mem_append.mp member with declared | inBody
  · rcases List.mem_append.mp declared with conflict | again
    · obtain ⟨cause, -, rfl⟩ := List.mem_map.mp conflict
      rfl
    · obtain ⟨name, rfl⟩ := mem_repeatFindings again
      rfl
  · obtain ⟨function, -, inFunction⟩ := List.mem_flatMap.mp inBody
    obtain ⟨breach, broken, rfl⟩ := List.mem_map.mp inFunction
    exact severity_of_mem_functionBreaches broken

theorem entryFindings_eq_nil_iff {checker : Checker} {entry : Name} :
    checker.entryFindings entry = [] ↔
      (checker.functions ≠ [] →
        entry ∈ checker.functions.map Function.name) := by
  rw [entryFindings]
  split
  · rename_i kept
    refine iff_of_true rfl fun many => ?_
    rcases Bool.or_eq_true_iff.mp kept with none | found
    · exact (many (List.isEmpty_iff.mp none)).elim
    · exact any_name_iff.mp found
  · rename_i missing
    refine iff_of_false (List.cons_ne_nil _ _) fun kept => missing ?_
    by_cases none : checker.functions = []
    · rw [none]
      rfl
    · rw [any_name_iff.mpr (kept none), Bool.or_true]

theorem hasErrors_eq_false_iff_forall {checker : Checker} :
    checker.hasErrors = false ↔
      ∀ finding ∈ checker.findings, finding.breach.severity ≠ .error := by
  simp [hasErrors, diagnostics, Finding.diagnostic, Breach.finding,
    Diagnostic.isError]

/-- Cycles and unused constructors are warnings, and all else is an error. -/
theorem hasErrors_check_initial (program : Program) :
    (initial.check program).hasErrors = false ↔
      (inspected program).findings = [] ∧
        (inspected program).entryFindings program.entry = [] := by
  rw [hasErrors_eq_false_iff_forall, check_initial, report]
  constructor
  · intro noError
    constructor
    · apply List.eq_nil_iff_forall_not_mem.mpr
      intro finding member
      exact noError finding (List.mem_append_left _ member)
        (severity_of_mem_inspected member)
    · rw [entryFindings] at noError ⊢
      split
      · rfl
      · rename_i missing
        rw [if_neg missing] at noError
        exact (noError ⟨none, .missingEntry program.entry⟩ (by simp) rfl).elim
  · rintro ⟨noFindings, noEntry⟩ finding member
    rw [noFindings, noEntry, List.nil_append, List.nil_append] at member
    rcases List.mem_append.mp member with cycle | unused
    · obtain ⟨function, -, found⟩ := List.mem_filterMap.mp cycle
      obtain ⟨path, -, rfl⟩ := Option.map_eq_some_iff.mp found
      intro same
      cases same
    · obtain ⟨c, -, rfl⟩ := List.mem_map.mp unused
      intro same
      cases same

end Checker

/-- A fresh checker finds no error exactly if the program keeps all rules. -/
theorem accepted_iff_keepsRules (program : Program) :
    (Checker.initial.check program).hasErrors = false ↔ program.KeepsRules := by
  have firsts (distinct : (program.constructors.map Constructor.name).Nodup) :
      firstConstructors [] program.constructors = program.constructors :=
    firstConstructors_of_newTo (NewTo.nil_iff.mpr distinct)
  have firsts' (distinct : (program.functions.map Function.name).Nodup) :
      firstFunctions [] program.functions = program.functions :=
    firstFunctions_of_newTo (NewTo.nil_iff.mpr distinct)
  rw [Checker.hasErrors_check_initial, Checker.entryFindings_eq_nil_iff,
    Checker.inspected]
  simp only [tagFindings, List.append_eq_nil_iff, List.map_eq_nil_iff,
    TagTable.conflicts_eq_nil_iff, repeatFindings_eq_nil_iff, List.map_nil,
    NewTo.nil_iff]
  constructor
  · rintro ⟨⟨⟨⟨constructorNames, givenTags, distinctTags⟩, functionNames⟩,
      bodies⟩, entry⟩
    rw [firsts constructorNames] at bodies
    rw [firsts' functionNames] at entry
    exact ⟨constructorNames, givenTags, distinctTags, functionNames,
      (bodyFindings_eq_nil_iff constructorNames).mp bodies, entry⟩
  · rintro ⟨constructorNames, givenTags, distinctTags, functionNames, bodies,
      entry⟩
    rw [firsts constructorNames, firsts' functionNames]
    exact ⟨⟨⟨⟨constructorNames, givenTags, distinctTags⟩, functionNames⟩,
      (bodyFindings_eq_nil_iff constructorNames).mpr bodies⟩, entry⟩

end Contract

end TailLoop
