import Mathlib.Data.List.Nodup
import TailLoop.Contract.Check

/-!
# What a checker finds

The findings of a fresh checker in closed form: the conflicts between the
constructors come first, then repeated functions, the breaches in every
function, and last what concerns the program as a whole.
-/

namespace TailLoop

namespace Contract

/-- The first declaration of every name, after those known before. -/
def firstConstructors (known : List Constructor) :
    List Constructor → List Constructor
  | [] => known
  | c :: rest =>
      if (findConstructor? known c.name).isSome then
        firstConstructors known rest
      else firstConstructors (known ++ [c]) rest

/-- The first function of every name, after those known before. -/
def firstFunctions (known : List Function) : List Function → List Function
  | [] => known
  | function :: rest =>
      if known.any fun other => other.name = function.name then
        firstFunctions known rest
      else firstFunctions (known ++ [function]) rest

def tagFindings (constructors : List Constructor) : List Finding :=
  (TagTable.conflicts constructors).map fun conflict =>
    ⟨none, .tagConflict conflict⟩

def repeatFindings (known : List Function) : List Function → List Finding
  | [] => []
  | function :: rest =>
      if known.any fun other => other.name = function.name then
        ⟨some function.name, .repeatedFunction function.name⟩ ::
          repeatFindings known rest
      else repeatFindings (known ++ [function]) rest

def bodyFindings (constructors : List Constructor) (functions : List Function) :
    List Finding :=
  functions.flatMap fun function =>
    (functionBreaches constructors function).map fun breach =>
      ⟨some function.name, breach⟩

/-- The declared constructors that functions mention, those of later functions
first. -/
def usedConstructors (constructors : List Constructor) :
    List Function → List Name
  | [] => []
  | function :: rest =>
      usedConstructors constructors rest ++
        (exprConstructors function.body).filter fun name =>
        (findConstructor? constructors name).isSome

namespace Checker

theorem registerTags_ok {constructors : List Constructor} {tags : TagTable}
    (built : TagTable.ofConstructors constructors = .ok tags)
    (checker : Checker) :
    checker.registerTags constructors = { checker with tags := tags } := by
  rw [registerTags, built]

@[simp] theorem foldl_registerConstructor (constructors : List Constructor)
    (checker : Checker) :
    constructors.foldl registerConstructor checker =
      { checker with
        constructors :=
          firstConstructors checker.constructors constructors } := by
  induction constructors generalizing checker with
  | nil => rfl
  | cons c rest ih =>
      rw [List.foldl_cons, ih, registerConstructor, firstConstructors]
      split <;> rfl

@[simp] theorem foldl_registerFunction (functions : List Function)
    (checker : Checker) :
    functions.foldl registerFunction checker =
      { checker with
        functions := firstFunctions checker.functions functions
        findings :=
          checker.findings ++ repeatFindings checker.functions functions } := by
  induction functions generalizing checker with
  | nil => simp [firstFunctions, repeatFindings]
  | cons function rest ih =>
      rw [List.foldl_cons, ih, registerFunction, firstFunctions, repeatFindings]
      split
      · simp [report]
      · rfl

@[simp] theorem foldl_inspect (functions : List Function) (checker : Checker) :
    functions.foldl inspect checker =
      { checker with
        findings :=
          checker.findings ++ bodyFindings checker.constructors functions
        used := usedConstructors checker.constructors functions ++
          checker.used } := by
  induction functions generalizing checker with
  | nil => simp [bodyFindings, usedConstructors]
  | cons function rest ih =>
      rw [List.foldl_cons, ih]
      simp [inspect, report, bodyFindings, usedConstructors]

/-- What a fresh checker knows before it looks at the program as a whole. -/
def inspected (program : Program) : Checker where
  tags := (initial.registerTags program.constructors).tags
  findings := tagFindings program.constructors ++
    repeatFindings [] program.functions ++
    bodyFindings (firstConstructors [] program.constructors) program.functions
  functions := firstFunctions [] program.functions
  constructors := firstConstructors [] program.constructors
  used := usedConstructors (firstConstructors [] program.constructors)
    program.functions

theorem registerTags_initial (constructors : List Constructor) :
    initial.registerTags constructors =
      { initial with
        tags := (initial.registerTags constructors).tags
        findings := tagFindings constructors } := by
  rw [registerTags, TagTable.ofConstructors, tagFindings]
  cases found : TagTable.conflicts constructors <;> rfl

theorem check_initial (program : Program) :
    initial.check program = (inspected program).report
      ((inspected program).entryFindings program.entry ++
        (inspected program).cycleFindings ++
          (inspected program).unusedFindings) := by
  have before :
      program.functions.foldl inspect (program.functions.foldl registerFunction
      (program.constructors.foldl registerConstructor
        (initial.registerTags program.constructors))) = inspected program := by
    rw [registerTags_initial, foldl_registerConstructor, foldl_registerFunction,
      foldl_inspect]
    simp [inspected, initial]
  rw [check, before]

theorem tags_check_initial {program : Program} {tags : TagTable}
    (built : TagTable.ofConstructors program.constructors = .ok tags) :
    (initial.check program).tags = tags := by
  rw [check_initial, report, inspected, registerTags_ok built]

/-- The breaches of a function are found in it. -/
theorem mem_findings_of_mem_functionBreaches {program : Program}
    {function : Function} {breach : Breach}
    (defined : function ∈ program.functions) (broken : breach ∈
      functionBreaches (firstConstructors [] program.constructors) function) :
    ⟨some function.name, breach⟩ ∈ (initial.check program).findings := by
  rw [check_initial, report, inspected]
  apply List.mem_append_left
  apply List.mem_append_right
  exact List.mem_flatMap.mpr ⟨function, defined,
    List.mem_map.mpr ⟨breach, broken, rfl⟩⟩

theorem mem_repeatFindings {known functions : List Function} {finding : Finding}
    (member : finding ∈ repeatFindings known functions) :
    ∃ name, finding = ⟨some name, .repeatedFunction name⟩ := by
  induction functions generalizing known with
  | nil => cases member
  | cons function rest ih =>
      rw [repeatFindings] at member
      split at member
      · rcases List.mem_cons.mp member with own | later
        · exact ⟨function.name, own⟩
        · exact ih later
      · exact ih member

/-- Where no function is repeated all names are distinct. -/
theorem nodup_of_repeatFindings (known : List Function)
    {functions : List Function} (distinct : (known.map Function.name).Nodup)
    (noneFound : repeatFindings known functions = []) :
    ((known ++ functions).map Function.name).Nodup := by
  induction functions generalizing known with
  | nil =>
      rw [List.append_nil]
      exact distinct
  | cons function rest ih =>
      rw [repeatFindings] at noneFound
      split at noneFound
      · cases noneFound
      · rename_i fresh
        rw [List.append_cons]
        refine ih _ ?_ noneFound
        rw [List.map_append, List.nodup_append]
        refine ⟨distinct, List.nodup_singleton _, ?_⟩
        rintro name before other own rfl
        obtain ⟨earlier, member, same⟩ := List.mem_map.mp before
        cases List.mem_singleton.mp own
        exact fresh
          (List.any_eq_true.mpr ⟨earlier, member, decide_eq_true same⟩)

/-- Without an error no two functions share a name. -/
theorem nodup_of_not_hasErrors {program : Program}
    (accepted : (initial.check program).hasErrors = false) :
    (program.functions.map Function.name).Nodup := by
  refine nodup_of_repeatFindings [] List.nodup_nil
    (List.eq_nil_iff_forall_not_mem.mpr ?_)
  intro finding member
  obtain ⟨name, rfl⟩ := mem_repeatFindings member
  have found : ⟨some name, .repeatedFunction name⟩ ∈
      (initial.check program).findings := by
    rw [check_initial, report, inspected]
    exact List.mem_append_left _
      (List.mem_append_left _ (List.mem_append_right _ member))
  have noError := List.any_eq_false.mp accepted _ (List.mem_map_of_mem found)
  exact noError rfl

/-- Without an error the tag table was made. -/
theorem ofConstructors_of_not_hasErrors {program : Program}
    (accepted : (initial.check program).hasErrors = false) :
    ∃ tags, TagTable.ofConstructors program.constructors = .ok tags := by
  cases none : TagTable.conflicts program.constructors with
  | nil => exact ⟨_, by rw [TagTable.ofConstructors, none]⟩
  | cons conflict conflicts =>
      have found : ⟨Option.none, .tagConflict conflict⟩ ∈
          (initial.check program).findings := by
        rw [check_initial, report, inspected, tagFindings, none]
        simp
      have noError :=
        List.any_eq_false.mp accepted _ (List.mem_map_of_mem found)
      exact (noError rfl).elim

end Checker

end Contract

end TailLoop
