import Mathlib.Data.List.Chain
import Mathlib.Logic.Relation
import TailLoop.Proofs.ContractRules
import TailLoop.Proofs.Evaluation

/-!
# Cycles of tail calls

A function is warned about exactly if tail calls of other functions lead from it
back to it.  The search keeps the paths it may still follow on a stack, each
with the functions it went through.  What was visited is only called on from
visited functions or from the stack, so an empty stack leaves nothing to be
found; and no path goes through a visited function again, so every path on the
stack is a simple one.
-/

namespace TailLoop

namespace TailGraph

variable {graph : TailGraph} {start : Name}

/-- The graph has an edge from the first function to the second. -/
def Calls (graph : TailGraph) (caller callee : Name) : Prop :=
  callee ∈ graph.callees caller

/-- The search from a stack comes to its result in so many rounds. -/
inductive Searches (graph : TailGraph) (start : Name) :
    List Name → List (Name × List Name) → Nat → Option (List Name) → Prop where
  | exhausted {seen : List Name} : Searches graph start seen [] 0 none
  | found {seen path : List Name} {rest : List (Name × List Name)} :
      Searches graph start seen ((start, path) :: rest) 1 (some path)
  | skipped {seen path : List Name} {node : Name}
      {rest : List (Name × List Name)} {rounds : Nat}
      {result : Option (List Name)} :
      node ≠ start → node ∈ seen →
      Searches graph start seen rest rounds result →
      Searches graph start seen ((node, path) :: rest) (rounds + 1) result
  | visited {seen path : List Name} {node : Name}
      {rest : List (Name × List Name)} {rounds : Nat}
      {result : Option (List Name)} :
      node ≠ start → node ∉ seen →
      Searches graph start (node :: seen)
        (((graph.callees node).reverse.map fun next =>
          (next, path ++ [next])) ++ rest)
        rounds result →
      Searches graph start seen ((node, path) :: rest) (rounds + 1) result

/-- Every round takes a path from the stack, and every call puts at most one
there. -/
theorem searches_search (graph : TailGraph) (start : Name) (seen : List Name)
    (stack : List (Name × List Name)) :
    ∃ rounds ≤ stack.length + pending seen graph,
      Searches graph start seen stack rounds
        (search graph start seen stack) := by
  induction seen, stack using search.induct graph start with
  | case1 seen =>
      rw [search]
      exact ⟨0, Nat.zero_le _, .exhausted⟩
  | case2 seen path rest =>
      rw [search, if_pos rfl]
      exact ⟨1, by rw [List.length_cons]; omega, .found⟩
  | case3 seen node path rest different visited ih =>
      obtain ⟨rounds, few, searches⟩ := ih
      rw [search, if_neg different, dif_pos visited]
      exact ⟨rounds + 1, by rw [List.length_cons]; omega,
                              .skipped different visited searches⟩
  | case4 seen node path rest different unvisited fewer further ih =>
      obtain ⟨rounds, few, searches⟩ := ih
      rw [search, if_neg different, dif_neg unvisited]
      refine ⟨rounds + 1, ?_, .visited different unvisited searches⟩
      simp only [further, List.length_append, List.length_map,
        List.length_reverse] at few
      rw [List.length_cons]
      omega

/-- A path of calls from the start through distinct functions that were all
visited. -/
structure Followed (graph : TailGraph) (start : Name) (seen : List Name)
    (item : Name × List Name) : Prop where
  calls : (start :: item.2).IsChain graph.Calls
  simple : ∃ passed : List Name, item.2 = passed ++ [item.1] ∧ passed.Nodup ∧
    passed ⊆ seen

theorem Followed.mono {seen more : List Name} {item : Name × List Name}
    (followed : Followed graph start seen item) (fewer : seen ⊆ more) :
    Followed graph start more item := by
  obtain ⟨passed, ends, distinct, within⟩ := followed.simple
  exact ⟨followed.calls, passed, ends, distinct, List.Subset.trans within fewer⟩

/-- A path through a function that was not visited before goes on with its
callees. -/
theorem Followed.next {seen path : List Name} {node callee : Name}
    (followed : Followed graph start seen (node, path))
    (unvisited : node ∉ seen) (calls : graph.Calls node callee) :
    Followed graph start (node :: seen) (callee, path ++ [callee]) := by
  obtain ⟨passed, ends, distinct, within⟩ := followed.simple
  dsimp only at ends
  subst ends
  constructor
  · dsimp only
    rw [List.append_assoc, List.singleton_append,
      List.isChain_cons_append_cons_cons]
    exact ⟨followed.calls, calls, List.isChain_singleton callee⟩
  · refine ⟨passed ++ [node], rfl, ?_, ?_⟩
    · rw [List.nodup_append]
      refine ⟨distinct, List.nodup_singleton node, ?_⟩
      rintro other earlier last own rfl
      rw [List.mem_singleton.mp own] at earlier
      exact unvisited (within earlier)
    · intro other member
      rcases List.mem_append.mp member with earlier | own
      · exact List.mem_cons_of_mem node (within earlier)
      · rw [List.mem_singleton.mp own]
        exact List.mem_cons_self

/-- What the search finds leads back to the start and passes no function
twice. -/
theorem search_eq_some {seen : List Name} {stack : List (Name × List Name)}
    {path : List Name} (fresh : start ∉ seen)
    (followed : ∀ item ∈ stack, Followed graph start seen item)
    (found : search graph start seen stack = some path) :
    ∃ others : List Name, path = others ++ [start] ∧ (start :: others).Nodup ∧
      (start :: path).IsChain graph.Calls := by
  induction seen, stack using search.induct graph start with
  | case1 seen =>
      rw [search] at found
      cases found
  | case2 seen way rest =>
      rw [search, if_pos rfl] at found
      cases found
      obtain ⟨own, -⟩ := List.forall_mem_cons.mp followed
      obtain ⟨passed, ends, distinct, within⟩ := own.simple
      refine ⟨passed, ends, List.nodup_cons.mpr ⟨?_, distinct⟩, own.calls⟩
      exact fun member => fresh (within member)
  | case3 seen node way rest different visited ih =>
      rw [search, if_neg different, dif_pos visited] at found
      exact ih fresh (List.forall_mem_cons.mp followed).2 found
  | case4 seen node way rest different unvisited fewer further ih =>
      rw [search, if_neg different, dif_neg unvisited] at found
      obtain ⟨own, others⟩ := List.forall_mem_cons.mp followed
      apply ih _ _ found
      · rw [List.mem_cons, not_or]
        exact ⟨Ne.symm different, fresh⟩
      · intro item member
        rcases List.mem_append.mp member with pushed | kept
        · obtain ⟨callee, called, rfl⟩ := List.mem_map.mp pushed
          exact own.next unvisited (List.mem_reverse.mp called)
        · exact (others item kept).mono (List.subset_cons_self node seen)

/-- Whatever is called from the start or from a visited function was visited or
waits on the stack. -/
def Covered (graph : TailGraph) (start : Name) (seen : List Name)
    (stack : List (Name × List Name)) : Prop :=
  ∀ caller callee, caller ∈ start :: seen → graph.Calls caller callee →
    callee ∈ seen ∨ callee ∈ stack.map Prod.fst

/-- If the search finds nothing then no calls lead back to the start. -/
theorem search_eq_none {seen : List Name} {stack : List (Name × List Name)}
    (fresh : start ∉ seen) (covered : Covered graph start seen stack)
    (nothing : search graph start seen stack = none) :
    ¬ Relation.TransGen graph.Calls start start := by
  induction seen, stack using search.induct graph start with
  | case1 seen =>
      have visited : ∀ name, Relation.TransGen graph.Calls start name →
          name ∈ seen := by
        intro name reached
        induction reached with
        | single calls =>
            exact (covered _ _ List.mem_cons_self calls).resolve_right (by simp)
        | tail _ calls ih =>
            exact (covered _ _ (List.mem_cons_of_mem _ ih) calls).resolve_right
              (by simp)
      exact fun cycle => fresh (visited start cycle)
  | case2 seen way rest =>
      rw [search, if_pos rfl] at nothing
      cases nothing
  | case3 seen node way rest different visited ih =>
      rw [search, if_neg different, dif_pos visited] at nothing
      apply ih fresh _ nothing
      intro caller callee known calls
      rcases covered caller callee known calls with old | waiting
      · exact .inl old
      · rcases List.mem_cons.mp waiting with rfl | later
        · exact .inl visited
        · exact .inr later
  | case4 seen node way rest different unvisited fewer further ih =>
      rw [search, if_neg different, dif_neg unvisited] at nothing
      apply ih _ _ nothing
      · rw [List.mem_cons, not_or]
        exact ⟨Ne.symm different, fresh⟩
      · intro caller callee known calls
        rw [List.map_append, List.mem_append]
        by_cases own : caller = node
        · subst own
          refine .inr
            (.inl (List.mem_map.mpr ⟨(callee, way ++ [callee]), ?_, rfl⟩))
          exact List.mem_map.mpr ⟨callee, List.mem_reverse.mpr calls, rfl⟩
        · have before : caller ∈ start :: seen := by
            simpa [own] using known
          rcases covered caller callee before calls with old | waiting
          · exact .inl (List.mem_cons_of_mem node old)
          · rcases List.mem_cons.mp waiting with rfl | later
            · exact .inl List.mem_cons_self
            · exact .inr (.inr later)

/-- The path goes from a function through distinct other functions back to
it. -/
structure IsCycle (calls : Name → Name → Prop) (start : Name)
    (path : List Name) : Prop where
  calls : path.IsChain calls
  simple : ∃ others : List Name, path = start :: (others ++ [start]) ∧
    (start :: others).Nodup

theorem cycle?_eq_some {path : List Name}
    (found : graph.cycle? start = some path) :
    IsCycle graph.Calls start (start :: path) := by
  have followed : ∀ item ∈ (graph.callees start).reverse.map fun callee =>
    (callee, [callee]),
      Followed graph start [] item := by
    intro item member
    obtain ⟨callee, called, rfl⟩ := List.mem_map.mp member
    have calls : graph.Calls start callee := List.mem_reverse.mp called
    exact ⟨List.isChain_pair.mpr calls, [], rfl, List.nodup_nil,
      List.nil_subset _⟩
  obtain ⟨others, rfl, distinct, chain⟩ :=
    search_eq_some List.not_mem_nil followed found
  exact ⟨chain, others, rfl, distinct⟩

theorem cycle?_eq_none (nothing : graph.cycle? start = none) :
    ¬ Relation.TransGen graph.Calls start start := by
  apply search_eq_none List.not_mem_nil _ nothing
  intro caller callee known calls
  rw [List.mem_singleton.mp known] at calls
  apply Or.inr
  rw [List.map_map, List.map_reverse, List.mem_reverse]
  exact List.mem_map.mpr ⟨callee, calls, rfl⟩

theorem IsCycle.transGen {calls : Name → Name → Prop} {path : List Name}
    (cycle : IsCycle calls start path) :
    Relation.TransGen calls start start := by
  obtain ⟨others, rfl, -⟩ := cycle.simple
  cases others with
  | nil => exact .single (List.isChain_pair.mp cycle.calls)
  | cons next rest =>
      obtain ⟨calls, chain⟩ := List.isChain_cons_cons.mp cycle.calls
      apply Relation.TransGen.head' calls
      exact List.relationReflTransGen_of_exists_isChain_cons _ chain (by simp)

theorem cycle?_isSome_iff :
    (graph.cycle? start).isSome = true ↔
    Relation.TransGen graph.Calls start start := by
  cases found : graph.cycle? start with
  | none => simpa using cycle?_eq_none found
  | some path => simpa using (cycle?_eq_some found).transGen

end TailGraph

/-- The first function of the one name ends in an application of another that is
defined. -/
def Program.TailCalls (program : Program) (caller callee : Name) : Prop :=
  callee ≠ caller ∧ callee ∈ program.functions.map Function.name ∧
    ∃ function args tail, program.function? caller = some function ∧
      function.body.EndsIn (.app (.var (.named callee)) args tail)

theorem Program.TailCalls.defined {program : Program} {caller callee : Name}
    (called : Relation.TransGen program.TailCalls caller callee) :
    callee ∈ program.functions.map Function.name := by
  cases called with
  | single calls => exact calls.2.1
  | tail _ calls => exact calls.2.1

theorem Expr.mem_tailCallees_iff {expr : Expr} {callee : Name} :
    callee ∈ expr.tailCallees ↔
      ∃ args tail, expr.EndsIn (.app (.var (.named callee)) args tail) := by
  rw [tailCallees, List.mem_filterMap]
  constructor
  · rintro ⟨leaf, place, applied⟩
    unfold calleeName? at applied
    split at applied
    · cases applied
      exact ⟨_, _, app_mem_tailPositions_iff.mp place⟩
    · cases applied
  · rintro ⟨args, tail, ends⟩
    exact ⟨_, app_mem_tailPositions_iff.mpr ends, rfl⟩

namespace TailGraph

theorem mem_calleesOf_iff {defined : List Name} {function : Function}
    {callee : Name} :
    callee ∈ calleesOf defined function ↔
      callee ≠ function.name ∧ callee ∈ defined ∧
        ∃ args tail,
        function.body.EndsIn (.app (.var (.named callee)) args tail) := by
  rw [calleesOf, List.mem_mergeSort, List.mem_eraseDups, List.mem_filter,
    Expr.mem_tailCallees_iff]
  simp only [ne_eq, decide_not, Bool.and_eq_true, Bool.not_eq_true',
    decide_eq_false_iff_not, decide_eq_true_eq]
  tauto

@[simp] theorem lookup_map_name (functions : List Function)
    (value : Function → List Name) (name : Name) :
    (functions.map fun function => (function.name, value function)).lookup
    name =
      (functions.find? fun function => function.name = name).map value := by
  induction functions with
  | nil => rfl
  | cons function rest ih =>
      rw [List.map_cons, List.lookup_cons, List.find?_cons, ih]
      by_cases own : function.name = name
      · simp [own]
      · have different : (name == function.name) = false := by
          simpa using Ne.symm own
        simp [own, different]

end TailGraph

namespace Contract

@[simp] theorem find?_firstFunctions (known functions : List Function)
    (name : Name) :
    (firstFunctions known functions).find? (fun function =>
      function.name = name) =
      (known ++ functions).find? (fun function => function.name = name) := by
  induction functions generalizing known with
  | nil => rw [firstFunctions, List.append_nil]
  | cons function rest ih =>
      rw [firstFunctions]
      by_cases repeated : (known.any fun other => other.name = function.name) =
        true
      · rw [if_pos repeated, ih, List.find?_append, List.find?_append,
          List.find?_cons]
        by_cases own : function.name = name
        · subst own
          obtain ⟨first, found⟩ := Option.isSome_iff_exists.mp
            (List.find?_isSome.mpr (List.any_eq_true.mp repeated))
          rw [found, Option.some_or, Option.some_or]
        · rw [decide_eq_false own]
      · rw [if_neg repeated, ih, List.append_assoc, List.singleton_append]

/-- The functions that count have the names of all functions. -/
@[simp] theorem mem_map_name_firstFunctions {functions : List Function}
    {name : Name} :
    name ∈ (firstFunctions [] functions).map Function.name ↔
      name ∈ functions.map Function.name := by
  rw [← any_name_iff, ← any_name_iff, List.any_eq_true, List.any_eq_true,
    ← List.find?_isSome, ← List.find?_isSome, find?_firstFunctions,
    List.nil_append]

/-- The graph that is searched has the tail calls of the program as its
edges. -/
theorem calls_ofFunctions (program : Program) :
    (TailGraph.ofFunctions (firstFunctions [] program.functions)).Calls =
      program.TailCalls := by
  funext caller callee
  rw [TailGraph.Calls, TailGraph.callees, TailGraph.ofFunctions,
    TailGraph.lookup_map_name, find?_firstFunctions, List.nil_append,
    Program.TailCalls, Program.function?]
  cases found : program.functions.find? fun function =>
    function.name = caller with
  | none => simp
  | some function =>
      have named : function.name = caller := by
        simpa using List.find?_some found
      rw [Option.map_some, Option.getD_some, TailGraph.mem_calleesOf_iff,
        mem_map_name_firstFunctions, named]
      simp

@[simp] theorem code_eq_W310_iff {breach : Breach} :
    breach.code = "W310" ↔ ∃ path, breach = .tailCycle path := by
  cases breach <;> simp [Breach.code] <;> decide

namespace Checker

/-- Only the search for cycles reports them. -/
theorem mem_findings_tailCycle_iff {program : Program} {place : Option Name}
    {path : List Name} :
    ⟨place, .tailCycle path⟩ ∈ (initial.check program).findings ↔
      ∃ name way, place = some name ∧ path = name :: way ∧
        name ∈ program.functions.map Function.name ∧
        (TailGraph.ofFunctions (firstFunctions [] program.functions)).cycle?
        name = some way := by
  rw [check_initial, report]
  constructor
  · intro member
    rcases List.mem_append.mp member with before | whole
    · cases severity_of_mem_inspected before
    · rcases List.mem_append.mp whole with early | unused
      · rcases List.mem_append.mp early with entry | cycle
        · rw [entryFindings] at entry
          split at entry
          · cases entry
          · cases List.mem_singleton.mp entry
        · obtain ⟨function, defined, found⟩ := List.mem_filterMap.mp cycle
          obtain ⟨way, searched, same⟩ := Option.map_eq_some_iff.mp found
          cases same
          exact ⟨function.name, way, rfl, rfl,
            mem_map_name_firstFunctions.mp (List.mem_map_of_mem defined),
            searched⟩
      · obtain ⟨c, -, same⟩ := List.mem_map.mp unused
        cases same
  · rintro ⟨name, way, rfl, rfl, defined, searched⟩
    obtain ⟨function, first, rfl⟩ :=
      List.mem_map.mp (mem_map_name_firstFunctions.mpr defined)
    apply List.mem_append_right
    apply List.mem_append_left
    apply List.mem_append_right
    apply List.mem_filterMap.mpr
    exact ⟨function, first, Option.map_eq_some_iff.mpr ⟨way, searched, rfl⟩⟩

end Checker

end Contract

/-- A fresh checker warns of a function exactly if it lies on a cycle of tail
calls, and the path it shows is such a cycle.  On every graph the search ends,
and it takes no more rounds than there are calls to follow. -/
theorem tail_cycles_reported (program : Program) :
    (∀ name, (∃ finding ∈ (Contract.Checker.initial.check program).findings,
        finding.place = some name ∧ finding.diagnostic.code = "W310") ↔
      Relation.TransGen program.TailCalls name name) ∧
    (∀ finding ∈ (Contract.Checker.initial.check program).findings,
      finding.diagnostic.code = "W310" → ∃ (name : Name) (path : List Name),
        finding.place = some name ∧
        TailGraph.IsCycle program.TailCalls name path ∧
        finding.diagnostic.message =
          "mutual tail recursion is not turned into a loop: " ++
            Text.join " -> " (path.map Name.text)) ∧
    ∀ (graph : TailGraph) (start : Name),
      ∃ rounds ≤ (graph.callees start).length + TailGraph.pending [] graph,
        TailGraph.Searches graph start []
          ((graph.callees start).reverse.map fun callee => (callee, [callee]))
          rounds
          (graph.cycle? start) := by
  have shown : ∀ finding ∈ (Contract.Checker.initial.check program).findings,
      finding.diagnostic.code = "W310" → ∃ name path,
        finding = ⟨some name, .tailCycle path⟩ ∧
          TailGraph.IsCycle program.TailCalls name path := by
    intro finding member coded
    obtain ⟨place, breach⟩ := finding
    obtain ⟨path, rfl⟩ := Contract.code_eq_W310_iff.mp coded
    obtain ⟨name, way, rfl, rfl, -, found⟩ :=
      Contract.Checker.mem_findings_tailCycle_iff.mp member
    refine ⟨name, name :: way, rfl, ?_⟩
    rw [← Contract.calls_ofFunctions]
    exact TailGraph.cycle?_eq_some found
  refine ⟨?_, ?_, ?_⟩
  · intro name
    constructor
    · rintro ⟨finding, member, placed, coded⟩
      obtain ⟨own, path, rfl, cycle⟩ := shown finding member coded
      cases placed
      exact cycle.transGen
    · intro cycle
      have defined := Program.TailCalls.defined cycle
      rw [← Contract.calls_ofFunctions, ← TailGraph.cycle?_isSome_iff] at cycle
      obtain ⟨way, found⟩ := Option.isSome_iff_exists.mp cycle
      refine ⟨⟨some name, .tailCycle (name :: way)⟩, ?_, rfl, rfl⟩
      exact Contract.Checker.mem_findings_tailCycle_iff.mpr
        ⟨name, way, rfl, rfl, defined, found⟩
  · intro finding member coded
    obtain ⟨name, path, rfl, cycle⟩ := shown finding member coded
    exact ⟨name, path, rfl, cycle, rfl⟩
  · intro graph start
    obtain ⟨rounds, few, searches⟩ := TailGraph.searches_search graph start []
      ((graph.callees start).reverse.map fun callee => (callee, [callee]))
    rw [List.length_map, List.length_reverse] at few
    exact ⟨rounds, few, searches⟩

end TailLoop
