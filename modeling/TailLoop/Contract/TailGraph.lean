import TailLoop.Core.Program
import TailLoop.Core.TailPosition

/-!
# Tail calls between functions

The graph has an edge to each other function that is applied in tail position.
A path of such calls that leads back to its start is searched depth first, with
the callees that come last in the order of their texts tried first.
-/

namespace TailLoop

/-- The callees of each function, in ascending order of their texts. -/
abbrev TailGraph := List (Name × List Name)

namespace TailGraph

/-- The functions other than itself that a function applies in tail position. -/
def calleesOf (defined : List Name) (function : Function) : List Name :=
  let callees := function.body.tailCallees.filter fun callee =>
    callee ≠ function.name && callee ∈ defined
  callees.eraseDups.mergeSort fun left right => Text.le left.text right.text

def ofFunctions (functions : List Function) : TailGraph :=
  let defined := functions.map Function.name
  functions.map fun function => (function.name, calleesOf defined function)

def callees (graph : TailGraph) (name : Name) : List Name :=
  (graph.lookup name).getD []

/-- The number of calls in functions that were not visited yet. -/
def pending (seen : List Name) : TailGraph → Nat
  | [] => 0
  | (name, targets) :: graph =>
      (if name ∈ seen then 0 else targets.length) + pending seen graph

theorem pending_cons_le (graph : TailGraph) (seen : List Name) (name : Name) :
    pending (name :: seen) graph ≤ pending seen graph := by
  induction graph with
  | nil => simp [pending]
  | cons node graph ih =>
      simp only [pending, List.mem_cons]
      by_cases old : node.1 ∈ seen
      · simp only [old, or_true, if_true]
        omega
      · by_cases same : node.1 = name
        · simp only [same, true_or, if_true]
          omega
        · simp only [old, same, or_self, if_false]
          omega

/-- Visiting a function takes its calls from the pending ones. -/
theorem length_callees_add_pending_le (graph : TailGraph) {seen : List Name}
    {name : Name} (unseen : name ∉ seen) :
    (callees graph name).length + pending (name :: seen) graph ≤
      pending seen graph := by
  induction graph with
  | nil => simp [callees, pending]
  | cons node graph ih =>
      obtain ⟨other, targets⟩ := node
      by_cases same : name = other
      · subst same
        have := pending_cons_le graph seen name
        simp only [callees, List.lookup_cons_self, Option.getD_some, pending,
          List.mem_cons, true_or, if_true, unseen, if_false]
        omega
      · have different : (name == other) = false := by simpa using same
        have swapped : ¬ other = name := fun equal => same equal.symm
        have rest : callees ((other, targets) :: graph) name =
            callees graph name := by
          simp only [callees, List.lookup_cons, different]
        rw [rest]
        simp only [pending, List.mem_cons, swapped, false_or]
        omega

/-- Searches a way back to `start` from the paths on the stack. -/
def search (graph : TailGraph) (start : Name) (seen : List Name)
    (stack : List (Name × List Name)) : Option (List Name) :=
  match stack with
  | [] => none
  | (node, path) :: rest =>
      if node = start then some path
      else if visited : node ∈ seen then search graph start seen rest
      else
        have := length_callees_add_pending_le graph visited
        let further := (callees graph node).reverse.map fun next =>
          (next, path ++ [next])
        search graph start (node :: seen) (further ++ rest)
termination_by stack.length + pending seen graph
decreasing_by
  · simp
  · simp only [List.length_append, List.length_map, List.length_reverse,
      List.length_cons]
    omega

/-- The path of tail calls from a function back to itself, if there is one. -/
def cycle? (graph : TailGraph) (start : Name) : Option (List Name) :=
  graph.search start [] ((callees graph start).reverse.map fun callee =>
    (callee, [callee]))

end TailGraph

end TailLoop
