import Mathlib.Algebra.Order.Ring.Nat
import Mathlib.Order.Nat
import TailLoop.Proofs.ControlPaths
import TailLoop.Proofs.DecisionReach

/-!
# Balanced decisions

The code of a decision tree has the shape of a tree: comparisons of tags above
groups of tests.  A route leads over comparisons to a group.  Halving the
alternatives bounds the comparisons on a route by the logarithm of their number,
leaves groups of two or three, and keeps the alternatives in the order of their
tags.  Control takes one of the routes and then goes along the tests of its
group into the suite of an alternative.
-/

namespace TailLoop

namespace Code

/-- Comparisons of the tag of a subject, with chains of tests below them. -/
inductive Decision where
  | group (chain : List Clause)
  | compare (pivot : Int) (low high : Decision)

/-- A way down to a group: the tags that the tag of the subject is compared
with, each with the answer, and the tests of the group. -/
structure Route where
  comparisons : List (Int × Bool)
  chain : List Clause

def Route.after (pivot : Int) (below : Bool) (route : Route) : Route :=
  { route with comparisons := (pivot, below) :: route.comparisons }

namespace Decision

def code (subject : Var) : Decision → List Stmt
  | .group chain => [.branch subject chain]
  | .compare pivot low high =>
      [.branch subject
        [.mk (.tagBelow pivot) (low.code subject),
          .mk .otherwise (high.code subject)]]

/-- The routes in the order of the code. -/
def routes : Decision → List Route
  | .group chain => [⟨[], chain⟩]
  | .compare pivot low high =>
      low.routes.map (Route.after pivot true) ++
        high.routes.map (Route.after pivot false)

end Decision

/-- The line of a test. -/
def Guard.visit (layout : Layout) (leading : Bool) (subject : Var)
    (guard : Guard) : Visit :=
  ⟨[], guard.header layout leading subject, []⟩

/-- The lines of a comparison that control passes: the test and, if it fails,
the `else`. -/
def comparisonVisits (layout : Layout) (subject : Var) : Int × Bool → List Visit
  | (pivot, true) => [(Guard.tagBelow pivot).visit layout true subject]
  | (pivot, false) =>
      [(Guard.tagBelow pivot).visit layout true subject,
        Guard.otherwise.visit layout false subject]

/-- The lines of the tests of a chain. -/
def chainVisits (layout : Layout) (leading : Bool) (subject : Var) :
    List Clause → List Visit
  | [] => []
  | .mk guard _ :: clauses =>
      guard.visit layout leading subject ::
        chainVisits layout false subject clauses

/-- Control passes the tests of a chain up to one of them, and goes on in its
suite. -/
def Along (layout : Layout) (leading : Bool) (subject : Var)
    (chain : List Clause) (path : Path) : Prop :=
  ∃ asked guard suite others inner, chain = asked ++ .mk guard suite :: others ∧
    inner ∈ Stmt.pathsList layout suite ∧
    path = ⟨chainVisits layout leading subject (asked ++ [.mk guard suite]) ++
      inner.visits, inner.goesOn⟩

/-- Control passes the comparisons of the route and nothing but the tests of its
group after them. -/
def Route.Takes (layout : Layout) (subject : Var) (route : Route)
    (path : Path) : Prop :=
  ∃ rest : Path, Along layout true subject route.chain rest ∧
    path = ⟨route.comparisons.flatMap (comparisonVisits layout subject) ++
      rest.visits, rest.goesOn⟩

/-- The last clause of a chain has no test, so that control never leaves the
chain unanswered. -/
def Exhaustive (chain : List Clause) : Prop :=
  ∃ tests suite, chain = tests ++ [.mk .otherwise suite]

@[simp] theorem Path.sequel_done (paths : List Path) :
    sequel paths [⟨[], true⟩] = paths := by
  have alone (path : Path) :
      (if path.goesOn then [(⟨[], true⟩ : Path)].map path.andThen else [path]) =
        [path] := by
    obtain ⟨visits, goesOn⟩ := path
    cases goesOn with
    | true =>
        rw [if_pos rfl, List.map_singleton, andThen, List.append_nil]
    | false => exact if_neg Bool.false_ne_true
  rw [sequel]
  simp only [alone]
  exact List.flatMap_singleton' paths

@[simp] theorem Stmt.pathsList_branch (layout : Layout) (subject : Var)
    (clauses : List Clause) :
    pathsList layout [.branch subject clauses] =
      clausesPaths layout subject true clauses := by
  rw [pathsList, pathsList, Path.sequel_done, paths]

theorem along_of_mem_clausesPaths {layout : Layout} {leading : Bool}
    {subject : Var} {chain : List Clause} (exhaustive : Exhaustive chain)
    {path : Path}
    (member : path ∈ Stmt.clausesPaths layout subject leading chain) :
    Along layout leading subject chain path := by
  obtain ⟨tests, last, rfl⟩ := exhaustive
  induction tests generalizing leading path with
  | nil =>
      rw [List.nil_append, Stmt.clausesPaths] at member
      obtain ⟨inner, inSuite, rfl⟩ := List.mem_map.mp member
      rw [show Guard.otherwise.isOtherwise = true from rfl, if_pos rfl,
        List.append_nil] at inSuite
      exact ⟨[], .otherwise, last, [], inner, rfl, inSuite, rfl⟩
  | cons test tests ih =>
      obtain ⟨guard, suite⟩ := test
      rw [List.cons_append, Stmt.clausesPaths] at member
      obtain ⟨inner, onward, rfl⟩ := List.mem_map.mp member
      rcases List.mem_append.mp onward with inSuite | next
      · exact ⟨[], guard, suite, _, inner, rfl, inSuite, rfl⟩
      · split at next
        · cases next
        · obtain ⟨asked, guard', suite', others, deeper, form, inSuite, rfl⟩ :=
            ih next
          refine ⟨.mk guard suite :: asked, guard', suite', others, deeper, ?_,
            inSuite, rfl⟩
          exact congrArg (Clause.mk guard suite :: ·) form

/-- Every path of control through a decision takes one of its routes. -/
theorem Decision.exists_route {layout : Layout} {subject : Var}
    {decision : Decision}
    (exhaustive : ∀ route ∈ decision.routes, Exhaustive route.chain)
    {path : Path}
    (member : path ∈ Stmt.pathsList layout (decision.code subject)) :
    ∃ route ∈ decision.routes, route.Takes layout subject path := by
  induction decision generalizing path with
  | group chain =>
      have own :=
        List.mem_singleton.mpr (rfl : (⟨[], chain⟩ : Route) = ⟨[], chain⟩)
      rw [code, Stmt.pathsList_branch] at member
      exact ⟨_, own, path, along_of_mem_clausesPaths (exhaustive _ own) member,
        rfl⟩
  | compare pivot low high lowRoute highRoute =>
      rw [routes, List.forall_mem_append, List.forall_mem_map,
        List.forall_mem_map] at exhaustive
      rw [code, Stmt.pathsList_branch, Stmt.clausesPaths] at member
      obtain ⟨onward, inHalves, rfl⟩ := List.mem_map.mp member
      rcases List.mem_append.mp inHalves with inLow | inHigh
      · obtain ⟨route, among, rest, along, rfl⟩ := lowRoute exhaustive.1 inLow
        refine ⟨route.after pivot true, ?_, rest, along, rfl⟩
        exact List.mem_append_left _ (List.mem_map_of_mem among)
      · rw [show (Guard.tagBelow pivot).isOtherwise = false from rfl,
          if_neg Bool.false_ne_true, Stmt.clausesPaths] at inHigh
        obtain ⟨inner, inSuite, rfl⟩ := List.mem_map.mp inHigh
        rw [show Guard.otherwise.isOtherwise = true from rfl, if_pos rfl,
          List.append_nil] at inSuite
        obtain ⟨route, among, rest, along, rfl⟩ :=
          highRoute exhaustive.2 inSuite
        refine ⟨route.after pivot false, ?_, rest, along, rfl⟩
        exact List.mem_append_right _ (List.mem_map_of_mem among)

end Code

open Code (Stmt Clause Guard Decision Route)

/-- An alternative for constructed values of a tag. -/
def Alt.HasTag (tags : TagTable) (tag : Int) (alt : Alt) : Prop :=
  ∃ ctor args body, alt = .con ctor args body ∧ tags.tagOf? ctor = some tag

namespace Lowering

variable {context : Context} {subject result : Var}

/-- The clause of an alternative: a test for its tag above its code. -/
inductive TestsFor (context : Context) (subject result : Var) :
    Int × Alt → Clause → Prop where
  | intro {tag : Int} {ctor : Name} {args : List Name} {body : Expr}
      {before after : State} {suite : List Stmt} :
      arm subject result ((Alt.con ctor args body).branch context) before =
        .ok ((), after, suite) →
      TestsFor context subject result (tag, .con ctor args body)
        (.mk (.hasTag tag ctor) suite)

/-- The clause after all tests: the default, or the failure if there is none. -/
inductive Completes (context : Context) (subject result : Var) :
    Option Expr → Clause → Prop where
  | default {body : Expr} {before after : State} {suite : List Stmt} :
      arm subject result ((Alt.default body).branch context) before =
        .ok ((), after, suite) →
      Completes context subject result (some body) (.mk .otherwise suite)
  | unreachable :
      Completes context subject result none (.mk .otherwise [.unreachable])

/-- The chain of a group: one test for each alternative, in their order. -/
inductive ChainFor (context : Context) (subject result : Var)
    (default : Option Expr) :
    List (Int × Alt) → List Clause → Prop where
  | intro {group : List (Int × Alt)} {tests : List Clause} {last : Clause} :
      List.Forall₂ (TestsFor context subject result) group tests →
      Completes context subject result default last →
      ChainFor context subject result default group (tests ++ [last])

theorem ChainFor.exhaustive {default : Option Expr} {group : List (Int × Alt)}
    {chain : List Clause}
    (made : ChainFor context subject result default group chain) :
    Code.Exhaustive chain := by
  obtain ⟨-, completes⟩ := made
  cases completes with
  | default => exact ⟨_, _, rfl⟩
  | unreachable => exact ⟨_, _, rfl⟩

/-- The branches of tagged alternatives. -/
abbrev taggedBranches (context : Context) (tagged : List (Int × Alt)) :
    List (Int × Branch) :=
  tagged.map fun pair => (pair.1, pair.2.branch context)

/-- The branch of a default. -/
abbrev defaultBranch (context : Context) (default : Option Expr) :
    Option Branch :=
  (default.map Alt.default).map (Alt.branch context)

theorem testsFor_of_clauses {group : List (Int × Alt)} {branches : List Branch}
    {made : List Clause} {state after : State} {code : List Stmt}
    (declared : ∀ pair ∈ group, pair.2.HasTag context.tags pair.1)
    (ran : clauses context subject result
      ((taggedBranches context group).map Prod.snd ++ branches) state =
        .ok (made, after, code)) :
    ∃ tests others middle further, made = tests ++ others ∧
      List.Forall₂ (TestsFor context subject result) group tests ∧
      clauses context subject result branches middle =
        .ok (others, after, further) := by
  induction group generalizing state made code with
  | nil => exact ⟨[], made, state, code, rfl, .nil, ran⟩
  | cons pair group ih =>
      obtain ⟨own, later⟩ := List.forall_mem_cons.mp declared
      obtain ⟨first, _, _, _, firstRan, restRan, rfl⟩ := bind_eq_ok.mp ran
      obtain ⟨guard, suite, rfl, rfl, guardIs, armRan⟩ := clause_eq_ok firstRan
      obtain ⟨rest, othersRan, rfl⟩ := bind_pure_eq_ok.mp restRan
      obtain ⟨tests, others, middle, further, rfl, each, ranOthers⟩ :=
        ih later othersRan
      obtain ⟨tag, alt⟩ := pair
      obtain ⟨ctor, args, body, rfl, found⟩ := own
      have isTest : guard = .hasTag tag ctor := by
        simp only [Alt.branch, Alt.pattern, Pattern.guard?, found,
          Option.map_some, Option.some.injEq] at guardIs
        exact guardIs.symm
      subst isTest
      exact ⟨_, others, middle, further, rfl, .cons (.intro armRan) each,
        ranOthers⟩

/-- A group of alternatives becomes a chain. -/
theorem chainFor_of_emitChain {group : List (Int × Alt)} {default : Option Expr}
    {state after : State} {code : List Stmt}
    (declared : ∀ pair ∈ group, pair.2.HasTag context.tags pair.1)
    (ran : emitChain context subject result
      ((taggedBranches context group).map Prod.snd ++
      (defaultBranch context default).toList) state = .ok ((), after, code)) :
    ∃ chain, code = [.branch subject chain] ∧
      ChainFor context subject result default group chain := by
  obtain ⟨made, last, madeRan, lastIs, rfl⟩ := emitChain_eq_ok ran
  obtain ⟨tests, others, middle, further, rfl, each, othersRan⟩ :=
    testsFor_of_clauses declared madeRan
  cases default with
  | none =>
      obtain ⟨rfl, rfl, rfl⟩ := pure_eq_ok.mp othersRan
      have noDefault : last.pattern.isDefault = false := by
        have member := List.mem_of_getLast? lastIs
        simp only [defaultBranch, Option.map_none, Option.toList_none,
          List.append_nil, List.map_map, List.mem_map] at member
        obtain ⟨pair, inGroup, rfl⟩ := member
        obtain ⟨ctor, args, body, form, -⟩ := declared pair inGroup
        simp only [Function.comp_apply, Alt.branch, form, Alt.pattern,
          Pattern.isDefault]
      rw [noDefault, List.append_nil]
      exact ⟨_, rfl, .intro each .unreachable⟩
  | some body =>
      obtain ⟨first, _, _, _, firstRan, restRan, rfl⟩ := bind_eq_ok.mp othersRan
      obtain ⟨guard, suite, rfl, rfl, guardIs, armRan⟩ := clause_eq_ok firstRan
      obtain ⟨rest, noneRan, rfl⟩ := bind_pure_eq_ok.mp restRan
      obtain ⟨rfl, rfl, rfl⟩ := pure_eq_ok.mp noneRan
      cases guardIs
      have isDefault : last.pattern.isDefault = true := by
        rw [defaultBranch, Option.map_some, Option.map_some, Option.toList_some,
          List.getLast?_concat] at lastIs
        cases lastIs
        rfl
      rw [isDefault, if_pos rfl, List.append_nil]
      exact ⟨_, rfl, .intro each (.default armRan)⟩

/-- What halving makes of tagged alternatives: a decision and its groups. -/
structure Halves (context : Context) (subject result : Var)
    (default : Option Expr) (tagged : List (Int × Alt)) (decision : Decision)
    (groups : List (List (Int × Alt))) :
    Prop where
  chains : List.Forall₂
    (fun route group => ChainFor context subject result default group
      route.chain)
    decision.routes groups
  all : groups.flatten = tagged
  few : ∀ group ∈ groups, group.length ≤ groupSize
  several : 2 ≤ tagged.length → ∀ group ∈ groups, 2 ≤ group.length
  shallow : ∀ depth, tagged.length ≤ groupSize * 2 ^ depth →
    ∀ route ∈ decision.routes, route.comparisons.length ≤ depth

/-- One group is not halved. -/
theorem Halves.group {default : Option Expr} {tagged : List (Int × Alt)}
    {chain : List Clause} (narrow : tagged.length ≤ groupSize)
    (made : ChainFor context subject result default tagged chain) :
    Halves context subject result default tagged (.group chain) [tagged] where
  chains := .cons made .nil
  all := List.flatten_singleton
  few := List.forall_mem_singleton.mpr narrow
  several := fun two => List.forall_mem_singleton.mpr two
  shallow := fun depth _ => List.forall_mem_singleton.mpr (Nat.zero_le depth)

/-- A comparison puts two halves together. -/
theorem Halves.compare {default : Option Expr}
    {lower upper tagged : List (Int × Alt)} {pivot : Int} {low high : Decision}
    {lowGroups highGroups : List (List (Int × Alt))}
    (whole : lower ++ upper = tagged) (wide : groupSize < tagged.length)
    (even : lower.length ≤ upper.length)
    (nearly : upper.length ≤ lower.length + 1)
    (first : Halves context subject result default lower low lowGroups)
      (second : Halves context subject result default upper high highGroups) :
    Halves context subject result default tagged (.compare pivot low high)
      (lowGroups ++ highGroups) := by
  subst whole
  rw [List.length_append, groupSize] at wide
  constructor
  case chains =>
    exact List.rel_append (List.forall₂_map_left_iff.mpr first.chains)
      (List.forall₂_map_left_iff.mpr second.chains)
  case all => rw [List.flatten_append, first.all, second.all]
  case few => exact List.forall_mem_append.mpr ⟨first.few, second.few⟩
  case several =>
    intro _
    exact List.forall_mem_append.mpr
      ⟨first.several (by omega), second.several (by omega)⟩
  case shallow =>
    intro depth enough
    rw [List.length_append, groupSize] at enough
    cases depth with
    | zero => omega
    | succ depth =>
        rw [Nat.pow_succ] at enough
        have lowFits : lower.length ≤ groupSize * 2 ^ depth := by
          rw [groupSize]
          omega
        have highFits : upper.length ≤ groupSize * 2 ^ depth := by
          rw [groupSize]
          omega
        rw [Decision.routes, List.forall_mem_append, List.forall_mem_map,
          List.forall_mem_map]
        exact ⟨fun route member =>
          Nat.succ_le_succ (first.shallow depth lowFits route member),
            fun route member =>
              Nat.succ_le_succ (second.shallow depth highFits route member)⟩

theorem Halves.of_emitTree {default : Option Expr} {tagged : List (Int × Alt)}
    {state after : State} {code : List Stmt}
    (declared : ∀ pair ∈ tagged, pair.2.HasTag context.tags pair.1)
    (ran : emitTree context subject result (defaultBranch context default)
      (taggedBranches context tagged) state = .ok ((), after, code)) :
    ∃ decision groups, code = decision.code subject ∧
      Halves context subject result default tagged decision groups := by
  generalize form : taggedBranches context tagged = branches at ran
  induction branches using emitTree.induct
    generalizing tagged state after code with
  | case1 branches wide inside lowHalf highHalf =>
      obtain ⟨middle, low, high, lowRan, highRan, rfl⟩ :=
        emitTree_eq_ok wide inside ran
      subst form
      rw [List.length_map] at wide lowHalf highHalf lowRan highRan
      obtain ⟨lowDecision, lowGroups, rfl, lowHalves⟩ := lowHalf
        (fun pair member => declared pair (List.mem_of_mem_take member))
        (List.map_take ..) lowRan
      obtain ⟨highDecision, highGroups, rfl, highHalves⟩ := highHalf
        (fun pair member => declared pair (List.mem_of_mem_drop member))
        (List.map_drop ..) highRan
      refine ⟨.compare _ lowDecision highDecision, lowGroups ++ highGroups, rfl,
        ?_⟩
      apply Halves.compare (List.take_append_drop (tagged.length / 2) tagged)
        wide _ _ lowHalves highHalves
      · rw [List.length_take, List.length_drop]
        omega
      · rw [List.length_take, List.length_drop]
        omega
  | case2 branches narrow =>
      subst form
      rw [emitTree, dif_neg narrow] at ran
      obtain ⟨chain, rfl, made⟩ := chainFor_of_emitChain declared ran
      rw [List.length_map, Nat.not_lt] at narrow
      exact ⟨.group chain, [tagged], rfl, .group narrow made⟩

/-- Alternatives with distinct tags are all kept. -/
theorem Tagged.eq_of_distinct {seen : List Int} {tagged : List (Int × Alt)}
    {chosen : List (Int × Branch)}
    (declared : ∀ pair ∈ tagged, pair.2.HasTag context.tags pair.1)
    (distinct : (tagged.map Prod.fst).Nodup)
    (unseen : ∀ pair ∈ tagged, pair.1 ∉ seen)
    (collected : Tagged context.tags seen
      ((taggedBranches context tagged).map Prod.snd) chosen) :
    chosen = taggedBranches context tagged := by
  induction tagged generalizing seen chosen with
  | nil =>
      cases collected
      rfl
  | cons pair tagged ih =>
      obtain ⟨own, later⟩ := List.forall_mem_cons.mp declared
      obtain ⟨new, others⟩ := List.forall_mem_cons.mp unseen
      obtain ⟨absent, rest⟩ := List.nodup_cons.mp distinct
      have sameTag {tag : Int}
          (has : (pair.2.branch context).HasTag context.tags tag) :
          tag = pair.1 := by
        obtain ⟨ctor, args, body, form, found⟩ := own
        obtain ⟨ctor', args', form', found'⟩ := has
        rw [form] at form'
        cases form'
        exact Option.some.inj (found'.symm.trans found)
      cases collected with
      | repeated has old _ =>
          rw [sameTag has] at old
          exact (new old).elim
      | first has _ collected =>
          cases sameTag has
          refine congrArg _ (ih later rest ?_ collected)
          intro other member
          refine List.not_mem_cons_of_ne_of_not_mem ?_ (others other member)
          intro same
          exact absent (same ▸ List.mem_map_of_mem member)

/-- The alternatives in the order of their tags. -/
def byTag (tagged : List (Int × Alt)) : List (Int × Alt) :=
  tagged.mergeSort fun left right => decide (left.1 ≤ right.1)

theorem taggedBranches_byTag (context : Context) (tagged : List (Int × Alt)) :
    taggedBranches context (byTag tagged) =
      (taggedBranches context tagged).mergeSort fun left right =>
        decide (left.1 ≤ right.1) :=
  List.map_mergeSort fun _ _ _ _ => rfl

theorem increasing_byTag {tagged : List (Int × Alt)}
    (distinct : (tagged.map Prod.fst).Nodup) :
    ((byTag tagged).map Prod.fst).Pairwise (· < ·) :=
  List.pairwise_map.mpr (sorted_of_distinct (List.pairwise_map.mp distinct))

/-- The decision is balanced between the tagged alternatives, which it divides
into groups. -/
structure Balanced (context : Context) (subject result : Var)
    (default : Option Expr) (tagged : List (Int × Alt)) (decision : Decision)
    (groups : List (List (Int × Alt))) :
    Prop where
  /-- Each route leads to the chain of the group at its place. -/
  chains : List.Forall₂
    (fun route group => ChainFor context subject result default group
      route.chain)
    decision.routes groups
  /-- The comparisons on a route are as few as the number of alternatives
  allows. -/
  shallow : ∃ depth, IsLeast {depth | tagged.length ≤ 3 * 2 ^ depth} depth ∧
    ∀ route ∈ decision.routes, route.comparisons.length ≤ depth
  few : ∀ group ∈ groups, group.length ≤ 3
  several : 3 < tagged.length → ∀ group ∈ groups, group.length = 2 ∨
    group.length = 3
  complete : groups.flatten.Perm tagged
  increasing : (groups.flatten.map Prod.fst).Pairwise (· < ·)

theorem Halves.balanced {default : Option Expr} {tagged : List (Int × Alt)}
    {decision : Decision} {groups : List (List (Int × Alt))}
    (distinct : (tagged.map Prod.fst).Nodup)
    (halves : Halves context subject result default (byTag tagged)
      decision groups) :
    Balanced context subject result default tagged decision groups := by
  have sameLength : (byTag tagged).length = tagged.length :=
    List.length_mergeSort ..
  constructor
  case chains => exact halves.chains
  case shallow =>
    have enough : ∃ depth, tagged.length ≤ 3 * 2 ^ depth := by
      refine ⟨tagged.length, ?_⟩
      have := @Nat.lt_two_pow_self tagged.length
      omega
    refine ⟨Nat.find enough, Nat.isLeast_find enough, halves.shallow _ ?_⟩
    rw [sameLength]
    exact Nat.find_spec enough
  case few => exact halves.few
  case several =>
    intro wide group member
    have two := halves.several (by omega) group member
    have three := halves.few group member
    rw [groupSize] at three
    omega
  case complete =>
    rw [halves.all]
    exact List.mergeSort_perm ..
  case increasing =>
    rw [halves.all]
    exact increasing_byTag distinct

theorem Balanced.exhaustive {default : Option Expr} {tagged : List (Int × Alt)}
    {decision : Decision} {groups : List (List (Int × Alt))}
    (balanced : Balanced context subject result default tagged
      decision groups) :
    ∀ route ∈ decision.routes, Code.Exhaustive route.chain := by
  have each := balanced.chains.imp fun _ _ made =>
    And.intro made.exhaustive made
  exact ((List.forall₂_and_left _ _).mp each).1

end Lowering

open Lowering

/-- Constructor alternatives with distinct tags, and a default or none: the code
of their tree is that of a balanced decision.  Each route compares the tag at
most as often as the least number `depth` with `tagged.length ≤ 3 * 2 ^ depth`
says, and leads to one group of at most three tests; beyond three alternatives
every group has two or three.  The groups hold every alternative once, by
increasing tags.  Every path of control takes a route, and what it passes
besides is inside the suite of an alternative.  The tree can be built if the
bodies can be lowered. -/
theorem decision_trees_balanced (context : Context) (subject : Var)
    (tagged : List (Int × Alt)) (default : Option Expr) (many : tagged ≠ [])
    (declared : ∀ pair ∈ tagged, pair.2.HasTag context.tags pair.1)
    (distinct : (tagged.map Prod.fst).Nodup) :
    let alts := tagged.map Prod.snd ++ (default.map Alt.default).toList
    let branches := Expr.lowerAlts context alts
    (∀ state term after code,
      tree context subject branches state = .ok (term, after, code) →
      ∃ result decision groups, term = .var result ∧
      code = decision.code subject ∧
        Balanced context subject result default tagged decision groups ∧
        ∀ layout, ∀ path ∈ Stmt.pathsList layout code,
          ∃ route ∈ decision.routes, route.Takes layout subject path) ∧
    ((∀ alt ∈ alts, Succeeds (alt.body.lower context)) →
      Succeeds (tree context subject branches)) := by
  intro alts branches
  have constructors : (taggedBranches context tagged).map Prod.snd =
      (tagged.map Prod.snd).map (Alt.branch context) := by
    rw [List.map_map, List.map_map]
    rfl
  have asBranches : branches = (tagged.map Prod.snd).map (Alt.branch context) ++
      (defaultBranch context default).toList := by
    simp only [branches, alts, Expr.lowerAlts_eq_map, List.map_append,
      Option.toList_map]
  have known : ∀ alt ∈ tagged.map Prod.snd, ∃ ctor args body own,
      alt = .con ctor args body ∧ context.tags.tagOf? ctor = some own := by
    rw [List.forall_mem_map]
    intro pair member
    obtain ⟨ctor, args, body, form, found⟩ := declared pair member
    exact ⟨ctor, args, body, pair.1, form, found⟩
  have plain : ∀ branch ∈ (tagged.map Prod.snd).map (Alt.branch context),
      ∃ ctor args, branch.pattern = .con ctor args := by
    intro branch member
    obtain ⟨_, ctor, args, form, _⟩ := hasTag_of_declared known member
    exact ⟨ctor, args, form⟩
  rw [asBranches]
  constructor
  · intro state term after code built
    obtain ⟨chosen, collected, rfl, emitRan⟩ :=
      tree_eq_ok plain (fun _ => pattern_default) built
    rw [← constructors] at collected
    cases collected.eq_of_distinct declared distinct (fun _ _ =>
      List.not_mem_nil)
    rw [← taggedBranches_byTag] at emitRan
    obtain ⟨decision, groups, rfl, halves⟩ := Halves.of_emitTree
      (fun pair member => declared pair (List.mem_mergeSort.mp member)) emitRan
    have balanced := halves.balanced distinct
    exact ⟨_, decision, groups, rfl, rfl, balanced,
      fun layout path member =>
        Decision.exists_route balanced.exhaustive member⟩
  · intro lowered
    have manyBranches :
        (tagged.map Prod.snd).map (Alt.branch context) ≠ [] := by
      simpa using many
    exact (tree_failsOnly manyBranches plain (fun _ => pattern_default)
      (branchFails_of_declared known lowered)).succeeds fun _ => id

/-- Seven alternatives out of order. -/
def sevenTagged : List (Int × Alt) :=
  [9, 2, 5, 0, 7, 3, 4].map fun tag =>
    (tag, .con (.machine tag "C") [] (.lit (.int tag)))

def sevenContext : Context where
  tags := ⟨sevenTagged.map fun pair => (.machine pair.1 "C", pair.1)⟩
  function := .user "f"
  params := []
  freeze := false

theorem decision_trees_balanced_seven :
    let branches :=
      Expr.lowerAlts sevenContext (sevenTagged.map Prod.snd ++ [.default .null])
    sevenTagged ≠ [] ∧
    (∀ pair ∈ sevenTagged, pair.2.HasTag sevenContext.tags pair.1) ∧
    (sevenTagged.map Prod.fst).Nodup ∧
    ∃ result after decision groups,
      tree sevenContext (.slot 0) branches ⟨1, []⟩ =
        .ok (.var result, after, decision.code (.slot 0)) ∧
      Balanced sevenContext (.slot 0) result (some .null) sevenTagged
        decision groups ∧
      ∀ layout, ∀ path ∈ Stmt.pathsList layout (decision.code (.slot 0)),
        ∃ route ∈ decision.routes, route.Takes layout (.slot 0) path := by
  intro branches
  have declared : ∀ pair ∈ sevenTagged,
      pair.2.HasTag sevenContext.tags pair.1 := by
    intro pair member
    obtain ⟨tag, among, rfl⟩ := List.mem_map.mp member
    have found : ∀ tag ∈ [9, 2, 5, 0, 7, 3, 4],
        sevenContext.tags.tagOf? (.machine tag "C") = some tag := by
      decide
    exact ⟨_, _, _, rfl, found tag among⟩
  have distinct : (sevenTagged.map Prod.fst).Nodup := by decide
  obtain ⟨shape, built⟩ :=
    decision_trees_balanced sevenContext (.slot 0) sevenTagged
    (some .null) (List.cons_ne_nil _ _) declared distinct
  have lowered : ∀ alt ∈ sevenTagged.map Prod.snd ++ [.default .null],
      Succeeds (alt.body.lower sevenContext) := by
    intro alt member state
    rcases List.mem_append.mp member with inTagged | last
    · obtain ⟨pair, inPairs, rfl⟩ := List.mem_map.mp inTagged
      obtain ⟨tag, -, rfl⟩ := List.mem_map.mp inPairs
      exact ⟨_, rfl⟩
    · cases List.mem_singleton.mp last
      exact ⟨_, rfl⟩
  obtain ⟨⟨term, after, code⟩, ran⟩ := built lowered ⟨1, []⟩
  obtain ⟨result, decision, groups, rfl, rfl, balanced, taken⟩ :=
    shape _ _ _ _ ran
  exact ⟨List.cons_ne_nil _ _, declared, distinct, result, after, decision,
    groups, ran, balanced, taken⟩

end TailLoop
