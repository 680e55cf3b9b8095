import TailLoop.Proofs.Evaluation
import TailLoop.Proofs.LoweringFaults
import TailLoop.Proofs.LoweringWrites

/-!
# Where decisions lead

A decision leads to the code of the first alternative that matches, whichever
way it was built.  A chain asks the alternatives in their order.  A tree first
drops every repeated tag and sorts the others; a comparison with a tag in the
middle then leaves the half in which the tag of the subject stands, until a
chain of a few tests is left.
-/

namespace TailLoop

open Code (Value Stmt Clause Guard)

namespace Code

mutual

/-- The suite that a decision about a subject leads to: comparisons with a tag
are followed down to a chain, whose first clause that applies is taken. -/
def Stmt.reached? (subject : Var) (value : Value) : Stmt → Option (List Stmt)
  | .branch asked [.mk (.tagBelow pivot) low, .mk .otherwise high] =>
      if asked = subject then
        match (Guard.tagBelow pivot).holds? value with
        | some true => Stmt.reachedList? subject value low
        | some false => Stmt.reachedList? subject value high
        | none => none
      else none
  | .branch asked clauses =>
      if asked = subject then Clause.chosen? value clauses else none
  | _ => none

def Stmt.reachedList? (subject : Var) (value : Value) :
    List Stmt → Option (List Stmt)
  | [decision] => Stmt.reached? subject value decision
  | _ => none

end

theorem Stmt.reachedList?_compare (subject : Var) (tag pivot : Int)
    (fields : List Value) (low high : List Stmt) :
    Stmt.reachedList? subject (Value.con tag fields)
      [.branch subject [.mk (.tagBelow pivot) low, .mk .otherwise high]] =
      if tag < pivot then Stmt.reachedList? subject (Value.con tag fields) low
      else Stmt.reachedList? subject (Value.con tag fields) high := by
  by_cases below : tag < pivot <;>
    simp [Stmt.reachedList?, Stmt.reached?, Guard.holds?, Value.con,
      Value.item?, CompareOp.result?, below]

/-- A chain does not start with a comparison. -/
@[simp] theorem Stmt.reachedList?_chain {subject : Var} {value : Value}
    {clauses : List Clause}
    (chain : ∀ pivot suite rest,
      clauses ≠ .mk (.tagBelow pivot) suite :: rest) :
    Stmt.reachedList? subject value [.branch subject clauses] =
      Clause.chosen? value clauses := by
  rw [Stmt.reachedList?, Stmt.reached?]
  · rw [if_pos rfl]
  · rintro pivot low high rfl
    exact chain pivot low _ rfl

end Code

/-- The guard of a pattern says what the pattern says. -/
theorem Pattern.holds?_guard {tags : TagTable} {value : Value}
    {pattern : Pattern} {guard : Guard} {truth : Bool}
    (made : pattern.guard? tags = some guard)
    (answer : pattern.matches? tags value = some truth) :
    guard.holds? value = some truth := by
  cases pattern with
  | con ctor args =>
      obtain ⟨own, tag, fields, found, rfl, rfl⟩ := matches?_con_eq_some answer
      simp only [Pattern.guard?, found, Option.map_some, Option.some.injEq]
        at made
      subst made
      simp [Guard.holds?, Value.con, Value.item?, Code.CompareOp.result?,
        eq_comm]
  | const constant =>
      cases made
      cases constant with
      | int _ => exact answer
      | string _ => exact answer
      | _ => cases answer
  | default =>
      cases made
      exact answer

namespace Lowering

variable {context : Context} {subject result : Var}

/-- Where a decision should lead: to the code of the branch that was chosen,
made while the next temporary was between two numbers, or to the failure if
there is no branch. -/
inductive Leads (subject result : Var) (low high : Nat) :
    Option Branch → List Stmt → Prop where
  | arm {branch : Branch} {before after : State} {suite : List Stmt} :
      low ≤ before.next → after.next ≤ high →
      Lowering.arm subject result branch before = .ok ((), after, suite) →
      Leads subject result low high (some branch) suite
  | unreachable : Leads subject result low high none [.unreachable]

theorem Leads.mono {low low' high high' : Nat} {chosen : Option Branch}
    {suite : List Stmt} (leads : Leads subject result low high chosen suite)
    (lower : low' ≤ low) (higher : high ≤ high') :
    Leads subject result low' high' chosen suite := by
  cases leads with
  | arm above below ran =>
      exact .arm (Nat.le_trans lower above) (Nat.le_trans below higher) ran
  | unreachable => exact .unreachable

/-- The code of a branch takes back no temporary. -/
def Branch.Advances (branch : Branch) : Prop :=
  ∀ before value after code,
    branch.body before = .ok (value, after, code) → before.next ≤ after.next

theorem advances_lowerAlts (context : Context) (alts : List Alt) :
    ∀ branch ∈ Expr.lowerAlts context alts, branch.Advances := by
  rw [Expr.lowerAlts_eq_map]
  exact List.forall_mem_map.mpr fun _ _ _ _ _ _ ran => Expr.lower_advances ran

theorem arm_advances {branch : Branch} (advances : branch.Advances)
    {before after : State} {suite : List Stmt}
    (ran : arm subject result branch before = .ok ((), after, suite)) :
    before.next ≤ after.next := by
  obtain ⟨value, code, bodyRan, -⟩ := arm_eq_ok ran
  exact advances (before.binding _) value after code bodyRan

theorem clauses_advances {branches : List Branch} {made : List Clause}
    {before after : State} {code : List Stmt}
    (advance : ∀ branch ∈ branches, branch.Advances)
    (ran : clauses context subject result branches before =
      .ok (made, after, code)) : before.next ≤ after.next := by
  induction branches generalizing before made code with
  | nil =>
      obtain ⟨-, rfl, -⟩ := pure_eq_ok.mp ran
      exact Nat.le_refl _
  | cons branch branches ih =>
      obtain ⟨own, others⟩ := List.forall_mem_cons.mp advance
      obtain ⟨_, _, _, middle, -, -, armRan, othersRan⟩ :=
        clauses_cons_eq_ok ran
      exact Nat.le_trans (arm_advances own armRan) (ih others othersRan)

/-- The clauses of a chain take the branch that is chosen; without one they go
on. -/
theorem clauses_chosen? {branches : List Branch} {value : Value}
    {chosen : Option Branch} {made : List Clause} {state after : State}
    {code : List Stmt} (advance : ∀ branch ∈ branches, branch.Advances)
    (chooses : Chooses context.tags value Branch.pattern branches chosen)
    (ran : clauses context subject result branches state =
      .ok (made, after, code))
    (others : List Clause) :
    (∃ suite, Clause.chosen? value (made ++ others) = some suite ∧
      Leads subject result state.next after.next chosen suite) ∨
      (chosen = none ∧
        Clause.chosen? value (made ++ others) =
          Clause.chosen? value others) := by
  induction chooses generalizing state made code with
  | nil =>
      obtain ⟨rfl, rfl, rfl⟩ := pure_eq_ok.mp ran
      exact .inr ⟨rfl, rfl⟩
  | here agrees =>
      obtain ⟨guard, body, rest, middle, rfl, guardIs, armRan, othersRan⟩ :=
        clauses_cons_eq_ok ran
      have advances :=
        clauses_advances (List.forall_mem_cons.mp advance).2 othersRan
      refine .inl ⟨body, ?_, .arm (Nat.le_refl _) advances armRan⟩
      rw [List.cons_append, Clause.chosen?, Pattern.holds?_guard guardIs agrees]
  | there denies _ ih =>
      obtain ⟨guard, body, rest, middle, rfl, guardIs, armRan, othersRan⟩ :=
        clauses_cons_eq_ok ran
      obtain ⟨own, later⟩ := List.forall_mem_cons.mp advance
      have advances := arm_advances own armRan
      rw [List.cons_append, Clause.chosen?, Pattern.holds?_guard guardIs denies]
      rcases ih later othersRan with ⟨suite, found, leads⟩ | goesOn
      · exact .inl ⟨suite, found, leads.mono advances (Nat.le_refl _)⟩
      · exact .inr goesOn

/-- A chain leads to the branch that is chosen. -/
theorem emitChain_reached? {branches : List Branch} {value : Value}
    {chosen : Option Branch} {state after : State} {code : List Stmt}
    (advance : ∀ branch ∈ branches, branch.Advances)
    (chooses : Chooses context.tags value Branch.pattern branches chosen)
    (ran : emitChain context subject result branches state =
      .ok ((), after, code)) :
    state.next ≤ after.next ∧
      ∃ suite, Stmt.reachedList? subject value code = some suite ∧
        Leads subject result state.next after.next chosen suite := by
  obtain ⟨made, last, madeRan, lastIs, rfl⟩ := emitChain_eq_ok ran
  obtain ⟨-, sameLength, noComparison⟩ := clauses_eq_ok madeRan
  refine ⟨clauses_advances advance madeRan, ?_⟩
  rw [Stmt.reachedList?_chain]
  · rcases clauses_chosen? advance chooses madeRan
      (if last.pattern.isDefault then [] else
        [.mk .otherwise [.unreachable]]) with
      found | ⟨rfl, goesOn⟩
    · exact found
    · have denied := chooses.none_denies last (List.mem_of_getLast? lastIs)
      cases form : last.pattern with
      | default =>
          rw [form] at denied
          cases denied
      | _ =>
          rw [form] at goesOn
          exact ⟨_, goesOn, .unreachable⟩
  · intro pivot suite rest same
    cases made with
    | nil =>
        rw [List.length_nil, eq_comm, List.length_eq_zero_iff] at sameLength
        rw [sameLength] at lastIs
        cases lastIs
    | cons clause made =>
        cases same
        exact noComparison pivot suite made rfl

/-- The branch of a tag among tagged branches, or else the default. -/
def pick (tag : Int) (branches : List (Int × Branch))
    (default : Option Branch) :
    Option Branch :=
  ((branches.find? fun pair => pair.1 == tag).map Prod.snd).or default

@[simp] theorem pick_cons (tag own : Int) (branch : Branch)
    (branches : List (Int × Branch)) (default : Option Branch) :
    pick tag ((own, branch) :: branches) default =
      if own = tag then some branch else pick tag branches default := by
  by_cases same : own = tag <;> simp [pick, same]

theorem pick_append_of_forall_ne_right {tag : Int}
    {left right : List (Int × Branch)} {default : Option Branch}
      (others : ∀ pair ∈ right, pair.1 ≠ tag) :
    pick tag (left ++ right) default = pick tag left default := by
  have none : (right.find? fun pair => pair.1 == tag) = none :=
    List.find?_eq_none.mpr fun pair member same =>
      others pair member (beq_iff_eq.mp same)
  rw [pick, pick, List.find?_append, none, Option.or_none]

theorem pick_append_of_forall_ne_left {tag : Int}
    {left right : List (Int × Branch)} {default : Option Branch}
      (others : ∀ pair ∈ left, pair.1 ≠ tag) :
    pick tag (left ++ right) default = pick tag right default := by
  have none : (left.find? fun pair => pair.1 == tag) = none :=
    List.find?_eq_none.mpr fun pair member same =>
      others pair member (beq_iff_eq.mp same)
  rw [pick, pick, List.find?_append, none, Option.none_or]

/-- The comparison with the tag in the middle leaves the half of the tag. -/
theorem pick_eq_ite {tag : Int} {branches : List (Int × Branch)}
    {default : Option Branch}
    (sorted : branches.Pairwise fun left right => left.1 < right.1)
    {middle : Nat} (inside : middle < branches.length) :
    pick tag branches default =
      if tag < branches[middle].1 then pick tag (branches.take middle) default
      else pick tag (branches.drop middle) default := by
  have halves := List.take_append_drop middle branches
  have across : ∀ left ∈ branches.take middle, ∀ right ∈ branches.drop middle,
      left.1 < right.1 := by
    rw [← halves] at sorted
    exact (List.pairwise_append.mp sorted).2.2
  have upper :
      branches.drop middle = branches[middle] :: branches.drop (middle + 1) :=
    List.drop_eq_getElem_cons inside
  split
  · rename_i below
    have above : ∀ pair ∈ branches.drop middle, pair.1 ≠ tag := by
      intro pair member same
      have ordered := sorted.sublist (List.drop_sublist middle branches)
      rw [upper] at member ordered
      rcases List.mem_cons.mp member with rfl | later
      · omega
      · have := List.rel_of_pairwise_cons ordered later
        omega
    conv => lhs; rw [← halves]
    exact pick_append_of_forall_ne_right above
  · rename_i notBelow
    have under : ∀ pair ∈ branches.take middle, pair.1 ≠ tag := by
      intro pair member same
      have :=
        across pair member branches[middle]
          (by rw [upper]; exact List.mem_cons_self)
      omega
    conv => lhs; rw [← halves]
    exact pick_append_of_forall_ne_left under

/-- The first branch whose constructor has a tag, or else the default. -/
def selected (tags : TagTable) (tag : Int) (branches : List Branch)
    (default : Option Branch) : Option Branch :=
  (branches.find? fun branch => branch.pattern.hasTag tags tag).or default

theorem selected_cons {tags : TagTable} {own : Int} {branch : Branch}
    (has : branch.HasTag tags own) (tag : Int) (branches : List Branch)
    (default : Option Branch) :
    selected tags tag (branch :: branches) default =
      if own = tag then some branch else
        selected tags tag branches default := by
  obtain ⟨ctor, args, form, found⟩ := has
  by_cases same : own = tag <;>
    simp [selected, form, found, Pattern.hasTag, same]

/-- Constructors before a default choose the first branch of the tag. -/
theorem chooses_selected {tags : TagTable} {branches : List Branch}
    {default : Option Branch}
    (haveTags : ∀ branch ∈ branches, ∃ own, branch.HasTag tags own)
    (last : ∀ branch ∈ default, branch.pattern = .default) (tag : Int)
    (fields : List Value) :
    Chooses tags (Value.con tag fields) Branch.pattern
      (branches ++ default.toList) (selected tags tag branches default) := by
  induction branches with
  | nil =>
      cases default with
      | none => exact .nil
      | some branch => exact .here (by rw [last branch rfl]; rfl)
  | cons branch branches ih =>
      obtain ⟨own, has⟩ := haveTags branch List.mem_cons_self
      have answer : branch.pattern.matches? tags (Value.con tag fields) =
          some (decide (own = tag)) := by
        obtain ⟨ctor, args, form, found⟩ := has
        simp only [form, Pattern.matches?, Value.con, found, Option.map_some]
      rw [selected_cons has]
      split
      · rename_i same
        exact .here (by rw [answer, decide_eq_true same])
      · rename_i different
        exact .there (by rw [answer, decide_eq_false different])
          (ih fun branch member =>
            haveTags branch (List.mem_cons_of_mem _ member))

theorem pick_eq_selected {tags : TagTable} {branches : List (Int × Branch)}
    (haveTags : ∀ pair ∈ branches, pair.2.HasTag tags pair.1) (tag : Int)
    (default : Option Branch) :
    pick tag branches default =
      selected tags tag (branches.map Prod.snd) default := by
  induction branches with
  | nil => rfl
  | cons pair branches ih =>
      rw [pick_cons, List.map_cons,
        selected_cons (haveTags pair List.mem_cons_self), ih fun pair member =>
          haveTags pair (List.mem_cons_of_mem _ member)]

/-- Dropping repeated tags leaves the first branch of every tag. -/
theorem Tagged.pick_eq {tags : TagTable} {seen : List Int}
    {branches : List Branch} {chosen : List (Int × Branch)}
    (collected : Tagged tags seen branches chosen) {tag : Int}
    (unseen : tag ∉ seen) (default : Option Branch) :
    pick tag chosen default = selected tags tag branches default := by
  induction collected with
  | nil => rfl
  | repeated has old _ ih =>
      rw [selected_cons has, if_neg (by rintro rfl; exact unseen old),
        ih unseen]
  | @first seen own branch branches chosen has _ _ ih =>
      rw [selected_cons has, pick_cons]
      split
      · rfl
      · rename_i different
        exact ih (by simp [unseen, Ne.symm different])

theorem pick_perm {left right : List (Int × Branch)}
    (permuted : left.Perm right)
    (distinct : left.Pairwise fun one other => one.1 ≠ other.1) (tag : Int)
    (default : Option Branch) :
    pick tag left default = pick tag right default := by
  induction permuted with
  | nil => rfl
  | cons pair _ ih => rw [pick_cons, pick_cons, ih distinct.tail]
  | swap pair other rest =>
      have different := List.rel_of_pairwise_cons distinct List.mem_cons_self
      rw [pick_cons, pick_cons, pick_cons, pick_cons]
      by_cases same : pair.1 = tag
      · have unequal : other.1 ≠ tag := by omega
        simp only [same, unequal, if_true, if_false]
      · simp only [same, if_false]
  | trans first _ ih ih' =>
      exact (ih distinct).trans
        (ih' (first.pairwise distinct fun unequal => unequal.symm))

/-- Sorting what has distinct tags. -/
theorem sorted_of_distinct {α : Type} {branches : List (Int × α)}
    (distinct : branches.Pairwise fun left right => left.1 ≠ right.1) :
    (branches.mergeSort fun left right => decide (left.1 ≤ right.1)).Pairwise
      fun left right => left.1 < right.1 := by
  have ordered := List.pairwise_mergeSort
    (fun a b c (first : decide (a.1 ≤ b.1) = true) second => by
      simp only [decide_eq_true_eq] at *
      omega)
    (fun a b => by
      simp only [Bool.or_eq_true, decide_eq_true_eq]
      omega) branches
  have stillDistinct := (List.mergeSort_perm branches
    fun left right => decide (left.1 ≤ right.1)).symm.pairwise distinct
      fun unequal => unequal.symm
  refine (ordered.and stillDistinct).imp ?_
  rintro left right ⟨atMost, unequal⟩
  have := of_decide_eq_true atMost
  omega

/-- A tree leads to the branch of the tag. -/
theorem emitTree_reached? {default : Option Branch}
    (last : ∀ branch ∈ default, branch.pattern = .default)
    (defaultAdvances : ∀ branch ∈ default.toList, branch.Advances) (tag : Int)
    (fields : List Value) (branches : List (Int × Branch))
    {state after : State} {code : List Stmt}
    (haveTags : ∀ pair ∈ branches, pair.2.HasTag context.tags pair.1)
    (sorted : branches.Pairwise fun left right => left.1 < right.1)
    (advance : ∀ pair ∈ branches, pair.2.Advances)
    (ran : emitTree context subject result default branches state =
      .ok ((), after, code)) :
    state.next ≤ after.next ∧
      ∃ suite,
        Stmt.reachedList? subject (Value.con tag fields) code = some suite ∧
        Leads subject result state.next after.next (pick tag branches default)
          suite := by
  induction branches using emitTree.induct generalizing state after code with
  | case1 branches wide inside lowHalf highHalf =>
      obtain ⟨middle, low, high, lowRan, highRan, rfl⟩ :=
        emitTree_eq_ok wide inside ran
      obtain ⟨lowAdvances, lowSuite, lowFound, lowLeads⟩ := lowHalf
        (fun pair member => haveTags pair (List.mem_of_mem_take member))
        (sorted.sublist (List.take_sublist _ _))
        (fun pair member => advance pair (List.mem_of_mem_take member)) lowRan
      obtain ⟨highAdvances, highSuite, highFound, highLeads⟩ := highHalf
        (fun pair member => haveTags pair (List.mem_of_mem_drop member))
        (sorted.sublist (List.drop_sublist _ _))
        (fun pair member => advance pair (List.mem_of_mem_drop member)) highRan
      refine ⟨Nat.le_trans lowAdvances highAdvances, ?_⟩
      rw [Stmt.reachedList?_compare, pick_eq_ite sorted inside]
      split
      · exact ⟨lowSuite, lowFound, lowLeads.mono (Nat.le_refl _) highAdvances⟩
      · exact ⟨highSuite, highFound, highLeads.mono lowAdvances (Nat.le_refl _)⟩
  | case2 branches narrow =>
      rw [emitTree, dif_neg narrow] at ran
      have chooses : Chooses context.tags (Value.con tag fields) Branch.pattern
          (branches.map Prod.snd ++ default.toList)
          (pick tag branches default) := by
        rw [pick_eq_selected haveTags]
        apply chooses_selected _ last
        intro branch member
        obtain ⟨pair, pairMember, rfl⟩ := List.mem_map.mp member
        exact ⟨pair.1, haveTags pair pairMember⟩
      apply emitChain_reached? _ chooses ran
      intro branch member
      rcases List.mem_append.mp member with grouped | inDefault
      · obtain ⟨pair, pairMember, rfl⟩ := List.mem_map.mp grouped
        exact advance pair pairMember
      · exact defaultAdvances branch inDefault

/-- A chain assigns its result in the branch that is chosen. -/
theorem chain_reached? {branches : List Branch} {value : Value}
    {chosen : Option Branch} {term : Code.Term} {state after : State}
    {code : List Stmt} (advance : ∀ branch ∈ branches, branch.Advances)
    (chooses : Chooses context.tags value Branch.pattern branches chosen)
    (ran : chain context subject branches state = .ok (term, after, code)) :
    ∃ result suite, result = .slot (-(state.next : Int)) ∧ term = .var result ∧
      Stmt.reachedList? subject value code = some suite ∧
      Leads subject result (state.next + 1) after.next chosen suite := by
  obtain ⟨result, middle, emitted, further, freshRan, restRan, rfl⟩ :=
    bind_eq_ok.mp ran
  obtain ⟨rfl, rfl, rfl⟩ := fresh_eq_ok.mp freshRan
  obtain ⟨_, last, inner, none, chainRan, lastRan, rfl⟩ := bind_eq_ok.mp restRan
  obtain ⟨rfl, rfl, rfl⟩ := pure_eq_ok.mp lastRan
  obtain ⟨-, suite, found, leads⟩ := emitChain_reached? advance chooses chainRan
  refine ⟨_, suite, rfl, rfl, ?_, leads⟩
  rw [List.nil_append, List.append_nil]
  exact found

theorem tree_eq_ok {constructors : List Branch} {default : Option Branch}
    {term : Code.Term} {state after : State} {code : List Stmt}
    (plain : ∀ branch ∈ constructors, ∃ ctor args,
      branch.pattern = .con ctor args)
    (last : ∀ branch ∈ default, branch.pattern = .default)
    (ran : tree context subject (constructors ++ default.toList) state =
      .ok (term, after, code)) :
    ∃ chosen, Tagged context.tags [] constructors chosen ∧
      term = .var (.slot (-(state.next : Int))) ∧
      emitTree context subject (.slot (-(state.next : Int))) default
        (chosen.mergeSort fun left right => decide (left.1 ≤ right.1))
        { state with next := state.next + 1 } = .ok ((), after, code) := by
  have split : splitDefault (constructors ++ default.toList) =
      (constructors, default) := by
    apply splitDefault_append _ last
    intro branch member
    obtain ⟨ctor, args, form⟩ := plain branch member
    rw [form]
    rfl
  rw [tree, split] at ran
  obtain ⟨chosen, middle, emitted, further, taggedRan, restRan, rfl⟩ :=
    bind_eq_ok.mp ran
  obtain ⟨collected, rfl, rfl⟩ := tagged_eq_ok taggedRan
  obtain ⟨result, early, inner, others, freshRan, treeRan, rfl⟩ :=
    bind_eq_ok.mp restRan
  obtain ⟨rfl, rfl, rfl⟩ := fresh_eq_ok.mp freshRan
  obtain ⟨_, late, made, none, emitRan, lastRan, rfl⟩ := bind_eq_ok.mp treeRan
  obtain ⟨rfl, rfl, rfl⟩ := pure_eq_ok.mp lastRan
  rw [List.nil_append, List.nil_append, List.append_nil]
  exact ⟨chosen, collected, rfl, emitRan⟩

/-- A tree assigns its result in the first branch of the tag, or in the
default. -/
theorem tree_reached? {constructors : List Branch} {default : Option Branch}
    {term : Code.Term} {state after : State} {code : List Stmt}
    (plain : ∀ branch ∈ constructors, ∃ ctor args,
      branch.pattern = .con ctor args)
    (last : ∀ branch ∈ default, branch.pattern = .default)
    (advance : ∀ branch ∈ constructors ++ default.toList, branch.Advances)
    (tag : Int) (fields : List Value)
    (ran : tree context subject (constructors ++ default.toList) state =
      .ok (term, after, code)) :
    ∃ result suite, result = .slot (-(state.next : Int)) ∧ term = .var result ∧
      Stmt.reachedList? subject (Value.con tag fields) code = some suite ∧
      Leads subject result (state.next + 1) after.next
        (selected context.tags tag constructors default) suite := by
  obtain ⟨chosen, collected, termIs, emitRan⟩ := tree_eq_ok plain last ran
  have origin : ∀ pair ∈ chosen.mergeSort fun left right =>
    decide (left.1 ≤ right.1),
      pair.2 ∈ constructors ∧ pair.2.HasTag context.tags pair.1 :=
    fun pair member => collected.mem (List.mem_mergeSort.mp member)
  obtain ⟨constructorsAdvance, defaultAdvances⟩ :=
    List.forall_mem_append.mp advance
  obtain ⟨-, suite, found, leads⟩ := emitTree_reached? last defaultAdvances tag
    fields _ (fun pair member => (origin pair member).2)
    (sorted_of_distinct collected.tags_distinct)
    (fun pair member => constructorsAdvance _ (origin pair member).1) emitRan
  refine ⟨_, suite, rfl, termIs, found, ?_⟩
  have permuted := List.mergeSort_perm chosen fun left right =>
    decide (left.1 ≤ right.1)
  rw [← collected.pick_eq List.not_mem_nil,
    pick_perm permuted.symm collected.tags_distinct]
  exact leads

/-- The first alternative of a tree is a constructor, so only constructed values
match. -/
private theorem tree_reached?_of_chooses {constructors : List Branch}
    {last branch : Branch} {value : Value} {term : Code.Term}
    {state after : State} {code : List Stmt} (many : constructors ≠ [])
    (plain : ∀ branch ∈ constructors, ∃ ctor args,
      branch.pattern = .con ctor args)
    (form : last.pattern = .default)
    (advance : ∀ branch ∈ constructors ++ [last], branch.Advances)
    (chooses : Chooses context.tags value Branch.pattern
      (constructors ++ [last]) (some branch))
    (ran : tree context subject (constructors ++ [last]) state =
      .ok (term, after, code)) :
    ∃ result suite, result = .slot (-(state.next : Int)) ∧ term = .var result ∧
      Stmt.reachedList? subject value code = some suite ∧
      Leads subject result (state.next + 1) after.next (some branch) suite := by
  have lastIs : ∀ branch ∈ some last, branch.pattern = .default := by
    intro branch same
    cases same
    exact form
  rw [show [last] = (some last).toList from rfl] at advance chooses ran
  obtain ⟨chosen, collected, -, -⟩ := tree_eq_ok plain lastIs ran
  obtain ⟨tag, fields, rfl⟩ : ∃ tag fields, value = Value.con tag fields := by
    cases constructors with
    | nil => exact (many rfl).elim
    | cons first others =>
        obtain ⟨ctor, args, firstForm⟩ := plain first List.mem_cons_self
        have asked :
            ∃ truth, (Pattern.con ctor args).matches? context.tags value =
            some truth := by
          rw [← firstForm]
          cases chooses with
          | here agrees => exact ⟨true, agrees⟩
          | there denies => exact ⟨false, denies⟩
        obtain ⟨truth, answer⟩ := asked
        obtain ⟨_, tag, fields, _, same, _⟩ :=
          Pattern.matches?_con_eq_some answer
        exact ⟨tag, fields, same⟩
  rw [chooses.unique (chooses_selected collected.haveTags lastIs tag fields)]
  exact tree_reached? plain lastIs advance tag fields ran

/-- A decision is its only branch, a default, or leads to the branch that is
chosen. -/
theorem decision_reached? {branches : List Branch} {branch : Branch}
    {value : Value} {term : Code.Term} {state after : State} {code : List Stmt}
    (advance : ∀ branch ∈ branches, branch.Advances)
    (chooses : Chooses context.tags value Branch.pattern branches (some branch))
    (ran : decision context subject branches state = .ok (term, after, code)) :
    (branch.pattern = .default ∧ branch.body state = .ok (term, after, code)) ∨
      ∃ result suite, result = .slot (-(state.next : Int)) ∧
      term = .var result ∧
        Stmt.reachedList? subject value code = some suite ∧
        Leads subject result (state.next + 1) after.next
          (some branch) suite := by
  obtain ⟨_, middle, emitted, further, shapeRan, restRan, rfl⟩ :=
    bind_eq_ok.mp ran
  obtain ⟨-, -, rfl, rfl⟩ := checkShape_eq_ok shapeRan
  rw [List.nil_append]
  split at restRan
  · rename_i body
    obtain ⟨member, -⟩ := chooses.mem
    rw [List.mem_singleton.mp member]
    exact .inl ⟨rfl, restRan⟩
  · split at restRan
    · rename_i wide
      obtain ⟨constructors, last, rfl, many, plain, form⟩ :=
        usesTree_eq_true wide
      exact .inr (tree_reached?_of_chooses many plain form advance
        chooses restRan)
    · exact .inr (chain_reached? advance chooses restRan)

end Lowering

open Lowering

section Agreement

variable {context : Context} {constructors : List Alt} {default : Option Expr}

theorem pattern_default {branch : Branch}
    (member : branch ∈ (default.map Alt.default).map (Alt.branch context)) :
    branch.pattern = .default := by
  cases default with
  | none => cases member
  | some body =>
      cases member
      rfl

theorem hasTag_of_declared
    (declared : ∀ alt ∈ constructors, ∃ ctor args body own,
      alt = .con ctor args body ∧ context.tags.tagOf? ctor = some own)
    {branch : Branch}
    (member : branch ∈ constructors.map (Alt.branch context)) :
    ∃ own, branch.HasTag context.tags own := by
  obtain ⟨alt, altMember, rfl⟩ := List.mem_map.mp member
  obtain ⟨ctor, args, body, own, rfl, found⟩ := declared alt altMember
  exact ⟨own, ctor, args, rfl, found⟩

/-- With declared constructors only the bodies can fail. -/
theorem branchFails_of_declared
    (declared : ∀ alt ∈ constructors, ∃ ctor args body own,
      alt = .con ctor args body ∧ context.tags.tagOf? ctor = some own)
    (lowered : ∀ alt ∈ constructors ++ (default.map Alt.default).toList,
      Succeeds (alt.body.lower context)) :
    ∀ branch ∈ constructors.map (Alt.branch context) ++
      ((default.map Alt.default).map (Alt.branch context)).toList,
      BranchFails context.tags (fun _ => False) branch := by
  intro branch member
  constructor
  · rw [Option.toList_map, ← List.map_append] at member
    obtain ⟨alt, altMember, rfl⟩ := List.mem_map.mp member
    exact (lowered alt altMember).failsOnly
  · intro ctor args form missing
    rcases List.mem_append.mp member with inConstructors | inDefault
    · obtain ⟨own, ctor', args', form', found⟩ :=
        hasTag_of_declared declared inConstructors
      cases form.symm.trans form'
      cases missing.symm.trans found
    · cases form.symm.trans (pattern_default (Option.mem_toList.mp inDefault))

end Agreement

/-- Constructor alternatives with declared constructors and a default, or none,
at the end: the decisions built as a tree and as a chain both lead to the first
alternative in source order whose constructor has the tag of the subject, else
to the default, and else to the failure.  Both can be built if the bodies can be
lowered. -/
theorem tree_and_chain_reach_same_alternative (context : Context)
    (subject : Var) (constructors : List Alt) (default : Option Expr)
    (many : constructors ≠ [])
    (declared : ∀ alt ∈ constructors, ∃ ctor args body own,
      alt = .con ctor args body ∧ context.tags.tagOf? ctor = some own)
    (tag : Int) (fields : List Value) :
    let alts := constructors ++ (default.map Alt.default).toList
    let branches := Expr.lowerAlts context alts
    let chosen :=
      (constructors.find? fun alt => alt.pattern.hasTag context.tags tag).or
      (default.map Alt.default)
    (∀ state term after code, tree context subject branches state =
      .ok (term, after, code) → ∃ result suite, term = .var result ∧
        Stmt.reachedList? subject (Value.con tag fields) code = some suite ∧
        Leads subject result (state.next + 1) after.next
          (chosen.map (Alt.branch context)) suite) ∧
    (∀ state term after code, chain context subject branches state =
      .ok (term, after, code) → ∃ result suite, term = .var result ∧
        Stmt.reachedList? subject (Value.con tag fields) code = some suite ∧
        Leads subject result (state.next + 1) after.next
          (chosen.map (Alt.branch context)) suite) ∧
    ((∀ alt ∈ alts, Succeeds (alt.body.lower context)) →
      Succeeds (tree context subject branches) ∧
        Succeeds (chain context subject branches)) := by
  intro alts branches chosen
  have asBranches : branches = constructors.map (Alt.branch context) ++
      ((default.map Alt.default).map (Alt.branch context)).toList := by
    simp only [branches, alts, Expr.lowerAlts_eq_map, List.map_append,
      Option.toList_map]
  have asSelected : chosen.map (Alt.branch context) = selected context.tags tag
      (constructors.map (Alt.branch context))
      ((default.map Alt.default).map (Alt.branch context)) := by
    simp only [chosen, selected, Option.map_or, List.find?_map]
    rfl
  have plain : ∀ branch ∈ constructors.map (Alt.branch context),
      ∃ ctor args, branch.pattern = .con ctor args := by
    intro branch member
    obtain ⟨_, ctor, args, form, _⟩ := hasTag_of_declared declared member
    exact ⟨ctor, args, form⟩
  have advance : ∀ branch ∈ branches, branch.Advances :=
    advances_lowerAlts context alts
  rw [asBranches] at advance ⊢
  rw [asSelected]
  refine ⟨?_, ?_, ?_⟩
  · intro state term after code ran
    obtain ⟨result, suite, -, termIs, found, leads⟩ :=
      tree_reached? plain (fun _ => pattern_default) advance tag fields ran
    exact ⟨result, suite, termIs, found, leads⟩
  · intro state term after code ran
    obtain ⟨result, suite, -, termIs, found, leads⟩ := chain_reached? advance
      (chooses_selected (fun _ => hasTag_of_declared declared) (fun _ =>
        pattern_default) tag
        fields) ran
    exact ⟨result, suite, termIs, found, leads⟩
  · intro lowered
    have manyBranches : constructors.map (Alt.branch context) ≠ [] :=
      fun none => many (List.map_eq_nil_iff.mp none)
    have never := branchFails_of_declared declared lowered
    exact ⟨(tree_failsOnly manyBranches plain (fun _ => pattern_default)
      never).succeeds
        fun _ => id,
      (chain_failsOnly (List.append_ne_nil_of_left_ne_nil manyBranches _)
        never).succeeds fun _ => id⟩

/-- Five alternatives out of order, one of them repeated. -/
def spreadContext : Context where
  tags := ⟨[(.user "A", 9), (.user "B", 2), (.user "C", 5), (.user "D", 0)]⟩
  function := .user "f"
  params := []
  freeze := false

def spreadAlts : List Alt :=
  [.con (.user "C") [] (.lit (.int 1)), .con (.user "A") [] (.lit (.int 2)),
    .con (.user "D") [] (.lit (.int 3)), .con (.user "A") [] (.lit (.int 4)),
    .con (.user "B") [] (.lit (.int 5))]

theorem tree_and_chain_reach_same_alternative_spread :
    let branches :=
      Expr.lowerAlts spreadContext (spreadAlts ++ [.default .null])
    let first := Alt.con (.user "A") [] (.lit (.int 2))
    spreadAlts ≠ [] ∧
    (∀ alt ∈ spreadAlts, ∃ ctor args body own,
      alt = .con ctor args body ∧ spreadContext.tags.tagOf? ctor = some own) ∧
    (∃ result after code suite,
      tree spreadContext (.slot 0) branches ⟨1, []⟩ =
        .ok (.var result, after, code) ∧
        Stmt.reachedList? (.slot 0) (Value.con 9 []) code = some suite ∧
        Leads (.slot 0) result 2 after.next (some (first.branch spreadContext))
          suite) ∧
    ∃ result after code suite,
      chain spreadContext (.slot 0) branches ⟨1, []⟩ =
        .ok (.var result, after, code) ∧
        Stmt.reachedList? (.slot 0) (Value.con 9 []) code = some suite ∧
        Leads (.slot 0) result 2 after.next (some (first.branch spreadContext))
          suite := by
  intro branches first
  have declared : ∀ alt ∈ spreadAlts, ∃ ctor args body own,
      alt = .con ctor args body ∧ spreadContext.tags.tagOf? ctor =
        some own := by
    intro alt member
    simp only [spreadAlts, List.mem_cons, List.not_mem_nil, or_false] at member
    rcases member with rfl | rfl | rfl | rfl | rfl <;>
      exact ⟨_, _, _, _, rfl, rfl⟩
  obtain ⟨byTree, byChain, built⟩ :=
    tree_and_chain_reach_same_alternative spreadContext
    (.slot 0) spreadAlts (some .null) (List.cons_ne_nil _ _) declared 9 []
  have lowered : ∀ alt ∈ spreadAlts ++ [.default .null],
      Succeeds (alt.body.lower spreadContext) := by
    intro alt member state
    simp only [spreadAlts, List.cons_append, List.nil_append, List.mem_cons,
      List.not_mem_nil, or_false] at member
    rcases member with rfl | rfl | rfl | rfl | rfl | rfl <;> exact ⟨_, rfl⟩
  obtain ⟨treeBuilt, chainBuilt⟩ := built lowered
  obtain ⟨⟨term, after, code⟩, treeRan⟩ := treeBuilt ⟨1, []⟩
  obtain ⟨⟨term', after', code'⟩, chainRan⟩ := chainBuilt ⟨1, []⟩
  obtain ⟨result, suite, rfl, found, leads⟩ := byTree _ _ _ _ treeRan
  obtain ⟨result', suite', rfl, found', leads'⟩ := byChain _ _ _ _ chainRan
  exact ⟨List.cons_ne_nil _ _, declared,
    ⟨result, after, code, suite, treeRan, found, leads⟩, result', after', code',
    suite', chainRan, found', leads'⟩

end TailLoop
