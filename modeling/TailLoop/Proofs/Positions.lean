import TailLoop.Core.FreeVars
import TailLoop.Proofs.Subexpressions

/-!
# Positions

Equal parts may stand at several places of an expression, and what is said about
one place need not hold of another.  A place is given by a path: the index of
the direct part to enter, from the root on.  Along a path the binders are met
that scope over its end, and a path through bodies and branches only leads to a
tail position.
-/

namespace TailLoop.Expr

/-- The part at the end of a path. -/
@[simp] def partAt? (expr : Expr) : List Nat → Option Expr
  | [] => some expr
  | index :: path =>
      (expr.children[index]?).bind fun child => child.partAt? path

theorem partAt?_cons_eq_some_iff {expr part : Expr} {index : Nat}
    {path : List Nat} :
    expr.partAt? (index :: path) = some part ↔
      ∃ child, expr.children[index]? = some child ∧ child.partAt? path =
        some part := by
  rw [partAt?, Option.bind_eq_some_iff]

@[simp] theorem partAt?_append (expr : Expr) (path further : List Nat) :
    expr.partAt? (path ++ further) = (expr.partAt? path).bind fun part =>
      part.partAt? further := by
  induction path generalizing expr with
  | nil => rfl
  | cons index path ih =>
      rw [List.cons_append, partAt?, partAt?]
      cases expr.children[index]? with
      | none => rfl
      | some child => exact ih child

/-- The direct part of that index is the body of a binding or a branch of a case
analysis. -/
def isTailStep : Expr → Nat → Bool
  | .letIn .., index => index == 1
  | .case .., index => index != 0
  | _, _ => false

/-- Only bodies of bindings and branches of case analyses are entered. -/
@[simp] def isSpine (expr : Expr) : List Nat → Bool
  | [] => true
  | index :: path =>
      expr.isTailStep index && (expr.children[index]?).any fun child =>
        child.isSpine path

mutual

/-- The places of the expressions in tail position, from left to right. -/
def tailPaths : Expr → List (List Nat)
  | .letIn _ _ body => (tailPaths body).map (1 :: ·)
  | .case _ alts => tailPathsAlts 1 alts
  | _ => [[]]

/-- The same for branches, the first of which has the given index. -/
def tailPathsAlts (index : Nat) : List Alt → List (List Nat)
  | [] => []
  | .con _ _ body :: alts =>
      (tailPaths body).map (index :: ·) ++ tailPathsAlts (index + 1) alts
  | .const _ body :: alts =>
      (tailPaths body).map (index :: ·) ++ tailPathsAlts (index + 1) alts
  | .default body :: alts =>
      (tailPaths body).map (index :: ·) ++ tailPathsAlts (index + 1) alts

end

@[simp] private theorem cons_mem_map_cons_iff {index first : Nat}
    {path : List Nat} {paths : List (List Nat)} :
    index :: path ∈ paths.map (first :: ·) ↔ first = index ∧ path ∈ paths := by
  constructor
  · intro member
    obtain ⟨other, inPaths, same⟩ := List.mem_map.mp member
    cases same
    exact ⟨rfl, inPaths⟩
  · rintro ⟨rfl, inPaths⟩
    exact List.mem_map_of_mem inPaths

@[simp] theorem tailPathsAlts_cons (index : Nat) (alt : Alt) (alts : List Alt) :
    tailPathsAlts index (alt :: alts) =
      alt.body.tailPaths.map (index :: ·) ++
        tailPathsAlts (index + 1) alts := by
  cases alt <;> rw [tailPathsAlts] <;> rfl

theorem tailPositionsAlts_cons (alt : Alt) (alts : List Alt) :
    tailPositionsAlts (alt :: alts) = alt.body.tailPositions ++
      tailPositionsAlts alts := by
  cases alt <;> rw [tailPositionsAlts] <;> rfl

theorem cons_mem_tailPathsAlts_iff {start index : Nat} {path : List Nat}
    {alts : List Alt} :
    index :: path ∈ tailPathsAlts start alts ↔
      start ≤ index ∧ ∃ alt, alts[index - start]? = some alt ∧
      path ∈ alt.body.tailPaths := by
  induction alts generalizing start with
  | nil => simp [tailPathsAlts]
  | cons alt alts ih =>
      rw [tailPathsAlts_cons, List.mem_append, ih, cons_mem_map_cons_iff]
      constructor
      · rintro (⟨rfl, member⟩ | ⟨later, other, found, member⟩)
        · refine ⟨Nat.le_refl _, alt, ?_, member⟩
          rw [Nat.sub_self, List.getElem?_cons_zero]
        · refine ⟨Nat.le_of_succ_le later, other, ?_, member⟩
          rw [← found, show index - start = index - (start + 1) + 1 by omega,
            List.getElem?_cons_succ]
      · rintro ⟨fromStart, other, found, member⟩
        rcases Nat.eq_or_lt_of_le fromStart with rfl | later
        · rw [Nat.sub_self, List.getElem?_cons_zero] at found
          cases found
          exact .inl ⟨rfl, member⟩
        · rw [show index - start = index - (start + 1) + 1 by omega,
            List.getElem?_cons_succ] at found
          exact .inr ⟨later, other, found, member⟩

/-- The branches of a case analysis, seen from the parts they are part of. -/
theorem map_partAt?_tailPathsAlts {whole : Expr} {start : Nat} {alts : List Alt}
    (places : ∀ index, whole.children[start + index]? =
      (alts[index]?).map Alt.body)
    (bodies : ∀ alt ∈ alts,
      alt.body.tailPaths.map alt.body.partAt? =
        alt.body.tailPositions.map some) :
    (tailPathsAlts start alts).map whole.partAt? =
      (tailPositionsAlts alts).map some := by
  induction alts generalizing start with
  | nil => rfl
  | cons alt alts ih =>
      have first : whole.children[start]? = some alt.body := places 0
      have rest : ∀ index, whole.children[start + 1 + index]? =
          (alts[index]?).map Alt.body := by
        intro index
        rw [Nat.add_assoc, Nat.add_comm 1, places (index + 1),
          List.getElem?_cons_succ]
      have entered : whole.partAt? ∘ (start :: ·) = alt.body.partAt? := by
        funext path
        rw [Function.comp_apply, partAt?, first, Option.bind_some]
      simp [tailPositionsAlts_cons, entered, bodies alt List.mem_cons_self,
        ih rest fun other member =>
          bodies other (List.mem_cons_of_mem _ member)]

/-- The tail paths lead, in their order, to the expressions in tail position. -/
theorem map_partAt?_tailPaths (expr : Expr) :
    expr.tailPaths.map expr.partAt? = expr.tailPositions.map some := by
  induction expr using inductionOnParts with
  | step expr ih =>
      cases expr with
      | letIn name value body =>
          have inBody := ih body (by simp [children])
          rw [tailPaths, tailPositions, List.map_map, ← inBody]
          rfl
      | case scrutinee alts =>
          rw [tailPaths, tailPositions]
          apply map_partAt?_tailPathsAlts
          · intro index
            rw [children, Nat.add_comm, List.getElem?_cons_succ,
              List.getElem?_map]
          · intro alt member
            exact ih alt.body
              (List.mem_cons_of_mem _ (List.mem_map_of_mem member))
      | _ => rfl

/-- An application stands in tail position if the way to it is a spine. -/
theorem mem_tailPaths_iff_of_app {expr func : Expr} {args : List Expr}
    {tail : Bool} {path : List Nat}
    (found : expr.partAt? path = some (.app func args tail)) :
    path ∈ expr.tailPaths ↔ expr.isSpine path = true := by
  induction path generalizing expr with
  | nil =>
      cases found
      exact iff_of_true (List.mem_singleton.mpr rfl) rfl
  | cons index path ih =>
      obtain ⟨child, entered, inChild⟩ := partAt?_cons_eq_some_iff.mp found
      rw [isSpine, entered, Option.any_some, Bool.and_eq_true, ← ih inChild]
      cases expr with
      | letIn name value body =>
          rw [tailPaths, cons_mem_map_cons_iff, isTailStep, beq_iff_eq, eq_comm]
          refine and_congr_right ?_
          rintro rfl
          cases entered
          rfl
      | case scrutinee alts =>
          rw [tailPaths, cons_mem_tailPathsAlts_iff, isTailStep, bne_iff_ne,
            Nat.one_le_iff_ne_zero]
          refine and_congr_right fun isBranch => ?_
          obtain ⟨place, rfl⟩ := Nat.exists_eq_succ_of_ne_zero isBranch
          rw [children, List.getElem?_cons_succ, List.getElem?_map,
            Option.map_eq_some_iff] at entered
          obtain ⟨alt, atPlace, rfl⟩ := entered
          rw [Nat.succ_sub_one, atPlace]
          simp only [Option.some.injEq, exists_eq_left']
      | _ => simp [tailPaths, isTailStep]

/-- The names that an expression binds in its direct part of that index. -/
def boundIn : Expr → Nat → List Name
  | .lam params _, _ => params
  | .letIn name _ _, index => if index = 1 then [name] else []
  | .case _ alts, index + 1 => ((alts[index]?).map Alt.binders).getD []
  | _, _ => []

/-- The names whose binders scope over the end of a path. -/
@[simp] def scopeAt (expr : Expr) : List Nat → List Name
  | [] => []
  | index :: path =>
      expr.boundIn index ++ ((expr.children[index]?).map fun child =>
        child.scopeAt path).getD []

theorem scopeAt_cons {expr child : Expr} {index : Nat}
    (entered : expr.children[index]? = some child) (path : List Nat) :
    expr.scopeAt (index :: path) = expr.boundIn index ++
      child.scopeAt path := by
  rw [scopeAt, entered, Option.map_some, Option.getD_some]

theorem scopeAt_append {expr part : Expr} {path : List Nat}
    (found : expr.partAt? path = some part) (further : List Nat) :
    expr.scopeAt (path ++ further) = expr.scopeAt path ++
      part.scopeAt further := by
  induction path generalizing expr with
  | nil =>
      cases found
      rfl
  | cons index path ih =>
      obtain ⟨child, entered, inChild⟩ := partAt?_cons_eq_some_iff.mp found
      rw [List.cons_append, scopeAt_cons entered, scopeAt_cons entered,
        ih inChild, List.append_assoc]

/-- A variable or a waiting call refers to the variable. -/
def Mentions (v : Var) : Expr → Prop
  | .var own => own = v
  | .lazyApp name _ => .named name = v
  | _ => False

/-- The variable occurs at the end of the path, and no binder on the way binds
it. -/
structure FreeAt (expr : Expr) (path : List Nat) (v : Var) : Prop where
  occurs : ∃ part, expr.partAt? path = some part ∧ part.Mentions v
  unbound : ∀ name ∈ expr.scopeAt path, v ≠ .named name

@[simp] theorem freeAt_nil_iff {expr : Expr} {v : Var} :
    expr.FreeAt [] v ↔ expr.Mentions v := by
  constructor
  · rintro ⟨⟨part, found, mentions⟩, -⟩
    cases found
    exact mentions
  · intro mentions
    exact ⟨⟨expr, rfl, mentions⟩, fun name member => by cases member⟩

theorem freeAt_cons_iff {expr : Expr} {index : Nat} {path : List Nat}
    {v : Var} :
    expr.FreeAt (index :: path) v ↔ ∃ child, expr.children[index]? =
      some child ∧
      child.FreeAt path v ∧ ∀ name ∈ expr.boundIn index, v ≠ .named name := by
  constructor
  · rintro ⟨⟨part, found, mentions⟩, unbound⟩
    obtain ⟨child, entered, inChild⟩ := partAt?_cons_eq_some_iff.mp found
    rw [scopeAt_cons entered] at unbound
    exact ⟨child, entered, ⟨⟨part, inChild, mentions⟩,
      fun name member => unbound name (List.mem_append_right _ member)⟩,
      fun name member => unbound name (List.mem_append_left _ member)⟩
  · rintro ⟨child, entered, ⟨⟨part, inChild, mentions⟩, unbound⟩, outside⟩
    refine ⟨⟨part, partAt?_cons_eq_some_iff.mpr ⟨child, entered, inChild⟩,
      mentions⟩, ?_⟩
    rw [scopeAt_cons entered]
    intro name member
    rcases List.mem_append.mp member with own | deeper
    · exact outside name own
    · exact unbound name deeper

/-- The callee of an application is free below parameters if neither these nor a
binder around the application bind it. -/
theorem freeAt_callee_iff {params : List Name} {body : Expr} {name : Name}
    {args : List Expr} {tail : Bool} {path : List Nat}
    (found : body.partAt? path = some (.app (.var (.named name)) args tail)) :
    (lam params body).FreeAt (0 :: (path ++ [0])) (.named name) ↔
      name ∉ params ∧ name ∉ body.scopeAt path := by
  have callee : body.partAt? (path ++ [0]) = some (.var (.named name)) := by
    rw [partAt?_append, found]
    rfl
  have scope : body.scopeAt (path ++ [0]) = body.scopeAt path := by
    rw [scopeAt_append found]
    exact List.append_nil _
  rw [freeAt_cons_iff]
  constructor
  · rintro ⟨child, entered, ⟨-, unbound⟩, outside⟩
    cases entered
    rw [scope] at unbound
    exact ⟨fun member => outside name member rfl, fun member =>
      unbound name member rfl⟩
  · rintro ⟨noParam, notBound⟩
    refine ⟨body, rfl, ⟨⟨_, callee, rfl⟩, ?_⟩, ?_⟩
    · rw [scope]
      rintro other member same
      cases same
      exact notBound member
    · rintro other member same
      cases same
      exact noParam member

theorem mem_occurrencesList_iff {bound : List Name} {exprs : List Expr}
    {v : Var} :
    v ∈ occurrencesList bound exprs ↔ ∃ child ∈ exprs,
      v ∈ occurrences bound child := by
  induction exprs with
  | nil => simp [occurrencesList]
  | cons expr exprs ih => simp [occurrencesList, ih]

theorem mem_occurrencesAlts_iff {bound : List Name} {alts : List Alt}
    {v : Var} :
    v ∈ occurrencesAlts bound alts ↔
      ∃ alt ∈ alts, v ∈ occurrences (alt.binders ++ bound) alt.body := by
  induction alts with
  | nil => simp [occurrencesAlts]
  | cons alt alts ih =>
      cases alt <;> simp [occurrencesAlts, ih, Alt.binders, Alt.body]

/-- The variable occurs freely in a direct part, below the binders that scope
over it. -/
def OccursInside (bound : List Name) (v : Var) (expr : Expr) : Prop :=
  ∃ index child, expr.children[index]? = some child ∧
    v ∈ occurrences (expr.boundIn index ++ bound) child

/-- Expressions that bind the same names in all their parts, most often none. -/
theorem occursInside_iff {bound names : List Name} {v : Var} {expr : Expr}
    (uniform : ∀ index, expr.boundIn index = names) :
    OccursInside bound v expr ↔
      ∃ child ∈ expr.children, v ∈ occurrences (names ++ bound) child := by
  simp only [OccursInside, uniform, List.mem_iff_getElem?]
  constructor
  · rintro ⟨index, child, entered, member⟩
    exact ⟨child, ⟨index, entered⟩, member⟩
  · rintro ⟨child, ⟨index, entered⟩, member⟩
    exact ⟨index, child, entered, member⟩

private theorem mem_reference_iff {bound : List Name} {name : Name} {v : Var} :
    v ∈ (if name ∈ bound then [] else [Var.named name]) ↔
      .named name = v ∧ ∀ other ∈ bound, v ≠ .named other := by
  by_cases isBound : name ∈ bound
  · rw [if_pos isBound]
    refine iff_of_false List.not_mem_nil ?_
    rintro ⟨rfl, unbound⟩
    exact unbound name isBound rfl
  · rw [if_neg isBound, List.mem_singleton]
    constructor
    · rintro rfl
      refine ⟨rfl, fun other member same => isBound ?_⟩
      cases same
      exact member
    · rintro ⟨rfl, -⟩
      rfl

theorem mem_occurrences_iff_children {bound : List Name} {v : Var}
    (expr : Expr) :
    v ∈ occurrences bound expr ↔
      (expr.Mentions v ∧ ∀ name ∈ bound, v ≠ .named name) ∨
      OccursInside bound v expr := by
  cases expr with
  | var own =>
      rw [occursInside_iff (fun _ => rfl)]
      cases own with
      | slot index =>
          have unbound : Var.slot index = v → ∀ name ∈ bound,
              v ≠ .named name := by
            rintro rfl name - same
            cases same
          simp only [occurrences, Mentions, children, List.mem_singleton,
            List.not_mem_nil, false_and, exists_false, or_false]
          exact ⟨fun same => ⟨same.symm, unbound same.symm⟩, fun reference =>
            reference.1.symm⟩
      | named name =>
          simp only [occurrences, Mentions, children, mem_reference_iff,
            List.not_mem_nil, false_and, exists_false, or_false]
  | lazyApp name args =>
      rw [occursInside_iff (fun _ => rfl), occurrences, List.mem_append,
        mem_reference_iff, mem_occurrencesList_iff]
      rfl
  | letIn name value body =>
      rw [occurrences, List.mem_append]
      simp only [Mentions, false_and, false_or]
      constructor
      · rintro (inValue | inBody)
        · exact ⟨0, value, rfl, inValue⟩
        · exact ⟨1, body, rfl, inBody⟩
      · rintro ⟨index, child, entered, member⟩
        rcases index with _ | _ | index
        · cases entered
          exact .inl member
        · cases entered
          exact .inr member
        · cases entered
  | case scrutinee alts =>
      rw [occurrences, List.mem_append, mem_occurrencesAlts_iff]
      simp only [Mentions, false_and, false_or]
      constructor
      · rintro (inScrutinee | ⟨alt, place, inBody⟩)
        · exact ⟨0, scrutinee, rfl, inScrutinee⟩
        · obtain ⟨index, atIndex⟩ := List.mem_iff_getElem?.mp place
          refine ⟨index + 1, alt.body, ?_, ?_⟩
          · rw [children, List.getElem?_cons_succ, List.getElem?_map, atIndex,
              Option.map_some]
          · rw [boundIn, atIndex]
            exact inBody
      · rintro ⟨index, child, entered, member⟩
        cases index with
        | zero =>
            cases entered
            exact .inl member
        | succ index =>
            rw [children, List.getElem?_cons_succ, List.getElem?_map,
              Option.map_eq_some_iff] at entered
            obtain ⟨alt, atIndex, rfl⟩ := entered
            rw [boundIn, atIndex] at member
            exact .inr ⟨alt, List.mem_of_getElem? atIndex, member⟩
  | lam params body =>
      have uniform : ∀ index, (lam params body).boundIn index = params :=
        fun _ => rfl
      rw [occursInside_iff uniform]
      simp [occurrences, Mentions, children]
  | _ =>
      rw [occursInside_iff (fun _ => rfl)]
      simp [occurrences, Mentions, children, mem_occurrencesList_iff]

theorem mem_occurrences_iff {bound : List Name} {v : Var} (expr : Expr) :
    v ∈ occurrences bound expr ↔
      (∃ path, expr.FreeAt path v) ∧ ∀ name ∈ bound, v ≠ .named name := by
  induction expr using inductionOnParts generalizing bound with
  | step expr ih =>
      rw [mem_occurrences_iff_children]
      constructor
      · rintro (⟨mentions, unbound⟩ | ⟨index, child, entered, member⟩)
        · exact ⟨⟨[], freeAt_nil_iff.mpr mentions⟩, unbound⟩
        · obtain ⟨⟨path, free⟩, unbound⟩ :=
            (ih child (List.mem_of_getElem? entered)).mp member
          refine ⟨⟨index :: path,
            freeAt_cons_iff.mpr ⟨child, entered, free, ?_⟩⟩, ?_⟩
          · exact fun name own => unbound name (List.mem_append_left _ own)
          · exact fun name outer => unbound name (List.mem_append_right _ outer)
      · rintro ⟨⟨path, free⟩, unbound⟩
        cases path with
        | nil => exact .inl ⟨freeAt_nil_iff.mp free, unbound⟩
        | cons index path =>
            obtain ⟨child, entered, inChild, outside⟩ := freeAt_cons_iff.mp free
            refine .inr ⟨index, child, entered,
              (ih child (List.mem_of_getElem? entered)).mpr ⟨⟨path, inChild⟩,
                fun name member => ?_⟩⟩
            rcases List.mem_append.mp member with own | outer
            · exact outside name own
            · exact unbound name outer

/-- The free variables of an expression are those that occur freely somewhere in
it. -/
theorem mem_freeVars_iff {v : Var} {expr : Expr} :
    v ∈ expr.freeVars ↔ ∃ path, expr.FreeAt path v := by
  rw [freeVars, List.mem_eraseDups, mem_occurrences_iff]
  simp

end TailLoop.Expr
