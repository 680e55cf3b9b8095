import TailLoop.Contract.Check
import TailLoop.Core.TailPosition

/-!
# Parts of expressions

Every part of an expression stands in the list of its subexpressions, the root
first and the others in the order of evaluation.  What is said about each part
on its own, such as the breaches at its root, carries over to the marked and the
unmarked expression: both have the same parts but for the flags.  The lists of
parts and of tail positions hold what can be reached through direct parts, and
through bodies and branches.
-/

namespace TailLoop

/-- The same pattern with another body. -/
@[simp] def Alt.mapBody (f : Expr → Expr) : Alt → Alt
  | .con ctor args body => .con ctor args (f body)
  | .const value body => .const value (f body)
  | .default body => .default (f body)

@[simp] theorem Alt.isDefault_mapBody (f : Expr → Expr) (alt : Alt) :
    (alt.mapBody f).isDefault = alt.isDefault := by
  cases alt <;> rfl

namespace Expr

mutual

/-- The expression and all its parts, those evaluated later included. -/
@[simp] def subexprs : Expr → List Expr
  | .var v => [.var v]
  | .app func args tail =>
      .app func args tail :: (subexprs func ++ subexprsList args)
  | .lazyApp name args => .lazyApp name args :: subexprsList args
  | .lazy body => .lazy body :: subexprs body
  | .force body => .force body :: subexprs body
  | .lam params body => .lam params body :: subexprs body
  | .letIn name value body =>
      .letIn name value body :: (subexprs value ++ subexprs body)
  | .con name args tag => .con name args tag :: subexprsList args
  | .case scrutinee alts =>
      .case scrutinee alts :: (subexprs scrutinee ++ subexprsAlts alts)
  | .proj body index => .proj body index :: subexprs body
  | .lit const => [.lit const]
  | .foreign target args => .foreign target args :: subexprsList args
  | .op prim args => .op prim args :: subexprsList args
  | .fail message => [.fail message]
  | .null => [.null]

@[simp] def subexprsList : List Expr → List Expr
  | [] => []
  | expr :: exprs => subexprs expr ++ subexprsList exprs

@[simp] def subexprsAlts : List Alt → List Expr
  | [] => []
  | .con _ _ body :: alts => subexprs body ++ subexprsAlts alts
  | .const _ body :: alts => subexprs body ++ subexprsAlts alts
  | .default body :: alts => subexprs body ++ subexprsAlts alts

end

theorem self_mem_subexprs (expr : Expr) : expr ∈ expr.subexprs := by
  cases expr <;> rw [subexprs] <;> exact List.mem_cons_self

mutual

/-- Changes the flags of applications and the tags of constructed values. -/
@[simp] def relabeled (flag : Bool → Bool) (remark : Option Int → Option Int) :
    Expr → Expr
  | .var v => .var v
  | .app func args tail =>
      .app (relabeled flag remark func) (relabeledList flag remark args)
        (flag tail)
  | .lazyApp name args => .lazyApp name (relabeledList flag remark args)
  | .lazy body => .lazy (relabeled flag remark body)
  | .force body => .force (relabeled flag remark body)
  | .lam params body => .lam params (relabeled flag remark body)
  | .letIn name value body =>
      .letIn name (relabeled flag remark value) (relabeled flag remark body)
  | .con name args tag =>
      .con name (relabeledList flag remark args) (remark tag)
  | .case scrutinee alts =>
      .case (relabeled flag remark scrutinee) (relabeledAlts flag remark alts)
  | .proj body index => .proj (relabeled flag remark body) index
  | .lit const => .lit const
  | .foreign target args => .foreign target (relabeledList flag remark args)
  | .op prim args => .op prim (relabeledList flag remark args)
  | .fail message => .fail message
  | .null => .null

@[simp] def relabeledList (flag : Bool → Bool)
    (remark : Option Int → Option Int) :
    List Expr → List Expr
  | [] => []
  | expr :: exprs =>
      relabeled flag remark expr :: relabeledList flag remark exprs

@[simp] def relabeledAlts (flag : Bool → Bool)
    (remark : Option Int → Option Int) :
    List Alt → List Alt
  | [] => []
  | .con ctor args body :: alts =>
      .con ctor args (relabeled flag remark body) ::
        relabeledAlts flag remark alts
  | .const const body :: alts =>
      .const const (relabeled flag remark body) ::
        relabeledAlts flag remark alts
  | .default body :: alts =>
      .default (relabeled flag remark body) :: relabeledAlts flag remark alts

end

section Relabeled

variable (flag : Bool → Bool) (remark : Option Int → Option Int)

theorem relabeledList_eq_map (exprs : List Expr) :
    relabeledList flag remark exprs = exprs.map (relabeled flag remark) := by
  induction exprs with
  | nil => rw [relabeledList, List.map_nil]
  | cons expr exprs ih => rw [relabeledList, List.map_cons, ih]

theorem relabeledAlts_eq_map (alts : List Alt) :
    relabeledAlts flag remark alts =
      alts.map (Alt.mapBody (relabeled flag remark)) := by
  induction alts with
  | nil => rw [relabeledAlts, List.map_nil]
  | cons alt alts ih =>
      cases alt <;> rw [relabeledAlts, List.map_cons, ih] <;> rfl

@[simp] theorem isVar_relabeled (expr : Expr) :
    (expr.relabeled flag remark).isVar =
    expr.isVar := by
  cases expr <;> rw [relabeled] <;> rfl

mutual

@[simp] theorem relabeled_relabeled (flag' : Bool → Bool)
    (remark' : Option Int → Option Int) (expr : Expr) :
    (expr.relabeled flag remark).relabeled flag' remark' =
      expr.relabeled (flag' ∘ flag) (remark' ∘ remark) := by
  cases expr with
  | app func args tail =>
      simp [relabeled_relabeled _ _ func, relabeledList_relabeled _ _ args]
  | lazyApp name args => simp [relabeledList_relabeled _ _ args]
  | lazy body => simp [relabeled_relabeled _ _ body]
  | force body => simp [relabeled_relabeled _ _ body]
  | lam params body => simp [relabeled_relabeled _ _ body]
  | letIn name value body =>
      simp [relabeled_relabeled _ _ value, relabeled_relabeled _ _ body]
  | con name args tag =>
      simp [relabeledList_relabeled _ _ args]
  | case scrutinee alts =>
      simp [relabeled_relabeled _ _ scrutinee, relabeledAlts_relabeled _ _ alts]
  | proj body index => simp [relabeled_relabeled _ _ body]
  | foreign target args =>
      simp [relabeledList_relabeled _ _ args]
  | op prim args => simp [relabeledList_relabeled _ _ args]
  | _ => simp

@[simp] theorem relabeledList_relabeled (flag' : Bool → Bool)
    (remark' : Option Int → Option Int) (exprs : List Expr) :
    relabeledList flag' remark' (relabeledList flag remark exprs) =
      relabeledList (flag' ∘ flag) (remark' ∘ remark) exprs := by
  cases exprs with
  | nil => rfl
  | cons expr exprs =>
      simp [relabeled_relabeled _ _ expr, relabeledList_relabeled _ _ exprs]

@[simp] theorem relabeledAlts_relabeled (flag' : Bool → Bool)
    (remark' : Option Int → Option Int) (alts : List Alt) :
    relabeledAlts flag' remark' (relabeledAlts flag remark alts) =
      relabeledAlts (flag' ∘ flag) (remark' ∘ remark) alts := by
  cases alts with
  | nil => rfl
  | cons alt alts =>
      cases alt <;>
        simp [relabeled_relabeled _ _ _, relabeledAlts_relabeled _ _ alts]

end

mutual

@[simp] theorem subexprs_relabeled (expr : Expr) :
    (expr.relabeled flag remark).subexprs =
      expr.subexprs.map (relabeled flag remark) := by
  cases expr with
  | app func args tail =>
      simp [subexprs_relabeled func, subexprsList_relabeled args]
  | lazyApp name args =>
      simp [subexprsList_relabeled args]
  | lazy body =>
      simp [subexprs_relabeled body]
  | force body =>
      simp [subexprs_relabeled body]
  | lam params body =>
      simp [subexprs_relabeled body]
  | letIn name value body =>
      simp [subexprs_relabeled value, subexprs_relabeled body]
  | con name args tag =>
      simp [subexprsList_relabeled args]
  | case scrutinee alts =>
      simp [subexprs_relabeled scrutinee, subexprsAlts_relabeled alts]
  | proj body index =>
      simp [subexprs_relabeled body]
  | foreign target args =>
      simp [subexprsList_relabeled args]
  | op prim args =>
      simp [subexprsList_relabeled args]
  | _ => simp

@[simp] theorem subexprsList_relabeled (exprs : List Expr) :
    subexprsList (relabeledList flag remark exprs) =
      (subexprsList exprs).map (relabeled flag remark) := by
  cases exprs with
  | nil => rfl
  | cons expr exprs =>
      simp [subexprs_relabeled expr, subexprsList_relabeled exprs]

@[simp] theorem subexprsAlts_relabeled (alts : List Alt) :
    subexprsAlts (relabeledAlts flag remark alts) =
      (subexprsAlts alts).map (relabeled flag remark) := by
  cases alts with
  | nil => rfl
  | cons alt alts =>
      cases alt <;>
        simp [subexprs_relabeled _, subexprsAlts_relabeled alts]

end

end Relabeled

@[simp] theorem length_unmarkedList (exprs : List Expr) :
    (unmarkedList exprs).length = exprs.length := by
  induction exprs with
  | nil => rfl
  | cons expr exprs ih =>
      rw [unmarkedList, List.length_cons, List.length_cons, ih]

theorem unmarkedAlts_eq_map (alts : List Alt) :
    unmarkedAlts alts = alts.map (Alt.mapBody unmarked) := by
  induction alts with
  | nil => rfl
  | cons alt alts ih => cases alt <;> rw [unmarkedAlts, ih] <;> rfl

theorem markedAlts_eq_map (name : Name) (alts : List Alt) :
    markedAlts name alts = alts.map (Alt.mapBody (marked name)) := by
  induction alts with
  | nil => rfl
  | cons alt alts ih => cases alt <;> rw [markedAlts, ih] <;> rfl

mutual

/-- Unmarking changes the flags and keeps the tags. -/
theorem unmarked_eq_relabeled (expr : Expr) :
    expr.unmarked = expr.relabeled (fun _ => false) id := by
  cases expr with
  | app func args tail =>
      simp [unmarked_eq_relabeled func, unmarkedList_eq_relabeled args]
  | lazyApp name args =>
      simp [unmarkedList_eq_relabeled args]
  | lazy body => simp [unmarked_eq_relabeled body]
  | force body => simp [unmarked_eq_relabeled body]
  | lam params body => simp [unmarked_eq_relabeled body]
  | letIn name value body =>
      simp [unmarked_eq_relabeled value, unmarked_eq_relabeled body]
  | con name args tag =>
      simp [unmarkedList_eq_relabeled args]
  | case scrutinee alts =>
      simp [unmarked_eq_relabeled scrutinee, unmarkedAlts_eq_relabeled alts]
  | proj body index => simp [unmarked_eq_relabeled body]
  | foreign target args =>
      simp [unmarkedList_eq_relabeled args]
  | op prim args => simp [unmarkedList_eq_relabeled args]
  | _ => rfl

theorem unmarkedList_eq_relabeled (exprs : List Expr) :
    unmarkedList exprs = relabeledList (fun _ => false) id exprs := by
  cases exprs with
  | nil => rfl
  | cons expr exprs =>
      simp [unmarked_eq_relabeled expr, unmarkedList_eq_relabeled exprs]

theorem unmarkedAlts_eq_relabeled (alts : List Alt) :
    unmarkedAlts alts = relabeledAlts (fun _ => false) id alts := by
  cases alts with
  | nil => rfl
  | cons alt alts =>
      cases alt <;>
        simp [unmarked_eq_relabeled _, unmarkedAlts_eq_relabeled alts]

end

theorem unmarkedList_eq_map (exprs : List Expr) :
    unmarkedList exprs = exprs.map unmarked := by
  rw [unmarkedList_eq_relabeled, relabeledList_eq_map,
    ← funext unmarked_eq_relabeled]

@[simp] theorem subexprs_unmarked (expr : Expr) :
    expr.unmarked.subexprs = expr.subexprs.map unmarked := by
  rw [funext unmarked_eq_relabeled, subexprs_relabeled]

@[simp] theorem subexprsList_unmarked (exprs : List Expr) :
    subexprsList (unmarkedList exprs) = (subexprsList exprs).map unmarked := by
  rw [unmarkedList_eq_relabeled, funext unmarked_eq_relabeled,
    subexprsList_relabeled]

@[simp] theorem unmarked_unmarked (expr : Expr) :
    expr.unmarked.unmarked = expr.unmarked := by
  rw [unmarked_eq_relabeled, unmarked_eq_relabeled, relabeled_relabeled]
  rfl

@[simp] theorem unmarkedList_unmarked (exprs : List Expr) :
    unmarkedList (unmarkedList exprs) = unmarkedList exprs := by
  rw [unmarkedList_eq_relabeled, unmarkedList_eq_relabeled,
    relabeledList_relabeled]
  rfl

mutual

/-- Marking changes flags only. -/
@[simp] theorem unmarked_marked (name : Name) (expr : Expr) :
    (expr.marked name).unmarked = expr.unmarked := by
  cases expr with
  | letIn binder value body =>
      simp [unmarked_unmarked value, unmarked_marked name body]
  | case scrutinee alts =>
      simp [unmarked_unmarked scrutinee, unmarkedAlts_marked name alts]
  | app func args tail =>
      simp [unmarked_unmarked func, unmarkedList_unmarked args]
  | _ => exact unmarked_unmarked _

@[simp] theorem unmarkedAlts_marked (name : Name) (alts : List Alt) :
    unmarkedAlts (markedAlts name alts) = unmarkedAlts alts := by
  cases alts with
  | nil => rfl
  | cons alt alts =>
      cases alt <;>
        simp [unmarked_marked name _, unmarkedAlts_marked name alts]

end

/-- An unmarked expression has no flagged part. -/
theorem app_mem_subexprs_unmarked {expr func : Expr} {args : List Expr}
    {tail : Bool} (member : .app func args tail ∈ expr.unmarked.subexprs) :
    tail = false := by
  rw [subexprs_unmarked] at member
  obtain ⟨part, -, same⟩ := List.mem_map.mp member
  cases part with
  | app func args flag =>
      cases same
      rfl
  | _ => cases same

/-- An application that was unmarked from one of the given expressions. -/
def UnmarkedFrom (leaves : List Expr) (func : Expr) (args : List Expr) : Prop :=
  ∃ func' args' tail, .app func' args' tail ∈ leaves ∧
    func = func'.unmarked ∧ args = unmarkedList args'

theorem UnmarkedFrom.mono {leaves others : List Expr} {func : Expr}
    {args : List Expr} (unmarkedFrom : UnmarkedFrom leaves func args)
    (fewer : leaves ⊆ others) :
    UnmarkedFrom others func args := by
  obtain ⟨func', args', tail, member, same⟩ := unmarkedFrom
  exact ⟨func', args', tail, fewer member, same⟩

mutual

/-- Flagged parts of a marked expression stand in tail position. -/
theorem app_mem_subexprs_marked {name : Name} {func : Expr} {args : List Expr}
    (expr : Expr) (member : .app func args true ∈ (expr.marked name).subexprs) :
    UnmarkedFrom expr.tailPositions func args := by
  cases expr with
  | letIn binder value body =>
      rw [marked, subexprs, List.mem_cons, List.mem_append] at member
      rw [tailPositions]
      rcases member with same | inValue | inBody
      · cases same
      · cases app_mem_subexprs_unmarked inValue
      · exact app_mem_subexprs_marked body inBody
  | case scrutinee alts =>
      rw [marked, subexprs, List.mem_cons, List.mem_append] at member
      rw [tailPositions]
      rcases member with same | inScrutinee | inAlts
      · cases same
      · cases app_mem_subexprs_unmarked inScrutinee
      · exact app_mem_subexprsAlts_marked alts inAlts
  | app func' args' tail =>
      rw [marked, subexprs, List.mem_cons, List.mem_append] at member
      rcases member with same | inFunc | inArgs
      · injection same with sameFunc sameArgs
        exact ⟨func', args', tail, List.mem_singleton.mpr rfl, sameFunc,
          sameArgs⟩
      · cases app_mem_subexprs_unmarked inFunc
      · rw [subexprsList_unmarked] at inArgs
        obtain ⟨part, -, same⟩ := List.mem_map.mp inArgs
        cases part <;> cases same
  | _ => cases app_mem_subexprs_unmarked member

theorem app_mem_subexprsAlts_marked {name : Name} {func : Expr}
    {args : List Expr} (alts : List Alt)
    (member : .app func args true ∈ subexprsAlts (markedAlts name alts)) :
    UnmarkedFrom (tailPositionsAlts alts) func args := by
  cases alts with
  | nil => cases member
  | cons alt alts =>
      cases alt <;>
        rw [markedAlts, subexprsAlts, List.mem_append] at member <;>
        rw [tailPositionsAlts] <;>
        exact member.elim
          (fun inBody => (app_mem_subexprs_marked _ inBody).mono
            (List.subset_append_left _ _))
          fun later => (app_mem_subexprsAlts_marked alts later).mono
            (List.subset_append_right _ _)

end

/-- The part is the expression or stands, at any depth, in one of its direct
parts. -/
inductive Contains : Expr → Expr → Prop where
  | self (expr : Expr) : Contains expr expr
  | inside {expr child part : Expr} :
      child ∈ expr.children → Contains child part → Contains expr part

/-- Only the bodies of bindings and the branches of case analyses lead to the
part. -/
inductive EndsIn : Expr → Expr → Prop where
  | self (expr : Expr) : EndsIn expr expr
  | binding {name : Name} {value body part : Expr} :
      EndsIn body part → EndsIn (.letIn name value body) part
  | branch {scrutinee part : Expr} {alts : List Alt} {alt : Alt} :
      alt ∈ alts → EndsIn alt.body part → EndsIn (.case scrutinee alts) part

theorem sizeOf_body_lt_of_mem {alt : Alt} {alts : List Alt}
    (member : alt ∈ alts) :
    sizeOf alt.body < sizeOf alts := by
  have smaller := List.sizeOf_lt_of_mem member
  cases alt <;> simp only [Alt.body, Alt.con.sizeOf_spec, Alt.const.sizeOf_spec,
    Alt.default.sizeOf_spec] at smaller ⊢ <;> omega

theorem sizeOf_lt_of_mem_children {expr child : Expr}
    (member : child ∈ expr.children) :
    sizeOf child < sizeOf expr := by
  have ofArgs {args : List Expr} (inArgs : child ∈ args) :
      sizeOf child < sizeOf args :=
    List.sizeOf_lt_of_mem inArgs
  cases expr with
  | app func args tail =>
      rw [app.sizeOf_spec]
      rcases List.mem_cons.mp member with rfl | inArgs
      · omega
      · have := ofArgs inArgs
        omega
  | lazyApp name args =>
      rw [lazyApp.sizeOf_spec]
      exact Nat.lt_add_left _ (ofArgs member)
  | con name args tag =>
      rw [con.sizeOf_spec]
      exact Nat.lt_add_right _ (Nat.lt_add_left _ (ofArgs member))
  | foreign target args =>
      rw [foreign.sizeOf_spec]
      exact Nat.lt_add_left _ (ofArgs member)
  | op prim args =>
      rw [op.sizeOf_spec]
      exact Nat.lt_add_left _ (ofArgs member)
  | letIn name value body =>
      rw [letIn.sizeOf_spec]
      rcases List.mem_cons.mp member with rfl | inBody
      · omega
      · rw [List.mem_singleton.mp inBody]
        omega
  | case scrutinee alts =>
      rw [case.sizeOf_spec]
      rcases List.mem_cons.mp member with rfl | inAlts
      · omega
      · obtain ⟨alt, altMember, rfl⟩ := List.mem_map.mp inAlts
        have := sizeOf_body_lt_of_mem altMember
        omega
  | lazy body =>
      rw [lazy.sizeOf_spec, List.mem_singleton.mp member]
      omega
  | force body =>
      rw [force.sizeOf_spec, List.mem_singleton.mp member]
      omega
  | lam params body =>
      rw [lam.sizeOf_spec, List.mem_singleton.mp member]
      omega
  | proj body index =>
      rw [proj.sizeOf_spec, List.mem_singleton.mp member]
      omega
  | _ => cases member

/-- What holds of an expression if it holds of its direct parts holds of all. -/
theorem inductionOnParts {motive : Expr → Prop}
    (step : ∀ expr, (∀ child ∈ expr.children, motive child) → motive expr)
    (expr : Expr) :
    motive expr :=
  step expr fun child member =>
    have := sizeOf_lt_of_mem_children member
    inductionOnParts step child
termination_by sizeOf expr

@[simp] theorem children_relabeled (flag : Bool → Bool)
    (remark : Option Int → Option Int) (expr : Expr) :
    (expr.relabeled flag remark).children =
      expr.children.map (relabeled flag remark) := by
  have bodies (alts : List Alt) :
      (relabeledAlts flag remark alts).map Alt.body =
      (alts.map Alt.body).map (relabeled flag remark) := by
    rw [relabeledAlts_eq_map, List.map_map, List.map_map]
    refine List.map_congr_left fun alt _ => ?_
    cases alt <;> rfl
  cases expr <;>
    simp only [relabeled, children, List.map_cons, List.map_nil,
      relabeledList_eq_map, bodies]

@[simp] theorem children_unmarked (expr : Expr) :
    expr.unmarked.children = expr.children.map unmarked := by
  rw [unmarked_eq_relabeled, children_relabeled, ← funext unmarked_eq_relabeled]

private theorem mem_subexprsList_iff {part : Expr} {exprs : List Expr} :
    part ∈ subexprsList exprs ↔ ∃ expr ∈ exprs, part ∈ expr.subexprs := by
  induction exprs with
  | nil => simp [subexprsList]
  | cons expr exprs ih => simp [subexprsList, ih]

private theorem mem_subexprsAlts_iff {part : Expr} {alts : List Alt} :
    part ∈ subexprsAlts alts ↔ ∃ body ∈ alts.map Alt.body,
      part ∈ body.subexprs := by
  induction alts with
  | nil => simp [subexprsAlts]
  | cons alt alts ih => cases alt <;> simp [subexprsAlts, ih, Alt.body]

/-- The parts of an expression are its root and the parts of its direct
parts. -/
theorem mem_subexprs_iff_children {expr part : Expr} :
    part ∈ expr.subexprs ↔ part = expr ∨ ∃ child ∈ expr.children,
      part ∈ child.subexprs := by
  cases expr <;>
    simp [subexprs, children, mem_subexprsList_iff, mem_subexprsAlts_iff]

theorem mem_subexprs_iff {part : Expr} (expr : Expr) :
    part ∈ expr.subexprs ↔ expr.Contains part := by
  constructor
  · induction expr using inductionOnParts with
    | step expr ih =>
        intro member
        rcases mem_subexprs_iff_children.mp member with
          rfl | ⟨child, place, inChild⟩
        · exact .self _
        · exact .inside place (ih child place inChild)
  · intro contains
    induction contains with
    | self expr => exact self_mem_subexprs expr
    | inside place _ ih =>
        exact mem_subexprs_iff_children.mpr (.inr ⟨_, place, ih⟩)

theorem mem_tailPositionsAlts_iff {leaf : Expr} {alts : List Alt} :
    leaf ∈ tailPositionsAlts alts ↔ ∃ alt ∈ alts,
      leaf ∈ alt.body.tailPositions := by
  induction alts with
  | nil => simp [tailPositionsAlts]
  | cons alt alts ih => cases alt <;> simp [tailPositionsAlts, ih, Alt.body]

theorem endsIn_of_mem_tailPositions {leaf : Expr} (expr : Expr)
    (member : leaf ∈ expr.tailPositions) : expr.EndsIn leaf := by
  induction expr using inductionOnParts with
  | step expr ih =>
      cases expr with
      | letIn name value body =>
          rw [tailPositions] at member
          exact .binding (ih body (by simp [children]) member)
      | case scrutinee alts =>
          rw [tailPositions] at member
          obtain ⟨alt, place, inBody⟩ := mem_tailPositionsAlts_iff.mp member
          refine .branch place (ih alt.body ?_ inBody)
          exact List.mem_cons_of_mem _ (List.mem_map_of_mem place)
      | _ =>
          cases List.mem_singleton.mp member
          exact .self _

/-- An application that ends an expression stands in tail position. -/
theorem app_mem_tailPositions_iff {expr func : Expr} {args : List Expr}
    {tail : Bool} :
    .app func args tail ∈ expr.tailPositions ↔
      expr.EndsIn (.app func args tail) := by
  constructor
  · exact endsIn_of_mem_tailPositions expr
  · intro ends
    generalize same : Expr.app func args tail = leaf at ends
    induction ends with
    | self expr =>
        subst same
        exact List.mem_singleton.mpr rfl
    | binding _ ih =>
        rw [tailPositions]
        exact ih same
    | branch place _ ih =>
        rw [tailPositions]
        exact mem_tailPositionsAlts_iff.mpr ⟨_, place, ih same⟩

end Expr

namespace Contract

/-- The breaches at the root of an expression. -/
def rootBreaches (constructors : List Constructor) : Expr → List Breach
  | .lam params _ => repeatedParams [] params
  | .con name args _ =>
      constructorBreaches constructors .application name args.length
  | .case _ alts => shapeBreaches alts ++ patternBreaches constructors alts
  | .foreign target _ => targetBreaches target
  | _ => []

mutual

@[simp] theorem exprBreaches_eq (constructors : List Constructor)
    (expr : Expr) :
    exprBreaches constructors expr =
      expr.subexprs.flatMap (rootBreaches constructors) := by
  cases expr with
  | app func args tail =>
      simp [exprBreaches, Expr.subexprs, rootBreaches,
        exprBreaches_eq constructors func, listBreaches_eq constructors args]
  | lazyApp name args =>
      simp [exprBreaches, Expr.subexprs, rootBreaches,
        listBreaches_eq constructors args]
  | lazy body =>
      simp [exprBreaches, Expr.subexprs, rootBreaches,
        exprBreaches_eq constructors body]
  | force body =>
      simp [exprBreaches, Expr.subexprs, rootBreaches,
        exprBreaches_eq constructors body]
  | lam params body =>
      simp [exprBreaches, Expr.subexprs, rootBreaches,
        exprBreaches_eq constructors body]
  | letIn name value body =>
      simp [exprBreaches, Expr.subexprs, rootBreaches,
        exprBreaches_eq constructors value, exprBreaches_eq constructors body]
  | con name args tag =>
      simp [exprBreaches, Expr.subexprs, rootBreaches,
        listBreaches_eq constructors args]
  | case scrutinee alts =>
      simp [exprBreaches, Expr.subexprs, rootBreaches,
        exprBreaches_eq constructors scrutinee,
        altBreaches_eq constructors alts]
  | proj body index =>
      simp [exprBreaches, Expr.subexprs, rootBreaches,
        exprBreaches_eq constructors body]
  | foreign target args =>
      simp [exprBreaches, Expr.subexprs, rootBreaches,
        listBreaches_eq constructors args]
  | op prim args =>
      simp [exprBreaches, Expr.subexprs, rootBreaches,
        listBreaches_eq constructors args]
  | _ => rfl

@[simp] theorem listBreaches_eq (constructors : List Constructor)
    (exprs : List Expr) :
    listBreaches constructors exprs =
      (Expr.subexprsList exprs).flatMap (rootBreaches constructors) := by
  cases exprs with
  | nil => rfl
  | cons expr exprs =>
      simp [listBreaches, exprBreaches_eq constructors expr,
        listBreaches_eq constructors exprs]

@[simp] theorem altBreaches_eq (constructors : List Constructor)
    (alts : List Alt) :
    altBreaches constructors alts =
      (Expr.subexprsAlts alts).flatMap (rootBreaches constructors) := by
  cases alts with
  | nil => rfl
  | cons alt alts =>
      cases alt <;>
        simp [altBreaches, exprBreaches_eq constructors _,
          altBreaches_eq constructors alts]

end

@[simp] theorem shapeBreaches_map (f : Expr → Expr) (alts : List Alt) :
    shapeBreaches (alts.map (Alt.mapBody f)) = shapeBreaches alts := by
  have same : Alt.isDefault ∘ Alt.mapBody f = Alt.isDefault :=
    funext (Alt.isDefault_mapBody f)
  simp only [shapeBreaches, List.isEmpty_map, List.filter_map, List.length_map,
    ← List.map_dropLast, List.any_map, same]

@[simp] theorem patternBreaches_map (constructors : List Constructor)
    (f : Expr → Expr) (alts : List Alt) :
    patternBreaches constructors (alts.map (Alt.mapBody f)) =
      patternBreaches constructors alts := by
  rw [patternBreaches, patternBreaches, List.flatMap_map]
  congr 1
  funext alt
  cases alt <;> rfl

@[simp] theorem rootBreaches_relabeled (flag : Bool → Bool)
    (remark : Option Int → Option Int) (constructors : List Constructor)
    (expr : Expr) :
    rootBreaches constructors (expr.relabeled flag remark) =
      rootBreaches constructors expr := by
  cases expr with
  | con name args tag =>
      rw [Expr.relabeled, rootBreaches, rootBreaches, Expr.relabeledList_eq_map,
        List.length_map]
  | case scrutinee alts =>
      simp [rootBreaches, Expr.relabeledAlts_eq_map]
  | _ => rw [Expr.relabeled] <;> rfl

/-- The checker does not look at flags and at the tags of constructed values. -/
@[simp] theorem exprBreaches_relabeled (flag : Bool → Bool)
    (remark : Option Int → Option Int) (constructors : List Constructor)
    (expr : Expr) :
    exprBreaches constructors (expr.relabeled flag remark) =
      exprBreaches constructors expr := by
  rw [exprBreaches_eq, exprBreaches_eq, Expr.subexprs_relabeled,
    List.flatMap_map]
  simp

@[simp] theorem exprBreaches_unmarked (constructors : List Constructor)
    (expr : Expr) :
    exprBreaches constructors expr.unmarked =
      exprBreaches constructors expr := by
  rw [Expr.unmarked_eq_relabeled, exprBreaches_relabeled]

/-- The checker says the same about the marked body of a function. -/
@[simp] theorem exprBreaches_marked (constructors : List Constructor)
    (name : Name) (expr : Expr) :
    exprBreaches constructors (expr.marked name) =
      exprBreaches constructors expr := by
  rw [← exprBreaches_unmarked, Expr.unmarked_marked, exprBreaches_unmarked]

end Contract

end TailLoop
