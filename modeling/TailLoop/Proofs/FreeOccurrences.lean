import Mathlib.Data.List.Basic
import Mathlib.Tactic.Choose
import TailLoop.Proofs.SelfCallMarking

/-!
# Free occurrences in order

A variable is listed among the free variables of an expression if it occurs
freely somewhere in it, and it is listed where its first free occurrence
stands.  A place comes before the places inside it, and of two parts the one
that is evaluated first comes first.  Marking self calls leaves the list as it
is.
-/

namespace TailLoop.Expr

/-- The place comes first when an expression is read from left to right. -/
def Precedes (path other : List Nat) : Prop :=
  List.Lex (· < ·) path other

/-- The first free occurrence of a variable. -/
structure FirstFreeAt (expr : Expr) (path : List Nat) (v : Var) : Prop where
  free : expr.FreeAt path v
  first : ∀ other, expr.FreeAt other v → other = path ∨ Precedes path other

/-- Places with the variables that occur there. -/
abbrev Places := List (List Nat × Var)

namespace Places

/-- From left to right. -/
def Ordered (places : Places) : Prop :=
  places.Pairwise fun place later => Precedes place.1 later.1

/-- The first of the places of a variable. -/
def IsFirst (places : Places) (path : List Nat) (v : Var) : Prop :=
  (path, v) ∈ places ∧ ∀ other, (other, v) ∈ places → other = path ∨
    Precedes path other

theorem isFirst_cons {place : List Nat × Var} {places : Places}
    (ordered : Ordered (place :: places)) :
    IsFirst (place :: places) place.1 place.2 := by
  refine ⟨List.mem_cons_self, ?_⟩
  intro other member
  rcases List.mem_cons.mp member with same | later
  · exact .inl (congrArg Prod.fst same)
  · exact .inr (List.rel_of_pairwise_cons ordered later)

theorem exists_isFirst {places : Places} {v : Var} (ordered : places.Ordered)
    (occurs : v ∈ places.map Prod.snd) : ∃ path, places.IsFirst path v := by
  induction places with
  | nil => cases occurs
  | cons place places ih =>
      by_cases here : place.2 = v
      · cases here
        exact ⟨place.1, isFirst_cons ordered⟩
      · have later : v ∈ places.map Prod.snd :=
          (List.mem_cons.mp occurs).resolve_left fun same => here same.symm
        obtain ⟨path, member, first⟩ := ih ordered.tail later
        refine ⟨path, List.mem_cons_of_mem _ member, fun other found =>
          first other ?_⟩
        refine (List.mem_cons.mp found).resolve_left fun same => here ?_
        exact (congrArg Prod.snd same).symm

/-- The places of the other variables. -/
def without (v : Var) (places : Places) : Places :=
  places.filter fun place => !place.2 == v

theorem mem_without_iff {v w : Var} {path : List Nat} {places : Places}
    (different : w ≠ v) :
    (path, w) ∈ without v places ↔ (path, w) ∈ places := by
  rw [without, List.mem_filter, Bool.not_eq_true', beq_eq_false_iff_ne,
    and_iff_left different]

@[simp] theorem map_snd_without (v : Var) (places : Places) :
    (without v places).map Prod.snd = (places.map Prod.snd).filter fun w =>
      !w == v := by
  rw [List.filter_map]
  rfl

theorem IsFirst.of_without {place : List Nat × Var} {places : Places}
    {path : List Nat} {v : Var} (different : v ≠ place.2)
    (first : IsFirst (without place.2 places) path v) :
    IsFirst (place :: places) path v := by
  refine ⟨List.mem_cons_of_mem _ ((mem_without_iff different).mp first.1), ?_⟩
  intro other member
  refine first.2 other ((mem_without_iff different).mpr ?_)
  exact (List.mem_cons.mp member).resolve_left fun same =>
    different (congrArg Prod.snd same)

/-- Each variable is kept once, at its first place. -/
theorem pairwise_eraseDups (places : Places) (ordered : places.Ordered) :
    (places.map Prod.snd).eraseDups.Nodup ∧
    (places.map Prod.snd).eraseDups.Pairwise fun v w => ∃ path other,
      places.IsFirst path v ∧ places.IsFirst other w ∧ Precedes path other := by
  match places with
  | [] => exact ⟨.nil, .nil⟩
  | place :: places =>
      have stillOrdered : Ordered (without place.2 places) :=
        ordered.tail.filter _
      obtain ⟨distinct, inOrder⟩ :=
        pairwise_eraseDups (without place.2 places) stillOrdered
      rw [List.map_cons, List.eraseDups_cons, ← map_snd_without]
      have others : ∀ v ∈ ((without place.2 places).map Prod.snd).eraseDups,
          v ∈ (without place.2 places).map Prod.snd ∧ v ≠ place.2 := by
        intro v member
        have occurs := List.mem_eraseDups.mp member
        refine ⟨occurs, ?_⟩
        rw [map_snd_without, List.mem_filter, Bool.not_eq_true',
          beq_eq_false_iff_ne] at occurs
        exact occurs.2
      have alone :
          place.2 ∉ ((without place.2 places).map Prod.snd).eraseDups :=
        fun member => (others _ member).2 rfl
      refine ⟨List.nodup_cons.mpr ⟨alone, distinct⟩,
        .cons ?_ (inOrder.imp_of_mem ?_)⟩
      · intro v member
        obtain ⟨occurs, different⟩ := others v member
        obtain ⟨other, first⟩ := exists_isFirst stillOrdered occurs
        refine ⟨place.1, other, isFirst_cons ordered,
          first.of_without different, ?_⟩
        exact List.rel_of_pairwise_cons ordered
          ((mem_without_iff different).mp first.1)
      · rintro v w inV inW ⟨path, other, first, second, before⟩
        exact ⟨path, other, first.of_without (others v inV).2,
          second.of_without (others w inW).2, before⟩
termination_by places.length
decreasing_by exact Nat.lt_succ_of_le (List.length_filter_le _ _)

end Places

/-- The variable that an expression itself refers to. -/
def reference? : Expr → Option Var
  | .var v => some v
  | .lazyApp name _ => some (.named name)
  | _ => none

@[simp] theorem reference?_eq_some_iff {expr : Expr} {v : Var} :
    expr.reference? = some v ↔ expr.Mentions v := by
  cases expr with
  | var => exact Option.some_inj
  | lazyApp => exact Option.some_inj
  | _ => exact iff_of_false (by rintro ⟨⟩) id

/-- No binder binds the variable.  Slots are never bound. -/
def isUnbound (bound : List Name) : Var → Bool
  | .slot _ => true
  | .named name => name ∉ bound

@[simp] theorem isUnbound_iff {bound : List Name} {v : Var} :
    isUnbound bound v = true ↔ ∀ name ∈ bound, v ≠ .named name := by
  cases v with
  | slot index => simp [isUnbound]
  | named own =>
      simp only [isUnbound, decide_eq_true_eq, ne_eq, Var.named.injEq]
      exact ⟨fun absent name member same => absent (same ▸ member),
        fun differs member => differs own member rfl⟩

theorem occurrencesList_eq_flatMap (bound : List Name) (exprs : List Expr) :
    occurrencesList bound exprs = exprs.flatMap (occurrences bound) := by
  induction exprs with
  | nil => rfl
  | cons expr exprs ih => rw [occurrencesList, ih, List.flatMap_cons]

theorem occurrencesAlts_eq_flatMap (bound : List Name) (alts : List Alt) :
    occurrencesAlts bound alts =
      alts.flatMap fun alt => occurrences (alt.binders ++ bound) alt.body := by
  induction alts with
  | nil => rfl
  | cons alt alts ih =>
      cases alt <;> rw [occurrencesAlts, ih, List.flatMap_cons] <;> rfl

/-- The occurrences in the parts from left to right, each below what is bound in
the part. -/
def innerOccurrences (bound : List Name) (expr : Expr) : List Var :=
  expr.children.zipIdx.flatMap fun part =>
    occurrences (expr.boundIn part.2 ++ bound) part.1

/-- Parts that are all below the same binders need no index. -/
theorem innerOccurrences_eq {bound names : List Name} {expr : Expr}
    (uniform : ∀ index, expr.boundIn index = names) :
    innerOccurrences bound expr =
      expr.children.flatMap (occurrences (names ++ bound)) := by
  have plain : expr.children = expr.children.zipIdx.map Prod.fst :=
    (List.zipIdx_map_fst ..).symm
  rw [innerOccurrences]
  simp only [uniform]
  conv => rhs; rw [plain, List.flatMap_map]

theorem innerOccurrences_case (bound : List Name) (scrutinee : Expr)
    (alts : List Alt) :
    innerOccurrences bound (.case scrutinee alts) =
      occurrences bound scrutinee ++ occurrencesAlts bound alts := by
  have plain : alts = (alts.zipIdx 1).map Prod.fst :=
    (List.zipIdx_map_fst ..).symm
  rw [innerOccurrences, children, List.zipIdx_cons, List.flatMap_cons,
    List.zipIdx_map, List.flatMap_map, occurrencesAlts_eq_flatMap]
  refine congrArg (occurrences bound scrutinee ++ ·) ?_
  conv => rhs; rw [plain, List.flatMap_map]
  apply List.flatMap_congr
  rintro ⟨alt, index⟩ member
  obtain ⟨later, atIndex⟩ := List.mem_zipIdx_iff_le_and_getElem?_sub.mp member
  obtain ⟨place, rfl⟩ := Nat.exists_eq_add_of_le' later
  rw [Nat.add_sub_cancel] at atIndex
  dsimp only [Prod.map, id]
  rw [boundIn, atIndex]
  rfl

/-- What an expression refers to itself comes before what its parts refer to. -/
theorem occurrences_eq (bound : List Name) (expr : Expr) :
    occurrences bound expr =
      expr.reference?.toList.filter (isUnbound bound) ++
        innerOccurrences bound expr := by
  cases expr with
  | case scrutinee alts =>
      rw [occurrences, innerOccurrences_case]
      rfl
  | lam params body =>
      have uniform : ∀ index, (lam params body).boundIn index = params :=
        fun _ => rfl
      rw [innerOccurrences_eq uniform, occurrences, children,
        List.flatMap_singleton]
      rfl
  | letIn name value body =>
      rw [occurrences, innerOccurrences, children]
      simp [List.zipIdx_cons, boundIn, reference?]
  | var v =>
      rw [innerOccurrences_eq (fun _ => rfl)]
      cases v with
      | slot index => rfl
      | named name => by_cases inside : name ∈ bound <;>
          simp [occurrences, reference?, isUnbound, children, inside]
  | lazyApp name args =>
      rw [innerOccurrences_eq (fun _ => rfl)]
      by_cases inside : name ∈ bound <;>
        simp [occurrences, reference?, isUnbound, children,
          occurrencesList_eq_flatMap, inside]
  | _ =>
      rw [innerOccurrences_eq (fun _ => rfl)]
      simp [occurrences, children, reference?, occurrencesList_eq_flatMap]

/-- The places of the free occurrences below binders, from left to right. -/
structure Places.Lists (places : Places) (bound : List Name) (expr : Expr) :
    Prop where
  ordered : places.Ordered
  exactly : ∀ path v, (path, v) ∈ places ↔
    expr.FreeAt path v ∧ ∀ name ∈ bound, v ≠ .named name
  listed : places.map Prod.snd = occurrences bound expr

/-- The places in a part, seen from the whole. -/
def Places.below (index : Nat) (places : Places) : Places :=
  places.map fun place => (index :: place.1, place.2)

theorem Places.Ordered.below {places : Places} (ordered : places.Ordered)
    (index : Nat) :
    (places.below index).Ordered :=
  List.pairwise_map.mpr (ordered.imp .cons)

theorem Places.mem_below_iff {places : Places} {index : Nat} {path : List Nat}
    {v : Var} :
    (path, v) ∈ places.below index ↔ ∃ rest, path = index :: rest ∧
    (rest, v) ∈ places := by
  constructor
  · intro member
    obtain ⟨⟨rest, w⟩, inside, same⟩ := List.mem_map.mp member
    cases same
    exact ⟨rest, rfl, inside⟩
  · rintro ⟨rest, rfl, inside⟩
    exact List.mem_map_of_mem inside

/-- The place of the expression itself, if it refers to a variable that is not
bound. -/
def rootPlaces (bound : List Name) (expr : Expr) : Places :=
  (expr.reference?.toList.filter (isUnbound bound)).map fun v => ([], v)

theorem mem_rootPlaces_iff {bound : List Name} {expr : Expr} {path : List Nat}
    {v : Var} :
    (path, v) ∈ rootPlaces bound expr ↔
      path = [] ∧ expr.Mentions v ∧ ∀ name ∈ bound, v ≠ .named name := by
  rw [rootPlaces, List.mem_map, ← reference?_eq_some_iff, ← isUnbound_iff]
  constructor
  · rintro ⟨w, member, same⟩
    cases same
    rw [List.mem_filter, Option.mem_toList] at member
    exact ⟨rfl, member⟩
  · rintro ⟨rfl, own⟩
    refine ⟨v, ?_, rfl⟩
    rw [List.mem_filter, Option.mem_toList]
    exact own

/-- The places of an expression are its own one and, after it, those of its
parts. -/
theorem Places.Lists.of_parts {bound : List Name} {expr : Expr}
    {placesOf : Expr × Nat → Places} (parts : ∀ part ∈ expr.children.zipIdx,
      (placesOf part).Lists (expr.boundIn part.2 ++ bound) part.1) :
    Places.Lists (rootPlaces bound expr ++
      expr.children.zipIdx.flatMap fun part =>
        (placesOf part).below part.2) bound expr := by
  constructor
  case ordered =>
    refine List.pairwise_append.mpr ⟨?_, List.pairwise_flatMap.mpr ⟨?_, ?_⟩, ?_⟩
    · rw [rootPlaces]
      cases expr.reference? with
      | none => exact .nil
      | some v =>
          exact List.pairwise_map.mpr ((List.pairwise_singleton _ v).filter _)
    · intro part member
      exact (parts part member).ordered.below part.2
    · have increasing :
          (expr.children.zipIdx.map Prod.snd).Pairwise (· < ·) := by
        rw [List.zipIdx_map_snd]
        exact List.pairwise_lt_range' 1
      refine (List.pairwise_map.mp increasing).imp ?_
      rintro part other less ⟨path, v⟩ inPart ⟨path', w⟩ inOther
      obtain ⟨rest, rfl, -⟩ := mem_below_iff.mp inPart
      obtain ⟨rest', rfl, -⟩ := mem_below_iff.mp inOther
      exact .rel less
    · rintro ⟨path, v⟩ atRoot ⟨path', w⟩ inside
      obtain ⟨rfl, -⟩ := mem_rootPlaces_iff.mp atRoot
      obtain ⟨part, -, inPart⟩ := List.mem_flatMap.mp inside
      obtain ⟨rest, rfl, -⟩ := mem_below_iff.mp inPart
      exact .nil
  case exactly =>
    intro path v
    rw [List.mem_append, mem_rootPlaces_iff, List.mem_flatMap]
    cases path with
    | nil =>
        rw [freeAt_nil_iff]
        constructor
        · rintro (⟨-, own⟩ | ⟨part, -, inPart⟩)
          · exact own
          · obtain ⟨rest, impossible, -⟩ := mem_below_iff.mp inPart
            cases impossible
        · exact fun own => .inl ⟨rfl, own⟩
    | cons index path =>
        rw [freeAt_cons_iff]
        constructor
        · rintro (⟨impossible, -⟩ | ⟨part, member, inPart⟩)
          · cases impossible
          · obtain ⟨rest, same, inside⟩ := mem_below_iff.mp inPart
            cases same
            obtain ⟨free, unbound⟩ :=
              ((parts part member).exactly path v).mp inside
            obtain ⟨own, outer⟩ := List.forall_mem_append.mp unbound
            exact ⟨⟨part.1, List.mem_zipIdx_iff_getElem?.mp member, free, own⟩,
              outer⟩
        · rintro ⟨⟨child, entered, free, own⟩, outer⟩
          have member : (child, index) ∈ expr.children.zipIdx :=
            List.mem_zipIdx_iff_getElem?.mpr entered
          refine .inr ⟨(child, index), member,
            mem_below_iff.mpr ⟨path, rfl, ?_⟩⟩
          exact ((parts _ member).exactly path v).mpr
            ⟨free, List.forall_mem_append.mpr ⟨own, outer⟩⟩
  case listed =>
    rw [occurrences_eq, List.map_append, List.map_flatMap, innerOccurrences,
      rootPlaces, List.map_map]
    refine congrArg₂ _ (List.map_id _) (List.flatMap_congr ?_)
    intro part member
    rw [← (parts part member).listed, below, List.map_map]
    rfl

theorem Places.exists_lists (bound : List Name) (expr : Expr) :
    ∃ places : Places, places.Lists bound expr := by
  induction expr using inductionOnParts generalizing bound with
  | step expr ih =>
      have parts : ∀ part : Expr × Nat, ∃ places : Places,
          part ∈ expr.children.zipIdx →
          places.Lists (expr.boundIn part.2 ++ bound) part.1 := by
        intro part
        by_cases member : part ∈ expr.children.zipIdx
        · have child :=
            List.mem_of_getElem? (List.mem_zipIdx_iff_getElem?.mp member)
          obtain ⟨places, lists⟩ :=
            ih part.1 child (expr.boundIn part.2 ++ bound)
          exact ⟨places, fun _ => lists⟩
        · exact ⟨[], fun inside => (member inside).elim⟩
      choose placesOf lists using parts
      exact ⟨_, .of_parts lists⟩

/-- The variables of an expression are listed without repetition, by their first
places. -/
theorem freeVars_in_order (expr : Expr) :
    expr.freeVars.Nodup ∧
    expr.freeVars.Pairwise fun v w => ∃ path other,
      expr.FirstFreeAt path v ∧ expr.FirstFreeAt other w ∧
      Precedes path other := by
  obtain ⟨places, lists⟩ := Places.exists_lists [] expr
  have free : ∀ path v, (path, v) ∈ places ↔ expr.FreeAt path v := by
    intro path v
    rw [lists.exactly, and_iff_left (List.forall_mem_nil _)]
  have first : ∀ {path v}, places.IsFirst path v → expr.FirstFreeAt path v := by
    rintro path v ⟨member, earlier⟩
    exact ⟨(free path v).mp member, fun other occurs =>
      earlier other ((free other v).mpr occurs)⟩
  obtain ⟨distinct, inOrder⟩ := places.pairwise_eraseDups lists.ordered
  rw [lists.listed, ← freeVars] at distinct inOrder
  refine ⟨distinct, inOrder.imp ?_⟩
  rintro v w ⟨path, other, atPath, atOther, before⟩
  exact ⟨path, other, first atPath, first atOther, before⟩

@[simp] theorem freeVars_marked (name : Name) (expr : Expr) :
    (expr.marked name).freeVars = expr.freeVars := by
  have same : occurrences [] (expr.marked name).unmarked =
      occurrences [] expr.unmarked := by
    rw [unmarked_marked]
  rw [unmarked_eq_relabeled, unmarked_eq_relabeled, occurrences_relabeled,
    occurrences_relabeled] at same
  rw [freeVars, same, freeVars]

end TailLoop.Expr

namespace TailLoop

/-- The free variables of an expression are the variables that occur freely in
it: somewhere outside the scopes of their binders.  Each is listed once, where
its first free occurrence stands from left to right, and marking self calls
changes nothing. -/
theorem free_variables_by_first_occurrence (expr : Expr) :
    expr.freeVars.Nodup ∧
    (∀ v, v ∈ expr.freeVars ↔ ∃ path, expr.FreeAt path v) ∧
    (expr.freeVars.Pairwise fun v w => ∃ path other,
      expr.FirstFreeAt path v ∧ expr.FirstFreeAt other w ∧
      Expr.Precedes path other) ∧
    ∀ name, (expr.marked name).freeVars = expr.freeVars := by
  obtain ⟨distinct, inOrder⟩ := expr.freeVars_in_order
  exact ⟨distinct, fun _ => Expr.mem_freeVars_iff, inOrder, fun name =>
    expr.freeVars_marked name⟩

end TailLoop
