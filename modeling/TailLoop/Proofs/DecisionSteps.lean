import TailLoop.Proofs.LoweringSteps

/-!
# Steps of a decision

Each step of a decision is described by what it yields.  A branch binds the
fields of the subject, has the code of its body and assigns its value.  A chain
has a clause for each branch, in order; a tree sorts the first branch of each
tag and halves them until a chain fits.  Where a decision is made, a test comes
first and a default, if any, last.
-/

namespace TailLoop

open Code (Term Stmt Clause Guard)

namespace Pattern

/-- The guard of a pattern. -/
def guard? (tags : TagTable) : Pattern → Option Guard
  | .con ctor _ => (tags.tagOf? ctor).map fun tag => .hasTag tag ctor
  | .const value => some (.equals value.term)
  | .default => some .otherwise

/-- The names a pattern binds. -/
def binders : Pattern → List Name
  | .con _ args => args
  | _ => []

/-- A default comes last, and not first if the patterns lead. -/
def Ordered (leading : Bool) : List Pattern → Prop
  | [] => True
  | pattern :: patterns =>
      (pattern.isDefault = true → leading = false ∧ patterns = []) ∧
        Ordered false patterns

theorem ordered_of_dropLast {patterns : List Pattern}
    (early : ∀ pattern ∈ patterns.dropLast, pattern.isDefault = false) :
    Ordered false patterns := by
  induction patterns with
  | nil => trivial
  | cons pattern patterns ih =>
      cases patterns with
      | nil => exact ⟨fun _ => ⟨rfl, rfl⟩, trivial⟩
      | cons next patterns =>
          obtain ⟨own, later⟩ := List.forall_mem_cons.mp early
          refine ⟨fun isDefault => ?_, ih later⟩
          rw [own] at isDefault
          cases isDefault

/-- Patterns other than a lone default begin with a test. -/
theorem ordered_of_not_lone {patterns : List Pattern}
    (early : ∀ pattern ∈ patterns.dropLast, pattern.isDefault = false)
    (notLone : patterns ≠ [.default]) : Ordered true patterns := by
  cases patterns with
  | nil => trivial
  | cons pattern patterns =>
      refine ⟨fun isDefault => ?_, (ordered_of_dropLast early).2⟩
      cases pattern with
      | default =>
          cases patterns with
          | nil => exact (notLone rfl).elim
          | cons next patterns => cases early .default List.mem_cons_self
      | _ => cases isDefault

theorem ordered_append {leading : Bool} {tests : List Pattern}
    (plain : ∀ pattern ∈ tests, pattern.isDefault = false)
    (leads : leading = true → tests ≠ []) (default : Option Pattern) :
    Ordered leading (tests ++ default.toList) := by
  induction tests generalizing leading with
  | nil =>
      have follows : leading = false :=
        Bool.eq_false_iff.mpr fun isLeading => leads isLeading rfl
      cases default with
      | none => trivial
      | some pattern => exact ⟨fun _ => ⟨follows, rfl⟩, trivial⟩
  | cons pattern tests ih =>
      obtain ⟨own, later⟩ := List.forall_mem_cons.mp plain
      refine ⟨fun isDefault => ?_, ih later ?_⟩
      · rw [own] at isDefault
        cases isDefault
      · rintro ⟨⟩

end Pattern

@[simp] theorem Alt.isDefault_pattern (alt : Alt) :
    alt.pattern.isDefault = alt.isDefault := by
  cases alt <;> rfl

theorem Alt.binders_pattern (alt : Alt) :
    alt.pattern.binders = alt.binders := by
  cases alt <;> rfl

namespace Lowering

variable {context : Context} {subject result : Var}

/-- The statement that binds the fields of the subject. -/
def unpackCode (subject : Var) : Pattern → List Stmt
  | .con _ (arg :: args) => [.unpack (arg :: args) subject]
  | _ => []

theorem bindFields_eq_ok {pattern : Pattern} {state after : State}
    {code : List Stmt}
    (ran : bindFields subject pattern state = .ok ((), after, code)) :
    after = state.binding pattern.binders ∧
      code = unpackCode subject pattern := by
  cases pattern with
  | con ctor args =>
      cases args with
      | nil =>
          obtain ⟨-, rfl, rfl⟩ := pure_eq_ok.mp ran
          exact ⟨rfl, rfl⟩
      | cons arg args =>
          obtain ⟨_, _, _, _, emitRan, declareRan, rfl⟩ := bind_eq_ok.mp ran
          obtain ⟨rfl, rfl⟩ := emit_eq_ok.mp emitRan
          obtain ⟨rfl, rfl⟩ := declare_eq_ok.mp declareRan
          exact ⟨rfl, rfl⟩
  | _ =>
      obtain ⟨-, rfl, rfl⟩ := pure_eq_ok.mp ran
      exact ⟨rfl, rfl⟩

/-- The work on a branch below its guard. -/
def arm (subject result : Var) (branch : Branch) : Lowering Unit := do
  bindFields subject branch.pattern
  assign result (← branch.body)

theorem arm_eq_ok {branch : Branch} {before after : State} {suite : List Stmt}
    (ran : arm subject result branch before = .ok ((), after, suite)) :
    ∃ value code,
      branch.body (before.binding branch.pattern.binders) =
        .ok (value, after, code) ∧
      suite = unpackCode subject branch.pattern ++ code ++
        assigned result value := by
  obtain ⟨_, inner, _, _, bindRan, restRan, rfl⟩ := bind_eq_ok.mp ran
  obtain ⟨value, last, code, _, bodyRan, assignRan, rfl⟩ :=
    bind_eq_ok.mp restRan
  obtain ⟨rfl, rfl⟩ := assign_eq_ok.mp assignRan
  obtain ⟨rfl, rfl⟩ := bindFields_eq_ok bindRan
  exact ⟨value, code, bodyRan, (List.append_assoc _ _ _).symm⟩

theorem clause_eq (context : Context) (subject result : Var) (branch : Branch) :
    clause context subject result branch = do
      let guard ← guardOf context branch.pattern
      let (_, body) ← suite (arm subject result branch)
      return .mk guard body :=
  rfl

theorem guardOf_eq_ok {pattern : Pattern} {guard : Guard} {state after : State}
    {code : List Stmt}
    (ran : guardOf context pattern state = .ok (guard, after, code)) :
    pattern.guard? context.tags = some guard ∧ after = state ∧ code = [] := by
  cases pattern with
  | con ctor args =>
      obtain ⟨tag, middle, _, _, tagRan, restRan, rfl⟩ := bind_eq_ok.mp ran
      obtain ⟨found, rfl, rfl⟩ := tagOf_eq_ok.mp tagRan
      obtain ⟨rfl, rfl, rfl⟩ := pure_eq_ok.mp restRan
      rw [Pattern.guard?, found]
      exact ⟨rfl, rfl, rfl⟩
  | const const =>
      obtain ⟨rfl, rfl, rfl⟩ := pure_eq_ok.mp ran
      exact ⟨rfl, rfl, rfl⟩
  | default =>
      obtain ⟨rfl, rfl, rfl⟩ := pure_eq_ok.mp ran
      exact ⟨rfl, rfl, rfl⟩

theorem clause_eq_ok {branch : Branch} {made : Clause} {state after : State}
    {code : List Stmt}
    (ran : clause context subject result branch state =
      .ok (made, after, code)) :
    ∃ guard body, made = .mk guard body ∧ code = [] ∧
      branch.pattern.guard? context.tags = some guard ∧
      arm subject result branch state = .ok ((), after, body) := by
  rw [clause_eq] at ran
  obtain ⟨guard, middle, _, _, guardRan, restRan, rfl⟩ := bind_eq_ok.mp ran
  obtain ⟨guardIs, rfl, rfl⟩ := guardOf_eq_ok guardRan
  obtain ⟨⟨_, body⟩, last, _, _, suiteRan, lastRan, rfl⟩ :=
    bind_eq_ok.mp restRan
  obtain ⟨armRan, rfl⟩ := suite_eq_ok.mp suiteRan
  obtain ⟨rfl, rfl, rfl⟩ := pure_eq_ok.mp lastRan
  exact ⟨guard, body, rfl, rfl, guardIs, armRan⟩

theorem clauses_cons_eq_ok {branch : Branch} {branches : List Branch}
    {made : List Clause} {state after : State} {code : List Stmt}
    (ran : clauses context subject result (branch :: branches) state =
      .ok (made, after, code)) :
    ∃ guard body rest middle, made = .mk guard body :: rest ∧
      branch.pattern.guard? context.tags = some guard ∧
      arm subject result branch state = .ok ((), middle, body) ∧
      clauses context subject result branches middle =
        .ok (rest, after, code) := by
  obtain ⟨first, middle, _, _, firstRan, restRan, rfl⟩ := bind_eq_ok.mp ran
  obtain ⟨guard, body, rfl, rfl, guardIs, armRan⟩ := clause_eq_ok firstRan
  obtain ⟨rest, othersRan, rfl⟩ := bind_pure_eq_ok.mp restRan
  exact ⟨guard, body, rest, middle, rfl, guardIs, armRan, othersRan⟩

/-- Clauses are handed over; none of them starts with a comparison. -/
theorem clauses_eq_ok {branches : List Branch} {made : List Clause}
    {state after : State} {code : List Stmt}
    (ran : clauses context subject result branches state =
      .ok (made, after, code)) :
    code = [] ∧ made.length = branches.length ∧
      ∀ pivot suite rest, made ≠ .mk (.tagBelow pivot) suite :: rest := by
  induction branches generalizing state made code with
  | nil =>
      obtain ⟨rfl, rfl, rfl⟩ := pure_eq_ok.mp ran
      refine ⟨rfl, rfl, ?_⟩
      rintro pivot suite rest ⟨⟩
  | cons branch branches ih =>
      obtain ⟨guard, body, rest, middle, rfl, guardIs, -, othersRan⟩ :=
        clauses_cons_eq_ok ran
      obtain ⟨rfl, sameLength, -⟩ := ih othersRan
      refine ⟨rfl, by rw [List.length_cons, List.length_cons, sameLength], ?_⟩
      rintro pivot suite others ⟨⟩
      cases form : branch.pattern with
      | con ctor args => simp [form, Pattern.guard?] at guardIs
      | _ =>
          rw [form] at guardIs
          cases guardIs

theorem emitChain_eq_ok {branches : List Branch} {state after : State}
    {code : List Stmt}
    (ran : emitChain context subject result branches state =
      .ok ((), after, code)) :
    ∃ made last,
      clauses context subject result branches state = .ok (made, after, []) ∧
      branches.getLast? = some last ∧
      code = [.branch subject (made ++ if last.pattern.isDefault then []
        else [.mk .otherwise [.unreachable]])] := by
  obtain ⟨made, middle, _, _, madeRan, restRan, rfl⟩ := bind_eq_ok.mp ran
  obtain ⟨rfl, -, -⟩ := clauses_eq_ok madeRan
  cases found : branches.getLast? with
  | none =>
      simp only [found] at restRan
      cases restRan
  | some last =>
      simp only [found] at restRan
      obtain ⟨rfl, rfl⟩ := emit_eq_ok.mp restRan
      exact ⟨made, last, madeRan, rfl, rfl⟩

/-- A branch for constructed values of a tag. -/
def Branch.HasTag (tags : TagTable) (tag : Int) (branch : Branch) : Prop :=
  ∃ ctor args, branch.pattern = .con ctor args ∧ tags.tagOf? ctor = some tag

/-- The first branch of each tag that was not seen before, in order. -/
inductive Tagged (tags : TagTable) :
    List Int → List Branch → List (Int × Branch) → Prop where
  | nil {seen : List Int} : Tagged tags seen [] []
  | repeated {seen : List Int} {tag : Int} {branch : Branch}
      {branches : List Branch} {chosen : List (Int × Branch)} :
      branch.HasTag tags tag → tag ∈ seen →
      Tagged tags seen branches chosen →
      Tagged tags seen (branch :: branches) chosen
  | first {seen : List Int} {tag : Int} {branch : Branch}
      {branches : List Branch} {chosen : List (Int × Branch)} :
      branch.HasTag tags tag → tag ∉ seen →
      Tagged tags (tag :: seen) branches chosen →
      Tagged tags seen (branch :: branches) ((tag, branch) :: chosen)

theorem tagged_eq_ok {context : Context} {seen : List Int}
    {branches : List Branch} {chosen : List (Int × Branch)}
    {state after : State} {code : List Stmt}
    (ran : tagged context seen branches state = .ok (chosen, after, code)) :
    Tagged context.tags seen branches chosen ∧ after = state ∧ code = [] := by
  induction branches generalizing seen chosen after code with
  | nil =>
      obtain ⟨rfl, rfl, rfl⟩ := pure_eq_ok.mp ran
      exact ⟨.nil, rfl, rfl⟩
  | cons branch branches ih =>
      cases form : branch.pattern with
      | con ctor args =>
          simp only [tagged, form] at ran
          obtain ⟨tag, middle, emitted, further, tagRan, restRan, rfl⟩ :=
            bind_eq_ok.mp ran
          obtain ⟨found, rfl, rfl⟩ := tagOf_eq_ok.mp tagRan
          have has : branch.HasTag context.tags tag := ⟨ctor, args, form, found⟩
          by_cases old : tag ∈ seen
          · rw [if_pos old] at restRan
            obtain ⟨rest, rfl, rfl⟩ := ih restRan
            exact ⟨.repeated has old rest, rfl, rfl⟩
          · rw [if_neg old] at restRan
            obtain ⟨others, last, inner, none, othersRan, lastRan, rfl⟩ :=
              bind_eq_ok.mp restRan
            obtain ⟨rest, rfl, rfl⟩ := ih othersRan
            obtain ⟨rfl, rfl, rfl⟩ := pure_eq_ok.mp lastRan
            exact ⟨.first has old rest, rfl, rfl⟩
      | const const =>
          simp only [tagged, form] at ran
          cases ran
      | default =>
          simp only [tagged, form] at ran
          cases ran

namespace Tagged

variable {tags : TagTable} {seen : List Int} {branches : List Branch}
  {chosen : List (Int × Branch)}

theorem mem (collected : Tagged tags seen branches chosen) {tag : Int}
    {branch : Branch} (member : (tag, branch) ∈ chosen) : branch ∈ branches ∧
    branch.HasTag tags tag := by
  induction collected with
  | nil => cases member
  | repeated _ _ _ ih =>
      obtain ⟨old, has⟩ := ih member
      exact ⟨List.mem_cons_of_mem _ old, has⟩
  | first has _ _ ih =>
      rcases List.mem_cons.mp member with same | later
      · cases same
        exact ⟨List.mem_cons_self, has⟩
      · obtain ⟨old, has'⟩ := ih later
        exact ⟨List.mem_cons_of_mem _ old, has'⟩

theorem haveTags (collected : Tagged tags seen branches chosen) :
    ∀ branch ∈ branches, ∃ own, branch.HasTag tags own := by
  induction collected with
  | nil =>
      intro branch member
      cases member
  | repeated has _ _ ih =>
      intro branch member
      rcases List.mem_cons.mp member with rfl | later
      · exact ⟨_, has⟩
      · exact ih branch later
  | first has _ _ ih =>
      intro branch member
      rcases List.mem_cons.mp member with rfl | later
      · exact ⟨_, has⟩
      · exact ih branch later

theorem not_mem_seen (collected : Tagged tags seen branches chosen) {tag : Int}
    {branch : Branch} (member : (tag, branch) ∈ chosen) : tag ∉ seen := by
  induction collected with
  | nil => cases member
  | repeated _ _ _ ih => exact ih member
  | first _ new _ ih =>
      rcases List.mem_cons.mp member with same | later
      · cases same
        exact new
      · exact fun old => ih later (List.mem_cons_of_mem _ old)

theorem ne_nil (collected : Tagged tags [] branches chosen)
    (many : branches ≠ []) :
    chosen ≠ [] := by
  cases collected with
  | nil => exact (many rfl).elim
  | repeated _ old _ => cases old
  | first => exact List.cons_ne_nil _ _

theorem tags_distinct (collected : Tagged tags seen branches chosen) :
    chosen.Pairwise fun left right => left.1 ≠ right.1 := by
  induction collected with
  | nil => exact .nil
  | repeated _ _ _ ih => exact ih
  | first _ _ rest ih =>
      refine .cons ?_ ih
      rintro ⟨tag, branch⟩ member same
      cases same
      exact rest.not_mem_seen member List.mem_cons_self

end Tagged

/-- A wide tree compares with the tag in the middle and goes on with a half. -/
theorem emitTree_eq_ok {default : Option Branch}
    {branches : List (Int × Branch)} {state after : State} {code : List Stmt}
    (wide : groupSize < branches.length)
    (inside : branches.length / 2 < branches.length)
    (ran : emitTree context subject result default branches state =
      .ok ((), after, code)) :
    ∃ middle low high,
      emitTree context subject result default
        (branches.take (branches.length / 2)) state = .ok ((), middle, low) ∧
      emitTree context subject result default
        (branches.drop (branches.length / 2)) middle = .ok ((), after, high) ∧
      code = [.branch subject
        [.mk (.tagBelow branches[branches.length / 2].1) low,
          .mk .otherwise high]] := by
  rw [emitTree, dif_pos wide] at ran
  obtain ⟨⟨_, low⟩, middle, _, _, lowSuite, restRan, rfl⟩ := bind_eq_ok.mp ran
  obtain ⟨lowRan, rfl⟩ := suite_eq_ok.mp lowSuite
  obtain ⟨⟨_, high⟩, late, _, _, highSuite, lastRan, rfl⟩ :=
    bind_eq_ok.mp restRan
  obtain ⟨highRan, rfl⟩ := suite_eq_ok.mp highSuite
  obtain ⟨rfl, rfl⟩ := emit_eq_ok.mp lastRan
  exact ⟨middle, low, high, lowRan, highRan, rfl⟩

theorem splitDefault_append {constructors : List Branch}
    {default : Option Branch}
    (plain : ∀ branch ∈ constructors, branch.pattern.isDefault = false)
    (last : ∀ branch ∈ default, branch.pattern = .default) :
    splitDefault (constructors ++ default.toList) =
      (constructors, default) := by
  cases default with
  | some branch =>
      simp [splitDefault, last branch rfl, Pattern.isDefault]
  | none =>
      rw [Option.toList_none, List.append_nil, splitDefault]
      split
      · rename_i found
        rw [plain _ (List.mem_of_getLast? found)]
        rfl
      · rfl

/-- A tree is used for constructors before a default. -/
theorem usesTree_eq_true {branches : List Branch}
    (wide : usesTree (branches.map Branch.pattern) = true) :
    ∃ constructors last, branches = constructors ++ [last] ∧
      constructors ≠ [] ∧
      (∀ branch ∈ constructors, ∃ ctor args, branch.pattern = .con ctor args) ∧
      last.pattern = .default := by
  rcases List.eq_nil_or_concat branches with rfl | ⟨constructors, last, rfl⟩
  · cases wide
  · rw [List.concat_eq_append] at wide ⊢
    rw [usesTree, List.map_append, List.map_singleton, List.reverse_concat]
      at wide
    cases form : last.pattern with
    | default =>
        simp only [form, Bool.and_eq_true, decide_eq_true_eq, List.all_eq_true,
          List.mem_reverse, List.length_reverse, List.length_map] at wide
        obtain ⟨long, onlyCons⟩ := wide
        refine ⟨constructors, last, rfl, ?_, ?_, form⟩
        · rintro rfl
          cases long
        · intro branch member
          have isCon := onlyCons branch.pattern (List.mem_map_of_mem member)
          cases own : branch.pattern with
          | con ctor args => exact ⟨ctor, args, rfl⟩
          | _ =>
              rw [own] at isCon
              cases isCon
    | _ =>
        rw [form] at wide
        cases wide

theorem checkShape_eq_ok {branches : List Branch} {state after : State}
    {code : List Stmt}
    (ran : checkShape branches state = .ok ((), after, code)) :
    branches ≠ [] ∧
      (∀ branch ∈ branches.dropLast, branch.pattern.isDefault = false) ∧
      after = state ∧ code = [] := by
  unfold checkShape at ran
  split at ran
  · cases ran
  · rename_i some
    split at ran
    · cases ran
    · rename_i noneEarly
      obtain ⟨-, rfl, rfl⟩ := pure_eq_ok.mp ran
      refine ⟨by simpa using some, ?_, rfl, rfl⟩
      simpa using noneEarly

end Lowering

end TailLoop
