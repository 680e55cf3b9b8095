import TailLoop.Proofs.ControlPaths
import TailLoop.Proofs.LoweringRelation
import TailLoop.Proofs.Positions
import TailLoop.Proofs.WordsOfCode

/-!
# Definite assignment

Code assigns a temporary before it reads it, whatever way control takes through
the code.  The result of a case analysis is one temporary for all its branches:
each of them assigns it, or leaves by a restart or by a failure.  A function
that is defined inside another one reads no temporary of the code around it.

What holds along all paths is stated as in a program logic, by what is known
before the code and what is known where it goes on.
-/

namespace TailLoop

open Lexical (words KnownWord Worded Parted worded_identifier worded_ofInt)

namespace Code

/-- A temporary that is read on a line was assigned on a line before it. -/
def AssignedBeforeRead (visits : List Visit) : Prop :=
  ∀ earlier visit later, visits = earlier ++ visit :: later →
    ∀ v : Var, v.isTemporary = true → v.identifier ∈ words visit.reads →
      ∃ prior ∈ earlier, v ∈ prior.assigns

/-- The variables that are known after the lines. -/
def knownAfter (known : List Var) (visits : List Visit) : List Var :=
  known ++ visits.flatMap Visit.assigns

/-- The temporaries on each line are known there. -/
def Orderly : List Var → List Visit → Prop
  | _, [] => True
  | known, visit :: visits =>
      (∀ word ∈ words visit.reads, KnownWord known word) ∧
        Orderly (known ++ visit.assigns) visits

@[simp] theorem knownAfter_append (known : List Var)
    (first second : List Visit) :
    knownAfter known (first ++ second) =
      knownAfter (knownAfter known first) second := by
  rw [knownAfter, knownAfter, knownAfter, List.flatMap_append,
    List.append_assoc]

@[simp] theorem orderly_append {known : List Var} {first second : List Visit} :
    Orderly known (first ++ second) ↔
      Orderly known first ∧ Orderly (knownAfter known first) second := by
  induction first generalizing known with
  | nil =>
      rw [List.nil_append, Orderly, true_and, knownAfter, List.flatMap_nil,
        List.append_nil]
  | cons visit first ih =>
      rw [List.cons_append, Orderly, Orderly, ih, and_assoc, knownAfter,
        knownAfter, List.flatMap_cons, List.append_assoc]

theorem Orderly.assignedBeforeRead {visits : List Visit}
    (orderly : Orderly [] visits) :
    AssignedBeforeRead visits := by
  rintro earlier visit later rfl v temporary read
  have known := (orderly_append.mp orderly).2.1 v.identifier read v
    temporary rfl
  exact List.mem_flatMap.mp known

/-- Along each of the paths the temporaries are known where they are read, and
where the path goes on the condition holds of what is known then. -/
def Follow (paths : List Path) (known : List Var) (post : List Var → Prop) :
    Prop :=
  ∀ path ∈ paths, Orderly known path.visits ∧
    (path.goesOn = true → post (knownAfter known path.visits))

namespace Follow

variable {paths : List Path} {known : List Var} {post : List Var → Prop}

theorem mono {weaker : List Var → Prop} (follow : Follow paths known post)
    (weakens : ∀ later, known ⊆ later → post later → weaker later) :
    Follow paths known weaker := by
  intro path member
  obtain ⟨orderly, reached⟩ := follow path member
  refine ⟨orderly, fun goesOn => weakens _ ?_ (reached goesOn)⟩
  exact List.subset_append_left _ _

theorem append {others : List Path} (first : Follow paths known post)
    (second : Follow others known post) : Follow (paths ++ others) known post :=
  List.forall_mem_append.mpr ⟨first, second⟩

theorem along {opening reads : Text} {assigns : List Var}
    (readable : ∀ word ∈ words reads, KnownWord known word)
    (holds : post (known ++ assigns)) :
    Follow [.along opening reads assigns] known post := by
  refine List.forall_mem_singleton.mpr ⟨⟨readable, trivial⟩, fun _ => ?_⟩
  rw [knownAfter, Path.along, List.flatMap_singleton]
  exact holds

theorem exit {reads : Text}
    (readable : ∀ word ∈ words reads, KnownWord known word) :
    Follow [.exit reads] known post := by
  refine List.forall_mem_singleton.mpr ⟨⟨readable, trivial⟩, fun goesOn => ?_⟩
  cases goesOn

theorem map_andThen {first : Path} (orderly : Orderly known first.visits)
    (rest : Follow paths (knownAfter known first.visits) post) :
    Follow (paths.map first.andThen) known post := by
  intro path member
  obtain ⟨second, inRest, rfl⟩ := List.mem_map.mp member
  obtain ⟨laterOrderly, reached⟩ := rest second inRest
  refine ⟨orderly_append.mpr ⟨orderly, laterOrderly⟩, fun goesOn => ?_⟩
  rw [Path.andThen, knownAfter_append]
  exact reached goesOn

theorem sequel {others : List Path}
    (firsts : Follow paths known fun middle => Follow others middle post) :
    Follow (Path.sequel paths others) known post := by
  intro path member
  obtain ⟨first, inFirsts, onward⟩ := List.mem_flatMap.mp member
  obtain ⟨orderly, reached⟩ := firsts first inFirsts
  split at onward
  · rename_i goesOn
    exact map_andThen orderly (reached goesOn) path onward
  · rename_i stops
    cases List.mem_singleton.mp onward
    exact ⟨orderly, fun goesOn => (stops goesOn).elim⟩

end Follow

/-- The body of a function assigns the temporaries it reads. -/
def Block.Settled (layout : Layout) (block : Block) : Prop :=
  Follow (Stmt.pathsList layout block.statements) [] fun known =>
    block.value.Reads layout.restart known

theorem Block.Settled.orderly {layout : Layout} {block : Block}
    (settled : block.Settled layout) : ∀ run ∈ block.runs layout,
    Orderly [] run := by
  intro run member
  obtain ⟨path, inPaths, rfl⟩ := List.mem_map.mp member
  obtain ⟨orderly, reached⟩ := settled path inPaths
  split
  · rename_i goesOn
    exact orderly_append.mpr ⟨orderly, (reached goesOn).words, trivial⟩
  · exact orderly

namespace Stmt

/-- Code that reads temporaries only where they are known, and arranges the
condition.  The bodies of the functions it defines are settled. -/
structure Arranges (layout : Layout) (code : List Stmt) (known : List Var)
    (post : List Var → Prop) : Prop where
  follow : Follow (pathsList layout code) known post
  bodies : ∀ body ∈ bodiesList code, body.Settled layout

namespace Arranges

variable {layout : Layout} {code further : List Stmt} {known : List Var}
  {post middle : List Var → Prop}

theorem nil (holds : post known) : Arranges layout [] known post := by
  refine ⟨List.forall_mem_singleton.mpr ⟨trivial, fun _ => ?_⟩,
    List.forall_mem_nil _⟩
  rw [knownAfter, List.flatMap_nil, List.append_nil]
  exact holds

theorem mono {weaker : List Var → Prop}
    (arranges : Arranges layout code known post)
    (weakens : ∀ later, known ⊆ later → post later → weaker later) :
    Arranges layout code known weaker :=
  ⟨arranges.follow.mono weakens, arranges.bodies⟩

theorem append (first : Arranges layout code known middle)
    (second : ∀ later, known ⊆ later → middle later →
      Follow (pathsList layout further) later post)
    (bodies : ∀ body ∈ bodiesList further, body.Settled layout) :
    Arranges layout (code ++ further) known post := by
  constructor
  · rw [pathsList_append]
    exact (first.follow.mono second).sequel
  · rw [bodiesList_append]
    exact List.forall_mem_append.mpr ⟨first.bodies, bodies⟩

theorem single {stmt : Stmt} (follow : Follow (stmt.paths layout) known post)
    (bodies : ∀ body ∈ stmt.bodies, body.Settled layout) :
    Arranges layout [stmt] known post := by
  constructor
  · exact (follow.mono fun later _ holds => (nil holds).follow).sequel
  · exact List.forall_mem_append.mpr ⟨bodies, List.forall_mem_nil _⟩

end Arranges

end Stmt

theorem Guard.words_header {layout : Layout} {known : List Var} {guard : Guard}
    {subject : Var} (own : subject.isTemporary = true → subject ∈ known)
    (reads : guard.Forall (Term.Reads layout.restart known)) (leading : Bool) :
    ∀ word ∈ words (guard.header layout leading subject),
      KnownWord known word := by
  have keyword : Parted known (if leading then "if " else "elif ") := by
    split
    · exact .mark rfl rfl rfl
    · exact .mark rfl rfl rfl
  have start := keyword.append (worded_identifier own)
  have colon : Parted known ":" := .mark rfl rfl rfl
  cases guard with
  | hasTag tag ctor =>
      have test : Parted known "[0] == " := .mark rfl rfl rfl
      have line :=
        ((start.append test rfl).append (worded_ofInt tag)).append colon rfl
      rw [header]
      by_cases comments : layout.comments = true
      · have unbroken : Lexical.IsUnbroken ctor.display :=
          Lexical.coversPrintable.display ctor
        rw [if_pos comments, words,
          Lexical.wordsFrom_append_of_endsApart line.inCode line.apart,
          Lexical.words_comment unbroken, List.append_nil]
        exact line.words
      · rw [if_neg comments, List.append_nil]
        exact line.words
  | equals value =>
      have test : Parted known " == " := .mark rfl rfl rfl
      exact (((start.append test rfl).append reads).append colon rfl).words
  | tagBelow tag =>
      have test : Parted known "[0] < " := .mark rfl rfl rfl
      exact (((start.append test rfl).append (worded_ofInt tag)).append
        colon rfl).words
  | otherwise =>
      have word : Parted known "else:" := .mark rfl rfl rfl
      exact word.words

theorem Follow.clause {layout : Layout} {known : List Var}
    {post : List Var → Prop} {subject : Var} {leading : Bool} {guard : Guard}
    {body : List Stmt} {clauses : List Clause}
    (own : subject.isTemporary = true → subject ∈ known)
    (reads : guard.Forall (Term.Reads layout.restart known))
    (suite : Follow (Stmt.pathsList layout body) known post)
    (next : guard.isOtherwise = false →
      Follow (Stmt.clausesPaths layout subject false clauses) known post) :
    Follow
      (Stmt.clausesPaths layout subject leading (.mk guard body :: clauses))
      known post := by
  rw [Stmt.clausesPaths]
  apply Follow.map_andThen
  · exact ⟨guard.words_header own reads leading, trivial⟩
  · have same : knownAfter known
        (Path.along [] (guard.header layout leading subject) []).visits =
          known := by
      rw [knownAfter, Path.along, List.flatMap_singleton, List.append_nil]
    rw [same]
    apply suite.append
    split
    · exact List.forall_mem_nil _
    · rename_i test
      exact next (Bool.eq_false_iff.mpr test)

theorem Follow.unreachable {layout : Layout} {known : List Var}
    {post : List Var → Prop} :
    Follow (Stmt.pathsList layout [.unreachable]) known post := by
  have fails : Follow (Stmt.paths layout .unreachable) known post :=
    .exit (worded_raiseText _).words
  exact (Stmt.Arranges.single fails (List.forall_mem_nil _)).follow

/-- The value is there and can be read. -/
structure Term.Ready (restart : Text) (term : Term) (known : List Var) :
    Prop where
  reads : term.Reads restart known
  present : term.isRestart = false

theorem Term.Reads.mono {restart : Text} {term : Term} {known later : List Var}
    (reads : term.Reads restart known) (more : known ⊆ later) :
    term.Reads restart later :=
  ⟨fun word member v temporary same =>
    more (reads.words word member v temporary same), reads.outside⟩

theorem Term.Ready.mono {restart : Text} {term : Term} {known later : List Var}
    (ready : term.Ready restart known) (more : known ⊆ later) :
    term.Ready restart later :=
  ⟨ready.reads.mono more, ready.present⟩

end Code

open Code

namespace Expr

/-- The root of the expression puts no temporary into the code. -/
def sparesHere : Expr → Prop
  | .var v => v.isTemporary = false
  | .foreign (.named name) _ => Worded [] name
  | _ => True

/-- The expression puts no temporary into the code, neither as a variable nor by
the name of a foreign function. -/
def SparesTemporaries (expr : Expr) : Prop :=
  ∀ part, expr.Contains part → part.sparesHere

theorem SparesTemporaries.child {expr child : Expr}
    (spares : expr.SparesTemporaries) (member : child ∈ expr.children) :
    child.SparesTemporaries :=
  fun part within => spares part (.inside member within)

theorem SparesTemporaries.branch {scrutinee : Expr} {alts : List Alt}
    {alt : Alt} (spares : (Expr.case scrutinee alts).SparesTemporaries)
    (member : alt ∈ alts) :
    alt.body.SparesTemporaries :=
  spares.child (List.mem_cons_of_mem _ (List.mem_map_of_mem member))

theorem contains_of_partAt? {expr part : Expr} {path : List Nat}
    (found : expr.partAt? path = some part) : expr.Contains part := by
  induction path generalizing expr with
  | nil =>
      cases found
      exact .self _
  | cons index path ih =>
      obtain ⟨child, entered, inChild⟩ := partAt?_cons_eq_some_iff.mp found
      exact .inside (List.mem_of_getElem? entered) (ih inChild)

theorem SparesTemporaries.freeVars {expr : Expr}
    (spares : expr.SparesTemporaries) :
    ∀ v ∈ expr.freeVars, v.isTemporary = false := by
  intro v member
  obtain ⟨path, ⟨part, found, mentions⟩, -⟩ := mem_freeVars_iff.mp member
  have here := spares part (contains_of_partAt? found)
  cases part with
  | var own =>
      cases mentions
      exact here
  | lazyApp name args =>
      cases mentions
      rfl
  | _ => cases mentions

/-- The body of a deferred value puts no temporary into the code if the value
puts none. -/
theorem SparesTemporaries.deferral? {expr body : Expr} {params : List Name}
    (spares : expr.SparesTemporaries)
    (isDeferred : expr.deferral? = some (params, body)) :
    body.SparesTemporaries := by
  cases expr with
  | lam params body =>
      cases isDeferred
      exact spares.child List.mem_cons_self
  | lazy body =>
      cases isDeferred
      exact spares.child List.mem_cons_self
  | lazyApp name args =>
      cases isDeferred
      intro part within
      cases within with
      | self => trivial
      | inside member inChild =>
          rcases List.mem_cons.mp member with rfl | isArg
          · cases inChild with
            | self => rfl
            | inside none _ => cases none
          · exact spares.child isArg part inChild
  | _ => cases isDeferred

end Expr

section Lowered

open Lowering Stmt

variable {layout : Layout} {context : Context} {has : LoweringProperty}

@[simp] theorem bodiesList_assigned (target : Var) (value : Term) :
    bodiesList (assigned target value) = [] := by
  rw [assigned]
  split
  · rfl
  · rfl

theorem follow_assigned {target : Var} {value : Term} {known : List Var}
    {post : List Var → Prop} (ready : value.Ready layout.restart known)
    (holds : post (known ++ [target])) :
    Follow (pathsList layout (assigned target value)) known post := by
  have stores : Follow (paths layout (.assign target value)) known post :=
    .along ready.reads.words holds
  rw [assigned, ready.present]
  exact (Arranges.single stores (List.forall_mem_nil _)).follow

/-- Code that ends with the assignment of its value. -/
theorem Code.Stmt.Arranges.assigned {target : Var} {value : Term}
    {known : List Var} {code : List Stmt}
    (arranges : Arranges layout code known (value.Ready layout.restart)) :
    Arranges layout (code ++ Lowering.assigned target value) known fun later =>
      target ∈ later := by
  refine arranges.append (fun later _ ready => follow_assigned ready ?_) ?_
  · exact List.mem_append_right _ List.mem_cons_self
  · rw [bodiesList_assigned]
    exact List.forall_mem_nil _

@[simp] theorem bodiesList_restartCode (values : List Term) :
    bodiesList (restartCode context values) = [] := by
  rw [restartCode, bodiesList_append]
  split
  · rfl
  · rfl

theorem follow_restartCode {values : List Term} {known : List Var}
    {post : List Var → Prop}
    (reads : ∀ value ∈ values, value.Reads layout.restart known) :
    Follow (pathsList layout (restartCode context values)) known post := by
  have leaves (later : List Var) :
      Follow (pathsList layout [.continue]) later post := by
    have word : Worded later "continue" :=
      .of_isWord (List.all_eq_true.mp rfl) (.of_not_isPrefixOf rfl)
    have exits : Follow (paths layout .continue) later post := .exit word.words
    exact (Arranges.single exits (List.forall_mem_nil _)).follow
  rw [restartCode, pathsList_append]
  apply Follow.sequel
  split
  · exact (Arranges.nil (leaves known)).follow
  · have row : Worded known
        (Text.join " " (values.map fun value =>
          value.text layout.restart ++ ",")) := by
      refine Lexical.worded_join (.mark rfl rfl rfl) rfl
        (List.forall_mem_map.mpr ?_)
      intro value member
      exact ((reads value member).append (.mark rfl rfl rfl) rfl).worded
    have stores : Follow (paths layout (.rebind context.params values)) known
        fun later => Follow (pathsList layout [.continue]) later post :=
      .along row.words (leaves _)
    exact (Arranges.single stores (List.forall_mem_nil _)).follow

/-- The value of a row form is ready where the values of its operands are. -/
theorem ready_result {expr : Expr} {form : RowForm} {values : List Term}
    {known : List Var} (isRow : expr.rowForm? context = some form)
    (spares : expr.SparesTemporaries) (silent : form.ending = fun _ => [])
    (ready : ∀ value ∈ values, value.Ready layout.restart known) :
    (form.result values).Ready layout.restart known := by
  constructor
  · refine Expr.result_good (Term.composed_reads layout.restart known) isRow
      silent ?_ ?_ fun value member => (ready value member).reads
    · rintro v rfl
      have here : v.isTemporary = false := spares _ (.self _)
      exact worded_identifier (Var.mem_of_not_isTemporary here)
    · rintro name args rfl
      have here : Term.Reads layout.restart [] (.verbatim name) :=
        spares _ (.self _)
      exact here.mono (List.nil_subset known)
  · exact Expr.result_good Term.closed_isPresent.toComposed isRow silent
      (fun _ _ => rfl) (fun _ _ _ => rfl) fun value member =>
        (ready value member).present

theorem arranges_unpackCode {subject : Var} {known : List Var}
    (own : subject.isTemporary = true → subject ∈ known) (pattern : Pattern) :
    Arranges layout (unpackCode subject pattern) known fun _ => True := by
  rw [unpackCode.eq_def]
  split
  · have fields : Parted known "[1:]" := .mark rfl rfl rfl
    refine .single (.along ?_ trivial) (List.forall_mem_nil _)
    exact ((worded_identifier own).append fields rfl).words
  · exact .nil trivial

/-- The suite of an alternative stores the value of the alternative. -/
theorem arranges_arm {subject result : Var} {pattern : Pattern} {value : Term}
    {code : List Stmt} {known : List Var}
    (own : subject.isTemporary = true → subject ∈ known)
    (valued : ∀ later,
      Arranges layout code later (value.Ready layout.restart)) :
    Arranges layout (unpackCode subject pattern ++ code ++
      assigned result value) known fun later => result ∈ later := by
  have fields : Arranges layout (unpackCode subject pattern) known fun _ =>
    True :=
    arranges_unpackCode own pattern
  exact (fields.append (fun later _ _ => (valued later).follow)
    (valued []).bodies).assigned

@[simp] theorem clausesBodies_unmatched (alts : List Alt) :
    clausesBodies (unmatched alts) = [] := by
  rw [unmatched]
  split
  · rfl
  · rfl

theorem ready_curried {known frozen : List Var} {body : Term}
    (own : ∀ v ∈ frozen, v.isTemporary = true → v ∈ known)
    (reads : body.Reads layout.restart known) (params : List Name) :
    (curried frozen body params).Ready layout.restart known := by
  refine ⟨Term.reads_curried own reads params, ?_⟩
  cases params with
  | nil => rfl
  | cons param params => rfl

theorem ready_hoisted {function : Var} {known : List Var}
    (defined : function ∈ known) (params : List Name) :
    (hoisted context function params).Ready layout.restart known := by
  have reads : Term.Reads layout.restart known (.var function) :=
    worded_identifier fun _ => defined
  rw [hoisted]
  split
  · exact ⟨reads, rfl⟩
  · apply ready_curried
    · intro v member _
      split at member
      · cases List.mem_singleton.mp member
        exact defined
      · cases member
    · refine (Term.composed_reads layout.restart known).call reads ?_
      exact List.forall_mem_map.mpr fun param _ => Lexical.worded_name param

/-- A closure is ready if its body is ready wherever it is entered. -/
theorem Lowering.Closes.arranges {params bound : List Name} {frozen : List Var}
    {bodyValue value : Term} {inner after : State} {block code : List Stmt}
    (closes : Closes context params frozen bound bodyValue inner block
      value after code)
    (spared : ∀ v ∈ frozen, v.isTemporary = false)
    (body : ∀ known,
      Arranges layout block known (bodyValue.Ready layout.restart))
    (known : List Var) :
    Arranges layout code known (value.Ready layout.restart) := by
  have own (later : List Var) : ∀ v ∈ frozen, v.isTemporary = true →
      v ∈ later :=
    fun v member => Var.mem_of_not_isTemporary (spared v member)
  cases closes with
  | inline =>
      have reached := ((body known).follow _ List.mem_cons_self).2 rfl
      rw [knownAfter, List.flatMap_nil, List.append_nil] at reached
      exact .nil (ready_curried (own known) reached.reads params)
  | hoist needed =>
      have closing : Parted known "):" := .mark rfl rfl rfl
      have header := (worded_paramsText params (own known)).append closing rfl
      refine .single (.along header.words ?_)
        (List.forall_mem_cons.mpr ⟨?_, (body []).bodies⟩)
      · exact ready_hoisted (List.mem_append_right _ List.mem_cons_self) params
      · exact (body []).follow.mono fun later _ ready => ready.reads

/-- After the last test that can fail there is a line that fails. -/
theorem follow_remaining {subject : Var} {alt : Alt} {alts : List Alt}
    {clauses : List Clause} {known : List Var} {post : List Var → Prop}
    (tests : alt.isDefault = false)
    (own : subject.isTemporary = true → subject ∈ known)
    (none : alts = [] → clauses = []) (more : alts ≠ [] →
      Follow (clausesPaths layout subject false (clauses ++ unmatched alts))
        known post) :
    Follow
      (clausesPaths layout subject false (clauses ++ unmatched (alt :: alts)))
      known post := by
  by_cases last : alts = []
  · have failing : unmatched [alt] = [.mk .otherwise [.unreachable]] := by
      rw [unmatched, List.getLast?_singleton, Option.any_some, tests]
      rfl
    rw [none last, last, failing]
    refine .clause own trivial .unreachable ?_
    rintro ⟨⟩
  · rw [unmatched_cons alt last]
    exact more last

mutual

/-- The code of an expression reads a temporary only where it is known, and
arranges its value, unless it restarts the function. -/
theorem Lowers.arranges {scope : List Name} {expr : Expr} {before after : State}
    {value : Term} {code : List Stmt}
    (lowers : Lowers context has scope expr before value after code)
    (spares : expr.SparesTemporaries) (known : List Var) :
    Arranges layout code known (value.Ready layout.restart) := by
  match lowers with
  | .row isRow operands _ =>
      have row := LowersRow.arranges operands
        (fun operand member => spares.child (Expr.operands_subset isRow member))
        known
      rcases Expr.ending_cases isRow with silent | ⟨_, _, -, -, -, rfl⟩
      · rw [silent, List.append_nil]
        exact row.mono fun later _ ready =>
          ready_result isRow spares silent ready
      · refine row.append (fun later _ ready => follow_restartCode ?_) ?_
        · exact fun value member => (ready value member).reads
        · rw [bodiesList_restartCode]
          exact List.forall_mem_nil _
  | .letIn bound body _ =>
      have first :=
        Lowers.arranges bound (spares.child List.mem_cons_self) known
      have second :=
        Lowers.arranges body (spares.child (by simp [Expr.children]))
      exact first.assigned.append (fun later _ _ => (second later).follow)
        (second []).bodies
  | .caseVar decides _ =>
      have here : Var.isTemporary _ = false :=
        spares (.var _) (.inside List.mem_cons_self (.self _))
      exact Decides.arranges decides (fun alt member => spares.branch member)
        (Var.mem_of_not_isTemporary here)
  | .caseCompound _ scrutinee decides _ =>
      have first :=
        Lowers.arranges scrutinee (spares.child List.mem_cons_self) known
      have second (later : List Var) (stored : before.temporary ∈ later) :=
        Decides.arranges decides (fun alt member => spares.branch member)
          fun _ => stored
      exact first.assigned.append (fun later _ stored =>
        (second later stored).follow)
        (second [before.temporary] List.mem_cons_self).bodies
  | .deferred isDeferred body closes _ =>
      refine closes.arranges ?_
        (Lowers.arranges body (spares.deferral? isDeferred)) known
      intro v member
      have free := (captured_sublist ..).subset member
      rw [Expr.freeVars_deferral? isDeferred] at free
      exact spares.freeVars v free

theorem LowersRow.arranges {scope : List Name} {exprs : List Expr}
    {before after : State} {values : List Term} {code : List Stmt}
    (row : LowersRow context has scope exprs before values after code)
    (spares : ∀ expr ∈ exprs, expr.SparesTemporaries) (known : List Var) :
    Arranges layout code known fun later =>
      ∀ value ∈ values, value.Ready layout.restart later := by
  match row with
  | .nil => exact .nil (List.forall_mem_nil _)
  | .cons own others =>
      obtain ⟨ownSpares, otherSpares⟩ := List.forall_mem_cons.mp spares
      have first := Lowers.arranges own ownSpares known
      have rest := LowersRow.arranges others otherSpares
      refine first.append (fun later _ ready => ?_) (rest []).bodies
      exact (rest later).follow.mono fun last more others =>
        List.forall_mem_cons.mpr ⟨ready.mono more, others⟩

theorem Decides.arranges {scope : List Name} {subject : Var} {alts : List Alt}
    {before after : State} {value : Term} {code : List Stmt}
    (decides : Decides context has scope subject alts before value after code)
    (spares : ∀ alt ∈ alts, alt.body.SparesTemporaries) {known : List Var}
    (own : subject.isTemporary = true → subject ∈ known) :
    Arranges layout code known (value.Ready layout.restart) := by
  match decides with
  | .lone body => exact Lowers.arranges body (spares _ List.mem_cons_self) known
  | .dispatch dispatches =>
      have arranges := Dispatches.arranges dispatches spares own
      exact arranges.mono fun later _ stored =>
        ⟨worded_identifier fun _ => stored, rfl⟩

theorem Dispatches.arranges {scope : List Name} {subject result : Var}
    {alts : List Alt} {before after : State} {code : List Stmt}
    (dispatches : Dispatches context has scope subject result alts
      before after code)
    (spares : ∀ alt ∈ alts, alt.body.SparesTemporaries) {known : List Var}
    (own : subject.isTemporary = true → subject ∈ known) :
    Arranges layout code known fun later => result ∈ later := by
  match dispatches with
  | .chain nonempty _ within arms =>
      obtain ⟨follow, bodies⟩ :=
        LowersArms.arranges arms (fun alt member => spares alt (within member))
          true own
      refine .single (follow nonempty) ?_
      rw [Stmt.bodies, clausesBodies_append, clausesBodies_unmatched,
        List.append_nil]
      exact bodies
  | .split low high =>
      have lowArranges := Dispatches.arranges low spares own
      have highArranges := Dispatches.arranges high spares own
      refine .single (.clause own trivial lowArranges.follow fun _ => ?_) ?_
      · refine .clause own trivial highArranges.follow ?_
        rintro ⟨⟩
      · rw [Stmt.bodies, clausesBodies, clausesBodies, clausesBodies,
          List.append_nil]
        exact List.forall_mem_append.mpr ⟨lowArranges.bodies,
          highArranges.bodies⟩

theorem LowersArms.arranges {scope : List Name} {subject result : Var}
    {alts : List Alt} {before after : State} {clauses : List Clause}
    (arms : LowersArms context has scope subject result alts before
      after clauses)
    (spares : ∀ alt ∈ alts, alt.body.SparesTemporaries) (leading : Bool)
    {known : List Var} (own : subject.isTemporary = true → subject ∈ known) :
    (alts ≠ [] →
      Follow (clausesPaths layout subject leading (clauses ++ unmatched alts))
        known fun later => result ∈ later) ∧
      ∀ body ∈ clausesBodies clauses, body.Settled layout := by
  match arms with
  | .nil => exact ⟨fun nonempty => (nonempty rfl).elim, List.forall_mem_nil _⟩
  | .cons guardIs body others =>
      obtain ⟨ownSpares, otherSpares⟩ := List.forall_mem_cons.mp spares
      have valued := Lowers.arranges body ownSpares
      have rest := LowersArms.arranges others otherSpares false own
      constructor
      · intro _
        refine .clause own
          (Pattern.guard_forall (Term.composed_reads _ _) guardIs)
          (arranges_arm own valued).follow fun tests => ?_
        rw [Pattern.isOtherwise_guard guardIs, Alt.isDefault_pattern] at tests
        exact follow_remaining tests own others.eq_nil rest.1
      · exact List.forall_mem_append.mpr ⟨(arranges_arm own valued).bodies,
          rest.2⟩

end

end Lowered

theorem Expr.sparesHere_unmarked (expr : Expr) :
    expr.unmarked.sparesHere = expr.sparesHere := by
  cases expr with
  | foreign target args => cases target <;> rfl
  | _ => rfl

namespace Function

theorem worded_traceLine (function : Function) {known : List Var} :
    Worded known function.traceLine := by
  have opens : Parted known "print(" := .mark rfl rfl rfl
  have closes : Parted known ", file=sys.stderr)" := .mark rfl rfl rfl
  have pattern := opens.append (Lexical.worded_quoted
    (callText function.name.identifier
      ((function.params.map Name.identifier).map fun _ => "%s")))
  rw [traceLine]
  split
  · rw [List.append_nil]
    exact (pattern.append closes rfl).worded
  · have percent : Parted known " % " := .mark rfl rfl rfl
    have repr : Worded known "repr" :=
      .of_isWord (List.all_eq_true.mp rfl) (.of_not_isPrefixOf rfl)
    have args : Worded known (tupleText
        ((function.params.map Name.identifier).map fun param =>
          callText "repr" [param])) := by
      apply worded_tupleText
      rw [List.map_map]
      refine List.forall_mem_map.mpr fun param _ => worded_callText repr ?_
      exact List.forall_mem_singleton.mpr (Lexical.worded_name param)
    rw [← List.append_assoc _ (Text.ofString " % ")]
    exact (((pattern.append percent rfl).append args).append closes rfl).worded

/-- The body of a function keeps its parts when its self calls are marked. -/
theorem spares_markedBody {function : Function}
    (slots : ∀ index, function.body.Contains (.var (.slot index)) → 0 ≤ index)
    (targets : ∀ name, function.CallsForeign name → Worded [] name) :
    function.markedBody.SparesTemporaries := by
  intro part within
  have inMarked : part.unmarked ∈ function.markedBody.unmarked.subexprs := by
    rw [Expr.subexprs_unmarked]
    exact List.mem_map_of_mem ((Expr.mem_subexprs_iff _).mpr within)
  rw [markedBody, Expr.unmarked_marked, Expr.subexprs_unmarked] at inMarked
  obtain ⟨own, ownWithin, same⟩ := List.mem_map.mp inMarked
  rw [← part.sparesHere_unmarked, ← same, own.sparesHere_unmarked]
  have inBody := (Expr.mem_subexprs_iff _).mp ownWithin
  cases own with
  | var v =>
      cases v with
      | slot index =>
          exact decide_eq_false (Int.not_lt.mpr (slots index inBody))
      | named name => rfl
  | foreign target args =>
      cases target with
      | named name => exact targets name ⟨args, inBody⟩
      | _ => trivial
  | _ => trivial

theorem arranges_lower {function : Function} {tags : TagTable} {block : Block}
    {layout : Layout} (spares : function.markedBody.SparesTemporaries)
    (lowered : function.lower tags = .ok block) :
    Stmt.Arranges layout block.statements []
      (block.value.Ready layout.restart) := by
  obtain ⟨after, lowers⟩ := lowers_of_throughout throughout_true lowered
  exact lowers.arranges spares []

theorem orderly_runs {options : ScriptOptions} {function : Function}
    {block : Block} (settled : block.Settled (layout options)) :
    ∀ run ∈ function.runs options block, Orderly [] run := by
  intro run member
  obtain ⟨own, inRuns, rfl⟩ := List.mem_map.mp member
  have orderly := settled.orderly own inRuns
  have loop : Parted [] "while True:" := .mark rfl rfl rfl
  refine ⟨loop.words, ?_⟩
  split
  · exact ⟨function.worded_traceLine.words, orderly⟩
  · exact orderly

end Function

open Contract in
/-- A function of an accepted program reads a temporary only after it was
assigned, on every way through its lines and, on their own, through the lines of
each function it defines inside.  None of its slots is to be a temporary, and
the names of the foreign functions it calls contain none and leave no literal or
comment open.  Only an index that is too long keeps a function from being
lowered. -/
theorem temporaries_assigned_before_read {program : Program}
    {function : Function}
    (accepted : (Checker.initial.check program).hasErrors = false)
    (defined : function ∈ program.functions)
    (slots : ∀ index, function.body.Contains (.var (.slot index)) → 0 ≤ index)
    (targets : ∀ name, function.CallsForeign name → Worded [] name)
    (options : ScriptOptions) :
    let tags := (Checker.initial.check program).tags
    (∃ block lines, function.lower tags = .ok block ∧
      function.lines options tags = .ok lines ∧
      (∀ run ∈ function.runs options block, Shown run lines ∧
        AssignedBeforeRead run) ∧ ∀ body ∈ Stmt.bodiesList block.statements,
        ∀ run ∈ body.runs (Function.layout options), Shown run lines ∧
        AssignedBeforeRead run) ∨
    function.lower tags = .error .digitLimit ∧ function.HasLongIndex := by
  obtain ⟨tags, built⟩ := Checker.ofConstructors_of_not_hasErrors accepted
  rw [Checker.tags_check_initial built]
  dsimp only
  cases lowered : function.lower tags with
  | error fault =>
      obtain ⟨rfl, long⟩ :=
        Function.lower_error_of_accepted built accepted defined lowered
      exact .inr ⟨rfl, long⟩
  | ok block =>
      have arranges :
          Stmt.Arranges (Function.layout options) block.statements [] _ :=
        Function.arranges_lower (Function.spares_markedBody slots targets)
          lowered
      have settled : block.Settled (Function.layout options) :=
        arranges.follow.mono fun later _ ready => ready.reads
      refine .inl ⟨block, _, rfl, by rw [Function.lines, lowered]; rfl, ?_, ?_⟩
      · intro run member
        refine ⟨Function.shown_runs (fun path inPaths goesOn => ?_) run member,
          ?_⟩
        · exact ((arranges.follow path inPaths).2 goesOn).present
        · exact (Function.orderly_runs settled run member).assignedBeforeRead
      · intro body member run inRuns
        refine ⟨Function.shown_bodies member run inRuns, ?_⟩
        exact ((arranges.bodies body member).orderly run
          inRuns).assignedBeforeRead

/-- It decides on the value of a call, and restarts with a deferred value that
decides in turn. -/
def pollingFunction : Function :=
  ⟨.user "poll", [.user "n"],
    .case (.foreign (.named "read") [.var (.named (.user "n"))])
      [.con (.user "Succ") [.user "m"] (.app (.var (.named (.user "poll")))
          [.lazy (.case (.var (.named (.user "m")))
            [.con (.user "Succ") [.user "k"] (.var (.named (.user "k"))),
              .default (.var (.named (.user "n")))])] false),
        .default (.fail "no answer")]⟩

def pollingProgram : Program :=
  ⟨[.constructor ⟨.user "Succ", 1, none⟩, .function pollingFunction],
    .user "poll"⟩

theorem temporaries_assigned_before_read_polling :
    let tags := (Contract.Checker.initial.check pollingProgram).tags
    (Contract.Checker.initial.check pollingProgram).hasErrors = false ∧
      (∀ index, pollingFunction.body.Contains (.var (.slot index)) →
        0 ≤ index) ∧
      (∀ name, pollingFunction.CallsForeign name → Worded [] name) ∧
      ∀ options, ∃ block lines, pollingFunction.lower tags = .ok block ∧
        pollingFunction.lines options tags = .ok lines ∧
        (∀ run ∈ pollingFunction.runs options block, Shown run lines ∧
          AssignedBeforeRead run) ∧
        ∀ body ∈ Stmt.bodiesList block.statements,
        ∀ run ∈ body.runs (Function.layout options),
          Shown run lines ∧ AssignedBeforeRead run := by
  have accepted : (Contract.Checker.initial.check pollingProgram).hasErrors =
      false := by
    decide +kernel
  have slots : ∀ index, pollingFunction.body.Contains (.var (.slot index)) →
      0 ≤ index := by
    intro index within
    have part := (Expr.mem_subexprs_iff _).mpr within
    simp [pollingFunction, Expr.subexprs, Expr.subexprsList, Expr.subexprsAlts]
      at part
  have targets : ∀ name, pollingFunction.CallsForeign name →
      Worded [] name := by
    rintro name ⟨args, within⟩
    have part := (Expr.mem_subexprs_iff _).mpr within
    simp only [pollingFunction, Expr.subexprs, Expr.subexprsList,
      Expr.subexprsAlts, List.append_nil, List.mem_cons, List.mem_append,
      List.not_mem_nil, reduceCtorEq, Expr.foreign.injEq,
      ForeignTarget.named.injEq, or_false, false_or] at part
    obtain ⟨rfl, -⟩ := part
    exact .of_isWord (List.all_eq_true.mp rfl) (.of_not_isPrefixOf rfl)
  have short : ¬ pollingFunction.HasLongIndex := by
    rintro ⟨body, index, part, -⟩
    simp [pollingFunction, Expr.subexprs, Expr.subexprsList, Expr.subexprsAlts]
      at part
  refine ⟨accepted, slots, targets, fun options => ?_⟩
  rcases temporaries_assigned_before_read accepted (List.mem_singleton.mpr rfl)
    slots targets options with assigned | ⟨-, long⟩
  · exact assigned
  · exact (short long).elim

end TailLoop
