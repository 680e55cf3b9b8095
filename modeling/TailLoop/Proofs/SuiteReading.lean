import TailLoop.Proofs.BlockGrammar
import TailLoop.Proofs.LineReading
import TailLoop.Proofs.Simulation

/-!
# Reading functions back

The lines of a function are read from the last to the first.  Each line belongs
to a level by its indentation; the head of a clause takes the statements one
level further in as its suite, and the first head of a branch takes the clauses
that wait behind it.  A function whose code has a meaning is read back from its
printed lines, up to the names of the constructors in tests, which the lines do
not show and which do not matter for a run.
-/

namespace TailLoop

namespace Code

namespace Reading

/-- What was read of the suite at one level: the clauses of a branch whose first
head is still to come, with their subjects, and the statements behind it. -/
structure Level where
  subjects : List Var
  clauses : List Clause
  block : Block

def Level.empty : Level :=
  ⟨[], [], ⟨[], .restart⟩⟩

/-- No clause waits for the first head of its branch. -/
def Level.isComplete (level : Level) : Bool :=
  level.clauses.isEmpty && level.subjects.isEmpty

@[simp] def Level.push (stmt : Stmt) (level : Level) : Level :=
  { level with block.statements := stmt :: level.block.statements }

/-- The suite that a level holds, if there is one. -/
def Level.suite? (level : Level) : Option (List Stmt) :=
  if level.isComplete && level.block.value.isRestart &&
    !level.block.statements.isEmpty then some level.block.statements
  else none

/-- A clause before the others. -/
def Level.headed? (line : Line) (suite : List Stmt) (level : Level) :
    Option Level :=
  match line with
  | .test true subject guard =>
      if level.subjects.all (· = subject) then
        some (Level.push (.branch subject (.mk guard suite :: level.clauses))
          { level with subjects := [], clauses := [] })
      else none
  | .test false subject guard =>
      some { level with
        subjects := subject :: level.subjects
        clauses := .mk guard suite :: level.clauses }
  | .otherwise =>
      some { level with clauses := .mk .otherwise suite :: level.clauses }
  | _ => none

/-- The levels, the innermost one first, with one for the depth. -/
def deepened (depth : Nat) (levels : List Level) : List Level :=
  List.replicate (depth + 1 - levels.length) .empty ++ levels

/-- A line of the innermost level, or the head of a clause before it.  A line
that only prints is passed over. -/
def placed? (depth : Nat) (line : Line) (levels : List Level) :
    Option (List Level) :=
  match line, levels with
  | .trace, levels => some levels
  | .statement stmt, level :: outer =>
      if outer.length = depth ∧ level.isComplete = true then
        some (level.push stmt :: outer)
      else none
  | .result value, level :: outer =>
      if outer.length = depth ∧ level.isComplete = true ∧
        level.block.statements.isEmpty = true then
        some ({ level with block.value := value } :: outer)
      else none
  | line, inner :: level :: outer =>
      if outer.length = depth then
        inner.suite?.bind fun suite =>
          (level.headed? line suite).map fun level => level :: outer
      else none
  | _, _ => none

/-- A line before those that were read. -/
def put? (depth : Nat) (line : Line) (levels : List Level) :
    Option (List Level) :=
  placed? depth line (deepened depth levels)

section Blocks

variable (scope : List Var) (ctor : Name)

def readLines? : List Text → List Level → Option (List Level)
  | [], levels => some levels
  | text :: texts, levels =>
      (readLines? texts levels).bind fun levels =>
        (readLine? scope ctor text).bind fun line =>
          put? (depth text) line levels

/-- The block that lines of the given depth make. -/
def block? (depth : Nat) (texts : List Text) : Option Block :=
  match readLines? scope ctor texts (deepened depth []) with
  | some (level :: outer) =>
      if outer.length = depth ∧ level.isComplete = true then some level.block
      else none
  | _ => none

/-- Words with commas between them, up to the end of a header. -/
def params? : List Token → Option (List Text)
  | [.mark .closing, .mark .colon] => some []
  | [.word word, .mark .closing, .mark .colon] => some [word]
  | .word word :: .mark .comma :: tokens => (params? tokens).map (word :: ·)
  | _ => none

def isComment (text : Text) : Bool :=
  cut (.code []) text = some []

/-- The function that lines define: comments, a header, a loop and its body. -/
def definition? (texts : List Text) : Option Definition :=
  match texts.dropWhile isComment with
  | header :: loop :: body =>
      match cut (.code []) header with
      | some (.word keyword :: .word name :: .mark .opening :: params) =>
          if keyword = "def" ∧ cut (.code []) loop =
            some [.word "while", .word "True", .mark .colon] then
            (params? params).bind fun params =>
              (block? scope ctor 2 body).map fun block => ⟨name, params, block⟩
          else none
      | _ => none
  | _ => none

end Blocks

end Reading

open Reading

/-- The guard with another name for its constructor. -/
@[simp] def Guard.renamed (ctor : Name) : Guard → Guard
  | .hasTag tag _ => .hasTag tag ctor
  | guard => guard

mutual

/-- The statement with one name for all constructors in tests. -/
@[simp] def Stmt.renamed (ctor : Name) : Stmt → Stmt
  | .branch subject clauses => .branch subject (renamedClauses ctor clauses)
  | stmt => stmt

@[simp] def Stmt.renamedList (ctor : Name) : List Stmt → List Stmt
  | [] => []
  | stmt :: stmts => stmt.renamed ctor :: renamedList ctor stmts

@[simp] def Stmt.renamedClauses (ctor : Name) : List Clause → List Clause
  | [] => []
  | .mk guard body :: clauses =>
      .mk (guard.renamed ctor) (renamedList ctor body) ::
        renamedClauses ctor clauses

end

/-- Guards whose terms are read back. -/
inductive Guard.Readable (scope : List Var) : Guard → Prop where
  | hasTag (tag : Int) (ctor : Name) : Readable scope (.hasTag tag ctor)
  | equals {value : Term} : value.Readable scope →
      Readable scope (.equals value)
  | tagBelow (tag : Int) : Readable scope (.tagBelow tag)
  | otherwise : Readable scope .otherwise

mutual

/-- The forms of statements that a suite may run, with variables in the
scope. -/
inductive Stmt.Readable (scope : List Var) : Stmt → Prop where
  | assign {target : Var} {value : Term} :
      target ∈ scope → value.Readable scope →
      Stmt.Readable scope (.assign target value)
  | unpack {targets : List Name} {subject : Var} :
      targets ≠ [] → (∀ target ∈ targets, Var.named target ∈ scope) →
      subject ∈ scope → Stmt.Readable scope (.unpack targets subject)
  | rebind {targets : List Name} {values : List Term} :
      targets ≠ [] → (∀ target ∈ targets, Var.named target ∈ scope) →
      (∀ value ∈ values, value.Readable scope) →
      Stmt.Readable scope (.rebind targets values)
  | continue : Stmt.Readable scope .continue
  | unreachable : Stmt.Readable scope .unreachable
  | branch {subject : Var} {guard : Guard} {body : List Stmt}
      {clauses : List Clause} :
      subject ∈ scope → guard ≠ .otherwise →
      (∀ clause ∈ .mk guard body :: clauses, Clause.Readable scope clause) →
      Stmt.Readable scope (.branch subject (.mk guard body :: clauses))

inductive Clause.Readable (scope : List Var) : Clause → Prop where
  | mk {guard : Guard} {body : List Stmt} :
      guard.Readable scope → body ≠ [] →
      (∀ stmt ∈ body, Stmt.Readable scope stmt) →
      Clause.Readable scope (.mk guard body)

end

namespace Reading

variable {scope : List Var} {ctor : Name}

@[simp] theorem readLines?_append (first second : List Text)
    (levels : List Level) :
    readLines? scope ctor (first ++ second) levels =
      (readLines? scope ctor second levels).bind
      (readLines? scope ctor first) := by
  induction first with
  | nil => exact (Option.bind_fun_some _).symm
  | cons text first ih =>
      rw [List.cons_append, readLines?, ih, Option.bind_assoc]; rfl

@[simp] theorem deepened_deepened {depth deeper : Nat} (le : depth ≤ deeper)
    (levels : List Level) :
    deepened deeper (deepened depth levels) = deepened deeper levels := by
  simp only [deepened, List.length_append, List.length_replicate]
  rw [← List.append_assoc, List.replicate_append_replicate]
  congr 2
  omega

theorem put?_deepened {depth deeper : Nat} (le : depth ≤ deeper) (line : Line)
    (levels : List Level) :
    put? deeper line (deepened depth levels) = put? deeper line levels := by
  rw [put?, put?, deepened_deepened le]

/-- Lines that are further in may be read with a level of their own. -/
theorem readLines?_deepened (least : Nat) {texts : List Text}
    (nonempty : texts ≠ []) (further : ∀ text ∈ texts, least ≤ depth text)
    (levels : List Level) :
    readLines? scope ctor texts (deepened least levels) =
      readLines? scope ctor texts levels := by
  induction texts with
  | nil => exact (nonempty rfl).elim
  | cons text texts ih =>
      obtain ⟨own, others⟩ := List.forall_mem_cons.mp further
      cases texts with
      | nil => simp only [readLines?, Option.bind_some, put?_deepened own]
      | cons next texts =>
          rw [readLines?, ih (List.cons_ne_nil _ _) others]; rfl

theorem deepened_eq_self {depth : Nat} {levels : List Level}
    (present : depth < levels.length) : deepened depth levels = levels := by
  rw [deepened, Nat.sub_eq_zero_of_le present]
  rfl

@[simp] theorem deepened_succ (level : Level) (outer : List Level) :
    deepened (outer.length + 1) (level :: outer) = .empty ::
      level :: outer := by
  rw [deepened, List.length_cons, Nat.add_sub_cancel_left]
  rfl

theorem IsLine.readLines? {text : Text} {line : Line}
    (isLine : IsLine scope ctor text line) (steps : Nat) (texts : List Text)
    (levels : List Level) :
    readLines? scope ctor (Draft.indentedBy steps text :: texts) levels =
      (readLines? scope ctor texts levels).bind (put? steps line) := by
  rw [Reading.readLines?, isLine.readLine?_eq, isLine.depth_eq]
  rfl

/-- The statements before those of a level. -/
@[simp] def Level.pushAll (stmts : List Stmt) (level : Level) : Level :=
  { level with block.statements := stmts ++ level.block.statements }

/-- The lines of a statement are read as the statement, before what was read. -/
def ReadsBack (scope : List Var) (ctor : Name) (layout : Layout) (stmt : Stmt) :
    Prop :=
  stmt.lines layout ≠ [] ∧
    ∀ level : Level, level.isComplete = true → ∀ outer,
      readLines? scope ctor
          ((stmt.lines layout).map (Draft.indentedBy outer.length))
          (level :: outer) =
        some (level.push (stmt.renamed ctor) :: outer)

theorem readsBack_of_isLine {layout : Layout} {stmt : Stmt} {text : Text}
    (form : stmt.lines layout = [text])
    (isLine : IsLine scope ctor text (.statement (stmt.renamed ctor))) :
    ReadsBack scope ctor layout stmt := by
  refine ⟨form ▸ List.cons_ne_nil _ _, fun level complete outer => ?_⟩
  rw [form, List.map_singleton, isLine.readLines?, readLines?, Option.bind_some,
    put?, deepened_eq_self (Nat.lt_succ_self _)]
  exact if_pos ⟨rfl, complete⟩

theorem readLines?_linesList {layout : Layout} {stmts : List Stmt}
    (each : ∀ stmt ∈ stmts, ReadsBack scope ctor layout stmt) (level : Level)
    (complete : level.isComplete = true) (outer : List Level) :
    readLines? scope ctor
        ((Stmt.linesList layout stmts).map (Draft.indentedBy outer.length))
        (level :: outer) =
      some (level.pushAll (Stmt.renamedList ctor stmts) :: outer) := by
  induction stmts with
  | nil => rfl
  | cons stmt stmts ih =>
      obtain ⟨own, others⟩ := List.forall_mem_cons.mp each
      rw [Stmt.linesList, List.map_append, readLines?_append, ih others,
        Option.bind_some]
      exact own.2 (level.pushAll _) complete outer

theorem linesList_ne_nil {layout : Layout} {stmts : List Stmt}
    (nonempty : stmts ≠ [])
    (each : ∀ stmt ∈ stmts, ReadsBack scope ctor layout stmt) :
    Stmt.linesList layout stmts ≠ [] := by
  cases stmts with
  | nil => exact (nonempty rfl).elim
  | cons stmt stmts =>
      exact List.append_ne_nil_of_left_ne_nil (each stmt List.mem_cons_self).1 _

theorem placed?_headed {line : Line} {inner level after : Level}
    {outer : List Level} {suite : List Stmt}
    (suited : inner.suite? = some suite)
    (headed : level.headed? line suite = some after) :
    placed? outer.length line (inner :: level :: outer) =
      some (after :: outer) := by
  have clause : (if outer.length = outer.length then
      inner.suite?.bind fun suite =>
        (level.headed? line suite).map fun level => level :: outer
      else none) = some (after :: outer) := by
    rw [if_pos rfl, suited, Option.bind_some, headed, Option.map_some]
  cases line with
  | test leading subject guard => exact clause
  | otherwise => exact clause
  | _ => cases headed

theorem le_depth_indentedBy (steps : Nat) (text : Text) :
    steps ≤ depth (Draft.indentedBy steps text) := by
  induction steps with
  | zero => exact Nat.zero_le _
  | succ steps ih =>
      rw [Draft.indentedBy_succ, depth_indented]
      exact Nat.succ_le_succ ih

/-- The head of a clause with its suite. -/
theorem readLines?_clause {layout : Layout} {header : Text} {line : Line}
    {body : List Stmt} {level after : Level}
    (isLine : IsLine scope ctor header line) (nonempty : body ≠ [])
    (each : ∀ stmt ∈ body, ReadsBack scope ctor layout stmt)
    (headed : level.headed? line (Stmt.renamedList ctor body) = some after)
    (outer : List Level) :
    readLines? scope ctor ((header :: indented (Stmt.linesList layout body)).map
        (Draft.indentedBy outer.length)) (level :: outer) =
      some (after :: outer) := by
  have suite :
      readLines? scope ctor ((indented (Stmt.linesList layout body)).map
      (Draft.indentedBy outer.length)) (level :: outer) =
        some (Level.pushAll (Stmt.renamedList ctor body) .empty :: level ::
          outer) := by
    rw [Draft.map_indented, ← readLines?_deepened (outer.length + 1),
      deepened_succ]
    · exact readLines?_linesList each .empty rfl (level :: outer)
    · exact fun none =>
        linesList_ne_nil nonempty each (List.map_eq_nil_iff.mp none)
    · intro text member
      obtain ⟨own, -, rfl⟩ := List.mem_map.mp member
      exact le_depth_indentedBy _ own
  rw [List.map_cons, isLine.readLines?, suite, Option.bind_some, put?,
    deepened_eq_self (by simp only [List.length_cons]; omega)]
  refine placed?_headed ?_ headed
  cases body with
  | nil => exact (nonempty rfl).elim
  | cons stmt body => exact congrArg some (List.append_nil _)

/-- The line that a guard makes. -/
def guardLine (ctor : Name) (leading : Bool) (subject : Var) : Guard → Line
  | .otherwise => .otherwise
  | guard => .test leading subject (guard.renamed ctor)

theorem isLine_header {guard : Guard} (readable : guard.Readable scope)
    {subject : Var} (known : subject ∈ scope) (layout : Layout)
    (leading : Bool) :
    IsLine scope ctor (guard.header layout leading subject)
      (guardLine ctor leading subject guard) := by
  have passed : cut (.code []) (guard.remark layout) = some [] := by
    cases guard with
    | hasTag tag ctor =>
        rw [Guard.remark]
        split <;> rfl
    | _ => rfl
  cases readable with
  | hasTag tag own =>
      rw [Guard.header_eq rfl]
      exact isLine_test (.item 0 (.var known)) (.int tag) rfl passed
  | equals value =>
      rw [Guard.header_eq rfl]
      exact isLine_test (.var known) value rfl passed
  | tagBelow tag =>
      rw [Guard.header_eq rfl]
      exact isLine_test (.item 0 (.var known)) (.int tag) rfl passed
  | otherwise => exact isLine_otherwise

theorem headed?_guardLine (guard : Guard) (subject : Var) (suite : List Stmt)
    (level : Level) :
    ∃ subjects, (∀ other ∈ subjects, other = subject ∨ other ∈ level.subjects) ∧
      level.headed? (guardLine ctor false subject guard) suite =
        some { level with
          subjects := subjects
          clauses := .mk (guard.renamed ctor) suite :: level.clauses } := by
  cases guard with
  | otherwise => exact ⟨level.subjects, fun _ => .inr, rfl⟩
  | _ => exact ⟨subject :: level.subjects, fun _ => List.mem_cons.mp, rfl⟩

theorem Level.eq_nil_of_isComplete {level : Level}
    (complete : level.isComplete = true) :
    level.subjects = [] ∧ level.clauses = [] := by
  rw [isComplete, Bool.and_eq_true, List.isEmpty_iff, List.isEmpty_iff]
    at complete
  exact complete.symm

/-- The clause is read back with its guard and its suite. -/
def ReadsClause (scope : List Var) (ctor : Name) (layout : Layout) :
    Clause → Prop
  | .mk guard body => guard.Readable scope ∧ body ≠ [] ∧
      ∀ stmt ∈ body, ReadsBack scope ctor layout stmt

/-- The clauses behind the first one wait for it. -/
theorem readLines?_clauses {layout : Layout} {subject : Var}
    (known : subject ∈ scope) {clauses : List Clause}
    (each : ∀ clause ∈ clauses, ReadsClause scope ctor layout clause)
    {level : Level} (complete : level.isComplete = true) (outer : List Level) :
    ∃ subjects, (∀ other ∈ subjects, other = subject) ∧
      readLines? scope ctor
        ((Stmt.clausesLines layout subject false clauses).map
          (Draft.indentedBy outer.length)) (level :: outer) =
        some ({ level with
          subjects := subjects
          clauses := Stmt.renamedClauses ctor clauses } :: outer) := by
  induction clauses with
  | nil =>
      obtain ⟨noSubjects, noClauses⟩ := Level.eq_nil_of_isComplete complete
      refine ⟨[], List.forall_mem_nil _, ?_⟩
      rw [Stmt.clausesLines, List.map_nil, readLines?, Stmt.renamedClauses,
        ← noSubjects, ← noClauses]
  | cons clause clauses ih =>
      obtain ⟨guard, body⟩ := clause
      obtain ⟨⟨readable, nonempty, suite⟩, others⟩ :=
        List.forall_mem_cons.mp each
      obtain ⟨subjects, same, read⟩ := ih others
      obtain ⟨wider, within, headed⟩ := headed?_guardLine guard subject
        (Stmt.renamedList ctor body) { level with
          subjects := subjects
          clauses := Stmt.renamedClauses ctor clauses }
      refine ⟨wider, fun other member =>
        (within other member).elim id (same other), ?_⟩
      rw [Stmt.clausesLines, ← List.cons_append, List.map_append,
        readLines?_append, read, Option.bind_some]
      exact readLines?_clause (isLine_header readable known layout false)
        nonempty suite headed outer

theorem readsBack_branch {layout : Layout} {subject : Var} {guard : Guard}
    {body : List Stmt} {clauses : List Clause} (known : subject ∈ scope)
    (test : guard ≠ .otherwise)
    (each : ∀ clause ∈ .mk guard body :: clauses,
      ReadsClause scope ctor layout clause) :
    ReadsBack scope ctor layout
      (.branch subject (.mk guard body :: clauses)) := by
  refine ⟨List.cons_ne_nil _ _, fun level complete outer => ?_⟩
  obtain ⟨⟨readable, nonempty, suite⟩, others⟩ := List.forall_mem_cons.mp each
  obtain ⟨subjects, same, read⟩ :=
    readLines?_clauses known others complete outer
  have line : guardLine ctor true subject guard =
      .test true subject (guard.renamed ctor) := by
    cases guard with
    | otherwise => exact (test rfl).elim
    | _ => rfl
  have agree : (subjects.all (· = subject)) = true :=
    List.all_eq_true.mpr fun other member => decide_eq_true (same other member)
  rw [Stmt.lines, Stmt.clausesLines, ← List.cons_append, List.map_append,
    readLines?_append, read, Option.bind_some]
  refine readLines?_clause (isLine_header readable known layout true)
    nonempty suite ?_ outer
  obtain ⟨noSubjects, noClauses⟩ := Level.eq_nil_of_isComplete complete
  rw [line, Level.headed?]
  dsimp only
  rw [if_pos agree, ← noSubjects, ← noClauses]
  rfl

end Reading

mutual

theorem Stmt.Readable.readsBack {scope : List Var} {stmt : Stmt}
    (readable : stmt.Readable scope) (ctor : Name) (layout : Layout) :
    ReadsBack scope ctor layout stmt := by
  match readable with
  | .assign known value =>
      exact readsBack_of_isLine rfl (isLine_assign known (value.reads _))
  | .unpack nonempty known subject =>
      exact readsBack_of_isLine rfl (isLine_unpack nonempty known subject)
  | .rebind nonempty known values =>
      exact readsBack_of_isLine rfl
        (isLine_rebind nonempty known fun value member =>
        (values value member).reads _)
  | .continue => exact readsBack_of_isLine rfl isLine_continue
  | .unreachable => exact readsBack_of_isLine rfl isLine_unreachable
  | .branch known test each =>
      exact readsBack_branch known test fun clause member =>
        (each clause member).readsClause ctor layout

theorem Clause.Readable.readsClause {scope : List Var} {clause : Clause}
    (readable : clause.Readable scope) (ctor : Name) (layout : Layout) :
    ReadsClause scope ctor layout clause := by
  match readable with
  | .mk guard nonempty each =>
      exact ⟨guard, nonempty, fun stmt member =>
        (each stmt member).readsBack ctor layout⟩

end

/-- A block of statements that are read back, with the value it returns. -/
structure Block.Readable (scope : List Var) (block : Block) : Prop where
  statements : ∀ stmt ∈ block.statements, stmt.Readable scope
  value : block.value.isRestart = false → block.value.Readable scope

/-- The function with one name for all constructors in tests. -/
def Definition.renamed (ctor : Name) (definition : Definition) : Definition :=
  { definition with
    body.statements := Stmt.renamedList ctor definition.body.statements }

namespace Reading

variable {scope : List Var} {ctor : Name}

theorem cuts_params (params : List Name) :
    ∃ tokens, Cuts (Text.join ", " (params.map Name.identifier)) tokens ∧
      params? (tokens ++ [.mark .closing, .mark .colon]) =
        some (params.map Name.identifier) := by
  unfold Text.join
  induction params with
  | nil => exact ⟨[], cuts_nil, rfl⟩
  | cons param params ih =>
      have word := cuts_word (isToken_identifier (.named param))
      cases params with
      | nil =>
          rw [List.map_singleton, List.intercalate_singleton]
          exact ⟨_, word, rfl⟩
      | cons next params =>
          obtain ⟨tokens, cuts, read⟩ := ih
          have head :=
            word.append (parts_mark (c := ',') rfl " ") leads_separator
          rw [List.map_cons, List.map_cons, List.intercalate_cons_cons]
          refine ⟨_, head.append_cuts cuts, ?_⟩
          exact congrArg (·.map (param.identifier :: ·)) read

theorem cut_header (function : Function) :
    ∃ params, cut (.code []) function.header =
        some (.word "def" :: .word function.name.identifier ::
          .mark .opening :: params) ∧
      params? params = some (function.params.map Name.identifier) := by
  obtain ⟨tokens, cuts, read⟩ := cuts_params function.params
  have keyword : IsToken "def" := ⟨by decide, by decide⟩
  have head : Leads "def " [.word "def"] :=
    (cuts_word keyword).append (parts_blank []) leads_blank
  have name :=
    head.append_cuts (cuts_word (isToken_identifier (.named function.name)))
  have opening := name.append (parts_mark rfl []) leads_opening
  have tail : Leads "):" [.mark .closing, .mark .colon] :=
    leads_closing.append (leads_mark rfl)
  have whole := (opening.append_cuts cuts).append (parts_mark rfl _) tail
  have form : function.header = "def " ++ function.name.identifier ++ "(" ++
      Text.join ", " (function.params.map Name.identifier) ++ "):" := by
    simp only [Function.header, callText, List.append_assoc]
    rfl
  refine ⟨tokens ++ [.mark .closing, .mark .colon], ?_, read⟩
  rw [form]
  exact whole.cuts.cut_eq

/-- The line with the value that a block returns. -/
theorem readLines?_return {layout : Layout} {value : Term}
    (readable : value.Readable scope) (outer : List Level) :
    readLines? scope ctor
      ([Text.ofString "return " ++ value.text layout.restart].map
        (Draft.indentedBy outer.length)) (.empty :: outer) =
      some ({ Level.empty with block.value := value } :: outer) := by
  rw [List.map_singleton, (isLine_return (readable.reads _)).readLines?,
    readLines?, Option.bind_some, put?, deepened_eq_self (Nat.lt_succ_self _)]
  exact if_pos ⟨rfl, rfl, rfl⟩

theorem readLines?_bodyLines {layout : Layout} {block : Block}
    (readable : block.Readable scope) (outer : List Level) :
    readLines? scope ctor
        ((block.bodyLines layout).map (Draft.indentedBy outer.length))
        (.empty :: outer) =
      some (⟨[], [], ⟨Stmt.renamedList ctor block.statements, block.value⟩⟩ ::
        outer) := by
  have each : ∀ stmt ∈ block.statements, ReadsBack scope ctor layout stmt :=
    fun stmt member => (readable.statements stmt member).readsBack ctor layout
  rw [Block.bodyLines, Block.statementLines, List.map_append, readLines?_append]
  cases returned : block.value.isRestart with
  | true =>
      have restart : block.value = .restart := by
        cases form : block.value <;> rw [form] at returned <;> cases returned
      rw [if_pos rfl, List.map_nil, readLines?, Option.bind_some,
        readLines?_linesList each .empty rfl outer, restart]
      exact congrArg (fun stmts => some (⟨[], [], ⟨stmts, .restart⟩⟩ :: outer))
        (List.append_nil _)
  | false =>
      rw [if_neg Bool.false_ne_true,
        readLines?_return (readable.value returned) outer, Option.bind_some,
        readLines?_linesList each { Level.empty with
          block.value := block.value } rfl outer]
      exact congrArg (fun stmts =>
        some (⟨[], [], ⟨stmts, block.value⟩⟩ :: outer))
        (List.append_nil _)

theorem exists_leads_join {separator : Text} {between : List Token}
    (leads : Leads separator between) {parts : List Text}
    (each : ∀ part ∈ parts, ∃ tokens, Leads part tokens) :
    ∃ tokens, Leads (Text.join separator parts) tokens := by
  unfold Text.join
  induction parts with
  | nil => exact ⟨[], fun rest => Option.map_id'.symm⟩
  | cons part parts ih =>
      obtain ⟨⟨tokens, own⟩, others⟩ := List.forall_mem_cons.mp each
      cases parts with
      | nil =>
          rw [List.intercalate_singleton]
          exact ⟨tokens, own⟩
      | cons next parts =>
          obtain ⟨later, rest⟩ := ih others
          rw [List.intercalate_cons_cons]
          exact ⟨_, (own.append leads).append rest⟩

theorem exists_leads_tupleText {items : List Text}
    (each : ∀ item ∈ items, ∃ tokens, Leads item tokens) :
    ∃ tokens, Leads (tupleText items) tokens := by
  obtain ⟨tokens, row⟩ := exists_leads_join leads_separator each
  have many : Leads ("(" ++ Text.join ", " items ++ ")") _ :=
    (leads_opening.append row).append leads_closing
  rcases items with _ | ⟨item, _ | ⟨next, items⟩⟩
  · exact ⟨_, many⟩
  · obtain ⟨tokens, single⟩ := each item List.mem_cons_self
    have closing : Leads ",)" [.mark .comma, .mark .closing] :=
      (leads_mark rfl).append leads_closing
    exact ⟨_, (leads_opening.append single).append closing⟩
  · exact ⟨_, many⟩

theorem leads_percent : Leads " % " [.word "%"] := by
  have percent : IsToken "%" := ⟨by decide, by decide⟩
  exact leads_sign percent

theorem leads_representation (param : Name) :
    Leads (callText "repr" [param.identifier])
      [.word "repr", .mark .opening, .word param.identifier,
        .mark .closing] := by
  have function : IsToken "repr" := ⟨by decide, by decide⟩
  have opens := (cuts_word function).append (parts_mark rfl []) leads_opening
  have arg := opens.append_cuts (cuts_word (isToken_identifier (.named param)))
  have whole := arg.append (parts_mark rfl []) leads_closing
  rw [callText, Text.join, List.intercalate_singleton]
  exact whole

theorem exists_leads_representations (params : List Name) :
    ∃ tokens, Leads (tupleText ((params.map Name.identifier).map fun param =>
      callText "repr" [param])) tokens := by
  refine exists_leads_tupleText fun item member => ?_
  rw [List.map_map] at member
  obtain ⟨param, -, rfl⟩ := List.mem_map.mp member
  exact ⟨_, leads_representation param⟩

theorem isLine_print {text : Text} {tokens : List Token}
    (leads : Leads text tokens) :
    IsLine scope ctor ("print(" ++ text) .trace := by
  have opens : Leads "print(" [.word "print", .mark .opening] :=
    (cuts_word (isToken_keyword .print)).append (parts_mark rfl [])
      leads_opening
  exact isLine_of_cut (opens.append leads).cuts.cut_eq rfl (by rintro ⟨⟩)

/-- The line that shows a call is passed over. -/
theorem isLine_trace (function : Function) :
    IsLine scope ctor function.traceLine .trace := by
  have file : IsToken "file=sys.stderr" := ⟨by decide, by decide⟩
  have tail : Leads ", file=sys.stderr)" [.mark .comma, .word "file=sys.stderr",
      .mark .closing] :=
    (leads_separator.append_cuts (cuts_word file)).append (parts_mark rfl [])
      leads_closing
  obtain ⟨args, row⟩ := exists_leads_representations function.params
  rw [Function.traceLine, List.append_assoc, List.append_assoc]
  generalize callText function.name.identifier _ = pattern
  split
  · exact isLine_print ((leads_quoted pattern).append tail)
  · exact isLine_print ((leads_quoted pattern).append
      ((leads_percent.append row).append tail))

theorem readLines?_trace (function : Function) (level : Level)
    (outer : List Level) :
    readLines? scope ctor [Draft.indentedBy outer.length function.traceLine]
      (level :: outer) = some (level :: outer) := by
  rw [(isLine_trace function).readLines?, readLines?, Option.bind_some, put?,
    deepened_eq_self (Nat.lt_succ_self _)]
  rfl

theorem block?_eq (ctor : Name) (layout : Layout) (trace : Bool)
    (function : Function) {block : Block} (readable : block.Readable scope) :
    block? scope ctor 2 (indented (indented
        ((if trace then [function.traceLine] else []) ++
          block.bodyLines layout))) =
      some ⟨Stmt.renamedList ctor block.statements, block.value⟩ := by
  have twice (texts : List Text) :
      indented (indented texts) = texts.map (Draft.indentedBy 2) := by
    rw [indented, indented, List.map_map]
    rfl
  have body :
      readLines? scope ctor ((block.bodyLines layout).map (Draft.indentedBy 2))
        (deepened 2 []) = _ :=
    readLines?_bodyLines readable [.empty, .empty]
  have whole : readLines? scope ctor (indented (indented
      ((if trace then [function.traceLine] else []) ++ block.bodyLines layout)))
      (deepened 2 []) = some
        [⟨[], [], ⟨Stmt.renamedList ctor block.statements, block.value⟩⟩,
          .empty, .empty] := by
    rw [twice, List.map_append, readLines?_append, body, Option.bind_some]
    cases trace with
    | true => exact readLines?_trace function _ [.empty, .empty]
    | false => rfl
  rw [block?, whole]
  exact if_pos ⟨rfl, rfl⟩

theorem dropWhile_title (comments : Bool) (function : Function)
    (texts : List Text) :
    ((if comments then ["# " ++ function.name.display] else []) ++
      function.header :: texts).dropWhile isComment =
        function.header :: texts := by
  obtain ⟨params, header, -⟩ := cut_header function
  have stop : ¬ isComment function.header = true := by
    rw [isComment, header, decide_eq_true_iff]
    rintro ⟨⟩
  cases comments with
  | false => exact List.dropWhile_cons_of_neg stop
  | true =>
      have title : isComment ("# " ++ function.name.display) = true :=
        decide_eq_true rfl
      exact (List.dropWhile_cons_of_pos title).trans
        (List.dropWhile_cons_of_neg stop)

/-- The lines of a function whose code has a meaning are read as the
function. -/
theorem definition?_frame (ctor : Name) (options : ScriptOptions)
    (function : Function) {block : Block} (readable : block.Readable scope) :
    definition? scope ctor
        (function.frame options (block.bodyLines (Function.layout options))) =
      some ((function.definition block).renamed ctor) := by
  obtain ⟨params, header, read⟩ := cut_header function
  have loop : cut (.code []) (indentation ++ "while True:") =
      some [.word "while", .word "True", .mark .colon] := rfl
  rw [Function.frame_eq]
  unfold definition?
  rw [dropWhile_title, indented, List.map_cons]
  dsimp only
  rw [header]
  dsimp only
  rw [if_pos ⟨rfl, loop⟩, read, Option.bind_some]
  have body := block?_eq ctor (Function.layout options) options.trace
    function readable
  rw [indented] at body
  rw [body]
  rfl

example : definition? [.named (.user "n"), .slot (-1)] (.user "C")
    ["# f", "def ir_f(ir_n):", "    while True:", "        if ir_n == 0:",
      "            aux1 = 'a'", "        else:",
      "            ir_n, = (ir_n - 1),", "            continue",
      "        return aux1"] =
    some ⟨"ir_f", ["ir_n"], ⟨[.branch (.named (.user "n"))
      [.mk (.equals (.int 0)) [.assign (.slot (-1)) (.str "a")],
        .mk .otherwise [.rebind [.user "n"]
          [.binary .sub (.var (.named (.user "n"))) (.int 1)], .continue]]],
      .var (.slot (-1))⟩⟩ := by
  rfl

end Reading

section Meaning

variable (ctor : Name)

@[simp] theorem Guard.holds?_renamed (guard : Guard) (value : Value) :
    (guard.renamed ctor).holds? value = guard.holds? value := by
  cases guard <;> rfl

@[simp] theorem Clause.chosen?_renamed (value : Value) (clauses : List Clause) :
    Clause.chosen? value (Stmt.renamedClauses ctor clauses) =
      (Clause.chosen? value clauses).map (Stmt.renamedList ctor) := by
  induction clauses with
  | nil => rfl
  | cons clause clauses ih =>
      obtain ⟨guard, body⟩ := clause
      rw [Stmt.renamedClauses, chosen?, chosen?, Guard.holds?_renamed, ih]
      cases guard.holds? value with
      | none => rfl
      | some truth => cases truth <;> rfl

mutual

@[simp] theorem Stmt.writes_renamed (stmt : Stmt) :
    (stmt.renamed ctor).writes = stmt.writes := by
  cases stmt with
  | branch subject clauses => exact writesClauses_renamed clauses
  | _ => rfl

@[simp] theorem Stmt.writesList_renamed (stmts : List Stmt) :
    writesList (renamedList ctor stmts) = writesList stmts := by
  cases stmts with
  | nil => rfl
  | cons stmt stmts =>
      rw [renamedList, writesList, writesList, stmt.writes_renamed,
        writesList_renamed stmts]

@[simp] theorem Stmt.writesClauses_renamed (clauses : List Clause) :
    writesClauses (renamedClauses ctor clauses) = writesClauses clauses := by
  rcases clauses with _ | ⟨⟨guard, body⟩, clauses⟩
  · rfl
  · simp [writesList_renamed body, writesClauses_renamed clauses]

end

@[simp] theorem Definition.locals_renamed (definition : Definition) :
    (definition.renamed ctor).locals = definition.locals := by
  rw [locals, locals, renamed, Stmt.writesList_renamed]

@[simp] theorem Module.find?_renamed (module : Module) (name : Text) :
    Module.find? (module.map (Definition.renamed ctor)) name =
      (module.find? name).map (Definition.renamed ctor) := by
  rw [find?, find?, ← List.map_reverse, List.find?_map]
  rfl

end Meaning

section Runs

variable {module : Module} (ctor : Name)

mutual

theorem Term.Yields.renamed {self : Definition} {frame : Store Text}
    {term : Term} {value : Value}
    (yields : Term.Yields module self frame term value) :
    Term.Yields (module.map (Definition.renamed ctor)) (self.renamed ctor) frame
      term value := by
  match yields with
  | .var found => exact .var found
  | .int => exact .int
  | .str => exact .str
  | .paren body => exact .paren body.renamed
  | .tuple items => exact .tuple items.renamed
  | .item body item => exact .item body.renamed item
  | .binary left right result => exact .binary left.renamed right.renamed result
  | .compare left right result =>
      exact .compare left.renamed right.renamed result
  | .call apart found args returns =>
      refine .call ?_ ?_ args.renamed returns.renamed
      · rw [Definition.locals_renamed]
        exact apart
      · rw [Module.find?_renamed, found, Option.map_some]

theorem Term.YieldsAll.renamed {self : Definition} {frame : Store Text}
    {terms : List Term} {values : List Value}
    (yields : Term.YieldsAll module self frame terms values) :
    Term.YieldsAll (module.map (Definition.renamed ctor)) (self.renamed ctor)
      frame terms values := by
  match yields with
  | .nil => exact .nil
  | .cons first rest => exact .cons first.renamed rest.renamed

theorem Stmt.Runs.renamed {self : Definition} {frame : Store Text}
    {stmts : List Stmt} {ending : Ending}
    (runs : Stmt.Runs module self frame stmts ending) :
    Stmt.Runs (module.map (Definition.renamed ctor)) (self.renamed ctor) frame
      (Stmt.renamedList ctor stmts) ending := by
  match runs with
  | .nil => exact .nil
  | .assign value rest => exact .assign value.renamed rest.renamed
  | .unpack found count rest => exact .unpack found count rest.renamed
  | .rebind values count rest => exact .rebind values.renamed count rest.renamed
  | .continue => exact .continue
  | .branch found chosen suite rest =>
      refine .branch found ?_ suite.renamed rest.renamed
      rw [Clause.chosen?_renamed, chosen, Option.map_some]
  | .branchRestart found chosen suite =>
      refine .branchRestart found ?_ suite.renamed
      rw [Clause.chosen?_renamed, chosen, Option.map_some]

theorem Definition.Loops.renamed {self : Definition} {frame : Store Text}
    {value : Value} (loops : Definition.Loops module self frame value) :
    Definition.Loops (module.map (Definition.renamed ctor)) (self.renamed ctor)
      frame value := by
  match loops with
  | .return body result => exact .return body.renamed result.renamed
  | .restart body rest => exact .restart body.renamed rest.renamed
  | .again body restarts rest => exact .again body.renamed restarts rest.renamed

theorem Definition.Returns.renamed {self : Definition} {args : List Value}
    {value : Value} (returns : Definition.Returns module self args value) :
    Definition.Returns (module.map (Definition.renamed ctor))
      (self.renamed ctor) args value := by
  match returns with
  | .enter count loops => exact .enter count loops.renamed

end

end Runs

end Code

namespace Function

open Code Code.Reading

variable {scope : List Var}

theorem exists_lines_of_isDefinedBy (options : ScriptOptions) {tags : TagTable}
    {function : Function} {definition : Definition}
    (defined : function.IsDefinedBy tags definition)
    (readable : definition.body.Readable scope) (ctor : Name) :
    ∃ lines, function.lines options tags = .ok lines ∧
      definition? scope ctor lines = some (definition.renamed ctor) := by
  obtain ⟨block, lowered, rfl⟩ := defined
  refine ⟨function.frame options (block.bodyLines (layout options)), ?_,
    definition?_frame ctor options function readable⟩
  rw [lines, lowered]
  rfl

/-- The functions that are read from the lines of a script return what the code
of its functions returns. -/
theorem exists_lines_returns (options : ScriptOptions) {tags : TagTable}
    {functions : List Function} {module : Module}
    (defined : List.Forall₂ (IsDefinedBy tags) functions module)
    (readable : ∀ definition ∈ module, definition.body.Readable scope)
    (ctor : Name) :
    ∃ texts read, List.Forall₂ (fun function texts =>
        function.lines options tags = .ok texts) functions texts ∧
      texts.mapM (definition? scope ctor) = some read ∧
      ∀ name definition, module.find? name = some definition →
        ∃ other, Module.find? read name = some other ∧ ∀ args value,
          definition.Returns module args value →
          other.Returns read args value := by
  have printed : ∃ texts, List.Forall₂ (fun function texts =>
      function.lines options tags = .ok texts) functions texts ∧
        texts.mapM (definition? scope ctor) =
          some (module.map (Definition.renamed ctor)) := by
    induction defined with
    | nil => exact ⟨[], .nil, rfl⟩
    | cons first _ ih =>
        obtain ⟨own, others⟩ := List.forall_mem_cons.mp readable
        obtain ⟨lines, print, read⟩ :=
          exists_lines_of_isDefinedBy options first own ctor
        obtain ⟨texts, prints, reads⟩ := ih others
        refine ⟨lines :: texts, .cons print prints, ?_⟩
        rw [List.mapM_cons, read, reads]
        rfl
  obtain ⟨texts, prints, reads⟩ := printed
  refine ⟨texts, _, prints, reads, fun name definition found => ?_⟩
  refine ⟨definition.renamed ctor, ?_, fun args value returns =>
    returns.renamed ctor⟩
  rw [Module.find?_renamed, found, Option.map_some]

end Function

end TailLoop
