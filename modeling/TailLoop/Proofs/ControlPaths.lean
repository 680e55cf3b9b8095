import TailLoop.Proofs.BlockGrammar

/-!
# Control paths

A path is a way that control takes through the lines of code.  At a test it goes
into the suite or on to the next test, and it ends where it returns, restarts
the function or fails.  The body of a function that is defined inside another
one has paths of its own.  The lines of a path stand in its order among the
printed lines.
-/

namespace TailLoop

namespace Code

/-- A line that control passes: what stands before the part that is evaluated,
this part, and the variables that the line assigns. -/
structure Visit where
  opening : Text
  reads : Text
  assigns : List Var

def Visit.line (visit : Visit) : Text :=
  visit.opening ++ visit.reads

/-- A way through statements, which may go on after them. -/
structure Path where
  visits : List Visit
  goesOn : Bool

namespace Path

/-- A way along one line. -/
def along (opening reads : Text) (assigns : List Var) : Path :=
  ⟨[⟨opening, reads, assigns⟩], true⟩

/-- A way that ends with a line. -/
def exit (reads : Text) : Path :=
  ⟨[⟨[], reads, []⟩], false⟩

def andThen (first second : Path) : Path :=
  ⟨first.visits ++ second.visits, second.goesOn⟩

/-- The ways through two parts of code, one after the other. -/
def sequel (firsts seconds : List Path) : List Path :=
  firsts.flatMap fun first => if first.goesOn then
    seconds.map first.andThen else [first]

@[simp] theorem andThen_assoc (first second third : Path) :
    (first.andThen second).andThen third =
      first.andThen (second.andThen third) := by
  rw [andThen, andThen, andThen, andThen, List.append_assoc]

@[simp] theorem sequel_assoc (firsts seconds thirds : List Path) :
    sequel (sequel firsts seconds) thirds =
      sequel firsts (sequel seconds thirds) := by
  rw [sequel, sequel, List.flatMap_assoc, sequel]
  congr 1
  funext first
  split
  · rw [List.flatMap_map, sequel, List.map_flatMap]
    congr 1
    funext second
    have same : (first.andThen second).goesOn = second.goesOn := rfl
    rw [same]
    split
    · rw [List.map_map]
      congr 1
      funext third
      exact andThen_assoc first second third
    · rfl
  · rename_i stops
    rw [List.flatMap_singleton, if_neg stops]

@[simp] theorem sequel_nil (paths : List Path) :
    sequel [⟨[], true⟩] paths = paths := by
  rw [sequel, List.flatMap_singleton, if_pos rfl]
  exact List.map_id _

end Path

namespace Stmt

mutual

/-- The ways through a statement.  The body of a definition is not entered. -/
def paths (layout : Layout) : Stmt → List Path
  | .assign target value =>
      [.along (target.identifier ++ " = ") (value.text layout.restart) [target]]
  | .unpack targets subject =>
      [.along (targetsText targets ++ " = ") (subject.identifier ++ "[1:]")
        (targets.map .named)]
  | .rebind targets values =>
      [.along (targetsText targets ++ " = ")
        (Text.join " " (values.map fun value =>
          value.text layout.restart ++ ","))
        (targets.map .named)]
  | .continue => [.exit "continue"]
  | .unreachable => [.exit unreachableText]
  | .branch subject clauses => clausesPaths layout subject true clauses
  | .define name params frozen _ _ =>
      [.along ("def " ++ name.identifier ++ "(") (paramsText params frozen ++
        "):") [name]]

def pathsList (layout : Layout) : List Stmt → List Path
  | [] => [⟨[], true⟩]
  | stmt :: stmts => Path.sequel (paths layout stmt) (pathsList layout stmts)

/-- The ways through a test: into its suite or, if it can fail, to the next
test. -/
def clausesPaths (layout : Layout) (subject : Var) (leading : Bool) :
    List Clause → List Path
  | [] => [⟨[], true⟩]
  | .mk guard body :: clauses =>
      let test : Path := .along [] (guard.header layout leading subject) []
      let next := if guard.isOtherwise then [] else
        clausesPaths layout subject false clauses
      (pathsList layout body ++ next).map test.andThen

end

@[simp] theorem pathsList_append (layout : Layout) (first second : List Stmt) :
    pathsList layout (first ++ second) =
      Path.sequel (pathsList layout first) (pathsList layout second) := by
  induction first with
  | nil => exact (Path.sequel_nil _).symm
  | cons stmt first ih =>
      rw [List.cons_append, pathsList, ih, pathsList, Path.sequel_assoc]

mutual

/-- The bodies of the functions that a statement defines, at any depth. -/
@[simp] def bodies : Stmt → List Block
  | .branch _ clauses => clausesBodies clauses
  | .define _ _ _ body result => ⟨body, result⟩ :: bodiesList body
  | _ => []

@[simp] def bodiesList : List Stmt → List Block
  | [] => []
  | stmt :: stmts => bodies stmt ++ bodiesList stmts

@[simp] def clausesBodies : List Clause → List Block
  | [] => []
  | .mk _ body :: clauses => bodiesList body ++ clausesBodies clauses

end

@[simp] theorem bodiesList_append (first second : List Stmt) :
    bodiesList (first ++ second) = bodiesList first ++ bodiesList second := by
  induction first with
  | nil => rfl
  | cons stmt first ih =>
      simp [ih]

@[simp] theorem clausesBodies_append (first second : List Clause) :
    clausesBodies (first ++ second) = clausesBodies first ++
      clausesBodies second := by
  induction first with
  | nil => rfl
  | cons clause first ih =>
      obtain ⟨guard, body⟩ := clause
      simp [ih]

end Stmt

/-- The lines on the ways through the body of a function, with the line that
returns. -/
def Block.runs (layout : Layout) (block : Block) : List (List Visit) :=
  (Stmt.pathsList layout block.statements).map fun path =>
    if path.goesOn then
      path.visits ++ [⟨"return ", block.value.text layout.restart, []⟩]
    else path.visits

end Code

open Code

/-- The lines on the ways through the loop of a function. -/
def Function.runs (options : ScriptOptions) (function : Function)
    (block : Block) :
    List (List Visit) :=
  let trace : List Visit := if options.trace then
    [⟨[], function.traceLine, []⟩] else []
  (block.runs (layout options)).map fun run => ⟨[], "while True:", []⟩ ::
    (trace ++ run)

namespace Code

/-- The lines stand in this order among the printed ones, each with some
indentation. -/
def Shown (visits : List Visit) (printed : List Text) : Prop :=
  ∃ lines, lines.Sublist printed ∧
    List.Forall₂ (fun visit line => ∃ depth,
      line = Draft.indentedBy depth visit.line) visits lines

namespace Shown

variable {visits others : List Visit} {printed further : List Text}

theorem nil (printed : List Text) : Shown [] printed :=
  ⟨[], List.nil_sublist printed, .nil⟩

theorem cons {visit : Visit} {line : Text} (same : visit.line = line)
    (shown : Shown visits printed) : Shown (visit :: visits)
    (line :: printed) := by
  obtain ⟨lines, among, each⟩ := shown
  exact ⟨line :: lines, among.cons_cons line, .cons ⟨0, same.symm⟩ each⟩

theorem within (shown : Shown visits printed) (part : printed.Sublist further) :
    Shown visits further := by
  obtain ⟨lines, among, each⟩ := shown
  exact ⟨lines, among.trans part, each⟩

theorem append (first : Shown visits printed) (second : Shown others further) :
    Shown (visits ++ others) (printed ++ further) := by
  obtain ⟨lines, among, each⟩ := first
  obtain ⟨later, amongLater, eachLater⟩ := second
  exact ⟨lines ++ later, among.append amongLater,
    List.rel_append each eachLater⟩

theorem indented (shown : Shown visits printed) :
    Shown visits (indented printed) := by
  obtain ⟨lines, among, each⟩ := shown
  refine ⟨Code.indented lines, among.map _,
    List.forall₂_map_right_iff.mpr (each.imp ?_)⟩
  rintro visit line ⟨depth, rfl⟩
  exact ⟨depth + 1, (List.append_assoc ..).symm⟩

end Shown

namespace Stmt

mutual

theorem shown_paths {layout : Layout} (stmt : Stmt) :
    ∀ path ∈ paths layout stmt, Shown path.visits (lines layout stmt) := by
  cases stmt with
  | assign target value =>
      exact List.forall_mem_singleton.mpr (.cons rfl (.nil _))
  | unpack targets subject =>
      refine List.forall_mem_singleton.mpr (.cons ?_ (.nil _))
      exact (List.append_assoc ..).symm
  | rebind targets values =>
      exact List.forall_mem_singleton.mpr (.cons rfl (.nil _))
  | «continue» => exact List.forall_mem_singleton.mpr (.cons rfl (.nil _))
  | unreachable => exact List.forall_mem_singleton.mpr (.cons rfl (.nil _))
  | branch subject clauses => exact shown_clausesPaths subject true clauses
  | define name params frozen body result =>
      refine List.forall_mem_singleton.mpr (.cons ?_ (.nil _))
      exact (List.append_assoc ..).symm

theorem shown_pathsList {layout : Layout} (stmts : List Stmt) :
    ∀ path ∈ pathsList layout stmts,
      Shown path.visits (linesList layout stmts) := by
  cases stmts with
  | nil => exact List.forall_mem_singleton.mpr (.nil _)
  | cons stmt stmts =>
      intro path member
      obtain ⟨first, inFirst, onward⟩ := List.mem_flatMap.mp member
      have firstShown := shown_paths stmt first inFirst
      split at onward
      · obtain ⟨second, inSecond, rfl⟩ := List.mem_map.mp onward
        exact firstShown.append (shown_pathsList stmts second inSecond)
      · cases List.mem_singleton.mp onward
        exact firstShown.within (List.sublist_append_left _ _)

theorem shown_clausesPaths {layout : Layout} (subject : Var) (leading : Bool)
    (clauses : List Clause) :
    ∀ path ∈ clausesPaths layout subject leading clauses,
      Shown path.visits (clausesLines layout subject leading clauses) := by
  cases clauses with
  | nil => exact List.forall_mem_singleton.mpr (.nil _)
  | cons clause clauses =>
      obtain ⟨guard, body⟩ := clause
      intro path member
      rw [clausesPaths] at member
      obtain ⟨rest, onward, rfl⟩ := List.mem_map.mp member
      refine .cons rfl ?_
      rcases List.mem_append.mp onward with inSuite | next
      · exact (shown_pathsList body rest inSuite).indented.within
          (List.sublist_append_left _ _)
      · split at next
        · cases next
        · exact (shown_clausesPaths subject false clauses rest next).within
            (List.sublist_append_right _ _)

end

theorem shown_runs {layout : Layout} {block : Block} :
    ∀ run ∈ block.runs layout, Shown run
      (linesList layout block.statements ++
        ["return " ++ block.value.text layout.restart]) := by
  intro run member
  obtain ⟨path, inPaths, rfl⟩ := List.mem_map.mp member
  have shown := shown_pathsList block.statements path inPaths
  split
  · exact shown.append (.cons rfl (.nil _))
  · exact shown.within (List.sublist_append_left _ _)

mutual

theorem shown_bodies {layout : Layout} (stmt : Stmt) :
    ∀ body ∈ bodies stmt, ∀ run ∈ body.runs layout,
      Shown run (lines layout stmt) := by
  cases stmt with
  | branch subject clauses => exact shown_clausesBodies subject true clauses
  | define name params frozen body result =>
      intro block member run inRuns
      have inside : Shown run
          (linesList layout body ++
            ["return " ++ result.text layout.restart]) := by
        rcases List.mem_cons.mp member with rfl | deeper
        · exact shown_runs run inRuns
        · exact (shown_bodiesList body block deeper run inRuns).within
            (List.sublist_append_left _ _)
      exact inside.indented.within (List.sublist_cons_self _ _)
  | _ => exact List.forall_mem_nil _

theorem shown_bodiesList {layout : Layout} (stmts : List Stmt) :
    ∀ body ∈ bodiesList stmts, ∀ run ∈ body.runs layout,
      Shown run (linesList layout stmts) := by
  cases stmts with
  | nil => exact List.forall_mem_nil _
  | cons stmt stmts =>
      intro body member run inRuns
      rcases List.mem_append.mp member with own | later
      · exact (shown_bodies stmt body own run inRuns).within
          (List.sublist_append_left _ _)
      · exact (shown_bodiesList stmts body later run inRuns).within
          (List.sublist_append_right _ _)

theorem shown_clausesBodies {layout : Layout} (subject : Var) (leading : Bool)
    (clauses : List Clause) : ∀ body ∈ clausesBodies clauses,
    ∀ run ∈ body.runs layout,
      Shown run (clausesLines layout subject leading clauses) := by
  cases clauses with
  | nil => exact List.forall_mem_nil _
  | cons clause clauses =>
      obtain ⟨guard, suite⟩ := clause
      intro body member run inRuns
      have inside : Shown run
          (indented (linesList layout suite) ++
            clausesLines layout subject false clauses) := by
        rcases List.mem_append.mp member with own | later
        · exact (shown_bodiesList suite body own run inRuns).indented.within
            (List.sublist_append_left _ _)
        · exact (shown_clausesBodies subject false clauses body later run
            inRuns).within (List.sublist_append_right _ _)
      exact inside.within (List.sublist_cons_self _ _)

end

end Stmt

end Code

namespace Function

variable {options : ScriptOptions} {function : Function} {block : Block}

theorem shown_frame {visits : List Visit} {body : List Text}
    (shown : Shown visits ("while True:" ::
      indented ((if options.trace then [function.traceLine] else []) ++
        body))) :
    Shown visits (function.frame options body) := by
  rw [frame_eq]
  exact shown.indented.within
    ((List.sublist_cons_self _ _).trans (List.sublist_append_right _ _))

theorem shown_bodies {body : Block}
    (member : body ∈ Stmt.bodiesList block.statements) :
    ∀ run ∈ body.runs (layout options),
      Shown run
        (function.frame options (block.bodyLines (layout options))) := by
  intro run inRuns
  have among : Shown run (block.bodyLines (layout options)) :=
    (Stmt.shown_bodiesList block.statements body member run inRuns).within
      (List.sublist_append_left _ _)
  apply shown_frame
  exact (among.within (List.sublist_append_right _ _)).indented.within
    (List.sublist_cons_self _ _)

/-- The ways through the loop of a function are printed, if none of them goes on
to the return of a value that is not there. -/
theorem shown_runs
    (returns : ∀ path ∈ Stmt.pathsList (layout options) block.statements,
      path.goesOn = true → block.value.isRestart = false) :
    ∀ run ∈ function.runs options block,
      Shown run
        (function.frame options (block.bodyLines (layout options))) := by
  intro run member
  obtain ⟨own, inRuns, rfl⟩ := List.mem_map.mp member
  have inBody : Shown own (block.bodyLines (layout options)) := by
    obtain ⟨path, inPaths, rfl⟩ := List.mem_map.mp inRuns
    have shown := Stmt.shown_pathsList block.statements path inPaths
    rw [Block.bodyLines]
    by_cases goesOn : path.goesOn = true
    · rw [if_pos goesOn, returns path inPaths goesOn]
      exact shown.append (.cons rfl (.nil _))
    · rw [if_neg goesOn]
      exact shown.within (List.sublist_append_left _ _)
  apply shown_frame
  refine .cons rfl (Shown.indented (Shown.append ?_ inBody))
  split
  · exact .cons rfl (.nil _)
  · exact .nil _

end Function

end TailLoop
