import Mathlib.Data.List.Nodup
import TailLoop.Proofs.OwnVariables

/-!
# Drafts after blocks

A script comes to a row of acts in the order in which they are made: its steps
without blocks, and the ends of its blocks.  A run makes the acts up to the
first constructor without a tag, which ends the blocks around it as well.
Wherever it stops, the draft has the indentation it had before.  The acts
outside of captures have added their lines to its sheet, and every temporary
that was taken is used up, also those taken inside of captures.
-/

namespace TailLoop.Code.Draft

/-- A step without a block, or the end of a step with one. -/
structure Act where
  step : Step
  indent : Nat
  /-- Whether there is a capture around the act. -/
  aside : Bool

namespace Act

def putAside (act : Act) : Act :=
  { act with aside := true }

/-- The constructor without a tag that the act asks for. -/
def fault? (tags : TagTable) (act : Act) : Option Name :=
  match act.step with
  | .tagOf ctor => if (tags.tagOf? ctor).isSome then none else some ctor
  | _ => none

/-- The lines that the act adds to the sheet of the script. -/
def lines (act : Act) : List Text :=
  match act.aside, act.step with
  | false, .emit line => movedIn (4 * act.indent) [line]
  | false, .emitAll lines => movedIn (4 * act.indent) lines
  | _, _ => []

def isFresh (act : Act) : Bool :=
  match act.step with
  | .fresh => true
  | _ => false

end Act

mutual

/-- What a step comes to at an indentation.  A capture starts again at the
margin. -/
def Step.acts (indent : Nat) : Step → List Act
  | .indented steps =>
      actsAll (indent + 1) steps ++ [⟨.indented steps, indent, false⟩]
  | .capture steps =>
      (actsAll 0 steps).map Act.putAside ++ [⟨.capture steps, indent, false⟩]
  | step => [⟨step, indent, false⟩]

def Step.actsAll (indent : Nat) : List Step → List Act
  | [] => []
  | step :: steps => step.acts indent ++ actsAll indent steps

end

/-- The block that is captured when the act is the end of a capture. -/
def Act.block? (act : Act) : Option (List Text) :=
  match act.step with
  | .capture steps => some ((Step.actsAll 0 steps).flatMap Act.lines)
  | _ => none

/-- The acts before the first that asks for a constructor without a tag. -/
def made (tags : TagTable) (acts : List Act) : List Act :=
  acts.takeWhile fun act => (act.fault? tags).isNone

/-- The acts of steps of which each is tried, whether the ones before it failed
or not. -/
def madeEach (tags : TagTable) (indent : Nat) (steps : List Step) : List Act :=
  steps.flatMap fun step => made tags (step.acts indent)

/-- How many temporaries the acts take. -/
def taken (acts : List Act) : Nat :=
  acts.countP Act.isFresh

/-- The draft after acts: their lines are added, and their temporaries are used
up. -/
def extended (acts : List Act) (draft : Draft) : Draft where
  lines := draft.lines ++ acts.flatMap Act.lines
  indent := draft.indent
  next := draft.next + taken acts

def Entry.temporary? (entry : Entry) : Option Var :=
  match entry.outcome with
  | .temporary var => some var
  | _ => none

def Entry.block? (entry : Entry) : Option (List Text) :=
  match entry.outcome with
  | .captured lines => some lines
  | _ => none

def temporariesFrom (first count : Nat) : List Var :=
  (List.range' first count).map fun (number : Nat) => .slot (-(number : Int))

section

variable {tags : TagTable} {acts : List Act} (others : List Act)

theorem made_append_of_faultless (faultless : acts.findSome? (Act.fault? tags) =
    none) :
    made tags (acts ++ others) = acts ++ made tags others := by
  rw [List.findSome?_eq_none_iff] at faultless
  refine List.takeWhile_append_of_pos fun act member => ?_
  rw [faultless act member]
  rfl

theorem made_of_faultless (faultless : acts.findSome? (Act.fault? tags) =
    none) :
    made tags acts = acts := by
  have alone := made_append_of_faultless [] faultless
  rwa [List.append_nil, show made tags [] = [] from rfl, List.append_nil]
    at alone

/-- What stands behind a constructor without a tag is not made. -/
theorem made_append_of_fault {ctor : Name}
    (fault : acts.findSome? (Act.fault? tags) = some ctor) :
    made tags (acts ++ others) = made tags acts := by
  induction acts with
  | nil => cases fault
  | cons act acts ih =>
      rw [made, made, List.cons_append, List.takeWhile_cons,
        List.takeWhile_cons]
      rw [List.findSome?_cons] at fault
      cases own : act.fault? tags with
      | some ctor => rfl
      | none =>
          rw [own] at fault
          exact congrArg (act :: ·) (ih fault)

end

@[simp] theorem made_putAside (tags : TagTable) (acts : List Act) :
    made tags (acts.map Act.putAside) = (made tags acts).map Act.putAside :=
  List.takeWhile_map ..

@[simp] theorem taken_putAside (acts : List Act) :
    taken (acts.map Act.putAside) = taken acts :=
  List.countP_map ..

/-- Lines put aside do not reach the sheet of the draft. -/
@[simp] theorem lines_putAside (acts : List Act) :
    (acts.map Act.putAside).flatMap Act.lines = [] := by
  rw [List.flatMap_map, List.flatMap_eq_nil_iff]
  intro act _
  rfl

@[simp] theorem extended_nil (draft : Draft) : draft.extended [] = draft := by
  rw [extended, List.flatMap_nil, List.append_nil]
  rfl

@[simp] theorem extended_append (acts others : List Act) (draft : Draft) :
    draft.extended (acts ++ others) =
      (draft.extended acts).extended others := by
  simp only [extended, taken, List.flatMap_append, List.countP_append,
    List.append_assoc, Nat.add_assoc]

/-- An act that is quiet leaves the draft as it is. -/
theorem extended_quiet {act : Act} (lines : act.lines = [])
    (notFresh : act.isFresh = false) (draft : Draft) :
    draft.extended [act] = draft := by
  rw [extended, taken, List.flatMap_singleton, lines, List.append_nil,
    List.countP_singleton, notFresh]
  rfl

theorem temporariesFrom_add (first count further : Nat) :
    temporariesFrom first (count + further) =
      temporariesFrom first count ++
        temporariesFrom (first + count) further := by
  rw [temporariesFrom, ← List.range'_append_1, List.map_append]
  rfl

theorem nodup_temporariesFrom (first count : Nat) :
    (temporariesFrom first count).Nodup := by
  refine List.Nodup.map (fun number other same => ?_) List.nodup_range'
  injection same with same
  omega

theorem indentedBy_eq (steps : Nat) (line : Text) :
    indentedBy steps line = margin (4 * steps) ++ line := by
  have blanks : indentation = margin 4 := rfl
  rw [indentedBy, blanks, margin, List.flatten_replicate_replicate,
    Nat.mul_comm, margin]

@[simp] theorem lines_emitAll (block : List Text) (draft : Draft) :
    (draft.emitAll block).lines = draft.lines ++
      movedIn (4 * draft.indent) block := by
  rw [emitAll_eq, movedIn, ← funext (indentedBy_eq draft.indent)]

theorem emitAll_eq_extended (block : List Text) (draft : Draft) :
    draft.emitAll block =
      draft.extended [⟨.emitAll block, draft.indent, false⟩] := by
  rw [emitAll_eq, funext (indentedBy_eq draft.indent), extended,
    List.flatMap_singleton]
  rfl

/-- The run makes the acts in front of the first constructor without a tag, and
fails with that constructor if there is one.  Each act that was made has its
entry, in which a temporary is the next one and a capture shows the lines
written inside of it. -/
structure CarriesOut (tags : TagTable) (acts : List Act) (draft : Draft)
    (run : Progress × Draft) : Prop where
  failure : run.1.2 = acts.findSome? (Act.fault? tags)
  steps : run.1.1.map Entry.step = (made tags acts).map Act.step
  temporaries : run.1.1.filterMap Entry.temporary? =
    temporariesFrom draft.next (taken (made tags acts))
  blocks : run.1.1.filterMap Entry.block? =
    (made tags acts).filterMap Act.block?
  /-- The draft that is left. -/
  leaves : run.2 = draft.extended (made tags acts)

namespace CarriesOut

variable {tags : TagTable} {acts others : List Act} {draft middle after : Draft}
  {log further : List Entry} {failure : Option Name}

theorem nil (tags : TagTable) (draft : Draft) :
    CarriesOut tags [] draft (([], none), draft) where
  failure := rfl
  steps := rfl
  temporaries := rfl
  blocks := rfl
  leaves := (extended_nil draft).symm

section

variable {act : Act} {outcome : Outcome} {shown : List Text}

/-- An act that is made. -/
theorem single (faultless : act.fault? tags = none)
    (temporaries : [⟨act.step, outcome, shown⟩].filterMap Entry.temporary? =
      temporariesFrom draft.next (taken [act]))
    (blocks : Entry.block? ⟨act.step, outcome, shown⟩ = act.block?)
    (leaves : after = draft.extended [act]) :
    CarriesOut tags [act] draft (([⟨act.step, outcome, shown⟩], none),
      after) := by
  have failure : [act].findSome? (Act.fault? tags) = none := by
    rw [List.findSome?_singleton, faultless]
  have all := made_of_faultless failure
  constructor
  case failure => exact failure.symm
  case steps => rw [all]; rfl
  case temporaries => rw [all]; exact temporaries
  case blocks => rw [all, List.filterMap_cons, List.filterMap_cons, blocks]; rfl
  case leaves => rw [all]; exact leaves

/-- An act that is made and writes nothing, such as the end of a block. -/
theorem quiet (faultless : act.fault? tags = none) (lines : act.lines = [])
    (notFresh : act.isFresh = false)
    (temporary : Entry.temporary? ⟨act.step, outcome, shown⟩ = none)
    (blocks : Entry.block? ⟨act.step, outcome, shown⟩ = act.block?) :
    CarriesOut tags [act] draft (([⟨act.step, outcome, shown⟩], none),
      draft) := by
  have taken : taken [act] = 0 := by
    rw [Draft.taken, List.countP_singleton, notFresh]
    rfl
  refine .single faultless ?_ blocks (extended_quiet lines notFresh draft).symm
  rw [taken, List.filterMap_cons, temporary]
  rfl

/-- An act that asks for a constructor without a tag. -/
theorem stop {ctor : Name} (fault : act.fault? tags = some ctor) :
    CarriesOut tags [act] draft (([], some ctor), draft) := by
  have nothing : made tags [act] = [] := by
    rw [made, List.takeWhile_cons, fault]
    rfl
  constructor
  case failure => rw [List.findSome?_singleton, fault]
  case steps => rw [nothing]; rfl
  case temporaries => rw [nothing]; rfl
  case blocks => rw [nothing]; rfl
  case leaves => rw [nothing]; exact (extended_nil draft).symm

end

theorem append (first : CarriesOut tags acts draft ((log, none), middle))
    (second : CarriesOut tags others middle ((further, failure), after)) :
    CarriesOut tags (acts ++ others) draft ((log ++ further, failure),
      after) := by
  have faultless := first.failure.symm
  have all := made_of_faultless faultless
  have both := made_append_of_faultless others faultless
  have between : middle = draft.extended acts := all ▸ first.leaves
  constructor
  case failure => rw [List.findSome?_append, faultless]; exact second.failure
  case steps => rw [both, List.map_append, List.map_append, second.steps,
    first.steps, all]
  case temporaries =>
    rw [both, taken, List.countP_append, temporariesFrom_add,
      List.filterMap_append, first.temporaries, second.temporaries, between,
      all]
    rfl
  case blocks =>
    rw [both, List.filterMap_append, List.filterMap_append, first.blocks,
      second.blocks, all]
  case leaves => rw [both, extended_append, ← between]; exact second.leaves

/-- A run that failed makes none of the acts that would have followed. -/
theorem cut {ctor : Name}
    (stopped : CarriesOut tags acts draft ((log, some ctor), after))
    (others : List Act) :
    CarriesOut tags (acts ++ others) draft ((log, some ctor), after) := by
  have fault := stopped.failure.symm
  have same := made_append_of_fault others fault
  constructor
  case failure => rw [List.findSome?_append, fault]; rfl
  case steps => rw [same]; exact stopped.steps
  case temporaries => rw [same]; exact stopped.temporaries
  case blocks => rw [same]; exact stopped.blocks
  case leaves => rw [same]; exact stopped.leaves

variable {run : Progress × Draft}

theorem within
    (inner : CarriesOut tags acts { draft with indent := draft.indent + 1 }
      run) :
    CarriesOut tags acts draft (run.1,
      { run.2 with indent := run.2.indent - 1 }) where
  failure := inner.failure
  steps := inner.steps
  temporaries := inner.temporaries
  blocks := inner.blocks
  leaves := by rw [inner.leaves]; rfl

theorem aside
    (inner : CarriesOut tags acts { draft with lines := [], indent := 0 } run) :
    CarriesOut tags (acts.map Act.putAside) draft
      (run.1, { run.2 with lines := draft.lines, indent := draft.indent }) := by
  have same := made_putAside tags acts
  constructor
  case failure => rw [List.findSome?_map]; exact inner.failure
  case steps => rw [same, List.map_map]; exact inner.steps
  case temporaries => rw [same, taken_putAside]; exact inner.temporaries
  case blocks => rw [same, List.filterMap_map]; exact inner.blocks
  case leaves =>
    rw [same, inner.leaves, extended, extended, lines_putAside, taken_putAside,
      List.append_nil]

end CarriesOut

mutual

/-- A step carries out what it comes to, at the indentation of the draft. -/
theorem Step.perform_carriesOut (tags : TagTable) (step : Step)
    (draft : Draft) :
    CarriesOut tags (step.acts draft.indent) draft
      (step.perform tags draft) := by
  cases step with
  | emit line => exact .single rfl rfl rfl (emitAll_eq_extended [line] draft)
  | emitAll lines => exact .single rfl rfl rfl (emitAll_eq_extended lines draft)
  | fresh =>
      have kept :
          draft.fresh.2 = draft.extended [⟨.fresh, draft.indent, false⟩] := by
        simp [Draft.fresh, extended, taken, Act.lines, Act.isFresh]
      exact .single rfl rfl rfl kept
  | result value => exact .quiet rfl rfl rfl rfl rfl
  | tagOf ctor =>
      rw [Step.perform]
      change CarriesOut tags [⟨.tagOf ctor, draft.indent, false⟩] draft _
      cases found : tags.tagOf? ctor with
      | some tag =>
          have faultless :
              Act.fault? tags ⟨.tagOf ctor, draft.indent, false⟩ = none := by
            simp [Act.fault?, found]
          exact .quiet faultless rfl rfl rfl rfl
      | none =>
          have fault : Act.fault? tags ⟨.tagOf ctor, draft.indent, false⟩ =
              some ctor := by
            simp [Act.fault?, found]
          exact .stop fault
  | indented steps =>
      have inner := (Step.performAll_carriesOut tags steps
        { draft with indent := draft.indent + 1 }).within
      rw [Step.perform, Step.acts, Draft.within]
      generalize Step.performAll tags steps
        { draft with indent := draft.indent + 1 } = run at inner
      obtain ⟨⟨log, failure⟩, after⟩ := run
      cases failure with
      | none => exact inner.append (.quiet rfl rfl rfl rfl rfl)
      | some ctor => exact inner.cut _
  | capture steps =>
      have inner :=
        Step.performAll_carriesOut tags steps
          { draft with lines := [], indent := 0 }
      have outer := inner.aside
      rw [Step.perform, Step.acts, Draft.aside]
      generalize Step.performAll tags steps
        { draft with lines := [], indent := 0 } = run
        at inner outer
      obtain ⟨⟨log, failure⟩, after⟩ := run
      cases failure with
      | none =>
          have block :
              after.lines = (Step.actsAll 0 steps).flatMap Act.lines := by
            rw [← made_of_faultless inner.failure.symm]
            exact congrArg Draft.lines inner.leaves
          exact outer.append (.quiet rfl rfl rfl rfl (congrArg some block))
      | some ctor => exact outer.cut _

theorem Step.performAll_carriesOut (tags : TagTable) (steps : List Step)
    (draft : Draft) :
    CarriesOut tags (Step.actsAll draft.indent steps) draft
      (Step.performAll tags steps draft) := by
  cases steps with
  | nil => exact .nil tags draft
  | cons step steps =>
      have first := Step.perform_carriesOut tags step draft
      rw [Step.performAll, Step.actsAll]
      generalize step.perform tags draft = run at first
      obtain ⟨⟨log, failure⟩, middle⟩ := run
      cases failure with
      | none =>
          obtain rfl : middle = _ := first.leaves
          have second := Step.performAll_carriesOut tags steps
            (draft.extended (made tags (step.acts draft.indent)))
          exact first.append second
      | some ctor => exact first.cut _

end

/-- A constructor without a tag ends the capture and the block around it.  The
indentation is the one before them, the captured line is gone, and both
temporaries stay taken. -/
example :
    let steps : List Step :=
      [.emit "a",
        .indented [.emit "b", .fresh,
          .capture [.emit "c", .fresh, .tagOf (.user "D")]], .emit "d"]
    (Step.performAll .empty steps ⟨["x"], 1, 5⟩).2 =
      ⟨["x", "    a", "        b"], 1, 7⟩ := by
  rfl

@[simp] theorem lines_capture (tags : TagTable) (steps : List Step)
    (draft : Draft) :
    ((Step.capture steps).perform tags draft).2.lines = draft.lines := by
  rw [Step.perform, Draft.aside]
  generalize Step.performAll tags steps
    { draft with lines := [], indent := 0 } = run
  obtain ⟨⟨log, failure⟩, after⟩ := run
  cases failure with
  | none => rfl
  | some ctor => rfl

section

variable (tags : TagTable) (step : Step) (steps further : List Step)
    (draft : Draft)

theorem madeEach_cons : madeEach tags draft.indent (step :: steps) =
    made tags (step.acts draft.indent) ++ madeEach tags draft.indent steps :=
  List.flatMap_cons ..

/-- Whether a step fails or not, the script goes on from the draft that the step
leaves. -/
theorem exists_round : ∃ round : List Entry,
    round.filterMap Entry.temporary? =
      temporariesFrom draft.next (taken (made tags (step.acts draft.indent))) ∧
    ∀ later, play tags (step :: later) draft =
      round ++
        play tags later
          (draft.extended (made tags (step.acts draft.indent))) := by
  have carried := Step.perform_carriesOut tags step draft
  simp only [play]
  generalize step.perform tags draft = run at carried
  obtain ⟨⟨log, failure⟩, after⟩ := run
  rw [← carried.leaves]
  cases failure with
  | none => exact ⟨log, carried.temporaries, fun later => rfl⟩
  | some ctor =>
      refine ⟨log ++ [⟨step, .undeclared ctor, after.lines⟩], ?_, fun later =>
        ?_⟩
      · rw [List.filterMap_append]
        exact (List.append_nil _).trans carried.temporaries
      · rw [List.append_assoc]
        rfl

@[simp] theorem play_append : play tags (steps ++ further) draft =
    play tags steps draft ++
      play tags further
        (draft.extended (madeEach tags draft.indent steps)) := by
  induction steps generalizing draft with
  | nil => exact congrArg (play tags further) (extended_nil draft).symm
  | cons step steps ih =>
      obtain ⟨round, -, goesOn⟩ := exists_round tags step draft
      rw [List.cons_append, goesOn, goesOn, ih, List.append_assoc,
        madeEach_cons, extended_append]
      rfl

theorem temporaries_play : (play tags steps draft).filterMap Entry.temporary? =
    temporariesFrom draft.next (taken (madeEach tags draft.indent steps)) := by
  induction steps generalizing draft with
  | nil => rfl
  | cons step steps ih =>
      obtain ⟨round, temporaries, goesOn⟩ := exists_round tags step draft
      rw [goesOn, List.filterMap_append, temporaries, ih, madeEach_cons, taken,
        taken, taken, List.countP_append, temporariesFrom_add]
      rfl

end

/-- The lines of a function are its captured body emitted again below its
header. -/
theorem emitAll_define (layout : Layout) (name : Var) (params : List Name)
    (frozen : List Var) (body : List Stmt) (result : Term) (draft : Draft) :
    draft.emitAll ((Stmt.define name params frozen body result).lines layout) =
      ((draft.emit ("def " ++ name.identifier ++ "(" ++
        paramsText params frozen ++ "):")).within
        fun inner => ((), (inner.emitAll (Stmt.linesList layout body)).emit
          ("return " ++ result.text layout.restart))).2 := by
  rw [Stmt.lines, emitAll_eq, List.map_cons, map_indented]
  simp only [within, emit, emitAll_eq, List.map_append, List.map_cons,
    List.map_nil, List.append_assoc, List.cons_append, List.nil_append,
    Nat.add_sub_cancel]

end TailLoop.Code.Draft

namespace TailLoop

open Code Code.Draft

/-- Whether a script gets to its end or not, its blocks leave the draft as they
found it, but for the lines outside of captures and the temporaries that were
taken.  No temporary is handed out twice, and a block that is emitted again
keeps its lines, four blanks further in for every step of indentation. -/
theorem blocks_restore_drafts (tags : TagTable) (steps : List Step)
    (draft : Draft) :
    CarriesOut tags (Step.actsAll draft.indent steps) draft
      (Step.performAll tags steps draft) ∧
      ((Step.capture steps).perform tags draft).2.lines = draft.lines ∧
      (∀ further, play tags (steps ++ further) draft =
        play tags steps draft ++
          play tags further
            (draft.extended (madeEach tags draft.indent steps))) ∧
      (play tags steps draft).filterMap Entry.temporary? =
        temporariesFrom draft.next (taken (madeEach tags draft.indent steps)) ∧
      ((play tags steps draft).filterMap Entry.temporary?).Nodup ∧
      (∀ block, (draft.emitAll block).lines =
        draft.lines ++ movedIn (4 * draft.indent) block) ∧
      ∀ layout name params frozen body result,
        draft.emitAll
          ((Stmt.define name params frozen body result).lines layout) =
          ((draft.emit
              ("def " ++ name.identifier ++ "(" ++ paramsText params frozen ++
                "):")).within
            fun inner => ((), (inner.emitAll (Stmt.linesList layout body)).emit
              ("return " ++ result.text layout.restart))).2 := by
  have temporaries := temporaries_play tags steps draft
  refine ⟨Step.performAll_carriesOut tags steps draft,
    lines_capture tags steps draft, fun further =>
      play_append tags steps further draft, temporaries, ?_,
    fun block => lines_emitAll block draft, ?_⟩
  · rw [temporaries]
    exact nodup_temporariesFrom ..
  · intro layout name params frozen body result
    exact emitAll_define layout name params frozen body result draft

end TailLoop
