import TailLoop.Code.Print
import TailLoop.TagTable

/-!
# Drafts

A draft takes lines at its current indentation and hands out temporaries.  Work
inside a block leaves the draft as it found it, but for the lines it added and
the temporaries it took, also where it fails.
-/

namespace TailLoop.Code

structure Draft where
  lines : List Text
  indent : Nat
  /-- The number of the next temporary. -/
  next : Nat

namespace Draft

def empty : Draft := ⟨[], 0, 1⟩

/-- A line some steps further in. -/
def indentedBy (steps : Nat) (line : Text) : Text :=
  (List.replicate steps indentation).flatten ++ line

def emit (line : Text) (draft : Draft) : Draft :=
  { draft with lines := draft.lines ++ [indentedBy draft.indent line] }

def emitAll (lines : List Text) (draft : Draft) : Draft :=
  lines.foldl (fun draft line => draft.emit line) draft

def fresh (draft : Draft) : Var × Draft :=
  (.slot (-(draft.next : Int)), { draft with next := draft.next + 1 })

/-- Does some work one step further in. -/
def within {α : Type} (work : Draft → α × Draft) (draft : Draft) : α × Draft :=
  let (result, after) := work { draft with indent := draft.indent + 1 }
  (result, { after with indent := after.indent - 1 })

/-- Does some work on a sheet of its own, and hands over the lines written
there. -/
def aside {α : Type} (work : Draft → α × Draft) (draft : Draft) :
    (α × List Text) × Draft :=
  let (result, after) := work { draft with lines := [], indent := 0 }
  ((result, after.lines),
    { after with lines := draft.lines, indent := draft.indent })

inductive Step where
  | emit (line : Text)
  | emitAll (lines : List Text)
  | fresh
  | tagOf (ctor : Name)
  | result (value : Text)
  | indented (steps : List Step)
  | capture (steps : List Step)

/-- What a step yields. -/
inductive Outcome where
  | nothing
  | temporary (var : Var)
  | tag (tag : Int)
  | emission (statements : List Text) (value : Text)
  | captured (lines : List Text)
  | undeclared (ctor : Name)

/-- A step that was made, and the lines after it. -/
structure Entry where
  step : Step
  outcome : Outcome
  lines : List Text

/-- The steps made so far, and the constructor without a tag that ended the
work. -/
abbrev Progress := List Entry × Option Name

mutual

/-- Makes a step.  A constructor without a tag ends the step and all blocks
around it. -/
def Step.perform (tags : TagTable) : Step → Draft → Progress × Draft
  | .emit line, draft =>
      let draft := draft.emit line
      (([⟨.emit line, .nothing, draft.lines⟩], none), draft)
  | .emitAll lines, draft =>
      let draft := draft.emitAll lines
      (([⟨.emitAll lines, .nothing, draft.lines⟩], none), draft)
  | .fresh, draft =>
      let (var, draft) := draft.fresh
      (([⟨.fresh, .temporary var, draft.lines⟩], none), draft)
  | .tagOf ctor, draft =>
      match tags.tagOf? ctor with
      | some tag => (([⟨.tagOf ctor, .tag tag, draft.lines⟩], none), draft)
      | none => (([], some ctor), draft)
  | .result value, draft =>
      (([⟨.result value, .emission draft.lines value, draft.lines⟩], none),
        draft)
  | .indented steps, draft =>
      let ((log, failure), draft) := draft.within (performAll tags steps)
      match failure with
      | none =>
          ((log ++ [⟨.indented steps, .nothing, draft.lines⟩], none), draft)
      | some ctor => ((log, some ctor), draft)
  | .capture steps, draft =>
      let (((log, failure), lines), draft) :=
        draft.aside (performAll tags steps)
      match failure with
      | none =>
          ((log ++ [⟨.capture steps, .captured lines, draft.lines⟩], none),
            draft)
      | some ctor => ((log, some ctor), draft)

def Step.performAll (tags : TagTable) : List Step → Draft → Progress × Draft
  | [], draft => (([], none), draft)
  | step :: steps, draft =>
      match step.perform tags draft with
      | ((log, none), draft) =>
          let ((further, failure), draft) := performAll tags steps draft
          ((log ++ further, failure), draft)
      | ((log, some ctor), draft) => ((log, some ctor), draft)

end

/-- Makes one step after the other; a step that fails is logged as such. -/
def play (tags : TagTable) : List Step → Draft → List Entry
  | [], _ => []
  | step :: steps, draft =>
      match step.perform tags draft with
      | ((log, none), draft) => log ++ play tags steps draft
      | ((log, some ctor), draft) =>
          log ++ ⟨step, .undeclared ctor, draft.lines⟩ :: play tags steps draft

end Draft

end TailLoop.Code
