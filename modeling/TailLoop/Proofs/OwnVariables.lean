import TailLoop.Core.FreeVars
import TailLoop.Proofs.BlockGrammar
import TailLoop.Proofs.LoweringWrites
import TailLoop.Proofs.SelfContainedCode
import TailLoop.Proofs.WordsOfCode

/-!
# Variables of one's own

The variables that a printed line assigns can be read off its text: the words
in front of an equals sign outside of brackets, the word in front of each `:=`,
and the name after `def`.  The lines below a `def` that are further in belong
to another function.  What is read off the lines of lowered code are
temporaries that were handed out for it, names that the expression binds and,
only if it restarts the function, parameters.  Distinct variables have distinct
identifiers, so other variables keep their values.

The name of a foreign function stands in the code as it is.  One that is code
itself may assign any variable, so such names are excluded.
-/

namespace TailLoop

open Lexical (Scan Place Moves Neutral words)

namespace Code

def isBlank (c : CodePoint) : Bool :=
  c = ' '

/-- How far a line is indented. -/
def depth (line : Text) : Nat :=
  (line.takeWhile isBlank).length

/-- A line without its indentation. -/
def content (line : Text) : Text :=
  line.dropWhile isBlank

/-- The name of the function that a line starts to define. -/
def definedName? (statement : Text) : Option Text :=
  if statement.firstWord = "def" then
    some (Text.firstWord (statement.drop 4))
  else none

/-- The text ends with one of the code points. -/
def endsIn (points text : Text) : Bool :=
  text.getLast?.any points.contains

/-- An equals sign between these is part of a comparison. -/
def isCompared (row rest : Text) : Bool :=
  endsIn "=!<>" row || (Text.ofString "=").isPrefixOf rest

/-- The variables that code assigns: the words in front of each equals sign
outside of brackets, but for comparisons, and the word in front of each `:=`.
The row is what was read since the last such sign outside of brackets or since
the statement started, with a blank for each literal. -/
def assignedFrom (scan : Scan) (row : Text) : Text → List Text
  | [] => []
  | c :: text =>
      match Lexical.step scan c with
      | none => []
      | some next =>
          if scan.mode.isOutside then
            if c = ';' && scan.brackets.isEmpty then assignedFrom next [] text
            else if c = '=' && endsIn ":" row then
              (words row).getLast?.toList ++
                assignedFrom next (row ++ [c]) text
            else if c = '=' && scan.brackets.isEmpty &&
                !isCompared row text then
              words row ++ assignedFrom next [] text
            else if (Lexical.Quote.of? c).isSome then
              assignedFrom next (row ++ " ") text
            else assignedFrom next (row ++ [c]) text
          else assignedFrom next row text

/-- The variables that a line assigns or defines. -/
def targets (statement : Text) : List Text :=
  (definedName? statement).toList ++ assignedFrom ⟨.code, []⟩ [] statement

example : targets "a = b, c = f(d=(e := 1) == 2, g='h = 3'); i = 4" =
    (["a", "b", "c", "e", "i"] : List Text) := by
  decide +kernel

/-- The variables that lines assign or define.  Lines further in than the start
of a function that stands before them belong to its body. -/
def targetsOutside (function : Option Nat) : List Text → List Text
  | [] => []
  | line :: lines =>
      if function.any (· < depth line) then targetsOutside function lines
      else
        targets (content line) ++
          targetsOutside ((definedName? (content line)).map fun _ => depth line)
            lines

example : targetsOutside none
    ["if ir_x == 0:", "    ir_a, ir_b, = ir_x[1:]", "    def aux1(ir_y):",
      "        aux2 = ir_y", "        return aux2", "    loc3 = aux1"] =
    (["ir_a", "ir_b", "aux1", "loc3"] : List Text) := by
  decide +kernel

def margin (blanks : Nat) : Text :=
  List.replicate blanks ' '

/-- Lines moved in by a number of blanks. -/
def movedIn (blanks : Nat) (lines : List Text) : List Text :=
  lines.map (margin blanks ++ ·)

@[simp] theorem movedIn_zero (lines : List Text) : movedIn 0 lines = lines :=
  List.map_id lines

@[simp] theorem movedIn_append (blanks : Nat) (first second : List Text) :
    movedIn blanks (first ++ second) =
      movedIn blanks first ++ movedIn blanks second :=
  List.map_append

@[simp] theorem movedIn_indented (blanks : Nat) (lines : List Text) :
    movedIn blanks (indented lines) = movedIn (blanks + 4) lines := by
  have further : margin (blanks + 4) = margin blanks ++ indentation :=
    List.replicate_add ..
  rw [movedIn, movedIn, indented, List.map_map, further]
  refine List.map_congr_left fun line _ => ?_
  exact (List.append_assoc ..).symm

theorem isBlank_of_mem_margin {blanks : Nat} :
    ∀ c ∈ margin blanks, isBlank c = true := by
  intro c member
  rw [List.eq_of_mem_replicate member]
  rfl

theorem le_depth (blanks : Nat) (line : Text) :
    blanks ≤ depth (margin blanks ++ line) := by
  rw [depth, List.takeWhile_append_of_pos isBlank_of_mem_margin,
    List.length_append, margin, List.length_replicate]
  exact Nat.le_add_right ..

section

variable {line : Text} (visible : Text.Stops isBlank line) (blanks : Nat)

include visible

@[simp] theorem depth_margin : depth (margin blanks ++ line) = blanks := by
  rw [depth, Text.takeWhile_row isBlank_of_mem_margin visible, margin,
    List.length_replicate]

@[simp] theorem content_margin : content (margin blanks ++ line) = line :=
  Text.dropWhile_row isBlank_of_mem_margin visible

end

/-- The body of a function is passed over. -/
theorem targetsOutside_body {outer blanks : Nat} (further : outer < blanks)
    (body rest : List Text) :
    targetsOutside (some outer) (movedIn blanks body ++ rest) =
      targetsOutside (some outer) rest := by
  induction body with
  | nil => rfl
  | cons line body ih =>
      have inside : outer < depth (margin blanks ++ line) :=
        Nat.lt_of_lt_of_le further (le_depth blanks line)
      rw [← ih, movedIn, List.map_cons, List.cons_append, targetsOutside]
      exact if_pos (decide_eq_true inside)

/-- Lines at this depth do not belong to the function. -/
def IsOutside (blanks : Nat) (function : Option Nat) : Prop :=
  ∀ outer ∈ function, blanks ≤ outer

/-- At whatever depth they stand, the lines show that they assign the
variables, and they are complete: what follows at this depth belongs to no
function they define. -/
def Shows (lines : List Text) (assigned : List Text) : Prop :=
  ∀ blanks function rest, IsOutside blanks function →
    ∃ later, IsOutside blanks later ∧
      targetsOutside function (movedIn blanks lines ++ rest) =
        assigned ++ targetsOutside later rest

theorem targetsOutside_line {blanks : Nat} {function : Option Nat}
    (outside : IsOutside blanks function) {line : Text}
    (visible : Text.Stops isBlank line) (rest : List Text) :
    targetsOutside function ((margin blanks ++ line) :: rest) =
      targets line ++
        targetsOutside ((definedName? line).map fun _ => blanks) rest := by
  have here : ¬ function.any (· < blanks) = true := by
    intro inside
    obtain ⟨outer, isFunction, further⟩ := (Option.any_eq_true _ _).mp inside
    exact absurd (outside outer isFunction)
      (Nat.not_le_of_lt (of_decide_eq_true further))
  rw [targetsOutside, depth_margin visible, content_margin visible, if_neg here]

namespace Shows

theorem nil : Shows [] [] :=
  fun _ function _ outside => ⟨function, outside, rfl⟩

theorem append {first second assigned more : List Text}
    (shows : Shows first assigned) (showsMore : Shows second more) :
    Shows (first ++ second) (assigned ++ more) := by
  intro blanks function rest outside
  obtain ⟨between, outsideBetween, early⟩ :=
    shows blanks function (movedIn blanks second ++ rest) outside
  obtain ⟨later, outsideLater, late⟩ :=
    showsMore blanks between rest outsideBetween
  refine ⟨later, outsideLater, ?_⟩
  rw [movedIn_append, List.append_assoc, early, late, List.append_assoc]

theorem line {line : Text} (visible : Text.Stops isBlank line) :
    Shows [line] (targets line) := by
  intro blanks function rest outside
  refine ⟨(definedName? line).map fun _ => blanks, ?_,
    targetsOutside_line outside visible rest⟩
  intro outer member
  obtain ⟨name, -, rfl⟩ := Option.map_eq_some_iff.mp member
  exact Nat.le_refl _

/-- The lines below a line that defines no function. -/
theorem suite {header : Text} {body assigned : List Text}
    (visible : Text.Stops isBlank header)
    (noFunction : definedName? header = none) (noTargets : targets header = [])
    (shows : Shows body assigned) :
    Shows (header :: indented body) assigned := by
  intro blanks function rest outside
  have entered : IsOutside (blanks + 4) none := by
    rintro outer ⟨⟩
  obtain ⟨later, outsideLater, same⟩ := shows (blanks + 4) none rest entered
  refine ⟨later, ?_, ?_⟩
  · exact fun outer member =>
      Nat.le_of_add_right_le (outsideLater outer member)
  · rw [← same, ← movedIn_indented]
    refine (targetsOutside_line outside visible _).trans ?_
    rw [noFunction, noTargets]
    rfl

theorem function {header name : Text} (visible : Text.Stops isBlank header)
    (starts : definedName? header = some name)
    (noMore : assignedFrom ⟨.code, []⟩ [] header = []) (body : List Text) :
    Shows (header :: indented body) [name] := by
  intro blanks function rest outside
  have here : IsOutside blanks (some blanks) := by
    rintro outer ⟨⟩
    exact Nat.le_refl _
  refine ⟨some blanks, here, (targetsOutside_line outside visible _).trans ?_⟩
  rw [targets, starts, noMore, ← movedIn, movedIn_indented]
  have below : blanks < blanks + 4 := Nat.lt_add_of_pos_right (by decide)
  exact congrArg ([name] ++ ·) (targetsOutside_body below body rest)

/-- A line that assigns nothing, however it starts. -/
theorem silent {line : Text} (noFunction : definedName? (content line) = none)
    (noTargets : targets (content line) = []) : Shows [line] [] := by
  intro blanks function rest outside
  have same : content (margin blanks ++ line) = content line :=
    List.dropWhile_append_of_pos isBlank_of_mem_margin
  rw [movedIn, List.map_cons, List.map_nil, List.singleton_append,
    targetsOutside, same, noFunction, noTargets]
  split
  · exact ⟨function, outside, rfl⟩
  · refine ⟨none, ?_, rfl⟩
    rintro outer ⟨⟩

end Shows

/-- A line that starts with a word, and not with a definition. -/
structure IsPlainLine (line : Text) : Prop where
  visible : Text.Stops isBlank line
  noFunction : definedName? line = none

theorem visible_of_isWord {word : Text} (isWord : word.IsWord)
    (nonempty : word ≠ []) (rest : Text) :
    Text.Stops isBlank (word ++ rest) := by
  obtain ⟨c, word, rfl⟩ := List.exists_cons_of_ne_nil nonempty
  refine Text.stops_cons (decide_eq_false ?_)
  rintro rfl
  exact absurd (isWord _ List.mem_cons_self) (by decide)

theorem IsPlainLine.of_word {word rest : Text} (isWord : word.IsWord)
    (nonempty : word ≠ []) (other : word ≠ "def")
    (stops : Text.Stops CodePoint.isWordPoint rest) :
    IsPlainLine (word ++ rest) := by
  refine ⟨visible_of_isWord isWord nonempty rest, ?_⟩
  rw [definedName?, firstWord_append isWord stops]
  exact if_neg other

theorem IsPlainLine.of_identifier (v : Var) {rest : Text}
    (stops : Text.Stops CodePoint.isWordPoint rest) :
    IsPlainLine (v.identifier ++ rest) := by
  obtain ⟨isWord, c, member, notLetter⟩ := v.isIdentifier_identifier
  refine .of_word isWord (List.ne_nil_of_mem member) ?_ stops
  have letters : ∀ c ∈ Text.ofString "def", c.isLetter = true := by decide
  intro same
  rw [same] at member
  rw [letters c member] at notLetter
  cases notLetter

theorem IsPlainLine.targets {line : Text} (plain : IsPlainLine line) :
    targets line = assignedFrom ⟨.code, []⟩ [] line := by
  rw [Code.targets, plain.noFunction]
  rfl

theorem endsIn_append {mark : Text} (nonempty : mark ≠ [])
    (points text : Text) :
    endsIn points (text ++ mark) = endsIn points mark := by
  rw [endsIn, endsIn, List.getLast?_append_of_ne_nil _ nonempty]

/-- If the row ends with a colon, the place is known to stand after one. -/
def Agrees (place : Place) (row : Text) : Prop :=
  endsIn ":" row = true →
    place.afterColon = true ∧ place.scan.mode.isOutside = true

theorem Agrees.of_endsIn {place : Place} {row : Text}
    (noColon : endsIn ":" row = false) : Agrees place row := by
  intro colon
  cases noColon.symm.trans colon

theorem Agrees.noColon {brackets : List Lexical.Bracket} {row : Text}
    (agrees : Agrees (.start brackets) row) : endsIn ":" row = false := by
  rw [Bool.eq_false_iff]
  intro colon
  cases (agrees colon).1

theorem step_colon {scan next : Scan} (outside : scan.mode.isOutside = true)
    (stepped : Lexical.step scan ':' = some next) :
    next.mode.isOutside = true := by
  obtain ⟨mode, brackets⟩ := scan
  rw [Lexical.step_of_isOutside outside rfl] at stepped
  cases stepped
  rfl

/-- A quiet scan passes by no sign of an assignment. -/
theorem assignedFrom_step {place next : Place} {c : CodePoint}
    (stepped : place.step true c = some next) {row : Text}
    (agrees : Agrees place row) (rest : Text) :
    ∃ later, Agrees next later ∧
      assignedFrom place.scan row (c :: rest) =
        assignedFrom next.scan later rest := by
  obtain ⟨accepted, moved⟩ := Option.ite_none_left_eq_some.mp stepped
  obtain ⟨scan, made, rfl⟩ := Option.map_eq_some_iff.mp moved
  rw [assignedFrom, made]
  dsimp only
  by_cases outside : place.scan.mode.isOutside = true
  · rw [Place.refuses, outside, Bool.true_and, Bool.and_true, Bool.and_true,
      Bool.or_eq_true, not_or, Bool.not_eq_true, Bool.not_eq_true] at accepted
    obtain ⟨noEquals, noEnd⟩ := accepted
    have noNamed : (decide (c = '=') && endsIn ":" row) = false := by
      cases colon : endsIn ":" row with
      | true =>
          rw [(agrees colon).1, Bool.true_or] at noEquals
          exact noEquals
      | false => exact Bool.and_false _
    have noAssigned : (decide (c = '=') && place.scan.brackets.isEmpty &&
        !isCompared row rest) = false := by
      rw [Bool.and_or_distrib_left, Bool.or_eq_false_iff] at noEquals
      rw [noEquals.2, Bool.false_and]
    rw [outside, if_pos rfl, noEnd, noNamed, noAssigned]
    simp only [Bool.false_eq_true, if_false]
    split
    · have noColon : endsIn ":" (row ++ " ") = false :=
        endsIn_append (by decide) ..
      refine ⟨_, fun colon => ?_, rfl⟩
      cases noColon.symm.trans colon
    · refine ⟨_, fun colon => ?_, rfl⟩
      rw [endsIn_append (List.cons_ne_nil _ _)] at colon
      have isColon := List.contains_iff_mem.mp colon
      cases List.mem_singleton.mp isColon
      exact ⟨rfl, step_colon outside made⟩
  · rw [if_neg outside]
    exact ⟨row, fun colon => (outside (agrees colon).2).elim, rfl⟩

theorem assignedFrom_of_run {place next : Place} {text : Text}
    (ran : place.run true text = some next) {row : Text}
    (agrees : Agrees place row) (rest : Text) :
    ∃ later, Agrees next later ∧
      assignedFrom place.scan row (text ++ rest) =
        assignedFrom next.scan later rest := by
  induction text generalizing place row with
  | nil =>
      cases ran
      exact ⟨row, agrees, rfl⟩
  | cons c text ih =>
      obtain ⟨middle, stepped, onward⟩ := Option.bind_eq_some_iff.mp ran
      obtain ⟨between, agreesBetween, first⟩ :=
        assignedFrom_step stepped agrees (text ++ rest)
      obtain ⟨later, agreesLater, second⟩ := ih onward agreesBetween
      exact ⟨later, agreesLater, first.trans second⟩

/-- What can be scanned quietly to its end assigns nothing. -/
theorem assignedFrom_eq_nil {place next : Place} {text : Text}
    (ran : place.run true text = some next) {row : Text}
    (agrees : Agrees place row) : assignedFrom place.scan row text = [] := by
  obtain ⟨later, -, same⟩ := assignedFrom_of_run ran agrees []
  rw [List.append_nil] at same
  exact same

theorem assignedFrom_of_isBare {text : Text} (bare : Lexical.IsBare text)
    (brackets : List Lexical.Bracket) (row rest : Text) :
    assignedFrom ⟨.code, brackets⟩ row (text ++ rest) =
      assignedFrom ⟨.code, brackets⟩ (row ++ text) rest := by
  induction text generalizing row with
  | nil => rw [List.nil_append, List.append_nil]
  | cons c text ih =>
      obtain ⟨own, later⟩ := List.forall_mem_cons.mp bare
      obtain ⟨plain, silent⟩ := Bool.and_eq_true_iff.mp own
      have stays : Lexical.step ⟨.code, brackets⟩ c = some ⟨.code, brackets⟩ :=
        Lexical.codeStep_of_isPlain plain brackets
      simp only [Lexical.isPlain, Lexical.isSilent, Bool.and_eq_true,
        decide_eq_true_eq, Option.isNone_iff_eq_none] at plain silent
      rw [List.append_cons row c text, ← ih later, List.cons_append,
        assignedFrom, stays]
      simp [plain.1.1.1.1.2, silent.1.1, silent.1.2, Lexical.Mode.isOutside]

theorem endsIn_eq_false_of_subset {points others text : Text}
    (fewer : others ⊆ points) (ends : endsIn points text = false) :
    endsIn others text = false := by
  rw [Bool.eq_false_iff] at ends ⊢
  intro one
  obtain ⟨c, last, member⟩ := (Option.any_eq_true _ _).mp one
  refine ends ((Option.any_eq_true _ _).mpr ⟨c, last, ?_⟩)
  exact List.contains_iff_mem.mpr (fewer (List.contains_iff_mem.mp member))

/-- The sign of an assignment, with other points than signs around it. -/
theorem assignedFrom_sign {row : Text} (ends : endsIn ":=!<>" row = false)
    (rest : Text) :
    assignedFrom ⟨.code, []⟩ row ("= " ++ rest) =
      words row ++ assignedFrom ⟨.code, []⟩ [] (" " ++ rest) := by
  have noColon : endsIn ":" row = false :=
    endsIn_eq_false_of_subset (by decide) ends
  have noComparison : isCompared row (" " ++ rest) = false := by
    rw [isCompared, endsIn_eq_false_of_subset (by decide) ends]
    rfl
  have opens : Text.ofString "= " ++ rest =
      CodePoint.ofChar '=' :: (" " ++ rest) :=
    rfl
  have stays : Lexical.step ⟨.code, []⟩ '=' = some ⟨.code, []⟩ := rfl
  rw [opens, assignedFrom, stays]
  dsimp only
  rw [noColon, noComparison]
  rfl

theorem assignedFrom_compared {row rest : Text}
    (noColon : endsIn ":" row = false) (compared : isCompared row rest = true) :
    assignedFrom ⟨.code, []⟩ row (CodePoint.ofChar '=' :: rest) =
      assignedFrom ⟨.code, []⟩ (row ++ "=") rest := by
  have stays : Lexical.step ⟨.code, []⟩ '=' = some ⟨.code, []⟩ := rfl
  rw [assignedFrom, stays]
  dsimp only
  rw [noColon, compared]
  rfl

/-- Two equals signs compare. -/
theorem assignedFrom_equals {row : Text} (noColon : endsIn ":" row = false)
    (rest : Text) :
    assignedFrom ⟨.code, []⟩ row ("==" ++ rest) =
      assignedFrom ⟨.code, []⟩ (row ++ "=" ++ "=") rest := by
  have second : isCompared (row ++ "=") rest = true := by
    rw [isCompared, endsIn_append (by decide)]
    rfl
  have first : isCompared row (CodePoint.ofChar '=' :: rest) = true :=
    Bool.or_true _
  exact (assignedFrom_compared noColon first).trans
    (assignedFrom_compared (endsIn_append (by decide) ..) second)

theorem run_append_of_isFirm {text rest : Text} (neutral : Neutral true text)
    (firm : Lexical.isFirm rest = true) {next : Place}
    (ran : (Place.start []).run true rest = some next) :
    (Place.start []).run true (text ++ rest) = some next := by
  obtain ⟨mode, outside, first⟩ := neutral.run_eq []
  have first' : (Place.start []).run true text = some ⟨⟨mode, []⟩, false⟩ :=
    first
  rw [Place.run_append, first']
  exact (Place.run_of_isFirm outside firm []).trans ran

theorem run_comment {note : Text} (unbroken : Lexical.IsUnbroken note) :
    Place.run true ⟨⟨.comment, []⟩, false⟩ note =
      some ⟨⟨.comment, []⟩, false⟩ := by
  induction note with
  | nil => rfl
  | cons c note ih =>
      obtain ⟨own, later⟩ := List.forall_mem_cons.mp unbroken
      have stays : Lexical.step ⟨.comment, []⟩ c = some ⟨.comment, []⟩ := by
        rw [Lexical.step, Lexical.endsLine_of_not_isLineBreak own]
        rfl
      rw [Place.run, Place.step_inside rfl, stays]
      exact ih later

theorem assignedFrom_of_neutral {text : Text} (neutral : Neutral true text) :
    assignedFrom ⟨.code, []⟩ [] text = [] := by
  obtain ⟨mode, -, ran⟩ := neutral.run_eq []
  exact assignedFrom_eq_nil ran (.of_endsIn rfl)

/-- A comparison outside of brackets, in the middle of quiet code. -/
theorem assignedFrom_comparison {opening rest : Text}
    (opens : Moves true [] [] opening) {next : Place}
    (ran : (Place.start []).run true rest = some next) :
    assignedFrom ⟨.code, []⟩ [] (opening ++ ("==" ++ rest)) = [] := by
  have agreesNil : Agrees (.start []) [] := .of_endsIn rfl
  obtain ⟨row, agrees, same⟩ :=
    assignedFrom_of_run (opens.run_eq []) agreesNil ("==" ++ rest)
  have noColon : endsIn ":" (row ++ "=" ++ "=") = false :=
    endsIn_append (by decide) ..
  exact same.trans ((assignedFrom_equals agrees.noColon rest).trans
    (assignedFrom_eq_nil ran (.of_endsIn noColon)))

@[simp] theorem words_identifier (v : Var) :
    words v.identifier = [v.identifier] := by
  obtain ⟨isWord, c, member, -⟩ := v.isIdentifier_identifier
  have nonempty : v.identifier.isEmpty = false :=
    List.isEmpty_eq_false_iff.mpr (List.ne_nil_of_mem member)
  rw [words, Lexical.wordsFrom_of_isWord [] isWord, List.nil_append,
    Lexical.ended, nonempty]
  rfl

/-- What stands between the variables of an assignment. -/
structure IsSeparator (mark : Text) : Prop where
  bare : Lexical.IsBare mark
  stops : ∀ rest, Text.Stops CodePoint.isWordPoint (mark ++ rest)
  starts : ∀ rest, Lexical.startsApart (mark ++ rest) = true
  ends : Lexical.endsApart mark = true
  inCode : Lexical.Mode.code.afterText mark = .code
  wordless : words mark = []
  nonempty : mark ≠ []
  signless : endsIn ":=!<>" mark = false

theorem isSeparator_blank : IsSeparator " " where
  bare := List.all_eq_true.mp rfl
  stops := fun _ => Text.stops_cons (by decide)
  starts := fun _ => rfl
  ends := rfl
  inCode := rfl
  wordless := rfl
  nonempty := by decide
  signless := rfl

theorem isSeparator_comma : IsSeparator ", " where
  bare := List.all_eq_true.mp rfl
  stops := fun _ => Text.stops_cons (by decide)
  starts := fun _ => rfl
  ends := rfl
  inCode := rfl
  wordless := rfl
  nonempty := by decide
  signless := rfl

/-- The variables of an assignment as they are printed. -/
def targetRow (mark : Text) (vars : List Var) : Text :=
  vars.flatMap fun v => v.identifier ++ mark

section

variable {mark : Text} (separates : IsSeparator mark)

include separates

theorem bare_targetRow (vars : List Var) :
    Lexical.IsBare (targetRow mark vars) :=
  Text.Only.flatMap fun v _ => (bare_identifier v).append separates.bare

@[simp] theorem signless_targetRow (vars : List Var) :
    endsIn ":=!<>" (targetRow mark vars) = false := by
  rcases List.eq_nil_or_concat vars with rfl | ⟨early, last, rfl⟩
  · rfl
  · rw [targetRow, List.concat_eq_append, List.flatMap_append,
      List.flatMap_singleton, ← List.append_assoc,
      endsIn_append separates.nonempty]
    exact separates.signless

theorem words_separator_append (rest : Text) :
    words (mark ++ rest) = words rest := by
  rw [words,
    Lexical.wordsFrom_append_of_endsApart separates.inCode separates.ends,
    ← words, separates.wordless, List.nil_append]

@[simp] theorem words_targetRow (vars : List Var) :
    words (targetRow mark vars) = vars.map Var.identifier := by
  induction vars with
  | nil => rfl
  | cons v vars ih =>
      have outside :
          (Lexical.Mode.code.afterText v.identifier).isOutside = true := by
        rw [Lexical.afterText_of_isPlain (bare_identifier v).plain]
        rfl
      rw [targetRow, List.flatMap_cons, List.append_assoc, ← targetRow, words,
        Lexical.wordsFrom_append_of_startsApart outside (separates.starts _),
        ← words, words_identifier, words_separator_append separates, ih]
      rfl

/-- An assignment assigns the variables on its left, and no others if its value
is quiet. -/
theorem assignedFrom_assignment (vars : List Var) {value : Text}
    (quiet : Neutral true value) :
    assignedFrom ⟨.code, []⟩ [] (targetRow mark vars ++ ("= " ++ value)) =
      vars.map Var.identifier := by
  have space : Moves true [] [] " " := .mark rfl fun _ => rfl
  have nothing : assignedFrom ⟨.code, []⟩ [] (" " ++ value) = [] :=
    assignedFrom_of_neutral (space.appendLeads quiet)
  rw [assignedFrom_of_isBare (bare_targetRow separates vars), List.nil_append,
    assignedFrom_sign (signless_targetRow separates vars),
    words_targetRow separates, nothing, List.append_nil]

theorem shows_assignment {vars : List Var} (nonempty : vars ≠ []) {value : Text}
    (quiet : Neutral true value) :
    Shows [targetRow mark vars ++ ("= " ++ value)]
      (vars.map Var.identifier) := by
  have plain : IsPlainLine (targetRow mark vars ++ ("= " ++ value)) := by
    obtain ⟨v, vars, rfl⟩ := List.exists_cons_of_ne_nil nonempty
    rw [targetRow, List.flatMap_cons, List.append_assoc, List.append_assoc]
    exact .of_identifier v (separates.stops _)
  rw [← assignedFrom_assignment separates vars quiet, ← plain.targets]
  exact .line plain.visible

end

theorem targetsText_blank (target : Name) (targets : List Name) :
    targetsText (target :: targets) ++ " " =
      targetRow ", " ((target :: targets).map Var.named) := by
  induction targets generalizing target with
  | nil =>
      rw [targetsText, List.map_singleton, Text.join,
        List.intercalate_singleton, List.append_assoc]
      exact (List.append_nil _).symm
  | cons next targets ih =>
      have step : targetsText (target :: next :: targets) =
          target.identifier ++ "," ++ " " ++ targetsText (next :: targets) :=
        List.intercalate_cons_cons
      rw [step, List.append_assoc, ih, List.append_assoc target.identifier]
      rfl

theorem shows_targets (targets : List Name) {value : Text}
    (quiet : Neutral true value) :
    Shows [targetsText targets ++ " = " ++ value]
      ((targets.map Var.named).map Var.identifier) := by
  cases targets with
  | nil =>
      have noFunction : definedName? ("= " ++ value) = none := rfl
      refine .silent noFunction ?_
      exact (IsPlainLine.targets ⟨Text.stops_cons (by decide),
        noFunction⟩).trans (assignedFrom_assignment isSeparator_comma [] quiet)
  | cons target targets =>
      have parts : targetsText (target :: targets) ++ " = " ++ value =
          targetRow ", " ((target :: targets).map Var.named) ++
            ("= " ++ value) := by
        rw [← targetsText_blank, List.append_assoc, List.append_assoc]
        rfl
      rw [parts]
      exact shows_assignment isSeparator_comma (List.cons_ne_nil _ _) quiet

theorem IsPlainLine.of_test {keyword : Text}
    (either : keyword = "if " ∨ keyword = "elif ") (rest : Text) :
    IsPlainLine (keyword ++ rest) := by
  have words : Text.IsWord "if" ∧ Text.IsWord "elif" := by
    unfold Text.IsWord Text.Only
    decide
  have stops : Text.Stops CodePoint.isWordPoint (" " ++ rest) :=
    Text.stops_cons (by decide)
  rcases either with rfl | rfl
  · have plain := of_word words.1 (by decide) (by decide) stops
    exact plain
  · have plain := of_word words.2 (by decide) (by decide) stops
    exact plain

/-- The first line of a clause assigns nothing. -/
theorem plain_header {layout : Layout} {guard : Guard}
    (quiet : guard.Forall (Term.SelfContained true layout.restart))
    (leading : Bool) (subject : Var) :
    IsPlainLine (guard.header layout leading subject) ∧
      targets (guard.header layout leading subject) = [] := by
  have either : (if leading then Text.ofString "if " else "elif ") = "if " ∨
      (if leading then Text.ofString "if " else "elif ") = "elif " := by
    cases leading
    · exact .inr rfl
    · exact .inl rfl
  have keyword : Moves true [] []
      (if leading then Text.ofString "if " else "elif ") := by
    split
    · exact .mark rfl fun _ => rfl
    · exact .mark rfl fun _ => rfl
  have start := keyword.append ((bare_identifier subject).moves [])
  have space : Moves true [] [] " " := .mark rfl fun _ => rfl
  have colon : (Place.start []).run true ":" = some ⟨⟨.code, []⟩, true⟩ := rfl
  cases guard with
  | hasTag tag ctor =>
      have plain : IsPlainLine
          ((Guard.hasTag tag ctor).header layout leading subject) := by
        simp only [Guard.header, List.append_assoc]
        exact .of_test either _
      have number := (space.append ((bare_ofInt tag).moves [])).leads
      have item : Moves true [] [] "[0] " := .mark rfl fun _ => rfl
      refine ⟨plain, plain.targets.trans ?_⟩
      by_cases comments : layout.comments = true
      · have note : Lexical.IsUnbroken ctor.display :=
          Lexical.coversPrintable.display ctor
        have ran : (Place.start []).run true (":  # " ++ ctor.display) =
            some ⟨⟨.comment, []⟩, false⟩ := by
          rw [Place.run_append]
          exact run_comment note
        have tail := assignedFrom_comparison (start.append item)
          (run_append_of_isFirm number rfl ran)
        simp only [Guard.header, if_pos comments, List.append_assoc] at tail ⊢
        exact tail
      · have tail := assignedFrom_comparison (start.append item)
          (run_append_of_isFirm number rfl colon)
        simp only [Guard.header, if_neg comments, List.append_assoc] at tail ⊢
        exact tail
  | equals value =>
      have plain : IsPlainLine
          ((Guard.equals value).header layout leading subject) := by
        simp only [Guard.header, List.append_assoc]
        exact .of_test either _
      have tail := assignedFrom_comparison (start.append space)
        (run_append_of_isFirm (space.appendLeads quiet) rfl colon)
      refine ⟨plain, plain.targets.trans ?_⟩
      simp only [Guard.header, List.append_assoc] at tail ⊢
      exact tail
  | tagBelow tag =>
      have plain : IsPlainLine
          ((Guard.tagBelow tag).header layout leading subject) := by
        simp only [Guard.header, List.append_assoc]
        exact .of_test either _
      have item : Moves true [] [] "[0] < " := .mark rfl fun _ => rfl
      have test := (start.append item).append ((bare_ofInt tag).moves [])
      have agreesNil : Agrees (.start []) [] := .of_endsIn rfl
      exact ⟨plain, plain.targets.trans (assignedFrom_eq_nil
        (run_append_of_isFirm test.leads rfl colon) agreesNil)⟩
  | otherwise => exact ⟨⟨Text.stops_cons (by decide), rfl⟩, rfl⟩

theorem assignedFrom_signature (name : Var) (params : List Name)
    (frozen : List Var) :
    assignedFrom ⟨.code, []⟩ []
      ("def " ++ name.identifier ++ "(" ++ paramsText params frozen ++ "):") =
        [] := by
  have keyword : Moves true [] [] "def " := .mark rfl fun _ => rfl
  have opens : Moves true [] [.round] "(" := .mark rfl fun _ => rfl
  have closes : Moves true [.round] [] ")" := .mark rfl fun _ => rfl
  have colon : (Place.start []).run true ":" = some ⟨⟨.code, []⟩, true⟩ := rfl
  have head := (keyword.append ((bare_identifier name).moves [])).append opens
  have signature :=
    (head.appendLeads (leads_paramsText params frozen)).appendMoves closes rfl
  have agreesNil : Agrees (.start []) [] := .of_endsIn rfl
  have noMore := assignedFrom_eq_nil
    (run_append_of_isFirm signature.leads rfl colon) agreesNil
  rw [List.append_assoc _ _ (Text.ofString ":")] at noMore
  exact noMore

namespace Stmt

mutual

theorem shows_lines (layout : Layout) (stmt : Stmt)
    (quiet : stmt.Meets (.terms (Term.SelfContained true layout.restart))) :
    Shows (lines layout stmt) ((writes stmt).map Var.identifier) := by
  cases stmt with
  | assign target value =>
      have same : target.identifier ++ " = " ++ value.text layout.restart =
          targetRow " " [target] ++ ("= " ++ value.text layout.restart) := by
        rw [targetRow, List.flatMap_singleton, List.append_assoc,
          List.append_assoc]
        rfl
      rw [lines, same]
      exact shows_assignment isSeparator_blank (List.cons_ne_nil _ _) quiet
  | unpack targets subject =>
      have fields : Moves true [] [] "[1:]" := .mark rfl fun _ => rfl
      rw [lines, List.append_assoc]
      exact shows_targets targets
        (((bare_identifier subject).moves []).append fields).leads
  | rebind targets values =>
      exact shows_targets targets (Term.neutral_values quiet)
  | «continue» => exact .silent (by decide) (by decide)
  | unreachable =>
      have plain : IsPlainLine unreachableText :=
        ⟨Text.stops_cons (by decide), rfl⟩
      have noTargets : assignedFrom ⟨.code, []⟩ [] unreachableText = [] :=
        assignedFrom_of_neutral (neutral_raiseText _)
      exact .silent plain.noFunction (plain.targets.trans noTargets)
  | branch subject clauses =>
      exact shows_clausesLines layout subject true clauses quiet
  | define name params frozen body result =>
      have stops (rest : Text) :
          Text.Stops CodePoint.isWordPoint ("(" ++ rest) :=
        Text.stops_cons (by decide)
      have noMore := assignedFrom_signature name params frozen
      rw [lines]
      simp only [List.append_assoc] at noMore ⊢
      refine .function (Text.stops_cons (by decide)) ?_ noMore _
      refine (if_pos rfl).trans (congrArg some ?_)
      exact firstWord_append name.isIdentifier_identifier.1 (stops _)

theorem shows_linesList (layout : Layout) (stmts : List Stmt)
    (quiet : MeetsList (.terms (Term.SelfContained true layout.restart))
      stmts) :
    Shows (linesList layout stmts) ((writesList stmts).map Var.identifier) := by
  cases stmts with
  | nil => exact .nil
  | cons stmt stmts =>
      rw [linesList, writesList, List.map_append]
      exact (shows_lines layout stmt quiet.1).append
        (shows_linesList layout stmts quiet.2)

theorem shows_clausesLines (layout : Layout) (subject : Var) (leading : Bool)
    (clauses : List Clause)
    (quiet : MeetsClauses (.terms (Term.SelfContained true layout.restart))
      clauses) :
    Shows (clausesLines layout subject leading clauses)
      ((writesClauses clauses).map Var.identifier) := by
  cases clauses with
  | nil => exact .nil
  | cons clause clauses =>
      obtain ⟨guard, body⟩ := clause
      obtain ⟨guardQuiet, bodyQuiet, laterQuiet⟩ := quiet
      obtain ⟨plain, noTargets⟩ := plain_header guardQuiet leading subject
      rw [clausesLines, writesClauses, List.map_append, ← List.cons_append]
      exact (Shows.suite plain.visible plain.noFunction noTargets
        (shows_linesList layout body bodyQuiet)).append
        (shows_clausesLines layout subject false clauses laterQuiet)

end

/-- The lines of quiet code assign what the code writes. -/
theorem targetsOutside_linesList (layout : Layout) (stmts : List Stmt)
    (quiet : MeetsList (.terms (Term.SelfContained true layout.restart))
      stmts) :
    targetsOutside none (linesList layout stmts) =
      (writesList stmts).map Var.identifier := by
  have outside : IsOutside 0 none := by
    rintro outer ⟨⟩
  obtain ⟨later, -, same⟩ :=
    shows_linesList layout stmts quiet 0 none [] outside
  rw [movedIn_zero, List.append_nil] at same
  exact same.trans (List.append_nil _)

end Stmt

end Code

theorem Var.IsTemporary.isTemporary {low high : Nat} {v : Var}
    (temporary : v.IsTemporary low high) (positive : 0 < low) :
    v.isTemporary = true := by
  obtain ⟨number, above, -, rfl⟩ := temporary
  exact decide_eq_true (by omega)

theorem Var.IsTemporary.exists_number {low high : Nat} {v : Var}
    (temporary : v.IsTemporary low high) (positive : 0 < low) :
    ∃ number, low ≤ number ∧ number < high ∧
      v.identifier = Name.temporaryText ++ Text.ofNat number := by
  obtain ⟨number, above, below, rfl⟩ := temporary
  obtain ⟨index, rfl⟩ :=
    Nat.exists_eq_add_of_lt (Nat.lt_of_lt_of_le positive above)
  rw [Nat.zero_add] at above below ⊢
  exact ⟨index + 1, above, below, rfl⟩

namespace Expr

open Lowering

/-- The variables that belong to the code of an expression: temporaries with
numbers from `low` on and below `high`, the names it binds and, if it restarts
the function, the parameters. -/
def Owns (expr : Expr) (context : Context) (low high : Nat) (v : Var) : Prop :=
  v.IsTemporary low high ∨ (∃ name ∈ expr.binders, v = .named name) ∨
    (expr.restarts context.function = true ∧
      ∃ param ∈ context.params, v = .named param)

theorem owns_of_mem_writesList {context : Context} {expr : Expr}
    {before after : State} {value : Code.Term} {code : List Code.Stmt}
    (lowered : expr.lower context before = .ok (value, after, code)) {v : Var}
    (written : v ∈ Code.Stmt.writesList code) :
    expr.Owns context before.next after.next v := by
  have permits : Permits context
      (fun v => (∃ name ∈ expr.binders, v = .named name) ∨
        (expr.restarts context.function = true ∧
          ∃ param ∈ context.params, v = .named param))
      expr.binders (expr.restarts context.function) :=
    ⟨fun name member => .inl ⟨name, member, rfl⟩,
      fun restarts param member => .inr ⟨restarts, param, member, rfl⟩⟩
  exact ((expr.lower_confined permits lowered).within v written).symm

end Expr

/-- The text that names a foreign function assigns nothing: it is quiet code,
and no `:=` stands in it, not even in a literal, which may be a formatted
one. -/
structure AssignsNothing (name : Text) : Prop where
  quiet : Lexical.isQuiet name = true
  noNaming : ¬ Text.ofString ":=" <:+: name

/-- If the names of foreign functions assign nothing, then the lines of a
lowered expression, those in the bodies of nested functions apart, assign and
define only temporaries that were handed out for it, names that its bindings
and patterns bind and, if it restarts the function, parameters.  So a variable
that is free in an expression is overwritten only by a binder of the expression
or by a restart. -/
theorem lowering_writes_own_variables (comments : Bool) {context : Context}
    {expr : Expr} {before after : Lowering.State} {value : Code.Term}
    {code : List Code.Stmt}
    (names : ∀ name args, expr.Contains (.foreign (.named name) args) →
      AssignsNothing name)
    (positive : 0 < before.next)
    (lowered : expr.lower context before = .ok (value, after, code)) :
    (∀ target ∈ Code.targetsOutside none
        (Code.Stmt.linesList (.standard comments) code),
      (∃ number, before.next ≤ number ∧ number < after.next ∧
        target = "aux" ++ Text.ofNat number) ∨
      (∃ name ∈ expr.binders, target = name.identifier) ∨
      (expr.restarts context.function = true ∧
        ∃ param ∈ context.params, target = param.identifier)) ∧
    ((∀ name ∈ expr.binders, .named name ∉ expr.freeVars) →
      expr.restarts context.function = false →
      ∀ v ∈ expr.freeVars, v.isTemporary = false →
        v.identifier ∉ Code.targetsOutside none
          (Code.Stmt.linesList (.standard comments) code)) := by
  have quiet := Expr.lower_forall
    (Code.Term.closed_selfContained true Code.restartText)
    (fun _ _ _ => Code.neutral_raiseText _)
    (fun name args within =>
      Lexical.neutral_of_isQuiet (names name args within).quiet) lowered
  rw [Code.Stmt.targetsOutside_linesList (.standard comments) code quiet.2]
  constructor
  · intro target member
    obtain ⟨v, written, rfl⟩ := List.mem_map.mp member
    rcases Expr.owns_of_mem_writesList lowered written with
      temporary | bound | restarted
    · exact .inl (temporary.exists_number positive)
    · obtain ⟨name, binder, rfl⟩ := bound
      exact .inr (.inl ⟨name, binder, rfl⟩)
    · obtain ⟨restarts, param, isParam, rfl⟩ := restarted
      exact .inr (.inr ⟨restarts, param, isParam, rfl⟩)
  · intro apart noRestart v free noTemporary member
    obtain ⟨w, written, same⟩ := List.mem_map.mp member
    cases Var.identifier_injective same
    rcases Expr.owns_of_mem_writesList lowered written with
      temporary | bound | restarted
    · rw [temporary.isTemporary positive] at noTemporary
      cases noTemporary
    · obtain ⟨name, binder, rfl⟩ := bound
      exact apart name binder free
    · rw [noRestart] at restarted
      cases restarted.1

/-- A function that binds a name of its own is bound to a name, and the value of
a call is taken apart. -/
def takenApart : Expr :=
  .letIn (.user "f")
    (.lam [.user "p"]
      (.letIn (.user "q") (.var (.named (.user "p")))
        (.var (.named (.user "q")))))
    (.case (.app (.var (.named (.user "f"))) [.var (.named (.user "x"))] false)
      [.con (.user "Pair") [.user "l", .user "r"]
        (.foreign (.named "ops.keep") [.var (.named (.user "r"))]),
        .default (.var (.named (.user "x")))])

def takenApartContext : Context where
  tags := ⟨[(.user "Pair", 0)]⟩
  function := .user "g"
  params := [.user "x"]
  freeze := false

theorem lowering_writes_own_variables_apart :
    ∃ value after code,
      (∀ name args, takenApart.Contains (.foreign (.named name) args) →
        AssignsNothing name) ∧
      0 < (Lowering.State.initial [.user "x"]).next ∧
      takenApart.lower takenApartContext (.initial [.user "x"]) =
        .ok (value, after, code) ∧
      Code.targetsOutside none (Code.Stmt.linesList (.standard true) code) =
        (["aux1", "ir_f", "aux2", "ir_l", "ir_r", "aux3", "aux3"] : List Text) ∧
      (∀ name ∈ takenApart.binders, .named name ∉ takenApart.freeVars) ∧
      takenApart.restarts takenApartContext.function = false ∧
      .named (.user "x") ∈ takenApart.freeVars ∧
      (Var.named (.user "x")).identifier ∉
        Code.targetsOutside none
          (Code.Stmt.linesList (.standard true) code) := by
  have names : ∀ name args, takenApart.Contains (.foreign (.named name) args) →
      AssignsNothing name := by
    intro name args within
    have part := (Expr.mem_subexprs_iff _).mpr within
    simp only [takenApart, Expr.subexprs, Expr.subexprsList, Expr.subexprsAlts,
      List.append_nil, List.mem_cons, List.mem_append, List.not_mem_nil,
      reduceCtorEq, Expr.foreign.injEq, ForeignTarget.named.injEq, or_false,
      false_or] at part
    obtain ⟨rfl, -⟩ := part
    exact ⟨by decide, by decide +kernel⟩
  have positive : 0 < (Lowering.State.initial [.user "x"]).next := by decide
  have apart : ∀ name ∈ takenApart.binders,
      .named name ∉ takenApart.freeVars := by
    decide +kernel
  have free : .named (.user "x") ∈ takenApart.freeVars := by decide +kernel
  have lowered : ∃ value after code,
      takenApart.lower takenApartContext (.initial [.user "x"]) =
        .ok (value, after, code) ∧
      Code.targetsOutside none (Code.Stmt.linesList (.standard true) code) =
        (["aux1", "ir_f", "aux2", "ir_l", "ir_r", "aux3", "aux3"] :
          List Text) :=
    ⟨_, _, _, rfl, by decide +kernel⟩
  obtain ⟨value, after, code, ran, shown⟩ := lowered
  have kept := (lowering_writes_own_variables true names positive ran).2 apart
    rfl _ free rfl
  exact ⟨value, after, code, names, positive, ran, shown, apart, rfl, free,
    kept⟩

/-- The name of a foreign function that assigns a variable. -/
def assigningName : Expr :=
  .letIn (.user "y") (.foreign (.named "(ir_x := 0) or f") [])
    (.var (.named (.user "x")))

theorem assigningName_overwrites_free_variable :
    ∃ value after code,
      assigningName.lower takenApartContext (.initial [.user "x"]) =
        .ok (value, after, code) ∧
      Code.Stmt.linesList (.standard true) code =
        (["ir_y = (ir_x := 0) or f()"] : List Text) ∧
      (∀ name ∈ assigningName.binders, .named name ∉ assigningName.freeVars) ∧
      assigningName.restarts takenApartContext.function = false ∧
      .named (.user "x") ∈ assigningName.freeVars ∧
      (Var.named (.user "x")).identifier ∈
        Code.targetsOutside none
          (Code.Stmt.linesList (.standard true) code) :=
  ⟨_, _, _, rfl, rfl, by decide +kernel, rfl, by decide +kernel,
    by decide +kernel⟩

end TailLoop
