import TailLoop.Proofs.Simulation

/-!
# Case analyses follow evaluation

A case analysis is evaluated in three steps: the subject, the fields of the
alternative that is chosen, and the body of that alternative.  The subject is
read from a variable, or from a temporary that holds its value until the
decision is made.
-/

namespace TailLoop

open Code (Value Stmt Term Module Definition)
open Lowering

section Rules

variable {program : Program} {tags : TagTable} {module : Module} {env : Env}

/-- A decision evaluates the body of the alternative that is chosen: the body
stands for the decision, or its value is assigned to the result of the
decision. -/
theorem decision_cases {f : Expr → Expr} {context : Context} {alts : List Alt}
    {alt : Alt} {subject : Var} {value : Value} {self : Definition}
    {frame : Store Text} {state after : State} {term : Term} {code : List Stmt}
    (chooses : Chooses context.tags value Alt.pattern alts (some alt))
    (read : frame subject.identifier = some value)
    (ran : decision context subject
      (Expr.lowerAlts context (alts.map (Alt.mapBody f))) state =
        .ok (term, after, code)) :
    (alt.pattern = .default ∧ (f alt.body).lower context state =
      .ok (term, after, code)) ∨
      ∃ result before last bodyTerm bodyCode,
      result = .slot (-(state.next : Int)) ∧
        term = .var result ∧ state.next < before.next ∧ last.next ≤ after.next ∧
        (f alt.body).lower context before = .ok (bodyTerm, last, bodyCode) ∧
        ∀ ending, Stmt.Runs module self frame (unpackCode subject alt.pattern ++
            (bodyCode ++ if bodyTerm.isRestart then [] else
              [.assign result bodyTerm]))
            ending →
          Stmt.Runs module self frame code ending := by
  have advance := advances_lowerAlts context (alts.map (Alt.mapBody f))
  rw [Expr.lowerAlts_eq_map, List.map_map] at advance ran
  have samePattern : ∀ alt : Alt,
      ((Alt.branch context ∘ Alt.mapBody f) alt).pattern = alt.pattern := by
    intro alt
    cases alt <;> rfl
  have sameBody : ((Alt.branch context ∘ Alt.mapBody f) alt).body =
      (f alt.body).lower context := by
    cases alt <;> rfl
  rcases decision_reached? advance (chooses.map _ samePattern) ran with
    ⟨isDefault, bodyRan⟩ | ⟨result, suite, resultIs, termIs, found, leads⟩
  · rw [samePattern] at isDefault
    rw [sameBody] at bodyRan
    exact .inl ⟨isDefault, bodyRan⟩
  · cases leads with
    | arm above below armRan =>
        obtain ⟨bodyTerm, bodyCode, bodyRan, rfl⟩ := arm_eq_ok armRan
        rw [sameBody] at bodyRan
        rw [samePattern, List.append_assoc] at found
        exact .inr ⟨result, .binding _ _, _, bodyTerm, bodyCode, resultIs,
          termIs, above, below, bodyRan,
          fun ending runs => .ofReachedList read code found runs⟩

/-- Binding the fields leaves a frame in which the body can be evaluated. -/
theorem Ready.unpack (module : Module) {inner : Env} {alts : List Alt}
    {alt : Alt} {subject : Var} {value : Value} {host : Function}
    {self : Definition} {scope : List Name} {frame : Store Text}
    (ready : Ready program tags host self scope env frame
      (Expr.bindersAlts alts))
    (chooses : Chooses tags value Alt.pattern alts (some alt))
    (bound : alt.pattern.bind? env value = some inner)
    (read : frame subject.identifier = some value) :
    ∃ middle, Stmt.Runs module self frame (unpackCode subject alt.pattern)
      (.next middle) ∧
      Ready program tags host self (alt.binders ++ scope) inner middle
        alt.body.binders := by
  obtain ⟨member, agrees⟩ := chooses.mem
  have distinct : ((alt.binders ++ scope) ++ alt.body.binders).Nodup := by
    have inOrder := ready.distinct.sublist
      ((Expr.binders_sublist_bindersAlts member).append_left scope)
    rw [← List.append_assoc] at inOrder
    exact (List.perm_append_comm.append_right _).nodup_iff.mp inOrder
  cases alt with
  | con ctor args body =>
      obtain ⟨own, tag, fields, -, rfl, -⟩ :=
        Pattern.matches?_con_eq_some agrees
      unfold Alt.pattern Pattern.bind? at bound
      dsimp only at bound
      split at bound
      · rename_i count
        cases bound
        refine ⟨frame.setAll (args.map Name.identifier) fields, ?_, ready.hosts,
          ?_, distinct, ready.agrees.setAll args fields⟩
        · cases args with
          | nil => exact .nil
          | cons arg args => exact .unpack read count .nil
        · intro name isBound
          exact List.mem_append.mpr
            ((Store.mem_of_setAll_ne_none isBound).imp_right
            (ready.within name))
      · cases bound
  | _ =>
      cases bound
      exact ⟨frame, .nil, ready.hosts, ready.within, distinct, ready.agrees⟩

/-- A default binds nothing. -/
theorem Ready.ofDefault {inner : Env} {alts : List Alt} {alt : Alt}
    {value : Value} {host : Function} {self : Definition} {scope : List Name}
    {frame : Store Text}
    (ready : Ready program tags host self scope env frame
      (Expr.bindersAlts alts)) (chooses :
      Chooses tags value Alt.pattern alts (some alt))
    (bound : alt.pattern.bind? env value = some inner)
    (isDefault : alt.pattern = .default) :
    Ready program tags host self scope inner frame alt.body.binders := by
  rw [isDefault] at bound
  cases bound
  exact ready.part ((List.sublist_append_right _ _).trans
    (Expr.binders_sublist_bindersAlts chooses.mem.1))

/-- The value of a case analysis, once the subject was evaluated. -/
theorem Simulates.decision {inner : Env} {alts : List Alt} {alt : Alt}
    {subject : Var} {whole value : Value} {host : Function} {self : Definition}
    {scope : List Name} {frame : Store Text} {state after : State} {term : Term}
    {code : List Stmt}
    (simulates : Simulates program tags module inner alt.body value)
    (ready : Ready program tags host self scope env frame
      (Expr.bindersAlts alts)) (chooses :
      Chooses tags whole Alt.pattern alts (some alt))
    (bound : alt.pattern.bind? env whole = some inner)
    (read : frame subject.identifier = some whole)
    (ran : Lowering.decision (host.context tags) subject
      (Expr.lowerAlts (host.context tags) (Expr.unmarkedAlts alts)) state =
        .ok (term, after, code)) :
    Prepares module self (Kept (scope ++ Expr.bindersAlts alts) state.next
      after.next) frame
      code fun later => Term.Yields module self later term value := by
  rw [Expr.unmarkedAlts_eq_map] at ran
  rcases decision_cases chooses read ran with ⟨isDefault, bodyRan⟩ |
    ⟨result, before, last, bodyTerm, bodyCode, rfl, rfl, above, below, bodyRan,
      runsCode⟩
  · have bodyReady := ready.ofDefault chooses bound isDefault
    have fewer := (List.sublist_append_right alt.binders _).trans
      (Expr.binders_sublist_bindersAlts chooses.mem.1)
    exact (simulates bodyReady bodyRan).mono (fun v kept => kept.mono
      (fewer.append_left scope).subset (Nat.le_refl _) (Nat.le_refl _)) fun _ =>
        id
  · obtain ⟨middle, unpacked, bodyReady⟩ :=
      ready.unpack module chooses bound read
    have advances := (Expr.writes_of_unmarked bodyRan).1
    have assigned : Finishes module self (fun _ => False) frame _ _ value :=
      .prepend unpacked ((simulates bodyReady bodyRan).finishes.assign
        (.slot (-(state.next : Int))))
    rcases assigned with ⟨final, runs, yields⟩ | ⟨_, _, impossible⟩
    · refine ⟨final, runsCode _ runs, ?_⟩
      intro later same
      have own :
          Var.IsTemporary state.next after.next (.slot (-(state.next : Int))) :=
        ⟨state.next, Nat.le_refl _, by omega, rfl⟩
      cases yields with
      | var holds => exact .var ((same _ (.inr own)).symm.trans holds)
    · exact impossible.elim

/-- The value of a case analysis in tail position, once the subject was
evaluated. -/
theorem SimulatesTail.decision {inner : Env} {alts : List Alt} {alt : Alt}
    {subject : Var} {whole value : Value} {host : Function} {self : Definition}
    {scope : List Name} {frame : Store Text} {state after : State} {term : Term}
    {code : List Stmt}
    (simulates : SimulatesTail program tags module inner alt.body value)
    (ready : Ready program tags host self scope env frame
      (Expr.bindersAlts alts)) (chooses :
      Chooses tags whole Alt.pattern alts (some alt))
    (bound : alt.pattern.bind? env whole = some inner)
    (read : frame subject.identifier = some whole)
    (ran : Lowering.decision (host.context tags) subject
      (Expr.lowerAlts (host.context tags) (Expr.markedAlts host.name alts))
      state =
        .ok (term, after, code)) :
    Finishes module self (fun last => Definition.Loops module self last value)
      frame code term value := by
  rw [Expr.markedAlts_eq_map] at ran
  rcases decision_cases chooses read ran with ⟨isDefault, bodyRan⟩ |
    ⟨result, before, last, bodyTerm, bodyCode, rfl, rfl, above, below, bodyRan,
      runsCode⟩
  · exact simulates (ready.ofDefault chooses bound isDefault) bodyRan
  · obtain ⟨middle, unpacked, bodyReady⟩ :=
      ready.unpack module chooses bound read
    have assigned :=
      Finishes.prepend unpacked ((simulates bodyReady bodyRan).assign
      (.slot (-(state.next : Int))))
    rcases assigned with ⟨final, runs, yields⟩ | ⟨last, runs, loops⟩
    · exact .inl ⟨final, runsCode _ runs, yields⟩
    · exact .inr ⟨last, runsCode _ runs, loops⟩

/-- A case analysis evaluates its scrutinee, and then decides on a variable. -/
theorem Expr.lower_case_eq_ok {context : Context} {scrutinee : Expr}
    {alts : List Alt} {state after : State} {term : Term} {code : List Stmt}
    (ran : lower context (.case scrutinee alts) state =
      .ok (term, after, code)) :
    (∃ subject, scrutinee = .var subject ∧
      Lowering.decision context subject (lowerAlts context alts) state =
        .ok (term, after, code)) ∨
      ∃ first middle emitted further,
        scrutinee.lower context { state with next := state.next + 1 } =
          .ok (first, middle, emitted) ∧
        Lowering.decision context (.slot (-(state.next : Int)))
          (lowerAlts context alts) middle = .ok (term, after, further) ∧
        code = (emitted ++ if first.isRestart then []
          else [.assign (.slot (-(state.next : Int))) first]) ++ further := by
  cases compound : scrutinee.isVar with
  | true =>
      cases scrutinee with
      | var subject => exact .inl ⟨subject, rfl, ran⟩
      | _ => cases compound
  | false =>
      rw [lower_case_compound compound] at ran
      obtain ⟨subject, _, none, rest, freshRan, restRan, rfl⟩ :=
        bind_eq_ok.mp ran
      obtain ⟨rfl, rfl, rfl⟩ := fresh_eq_ok.mp freshRan
      obtain ⟨first, middle, emitted, others, scrutineeRan, othersRan, rfl⟩ :=
        bind_eq_ok.mp restRan
      obtain ⟨_, same, assigned, further, assignRan, decisionRan, rfl⟩ :=
        bind_eq_ok.mp othersRan
      obtain ⟨rfl, rfl⟩ := assign_eq_ok.mp assignRan
      refine .inr ⟨first, _, emitted, further, scrutineeRan, decisionRan, ?_⟩
      rw [List.nil_append, List.append_assoc]

/-- The code of a case analysis first leaves the value of the scrutinee in the
variable that is decided on. -/
theorem Simulates.subject {scrutinee : Expr} {alts : List Alt} {whole : Value}
    {host : Function} {self : Definition} {scope names : List Name}
    {frame : Store Text} {state after : State} {term : Term} {code : List Stmt}
    (simulates : Simulates program tags module env scrutinee whole)
    (ready : Ready program tags host self scope env frame
      (scrutinee.binders ++ names))
    (ran : Expr.lower (host.context tags) (.case scrutinee.unmarked alts)
      state = .ok (term, after, code)) :
    ∃ subject start first rest final, code = first ++ rest ∧
    state.next ≤ start.next ∧
      Stmt.Runs module self frame first (.next final) ∧
      final subject.identifier = some whole ∧
      Ready program tags host self scope env final names ∧
      Lowering.decision (host.context tags) subject
        (Expr.lowerAlts (host.context tags) alts) start =
          .ok (term, after, rest) := by
  have scrutineeReady := ready.part (List.sublist_append_left _ _)
  have apart := List.disjoint_of_nodup_append scrutineeReady.distinct
  rcases Expr.lower_case_eq_ok ran with ⟨subject, isVar, decisionRan⟩ |
    ⟨first, middle, emitted, further, scrutineeRan, decisionRan, rfl⟩
  · have readRan : scrutinee.unmarked.lower (host.context tags) state =
        .ok (.var subject, state, []) := by
      rw [isVar]
      rfl
    obtain ⟨final, runs, stable⟩ := simulates scrutineeReady readRan
    cases runs
    cases stable frame (.refl _ _) with
    | var holds =>
        exact ⟨subject, state, [], code, frame, rfl, Nat.le_refl _, .nil, holds,
          ready.part (List.sublist_append_right _ _), decisionRan⟩
  · obtain ⟨advances, writes⟩ := Expr.writes_of_unmarked scrutineeRan
    obtain ⟨final, runs, stable⟩ := simulates scrutineeReady scrutineeRan
    have yields := stable final (.refl _ _)
    rw [yields.isRestart_eq_false]
    have assigned : Stmt.Runs module self frame
        (emitted ++ [.assign (.slot (-(state.next : Int))) first]) _ :=
      runs.append (.assign yields .nil)
    have within : ∀ v ∈ Stmt.writesList
        (emitted ++ [.assign (.slot (-(state.next : Int))) first]),
        Kept scrutinee.binders state.next middle.next v := by
      intro v written
      rw [Stmt.writesList_append, List.mem_append] at written
      rcases written with before | own
      · exact (writes v before).mono (List.Subset.refl _) (Nat.le_succ _)
          (Nat.le_refl _)
      · rw [List.mem_singleton.mp own]
        exact .inr ⟨state.next, Nat.le_refl _, advances, rfl⟩
    exact ⟨_, middle, _, further, _, rfl, Nat.le_of_succ_le advances, assigned,
      Store.set_self .., (ready.part (List.sublist_append_right _ _)).after
        assigned within apart, decisionRan⟩

theorem Simulates.case {inner : Env} {scrutinee : Expr} {alts : List Alt}
    {alt : Alt} {whole value : Value}
    (subject : Simulates program tags module env scrutinee whole)
    (chooses : Chooses tags whole Alt.pattern alts (some alt))
    (bound : alt.pattern.bind? env whole = some inner)
    (simulates : Simulates program tags module inner alt.body value) :
    Simulates program tags module env (.case scrutinee alts) value := by
  intro host self scope frame ready state term after code ran
  rw [Expr.unmarked] at ran
  rw [Expr.binders] at ready ⊢
  obtain ⟨v, start, first, rest, final, rfl, advances, runs, read, altsReady,
    decisionRan⟩ :=
    subject.subject ready ran
  have decided := Simulates.decision simulates altsReady chooses bound
    read decisionRan
  refine Prepares.prepend runs (decided.mono ?_ fun _ => id)
  intro v kept
  exact kept.mono ((List.sublist_append_right _ _).append_left scope).subset
    advances (Nat.le_refl _)

theorem SimulatesTail.case {inner : Env} {scrutinee : Expr} {alts : List Alt}
    {alt : Alt} {whole value : Value}
    (subject : Simulates program tags module env scrutinee whole)
    (chooses : Chooses tags whole Alt.pattern alts (some alt))
    (bound : alt.pattern.bind? env whole = some inner)
    (simulates : SimulatesTail program tags module inner alt.body value) :
    SimulatesTail program tags module env (.case scrutinee alts) value := by
  intro host self scope frame ready state term after code ran
  rw [Expr.marked] at ran
  obtain ⟨v, start, first, rest, final, rfl, -, runs, read, altsReady,
    decisionRan⟩ :=
    subject.subject ready ran
  exact .prepend runs
    (SimulatesTail.decision simulates altsReady chooses bound read decisionRan)

end Rules

end TailLoop
