import TailLoop.Proofs.DecisionReach
import TailLoop.Proofs.IdentifierUniqueness

/-!
# Frames

How a run changes the frame of a function: suites run one after the other, a
decision runs the suite it leads to, and a run leaves alone all variables that
its statements do not assign.  No two variables share an identifier, so a frame
that agrees with an environment goes on to do so while other names and
temporaries are assigned.
-/

namespace TailLoop

namespace Store

variable {κ : Type} [DecidableEq κ]

@[simp] theorem set_self (store : Store κ) (key : κ) (value : Code.Value) :
    store.set key value key = some value :=
  Function.update_self ..

theorem set_of_ne {key other : κ} (different : other ≠ key) (store : Store κ)
    (value : Code.Value) : store.set key value other = store other :=
  Function.update_of_ne different ..

theorem setAll_of_not_mem {keys : List κ} {other : κ} (absent : other ∉ keys)
    (store : Store κ) (values : List Code.Value) :
    store.setAll keys values other = store other := by
  induction keys generalizing store values with
  | nil => rfl
  | cons key keys ih =>
      cases values with
      | nil => rfl
      | cons value values =>
          rw [List.mem_cons, not_or] at absent
          rw [setAll, ih absent.2, set_of_ne absent.1]

theorem mem_of_setAll_ne_none {keys : List κ} {key : κ} {store : Store κ}
    {values : List Code.Value} (bound : store.setAll keys values key ≠ none) :
    key ∈ keys ∨ store key ≠ none := by
  by_cases member : key ∈ keys
  · exact .inl member
  · rw [setAll_of_not_mem member] at bound
    exact .inr bound

end Store

namespace Code

section Runs

variable {module : Module} {self : Definition}

/-- How a run goes on with more statements: nothing runs after a restart. -/
def Ending.GoesOn (module : Module) (self : Definition) (more : List Stmt) :
    Ending → Ending → Prop
  | .next middle, ending => Stmt.Runs module self middle more ending
  | .restart last, ending => ending = .restart last

theorem Stmt.Runs.goOn {frame : Store Text} {code more : List Stmt}
    {middle ending : Ending} :
    Stmt.Runs module self frame code middle →
    middle.GoesOn module self more ending →
      Stmt.Runs module self frame (code ++ more) ending
  | .nil, later => later
  | .assign term rest, later => .assign term (rest.goOn later)
  | .unpack read count rest, later => .unpack read count (rest.goOn later)
  | .rebind terms count rest, later => .rebind terms count (rest.goOn later)
  | .continue, later => later ▸ .continue
  | .branch read chosen body rest, later =>
      .branch read chosen body (rest.goOn later)
  | .branchRestart read chosen body, later =>
      later ▸ .branchRestart read chosen body
termination_by structural first => first

theorem Stmt.Runs.append {frame middle : Store Text} {first second : List Stmt}
    {ending : Ending} (runs : Stmt.Runs module self frame first (.next middle))
    (later : Stmt.Runs module self middle second ending) :
    Stmt.Runs module self frame (first ++ second) ending :=
  runs.goOn later

theorem Stmt.Runs.append_of_restart {frame last : Store Text}
    {first : List Stmt}
      (runs : Stmt.Runs module self frame first (.restart last))
      (second : List Stmt) :
    Stmt.Runs module self frame (first ++ second) (.restart last) :=
  runs.goOn rfl

/-- A branch ends as the suite of its clause does. -/
theorem Stmt.Runs.ofClause {frame : Store Text} {subject : Var} {value : Value}
    {clauses : List Clause} {suite : List Stmt} {ending : Ending}
    (read : frame subject.identifier = some value)
    (chosen : Clause.chosen? value clauses = some suite)
    (runs : Stmt.Runs module self frame suite ending) :
    Stmt.Runs module self frame [.branch subject clauses] ending := by
  cases ending with
  | next middle => exact .branch read chosen runs .nil
  | restart last => exact .branchRestart read chosen runs

mutual

/-- A decision ends as the suite does to which it leads. -/
theorem Stmt.Runs.ofReached {frame : Store Text} {subject : Var} {value : Value}
    {suite : List Stmt} {ending : Ending}
    (read : frame subject.identifier = some value) (decision : Stmt)
    (found : Stmt.reached? subject value decision = some suite)
    (runs : Stmt.Runs module self frame suite ending) :
    Stmt.Runs module self frame [decision] ending := by
  unfold Stmt.reached? at found
  split at found
  · rename_i asked pivot low high
    split at found
    · rename_i same
      subst same
      split at found
      · rename_i below
        exact .ofClause read (by rw [Clause.chosen?, below])
          (.ofReachedList read low found runs)
      · rename_i above
        exact .ofClause read (by rw [Clause.chosen?, above]; rfl)
          (.ofReachedList read high found runs)
      · cases found
    · cases found
  · rename_i asked clauses _
    split at found
    · rename_i same
      subst same
      exact .ofClause read found runs
    · cases found
  · cases found

theorem Stmt.Runs.ofReachedList {frame : Store Text} {subject : Var}
    {value : Value} {suite : List Stmt} {ending : Ending}
    (read : frame subject.identifier = some value) (code : List Stmt)
    (found : Stmt.reachedList? subject value code = some suite)
    (runs : Stmt.Runs module self frame suite ending) :
    Stmt.Runs module self frame code ending := by
  unfold Stmt.reachedList? at found
  split at found
  · rename_i decision
    exact .ofReached read decision found runs
  · cases found

end

theorem Clause.writesList_subset_of_chosen? {value : Value}
    {clauses : List Clause} {suite : List Stmt}
    (chosen : Clause.chosen? value clauses = some suite) :
    Stmt.writesList suite ⊆ Stmt.writesClauses clauses := by
  induction clauses with
  | nil => cases chosen
  | cons clause clauses ih =>
      obtain ⟨guard, body⟩ := clause
      rw [Clause.chosen?] at chosen
      rw [Stmt.writesClauses]
      split at chosen
      · cases chosen
        exact List.subset_append_left _ _
      · exact List.subset_append_of_subset_right _ (ih chosen)
      · cases chosen

/-- The frame at the end of a run. -/
def Ending.frame : Ending → Store Text
  | .next frame => frame
  | .restart frame => frame

theorem Stmt.not_mem_writesList_cons {key : Text} {stmt : Stmt}
    {rest : List Stmt}
    (apart : key ∉ (Stmt.writesList (stmt :: rest)).map Var.identifier) :
    key ∉ stmt.writes.map Var.identifier ∧
    key ∉ (Stmt.writesList rest).map Var.identifier := by
  rw [Stmt.writesList, List.map_append, List.mem_append, not_or] at apart
  exact apart

theorem not_mem_identifiers {key : Text} {targets : List Name}
    (apart : key ∉ (targets.map Var.named).map Var.identifier) :
    key ∉ targets.map Name.identifier := by
  rw [List.map_map] at apart
  exact apart

theorem Clause.not_mem_writesList_of_chosen? {key : Text} {value : Value}
    {clauses : List Clause} {suite : List Stmt}
    (chosen : Clause.chosen? value clauses = some suite)
    (apart : key ∉ (Stmt.writesClauses clauses).map Var.identifier) :
    key ∉ (Stmt.writesList suite).map Var.identifier := by
  intro member
  exact apart (List.map_subset _ (writesList_subset_of_chosen? chosen) member)

/-- A run leaves alone what its statements do not assign. -/
theorem Stmt.Runs.frame_eq {frame : Store Text} {code : List Stmt}
    {ending : Ending} {key : Text} :
    Stmt.Runs module self frame code ending →
      key ∉ (Stmt.writesList code).map Var.identifier →
      ending.frame key = frame key
  | .nil, _ => rfl
  | .assign _ rest, apart =>
      have ⟨own, others⟩ := not_mem_writesList_cons apart
      (rest.frame_eq others).trans
        (Store.set_of_ne (fun same => own (List.mem_singleton.mpr same)) _ _)
  | .unpack _ _ rest, apart =>
      have ⟨own, others⟩ := not_mem_writesList_cons apart
      (rest.frame_eq others).trans
      (Store.setAll_of_not_mem (not_mem_identifiers own) _ _)
  | .rebind _ _ rest, apart =>
      have ⟨own, others⟩ := not_mem_writesList_cons apart
      (rest.frame_eq others).trans
      (Store.setAll_of_not_mem (not_mem_identifiers own) _ _)
  | .continue, _ => rfl
  | .branch _ chosen body rest, apart =>
      have ⟨own, others⟩ := not_mem_writesList_cons apart
      (rest.frame_eq others).trans
        (body.frame_eq (Clause.not_mem_writesList_of_chosen? chosen own))
  | .branchRestart _ chosen body, apart =>
      have ⟨own, _⟩ := not_mem_writesList_cons apart
      body.frame_eq (Clause.not_mem_writesList_of_chosen? chosen own)
termination_by structural first => first

end Runs

end Code

/-- Two frames give some variables the same values. -/
def SameOn (kept : Var → Prop) (one other : Store Text) : Prop :=
  ∀ v, kept v → one v.identifier = other v.identifier

namespace SameOn

variable {kept fewer : Var → Prop} {one other third : Store Text}

theorem refl (kept : Var → Prop) (one : Store Text) : SameOn kept one one :=
  fun _ _ => rfl

theorem trans (first : SameOn kept one other)
    (second : SameOn kept other third) :
    SameOn kept one third :=
  fun v member => (first v member).trans (second v member)

theorem mono (same : SameOn kept one other) (weaker : ∀ v, fewer v → kept v) :
    SameOn fewer one other :=
  fun v member => same v (weaker v member)

end SameOn

theorem Code.Stmt.Runs.sameOn {module : Code.Module} {self : Code.Definition}
    {frame final : Store Text} {code : List Code.Stmt} {kept : Var → Prop}
    (runs : Code.Stmt.Runs module self frame code (.next final))
    (apart : ∀ v ∈ Code.Stmt.writesList code, ¬ kept v) :
    SameOn kept frame final := by
  intro v member
  refine (runs.frame_eq ?_).symm
  intro written
  obtain ⟨w, wMember, same⟩ := List.mem_map.mp written
  cases Var.identifier_injective same
  exact apart _ wMember member

/-- The named variables and the temporaries between two numbers. -/
def Kept (names : List Name) (low high : Nat) (v : Var) : Prop :=
  (∃ name ∈ names, v = .named name) ∨ v.IsTemporary low high

namespace Kept

variable {names others : List Name} {low low' high high' : Nat} {v : Var}

theorem mono (kept : Kept names low high v) (more : names ⊆ others)
    (lower : low' ≤ low) (higher : high ≤ high') :
    Kept others low' high' v := by
  rcases kept with ⟨name, member, rfl⟩ | temporary
  · exact .inl ⟨name, more member, rfl⟩
  · exact .inr (temporary.mono lower higher)

theorem named {name : Name} (member : name ∈ names) :
    Kept names low high (.named name) :=
  .inl ⟨name, member, rfl⟩

/-- Other names and later temporaries are other variables. -/
theorem apart (kept : Kept names low high v) (distinct : names.Disjoint others)
    (later : high ≤ low') : ¬ Kept others low' high' v := by
  rintro (⟨name, member, rfl⟩ | ⟨number, above, _, rfl⟩)
  · rcases kept with ⟨_, own, same⟩ | ⟨_, _, _, same⟩
    · cases same
      exact distinct own member
    · cases same
  · rcases kept with ⟨_, _, same⟩ | ⟨_, _, below, same⟩
    · cases same
    · have : (number : Int) = _ := Int.neg_inj.mp (Var.slot.inj same)
      omega

end Kept

/-- A frame holds what an environment binds. -/
def Agrees (env : Env) (frame : Store Text) : Prop :=
  ∀ name value, env name = some value → frame name.identifier = some value

namespace Agrees

variable {env : Env} {frame : Store Text}

theorem empty (frame : Store Text) : Agrees Store.empty frame := by
  intro name value bound
  cases bound

theorem set (agrees : Agrees env frame) (name : Name) (value : Code.Value) :
    Agrees (env.set name value) (frame.set name.identifier value) := by
  intro other result bound
  by_cases same : other = name
  · subst same
    rw [Store.set_self] at bound ⊢
    exact bound
  · rw [Store.set_of_ne same] at bound
    rw [Store.set_of_ne fun equal => same (Name.identifier_injective equal)]
    exact agrees other result bound

theorem setAll (agrees : Agrees env frame) (names : List Name)
    (values : List Code.Value) :
    Agrees (env.setAll names values)
      (frame.setAll (names.map Name.identifier) values) := by
  induction names generalizing env frame values with
  | nil => exact agrees
  | cons name names ih =>
      cases values with
      | nil => exact agrees
      | cons value values => exact ih (agrees.set name value) values

/-- A frame goes on to agree while the bound names keep their values. -/
theorem ofSame {later : Store Text} {scope : List Name} {kept : Var → Prop}
    (agrees : Agrees env frame)
    (within : ∀ name, env name ≠ none → name ∈ scope)
    (keeps : ∀ name ∈ scope, kept (.named name))
    (same : SameOn kept frame later) :
    Agrees env later := by
  intro name value bound
  have member : name ∈ scope :=
    within name (by rw [bound]; exact Option.some_ne_none _)
  have unchanged := same (.named name) (keeps name member)
  exact unchanged.symm.trans (agrees name value bound)

end Agrees

end TailLoop
