import TailLoop.Core.Decode

/-!
# Programs written as documents

Every program has a document, and reading the document gives the program back.
Names are written as objects, so none of them depends on where its dots stand.
Fields that have their default may be written or left out.
-/

namespace TailLoop

namespace Encode

open Decode (Members)

/-- A node: its kind and its other fields. -/
def node (kind : Text) (fields : Members) : Json :=
  .obj (("kind", .str kind) :: fields)

/-- A field that a brief document leaves out where it has its default. -/
def optional (brief isDefault : Bool) (name : Text) (value : Json) : Members :=
  if brief && isDefault then [] else [(name, value)]

def name : Name → Json
  | .user text => .obj [("user", .str text)]
  | .scoped namespaces inner =>
      .obj [("ns", .arr (namespaces.map .str)), ("name", name inner)]
  | .machine index text => .obj [("mn", .arr [.int index, .str text])]

def names (names : List Name) : Json :=
  .arr (names.map name)

def constantFields : Const → Members
  | .int value => [("value", .int value)]
  | .bigInt value => [("value", .int value)]
  | .float value => [("value", .float value)]
  | .char value => [("value", .str [value])]
  | .string value => [("value", .str value)]
  | .world => []
  | .type => []

def constant (const : Const) : Json :=
  node const.kind.text (constantFields const)

section Styles

variable (brief : Bool)

def tagFields (tag : Option Int) : Members :=
  optional brief tag.isNone "tag" (tag.elim .null .int)

def numKindFields (kind : NumKind) : Members :=
  optional brief (kind = .int) "ty" (.str kind.text)

/-- The fields of an operation; only an external one is named. -/
def primFields : Prim → Members
  | .standard op kind => ("op", .str op.text) :: numKindFields brief kind
  | .external name kind =>
      ("op", .str Prim.externalText) :: ("name", .str name) ::
        numKindFields brief kind

mutual

def foreignTarget : ForeignTarget → Json
  | .named name => node "name" [("name", .str name)]
  | .con name => node "con" [("name", .str name)]
  | .app name args =>
      node "app" (("name", .str name) ::
        optional brief args.isEmpty "args" (.arr (foreignTargets args)))
  | .unknown => node "unknown" []

def foreignTargets : List ForeignTarget → List Json
  | [] => []
  | target :: targets => foreignTarget target :: foreignTargets targets

end

mutual

def expr : Expr → Json
  | .var (.named name) => node "var" [("name", Encode.name name)]
  | .var (.slot index) => node "loc" [("index", .int index)]
  | .app func args tail =>
      node "app" (("func", expr func) :: ("args", .arr (exprs args)) ::
        optional brief (!tail) "tail" (.bool tail))
  | .lazyApp name args =>
      node "lazyapp" [("name", Encode.name name), ("args", .arr (exprs args))]
  | .lazy body => node "lazy" [("expr", expr body)]
  | .force body => node "force" [("expr", expr body)]
  | .lam params body =>
      node "lam" [("params", names params), ("body", expr body)]
  | .letIn name value body =>
      node "let" [("name", Encode.name name), ("value", expr value),
        ("body", expr body)]
  | .con name args tag =>
      node "con" (("name", Encode.name name) :: ("args", .arr (exprs args)) ::
        tagFields brief tag)
  | .case scrutinee alts =>
      node "case" [("scrutinee", expr scrutinee),
        ("alts", .arr (Encode.alts alts))]
  | .proj body index => node "proj" [("expr", expr body), ("index", .int index)]
  | .lit const => node "const" [("value", constant const)]
  | .foreign target args =>
      node "foreign" [("target", foreignTarget brief target),
        ("args", .arr (exprs args))]
  | .op prim args =>
      node "op" (("args", .arr (exprs args)) :: primFields brief prim)
  | .fail message => node "error" [("message", .str message)]
  | .null => node "null" []

def exprs : List Expr → List Json
  | [] => []
  | item :: items => expr item :: exprs items

def alt : Alt → Json
  | .con ctor args body =>
      node "con" [("name", name ctor), ("args", names args),
        ("body", expr body)]
  | .const const body =>
      node "const" [("value", constant const), ("body", expr body)]
  | .default body => node "default" [("body", expr body)]

def alts : List Alt → List Json
  | [] => []
  | item :: items => alt item :: alts items

end

def declaration : Declaration → Json
  | .function function =>
      node "function" [("name", name function.name),
        ("params", names function.params), ("body", expr brief function.body)]
  | .constructor ctor =>
      node "constructor" (("name", name ctor.name) ::
        ("arity", .int ctor.arity) :: tagFields brief ctor.tag)

def program (program : Program) : Json :=
  .obj (("declarations", .arr (program.declarations.map (declaration brief))) ::
    optional brief (program.entry = .runMain) "entry" (name program.entry))

end Styles

end Encode

namespace Decode

section Fields

variable {members : Members} (brief : Bool)

@[simp] theorem find?_optional (isDefault : Bool) (name : Text) (value : Json) :
    Json.find? name (Encode.optional brief isDefault name value) =
      if brief && isDefault then none else some value := by
  unfold Encode.optional
  split
  · rfl
  · exact if_pos rfl

theorem listField_of_find? {name : Text} {items : List Json}
    (found : Json.find? name members = some (.arr items)) :
    ∃ row, listField name members = .ok row ∧ row.1 = items := by
  unfold listField
  split
  · rename_i others found'
    cases found.symm.trans found'
    exact ⟨_, rfl, rfl⟩
  · rename_i value other found'
    cases found.symm.trans found'
    exact (other items rfl).elim
  · rename_i absent
    cases found.symm.trans absent

theorem truth_tail (tail : Bool)
    (found : Json.find? "tail" members =
      Json.find? "tail" (Encode.optional brief (!tail) "tail" (.bool tail))) :
    (valueAt "tail" members).1.truth = tail := by
  rw [valueAt_fst, found, find?_optional]
  cases tail <;> cases brief <;> rfl

theorem tagField_tagFields (tag : Option Int)
    (found : Json.find? "tag" members =
      Json.find? "tag" (Encode.tagFields brief tag)) :
    tagField members = .ok tag := by
  rw [tagField, intField, found, Encode.tagFields, find?_optional]
  cases tag <;> cases brief <;> rfl

theorem numKind_numKindFields (kind : NumKind)
    (found : Json.find? "ty" members =
      Json.find? "ty" (Encode.numKindFields brief kind)) :
    numKind members = .ok kind := by
  rw [numKind, found, Encode.numKindFields, find?_optional]
  cases kind <;> cases brief <;> rfl

/-- Operations are told apart by their texts, and none has the text of an
external one. -/
theorem ofText?_text (op : PrimOp) :
    PrimOp.ofText? op.text = some op ∧ op.text ≠ Prim.externalText := by
  have listed : op ∈ PrimOp.all := by
    cases op <;> decide
  have distinct : ∀ op ∈ PrimOp.all,
      PrimOp.ofText? op.text = some op ∧ op.text ≠ Prim.externalText := by
    decide +kernel
  exact distinct op listed

theorem prim_primFields (operation : Prim)
    (found : ∀ name ∈ [Text.ofString "op", "name", "ty"],
      Json.find? name members =
        Json.find? name (Encode.primFields brief operation)) :
    prim members = .ok operation := by
  simp only [List.forall_mem_cons] at found
  obtain ⟨opFound, nameFound, kindFound, -⟩ := found
  cases operation with
  | standard op kind =>
      obtain ⟨known, notExternal⟩ := ofText?_text op
      have opRead : textField "op" members = .ok op.text := by
        rw [textField, opFound]
        rfl
      have kindRead : numKind members = .ok kind :=
        numKind_numKindFields brief kind kindFound
      rw [prim, opRead]
      show (if op.text = Prim.externalText then _ else _) = _
      rw [if_neg notExternal, known, kindRead]
      rfl
  | external name kind =>
      have kindRead : numKind members = .ok kind :=
        numKind_numKindFields brief kind kindFound
      rw [prim, textField, textField, opFound, nameFound, kindRead]
      rfl

end Fields

@[simp] theorem texts?_map_str (texts : List Text) :
    texts? (texts.map .str) = some texts := by
  induction texts with
  | nil => rfl
  | cons text texts ih => rw [List.map_cons, texts?, ih, Option.map_some]

theorem name_of_namespaces {members : Members} {namespaces : List Text}
    {inner : Name} (noUser : Json.find? "user" members = none)
    (parts : Json.find? "ns" members = some (.arr (namespaces.map .str)))
    (rest : Decode.name (valueAt "name" members).1 = .ok inner) :
    Decode.name (.obj members) = .ok (.scoped namespaces inner) := by
  have notUser : ¬ hasField "user" members = true := by
    rw [hasField, noUser]
    exact Bool.false_ne_true
  have inNamespaces : hasField "ns" members = true := by
    rw [hasField, parts]
    rfl
  obtain ⟨row, read, same⟩ := listField_of_find? parts
  rw [Decode.name, if_neg notUser, if_pos inNamespaces, read]
  dsimp only
  rw [same, texts?_map_str, rest]
  rfl

@[simp] theorem name_encode (name : Name) :
    Decode.name (Encode.name name) = .ok name := by
  induction name with
  | user text =>
      rw [Encode.name, Decode.name]
      rfl
  | «scoped» namespaces inner ih =>
      rw [Encode.name]
      exact name_of_namespaces rfl rfl ih
  | machine index text =>
      rw [Encode.name, Decode.name]
      rfl

@[simp] theorem names_encode (names : List Name) :
    Decode.names (names.map Encode.name) = .ok names := by
  induction names with
  | nil => rfl
  | cons name names ih =>
      rw [List.map_cons, Decode.names, name_encode, ih]
      rfl

@[simp] theorem constant_encode (const : Const) :
    constant (Encode.constant const) = .ok const := by
  cases const <;> rfl

mutual

theorem foreignTarget_encode (brief : Bool) (target : ForeignTarget) :
    foreignTarget (Encode.foreignTarget brief target) = .ok target := by
  cases target with
  | named name =>
      rw [Encode.foreignTarget, Encode.node, foreignTarget]
      rfl
  | con name =>
      rw [Encode.foreignTarget, Encode.node, foreignTarget]
      rfl
  | app name args =>
      rw [Encode.foreignTarget, Encode.node, foreignTarget, Encode.optional]
      cases omitted : brief && args.isEmpty with
      | true =>
          obtain rfl : args = [] :=
            List.isEmpty_iff.mp (Bool.and_eq_true_iff.mp omitted).2
          rfl
      | false =>
          show (do
            let args ← foreignTargets (Encode.foreignTargets brief args)
            return ForeignTarget.app name args) = _
          rw [foreignTargets_encode brief args]
          rfl
  | unknown =>
      rw [Encode.foreignTarget, Encode.node, foreignTarget]
      rfl

@[simp] theorem foreignTargets_encode (brief : Bool)
    (targets : List ForeignTarget) :
    foreignTargets (Encode.foreignTargets brief targets) = .ok targets := by
  cases targets with
  | nil =>
      rw [Encode.foreignTargets, foreignTargets]
      rfl
  | cons target targets =>
      rw [Encode.foreignTargets, foreignTargets,
        foreignTarget_encode brief target, foreignTargets_encode brief targets]
      rfl

end

mutual

@[simp] theorem expr_encode (brief : Bool) (expr : Expr) :
    Decode.expr (Encode.expr brief expr) = .ok expr := by
  cases expr with
  | var v =>
      cases v with
      | named name =>
          rw [Encode.expr, Encode.node, Decode.expr]
          show (do
            return Expr.var (.named (← Decode.name (Encode.name name)))) = _
          rw [name_encode]
          rfl
      | slot index =>
          rw [Encode.expr, Encode.node, Decode.expr]
          rfl
  | app func args tail =>
      rw [Encode.expr, Encode.node, Decode.expr]
      show (do
        let func ← Decode.expr (Encode.expr brief func)
        let args ← exprs (Encode.exprs brief args)
        return Expr.app func args (valueAt "tail" _).1.truth) = _
      rw [expr_encode brief func, exprs_encode brief args,
        truth_tail brief tail]
      · rfl
      · rfl
  | lazyApp name args =>
      rw [Encode.expr, Encode.node, Decode.expr]
      show (do
        let callee ← Decode.name (Encode.name name)
        let args ← exprs (Encode.exprs brief args)
        return Expr.lazyApp callee args) = _
      rw [name_encode, exprs_encode brief args]
      rfl
  | lazy body =>
      rw [Encode.expr, Encode.node, Decode.expr]
      show (do return Expr.lazy (← Decode.expr (Encode.expr brief body))) = _
      rw [expr_encode brief body]
      rfl
  | force body =>
      rw [Encode.expr, Encode.node, Decode.expr]
      show (do return Expr.force (← Decode.expr (Encode.expr brief body))) = _
      rw [expr_encode brief body]
      rfl
  | lam params body =>
      rw [Encode.expr, Encode.node, Decode.expr]
      show (do
        let params ← names (params.map Encode.name)
        return Expr.lam params (← Decode.expr (Encode.expr brief body))) = _
      rw [names_encode, expr_encode brief body]
      rfl
  | letIn name value body =>
      rw [Encode.expr, Encode.node, Decode.expr]
      show (do
        let binder ← Decode.name (Encode.name name)
        let value ← Decode.expr (Encode.expr brief value)
        return Expr.letIn binder value
          (← Decode.expr (Encode.expr brief body))) = _
      rw [name_encode, expr_encode brief value, expr_encode brief body]
      rfl
  | con name args tag =>
      rw [Encode.expr, Encode.node, Decode.expr]
      show (do
        let tag ← tagField _
        let ctor ← Decode.name (Encode.name name)
        let args ← exprs (Encode.exprs brief args)
        return Expr.con ctor args tag) = _
      rw [tagField_tagFields brief tag, name_encode, exprs_encode brief args]
      · rfl
      · rfl
  | case scrutinee alternatives =>
      rw [Encode.expr, Encode.node, Decode.expr]
      show (do
        let scrutinee ← Decode.expr (Encode.expr brief scrutinee)
        return Expr.case scrutinee (← alts (Encode.alts brief alternatives))) =
          _
      rw [expr_encode brief scrutinee, alts_encode brief alternatives]
      rfl
  | proj body index =>
      rw [Encode.expr, Encode.node, Decode.expr]
      show (do
        let body ← Decode.expr (Encode.expr brief body)
        return Expr.proj body index) = _
      rw [expr_encode brief body]
      rfl
  | lit const =>
      rw [Encode.expr, Encode.node, Decode.expr]
      show (do return Expr.lit (← constant (Encode.constant const))) = _
      rw [constant_encode]
      rfl
  | foreign target args =>
      rw [Encode.expr, Encode.node, Decode.expr]
      show (do
        let target ← foreignTarget (Encode.foreignTarget brief target)
        let args ← exprs (Encode.exprs brief args)
        return Expr.foreign target args) = _
      rw [foreignTarget_encode brief target, exprs_encode brief args]
      rfl
  | op operation args =>
      rw [Encode.expr, Encode.node, Decode.expr]
      show (do
        let operation ← prim _
        let args ← exprs (Encode.exprs brief args)
        return Expr.op operation args) = _
      rw [prim_primFields brief operation, exprs_encode brief args]
      · rfl
      · intro name member
        simp only [List.mem_cons, List.not_mem_nil, or_false] at member
        rcases member with rfl | rfl | rfl <;> rfl
  | fail message =>
      rw [Encode.expr, Encode.node, Decode.expr]
      rfl
  | null =>
      rw [Encode.expr, Encode.node, Decode.expr]
      rfl

@[simp] theorem exprs_encode (brief : Bool) (items : List Expr) :
    exprs (Encode.exprs brief items) = .ok items := by
  cases items with
  | nil =>
      rw [Encode.exprs, exprs]
      rfl
  | cons item items =>
      rw [Encode.exprs, exprs, expr_encode brief item, exprs_encode brief items]
      rfl

@[simp] theorem alt_encode (brief : Bool) (alternative : Alt) :
    alt (Encode.alt brief alternative) = .ok alternative := by
  cases alternative with
  | con ctor args body =>
      rw [Encode.alt, Encode.node, alt]
      show (do
        let ctor ← Decode.name (Encode.name ctor)
        let args ← names (args.map Encode.name)
        return Alt.con ctor args (← Decode.expr (Encode.expr brief body))) = _
      rw [name_encode, names_encode, expr_encode brief body]
      rfl
  | const value body =>
      rw [Encode.alt, Encode.node, alt]
      show (do
        let value ← constant (Encode.constant value)
        return Alt.const value (← Decode.expr (Encode.expr brief body))) = _
      rw [constant_encode, expr_encode brief body]
      rfl
  | default body =>
      rw [Encode.alt, Encode.node, alt]
      show (do return Alt.default (← Decode.expr (Encode.expr brief body))) = _
      rw [expr_encode brief body]
      rfl

@[simp] theorem alts_encode (brief : Bool) (items : List Alt) :
    alts (Encode.alts brief items) = .ok items := by
  cases items with
  | nil =>
      rw [Encode.alts, alts]
      rfl
  | cons item items =>
      rw [Encode.alts, alts, alt_encode brief item, alts_encode brief items]
      rfl

end

@[simp] theorem declaration_encode (brief : Bool) (declaration : Declaration) :
    Decode.declaration (Encode.declaration brief declaration) =
      .ok declaration := by
  cases declaration with
  | function function =>
      show (do
        let name ← Decode.name (Encode.name function.name)
        let params ← names (function.params.map Encode.name)
        let body ← expr (Encode.expr brief function.body)
        return Declaration.function ⟨name, params, body⟩) = _
      rw [name_encode, names_encode, expr_encode]
      rfl
  | constructor ctor =>
      rw [Encode.declaration, Encode.node, Decode.declaration]
      show (do
        let tag ← tagField _
        let name ← Decode.name (Encode.name ctor.name)
        return Declaration.constructor ⟨name, ctor.arity, tag⟩) = _
      rw [tagField_tagFields brief ctor.tag, name_encode]
      · rfl
      · rfl

@[simp] theorem declarations_encode (brief : Bool) (items : List Declaration) :
    declarations (items.map (Encode.declaration brief)) = .ok items := by
  induction items with
  | nil => rfl
  | cons item items ih =>
      rw [List.map_cons, declarations, declaration_encode, ih]
      rfl

end Decode

/-- Reading the document of a program gives the program back, whether fields
that have their default are written or left out. -/
theorem programs_read_back (brief : Bool) (program : Program) :
    Decode.program (Encode.program brief program) = .ok program := by
  obtain ⟨declarations, entry⟩ := program
  have declared := Decode.declarations_encode brief declarations
  rw [Encode.program, Encode.optional]
  cases omitted : brief && decide (entry = .runMain) with
  | true =>
      obtain rfl : entry = .runMain :=
        of_decide_eq_true (Bool.and_eq_true_iff.mp omitted).2
      show (do
        let declarations ← Decode.declarations
          (declarations.map (Encode.declaration brief))
        return Program.mk declarations .runMain) = _
      rw [declared]
      rfl
  | false =>
      show (do
        let declarations ← Decode.declarations
          (declarations.map (Encode.declaration brief))
        return Program.mk declarations (← Decode.name (Encode.name entry))) = _
      rw [declared, Decode.name_encode]
      rfl

end TailLoop
