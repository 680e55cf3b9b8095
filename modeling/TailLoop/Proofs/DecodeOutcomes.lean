import Mathlib.Tactic.Ring
import TailLoop.Core.Load
import TailLoop.Proofs.JsonReading

/-!
# What comes of decoding

A document is decoded to a program whose integers all stand in the document, or
a fault tells what is wrong.  The one fault without a code is met where an
integer out of range is given for a binary64 constant.
-/

namespace TailLoop

namespace Double

/-- The least integer that is rounded beyond the greatest finite number: the
middle between that number and the next power of two. -/
def integerLimit : Nat := (2 ^ 54 - 1) * 2 ^ 970

theorem le_of_roundDiv_eq {numerator denominator quotient : Nat}
    (rounded : roundDiv numerator denominator = quotient + 1) :
    (2 * quotient + 1) * denominator ≤ 2 * numerator := by
  have parts := Nat.div_add_mod numerator denominator
  have near : numerator / denominator = quotient + 1 ∨
      numerator / denominator = quotient ∧
      denominator ≤ 2 * (numerator % denominator) := by
    unfold roundDiv at rounded
    dsimp only at rounded
    split at rounded
    · exact .inl rounded
    · split at rounded <;> omega
  have expand : (2 * quotient + 1) * denominator =
      2 * (denominator * quotient) + denominator := by ring
  rcases near with above | ⟨same, half⟩
  · rw [above, Nat.mul_succ] at parts
    omega
  · rw [same] at parts
    omega

theorem exponentFor_le (numerator : Nat) :
    exponentFor numerator 1 ≤ (numerator.log2 : Int) - 52 := by
  have one : Nat.log2 1 = 0 := rfl
  unfold exponentFor
  rw [one]
  dsimp only
  split <;> omega

section

variable {n power : Nat} (small : n < (2 ^ 54 - 1) * 2 ^ power)

include small

theorem log2_lt_of_lt (nonzero : n ≠ 0) : n.log2 < 54 + power := by
  rw [Nat.log2_lt nonzero, Nat.pow_add]
  exact Nat.lt_of_lt_of_le small (Nat.mul_le_mul_right _ (Nat.sub_le _ _))

/-- A mantissa of 53 bits is not rounded up to the next power of two. -/
theorem scaled_ne_of_lt : scaled n 1 (.ofNat (power + 1)) ≠ Nat.pow 2 53 := by
  intro rounded
  have half : (2 * (2 ^ 53 - 1) + 1) * (1 * 2 ^ (power + 1)) ≤ 2 * n :=
    le_of_roundDiv_eq rounded
  rw [Nat.pow_succ'] at half
  omega

end

theorem ofRatio_finite (negative : Bool) {n : Nat} (small : n < integerLimit) :
    ∃ mantissa exponent, ofRatio negative n 1 =
      .finite negative mantissa exponent := by
  unfold ofRatio
  split
  · exact ⟨0, leastExponent, rfl⟩
  · rename_i nonzero
    have bits := log2_lt_of_lt small nonzero
    have exponentBound := exponentFor_le n
    have least : leastExponent = -1074 := rfl
    have greatest : greatestExponent = 971 := rfl
    dsimp only
    generalize exponentFor n 1 = exponent at exponentBound
    by_cases rounded : scaled n 1 (max exponent leastExponent) = Nat.pow 2 53
    · have below : max exponent leastExponent ≠ greatestExponent := by
        intro same
        rw [same] at rounded
        exact scaled_ne_of_lt small rounded
      rw [if_pos rounded]
      dsimp only
      rw [if_neg (by omega)]
      exact ⟨_, _, rfl⟩
    · rw [if_neg rounded]
      dsimp only
      rw [if_neg (by omega)]
      exact ⟨_, _, rfl⟩

theorem integerLimit_le_of_ofInt?_eq_none {n : Int} (failed : ofInt? n = none) :
    integerLimit ≤ n.natAbs := by
  by_contra small
  obtain ⟨mantissa, exponent, finite⟩ :=
    ofRatio_finite (decide (n < 0)) (Nat.lt_of_not_le small)
  rw [ofInt?, finite] at failed
  cases failed

example : ofInt? integerLimit = none ∧ (ofInt? (integerLimit - 1)).isSome =
    true := by
  decide +kernel

end Double

namespace Json

/-- Somewhere in the document stands a binary64 constant given as an integer out
of range. -/
inductive HoldsWide : Json → Prop where
  | here {members : List (Text × Json)} {n : Int} :
      find? "kind" members = some (.str "float") →
      find? "value" members = some (.int n) →
      Double.integerLimit ≤ n.natAbs → HoldsWide (.obj members)
  | item {items : List Json} {item : Json} :
      item ∈ items → HoldsWide item → HoldsWide (.arr items)
  | member {members : List (Text × Json)} {name : Text} {value : Json} :
      find? name members = some value → HoldsWide value →
      HoldsWide (.obj members)

/-- What a part of a document holds the document holds, too. -/
structure Spreads (holds : Json → Prop) : Prop where
  null : ¬ holds .null
  item : ∀ {items : List Json} {item : Json},
    item ∈ items → holds item → holds (.arr items)
  member : ∀ {members : List (Text × Json)} {name : Text} {value : Json},
    find? name members = some value → holds value → holds (.obj members)

theorem HoldsWide.spreads : Spreads HoldsWide where
  null := by rintro ⟨⟩
  item := .item
  member := .member

theorem HoldsInt.spreads (n : Int) : Spreads (HoldsInt n) where
  null := by rintro ⟨⟩
  item := .item
  member := .member

namespace Spreads

open Decode (Members valueAt listField)

variable {holds : Json → Prop} (spreads : Spreads holds)

include spreads

theorem of_valueAt {name : Text} {members : Members}
    (inside : holds (valueAt name members).1) : holds (.obj members) := by
  rw [Decode.valueAt_fst] at inside
  cases found : find? name members with
  | none =>
      rw [found] at inside
      exact (spreads.null inside).elim
  | some value =>
      rw [found] at inside
      exact spreads.member found inside

theorem of_listField {name : Text} {members : Members}
    {items : { items : List Json // sizeOf items < sizeOf (obj members) }}
    (read : listField name members = .ok items)
    (inside : holds (.arr items.1)) :
    holds (.obj members) :=
  spreads.member (Decode.find?_of_listField read) inside

end Spreads

theorem HoldsWide.cons {item : Json} {items : List Json}
    (wide : (arr items).HoldsWide) : (arr (item :: items)).HoldsWide := by
  cases wide with
  | item member wide => exact .item (List.mem_cons_of_mem _ member) wide

theorem HoldsInt.cons {n : Int} {item : Json} {items : List Json}
    (holds : (arr items).HoldsInt n) : (arr (item :: items)).HoldsInt n := by
  cases holds with
  | item member holds => exact .item (List.mem_cons_of_mem _ member) holds

/-- All the integers stand in the document. -/
def Covers (json : Json) (integers : List Int) : Prop :=
  ∀ n ∈ integers, json.HoldsInt n

namespace Covers

open Decode (Members valueAt listField)

variable {integers others : List Int} {item : Json} {items : List Json}
  {members : Members} {name : Text}

theorem nil (json : Json) : json.Covers [] :=
  List.forall_mem_nil _

theorem append {json : Json} (first : json.Covers integers)
    (second : json.Covers others) : json.Covers (integers ++ others) :=
  List.forall_mem_append.mpr ⟨first, second⟩

theorem cons {json : Json} {n : Int} (first : json.HoldsInt n)
    (second : json.Covers integers) : json.Covers (n :: integers) :=
  List.forall_mem_cons.mpr ⟨first, second⟩

theorem of_valueAt (covers : (valueAt name members).1.Covers integers) :
    (obj members).Covers integers :=
  fun n inside => (HoldsInt.spreads n).of_valueAt (covers n inside)

theorem of_listField
    {items : { items : List Json // sizeOf items < sizeOf (obj members) }}
    (read : listField name members = .ok items)
    (covers : (arr items.1).Covers integers) : (obj members).Covers integers :=
  fun n inside => (HoldsInt.spreads n).of_listField read (covers n inside)

theorem head (covers : item.Covers integers) :
    (arr (item :: items)).Covers integers :=
  fun n inside => .item List.mem_cons_self (covers n inside)

theorem tail (covers : (arr items).Covers integers) :
    (arr (item :: items)).Covers integers :=
  fun n inside => (covers n inside).cons

end Covers

end Json

@[simp] def Name.integers : Name → List Int
  | .user _ => []
  | .scoped _ name => name.integers
  | .machine index _ => [index]

@[simp] def Var.integers : Var → List Int
  | .slot index => [index]
  | .named name => name.integers

@[simp] def Const.integers : Const → List Int
  | .int value => [value]
  | .bigInt value => [value]
  | _ => []

namespace Expr

mutual

/-- The integers in an expression. -/
@[simp] def integers : Expr → List Int
  | .var v => v.integers
  | .app func args _ => integers func ++ integersList args
  | .lazyApp name args => name.integers ++ integersList args
  | .lazy body => integers body
  | .force body => integers body
  | .lam params body => params.flatMap Name.integers ++ integers body
  | .letIn name value body => name.integers ++ (integers value ++ integers body)
  | .con name args tag => tag.toList ++ (name.integers ++ integersList args)
  | .case scrutinee alts => integers scrutinee ++ integersAlts alts
  | .proj body index => integers body ++ [index]
  | .lit const => const.integers
  | .foreign _ args => integersList args
  | .op _ args => integersList args
  | .fail _ => []
  | .null => []

@[simp] def integersList : List Expr → List Int
  | [] => []
  | expr :: exprs => integers expr ++ integersList exprs

@[simp] def integersAlts : List Alt → List Int
  | [] => []
  | alt :: alts => integersAlt alt ++ integersAlts alts

@[simp] def integersAlt : Alt → List Int
  | .con ctor args body =>
      ctor.integers ++ (args.flatMap Name.integers ++ integers body)
  | .const const body => const.integers ++ integers body
  | .default body => integers body

end

end Expr

@[simp] def Declaration.integers : Declaration → List Int
  | .function ⟨name, params, body⟩ =>
      name.integers ++ (params.flatMap Name.integers ++ body.integers)
  | .constructor ⟨name, arity, tag⟩ => tag.toList ++ (name.integers ++ [arity])

theorem Const.Kind.text_of_ofText? {text : Text} {kind : Const.Kind}
    (found : ofText? text = some kind) : kind.text = text := by
  have chosen := List.find?_some found
  exact of_decide_eq_true chosen

namespace Decode

/-- What is decoded is good, and the fault that has no code is met only under
the condition. -/
def Yields {α : Type} (condition : Prop) (good : α → Prop) :
    Except Fault α → Prop
  | .ok value => good value
  | .error fault => fault = .floatRange → condition

namespace Yields

variable {α β : Type} {condition : Prop} {good : α → Prop} {also : β → Prop}
  {result : Except Fault α}

theorem ok {value : α} (isGood : good value) :
    Yields condition good (.ok value) :=
  isGood

theorem error {fault : Fault} (coded : fault.code?.isSome = true) :
    Yields condition good (.error fault) := by
  rintro rfl
  cases coded

theorem mono {weaker : Prop} {broader : α → Prop}
    (yields : Yields condition good result) (weakens : condition → weaker)
    (broadens : ∀ value, good value → broader value) :
    Yields weaker broader result := by
  cases result with
  | ok value => exact broadens value yields
  | error fault => exact fun range => weakens (yields range)

theorem bind {next : α → Except Fault β} (first : Yields condition good result)
    (rest : ∀ value, result = .ok value → good value →
      Yields condition also (next value)) :
    Yields condition also (result >>= next) := by
  cases result with
  | ok value => exact rest value rfl first
  | error fault => exact first

theorem map (yields : Yields condition good result) {f : α → β}
    (maps : ∀ value, good value → also (f value)) :
    Yields condition also (result.map f) := by
  cases result with
  | ok value => exact maps value yields
  | error fault => exact yields

/-- A fault is handed on. -/
theorem relay (yields : Yields condition good result) {fault : Fault}
    (failed : result = .error fault) :
    Yields condition also (.error fault) := by
  rw [failed] at yields
  exact yields

end Yields

section Leaves

variable {condition : Prop} {members : Members}

theorem textField_yields (name : Text) :
    Yields condition (fun value => Json.find? name members = some (.str value))
      (textField name members) := by
  unfold textField
  split
  · rename_i found
    exact .ok found
  · exact .error rfl
  · exact .error rfl

theorem intField_yields (name : Text) :
    Yields condition (fun n => (Json.obj members).HoldsInt n)
      (intField name members) := by
  unfold intField
  split
  · rename_i found
    exact .ok (.member found .here)
  · exact .error rfl
  · exact .error rfl

theorem listField_yields (name : Text) :
    Yields condition (fun _ => True) (listField name members) := by
  unfold listField
  split
  · exact .ok trivial
  · exact .error rfl
  · exact .error rfl

/-- An integer is converted to a binary64 number unless it is out of range. -/
theorem floatField_yields (name : Text) :
    Yields (∃ n : Int, Json.find? name members = some (.int n) ∧
      Double.integerLimit ≤ n.natAbs) (fun _ => True)
      (floatField name members) := by
  unfold floatField
  split
  · exact .ok trivial
  · rename_i n found
    split
    · exact .ok trivial
    · rename_i wide
      exact fun _ =>
        ⟨n, found, Double.integerLimit_le_of_ofInt?_eq_none wide⟩
  · exact .error rfl
  · exact .error rfl

theorem tagField_yields :
    Yields condition (fun tag => (Json.obj members).Covers tag.toList)
      (tagField members) := by
  unfold tagField
  split
  · exact .ok (.nil _)
  · exact .ok (.nil _)
  · exact (intField_yields "tag").map fun n holds => .cons holds (.nil _)

theorem chosen_yields {α : Type} (choice : Choice) (table : List (Text × α))
    (word : Text) :
    Yields condition (fun _ => True) (chosen choice table word) := by
  unfold chosen
  split
  · exact .ok trivial
  · exact .error rfl

theorem numKind_yields : Yields condition (fun _ => True)
    (numKind members) := by
  unfold numKind
  split
  · exact .ok trivial
  · dsimp only
    split
    · exact .ok trivial
    · exact .error rfl

theorem prim_yields : Yields condition (fun _ => True) (prim members) := by
  refine .bind (textField_yields "op") fun op _ _ => ?_
  split
  · refine .bind numKind_yields fun kind _ _ => ?_
    exact .bind (textField_yields "name") fun _ _ _ => .ok trivial
  · split
    · exact .error rfl
    · exact .bind numKind_yields fun _ _ _ => .ok trivial

@[simp] theorem integers_nameOfText (text : Text) :
    (nameOfText text).integers = [] := by
  unfold nameOfText
  dsimp only
  split
  · split <;> rfl
  · rfl

theorem name_yields (json : Json) :
    Yields condition (fun name => json.Covers name.integers) (name json) := by
  fun_induction name json with
  | case1 text =>
      refine .ok ?_
      rw [integers_nameOfText]
      exact .nil _
  | case2 members _ => exact (textField_yields "user").map fun _ _ => .nil _
  | case3 members _ _ fault failed => exact (listField_yields "ns").relay failed
  | case4 members _ _ parts _ _ => exact .error rfl
  | case5 members _ _ parts _ namespaces _ ih =>
      exact ih.map fun _ covers => covers.of_valueAt
  | case6 members _ _ _ fault failed =>
      exact (listField_yields "mn").relay failed
  | case7 members _ _ _ pair read index text form =>
      refine .ok (.of_listField read ?_)
      rw [form]
      exact .head (.cons .here (.nil _))
  | case8 members _ _ _ pair _ _ => exact .error rfl
  | case9 members _ _ _ => exact .error rfl
  | case10 json _ _ => exact .error rfl

theorem names_yields (items : List Json) :
    Yields condition
      (fun names => (Json.arr items).Covers (names.flatMap Name.integers))
      (names items) := by
  induction items with
  | nil => exact .ok (.nil _)
  | cons item items ih =>
      refine .bind (name_yields item) fun first _ own => ?_
      exact .bind ih fun rest _ others => .ok (own.head.append others.tail)

end Leaves

/-- A number out of range is an integer that is given for a binary64
constant. -/
theorem constant_yields (json : Json) :
    Yields json.HoldsWide (fun const => json.Covers const.integers)
      (constant json) := by
  unfold constant
  split
  · rename_i members
    refine .bind (textField_yields "kind") fun kind _ place => ?_
    split
    · exact .error rfl
    · exact .bind (intField_yields "value") fun _ _ holds =>
        .ok (.cons holds (.nil _))
    · exact .bind (intField_yields "value") fun _ _ holds =>
        .ok (.cons holds (.nil _))
    · rename_i found
      have float : Text.ofString "float" = kind :=
        Const.Kind.text_of_ofText? found
      rw [← float] at place
      have value : Yields (Json.obj members).HoldsWide (fun _ => True)
          (floatField "value" members) := by
        refine (floatField_yields "value").mono ?_ fun _ => id
        rintro ⟨n, given, wide⟩
        exact .here place given wide
      exact .bind value fun _ _ _ => .ok (.nil _)
    · refine .bind (textField_yields "value") fun text _ _ => ?_
      split
      · exact .ok (.nil _)
      · exact .error rfl
    · exact .bind (textField_yields "value") fun _ _ _ => .ok (.nil _)
    · exact .ok (.nil _)
    · exact .ok (.nil _)
  · exact .error rfl

mutual

theorem foreignTarget_yields {condition : Prop} (json : Json) :
    Yields condition (fun _ => True) (foreignTarget json) := by
  rw [foreignTarget.eq_def]
  cases json with
  | obj members =>
      refine .bind (textField_yields "kind") fun word _ _ => ?_
      refine .bind (chosen_yields _ _ _) fun kind _ _ => ?_
      cases kind with
      | named => exact .bind (textField_yields "name") fun _ _ _ => .ok trivial
      | con => exact .bind (textField_yields "name") fun _ _ _ => .ok trivial
      | app =>
          dsimp only
          split
          · refine .bind (listField_yields "args") fun items _ _ => ?_
            refine .bind (foreignTargets_yields items.1) fun args _ _ => ?_
            exact .bind (textField_yields "name") fun _ _ _ => .ok trivial
          · exact .bind (textField_yields "name") fun _ _ _ => .ok trivial
      | unknown => exact .ok trivial
  | _ => exact .error rfl
termination_by sizeOf json
decreasing_by exact sizeOf_items _

theorem foreignTargets_yields {condition : Prop} (items : List Json) :
    Yields condition (fun _ => True) (foreignTargets items) := by
  cases items with
  | nil =>
      rw [foreignTargets]
      exact .ok trivial
  | cons item items =>
      rw [foreignTargets]
      exact .bind (foreignTarget_yields item) fun _ _ _ =>
        .bind (foreignTargets_yields items) fun _ _ _ => .ok trivial
termination_by sizeOf items

end

mutual

theorem expr_yields (json : Json) :
    Yields json.HoldsWide (fun expr => json.Covers expr.integers)
      (expr json) := by
  rw [expr.eq_def]
  cases json with
  | obj members =>
      have part (name : Text) : Yields (Json.obj members).HoldsWide
          (fun expr => (Json.obj members).Covers expr.integers)
          (expr (valueAt name members).1) :=
        (expr_yields (valueAt name members).1).mono
          Json.HoldsWide.spreads.of_valueAt fun _ => .of_valueAt
      have row {name : Text} (items : { items : List Json // _ })
          (read : listField name members = .ok items) :
          Yields (Json.obj members).HoldsWide
            (fun exprs => (Json.obj members).Covers (Expr.integersList exprs))
            (exprs items.1) :=
        (exprs_yields items.1).mono
          (Json.HoldsWide.spreads.of_listField read) fun _ => .of_listField read
      have called : Yields (Json.obj members).HoldsWide
          (fun name => (Json.obj members).Covers name.integers)
          (name (valueAt "name" members).1) :=
        (name_yields _).mono id fun _ => .of_valueAt
      refine .bind (textField_yields "kind") fun word _ _ => ?_
      refine .bind (chosen_yields _ _ _) fun kind _ _ => ?_
      cases kind with
      | var => exact .bind called fun _ _ name => .ok name
      | loc =>
          exact .bind (intField_yields "index") fun _ _ index =>
            .ok (.cons index (.nil _))
      | app =>
          refine .bind (part "func") fun func _ callee => ?_
          refine .bind (listField_yields "args") fun items read _ => ?_
          exact .bind (row items read) fun _ _ args => .ok (callee.append args)
      | lazyApp =>
          refine .bind called fun _ _ callee => ?_
          refine .bind (listField_yields "args") fun items read _ => ?_
          exact .bind (row items read) fun _ _ args => .ok (callee.append args)
      | lazy => exact .bind (part "expr") fun _ _ body => .ok body
      | force => exact .bind (part "expr") fun _ _ body => .ok body
      | lam =>
          refine .bind (listField_yields "params") fun items read _ => ?_
          refine .bind (names_yields items.1) fun _ _ params => ?_
          exact .bind (part "body") fun _ _ body =>
            .ok (.append (.of_listField read params) body)
      | letIn =>
          refine .bind called fun _ _ binder => ?_
          refine .bind (part "value") fun _ _ value => ?_
          exact .bind (part "body") fun _ _ body =>
            .ok (binder.append (value.append body))
      | con =>
          refine .bind tagField_yields fun _ _ tag => ?_
          refine .bind called fun _ _ ctor => ?_
          refine .bind (listField_yields "args") fun items read _ => ?_
          exact .bind (row items read) fun _ _ args =>
            .ok (tag.append (ctor.append args))
      | case =>
          refine .bind (part "scrutinee") fun _ _ scrutinee => ?_
          refine .bind (listField_yields "alts") fun items read _ => ?_
          have alts := (alts_yields items.1).mono
            (Json.HoldsWide.spreads.of_listField read)
            fun _ => Json.Covers.of_listField read
          exact .bind alts fun _ _ alts => .ok (scrutinee.append alts)
      | proj =>
          refine .bind (part "expr") fun _ _ body => ?_
          exact .bind (intField_yields "index") fun _ _ index =>
            .ok (body.append (.cons index (.nil _)))
      | const =>
          have value := (constant_yields (valueAt "value" members).1).mono
            Json.HoldsWide.spreads.of_valueAt fun _ => Json.Covers.of_valueAt
          exact .bind value fun _ _ const => .ok const
      | foreign =>
          refine .bind (foreignTarget_yields _) fun _ _ _ => ?_
          refine .bind (listField_yields "args") fun items read _ => ?_
          exact .bind (row items read) fun _ _ args => .ok args
      | op =>
          refine .bind prim_yields fun _ _ _ => ?_
          refine .bind (listField_yields "args") fun items read _ => ?_
          exact .bind (row items read) fun _ _ args => .ok args
      | error =>
          exact .bind (textField_yields "message") fun _ _ _ => .ok (.nil _)
      | null => exact .ok (.nil _)
  | _ => exact .error rfl
termination_by sizeOf json
decreasing_by all_goals first | exact sizeOf_valueAt _ _ | exact sizeOf_items _

theorem exprs_yields (items : List Json) :
    Yields (Json.arr items).HoldsWide
      (fun exprs => (Json.arr items).Covers (Expr.integersList exprs))
      (exprs items) := by
  cases items with
  | nil =>
      rw [exprs]
      exact .ok (.nil _)
  | cons item items =>
      rw [exprs]
      refine .bind ((expr_yields item).mono (.item List.mem_cons_self)
        fun _ => id) fun _ _ own => ?_
      exact .bind ((exprs_yields items).mono .cons fun _ => id)
        fun _ _ others => .ok (own.head.append others.tail)
termination_by sizeOf items

theorem alt_yields (json : Json) :
    Yields json.HoldsWide (fun alt => json.Covers (Expr.integersAlt alt))
      (alt json) := by
  rw [alt.eq_def]
  cases json with
  | obj members =>
      have body := (expr_yields (valueAt "body" members).1).mono
        Json.HoldsWide.spreads.of_valueAt fun _ => Json.Covers.of_valueAt
      refine .bind (textField_yields "kind") fun word _ _ => ?_
      refine .bind (chosen_yields _ _ _) fun kind _ _ => ?_
      cases kind with
      | con =>
          refine .bind (name_yields _) fun _ _ ctor => ?_
          refine .bind (listField_yields "args") fun items read _ => ?_
          refine .bind (names_yields items.1) fun _ _ args => ?_
          exact .bind body fun _ _ body =>
            .ok
              (ctor.of_valueAt.append (.append (.of_listField read args) body))
      | const =>
          have value := (constant_yields (valueAt "value" members).1).mono
            Json.HoldsWide.spreads.of_valueAt fun _ => Json.Covers.of_valueAt
          refine .bind value fun _ _ const => ?_
          exact .bind body fun _ _ body => .ok (const.append body)
      | default => exact .bind body fun _ _ body => .ok body
  | _ => exact .error rfl
termination_by sizeOf json
decreasing_by all_goals exact sizeOf_valueAt _ _

theorem alts_yields (items : List Json) :
    Yields (Json.arr items).HoldsWide
      (fun alts => (Json.arr items).Covers (Expr.integersAlts alts))
      (alts items) := by
  cases items with
  | nil =>
      rw [alts]
      exact .ok (.nil _)
  | cons item items =>
      rw [alts]
      refine .bind ((alt_yields item).mono (.item List.mem_cons_self)
        fun _ => id) fun _ _ own => ?_
      exact .bind ((alts_yields items).mono .cons fun _ => id)
        fun _ _ others => .ok (own.head.append others.tail)
termination_by sizeOf items

end

theorem declaration_yields (json : Json) :
    Yields json.HoldsWide (fun declaration => json.Covers declaration.integers)
      (declaration json) := by
  unfold declaration
  split
  · rename_i members
    refine .bind (textField_yields "kind") fun word _ _ => ?_
    refine .bind (chosen_yields _ _ _) fun kind _ _ => ?_
    cases kind with
    | function =>
        have body := (expr_yields (valueAt "body" members).1).mono
          Json.HoldsWide.spreads.of_valueAt fun _ => Json.Covers.of_valueAt
        refine .bind (name_yields _) fun _ _ name => ?_
        refine .bind (listField_yields "params") fun items read _ => ?_
        refine .bind (names_yields items.1) fun _ _ params => ?_
        exact .bind body fun _ _ body =>
          .ok
            (name.of_valueAt.append (.append (.of_listField read params) body))
    | constructor =>
        refine .bind tagField_yields fun _ _ tag => ?_
        refine .bind (name_yields _) fun _ _ name => ?_
        exact .bind (intField_yields "arity") fun _ _ arity =>
          .ok (tag.append (name.of_valueAt.append (.cons arity (.nil _))))
  · exact .error rfl

theorem declarations_yields (items : List Json) :
    Yields (Json.arr items).HoldsWide
      (fun declarations =>
        (Json.arr items).Covers (declarations.flatMap Declaration.integers))
      (declarations items) := by
  induction items with
  | nil => exact .ok (.nil _)
  | cons item items ih =>
      refine .bind ((declaration_yields item).mono (.item List.mem_cons_self)
        fun _ => id) fun _ _ own => ?_
      exact .bind (ih.mono .cons fun _ => id)
        fun _ _ others => .ok (own.head.append others.tail)

/-- The integers of the declarations stand in the document. -/
theorem program_yields (json : Json) :
    Yields json.HoldsWide
      (fun program =>
        json.Covers (program.declarations.flatMap Declaration.integers))
      (program json) := by
  unfold program
  split
  · refine .bind (listField_yields "declarations") fun items read _ => ?_
    refine .bind ((declarations_yields items.1).mono
      (Json.HoldsWide.spreads.of_listField read)
      fun _ => Json.Covers.of_listField read) fun _ _ covers => ?_
    split
    · exact .bind (name_yields _) fun _ _ _ => .ok covers
    · exact .ok covers
  · exact .error rfl

theorem Fault.code?_cases (fault : Fault) :
    fault = .floatRange ∨ fault.code? = some "E002" ∨
      fault.code? = some "E003" := by
  cases fault with
  | floatRange => exact .inl rfl
  | unknown choice found => exact .inr (.inr rfl)
  | _ => exact .inr (.inl rfl)

end Decode

end TailLoop
