import LetFn.Proofs.Eval.Plain
import LetFn.Proofs.Program.Places

/-! Evaluation does not look at tokens and places. With others in a program and in the functions a
heap holds, it goes on for as long, and only the functions it results in differ, in these. -/

namespace LetFn

section

variable (f : Token → Token) (g : Span → Span)

def Closure.relabel (c : Closure) : Closure :=
  { c with parameters := c.parameters.map (Ident.relabel f), body := c.body.relabel f g }

def Value.relabel : Value → Value
  | fn closure => fn (closure.relabel f g)
  | returned value => returned value.relabel
  | int value => int value
  | bool value => bool value
  | error message => error message
  | null => null

abbrev Heap.relabel : Heap → Heap := Heap.map (Value.relabel f g)

abbrev Eval.relabelResult : Value × Heap → Value × Heap :=
  Prod.map (Value.relabel f g) (Heap.relabel f g)

end

namespace Value

variable {f : Token → Token} {g : Span → Span}

@[simp] theorem isUnwinding_relabel (v : Value) :
    (v.relabel f g).isUnwinding = v.isUnwinding := by
  cases v <;> rfl

@[simp] theorem isTruthy_relabel (v : Value) : (v.relabel f g).isTruthy = v.isTruthy := by
  cases v with
  | bool b => cases b <;> rfl
  | _ => rfl

@[simp] theorem type_relabel (v : Value) : (v.relabel f g).type = v.type := by
  cases v <;> rfl

@[simp] theorem unwrap_relabel (v : Value) : (v.relabel f g).unwrap = v.unwrap.relabel f g := by
  cases v <;> rfl

theorem inspect_relabel (hf : ∀ t, (f t).literal = t.literal) (v : Value) :
    (v.relabel f g).inspect = v.inspect := by
  induction v with
  | fn closure =>
    simp [relabel, inspect, Closure.relabel, Closure.render, Block.render_relabel hf,
      Ident.relabel, Function.comp_def]
  | returned v ih => exact ih
  | _ => rfl

theorem unaryOperator_relabel (operator : String) (v : Value) :
    unaryOperator operator (v.relabel f g) = (unaryOperator operator v).relabel f g := by
  simp only [unaryOperator, isTruthy_relabel, type_relabel]
  split
  · rfl
  · cases v <;> rfl
  · rfl

theorem integerOperator_relabel (operator : String) (a b : Int64) :
    (integerOperator operator a b).relabel f g = integerOperator operator a b := by
  unfold integerOperator
  split
  case h_4 => split <;> rfl
  all_goals rfl

theorem booleanOperator_relabel (operator : String) (a b : Bool) :
    (booleanOperator operator a b).relabel f g = booleanOperator operator a b := by
  unfold booleanOperator
  split <;> rfl

theorem binaryOperator_relabel (operator : String) (v w : Value) :
    binaryOperator operator (v.relabel f g) (w.relabel f g) =
      (binaryOperator operator v w).relabel f g := by
  cases v <;> cases w <;> first
    | exact (integerOperator_relabel operator _ _).symm
    | exact (booleanOperator_relabel operator _ _).symm
    | rfl

end Value

namespace Eval

variable {f : Token → Token} {g : Span → Span}

theorem andThen_relabel {r r' : Result} {k k' : Value → Heap → Result}
    (hr : r' = r.map (relabelResult f g))
    (hk : ∀ v h, k' (v.relabel f g) (h.relabel f g) = (k v h).map (relabelResult f g)) :
    andThen r' k' = (andThen r k).map (relabelResult f g) := by
  subst hr
  cases r with
  | none => rfl
  | some a =>
    obtain ⟨v, h⟩ := a
    simp only [andThen, Option.map_some, Prod.map, Value.isUnwinding_relabel]
    split
    · rfl
    · exact hk v h

theorem bindAll_relabel {α : Type} (scope : ScopeId) (ps : List Ident) (vs : List α)
    (h : Heap α) : bindAll scope (ps.map (Ident.relabel f)) vs h = bindAll scope ps vs h := by
  induction ps generalizing vs h with
  | nil => rfl
  | cons p ps ih =>
    cases vs with
    | nil => rfl
    | cons v vs => exact ih vs _

/-- The values of arguments, or what stopped them. -/
def relabelArgs (f : Token → Token) (g : Span → Span) :
    Except Value (List Value) → Except Value (List Value)
  | .ok values => .ok (values.map (Value.relabel f g))
  | .error v => .error (v.relabel f g)

/-- The scope that a call adds. -/
theorem bindAll_add_relabel (scope : ScopeId) (ps : List Ident) (values : List Value)
    (outer : Option ScopeId) (h : Heap) :
    bindAll scope (ps.map (Ident.relabel f)) (values.map (Value.relabel f g))
      ((h.relabel f g).add outer) = (bindAll scope ps values (h.add outer)).relabel f g := by
  rw [bindAll_relabel, Heap.add_map, Heap.bindAll_map]

mutual

theorem expr_relabel (n : Nat) (e : Expr) (scope : ScopeId) (h : Heap) :
    expr n (e.relabel f g) scope (h.relabel f g) =
      (expr n e scope h).map (relabelResult f g) := by
  match n with
  | 0 => simp only [expr, Option.map_none]
  | n + 1 =>
    cases e with
    | int token value | bool token value =>
      simp only [Expr.relabel, expr]
      rfl
    | ident name =>
      simp only [Expr.relabel, expr, Ident.relabel, Heap.get?_map]
      cases h.get? scope name.name <;> rfl
    | unary token operator operand span =>
      simp only [Expr.relabel, expr]
      refine andThen_relabel (expr_relabel n operand scope h) fun v h => ?_
      rw [Value.unaryOperator_relabel]
      rfl
    | binary token left operator right span =>
      simp only [Expr.relabel, expr]
      refine andThen_relabel (expr_relabel n left scope h) fun a h => ?_
      refine andThen_relabel (expr_relabel n right scope h) fun b h => ?_
      rw [Value.binaryOperator_relabel]
      rfl
    | cond token test consequence alternative span =>
      simp only [Expr.relabel, expr]
      refine andThen_relabel (expr_relabel n test scope h) fun v h => ?_
      rw [Value.isTruthy_relabel]
      split
      · cases consequence
        exact stmts_relabel n .null _ scope h
      · cases alternative with
        | none => rfl
        | some block =>
          cases block
          exact stmts_relabel n .null _ scope h
    | fn token parameters body span =>
      simp only [Expr.relabel, expr]
      rfl
    | call token callee arguments span =>
      simp only [Expr.relabel, expr]
      refine andThen_relabel (expr_relabel n callee scope h) fun v h => ?_
      rw [args_relabel n arguments scope h]
      cases args n arguments scope h with
      | none => rfl
      | some a =>
        obtain ⟨stopped | values, h⟩ := a
        · rfl
        · exact apply_relabel n v values h
termination_by structural n

theorem args_relabel (n : Nat) (es : List Expr) (scope : ScopeId) (h : Heap) :
    args n (relabelArguments f g es) scope (h.relabel f g) =
      (args n es scope h).map (Prod.map (relabelArgs f g) (Heap.relabel f g)) := by
  match n with
  | 0 => simp only [args, Option.map_none]
  | n + 1 =>
    cases es with
    | nil =>
      simp only [relabelArguments, args]
      rfl
    | cons e es =>
      simp only [relabelArguments, args]
      rw [expr_relabel n e scope h]
      cases expr n e scope h with
      | none => rfl
      | some a =>
        obtain ⟨v, h⟩ := a
        simp only [Option.map_some, Prod.map, Value.isUnwinding_relabel]
        split
        · rfl
        · rw [args_relabel n es scope h]
          cases args n es scope h with
          | none => rfl
          | some a =>
            obtain ⟨stopped | values, h⟩ := a <;> rfl
termination_by structural n

theorem apply_relabel (n : Nat) (v : Value) (values : List Value) (h : Heap) :
    apply n (v.relabel f g) (values.map (Value.relabel f g)) (h.relabel f g) =
      (apply n v values h).map (relabelResult f g) := by
  match n with
  | 0 => simp only [apply, Option.map_none]
  | n + 1 =>
    cases v with
    | fn closure =>
      obtain ⟨id, parameters, ⟨token, body, span⟩, outer⟩ := closure
      simp only [Value.relabel, Closure.relabel, Block.relabel, apply, List.length_map]
      split
      · rw [Heap.next_map, bindAll_add_relabel]
        generalize bindAll h.next parameters values (h.add outer) = inner
        have result : stmts n .null (relabelBody f g body) h.next (inner.relabel f g) = _ :=
          stmts_relabel n .null body h.next inner
        simp only [Block.statements]
        rw [result]
        cases stmts n .null body h.next inner with
        | none => rfl
        | some a => simp
      · rfl
    | _ =>
      simp only [Value.relabel, apply]
      rfl
termination_by structural n

theorem stmts_relabel (n : Nat) (last : Value) (ss : List Stmt) (scope : ScopeId) (h : Heap) :
    stmts n (last.relabel f g) (relabelBody f g ss) scope (h.relabel f g) =
      (stmts n last ss scope h).map (relabelResult f g) := by
  match n with
  | 0 => simp only [stmts, Option.map_none]
  | n + 1 =>
    cases ss with
    | nil =>
      simp only [relabelBody, stmts]
      rfl
    | cons s ss =>
      simp only [relabelBody, stmts]
      exact andThen_relabel (stmt_relabel n s scope h) fun v h => stmts_relabel n v ss scope h
termination_by structural n

theorem stmt_relabel (n : Nat) (s : Stmt) (scope : ScopeId) (h : Heap) :
    stmt n (s.relabel f g) scope (h.relabel f g) =
      (stmt n s scope h).map (relabelResult f g) := by
  match n with
  | 0 => simp only [stmt, Option.map_none]
  | n + 1 =>
    cases s with
    | expr token value span =>
      simp only [Stmt.relabel, stmt]
      exact expr_relabel n value scope h
    | ret token value span =>
      simp only [Stmt.relabel, stmt]
      exact andThen_relabel (expr_relabel n value scope h) fun v h => rfl
    | bind token name value span =>
      simp only [Stmt.relabel, stmt]
      refine andThen_relabel (expr_relabel n value scope h) fun v h => ?_
      simp only [Ident.relabel, Heap.set_map]
      rfl
termination_by structural n

end

end Eval

/-! ### Without places -/

def Value.placeless : Value → Value := Value.relabel Token.placeless (Span.move fun _ => 0)

def Heap.placeless : Heap → Heap := Heap.map Value.placeless

theorem Value.type_placeless (v : Value) : v.placeless.type = v.type := v.type_relabel

theorem Value.inspect_placeless (v : Value) : v.placeless.inspect = v.inspect :=
  v.inspect_relabel Token.literal_placeless

namespace Eval

/-- A value and a heap in which no function keeps a place. -/
def placeless : Value × Heap → Value × Heap := Prod.map Value.placeless Heap.placeless

theorem stmts_placeless (n : Nat) (p : Program) (scope : ScopeId) (h : Heap) :
    stmts n .null p.placeless.statements scope h.placeless =
      (stmts n .null p.statements scope h).map placeless := by
  have result : stmts n .null (relabelBody _ _ p.statements) scope h.placeless = _ :=
    stmts_relabel n .null p.statements scope h
  rw [relabelBody_eq_map] at result
  exact result

theorem program_placeless (n : Nat) (p : Program) (scope : ScopeId) (h : Heap) :
    program n p.placeless scope h.placeless = (program n p scope h).map placeless := by
  rw [program, program, stmts_placeless]
  cases stmts n .null p.statements scope h with
  | none => rfl
  | some a => simp [placeless, Value.placeless]

end Eval

end LetFn
