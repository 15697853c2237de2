import LetFn.Eval

/-! More fuel changes nothing: an evaluation that came to an end would have come to the same one
with more fuel. -/

namespace LetFn.Eval

/-- The same result, unless the first evaluation ran out of fuel. -/
def Below {β : Type} (r r' : Option β) : Prop := r = none ∨ r = r'

namespace Below

variable {β : Type}

theorem refl (r : Option β) : Below r r := .inr rfl

theorem none_below (r : Option β) : Below none r := .inl rfl

theorem eq_some {r r' : Option β} {b : β} (h : Below r r') (hr : r = some b) : r' = some b := by
  obtain rfl | rfl := h
  · cases hr
  · exact hr

theorem map {γ : Type} {r r' : Option β} (h : Below r r') (f : β → γ) :
    Below (r.map f) (r'.map f) := by
  obtain rfl | rfl := h
  · exact none_below _
  · exact refl _

theorem andThen {r r' : Result} {k k' : Value → Heap → Result} (h : Below r r')
    (hk : ∀ v h, Below (k v h) (k' v h)) : Below (andThen r k) (andThen r' k') := by
  obtain rfl | rfl := h
  · exact none_below _
  cases r with
  | none => exact none_below _
  | some a =>
    simp only [Eval.andThen]
    split
    · exact refl _
    · exact hk _ _

end Below

open Below

mutual

theorem expr_below {n m : Nat} (hn : n ≤ m) (e : Expr) (scope : ScopeId) (h : Heap) :
    Below (expr n e scope h) (expr m e scope h) := by
  match n, m, hn with
  | 0, _, _ =>
    rw [expr]
    exact none_below _
  | n + 1, m + 1, hn =>
    have hn : n ≤ m := Nat.le_of_succ_le_succ hn
    cases e with
    | int | bool | fn | ident =>
      simp only [expr]
      exact refl _
    | unary _ operator operand _ =>
      simp only [expr]
      exact (expr_below hn operand scope h).andThen fun v h => refl _
    | binary _ left operator right _ =>
      simp only [expr]
      exact (expr_below hn left scope h).andThen fun a h =>
        (expr_below hn right scope h).andThen fun b h => refl _
    | cond _ test consequence alternative _ =>
      simp only [expr]
      refine (expr_below hn test scope h).andThen fun v h => ?_
      split
      · exact stmts_below hn .null _ scope h
      · cases alternative with
        | none => exact refl _
        | some block => exact stmts_below hn .null _ scope h
    | call _ callee arguments _ =>
      simp only [expr]
      refine (expr_below hn callee scope h).andThen fun f h => ?_
      obtain values | values := args_below hn arguments scope h
      · rw [values]
        exact none_below _
      rw [values]
      cases args m arguments scope h with
      | none => exact none_below _
      | some a =>
        obtain ⟨stopped | values, h⟩ := a
        · exact refl _
        · exact apply_below hn f values h
termination_by structural n

theorem args_below {n m : Nat} (hn : n ≤ m) (es : List Expr) (scope : ScopeId) (h : Heap) :
    Below (args n es scope h) (args m es scope h) := by
  match n, m, hn with
  | 0, _, _ =>
    rw [args]
    exact none_below _
  | n + 1, m + 1, hn =>
    have hn : n ≤ m := Nat.le_of_succ_le_succ hn
    cases es with
    | nil =>
      simp only [args]
      exact refl _
    | cons e es =>
      simp only [args]
      obtain first | first := expr_below hn e scope h
      · rw [first]
        exact none_below _
      rw [first]
      cases expr m e scope h with
      | none => exact none_below _
      | some a =>
        obtain ⟨v, h⟩ := a
        simp only
        split
        · exact refl _
        obtain rest | rest := args_below hn es scope h
        · rw [rest]
          exact none_below _
        · rw [rest]
          exact refl _
termination_by structural n

theorem apply_below {n m : Nat} (hn : n ≤ m) (f : Value) (values : List Value) (h : Heap) :
    Below (apply n f values h) (apply m f values h) := by
  match n, m, hn with
  | 0, _, _ =>
    rw [apply]
    exact none_below _
  | n + 1, m + 1, hn =>
    have hn : n ≤ m := Nat.le_of_succ_le_succ hn
    cases f with
    | fn closure =>
      simp only [apply]
      split
      · exact (stmts_below hn .null _ _ _).map _
      · exact refl _
    | _ =>
      simp only [apply]
      exact refl _
termination_by structural n

theorem stmts_below {n m : Nat} (hn : n ≤ m) (last : Value) (ss : List Stmt) (scope : ScopeId)
    (h : Heap) : Below (stmts n last ss scope h) (stmts m last ss scope h) := by
  match n, m, hn with
  | 0, _, _ =>
    rw [stmts]
    exact none_below _
  | n + 1, m + 1, hn =>
    have hn : n ≤ m := Nat.le_of_succ_le_succ hn
    cases ss with
    | nil =>
      simp only [stmts]
      exact refl _
    | cons s ss =>
      simp only [stmts]
      exact (stmt_below hn s scope h).andThen fun v h => stmts_below hn v ss scope h
termination_by structural n

theorem stmt_below {n m : Nat} (hn : n ≤ m) (s : Stmt) (scope : ScopeId) (h : Heap) :
    Below (stmt n s scope h) (stmt m s scope h) := by
  match n, m, hn with
  | 0, _, _ =>
    rw [stmt]
    exact none_below _
  | n + 1, m + 1, hn =>
    have hn : n ≤ m := Nat.le_of_succ_le_succ hn
    cases s with
    | expr _ value _ =>
      simp only [stmt]
      exact expr_below hn value scope h
    | ret _ value _ | bind _ name value _ =>
      simp only [stmt]
      exact (expr_below hn value scope h).andThen fun v h => refl _
termination_by structural n

end

theorem program_below {n m : Nat} (hn : n ≤ m) (p : Program) (scope : ScopeId) (h : Heap) :
    Below (program n p scope h) (program m p scope h) :=
  (stmts_below hn .null p.statements scope h).map _

end LetFn.Eval
