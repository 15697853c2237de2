import LetFn.Proofs.Eval.Fuel
import LetFn.Proofs.Eval.Places

/-! One program behind another in the same scope, as one program and as two. -/

namespace LetFn.Eval

/-- Evaluates `p` and then, unless a statement of it yielded something that unwinds, `q` in what
scopes `p` left. The value is the one of `q`, if it has statements. -/
def inTurn (fuel : Nat) (p q : Program) (scope : ScopeId) (h : Heap) : Result :=
  match stmts fuel .null p.statements scope h with
  | none => none
  | some (v, h) =>
    if v.isUnwinding then some (v.unwrap, h)
    else if q.statements.isEmpty then some (v, h)
    else program fuel q scope h

theorem stmts_singleton (n : Nat) (last : Value) (t : Token) (e : Expr) (s : Span)
    (scope : ScopeId) (h : Heap) : stmts (n + 2) last [.expr t e s] scope h = expr n e scope h := by
  simp only [stmts, stmt]
  cases expr n e scope h with
  | none => rfl
  | some a => exact ite_self (some a)

/-- The fuel that is left for what follows is one less for each statement in front. -/
theorem stmts_append (n : Nat) {last : Value} (hl : last.isUnwinding = false) (ss ss' : List Stmt)
    (scope : ScopeId) (h : Heap) :
    stmts n last (ss ++ ss') scope h =
      andThen (stmts n last ss scope h) fun v h => stmts (n - ss.length) v ss' scope h := by
  induction ss generalizing n last h with
  | nil =>
    cases n with
    | zero => simp only [stmts, andThen]
    | succ n => simp [stmts, andThen, hl]
  | cons s ss ih =>
    cases n with
    | zero => simp only [stmts, andThen]
    | succ n =>
      simp only [List.cons_append, stmts, List.length_cons, Nat.add_sub_add_right]
      cases stmt n s scope h with
      | none => rfl
      | some a =>
        obtain ⟨v, h⟩ := a
        simp only [andThen]
        split
        · next hv => simp [hv]
        · next hv => exact ih n (by simpa using hv) h

/-- Behind a value that does not unwind, statements answer with their own last value, or with it if
there are none. -/
theorem stmts_map_unwrap (n : Nat) {v : Value} (hv : v.isUnwinding = false) (q : Program)
    (scope : ScopeId) (h : Heap) :
    (stmts (n + 1) v q.statements scope h).map (fun (v, h) => (v.unwrap, h)) =
      if q.statements.isEmpty then some (v, h) else program (n + 1) q scope h := by
  obtain ⟨ss⟩ := q
  cases ss with
  | nil =>
    have unwrap : v.unwrap = v := by
      cases v <;> first | rfl | cases hv
    simp [stmts, unwrap]
  | cons s ss => simp only [program, stmts, List.isEmpty_cons, Bool.false_eq_true, if_false]

section

variable {n : Nat} {p q : Program} {scope : ScopeId} {h h₁ : Heap} {v : Value}

theorem program_append_of_isUnwinding
    (first : stmts n .null p.statements scope h = some (v, h₁)) (hv : v.isUnwinding = true) :
    program n ⟨p.statements ++ q.statements⟩ scope h = some (v.unwrap, h₁) := by
  rw [program, stmts_append n rfl, first]
  simp [andThen, hv]

theorem program_append_of_not_isUnwinding
    (first : stmts n .null p.statements scope h = some (v, h₁)) (hv : v.isUnwinding = false) :
    program n ⟨p.statements ++ q.statements⟩ scope h =
      (stmts (n - p.statements.length) v q.statements scope h₁).map
        fun (v, h) => (v.unwrap, h) := by
  rw [program, stmts_append n rfl, first]
  simp [andThen, hv]

end

/-- Two programs in turn do what they do as one. -/
theorem program_append (p q : Program) (scope : ScopeId) (h : Heap) (a : Value × Heap) :
    (∃ n, program n ⟨p.statements ++ q.statements⟩ scope h = some a) ↔
      ∃ n, inTurn n p q scope h = some a := by
  constructor
  · rintro ⟨n, run⟩
    refine ⟨n, ?_⟩
    cases first : stmts n .null p.statements scope h with
    | none =>
      rw [program, stmts_append n rfl, first] at run
      cases run
    | some b =>
      obtain ⟨v, h₁⟩ := b
      rw [inTurn, first]
      cases hv : v.isUnwinding with
      | true => simpa [hv, program_append_of_isUnwinding first hv] using run
      | false =>
        rw [program_append_of_not_isUnwinding first hv] at run
        cases left : n - p.statements.length with
        | zero => simp [left, stmts] at run
        | succ m =>
          -- `p` has left less fuel to `q` than `inTurn` gives it
          have le : m + 1 ≤ n := left ▸ Nat.sub_le n p.statements.length
          rw [left, stmts_map_unwrap m hv] at run
          simp only [hv, Bool.false_eq_true, if_false]
          split at run
          · next hq => rwa [if_pos hq]
          · next hq => rw [if_neg hq, (program_below le q scope h₁).eq_some run]
  · rintro ⟨n, run⟩
    rw [inTurn] at run
    cases first : stmts n .null p.statements scope h with
    | none => simp [first] at run
    | some b =>
      obtain ⟨v, h₁⟩ := b
      simp only [first] at run
      cases hv : v.isUnwinding with
      | true => exact ⟨n, by simpa [hv, program_append_of_isUnwinding first hv] using run⟩
      | false =>
        cases n with
        | zero => simp [stmts] at first
        | succ m =>
          have more := (stmts_below (Nat.le_add_right (m + 1) p.statements.length) _ _ _ _).eq_some
            first
          refine ⟨m + 1 + p.statements.length, ?_⟩
          rw [program_append_of_not_isUnwinding more hv, Nat.add_sub_cancel, stmts_map_unwrap m hv]
          simpa [hv] using run

theorem inTurn_placeless (n : Nat) (p q : Program) (scope : ScopeId) (h : Heap) :
    inTurn n p.placeless q.placeless scope h.placeless =
      (inTurn n p q scope h).map placeless := by
  rw [inTurn, inTurn, stmts_placeless]
  cases stmts n .null p.statements scope h with
  | none => rfl
  | some a =>
    obtain ⟨v, h⟩ := a
    have empty : q.placeless.statements.isEmpty = q.statements.isEmpty := by
      simp [Program.placeless, Program.move]
    simp only [Option.map_some, placeless, Prod.map, Value.placeless, Value.isUnwinding_relabel,
      Value.unwrap_relabel, empty]
    split
    · rfl
    split
    · rfl
    · exact program_placeless n q scope h

/-- Where the statements of the second program are does not matter. -/
theorem program_append_placeless {p q q' : Program} (same : q'.placeless = q.placeless)
    (scope : ScopeId) (h : Heap) (a : Value × Heap) :
    (∃ n, (program n ⟨p.statements ++ q'.statements⟩ scope h).map placeless = some a) ↔
      ∃ n, (inTurn n p q scope h).map placeless = some a := by
  have joined : Program.placeless ⟨p.statements ++ q'.statements⟩ =
      ⟨p.placeless.statements ++ q.placeless.statements⟩ := by
    rw [← same]
    simp [Program.placeless, Program.move]
  simp only [← program_placeless, ← inTurn_placeless, joined]
  exact program_append p.placeless q.placeless scope h.placeless a

end LetFn.Eval
