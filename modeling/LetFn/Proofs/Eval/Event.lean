import LetFn.Proofs.Heap.Event

/-! What evaluation does to a heap, event by event: a call creates a scope and writes the arguments
to it, a `let` writes to the scope it runs in, and nothing else is written. -/

namespace LetFn.Eval

/-- The events behind a value; behind one that unwinds there are none. -/
def eventsThen (r : Result) (f : Value → Heap → List Event) : List Event :=
  match r with
  | none => []
  | some (v, h) => if v.isUnwinding then [] else f v h

/-- Parameters are written one by one. -/
def bindEvents (scope : ScopeId) : List Ident → List Value → List Event
  | p :: ps, v :: vs => .write scope p.name v :: bindEvents scope ps vs
  | _, _ => []

mutual

def exprEvents : Nat → Expr → ScopeId → Heap → List Event
  | 0, _, _, _ => []
  | n + 1, e, scope, h =>
    match e with
    | .int _ _ | .bool _ _ | .ident _ => []
    | .unary _ _ operand _ => exprEvents n operand scope h
    | .binary _ left _ right _ =>
      exprEvents n left scope h ++
      eventsThen (expr n left scope h) fun _ h => exprEvents n right scope h
    | .cond _ test consequence alternative _ =>
      exprEvents n test scope h ++
      eventsThen (expr n test scope h) fun v h =>
        if v.isTruthy then stmtsEvents n .null consequence.statements scope h
        else
          match alternative with
          | some block => stmtsEvents n .null block.statements scope h
          | none => []
    | .fn _ _ _ _ => [.closure]
    | .call _ callee arguments _ =>
      exprEvents n callee scope h ++
      eventsThen (expr n callee scope h) fun f h =>
        argsEvents n arguments scope h ++
        match args n arguments scope h with
        | some (.ok values, h) => applyEvents n f values h
        | _ => []

def argsEvents : Nat → List Expr → ScopeId → Heap → List Event
  | 0, _, _, _ => []
  | n + 1, es, scope, h =>
    match es with
    | [] => []
    | e :: es =>
      exprEvents n e scope h ++
      eventsThen (expr n e scope h) fun _ h => argsEvents n es scope h

def applyEvents : Nat → Value → List Value → Heap → List Event
  | 0, _, _, _ => []
  | n + 1, f, values, h =>
    match f with
    | .fn closure =>
      if closure.parameters.length = values.length then
        let inner := bindAll h.next closure.parameters values (h.add closure.scope)
        .create closure.scope :: (bindEvents h.next closure.parameters values ++
          stmtsEvents n .null closure.body.statements h.next inner)
      else []
    | _ => []

def stmtsEvents : Nat → (last : Value) → List Stmt → ScopeId → Heap → List Event
  | 0, _, _, _, _ => []
  | n + 1, _, ss, scope, h =>
    match ss with
    | [] => []
    | s :: ss =>
      stmtEvents n s scope h ++
      eventsThen (stmt n s scope h) fun v h => stmtsEvents n v ss scope h

def stmtEvents : Nat → Stmt → ScopeId → Heap → List Event
  | 0, _, _, _ => []
  | n + 1, s, scope, h =>
    match s with
    | .expr _ value _ | .ret _ value _ => exprEvents n value scope h
    | .bind _ name value _ =>
      exprEvents n value scope h ++
      eventsThen (expr n value scope h) fun v _ => [.write scope name.name v]

end

def programEvents (fuel : Nat) (p : Program) (scope : ScopeId) (h : Heap) : List Event :=
  stmtsEvents fuel .null p.statements scope h

/-! ### Events lead where evaluation does -/

/-- Whatever `r` comes to, the events lead to the heap it leaves behind, and what it answers belongs
there. -/
def Traced {β : Type} (P : Nat → β → Prop) (h : Heap) (log : List Event)
    (r : Option (β × Heap)) : Prop :=
  ∀ b h', r = some (b, h') → Leads h log h' ∧ P h'.next b

/-- What the arguments come to, be it all their values or what stopped them. -/
def ArgumentsWithin (n : Nat) : Except Value (List Value) → Prop
  | .ok values => ∀ v ∈ values, v.Within n
  | .error v => v.Within n

theorem traced_pure {β : Type} {P : Nat → β → Prop} {h : Heap} {b : β} (hb : P h.next b) :
    Traced P h [] (some (b, h)) := by
  rintro _ _ ⟨⟩
  exact ⟨.nil, hb⟩

/-- Two steps that are traced one by one are traced as a sequence. -/
theorem Traced.andThen {h : Heap} {log : List Event} {r : Result} {f : Value → Heap → Result}
    {more : Value → Heap → List Event} (first : Traced Value.Within h log r)
    (second : ∀ v h₁, Leads h log h₁ → v.Within h₁.next →
      Traced Value.Within h₁ (more v h₁) (f v h₁)) :
    Traced Value.Within h (log ++ eventsThen r more) (andThen r f) := by
  intro v h' run
  cases r with
  | none => cases run
  | some a =>
    obtain ⟨w, h₁⟩ := a
    obtain ⟨leads, within⟩ := first w h₁ rfl
    simp only [Eval.andThen, eventsThen] at run ⊢
    split at run
    · next unwinds =>
      cases run
      rw [if_pos unwinds, List.append_nil]
      exact ⟨leads, within⟩
    · next plain =>
      obtain ⟨leads', within'⟩ := second w h₁ leads within v h' run
      rw [if_neg plain]
      exact ⟨leads.append leads', within'⟩

/-- What is computed from a value alone takes no events. -/
theorem Traced.andThen_pure {h : Heap} {log : List Event} {r : Result} {g : Value → Value}
    (first : Traced Value.Within h log r) (hg : ∀ v n, v.Within n → (g v).Within n) :
    Traced Value.Within h log (Eval.andThen r fun v h => some (g v, h)) := by
  have traced : Traced Value.Within h (log ++ eventsThen r fun _ _ => []) _ :=
    first.andThen fun v _ _ within => traced_pure (hg v _ within)
  have none_more : eventsThen r (fun _ _ => []) = [] := by
    unfold eventsThen
    split
    · rfl
    · exact ite_self []
  rwa [none_more, List.append_nil] at traced

theorem Traced.map {β : Type} {P : Nat → β → Prop} {h : Heap} {log : List Event} {γ : Type}
    {Q : Nat → γ → Prop} {r : Option (β × Heap)} {g : β → γ} (traced : Traced P h log r)
    (hg : ∀ b n, P n b → Q n (g b)) : Traced Q h log (r.map fun (b, h) => (g b, h)) := by
  intro c h' run
  obtain ⟨⟨b, h₁⟩, hr, eq⟩ := Option.map_eq_some_iff.1 run
  cases eq
  obtain ⟨leads, within⟩ := traced b _ hr
  exact ⟨leads, hg b _ within⟩

theorem within_unwrap {n : Nat} {v : Value} (within : v.Within n) : v.unwrap.Within n := by
  cases v <;> exact within

/-- Operators make numbers, truth values and errors, but no functions. -/
theorem within_unaryOperator (n : Nat) (operator : String) (v : Value) :
    (Value.unaryOperator operator v).Within n := by
  unfold Value.unaryOperator
  split
  · trivial
  · split <;> trivial
  · trivial

theorem within_integerOperator (n : Nat) (operator : String) (a b : Int64) :
    (Value.integerOperator operator a b).Within n := by
  unfold Value.integerOperator
  split <;> try trivial
  split <;> trivial

theorem within_binaryOperator (n : Nat) (operator : String) (v w : Value) :
    (Value.binaryOperator operator v w).Within n := by
  unfold Value.binaryOperator
  split
  · exact within_integerOperator n operator _ _
  · unfold Value.booleanOperator
    split <;> trivial
  · split <;> trivial

/-- Binding parameters is writing them. -/
theorem leads_bindAll (scope : ScopeId) (ps : List Ident) {vs : List Value} {h : Heap}
    (hs : scope < h.next) (hvs : ∀ v ∈ vs, v.Within h.next) :
    Leads h (bindEvents scope ps vs) (bindAll scope ps vs h) := by
  induction ps generalizing vs h with
  | nil => exact .nil
  | cons p ps ih =>
    cases vs with
    | nil => exact .nil
    | cons v vs =>
      rw [List.forall_mem_cons] at hvs
      have next := Heap.next_set h scope p.name v
      exact .cons ⟨hs, hvs.1⟩ (ih (next ▸ hs) (next ▸ hvs.2))

mutual

theorem traced_expr (n : Nat) (e : Expr) {scope : ScopeId} {h : Heap} (closed : h.Closed)
    (hs : scope < h.next) :
    Traced Value.Within h (exprEvents n e scope h) (expr n e scope h) := by
  match n with
  | 0 =>
    rw [expr]
    rintro _ _ ⟨⟩
  | n + 1 =>
    cases e with
    | int | bool =>
      simp only [expr, exprEvents]
      exact traced_pure trivial
    | ident name =>
      simp only [expr, exprEvents]
      split
      · next found => exact traced_pure (closed.get? found)
      · exact traced_pure trivial
    | unary _ operator operand _ =>
      simp only [expr, exprEvents]
      exact (traced_expr n operand closed hs).andThen_pure fun v n _ =>
        within_unaryOperator n operator v
    | binary _ left operator right _ =>
      simp only [expr, exprEvents]
      refine (traced_expr n left closed hs).andThen fun a h₁ leads _ => ?_
      have right := traced_expr n right (leads.closed closed) (Nat.lt_of_lt_of_le hs leads.next_le)
      exact right.andThen_pure fun b n _ => within_binaryOperator n operator a b
    | cond _ test consequence alternative _ =>
      simp only [expr, exprEvents]
      refine (traced_expr n test closed hs).andThen fun v h₁ leads _ => ?_
      have closed₁ := leads.closed closed
      have hs₁ := Nat.lt_of_lt_of_le hs leads.next_le
      split
      · exact traced_stmts n .null consequence.statements closed₁ hs₁ trivial
      · cases alternative with
        | none => exact traced_pure trivial
        | some block => exact traced_stmts n .null block.statements closed₁ hs₁ trivial
    | fn _ parameters body _ =>
      simp only [expr, exprEvents]
      rintro _ _ ⟨⟩
      exact ⟨.single (e := .closure) trivial, hs⟩
    | call _ callee arguments _ =>
      simp only [expr, exprEvents]
      refine (traced_expr n callee closed hs).andThen fun f h₁ leads hf => ?_
      have traced := traced_args n arguments (leads.closed closed)
        (Nat.lt_of_lt_of_le hs leads.next_le)
      intro v h' run
      split at run
      · cases run
      · next w h₂ ha =>
        cases run
        obtain ⟨leads₂, within⟩ := traced _ _ ha
        simpa only [ha, List.append_nil] using ⟨leads₂, within⟩
      · next values h₂ ha =>
        obtain ⟨leads₂, within⟩ := traced _ _ ha
        obtain ⟨leads₃, within'⟩ := traced_apply n (leads₂.closed (leads.closed closed))
          (hf.mono leads₂.next_le) within v h' run
        simpa only [ha] using ⟨leads₂.append leads₃, within'⟩
termination_by structural n

theorem traced_args (n : Nat) (es : List Expr) {scope : ScopeId} {h : Heap} (closed : h.Closed)
    (hs : scope < h.next) :
    Traced ArgumentsWithin h (argsEvents n es scope h) (args n es scope h) := by
  match n with
  | 0 =>
    rw [args]
    rintro _ _ ⟨⟩
  | n + 1 =>
    cases es with
    | nil =>
      simp only [args, argsEvents]
      exact traced_pure (P := ArgumentsWithin) (by simp [ArgumentsWithin])
    | cons e es =>
      intro r h' run
      simp only [args, argsEvents] at run ⊢
      split at run
      · cases run
      next v h₁ he =>
      obtain ⟨leads, within⟩ := traced_expr n e closed hs v h₁ he
      rw [he, eventsThen]
      split at run
      · next unwinds =>
        cases run
        rw [if_pos unwinds, List.append_nil]
        exact ⟨leads, within⟩
      next plain =>
      have rest := traced_args n es (leads.closed closed) (Nat.lt_of_lt_of_le hs leads.next_le)
      rw [if_neg plain]
      split at run
      · next values h₂ ha =>
        cases run
        obtain ⟨leads₂, within₂⟩ := rest _ _ ha
        exact ⟨leads.append leads₂, List.forall_mem_cons.2 ⟨within.mono leads₂.next_le, within₂⟩⟩
      · obtain ⟨leads₂, within₂⟩ := rest _ _ run
        exact ⟨leads.append leads₂, within₂⟩
termination_by structural n

theorem traced_apply (n : Nat) {f : Value} {values : List Value} {h : Heap} (closed : h.Closed)
    (hf : f.Within h.next) (hvs : ∀ v ∈ values, v.Within h.next) :
    Traced Value.Within h (applyEvents n f values h) (apply n f values h) := by
  match n with
  | 0 =>
    rw [apply]
    rintro _ _ ⟨⟩
  | n + 1 =>
    cases f with
    | fn closure =>
      simp only [apply, applyEvents]
      split
      · have opened : Leads h [.create closure.scope] (h.add closure.scope) :=
          .single fun o ho => Option.some.inj ho ▸ hf
        have next := Heap.next_add h closure.scope
        have hs : h.next < (h.add closure.scope).next := next ▸ Nat.lt_succ_self _
        have bound := leads_bindAll h.next closure.parameters hs fun v hv =>
          (hvs v hv).mono opened.next_le
        have body := traced_stmts n .null closure.body.statements
          (bound.closed (opened.closed closed)) (Nat.lt_of_lt_of_le hs bound.next_le) trivial
        have called : Traced Value.Within h (.create closure.scope ::
            (bindEvents h.next closure.parameters values ++ stmtsEvents n .null
              closure.body.statements h.next
              (bindAll h.next closure.parameters values (h.add closure.scope)))) _ :=
          fun v h' run => by
            obtain ⟨leads, within⟩ := body v h' run
            exact ⟨opened.append (bound.append leads), within⟩
        exact called.map fun v n => within_unwrap
      · exact traced_pure trivial
    | _ =>
      simp only [apply, applyEvents]
      exact traced_pure trivial
termination_by structural n

theorem traced_stmts (n : Nat) (last : Value) (ss : List Stmt) {scope : ScopeId} {h : Heap}
    (closed : h.Closed) (hs : scope < h.next) (hl : last.Within h.next) :
    Traced Value.Within h (stmtsEvents n last ss scope h) (stmts n last ss scope h) := by
  match n with
  | 0 =>
    rw [stmts]
    rintro _ _ ⟨⟩
  | n + 1 =>
    cases ss with
    | nil =>
      simp only [stmts, stmtsEvents]
      exact traced_pure hl
    | cons s ss =>
      simp only [stmts, stmtsEvents]
      exact (traced_stmt n s closed hs).andThen fun v h₁ leads within =>
        traced_stmts n v ss (leads.closed closed) (Nat.lt_of_lt_of_le hs leads.next_le) within
termination_by structural n

theorem traced_stmt (n : Nat) (s : Stmt) {scope : ScopeId} {h : Heap} (closed : h.Closed)
    (hs : scope < h.next) :
    Traced Value.Within h (stmtEvents n s scope h) (stmt n s scope h) := by
  match n with
  | 0 =>
    rw [stmt]
    rintro _ _ ⟨⟩
  | n + 1 =>
    cases s with
    | expr _ value _ =>
      simp only [stmt, stmtEvents]
      exact traced_expr n value closed hs
    | ret _ value _ =>
      simp only [stmt, stmtEvents]
      exact (traced_expr n value closed hs).andThen_pure fun v n within => within
    | bind _ name value _ =>
      simp only [stmt, stmtEvents]
      refine (traced_expr n value closed hs).andThen fun v h₁ leads within => ?_
      rintro _ _ ⟨⟩
      have hs₁ := Nat.lt_of_lt_of_le hs leads.next_le
      exact ⟨.single (e := .write scope name.name v) ⟨hs₁, within⟩, trivial⟩
termination_by structural n

end

theorem traced_program (n : Nat) (p : Program) {scope : ScopeId} {h : Heap} (closed : h.Closed)
    (hs : scope < h.next) :
    Traced Value.Within h (programEvents n p scope h) (program n p scope h) :=
  (traced_stmts n .null p.statements closed hs trivial).map fun _ _ => within_unwrap

end LetFn.Eval
