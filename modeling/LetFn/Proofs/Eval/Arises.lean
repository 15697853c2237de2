import LetFn.Proofs.Eval.Message
import LetFn.Proofs.Eval.Twin

/-! Errors that can arise. Operators are read from tokens and never meet a value that unwinds, so
most of the errors that operators could raise are never raised. -/

namespace LetFn

/-! ### Errors and values -/

/-- The type is one of values that unwind. -/
def ValueType.isUnwinding : ValueType → Bool
  | returned | error => true
  | int | bool | fn | null => false

/-- The error is one that a program can have, given that it was read from a text. -/
def RuntimeError.Arises : RuntimeError → Prop
  | notFound name => IsName name
  | divisionByZero _ right => right = 0
  | unknownUnary operator operand =>
    operator = "-" ∧ operand ≠ .int ∧ operand.isUnwinding = false
  | unknownBinary left operator right =>
    left = right ∧ operator ∈ binaryOperators ∧
      (left = .fn ∨ left = .null ∨ left = .bool ∧ operator ≠ "==" ∧ operator ≠ "!=")
  | typeMismatch left operator right =>
    left ≠ right ∧ operator ∈ binaryOperators ∧
      left.isUnwinding = false ∧ right.isUnwinding = false
  | notAFunction callee => callee ≠ .fn ∧ callee.isUnwinding = false
  | argumentCount want got => want ≠ got

/-- No operator that is read has a blank in it. -/
theorem RuntimeError.Arises.spelled {e : RuntimeError} (arises : e.Arises) : e.Spelled := by
  cases e with
  | unknownUnary operator operand =>
    obtain ⟨rfl, -, -⟩ := arises
    exact (by decide : ' ' ∉ "-".toList)
  | _ => trivial

namespace Value

/-- A value that evaluation can come to: its function can be read again, its error can arise, and
what is returned in it does not unwind. -/
def Genuine : Value → Prop
  | int _ | bool _ | null => True
  | fn f => f.literal.WellFormed
  | returned v => v.isUnwinding = false ∧ v.Genuine
  | error message => ∃ e : RuntimeError, e.Arises ∧ e.message = message

variable {v w : Value}

theorem genuine_int (n : Int64) : (int n).Genuine := trivial

theorem genuine_bool (b : Bool) : (bool b).Genuine := trivial

theorem genuine_null : null.Genuine := trivial

theorem genuine_returned (plain : v.isUnwinding = false) (genuine : v.Genuine) :
    (returned v).Genuine := ⟨plain, genuine⟩

theorem genuine_raise {e : RuntimeError} (arises : e.Arises) : (raise e).Genuine :=
  ⟨e, arises, rfl⟩

theorem Genuine.unwrap (genuine : v.Genuine) : v.unwrap.Genuine := by
  cases v with
  | returned v => exact genuine.2
  | int | bool | fn | error | null => exact genuine

theorem isUnwinding_type (v : Value) : v.type.isUnwinding = v.isUnwinding := by
  cases v <;> rfl

/-! ### Operators -/

/-- There is an operation on integers for every operator. -/
theorem genuine_integerOperator {operator : String} (ho : operator ∈ binaryOperators)
    (m n : Int64) : (integerOperator operator m n).Genuine := by
  simp only [binaryOperators, List.mem_cons, List.not_mem_nil, or_false] at ho
  rcases ho with rfl | rfl | rfl | rfl | rfl | rfl | rfl | rfl
  case inr.inr.inr.inl =>
    change (if n = 0 then raise (.divisionByZero m n) else int (m / n)).Genuine
    split
    · next zero => exact genuine_raise zero
    · trivial
  all_goals trivial

theorem genuine_booleanOperator {operator : String} (ho : operator ∈ binaryOperators)
    (a b : Bool) : (booleanOperator operator a b).Genuine := by
  unfold booleanOperator
  split
  · trivial
  · trivial
  · next notEqual notDifferent =>
    exact genuine_raise ⟨rfl, ho, .inr (.inr ⟨rfl, notEqual, notDifferent⟩)⟩

theorem genuine_binaryOperator {operator : String} (ho : operator ∈ binaryOperators)
    (hv : v.isUnwinding = false) (hw : w.isUnwinding = false) :
    (binaryOperator operator v w).Genuine := by
  unfold binaryOperator
  split
  · exact genuine_integerOperator ho _ _
  · exact genuine_booleanOperator ho _ _
  · next notInts notBools =>
    split
    · next same =>
      refine genuine_raise ⟨same, ho, ?_⟩
      cases v with
      | fn => exact .inl rfl
      | null => exact .inr (.inl rfl)
      | int m =>
        cases w with
        | int n => exact (notInts m n rfl rfl).elim
        | _ => cases same
      | bool a =>
        cases w with
        | bool b => exact (notBools a b rfl rfl).elim
        | _ => cases same
      | returned | error => cases hv
    · next different =>
      exact genuine_raise
        ⟨different, ho, v.isUnwinding_type.trans hv, w.isUnwinding_type.trans hw⟩

theorem genuine_unaryOperator {operator : String} (ho : operator ∈ unaryOperators)
    (hv : v.isUnwinding = false) : (unaryOperator operator v).Genuine := by
  simp only [unaryOperators, List.mem_cons, List.not_mem_nil, or_false] at ho
  rcases ho with rfl | rfl
  · trivial
  · cases v with
    | int => trivial
    | bool | fn | null => exact genuine_raise ⟨rfl, nofun, rfl⟩
    | returned | error => cases hv

end Value

/-- Nothing but genuine values is bound. -/
def Heap.Genuine (h : Heap) : Prop := h.Binds Value.Genuine

namespace Eval

/-! ### Runs on what is genuine -/

/-- On a heap that binds nothing but genuine values `run` leaves such a heap behind, and `P` holds
of what it answers. -/
def Keeps {β : Type} (P : β → Prop) (run : Heap → Option (β × Heap)) : Prop :=
  ∀ h b h', h.Genuine → run h = some (b, h') → h'.Genuine ∧ P b

namespace Keeps

variable {β γ : Type} {P : β → Prop} {Q : γ → Prop} {run run' : Heap → Option (β × Heap)}

theorem congr (same : ∀ h, run h = run' h) (keeps : Keeps P run') : Keeps P run :=
  funext same ▸ keeps

theorem none : Keeps P fun _ => none := fun _ _ _ _ run => by cases run

theorem answer {b : β} (hb : P b) : Keeps P fun h => some (b, h) := by
  intro h b' h' genuine run
  cases run
  exact ⟨genuine, hb⟩

theorem bind {next : β → Heap → Option (γ × Heap)} (first : Keeps P run)
    (rest : ∀ b, P b → Keeps Q (next b)) :
    Keeps Q fun h => (run h).bind fun (b, h) => next b h := by
  intro h c h' genuine both
  obtain ⟨⟨b, h₁⟩, hb, hc⟩ := Option.bind_eq_some_iff.1 both
  obtain ⟨genuine₁, hp⟩ := first h b h₁ genuine hb
  exact rest b hp h₁ c h' genuine₁ hc

theorem map {f : β → γ} (first : Keeps P run) (hf : ∀ b, P b → Q (f b)) :
    Keeps Q fun h => (run h).map fun (b, h) => (f b, h) := by
  intro h c h' genuine both
  obtain ⟨⟨b, h₁⟩, hb, hc⟩ := Option.map_eq_some_iff.1 both
  obtain ⟨rfl, rfl⟩ := Prod.mk.inj hc
  obtain ⟨genuine₁, hp⟩ := first h b h₁ genuine hb
  exact ⟨genuine₁, hf b hp⟩

/-- What comes second meets no value that unwinds. -/
theorem andThen {run : Heap → Result} {next : Value → Heap → Result}
    (first : Keeps Value.Genuine run)
    (rest : ∀ v, v.Genuine → v.isUnwinding = false → Keeps Value.Genuine (next v)) :
    Keeps Value.Genuine fun h => Eval.andThen (run h) next := by
  have passed : ∀ v, v.Genuine →
      Keeps Value.Genuine fun h => if v.isUnwinding then some (v, h) else next v h := by
    intro v hv
    cases plain : v.isUnwinding with
    | true => exact .answer hv
    | false => exact rest v hv plain
  refine (first.bind passed).congr fun h => ?_
  cases run h <;> rfl

end Keeps

/-- Arguments, or what stops them from being evaluated. -/
def GenuineArguments : Except Value (List Value) → Prop
  | .ok values => ∀ v ∈ values, v.Genuine
  | .error v => v.Genuine

mutual

theorem keeps_expr (n : Nat) (e : Expr) (he : e.WellFormed) (scope : ScopeId) :
    Keeps Value.Genuine (expr n e scope) :=
  match n, e, he with
  | 0, _, _ => .congr (fun h => by rw [expr]) .none
  | n + 1, .int _ value, _ =>
    .congr (fun h => by rw [expr]) (.answer (Value.genuine_int value))
  | n + 1, .bool _ value, _ =>
    .congr (fun h => by rw [expr]) (.answer (Value.genuine_bool value))
  | n + 1, .ident name, he => by
    intro h v h' genuine run
    rw [expr] at run
    split at run
    · next value found =>
      cases run
      exact ⟨genuine, genuine.get? found⟩
    · cases run
      exact ⟨genuine, Value.genuine_raise he⟩
  | n + 1, .unary _ operator operand _, ⟨ho, he⟩ =>
    .congr (fun h => by rw [expr]) <| (keeps_expr n operand he scope).andThen fun v _ plain =>
      .answer (Value.genuine_unaryOperator ho plain)
  | n + 1, .binary _ left operator right _, ⟨ho, hl, hr⟩ =>
    .congr (fun h => by rw [expr]) <| (keeps_expr n left hl scope).andThen fun v _ hv =>
      (keeps_expr n right hr scope).andThen fun w _ hw =>
        .answer (Value.genuine_binaryOperator ho hv hw)
  | n + 1, .cond _ test consequence alternative _, ⟨ht, hc, ha⟩ => by
    refine .congr (fun h => by rw [expr]) ((keeps_expr n test ht scope).andThen fun v _ _ => ?_)
    split
    · exact keeps_stmts n Value.genuine_null consequence.statements hc.statements scope
    · cases alternative with
      | none => exact .answer Value.genuine_null
      | some other =>
        exact keeps_stmts n Value.genuine_null other.statements (Block.WellFormed.statements ha)
          scope
  | n + 1, .fn _ parameters body _, he => by
    intro h v h' genuine run
    rw [expr] at run
    cases run
    exact ⟨genuine, rfl, he.2⟩
  | n + 1, .call _ callee arguments _, ⟨hc, ha⟩ => by
    refine .congr (fun h => by rw [expr])
      ((keeps_expr n callee hc scope).andThen fun f hf plain => ?_)
    intro h v h' genuine run
    dsimp only at run
    split at run
    · cases run
    · next stopped =>
      cases run
      exact keeps_args n arguments ha scope _ _ _ genuine stopped
    · next values h₁ evaluated =>
      obtain ⟨genuine₁, hvs⟩ := keeps_args n arguments ha scope _ _ _ genuine evaluated
      exact keeps_apply n hf plain hvs _ _ _ genuine₁ run
termination_by structural n

theorem keeps_args (n : Nat) (es : List Expr) (hes : WellFormedArguments es) (scope : ScopeId) :
    Keeps GenuineArguments (args n es scope) :=
  match n, es, hes with
  | 0, _, _ => .congr (fun h => by rw [args]) .none
  | n + 1, [], _ => by
    refine .congr (fun h => by rw [args]) (.answer ?_)
    simp [GenuineArguments]
  | n + 1, e :: es, ⟨he, hes⟩ => by
    intro h r h' genuine run
    rw [args] at run
    split at run
    · cases run
    next v h₁ first =>
    obtain ⟨genuine₁, hv⟩ := keeps_expr n e he scope _ _ _ genuine first
    split at run
    · cases run
      exact ⟨genuine₁, hv⟩
    · have rest := keeps_args n es hes scope h₁
      split at run
      · next values h₂ evaluated =>
        cases run
        obtain ⟨genuine₂, hvs⟩ := rest _ _ genuine₁ evaluated
        exact ⟨genuine₂, List.forall_mem_cons.2 ⟨hv, hvs⟩⟩
      · exact rest _ _ genuine₁ run
termination_by structural n

theorem keeps_apply (n : Nat) {f : Value} (hf : f.Genuine) (plain : f.isUnwinding = false)
    {values : List Value} (hvs : ∀ v ∈ values, v.Genuine) :
    Keeps Value.Genuine (apply n f values) := by
  intro h v h' genuine run
  match n, run with
  | 0, run =>
    rw [apply] at run
    cases run
  | n + 1, run =>
    cases f with
    | fn closure =>
      simp only [apply] at run
      split at run
      · obtain ⟨⟨w, h₁⟩, body, he⟩ := Option.map_eq_some_iff.1 run
        obtain ⟨rfl, rfl⟩ := Prod.mk.inj he
        have inner := (genuine.add closure.scope).bindAll h.next closure.parameters hvs
        obtain ⟨genuine₁, hw⟩ := keeps_stmts n Value.genuine_null closure.body.statements
          (Block.WellFormed.statements hf.2.2) h.next _ _ _ inner body
        exact ⟨genuine₁, hw.unwrap⟩
      · next different =>
        cases run
        exact ⟨genuine, Value.genuine_raise different⟩
    | int | bool | null =>
      simp only [apply] at run
      cases run
      exact ⟨genuine, Value.genuine_raise ⟨nofun, rfl⟩⟩
    | returned | error => cases plain
termination_by structural n

theorem keeps_stmts (n : Nat) {last : Value} (hl : last.Genuine) (ss : List Stmt)
    (hss : WellFormedBody ss) (scope : ScopeId) :
    Keeps Value.Genuine (stmts n last ss scope) :=
  match n, ss, hss with
  | 0, _, _ => .congr (fun h => by rw [stmts]) .none
  | n + 1, [], _ => .congr (fun h => by rw [stmts]) (.answer hl)
  | n + 1, s :: ss, ⟨hs, hss⟩ =>
    .congr (fun h => by rw [stmts]) <| (keeps_stmt n s hs scope).andThen fun v hv _ =>
      keeps_stmts n hv ss hss scope
termination_by structural n

theorem keeps_stmt (n : Nat) (s : Stmt) (hs : s.WellFormed) (scope : ScopeId) :
    Keeps Value.Genuine (stmt n s scope) :=
  match n, s, hs with
  | 0, _, _ => .congr (fun h => by rw [stmt]) .none
  | n + 1, .expr _ value _, hs =>
    .congr (fun h => by rw [stmt]) (keeps_expr n value hs scope)
  | n + 1, .ret _ value _, hs =>
    .congr (fun h => by rw [stmt]) <| (keeps_expr n value hs.2 scope).andThen fun v hv plain =>
      .answer (Value.genuine_returned plain hv)
  | n + 1, .bind _ name value _, hs => by
    refine .congr (fun h => by rw [stmt]) <|
      (keeps_expr n value hs.2.2 scope).andThen fun v hv _ => ?_
    intro h w h' genuine run
    cases run
    exact ⟨genuine.set scope name.name hv, Value.genuine_null⟩
termination_by structural n

end

/-- A program that is read keeps what it meets genuine, and answers with something genuine. -/
theorem keeps_program (n : Nat) {p : Program} (hp : WellFormedBody p.statements)
    (scope : ScopeId) : Keeps Value.Genuine (program n p scope) :=
  (keeps_stmts n Value.genuine_null p.statements hp scope).map fun _ hv => hv.unwrap

end Eval

end LetFn
