import LetFn.Proofs.Eval.Plain

/-! Values that unwind do the work of exceptions. On a heap that binds nothing unwinding, evaluation
answers `v` exactly if the rules with exceptions end as what `v` stands for, with the same heap. -/

namespace LetFn

namespace Heap

variable (k : Heap Plain) (scope : ScopeId) (name : String)

theorem get?_ofPlain : k.ofPlain.get? scope name = (k.get? scope name).map Plain.toValue :=
  get?_map ..

theorem set_ofPlain (v : Plain) :
    k.ofPlain.set scope name v.toValue = (k.set scope name v).ofPlain :=
  set_map ..

end Heap

namespace Eval

/-! ### What evaluation answers is an ending -/

/-- `v` and `h` stand for an ending and a heap that `P` holds of. -/
def Stands (P : Ending → Heap Plain → Prop) (v : Value) (h : Heap) : Prop :=
  ∃ r k, P r k ∧ r.toValue = v ∧ k.ofPlain = h

/-- What arguments are evaluated to, given how that ends. -/
def argumentValues : Except Signal (List Plain) → Except Value (List Value)
  | .ok vs => .ok (vs.map Plain.toValue)
  | .error x => .error x.toValue

/-- A call with the right number of arguments runs the body on a heap of plain values again. -/
theorem apply_closure {closure : Closure} {vs : List Plain} (n : Nat) (k : Heap Plain)
    (hc : closure.parameters.length = vs.length) :
    apply (n + 1) (Plain.fn closure).toValue (vs.map Plain.toValue) k.ofPlain =
      (stmts n Plain.null.toValue closure.body.statements k.next
        (bindAll k.next closure.parameters vs (k.add closure.scope)).ofPlain).map
        fun (v, h) => (v.unwrap, h) := by
  simp only [Plain.toValue, apply, List.length_map, hc, ite_true, Heap.ofPlain, Heap.add_map,
    Heap.next_map, Heap.bindAll_map]

/-- Either the first step raises, or the second goes on with its value. -/
theorem stands_andThen {P : Ending → Heap Plain → Prop} {r : Result} {f : Value → Heap → Result}
    {v : Value} {h : Heap} (run : andThen r f = some (v, h))
    (first : ∀ w h₁, r = some (w, h₁) → Stands P w h₁) :
    Stands (fun r k => P r k ∧ ∃ x, r = .error x) v h ∨
      ∃ w k, P (.ok w) k ∧ f w.toValue k.ofPlain = some (v, h) := by
  cases r with
  | none => cases run
  | some wh =>
    obtain ⟨w, h₁⟩ := wh
    obtain ⟨r, k, hr, rfl, rfl⟩ := first w h₁ rfl
    cases r with
    | ok w =>
      right
      exact ⟨w, k, hr, by simpa [andThen, Ending.toValue] using run⟩
    | error x =>
      left
      simp only [andThen, Ending.toValue, Signal.isUnwinding_toValue, ite_true] at run
      cases run
      exact ⟨.error x, k, ⟨hr, x, rfl⟩, rfl, rfl⟩

mutual

theorem stands_expr (n : Nat) (e : Expr) (scope : ScopeId) (k : Heap Plain) {v : Value} {h : Heap}
    (run : expr n e scope k.ofPlain = some (v, h)) : Stands (ExprEnds e scope k) v h := by
  match n, run with
  | 0, run => simp [expr] at run
  | n + 1, run =>
    cases e with
    | int token value =>
      simp only [expr] at run
      cases run
      exact ⟨_, k, .int, rfl, rfl⟩
    | bool token value =>
      simp only [expr] at run
      cases run
      exact ⟨_, k, .bool, rfl, rfl⟩
    | fn token parameters body span =>
      simp only [expr] at run
      cases run
      exact ⟨_, _, .fn, rfl, rfl⟩
    | ident name =>
      simp only [expr, Heap.get?_ofPlain] at run
      cases hv : k.get? scope name.name with
      | none =>
        rw [hv] at run
        cases run
        exact ⟨_, k, .notFound hv, rfl, rfl⟩
      | some w =>
        rw [hv] at run
        cases run
        exact ⟨_, k, .found hv, rfl, rfl⟩
    | unary token operator operand span =>
      simp only [expr] at run
      rcases stands_andThen run fun w h₁ hr => stands_expr n operand scope k hr with
        ⟨_, k₁, ⟨hx, x, rfl⟩, hv, hh⟩ | ⟨w, k₁, hw, run⟩
      · exact ⟨_, k₁, .unaryRaises hx, hv, hh⟩
      · rw [Value.unaryOperator_toValue] at run
        cases run
        exact ⟨_, k₁, .unary hw, rfl, rfl⟩
    | binary token left operator right span =>
      simp only [expr] at run
      rcases stands_andThen run fun w h₁ hr => stands_expr n left scope k hr with
        ⟨_, k₁, ⟨hx, x, rfl⟩, hv, hh⟩ | ⟨a, k₁, ha, run⟩
      · exact ⟨_, k₁, .leftRaises hx, hv, hh⟩
      rcases stands_andThen run fun w h₁ hr => stands_expr n right scope k₁ hr with
        ⟨_, k₂, ⟨hx, x, rfl⟩, hv, hh⟩ | ⟨b, k₂, hb, run⟩
      · exact ⟨_, k₂, .rightRaises ha hx, hv, hh⟩
      · rw [Value.binaryOperator_toValue] at run
        cases run
        exact ⟨_, k₂, .binary ha hb, rfl, rfl⟩
    | cond token test consequence alternative span =>
      simp only [expr] at run
      rcases stands_andThen run fun w h₁ hr => stands_expr n test scope k hr with
        ⟨_, k₁, ⟨hx, x, rfl⟩, hv, hh⟩ | ⟨t, k₁, ht, run⟩
      · exact ⟨_, k₁, .testRaises hx, hv, hh⟩
      rw [Plain.isTruthy_toValue] at run
      split at run
      · next htrue =>
        obtain ⟨r, k₂, hr, hv, hh⟩ := stands_stmts n .null consequence.statements scope k₁ run
        exact ⟨r, k₂, .consequence ht htrue hr, hv, hh⟩
      · next hfalse =>
        rw [Bool.not_eq_true] at hfalse
        cases alternative with
        | none =>
          cases run
          exact ⟨_, k₁, .noAlternative ht hfalse, rfl, rfl⟩
        | some other =>
          obtain ⟨r, k₂, hr, hv, hh⟩ := stands_stmts n .null other.statements scope k₁ run
          exact ⟨r, k₂, .alternative ht hfalse hr, hv, hh⟩
    | call token callee arguments span =>
      simp only [expr] at run
      rcases stands_andThen run fun w h₁ hr => stands_expr n callee scope k hr with
        ⟨_, k₁, ⟨hx, x, rfl⟩, hv, hh⟩ | ⟨f, k₁, hf, run⟩
      · exact ⟨_, k₁, .calleeRaises hx, hv, hh⟩
      split at run
      · cases run
      · next ha =>
        cases run
        obtain ⟨_ | x, k₂, hx, hv, rfl⟩ := stands_args n arguments scope k₁ ha
        · cases hv
          exact ⟨_, k₂, .argumentRaises hf hx, rfl, rfl⟩
        · cases hv
      · next ha =>
        obtain ⟨_ | vs, k₂, hvs, hv, rfl⟩ := stands_args n arguments scope k₁ ha
        · cases hv
        · cases hv
          obtain ⟨r, k₃, hr, hv, hh⟩ := stands_apply n f vs k₂ run
          exact ⟨r, k₃, .call hf hvs hr, hv, hh⟩
termination_by structural n

theorem stands_args (n : Nat) (es : List Expr) (scope : ScopeId) (k : Heap Plain)
    {a : Except Value (List Value)} {h : Heap} (run : args n es scope k.ofPlain = some (a, h)) :
    ∃ r k₁, ArgsEnd es scope k r k₁ ∧ argumentValues r = a ∧ k₁.ofPlain = h := by
  match n, run with
  | 0, run => simp [args] at run
  | n + 1, run =>
    cases es with
    | nil =>
      simp only [args] at run
      cases run
      exact ⟨_, k, .nil, rfl, rfl⟩
    | cons e es =>
      simp only [args] at run
      split at run
      · cases run
      next he =>
      obtain ⟨r, k₁, hr, rfl, rfl⟩ := stands_expr n e scope k he
      cases r with
      | error x =>
        simp only [Ending.toValue, Signal.isUnwinding_toValue, ite_true] at run
        cases run
        exact ⟨_, k₁, .firstRaises hr, rfl, rfl⟩
      | ok w =>
        simp only [Ending.toValue, Plain.isUnwinding_toValue, Bool.false_eq_true, ite_false] at run
        cases ha : args n es scope k₁.ofPlain with
        | none =>
          rw [ha] at run
          cases run
        | some ah =>
          obtain ⟨r, k₂, hr', hv, hh⟩ := stands_args n es scope k₁ ha
          obtain ⟨a', h'⟩ := ah
          subst hv hh
          rw [ha] at run
          cases r with
          | ok vs =>
            cases run
            exact ⟨_, k₂, .cons hr hr', rfl, rfl⟩
          | error x =>
            cases run
            exact ⟨_, k₂, .restRaises hr hr', rfl, rfl⟩
termination_by structural n

theorem stands_apply (n : Nat) (f : Plain) (vs : List Plain) (k : Heap Plain) {v : Value} {h : Heap}
    (run : apply n f.toValue (vs.map Plain.toValue) k.ofPlain = some (v, h)) :
    Stands (CallEnds f vs k) v h := by
  match n, run with
  | 0, run => simp [apply] at run
  | n + 1, run =>
    cases f with
    | fn closure =>
      by_cases hc : closure.parameters.length = vs.length
      · rw [apply_closure n k hc] at run
        obtain ⟨⟨w, h₁⟩, hb, hw⟩ := Option.map_eq_some_iff.1 run
        cases hw
        obtain ⟨r, k₁, hr, rfl, rfl⟩ := stands_stmts n _ _ _ _ hb
        rcases r with (w | message) | w
        · exact ⟨.ok w, k₁, .returns hc hr, rfl, rfl⟩
        · exact ⟨_, k₁, .fails hc hr, rfl, rfl⟩
        · exact ⟨.ok w, k₁, .completes hc hr, w.unwrap_toValue.symm, rfl⟩
      · simp only [Plain.toValue, apply, List.length_map, hc, ite_false] at run
        cases run
        exact ⟨_, k, .argumentCount hc, rfl, rfl⟩
    | _ =>
      simp only [Plain.toValue, apply] at run
      cases run
      exact ⟨_, k, .notAFunction (fun _ hf => by cases hf), rfl, rfl⟩
termination_by structural n

theorem stands_stmts (n : Nat) (last : Plain) (ss : List Stmt) (scope : ScopeId) (k : Heap Plain)
    {v : Value} {h : Heap} (run : stmts n last.toValue ss scope k.ofPlain = some (v, h)) :
    Stands (StmtsEnd last ss scope k) v h := by
  match n, run with
  | 0, run => simp [stmts] at run
  | n + 1, run =>
    cases ss with
    | nil =>
      simp only [stmts] at run
      cases run
      exact ⟨_, k, .nil, rfl, rfl⟩
    | cons s ss =>
      simp only [stmts] at run
      rcases stands_andThen run fun w h₁ hr => stands_stmt n s scope k hr with
        ⟨_, k₁, ⟨hx, x, rfl⟩, hv, hh⟩ | ⟨w, k₁, hw, run⟩
      · exact ⟨_, k₁, .raises hx, hv, hh⟩
      · obtain ⟨r, k₂, hr, hv, hh⟩ := stands_stmts n w ss scope k₁ run
        exact ⟨r, k₂, .cons hw hr, hv, hh⟩
termination_by structural n

theorem stands_stmt (n : Nat) (s : Stmt) (scope : ScopeId) (k : Heap Plain) {v : Value} {h : Heap}
    (run : stmt n s scope k.ofPlain = some (v, h)) : Stands (StmtEnds s scope k) v h := by
  match n, run with
  | 0, run => simp [stmt] at run
  | n + 1, run =>
    cases s with
    | expr token value span =>
      simp only [stmt] at run
      obtain ⟨r, k₁, hr, hv, hh⟩ := stands_expr n value scope k run
      exact ⟨r, k₁, .expr hr, hv, hh⟩
    | ret token value span =>
      simp only [stmt] at run
      rcases stands_andThen run fun w h₁ hr => stands_expr n value scope k hr with
        ⟨_, k₁, ⟨hx, x, rfl⟩, hv, hh⟩ | ⟨w, k₁, hw, run⟩
      · exact ⟨_, k₁, .retRaises hx, hv, hh⟩
      · cases run
        exact ⟨_, k₁, .ret hw, rfl, rfl⟩
    | bind token name value span =>
      simp only [stmt] at run
      rcases stands_andThen run fun w h₁ hr => stands_expr n value scope k hr with
        ⟨_, k₁, ⟨hx, x, rfl⟩, hv, hh⟩ | ⟨w, k₁, hw, run⟩
      · exact ⟨_, k₁, .bindRaises hx, hv, hh⟩
      · rw [Heap.set_ofPlain] at run
        cases run
        exact ⟨_, _, .bind hw, rfl, rfl⟩
termination_by structural n

end

/-! ### Every ending is answered -/

/-- With enough fuel, `run` answers `b`. -/
def Settles {β : Type} (run : Nat → Option β) (b : β) : Prop :=
  ∃ n, ∀ m, n ≤ m → run m = some b

theorem Settles.succ {β : Type} {run : Nat → Option β} {b : β} (n : Nat)
    (h : ∀ m, n ≤ m → run (m + 1) = some b) : Settles run b := by
  refine ⟨n + 1, fun m hm => ?_⟩
  obtain ⟨j, rfl⟩ := Nat.exists_eq_add_of_le' (Nat.le_trans (Nat.le_add_left 1 n) hm)
  exact h j (by omega)

theorem andThen_plain (v : Plain) (h : Heap) (f : Value → Heap → Result) :
    andThen (some (Ending.toValue (.ok v), h)) f = f v.toValue h := by
  simp [andThen, Ending.toValue]

theorem andThen_signal (x : Signal) (h : Heap) (f : Value → Heap → Result) :
    andThen (some (Ending.toValue (.error x), h)) f = some (Ending.toValue (.error x), h) := by
  simp [andThen, Ending.toValue]

mutual

theorem settles_expr {e : Expr} {scope : ScopeId} {k k' : Heap Plain} {r : Ending}
    (d : ExprEnds e scope k r k') :
    Settles (fun n => expr n e scope k.ofPlain) (r.toValue, k'.ofPlain) := by
  match d with
  | .int | .bool | .fn =>
    refine .succ 0 fun m _ => ?_
    simp only [expr]
    rfl
  | .found hv | .notFound hv =>
    refine .succ 0 fun m _ => ?_
    simp only [expr, Heap.get?_ofPlain, hv]
    rfl
  | .unary d =>
    obtain ⟨n, hn⟩ := settles_expr d
    refine .succ n fun m hm => ?_
    simp only [expr, hn m hm, andThen_plain, Value.unaryOperator_toValue]
  | .unaryRaises d | .leftRaises d | .testRaises d | .calleeRaises d =>
    obtain ⟨n, hn⟩ := settles_expr d
    refine .succ n fun m hm => ?_
    simp only [expr, hn m hm, andThen_signal]
  | .binary d₁ d₂ =>
    obtain ⟨n₁, h₁⟩ := settles_expr d₁
    obtain ⟨n₂, h₂⟩ := settles_expr d₂
    refine .succ (max n₁ n₂) fun m hm => ?_
    simp only [expr, h₁ m (by omega), h₂ m (by omega), andThen_plain,
      Value.binaryOperator_toValue]
  | .rightRaises d₁ d₂ =>
    obtain ⟨n₁, h₁⟩ := settles_expr d₁
    obtain ⟨n₂, h₂⟩ := settles_expr d₂
    refine .succ (max n₁ n₂) fun m hm => ?_
    simp only [expr, h₁ m (by omega), h₂ m (by omega), andThen_plain, andThen_signal]
  | .consequence d₁ ht d₂ =>
    obtain ⟨n₁, h₁⟩ := settles_expr d₁
    obtain ⟨n₂, h₂⟩ := settles_stmts d₂
    refine .succ (max n₁ n₂) fun m hm => ?_
    simp only [expr, h₁ m (by omega), andThen_plain, Plain.isTruthy_toValue, ht, ite_true]
    exact h₂ m (by omega)
  | .alternative d₁ ht d₂ =>
    obtain ⟨n₁, h₁⟩ := settles_expr d₁
    obtain ⟨n₂, h₂⟩ := settles_stmts d₂
    refine .succ (max n₁ n₂) fun m hm => ?_
    simp only [expr, h₁ m (by omega), andThen_plain, Plain.isTruthy_toValue, ht,
      Bool.false_eq_true, ite_false]
    exact h₂ m (by omega)
  | .noAlternative d ht =>
    obtain ⟨n, hn⟩ := settles_expr d
    refine .succ n fun m hm => ?_
    simp only [expr, hn m hm, andThen_plain, Plain.isTruthy_toValue, ht, Bool.false_eq_true,
      ite_false]
    rfl
  | .call d₁ d₂ d₃ =>
    obtain ⟨n₁, h₁⟩ := settles_expr d₁
    obtain ⟨n₂, h₂⟩ := settles_args d₂
    obtain ⟨n₃, h₃⟩ := settles_apply d₃
    refine .succ (max n₁ (max n₂ n₃)) fun m hm => ?_
    simp only [expr, h₁ m (by omega), andThen_plain, h₂ m (by omega)]
    exact h₃ m (by omega)
  | .argumentRaises d₁ d₂ =>
    obtain ⟨n₁, h₁⟩ := settles_expr d₁
    obtain ⟨n₂, h₂⟩ := settles_args d₂
    refine .succ (max n₁ n₂) fun m hm => ?_
    simp only [expr, h₁ m (by omega), andThen_plain, h₂ m (by omega)]
    rfl

theorem settles_args {es : List Expr} {scope : ScopeId} {k k' : Heap Plain}
    {r : Except Signal (List Plain)} (d : ArgsEnd es scope k r k') :
    Settles (fun n => args n es scope k.ofPlain) (argumentValues r, k'.ofPlain) := by
  match d with
  | .nil =>
    refine .succ 0 fun m _ => ?_
    simp only [args]
    rfl
  | .cons d₁ d₂ | .restRaises d₁ d₂ =>
    obtain ⟨n₁, h₁⟩ := settles_expr d₁
    obtain ⟨n₂, h₂⟩ := settles_args d₂
    refine .succ (max n₁ n₂) fun m hm => ?_
    simp [args, h₁ m (by omega), h₂ m (by omega), Ending.toValue, argumentValues]
  | .firstRaises d =>
    obtain ⟨n, hn⟩ := settles_expr d
    refine .succ n fun m hm => ?_
    simp [args, hn m hm, Ending.toValue, argumentValues]

theorem settles_apply {f : Plain} {vs : List Plain} {k k' : Heap Plain} {r : Ending}
    (d : CallEnds f vs k r k') :
    Settles (fun n => apply n f.toValue (vs.map Plain.toValue) k.ofPlain)
      (r.toValue, k'.ofPlain) := by
  match d with
  | .notAFunction hf =>
    refine .succ 0 fun m _ => ?_
    cases f with
    | fn closure => exact (hf closure rfl).elim
    | _ =>
      simp only [Plain.toValue, apply]
      rfl
  | .argumentCount hc =>
    refine .succ 0 fun m _ => ?_
    simp only [Plain.toValue, apply, List.length_map, hc, ite_false]
    rfl
  | .completes hc d =>
    obtain ⟨n, hn⟩ := settles_stmts d
    refine .succ n fun m hm => ?_
    simp only [apply_closure m k hc, hn m hm, Option.map_some, Ending.toValue,
      Plain.unwrap_toValue]
  | .returns hc d | .fails hc d =>
    obtain ⟨n, hn⟩ := settles_stmts d
    refine .succ n fun m hm => ?_
    simp only [apply_closure m k hc, hn m hm, Option.map_some]
    rfl

theorem settles_stmts {last : Plain} {ss : List Stmt} {scope : ScopeId} {k k' : Heap Plain}
    {r : Ending} (d : StmtsEnd last ss scope k r k') :
    Settles (fun n => stmts n last.toValue ss scope k.ofPlain) (r.toValue, k'.ofPlain) := by
  match d with
  | .nil =>
    refine .succ 0 fun m _ => ?_
    simp only [stmts]
    rfl
  | .cons d₁ d₂ =>
    obtain ⟨n₁, h₁⟩ := settles_stmt d₁
    obtain ⟨n₂, h₂⟩ := settles_stmts d₂
    refine .succ (max n₁ n₂) fun m hm => ?_
    simp only [stmts, h₁ m (by omega), andThen_plain]
    exact h₂ m (by omega)
  | .raises d =>
    obtain ⟨n, hn⟩ := settles_stmt d
    refine .succ n fun m hm => ?_
    simp only [stmts, hn m hm, andThen_signal]

theorem settles_stmt {s : Stmt} {scope : ScopeId} {k k' : Heap Plain} {r : Ending}
    (d : StmtEnds s scope k r k') :
    Settles (fun n => stmt n s scope k.ofPlain) (r.toValue, k'.ofPlain) := by
  match d with
  | .expr d =>
    obtain ⟨n, hn⟩ := settles_expr d
    refine .succ n fun m hm => ?_
    simp only [stmt]
    exact hn m hm
  | .ret d =>
    obtain ⟨n, hn⟩ := settles_expr d
    refine .succ n fun m hm => ?_
    simp only [stmt, hn m hm, andThen_plain]
    rfl
  | .bind d =>
    obtain ⟨n, hn⟩ := settles_expr d
    refine .succ n fun m hm => ?_
    simp only [stmt, hn m hm, andThen_plain, Heap.set_ofPlain]
    rfl
  | .retRaises d | .bindRaises d =>
    obtain ⟨n, hn⟩ := settles_expr d
    refine .succ n fun m hm => ?_
    simp only [stmt, hn m hm, andThen_signal]

end

/-! ### Programs -/

/-- What a program answers, given how it ends. -/
def answer : Except String Plain → Value
  | .ok v => v.toValue
  | .error message => .error message

theorem stands_program {n : Nat} {p : Program} {scope : ScopeId} {k : Heap Plain} {v : Value}
    {h : Heap} (run : program n p scope k.ofPlain = some (v, h)) :
    ∃ r k', ProgramEnds p scope k r k' ∧ answer r = v ∧ k'.ofPlain = h := by
  obtain ⟨⟨w, h₁⟩, hw, he⟩ := Option.map_eq_some_iff.1 run
  cases he
  obtain ⟨r, k', hr, rfl, rfl⟩ := stands_stmts n .null p.statements scope k hw
  rcases r with (w | message) | w
  · exact ⟨.ok w, k', .returns hr, rfl, rfl⟩
  · exact ⟨.error message, k', .fails hr, rfl, rfl⟩
  · exact ⟨.ok w, k', .completes hr, w.unwrap_toValue.symm, rfl⟩

theorem settles_program {p : Program} {scope : ScopeId} {k k' : Heap Plain}
    {r : Except String Plain} (d : ProgramEnds p scope k r k') :
    Settles (fun n => program n p scope k.ofPlain) (answer r, k'.ofPlain) := by
  cases d with
  | completes d =>
    obtain ⟨n, hn⟩ := settles_stmts d
    refine ⟨n, fun m hm => ?_⟩
    have run : stmts m .null _ scope k.ofPlain = _ := hn m hm
    simp only [program, run, Option.map_some, Ending.toValue, Plain.unwrap_toValue]
    rfl
  | returns d | fails d =>
    obtain ⟨n, hn⟩ := settles_stmts d
    refine ⟨n, fun m hm => ?_⟩
    have run : stmts m .null _ scope k.ofPlain = _ := hn m hm
    simp only [program, run, Option.map_some]
    rfl

/-- Evaluation on a heap without anything that unwinds answers exactly what the rules with
exceptions end as: the same value or the error that was raised, and the same heap. -/
theorem program_iff_programEnds (p : Program) (scope : ScopeId) {h : Heap} (settled : h.Settled) :
    h.plain.ofPlain = h ∧ ∀ (v : Value) (h' : Heap),
      (∃ n, program n p scope h = some (v, h')) ↔
        ∃ r k, ProgramEnds p scope h.plain r k ∧ answer r = v ∧ k.ofPlain = h' := by
  have plain := Heap.ofPlain_plain settled
  refine ⟨plain, fun v h' => ⟨?_, ?_⟩⟩
  · rintro ⟨n, run⟩
    rw [← plain] at run
    exact stands_program run
  · rintro ⟨r, k, ends, rfl, rfl⟩
    obtain ⟨n, hn⟩ := settles_program ends
    rw [plain] at hn
    exact ⟨n, hn n (Nat.le_refl n)⟩

/-- `1 + if (true) { return 7; }` -/
def returnWithinSum : Program :=
  ⟨[.expr (.eof 0)
    (.binary (.eof 0) (.int (.eof 0) 1) "+"
      (.cond (.eof 0) (.bool (.eof 0) true)
        (.mk (.eof 0) [.ret (.eof 0) (.int (.eof 0) 7) (.point 0)] (.point 0)) none (.point 0))
      (.point 0))
    (.point 0)]⟩

theorem program_iff_programEnds_returnWithinSum :
    Heap.root.Settled ∧ ∃ r k, ProgramEnds returnWithinSum 0 Heap.root.plain r k ∧
      answer r = .int 7 ∧ k.ofPlain = Heap.root := by
  have settled : Heap.root.Settled := by
    intro s hs b hb
    simp only [Heap.root, Heap.add, Heap.empty, Array.push_empty, List.mem_toArray,
      List.mem_singleton] at hs
    subst hs
    cases hb
  have run : program 9 returnWithinSum 0 Heap.root = some (.int 7, Heap.root) := by cbv
  exact ⟨settled, ((program_iff_programEnds returnWithinSum 0 settled).2 _ _).1 ⟨9, run⟩⟩

end Eval

end LetFn
