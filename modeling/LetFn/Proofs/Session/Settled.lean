import LetFn.Proofs.Eval.Settled
import LetFn.Session

/-! Sessions that bind nothing unwinding themselves never come to bind it, however often they
evaluate and whatever goes wrong in it. -/

namespace LetFn

open Eval

/-- The value, if there is one, does not unwind. -/
def PlainResult : Except Failure Value → Prop
  | .ok v => v.isUnwinding = false
  | .error _ => True

theorem settling_evaluateLoaded (n : Nat) (path : String) (loaded : Except Failure Program)
    (scope : ScopeId) : Settling PlainResult (evaluateLoaded n path loaded scope) := by
  intro h r h' settled run
  obtain ⟨failure, rfl, rfl, rfl⟩ | ⟨p, v, rfl, hp, ends⟩ := evaluateLoaded_cases run
  · exact ⟨settled, trivial⟩
  obtain ⟨settled', caught⟩ := settling_program n p scope h _ _ settled hp
  obtain ⟨message, -, rfl⟩ | ⟨noError, rfl⟩ := ends
  · exact ⟨settled', trivial⟩
  refine ⟨settled', ?_⟩
  cases v with
  | returned w => exact (caught w rfl).elim
  | error message => exact (noError message rfl).elim
  | int | bool | fn | null => rfl

namespace Session

/-- The step itself binds nothing unwinding. -/
def Step.Settled : Step → Prop
  | .set _ _ value => value.isUnwinding = false
  | _ => True

/-- A value does not unwind, except that a program may be evaluated to an error. -/
def Answer.Settled : Answer → Prop
  | .value v => ∀ w, v = some w → w.isUnwinding = false
  | .evaluated _ v => v.Caught
  | .ran r => PlainResult r
  | .scope _ | .flag _ | .text _ => True

theorem settling_step (n : Nat) {s : Step} (hs : s.Settled) :
    Settling Answer.Settled (fun h => step n h s) := by
  intro h a h' settled hr
  cases s with
  | root =>
    cases hr
    exact ⟨settled.add none, trivial⟩
  | enclose scope =>
    cases hr
    exact ⟨settled.add (some scope), trivial⟩
  | equal | debug =>
    cases hr
    exact ⟨settled, trivial⟩
  | get scope name =>
    cases hr
    exact ⟨settled, fun w hw => settled.get? hw⟩
  | set scope name value =>
    cases hr
    refine ⟨settled.set scope name hs, ?_⟩
    rintro _ ⟨⟩
    exact hs
  | copy scope source sourceName name =>
    simp only [step] at hr
    split at hr
    · next value hv =>
      cases hr
      have plain := settled.get? hv
      refine ⟨settled.set scope name plain, ?_⟩
      rintro _ ⟨⟩
      exact plain
    · cases hr
      exact ⟨settled, fun w hw => by cases hw⟩
  | eval scope src =>
    obtain ⟨⟨v, h₁⟩, hp, he⟩ := Option.map_eq_some_iff.1 hr
    cases he
    exact settling_program n _ scope h _ _ settled hp
  | run scope path src =>
    obtain ⟨⟨r, h₁⟩, hp, he⟩ := Option.map_eq_some_iff.1 hr
    cases he
    exact settling_evaluateLoaded n path _ scope h _ _ settled hp
  | runFile scope path content =>
    obtain ⟨⟨r, h₁⟩, hp, he⟩ := Option.map_eq_some_iff.1 hr
    cases he
    exact settling_evaluateLoaded n path _ scope h _ _ settled hp

/-- Steps taken one after the other, each with fuel enough, their answers, and the heap that the
last one leaves. -/
inductive Runs : Heap → List Step → List Answer → Heap → Prop
  | nil {h : Heap} : Runs h [] [] h
  | cons {n : Nat} {h h₁ h₂ : Heap} {s : Step} {a : Answer} {ss : List Step}
      {as : List Answer} : step n h s = some (a, h₁) → Runs h₁ ss as h₂ →
      Runs h (s :: ss) (a :: as) h₂

theorem Runs.settled {h h' : Heap} {ss : List Step} {as : List Answer} (runs : Runs h ss as h')
    (settled : h.Settled) (hss : ∀ s ∈ ss, s.Settled) : h'.Settled ∧ ∀ a ∈ as, a.Settled := by
  induction runs with
  | nil => exact ⟨settled, by simp⟩
  | cons first _ ih =>
    rw [List.forall_mem_cons] at hss
    obtain ⟨settled₁, ha⟩ := settling_step _ hss.1 _ _ _ settled first
    obtain ⟨settled₂, has⟩ := ih settled₁ hss.2
    exact ⟨settled₂, List.forall_mem_cons.2 ⟨ha, has⟩⟩

end Session

/-- Nothing that unwinds escapes. From a heap that binds nothing unwinding, every step of evaluation
leads to such a heap, also the one that the body of a function runs on; what it answers has at most
one `returned` around it, and none behind a call or a program. So no session comes to bind
anything unwinding unless one of its own steps binds it. -/
theorem nothing_unwinding_escapes :
    (∀ n e scope, Settling Value.Flat (expr n e scope)) ∧
    (∀ n es scope, Settling FlatArguments (args n es scope)) ∧
    (∀ n s scope, Settling Value.Flat (stmt n s scope)) ∧
    (∀ n last ss scope, last.isUnwinding = false → Settling Value.Flat (stmts n last ss scope)) ∧
    (∀ n f values, (∀ v ∈ values, v.isUnwinding = false) →
      Settling Value.Caught (apply n f values)) ∧
    (∀ (h : Heap) outer ps values, h.Settled → (∀ v ∈ values, v.isUnwinding = false) →
      (bindAll h.next ps values (h.add outer)).Settled) ∧
    (∀ n p scope, Settling Value.Caught (program n p scope)) ∧
    (∀ ss as h, Session.Runs .empty ss as h → (∀ s ∈ ss, s.Settled) →
      h.Settled ∧ ∀ a ∈ as, a.Settled) := by
  refine ⟨settling_expr, settling_args, settling_stmt, ?_, ?_, ?_, settling_program, ?_⟩
  · intro n last ss scope hl
    exact settling_stmts n hl ss scope
  · intro n f values hvs
    exact settling_apply n f hvs
  · intro h outer ps values settled hvs
    exact (settled.add outer).bindAll h.next ps hvs
  · intro ss as h runs hss
    exact runs.settled Heap.settled_empty hss

/-- A `return` within a `let`, which binds nothing then. -/
def returnWithinLet : List Session.Step :=
  [.root, .eval 0 "let x = if (true) \x7b return 7; \x7d;", .get 0 "x", .run 0 "" "2 + 3"]

/-- `fn(x) { return x; }`, made in the outermost scope. -/
def returning : Closure :=
  ⟨0, [⟨.eof 0, "x"⟩],
    .mk (.eof 0) [.ret (.eof 0) (.ident ⟨.eof 0, "x"⟩) (.point 0)] (.point 0), 0⟩

theorem nothing_unwinding_escapes_returnWithinLet :
    (Session.Runs .empty returnWithinLet
        [.scope 0, .evaluated [] (.int 7), .value none, .ran (.ok (.int 5))] .root ∧
      (∀ s ∈ returnWithinLet, s.Settled) ∧ Heap.root.Settled) ∧
    (apply 9 (.fn returning) [.int 5] .root =
        some (.int 5, ⟨#[⟨[], none⟩, ⟨[("x", .int 5)], some 0⟩], 0⟩) ∧
      (Value.int 5).Caught) := by
  have evaluated : Session.step 30 .root (.eval 0 "let x = if (true) \x7b return 7; \x7d;") =
      some (.evaluated [] (.int 7), .root) := by
    with_unfolding_all rfl
  have unbound : Session.step 0 .root (.get 0 "x") = some (.value none, .root) := by
    with_unfolding_all rfl
  have ran : Session.step 30 .root (.run 0 "" "2 + 3") = some (.ran (.ok (.int 5)), .root) := by
    with_unfolding_all rfl
  have runs : Session.Runs .empty returnWithinLet
      [.scope 0, .evaluated [] (.int 7), .value none, .ran (.ok (.int 5))] .root :=
    .cons (n := 0) rfl (.cons evaluated (.cons unbound (.cons ran .nil)))
  have plain : ∀ s ∈ returnWithinLet, s.Settled := by
    simp [returnWithinLet, Session.Step.Settled]
  have settled := (nothing_unwinding_escapes.2.2.2.2.2.2.2 _ _ _ runs plain).1
  have call : apply 9 (.fn returning) [.int 5] .root =
      some (.int 5, ⟨#[⟨[], none⟩, ⟨[("x", .int 5)], some 0⟩], 0⟩) := by
    with_unfolding_all rfl
  refine ⟨⟨runs, plain, settled⟩, call, ?_⟩
  refine (nothing_unwinding_escapes.2.2.2.2.1 9 (.fn returning) [.int 5] ?_ _ _ _ settled call).2
  simp [Value.isUnwinding]

end LetFn
