import LetFn.Proofs.Eval.InTurn
import LetFn.Proofs.Eval.Settled
import LetFn.Proofs.Heap.Image

/-! The same statements as a program, as the branch of a condition and as the body of a function.
Each of the three has its own way to deal with what unwinds, and they agree on all statements. -/

namespace LetFn

/-- `if (true) { … }` around the statements. -/
inductive Program.IfTrue (ss : List Stmt) : Program → Prop
  | intro (t t' t'' t''' : Token) (s s' s'' : Span) :
      IfTrue ss ⟨[.expr t (.cond t' (.bool t'' true) (.mk t''' ss s'') none s') s]⟩

/-- `fn() { … }()` around the statements. -/
inductive Program.CalledAtOnce (ss : List Stmt) : Program → Prop
  | intro (t t' t'' t''' : Token) (s s' s'' s''' : Span) :
      CalledAtOnce ss ⟨[.expr t (.call t' (.fn t'' [] (.mk t''' ss s''') s'') [] s') s]⟩

namespace Eval

/-! ### Blocks -/

theorem program_ifTrue {ss : List Stmt} {p : Program} (hp : p.IfTrue ss) (n : Nat)
    (scope : ScopeId) (h : Heap) : program (n + 3) p scope h = program n ⟨ss⟩ scope h := by
  obtain ⟨t, t', t'', t''', s, s', s''⟩ := hp
  rw [program, program, stmts_singleton (n + 1)]
  cases n with
  | zero => simp only [expr, stmts, andThen]
  | succ n =>
    simp only [expr, andThen, Value.isUnwinding, Value.isTruthy, Block.statements]
    rfl

/-! ### Bodies -/

/-- The body is a program of its own, in a scope within the one of the call. Once more it is asked
for what it returns, which makes no difference to what has been caught already. -/
theorem program_calledAtOnce {ss : List Stmt} {p : Program} (hp : p.CalledAtOnce ss) (n : Nat)
    (scope : ScopeId) {h k : Heap} (hk : k = { h with closures := h.closures + 1 }) :
    program (n + 4) p scope h =
      (program n ⟨ss⟩ k.next (k.add (some scope))).map fun (v, h) => (v.unwrap, h) := by
  subst hk
  obtain ⟨t, t', t'', t''', s, s', s'', s'''⟩ := hp
  rw [program, program, stmts_singleton (n + 2)]
  simp only [expr, andThen, Value.isUnwinding, args, apply, bindAll, Block.statements]
  rfl

end Eval

/-- A scope that has just been made is like the only one there is, if nothing is bound around it. -/
theorem Heap.matched_add {P : String → Prop} {F : Closure → Closure → Prop} (h : Heap)
    {outer : Option ScopeId} (blank : ∀ a ∈ outer, h.scopes[a]? = some ⟨[], none⟩) :
    Heap.Matched P (· + h.next) F outer .root (h.add outer) := by
  have empty : Heap.Matched P (· + h.next) F outer .empty h := by
    refine ⟨fun n => ?_, fun i => ?_, blank⟩
    · show 0 + n + h.next = h.next + n
      rw [Nat.zero_add, Nat.add_comm]
    · rw [Array.getElem?_eq_none (Nat.le_add_left h.next i)]
      exact .none
  exact empty.add Nat.add_lt_add_iff_right rfl

namespace Eval

/-- What statements do in a scope that has just been made does not depend on what else is in the
heap, nor on an empty scope around it. -/
theorem related_fresh (n : Nat) (p : Program) (h : Heap) (outer : Option ScopeId)
    (blank : ∀ a ∈ outer, h.scopes[a]? = some ⟨[], none⟩) :
    Related (Value.Alike (fun _ => True) (· + h.next))
      (Heap.Matched (fun _ => True) (· + h.next) (Closure.Alike (fun _ => True) (· + h.next)) outer)
      (program n p 0 .root) (program n p h.next (h.add outer)) := by
  have inside : ∀ a ∈ outer, ∀ i, i + h.next ≠ a := by
    intro a ha i
    exact Nat.ne_of_gt (Nat.lt_add_left i (Heap.lt_next (blank a ha)))
  have related : Related (Value.Alike _ _) _ (program n p 0 .root)
      (program n p (0 + h.next) (h.add outer)) :=
    related_program (Heap.simulation_matched Nat.add_lt_add_iff_right inside) n p
      (fun _ _ => trivial) 0 (h.matched_add blank)
  rwa [Nat.zero_add] at related

/-- In a fresh scope statements and a call of their own come to like ends, whatever else is in the
heap. The call binds nothing in that scope. -/
theorem related_calledAtOnce {ss : List Stmt} {p : Program} (hp : p.CalledAtOnce ss) (n : Nat)
    (h : Heap) :
    Related Value.LooksLike (fun _ k => k.scopes[h.next]? = some ⟨[], none⟩)
      (program n ⟨ss⟩ h.next (h.add none)) (program (n + 4) p h.next (h.add none)) := by
  -- both are compared with the statements in the only scope there is
  have alone := related_fresh n ⟨ss⟩ h none nofun
  have blank : (h.add none).scopes[h.next]? = some ⟨[], none⟩ := Array.getElem?_push_size
  have called := related_fresh n ⟨ss⟩ { h.add none with closures := (h.add none).closures + 1 }
    (some h.next) fun _ ha => Option.some.inj ha ▸ blank
  rw [program_calledAtOnce hp n h.next rfl]
  generalize run : program n ⟨ss⟩ 0 .root = r at alone called
  generalize program n ⟨ss⟩ h.next (h.add none) = r₁ at alone ⊢
  generalize program n ⟨ss⟩ _ _ = r₂ at called ⊢
  obtain @⟨⟨v, k⟩, ⟨v₁, k₁⟩, alike₁, -⟩ | _ := alone
  · obtain @⟨_, ⟨v₂, k₂⟩, alike₂, matched⟩ := called
    have caught := (settling_program n ⟨ss⟩ 0 _ _ _ (Heap.settled_empty.add none) run).2
    have like₁ : v.LooksLike v₁ := Value.Alike.looksLike alike₁
    have like₂ : v.unwrap.LooksLike v₂.unwrap := Value.Alike.looksLike alike₂.unwrap
    rw [caught.unwrap_eq] at like₂
    exact related_some (like₁.symm.trans like₂) (matched.blank _ rfl)
  · cases called
    exact related_none

/-- Statements mean the same as a program, as a branch and as the body of a function. In every scope
of every heap they and `if (true)` around them come to the same end, if to any; and in a fresh root,
whatever else is in the heap, they and a call of them come to an end or not all the same, with
values that look the same, the call leaving the root empty. -/
theorem program_as_branch_and_body (ss : List Stmt) {p q : Program} (hp : p.IfTrue ss)
    (hq : q.CalledAtOnce ss) :
    (∀ scope h a,
      (∃ n, program n ⟨ss⟩ scope h = some a) ↔ ∃ n, program n p scope h = some a) ∧
    ∀ h : Heap,
      ((∃ n, (program n ⟨ss⟩ h.next (h.add none)).isSome) ↔
        ∃ n, (program n q h.next (h.add none)).isSome) ∧
      ∀ n m a b, program n ⟨ss⟩ h.next (h.add none) = some a →
        program m q h.next (h.add none) = some b →
        a.1.LooksLike b.1 ∧ b.2.scopes[h.next]? = some ⟨[], none⟩ := by
  refine ⟨fun scope h a => ?_, fun h => ⟨?_, fun n m a b ha hb => ?_⟩⟩
  · constructor
    · rintro ⟨n, hn⟩
      exact ⟨n + 3, program_ifTrue hp n scope h ▸ hn⟩
    · rintro ⟨n, hn⟩
      have more := (program_below (Nat.le_add_right n 3) p scope h).eq_some hn
      exact ⟨n, program_ifTrue hp n scope h ▸ more⟩
  · constructor
    · rintro ⟨n, hn⟩
      exact ⟨n + 4, (related_calledAtOnce hq n h).isSome_eq ▸ hn⟩
    · rintro ⟨n, hn⟩
      obtain ⟨b, hb⟩ := Option.isSome_iff_exists.1 hn
      have more := (program_below (Nat.le_add_right n 4) q h.next (h.add none)).eq_some hb
      refine ⟨n, ?_⟩
      rw [(related_calledAtOnce hq n h).isSome_eq, more]
      rfl
  · -- with fuel enough for both, neither end is another one
    have ha := (program_below (Nat.le_max_left n m) ⟨ss⟩ h.next (h.add none)).eq_some ha
    have enough : m ≤ max n m + 4 := Nat.le_add_right_of_le (Nat.le_max_right n m)
    have hb := (program_below enough q h.next (h.add none)).eq_some hb
    have ends := related_calledAtOnce hq (max n m) h
    rw [ha, hb] at ends
    obtain ⟨like, empty⟩ := ends
    exact ⟨like, empty⟩

/-- `let y = 5; return fn() { y };` -/
def returningDelay : List Stmt :=
  [.bind (.eof 0) ⟨.eof 0, "y"⟩ (.int (.eof 0) 5) (.point 0),
    .ret (.eof 0)
      (.fn (.eof 0) [] (.mk (.eof 0) [.expr (.eof 0) (.ident ⟨.eof 0, "y"⟩) (.point 0)] (.point 0))
        (.point 0))
      (.point 0)]

/-- `fn() { y }`, made in the root. -/
def delay : Closure :=
  ⟨0, [], .mk (.eof 0) [.expr (.eof 0) (.ident ⟨.eof 0, "y"⟩) (.point 0)] (.point 0), 0⟩

/-- As a branch they bind `y` in the root, as a body they leave it empty. -/
theorem program_as_branch_and_body_returningDelay :
    (∃ n, program n
        ⟨[.expr (.eof 0)
          (.cond (.eof 0) (.bool (.eof 0) true) (.mk (.eof 0) returningDelay (.point 0)) none
            (.point 0))
          (.point 0)]⟩ 0 .root =
      some (.fn delay, ⟨#[⟨[("y", .int 5)], none⟩], 1⟩)) ∧
    ∃ n b, program n
        ⟨[.expr (.eof 0)
          (.call (.eof 0)
            (.fn (.eof 0) [] (.mk (.eof 0) returningDelay (.point 0)) (.point 0)) [] (.point 0))
          (.point 0)]⟩ 0 .root = some b ∧
      (Value.fn delay).LooksLike b.1 ∧ b.2.scopes[0]? = some ⟨[], none⟩ := by
  have run : program 9 ⟨returningDelay⟩ 0 .root =
      some (.fn delay, ⟨#[⟨[("y", .int 5)], none⟩], 1⟩) := by
    with_unfolding_all rfl
  obtain ⟨branch, body⟩ :=
    program_as_branch_and_body returningDelay (.intro ..) (.intro ..)
  obtain ⟨ends, look⟩ := body .empty
  obtain ⟨n, hn⟩ := ends.1 ⟨9, Option.isSome_of_eq_some run⟩
  obtain ⟨b, hb⟩ := Option.isSome_iff_exists.1 hn
  exact ⟨(branch 0 .root _).1 ⟨9, run⟩, n, b, hb, look 9 n _ b run hb⟩

end Eval

end LetFn
