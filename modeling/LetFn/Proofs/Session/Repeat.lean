import LetFn.Proofs.Heap.Shift
import LetFn.Proofs.Session.Lookup

/-! Calls can be repeated. A call writes no scope that was there before it, so another one finds all
it can look at as it was; what they give differs in the scopes made for them and in nothing else. -/

namespace LetFn

open Eval (apply)

/-- Any number of calls, whatever is called. -/
inductive Calls : Heap → Heap → Prop
  | none {h : Heap} : Calls h h
  | call {n : Nat} {h k k' : Heap} {f v : Value} {values : List Value} : Calls h k →
      apply n f values k = some (v, k') → Calls h k'

theorem Calls.same {h k : Heap} (calls : Calls h k) {i : ScopeId} {s : Scope}
    (hs : h.scopes[i]? = some s) : k.scopes[i]? = some s := by
  induction calls with
  | none => exact hs
  | call _ run ih => exact Eval.same_apply _ _ _ _ run (ih hs)

/-- After any calls a call goes as it would have gone before them. -/
theorem Calls.related_apply {h k : Heap} (calls : Calls h k) (closed : h.Closed) {f : Value}
    {values : List Value} (hf : f.Within h.next) (hvs : ∀ v ∈ values, v.Within h.next) (n : Nat) :
    Eval.Related Value.LooksLike (fun _ _ => True) (apply n f values h) (apply n f values k) := by
  have heaps := Heap.Shifted.of_same closed fun _ _ => calls.same
  have related := Eval.related_apply (Heap.simulation_image shift_lt_shift_iff) n hf.alike
    (List.forall₂_same.2 fun v hv => (hvs v hv).alike) heaps.image
  exact related.mono (fun _ _ => Value.Alike.looksLike) fun _ _ _ => trivial

namespace Session

/-- In every session calls can be repeated: what a function gives for some arguments it gives once
more, and a call ends or not and looks the same whatever was called before it. -/
theorem apply_repeats {log : List Event} {h : Heap} (history : History log h) {f : Value}
    {values : List Value} (hf : f.Within h.next) (hvs : ∀ v ∈ values, v.Within h.next) :
    (∀ n v h', apply n f values h = some (v, h') →
      ∃ w k, apply n f values h' = some (w, k) ∧ v.LooksLike w) ∧
    ∀ n k, Calls h k →
      Eval.Related Value.LooksLike (fun _ _ => True) (apply n f values h) (apply n f values k) := by
  have after : ∀ n k, Calls h k → Eval.Related _ _ (apply n f values h) (apply n f values k) :=
    fun n k calls => calls.related_apply history.closed hf hvs n
  refine ⟨fun n v h' run => ?_, after⟩
  have again := after n h' (.call .none run)
  rw [run] at again
  generalize apply n f values h' = r at again ⊢
  obtain @⟨_, ⟨w, k⟩, like, -⟩ := again
  exact ⟨w, k, rfl, like⟩

/-- `fn(x) { fn() { x } }`, made in the outermost scope. -/
def delaying : Closure :=
  ⟨0, [⟨.eof 0, "x"⟩],
    .mk (.eof 0)
      [.expr (.eof 0) (.fn (.eof 0) []
        (.mk (.eof 0) [.expr (.eof 0) (.ident ⟨.eof 0, "x"⟩) (.point 0)] (.point 0)) (.point 0))
        (.point 0)]
      (.point 0), 0⟩

/-- `fn() { x }`, as made by the call that scope `scope` was created for. -/
def delayed (id : Nat) (scope : ScopeId) : Closure :=
  ⟨id, [], .mk (.eof 0) [.expr (.eof 0) (.ident ⟨.eof 0, "x"⟩) (.point 0)] (.point 0), scope⟩

def withDelaying : Heap := ⟨#[⟨[("f", .fn delaying)], none⟩], 0⟩

/-- The outermost scope, and one for each call. -/
def afterDelaying : Heap :=
  ⟨#[⟨[("f", .fn delaying)], none⟩, ⟨[("x", .int 5)], some 0⟩], 1⟩

theorem apply_repeats_delaying :
    (apply 9 (.fn delaying) [.int 5] withDelaying = some (.fn (delayed 0 1), afterDelaying) ∧
      ∃ w k, apply 9 (.fn delaying) [.int 5] afterDelaying = some (w, k) ∧
        (Value.fn (delayed 0 1)).LooksLike w) := by
  have opened : History [.create none] .root := .step (n := 0) (s := .root) .start trivial rfl
  have history : History [.create none, .write 0 "f" (.fn delaying)] withDelaying :=
    opened.step (n := 0) (s := .set 0 "f" (.fn delaying))
      ⟨Nat.lt_succ_self 0, Nat.lt_succ_self 0⟩ rfl
  have run : apply 9 (.fn delaying) [.int 5] withDelaying =
      some (.fn (delayed 0 1), afterDelaying) := by
    with_unfolding_all rfl
  have callee : (Value.fn delaying).Within withDelaying.next := Nat.lt_succ_self 0
  have arguments : ∀ v ∈ [Value.int 5], v.Within withDelaying.next := by simp [Value.Within]
  exact ⟨run, (apply_repeats history callee arguments).1 9 _ _ run⟩

end Session

end LetFn
