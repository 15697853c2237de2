import LetFn.Proofs.Eval.Event
import LetFn.Proofs.Heap.Lookup
import LetFn.Session

/-! What names mean in the course of a session. Whatever is made, bound, copied and evaluated in
whatever order, a name means what was last written under it to the nearest scope that binds it. -/

namespace LetFn

open Event (replay lastWritten?)

namespace Session

/-! ### What a step does to the heap -/

/-- The step refers to scopes that are there, and binds nothing that is not. -/
def Step.Within (n : Nat) : Step → Prop
  | .root => True
  | .enclose scope | .get scope _ | .debug scope _ => scope < n
  | .set scope _ value => scope < n ∧ value.Within n
  | .copy scope source _ _ => scope < n ∧ source < n
  | .equal left _ right _ => left < n ∧ right < n
  | .eval scope _ | .run scope _ _ | .runFile scope _ _ => scope < n

/-- Only a program that could be loaded does anything. -/
def loadedEvents (fuel : Nat) (loaded : Except Failure Program) (scope : ScopeId) (h : Heap) :
    List Event :=
  match loaded with
  | .ok p => Eval.programEvents fuel p scope h
  | .error _ => []

def stepEvents (fuel : Nat) (h : Heap) : Step → List Event
  | .root => [.create none]
  | .enclose scope => [.create (some scope)]
  | .set scope name value => [.write scope name value]
  | .copy scope source sourceName name =>
    match h.get? source sourceName with
    | some value => [.write scope name value]
    | none => []
  | .eval scope src => Eval.programEvents fuel (parse src).program scope h
  | .run scope path src => loadedEvents fuel (check path src.toList (parse src)) scope h
  | .runFile scope path content => loadedEvents fuel (load path content) scope h
  | .get _ _ | .equal _ _ _ _ | .debug _ _ => []

variable {h h' : Heap} {log : List Event} {scope : ScopeId}

theorem leads_evaluateLoaded {n : Nat} {path : String} {loaded : Except Failure Program}
    {r : Except Failure Value} (closed : h.Closed) (hs : scope < h.next)
    (run : evaluateLoaded n path loaded scope h = some (r, h')) :
    Leads h (loadedEvents n loaded scope h) h' := by
  obtain ⟨failure, rfl, -, rfl⟩ | ⟨p, v, rfl, hp, -⟩ := evaluateLoaded_cases run
  · exact .nil
  · exact (Eval.traced_program n p closed hs _ _ hp).1

theorem leads_step {n : Nat} {s : Step} {a : Answer} (closed : h.Closed) (within : s.Within h.next)
    (run : step n h s = some (a, h')) : Leads h (stepEvents n h s) h' := by
  cases s with
  | root =>
    cases run
    exact .single (e := .create none) fun _ ho => nomatch ho
  | enclose scope =>
    cases run
    exact .single (e := .create scope) fun _ ho => Option.some.inj ho ▸ within
  | get | equal | debug =>
    cases run
    exact .nil
  | set scope name value =>
    cases run
    exact .single (e := .write scope name value) within
  | copy scope source sourceName name =>
    cases found : h.get? source sourceName with
    | none =>
      simp only [step, stepEvents, found] at run ⊢
      cases run
      exact .nil
    | some value =>
      simp only [step, stepEvents, found] at run ⊢
      cases run
      exact .single (e := .write scope name value) ⟨within.1, closed.get? found⟩
  | eval scope src =>
    obtain ⟨⟨v, h₁⟩, hp, eq⟩ := Option.map_eq_some_iff.1 run
    cases eq
    exact (Eval.traced_program n _ closed within _ _ hp).1
  | run scope path src | runFile scope path content =>
    obtain ⟨⟨r, h₁⟩, hp, eq⟩ := Option.map_eq_some_iff.1 run
    cases eq
    exact leads_evaluateLoaded closed within hp

/-! ### Histories -/

/-- A session that starts without any scope: all that has been done to the heap, and the heap that
came of it. -/
inductive History : List Event → Heap → Prop
  | start : History [] .empty
  | step {n : Nat} {h h' : Heap} {log : List Event} {s : Step} {a : Answer} : History log h →
      s.Within h.next → step n h s = some (a, h') → History (log ++ stepEvents n h s) h'

namespace History

theorem leads (history : History log h) : Leads .empty log h := by
  induction history with
  | start => exact .nil
  | step _ within run ih => exact ih.append (leads_step (ih.closed Heap.closed_empty) within run)

theorem closed (history : History log h) : h.Closed := history.leads.closed Heap.closed_empty

end History

/-- The heap of a session is made by the events of its history, and at every point of the history
scopes are nested once and for all: each lies within the scope that it was created in, which was
created before it. So the way outwards from a scope ends, without meeting any scope twice. Looking a
name up gives what was last written under it to the nearest scope on that way that binds it, and
nothing if none does; a write to a scope off that way makes no difference. -/
theorem lookup_lexical (history : History log h) {past : List Event} (before : past <+: log) :
    replay .empty log = h ∧
    (∀ i (s : Scope), (replay .empty past).scopes[i]? = some s →
      (log.filterMap Event.link?)[i]? = some s.outer ∧ ∀ o ∈ s.outer, o < i) ∧
    ∀ i < (replay .empty past).next, ∃ chain, (replay .empty past).Chain i chain ∧
      (chain.Pairwise fun j k => k < j) ∧
      (∀ name, (replay .empty past).get? i name =
        chain.findSome? fun j => lastWritten? past j name) ∧
      ∀ scope ∉ chain, ∀ name other value,
        ((replay .empty past).set scope name value).get? i other =
          (replay .empty past).get? i other := by
  have leads := history.leads.of_prefix before
  have closed := leads.closed Heap.closed_empty
  have recorded := leads.recorded .empty
  rw [List.nil_append] at recorded
  refine ⟨history.leads.replay_eq, ?_, ?_⟩
  · intro i s hs
    refine ⟨?_, closed.outer i s hs⟩
    obtain ⟨rest, rfl⟩ := before
    have link : (past.filterMap Event.link?)[i]? = some s.outer := by
      rw [← recorded.links, List.getElem?_map, Array.getElem?_toList, hs]
      rfl
    obtain ⟨hi, -⟩ := List.getElem?_eq_some_iff.1 link
    rw [List.filterMap_append, List.getElem?_append_left hi, link]
  · intro i hi
    obtain ⟨chain, on⟩ := closed.exists_chain hi
    refine ⟨chain, on, closed.chain_descends on, fun name => ?_, fun scope off name other value =>
      on.get?_set_of_not_mem off name other value⟩
    simp only [closed.get?_eq_findSome? on, recorded.own]

/-- `fn(x) { x }`, bound to `f` in the scope it is made in. -/
def sharing : Closure :=
  let inner : Ident := ⟨⟨.ident, "x", ⟨16, 17⟩⟩, "x"⟩
  ⟨0, [⟨⟨.ident, "x", ⟨11, 12⟩⟩, "x"⟩],
    .mk ⟨.lbrace, "\x7b", ⟨14, 15⟩⟩ [.expr inner.token (.ident inner) ⟨16, 17⟩] ⟨14, 19⟩, 0⟩

/-- The function is made in scope 0 and called from scope 1; the call creates scope 2. -/
def sharingLog : List Event :=
  [.create none, .closure, .write 0 "f" (.fn sharing), .create (some 0), .create (some 0),
    .write 2 "x" (.int 7), .write 1 "y" (.int 7)]

def sharingHeap : Heap :=
  ⟨#[⟨[("f", .fn sharing)], none⟩, ⟨[("y", .int 7)], some 0⟩, ⟨[("x", .int 7)], some 0⟩], 1⟩

theorem lookup_lexical_sharing :
    History sharingLog sharingHeap ∧ replay .empty sharingLog = sharingHeap ∧
    ∃ chain, sharingHeap.Chain 1 chain ∧ sharingHeap.get? 1 "f" =
      chain.findSome? fun j => lastWritten? sharingLog j "f" := by
  have made : step 30 .root (.eval 0 "let f = fn(x) \x7b x \x7d;") =
      some (.evaluated [] .null, ⟨#[⟨[("f", .fn sharing)], none⟩], 1⟩) := by
    with_unfolding_all rfl
  have called : step 30 ⟨#[⟨[("f", .fn sharing)], none⟩, ⟨[], some 0⟩], 1⟩
      (.run 1 "" "let y = f(7);") = some (.ran (.ok .null), sharingHeap) := by
    with_unfolding_all rfl
  have made_events : stepEvents 30 .root (.eval 0 "let f = fn(x) \x7b x \x7d;") =
      [.closure, .write 0 "f" (.fn sharing)] := by
    with_unfolding_all rfl
  have called_events : stepEvents 30 ⟨#[⟨[("f", .fn sharing)], none⟩, ⟨[], some 0⟩], 1⟩
      (.run 1 "" "let y = f(7);") =
        [.create (some 0), .write 2 "x" (.int 7), .write 1 "y" (.int 7)] := by
    with_unfolding_all rfl
  have opened : History [.create none] .root := .step (n := 0) (s := .root) .start trivial rfl
  have bound := opened.step (by exact Nat.lt_succ_self 0) made
  have enclosed : History (_ ++ [.create (some 0)]) ⟨#[_, _], 1⟩ :=
    bound.step (n := 0) (s := .enclose 0) (Nat.lt_succ_self 0) rfl
  have history := enclosed.step (by exact Nat.lt_succ_self 1) called
  rw [made_events, called_events] at history
  obtain ⟨replayed, -, found⟩ := lookup_lexical history (List.prefix_refl _)
  rw [replayed] at found
  obtain ⟨chain, on, -, looked, -⟩ := found 1 (by decide)
  exact ⟨history, replayed, chain, on, looked "f"⟩

end Session

end LetFn
