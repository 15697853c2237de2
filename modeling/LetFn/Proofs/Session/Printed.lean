import LetFn.Proofs.Eval.InTurn
import LetFn.Proofs.Eval.Twin
import LetFn.Proofs.Parser.RoundTrip
import LetFn.Proofs.Run.Load
import LetFn.Proofs.Session.Settled

/-! Functions print as their source. Whatever function a session comes to hold has been read from
some text, so its own text can be read, and what that makes is the same function again. -/

namespace LetFn

open Eval (program apply)

/-! ### Programs that are read -/

theorem wellFormedBody_parseChars (cs : List Char) :
    WellFormedBody (parseChars cs).program.statements :=
  wellFormedBody_iff.2 fun _ hs => wellFormed_of_mem_parseChars hs

theorem wellFormed_of_check {path : String} {src cs : List Char} {p : Program}
    (checked : check path src (parseChars cs) = .ok p) : WellFormedBody p.statements := by
  unfold check at checked
  split at checked
  · cases checked
    exact wellFormedBody_parseChars cs
  · cases checked

theorem wellFormed_of_load {path : String} {content : Except IoFault (List UInt8)} {p : Program}
    (loaded : load path content = .ok p) : WellFormedBody p.statements := by
  cases content with
  | error fault => cases loaded
  | ok bytes =>
    obtain ⟨cs, rfl⟩ | ⟨cs, b, bytes, fault, rest, rfl, hn⟩ := Text.Utf8.eq_encode_or bytes
    · obtain ⟨last, holds, -, clean⟩ := Feed.holds_encode cs
      rw [load, loadContent_of_holds holds, clean] at loaded
      exact wellFormed_of_check loaded
    · obtain ⟨last, holds, faulty⟩ := Feed.holds_of_fault cs hn
      rw [load, loadContent_of_holds holds, faulty] at loaded
      cases loaded

namespace Session

/-- What the step itself binds can be read again. -/
def Step.WellFormed : Step → Prop
  | .set _ _ value => value.WellFormed
  | _ => True

/-- The value that is given as the answer. -/
def Answer.value? : Answer → Option Value
  | .value v => v
  | .evaluated _ v => some v
  | .ran (.ok v) => some v
  | .ran (.error _) | .scope _ | .flag _ | .text _ => none

def Answer.WellFormed (a : Answer) : Prop := ∀ v, a.value? = some v → v.WellFormed

namespace Answer.WellFormed

variable {a : Answer}

theorem of_none (none : a.value? = none) : a.WellFormed := by
  intro v hv
  rw [none] at hv
  cases hv

theorem of_some {v : Value} (given : a.value? = some v) (hv : v.WellFormed) : a.WellFormed := by
  intro w hw
  rw [given] at hw
  cases hw
  exact hv

end Answer.WellFormed

theorem wellFormed_evaluateLoaded {n : Nat} {path : String} {loaded : Except Failure Program}
    (read : ∀ p, loaded = .ok p → WellFormedBody p.statements) {scope : ScopeId} {h h' : Heap}
    (wf : h.WellFormed) {r : Except Failure Value}
    (run : evaluateLoaded n path loaded scope h = some (r, h')) :
    h'.WellFormed ∧ (Answer.ran r).WellFormed := by
  obtain ⟨failure, -, rfl, rfl⟩ | ⟨p, v, rfl, hp, ends⟩ := evaluateLoaded_cases run
  · exact ⟨wf, .of_none rfl⟩
  obtain ⟨wf', hv⟩ := Eval.wellFormed_program (read p rfl) wf hp
  obtain ⟨message, -, rfl⟩ | ⟨-, rfl⟩ := ends
  · exact ⟨wf', .of_none rfl⟩
  · exact ⟨wf', .of_some rfl hv⟩

theorem wellFormed_step {n : Nat} {s : Step} (hs : s.WellFormed) {h h' : Heap} (wf : h.WellFormed)
    {a : Answer} (run : step n h s = some (a, h')) : h'.WellFormed ∧ a.WellFormed := by
  cases s with
  | root | enclose =>
    cases run
    exact ⟨wf.add _, .of_none rfl⟩
  | equal | debug =>
    cases run
    exact ⟨wf, .of_none rfl⟩
  | get scope name =>
    cases run
    exact ⟨wf, fun v hv => wf.get? hv⟩
  | set scope name value =>
    cases run
    exact ⟨wf.set scope name hs, .of_some rfl hs⟩
  | copy scope source sourceName name =>
    simp only [step] at run
    split at run
    · next value found =>
      cases run
      have hv := wf.get? found
      exact ⟨wf.set scope name hv, .of_some rfl hv⟩
    · cases run
      exact ⟨wf, .of_none rfl⟩
  | eval scope src =>
    obtain ⟨⟨v, h₁⟩, hp, ha⟩ := Option.map_eq_some_iff.1 run
    cases ha
    obtain ⟨wf', hv⟩ := Eval.wellFormed_program (wellFormedBody_parseChars src.toList) wf hp
    exact ⟨wf', .of_some rfl hv⟩
  | run scope path src =>
    obtain ⟨⟨r, h₁⟩, hr, ha⟩ := Option.map_eq_some_iff.1 run
    cases ha
    exact wellFormed_evaluateLoaded (fun _ => wellFormed_of_check) wf hr
  | runFile scope path content =>
    obtain ⟨⟨r, h₁⟩, hr, ha⟩ := Option.map_eq_some_iff.1 run
    cases ha
    exact wellFormed_evaluateLoaded (fun _ => wellFormed_of_load) wf hr

theorem Runs.wellFormed {h h' : Heap} {ss : List Step} {as : List Answer} (runs : Runs h ss as h')
    (wf : h.WellFormed) (hss : ∀ s ∈ ss, s.WellFormed) :
    h'.WellFormed ∧ ∀ a ∈ as, a.WellFormed := by
  induction runs with
  | nil => exact ⟨wf, by simp⟩
  | cons first _ ih =>
    rw [List.forall_mem_cons] at hss
    obtain ⟨wf₁, ha⟩ := wellFormed_step hss.1 wf first
    obtain ⟨wf₂, has⟩ := ih wf₁ hss.2
    exact ⟨wf₂, List.forall_mem_cons.2 ⟨ha, has⟩⟩

/-! ### Reading a function again -/

/-- The text of a function is the text of a literal, the parts of which differ from those of the
function in tokens and places only. -/
theorem parse_inspect {f : Closure} (wf : f.literal.WellFormed) :
    ∃ t t' s s' ps body,
      parse (Value.fn f).inspect = ⟨⟨[.expr t (.fn t' ps body s) s']⟩, []⟩ ∧
      ∀ id, f.Twin ⟨id, ps, body, f.scope⟩ := by
  obtain ⟨stmt, reads, erased⟩ := parse_render (s := .expr (.eof 0) f.literal (.point 0)) wf
  rw [Stmt.render, f.render_literal] at reads
  have read : stmt ∈ (parse f.render).program.statements := by
    rw [reads]
    exact List.mem_singleton_self stmt
  have wf' : stmt.WellFormed := wellFormed_of_mem_parseChars read
  cases stmt with
  | expr t e s' =>
    cases e with
    | fn t' ps body s =>
      refine ⟨t, t', s, s', ps, body, reads, fun id => ⟨⟨wf, ⟨rfl, wf'.2⟩, ?_⟩, rfl⟩⟩
      simpa [Closure.literal] using erased.symm
    | _ => simp [Closure.literal] at erased
  | _ => simp at erased

/-- Functions print as their source. If a session binds nothing itself but what can be read, the
text of every function that comes to be bound in it, or is an answer, is read without an error as a
literal with the same names and the same body, apart from tokens and places. Evaluated where the
function was made, it makes one that does the same with all arguments. -/
theorem inspect_rereads {ss : List Step} {as : List Answer} {h : Heap} (runs : Runs .empty ss as h)
    (hss : ∀ s ∈ ss, s.WellFormed) {f : Closure}
    (held : (∃ i x, h.own? i x = some (.fn f)) ∨ ∃ a ∈ as, a.value? = some (.fn f)) :
    ∃ t t' s s' ps body,
      parse (Value.fn f).inspect = ⟨⟨[.expr t (.fn t' ps body s) s']⟩, []⟩ ∧
      ps.map Ident.name = f.parameters.map Ident.name ∧ body.erase = f.body.erase ∧
      ∀ k : Heap,
        (∃ n, step n k (.eval f.scope (Value.fn f).inspect) =
          some (.evaluated [] (.fn ⟨k.closures, ps, body, f.scope⟩),
            { k with closures := k.closures + 1 })) ∧
        ∀ values (k₁ k₂ : Heap), k₂.scopes = k₁.scopes → ∀ n,
          Eval.Related Value.LooksLike (fun _ _ => True) (apply n (.fn f) values k₁)
            (apply n (.fn ⟨k.closures, ps, body, f.scope⟩) values k₂) := by
  obtain ⟨bound, given⟩ := runs.wellFormed Heap.wellFormed_empty hss
  have wf : f.literal.WellFormed := by
    obtain ⟨i, x, hf⟩ | ⟨a, ha, hf⟩ := held
    · exact bound i x _ hf
    · exact given a ha _ hf
  obtain ⟨t, t', s, s', ps, body, reads, twin⟩ := parse_inspect wf
  have same := (twin 0).literal.erase_eq
  simp only [Closure.literal, Expr.erase_fn, Expr.fn.injEq, true_and, and_true] at same
  refine ⟨t, t', s, s', ps, body, reads, map_name_eq same.1.symm, same.2.symm, fun k => ⟨?_, ?_⟩⟩
  · refine ⟨3, ?_⟩
    rw [step, reads, program, Eval.stmts_singleton 1, Eval.expr]
    rfl
  · intro values k₁ k₂ scopes n
    exact Eval.related_apply_of_twin (twin k.closures) values scopes n

/-- `fn(x) { a - x }`, read behind `let a = 2;` and made in the outermost scope. -/
def lessening : Closure :=
  let a : Token := ⟨.ident, "a", ⟨19, 20⟩⟩
  let x : Token := ⟨.ident, "x", ⟨23, 24⟩⟩
  let difference : Expr :=
    .binary ⟨.minus, "-", ⟨21, 22⟩⟩ (.ident ⟨a, "a"⟩) "-" (.ident ⟨x, "x"⟩) ⟨19, 24⟩
  ⟨0, [⟨⟨.ident, "x", ⟨14, 15⟩⟩, "x"⟩],
    .mk ⟨.lbrace, "\x7b", ⟨17, 18⟩⟩ [.expr a difference ⟨19, 24⟩] ⟨17, 26⟩, 0⟩

def withTwo : Heap := ⟨#[⟨[("a", .int 2)], none⟩], 1⟩

theorem inspect_rereads_lessening :
    Runs .empty [.root, .eval 0 "let a = 2; fn(x) \x7b a - x \x7d"]
        [.scope 0, .evaluated [] (.fn lessening)] withTwo ∧
      (Value.fn lessening).inspect = "fn(x) \x7b (a - x); \x7d" ∧
      ∃ g w k, (∃ n, step n withTwo (.eval 0 (Value.fn lessening).inspect) =
          some (.evaluated [] (.fn g), { withTwo with closures := 2 })) ∧
        apply 9 (.fn g) [.int 5] withTwo = some (w, k) ∧ (Value.int (-3)).LooksLike w := by
  have evaluated : step 30 .root (.eval 0 "let a = 2; fn(x) \x7b a - x \x7d") =
      some (.evaluated [] (.fn lessening), withTwo) := by
    with_unfolding_all rfl
  have runs : Runs .empty [.root, .eval 0 "let a = 2; fn(x) \x7b a - x \x7d"]
      [.scope 0, .evaluated [] (.fn lessening)] withTwo :=
    .cons (n := 0) rfl (.cons evaluated .nil)
  have readable : ∀ s ∈ [Step.root, .eval 0 "let a = 2; fn(x) \x7b a - x \x7d"], s.WellFormed := by
    simp [Step.WellFormed]
  have call : (apply 9 (.fn lessening) [.int 5] withTwo).map Prod.fst = some (.int (-3)) := by
    with_unfolding_all rfl
  obtain ⟨_, _, _, _, ps, body, -, -, -, again⟩ :=
    inspect_rereads runs readable
      (.inr ⟨_, List.mem_cons_of_mem _ (List.mem_singleton_self _), rfl⟩)
  obtain ⟨made, does⟩ := again withTwo
  have ends := does [.int 5] withTwo withTwo rfl 9
  generalize apply 9 (.fn lessening) [.int 5] withTwo = r at call ends
  generalize called : apply 9 (.fn ⟨_, ps, body, _⟩) [.int 5] withTwo = r' at ends
  obtain @⟨⟨v, k⟩, ⟨w, k'⟩, like, -⟩ | _ := ends
  · obtain rfl : v = .int (-3) := Option.some.inj call
    exact ⟨runs, by decide, _, w, k', made, called, like⟩
  · cases call

end Session

end LetFn
