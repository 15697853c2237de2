import LetFn.Proofs.Eval.Arises
import LetFn.Proofs.Session.Printed

/-! The errors of a session. Whatever texts are evaluated in it, and whatever comes out of them is
bound and evaluated again, its errors are of the forms that can arise. -/

namespace LetFn

open Eval

/-! ### Before anything is evaluated -/

variable {path p message : String}

theorem check_ne_runtime {src : List Char} {parsed : Parsed} :
    check path src parsed ≠ .error (.runtime p message) := by
  unfold check
  split <;> simp

theorem load_ne_runtime {content : Except IoFault (List UInt8)} :
    load path content ≠ .error (.runtime p message) := by
  cases content with
  | error fault => simp [load]
  | ok bytes =>
    simp only [load, loadContent]
    split
    · exact check_ne_runtime
    · simp

namespace Session

/-! ### Answers -/

/-- The value that is given as the answer, or the error that the answer tells of. -/
def Answer.outcome? : Answer → Option Value
  | .ran (.error (.runtime _ message)) => some (.error message)
  | a => a.value?

def Answer.Genuine (a : Answer) : Prop := ∀ v, a.outcome? = some v → v.Genuine

/-- What the step itself binds is genuine. -/
def Step.Genuine : Step → Prop
  | .set _ _ value => value.Genuine
  | _ => True

/-- What the steps bind themselves has been answered before, be it to a step in front of them. -/
def BindsAnswers : (before : List Answer) → List Step → List Answer → Prop
  | before, s :: ss, a :: as =>
    (∀ scope name v, s = .set scope name v → ∃ b ∈ before, b.outcome? = some v) ∧
      BindsAnswers (a :: before) ss as
  | _, _, _ => True

theorem Answer.genuine_of_none {a : Answer} (none : a.outcome? = none) : a.Genuine := by
  intro v hv
  rw [none] at hv
  cases hv

theorem Answer.genuine_of_some {a : Answer} {v : Value} (given : a.outcome? = some v)
    (hv : v.Genuine) : a.Genuine := by
  intro w hw
  rw [given] at hw
  exact Option.some.inj hw ▸ hv

theorem keeps_evaluateLoaded (n : Nat) (path : String) {loaded : Except Failure Program}
    (read : ∀ p, loaded = .ok p → WellFormedBody p.statements)
    (unevaluated : ∀ p message, loaded ≠ .error (.runtime p message)) (scope : ScopeId) :
    Keeps (fun r => (Answer.ran r).Genuine) (evaluateLoaded n path loaded scope) := by
  intro h r h' genuine run
  obtain ⟨failure, rfl, rfl, rfl⟩ | ⟨p, v, rfl, hp, ends⟩ := evaluateLoaded_cases run
  · refine ⟨genuine, Answer.genuine_of_none ?_⟩
    cases failure with
    | runtime p message => exact (unevaluated p message rfl).elim
    | parse | io => rfl
  obtain ⟨genuine', hv⟩ := keeps_program n (read p rfl) scope h _ _ genuine hp
  obtain ⟨message, rfl, rfl⟩ | ⟨-, rfl⟩ := ends
  · exact ⟨genuine', Answer.genuine_of_some rfl hv⟩
  · exact ⟨genuine', Answer.genuine_of_some rfl hv⟩

theorem keeps_step (n : Nat) {s : Step} (hs : s.Genuine) :
    Keeps Answer.Genuine fun h => step n h s := by
  intro h a h' genuine run
  cases s with
  | root | enclose =>
    cases run
    exact ⟨genuine.add _, Answer.genuine_of_none rfl⟩
  | equal | debug =>
    cases run
    exact ⟨genuine, Answer.genuine_of_none rfl⟩
  | get scope name =>
    cases run
    exact ⟨genuine, fun v hv => genuine.get? hv⟩
  | set scope name value =>
    cases run
    exact ⟨genuine.set scope name hs, Answer.genuine_of_some rfl hs⟩
  | copy scope source sourceName name =>
    simp only [step] at run
    split at run
    · next value found =>
      cases run
      have hv := genuine.get? found
      exact ⟨genuine.set scope name hv, Answer.genuine_of_some rfl hv⟩
    · cases run
      exact ⟨genuine, Answer.genuine_of_none rfl⟩
  | eval scope src =>
    obtain ⟨⟨v, h₁⟩, hp, ha⟩ := Option.map_eq_some_iff.1 run
    cases ha
    obtain ⟨genuine', hv⟩ :=
      keeps_program n (wellFormedBody_parseChars src.toList) scope h _ _ genuine hp
    exact ⟨genuine', Answer.genuine_of_some rfl hv⟩
  | run scope path src =>
    obtain ⟨⟨r, h₁⟩, hr, ha⟩ := Option.map_eq_some_iff.1 run
    cases ha
    exact keeps_evaluateLoaded n path (fun _ => wellFormed_of_check)
      (fun _ _ => check_ne_runtime) scope h _ _ genuine hr
  | runFile scope path content =>
    obtain ⟨⟨r, h₁⟩, hr, ha⟩ := Option.map_eq_some_iff.1 run
    cases ha
    exact keeps_evaluateLoaded n path (fun _ => wellFormed_of_load)
      (fun _ _ => load_ne_runtime) scope h _ _ genuine hr

/-- What has been answered so far is genuine, and so is what is bound. -/
theorem Runs.genuine {h h' : Heap} {ss : List Step} {as before : List Answer}
    (runs : Runs h ss as h') (genuine : h.Genuine) (answered : ∀ b ∈ before, b.Genuine)
    (fed : BindsAnswers before ss as) : h'.Genuine ∧ ∀ a ∈ as, a.Genuine := by
  induction runs generalizing before with
  | nil => exact ⟨genuine, by simp⟩
  | @cons n h h₁ h₂ s a ss as first _ ih =>
    obtain ⟨given, rest⟩ := fed
    have hs : s.Genuine := by
      cases s with
      | set scope name v =>
        obtain ⟨b, hb, hv⟩ := given scope name v rfl
        exact answered b hb v hv
      | _ => trivial
    obtain ⟨genuine₁, ha⟩ := keeps_step n hs h a h₁ genuine first
    obtain ⟨genuine₂, has⟩ := ih genuine₁ (List.forall_mem_cons.2 ⟨ha, answered⟩) rest
    exact ⟨genuine₂, List.forall_mem_cons.2 ⟨ha, has⟩⟩

/-- If a session binds nothing itself but what has come out of it, then every error in it is one
that can arise, and its message cannot be read as that of another. So no operator that is read is
unknown for integers, none but `-` is unknown as a prefix, and no operand and nothing that is called
is an error or something returned. -/
theorem errors_arise {ss : List Step} {as : List Answer} {h : Heap} (runs : Runs .empty ss as h)
    (fed : BindsAnswers [] ss as) {a : Answer} (ha : a ∈ as) {message : String}
    (raised : a.outcome? = some (.error message)) :
    (∃ e : RuntimeError, e.Arises ∧ e.message = message) ∧
      ∀ e : RuntimeError, e.Spelled → e.message = message → e.Arises := by
  obtain ⟨-, genuine⟩ := runs.genuine Heap.binds_empty (by simp) fed
  obtain ⟨e, arises, same⟩ := genuine a ha _ raised
  refine ⟨⟨e, arises, same⟩, fun e' spelled same' => ?_⟩
  exact RuntimeError.eq_of_message arises.spelled spelled (same.trans same'.symm) ▸ arises

/-- `fn(x) { -x }`, read behind `let f = ` and made in the outermost scope. -/
def negating : Closure :=
  let minus : Token := ⟨.minus, "-", ⟨16, 17⟩⟩
  let opposite : Expr := .unary minus "-" (.ident ⟨⟨.ident, "x", ⟨17, 18⟩⟩, "x"⟩) ⟨16, 18⟩
  ⟨0, [⟨⟨.ident, "x", ⟨11, 12⟩⟩, "x"⟩],
    .mk ⟨.lbrace, "\x7b", ⟨14, 15⟩⟩ [.expr minus opposite ⟨16, 18⟩] ⟨14, 20⟩, 0⟩

def withNegating : Heap := ⟨#[⟨[("f", .fn negating)], none⟩], 1⟩

/-- The call leaves the scope behind that its body ran in. -/
def afterCall : Heap := (withNegating.add (some 0)).set 1 "x" (.bool true)

def notNegated : Value := .error "unknown operator: -BOOLEAN"

/-- A function is called with the wrong type in a later text than the one that makes it, and the
error is bound and used. -/
def misuse : List Step :=
  [.root, .eval 0 "let f = fn(x) \x7b -x \x7d; let", .eval 0 "f(true)", .set 0 "e" notNegated,
    .run 0 "" "5 + e"]

def misuseAnswers : List Answer :=
  [.scope 0, .evaluated [⟨.unexpected .ident .eof, ⟨25, 25⟩⟩] .null, .evaluated [] notNegated,
    .value (some notNegated), .ran (.error (.runtime "" "unknown operator: -BOOLEAN"))]

theorem errors_arise_misuse :
    (∃ h, Runs .empty misuse misuseAnswers h) ∧ BindsAnswers [] misuse misuseAnswers ∧
      (∃ e : RuntimeError, e.Arises ∧ e.message = "unknown operator: -BOOLEAN") ∧
      (RuntimeError.unknownUnary "-" .bool).Arises := by
  have defined : step 30 .root (.eval 0 "let f = fn(x) \x7b -x \x7d; let") =
      some (.evaluated [⟨.unexpected .ident .eof, ⟨25, 25⟩⟩] .null, withNegating) := by
    with_unfolding_all rfl
  have failed : step 30 withNegating (.eval 0 "f(true)") =
      some (.evaluated [] notNegated, afterCall) := by
    with_unfolding_all rfl
  have used : step 30 (afterCall.set 0 "e" notNegated) (.run 0 "" "5 + e") =
      some (.ran (.error (.runtime "" "unknown operator: -BOOLEAN")),
        afterCall.set 0 "e" notNegated) := by
    with_unfolding_all rfl
  have runs : Runs .empty misuse misuseAnswers (afterCall.set 0 "e" notNegated) :=
    .cons (n := 0) rfl (.cons defined (.cons failed (.cons (n := 0) rfl (.cons used .nil))))
  have fed : BindsAnswers [] misuse misuseAnswers := by
    refine ⟨nofun, nofun, nofun, ?_, nofun, trivial⟩
    rintro _ _ _ ⟨⟩
    exact ⟨.evaluated [] notNegated, List.mem_cons_self, rfl⟩
  obtain ⟨raised, only⟩ := errors_arise runs fed (List.mem_of_getElem? (i := 4) rfl) rfl
  have message : (RuntimeError.unknownUnary "-" .bool).message = "unknown operator: -BOOLEAN" := rfl
  exact ⟨⟨_, runs⟩, fed, raised, only _ (by decide : ' ' ∉ "-".toList) message⟩

end Session

end LetFn
