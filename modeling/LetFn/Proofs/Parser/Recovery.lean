import LetFn.Proofs.Parser.Prefix

/-! Reading starts afresh behind a semicolon. Where no block has been opened no step gets past one:
an expression ends in front of it, and whatever cannot be read fails on it or before. So what
follows it is read as if it stood alone, however wrong the tokens in front of it are. -/

namespace LetFn

namespace Cursor

variable {r c : Cursor} {kind : Kind}

/-- The tokens left to read end in a semicolon, and there is no end of input among them. -/
structure Terminated (c : Cursor) : Prop where
  last : c.tokens.getLast?.map Token.kind = some .semicolon
  noEnd : ∀ t ∈ c.tokens, t.kind ≠ .eof

namespace Terminated

theorem ne_nil (h : c.Terminated) : c.tokens ≠ [] := by
  intro hc
  simpa [hc] using h.last

theorem current_mem (h : c.Terminated) : c.current ∈ c.tokens := by
  obtain ⟨t, w, hc⟩ := List.exists_cons_of_ne_nil h.ne_nil
  simp [current_eq_headD, hc]

/-- Any other token has the semicolon still behind it. -/
theorem more (h : c.Terminated) (hk : c.current.kind ≠ .semicolon) : c.tokens.tail ≠ [] := by
  obtain ⟨t, w, hc⟩ := List.exists_cons_of_ne_nil h.ne_nil
  intro hw
  have last := h.last
  simp only [hc, List.tail_cons] at hw
  simp only [hc, hw, List.getLast?_singleton, Option.map_some, Option.some.injEq] at last
  exact hk (by simpa [current_eq_headD, hc] using last)

/-- What is left behind a part of the tokens ends as they do. -/
theorem suffix {c' : Cursor} (h : c.Terminated) {v : List Token} (hc : c.tokens = v ++ c'.tokens)
    (ne : c'.tokens ≠ []) : c'.Terminated where
  last := by
    have last := h.last
    have some := List.getLast?_eq_some_getLast ne
    rwa [hc, List.getLast?_append, some, Option.some_or, ← some] at last
  noEnd t ht := h.noEnd t (hc ▸ List.mem_append_right v ht)

theorem advance (h : c.Terminated) (more : c.tokens.tail ≠ []) : c.advance.Terminated := by
  obtain ⟨t, w, hc⟩ := List.exists_cons_of_ne_nil h.ne_nil
  have split : c.tokens = [t] ++ c.advance.tokens := by simp [hc]
  exact h.suffix split more

theorem advance_or (h : c.Terminated) : c.advance.tokens = [] ∨ c.advance.Terminated := by
  by_cases last : c.tokens.tail = []
  · exact .inl last
  · exact .inr (h.advance last)

/-- Unless something follows the last semicolon, it cannot be skipped. -/
theorem skipSemicolon (h : c.Terminated) : c.skipSemicolon.Terminated := by
  by_cases last : c.tokens.tail = []
  · exact (skipSemicolon_of_tail last).symm ▸ h
  unfold Cursor.skipSemicolon
  split
  · exact h.advance last
  · exact h

end Terminated

/-- The tokens left to read end in a semicolon, open no block and hold no end of input. -/
structure Guarded (c : Cursor) : Prop where
  last : c.tokens.getLast?.map Token.kind = some .semicolon
  noBlock : ∀ t ∈ c.tokens, t.kind ≠ .lbrace
  noEnd : ∀ t ∈ c.tokens, t.kind ≠ .eof

namespace Guarded

theorem terminated (g : c.Guarded) : c.Terminated := ⟨g.last, g.noEnd⟩

theorem ne_nil (g : c.Guarded) : c.tokens ≠ [] := g.terminated.ne_nil

theorem current_mem (g : c.Guarded) : c.current ∈ c.tokens := g.terminated.current_mem

theorem current_ne_lbrace (g : c.Guarded) : c.current.kind ≠ .lbrace := g.noBlock _ g.current_mem

theorem current_ne_eof (g : c.Guarded) : c.current.kind ≠ .eof := g.noEnd _ g.current_mem

theorem more (g : c.Guarded) (hk : c.current.kind ≠ .semicolon) : c.tokens.tail ≠ [] :=
  g.terminated.more hk

theorem advance (g : c.Guarded) (more : c.tokens.tail ≠ []) : c.advance.Guarded where
  last := (g.terminated.advance more).last
  noBlock t ht := g.noBlock t (List.mem_of_mem_tail ht)
  noEnd := (g.terminated.advance more).noEnd

theorem advance_or (g : c.Guarded) : c.advance.tokens = [] ∨ c.advance.Guarded := by
  by_cases last : c.tokens.tail = []
  · exact .inl last
  · exact .inr (g.advance last)

/-- A token that is no semicolon still has one behind it when it has been advanced to. -/
theorem advance_of_peekIs (g : c.Guarded) (more : c.tokens.tail ≠ [])
    (hp : c.peekIs kind = true) (hk : kind ≠ .semicolon) :
    c.advance.Guarded ∧ c.advance.tokens.tail ≠ [] := by
  have g' := g.advance more
  rw [peekIs_iff] at hp
  exact ⟨g', g'.more (by rwa [current_advance, hp])⟩

theorem skipSemicolon (g : c.Guarded) : c.skipSemicolon.Guarded where
  last := g.terminated.skipSemicolon.last
  noBlock t ht := by
    unfold Cursor.skipSemicolon at ht
    split at ht
    · exact g.noBlock t (List.mem_of_mem_tail ht)
    · exact g.noBlock t ht
  noEnd := g.terminated.skipSemicolon.noEnd

/-- If no semicolon follows the last one, none is skipped there either. -/
theorem skipSemicolon_append (g : c.Guarded) (hr : r.current.kind ≠ .semicolon) :
    (c.append r).skipSemicolon = c.skipSemicolon.append r := by
  by_cases last : c.tokens.tail = []
  · have peek : (c.append r).peek = r.current := by
      rw [← current_advance, advance_append g.ne_nil, append_of_nil last]
    rw [skipSemicolon_of_tail last, Cursor.skipSemicolon, if_neg]
    simpa [peekIs, peek] using hr
  · exact Cursor.skipSemicolon_append last

end Guarded

/-- A longer list ends where its last part does. -/
theorem mk_stop_append (w : List Token) {u : List Token} (ne : u ≠ []) :
    (⟨u, (ofTokens (w ++ u)).stop⟩ : Cursor) = ofTokens u := by
  simp [ofTokens, List.getLast?_append, List.getLast?_eq_some_getLast ne]

end Cursor

namespace Outcome

variable {α β : Type} {r : Cursor} {o o' : Outcome α}

/-- The step dropped nothing and did not get past the last semicolon: it stopped in front of it, or
failed at the latest there, and not because of an end of input. -/
def Guards : Outcome α → Prop
  | ok _ next dropped => dropped = [] ∧ next.Guarded ∧ next.tokens.tail ≠ []
  | error cause next dropped => dropped = [] ∧ next.Guarded ∧ cause.isUnexpectedEnd = false
  | outOfFuel => True

@[simp] theorem guards_map {f : α → β} : (o.map f).Guards ↔ o.Guards := by
  cases o <;> rfl

theorem Guards.bind {f : α → Cursor → Outcome β} (h : o.Guards)
    (hf : ∀ v c, c.Guarded → c.tokens.tail ≠ [] → (f v c).Guards) : (o.bind f).Guards := by
  cases o with
  | ok v c es =>
    obtain ⟨rfl, g, more⟩ := h
    simpa [Outcome.bind] using hf v c g more
  | error | outOfFuel => exact h

/-- `o` stopped short of the last semicolon or at it, and with the tokens of `r` behind that, `o'`
is the same. -/
inductive Alike (r : Cursor) : Outcome α → Outcome α → Prop
  | ok (value : α) {c : Cursor} : c.Guarded →
      Alike r (ok value c []) (ok value (c.append r) [])
  | error (cause : ParseError) {c : Cursor} : c.Guarded → cause.isUnexpectedEnd = false →
      Alike r (error cause c []) (error cause (c.append r) [])
  | outOfFuel (o' : Outcome α) : Alike r outOfFuel o'

/-- The runs do not part in a step that stops in front of the last semicolon. -/
theorem Parts.bind_alike {f f' : α → Cursor → Outcome β} (h : o.Parts r o') (guards : o.Guards)
    (hf : ∀ v c, c.Guarded → c.tokens.tail ≠ [] → (f v c).Alike r (f' v (c.append r))) :
    (o.bind f).Alike r (o'.bind f') := by
  cases h with
  | ok v es =>
    obtain ⟨rfl, g, more⟩ := guards
    simpa [Outcome.bind] using hf v _ g more
  | error cause es =>
    obtain ⟨rfl, g, other⟩ := guards
    exact .error cause g other
  | @ended es o o' ended =>
    cases o with
    | ok v c fs => exact (guards.2.2 ended.1).elim
    | error cause c fs =>
      have other : cause.isUnexpectedEnd = false := guards.2.2
      simp [ended.2.1] at other
    | outOfFuel => exact .outOfFuel _

/-- `o` came to the end of its tokens without an unexpected end of input; `o'` then ran on. -/
inductive Resumes (run : Nat → Outcome (List Stmt)) :
    Outcome (List Stmt) → Outcome (List Stmt) → Prop
  | ok (n : Nat) (first : List Stmt) {c : Cursor} {es : List ParseError} :
      (∀ e ∈ es, e.isUnexpectedEnd = false) →
      Resumes run (ok first c es) (((run n).map (first ++ ·)).after es)
  | outOfFuel (o' : Outcome (List Stmt)) : Resumes run outOfFuel o'

section Resumes

variable {run : Nat → Outcome (List Stmt)} {o o' : Outcome (List Stmt)}

theorem Resumes.start {c : Cursor} (n : Nat) : (Outcome.ok [] c []).Resumes run (run n) := by
  have same : ((run n).map ([] ++ ·)).after [] = run n := by
    cases run n <;> rfl
  rw [← same]
  exact .ok n [] (by simp)

theorem Resumes.after {es : List ParseError} (h : o.Resumes run o')
    (hes : ∀ e ∈ es, e.isUnexpectedEnd = false) : (o.after es).Resumes run (o'.after es) := by
  cases h with
  | ok n first hfs =>
    rw [after_after]
    exact .ok n first (List.forall_mem_append.2 ⟨hes, hfs⟩)
  | outOfFuel => exact .outOfFuel _

theorem Resumes.cons (h : o.Resumes run o') (s : Stmt) :
    (o.map (s :: ·)).Resumes run (o'.map (s :: ·)) := by
  cases h with
  | ok n first hes =>
    rw [map_after, map_map]
    exact .ok n (s :: first) hes
  | outOfFuel => exact .outOfFuel _

/-- A first statement takes its tokens, or fails and is skipped, in both runs alike. -/
theorem Alike.thenRest {rest : Cursor → Outcome (List Stmt)} {o o' : Outcome Stmt}
    (h : o.Alike r o') (hr : r.current.kind ≠ .semicolon)
    (hrest : ∀ c : Cursor, c.tokens = [] ∨ c.Guarded →
      (rest c).Resumes run (rest (c.append r))) :
    (o.thenRest rest).Resumes run (o'.thenRest rest) := by
  cases h with
  | ok first g =>
    simp only [Outcome.thenRest, Cursor.advance_append g.ne_nil]
    exact ((hrest _ g.advance_or).cons first).after (by simp)
  | error cause g other =>
    simp only [Outcome.thenRest, g.skipSemicolon_append hr,
      Cursor.advance_append g.skipSemicolon.ne_nil]
    exact (hrest _ g.skipSemicolon.advance_or).after (by simpa using other)
  | outOfFuel => exact .outOfFuel _

/-- When the run on all the tokens ends, so does the one behind the semicolon, with the rest. -/
theorem Resumes.exists_of_ok {ss ss' : List Stmt} {c c' : Cursor} {es es' : List ParseError}
    (h : (Outcome.ok ss c es).Resumes run (Outcome.ok ss' c' es')) :
    (∀ e ∈ es, e.isUnexpectedEnd = false) ∧
      ∃ n second fs, run n = .ok second c' fs ∧ ss' = ss ++ second ∧ es' = es ++ fs := by
  generalize ho' : Outcome.ok ss' c' es' = o' at h
  cases h with
  | ok n first hes =>
    refine ⟨hes, n, ?_⟩
    cases hn : run n with
    | ok second c₂ fs =>
      simp only [hn, Outcome.map, Outcome.after, Outcome.ok.injEq] at ho'
      obtain ⟨rfl, rfl, rfl⟩ := ho'
      exact ⟨second, fs, rfl, rfl, rfl⟩
    | error | outOfFuel => simp [hn, Outcome.map, Outcome.after] at ho'

end Resumes

end Outcome

namespace Cursor

variable {β : Type} {c : Cursor} {kind : Kind}

theorem expect_guards (g : c.Guarded) (more : c.tokens.tail ≠ []) (hk : kind ≠ .semicolon) :
    (c.expect kind).Guards := by
  unfold expect
  split
  · next h => exact ⟨rfl, g.advance_of_peekIs more h hk⟩
  · have noEnd : c.peek.kind ≠ .eof := (g.advance more).current_ne_eof
    exact ⟨rfl, g, by simpa [unexpected, ParseError.isUnexpectedEnd] using noEnd⟩

/-- There is no block to go on with. -/
theorem expect_lbrace_bind_guards {f : Token → Cursor → Outcome β} (g : c.Guarded)
    (more : c.tokens.tail ≠ []) : ((c.expect .lbrace).bind f).Guards := by
  have guards : (c.expect .lbrace).Guards := expect_guards g more (by decide)
  have noBlock : ¬ c.peekIs .lbrace = true := by
    rw [peekIs_iff]
    exact (g.advance more).current_ne_lbrace
  rw [expect, if_neg noBlock] at guards ⊢
  exact guards

end Cursor

namespace Parser

open Outcome Cursor

/-! ### No step gets past the last semicolon -/

theorem parameters_guards (n : Nat) {c : Cursor} (g : c.Guarded) (more : c.tokens.tail ≠ []) :
    (parameters n c).Guards := by
  induction n generalizing c with
  | zero => trivial
  | succ n ih =>
    simp only [parameters]
    split
    · next hp => exact ⟨rfl, g.advance_of_peekIs more hp (by decide)⟩
    refine (expect_guards g more (by decide)).bind fun name c g more => ?_
    split
    · next hp =>
      obtain ⟨g, more⟩ := g.advance_of_peekIs more hp (by decide)
      exact guards_map.2 (ih g more)
    · exact guards_map.2 (expect_guards g more (by decide))

theorem function_guards (n : Nat) {c : Cursor} (g : c.Guarded) (more : c.tokens.tail ≠ []) :
    (function n c).Guards := by
  cases n with
  | zero => trivial
  | succ n =>
    simp only [function]
    refine (expect_guards g more (by decide)).bind fun _ c g more => ?_
    refine (parameters_guards n g more).bind fun params c g more => ?_
    exact expect_lbrace_bind_guards g more

mutual

theorem expression_guards (n : Nat) (floor : Precedence) {c : Cursor} (g : c.Guarded) :
    (expression n floor c).Guards := by
  match n with
  | 0 => trivial
  | n + 1 =>
    simp only [expression]
    exact (operand_guards n g).bind fun left c g more => climb_guards n floor left g more
termination_by structural n

theorem operand_guards (n : Nat) {c : Cursor} (g : c.Guarded) : (operand n c).Guards := by
  match n with
  | 0 => trivial
  | n + 1 =>
    have more := g.more
    simp only [operand]
    split
    case h_1 hk | h_3 hk | h_4 hk => exact ⟨rfl, g, more (by simp [hk])⟩
    case h_2 hk =>
      unfold integer
      split
      · exact ⟨rfl, g, more (by simp [hk])⟩
      · exact ⟨rfl, g, rfl⟩
    case h_5 hk | h_6 hk =>
      exact (expression_guards n .unary (g.advance (more (by simp [hk])))).bind
        fun right c g more => ⟨rfl, g, more⟩
    case h_7 hk =>
      exact (expression_guards n .lowest (g.advance (more (by simp [hk])))).bind
        fun inner c g more => guards_map.2 (expect_guards g more (by decide))
    case h_8 hk => exact conditional_guards n g (more (by simp [hk]))
    case h_9 hk => exact function_guards n g (more (by simp [hk]))
    case h_10 => exact ⟨rfl, g, by simpa [ParseError.isUnexpectedEnd] using g.current_ne_eof⟩
termination_by structural n

theorem climb_guards (n : Nat) (floor : Precedence) (left : Expr) {c : Cursor} (g : c.Guarded)
    (more : c.tokens.tail ≠ []) : (climb n floor left c).Guards := by
  match n with
  | 0 => trivial
  | n + 1 =>
    simp only [climb]
    split
    · next hp =>
      have hk : c.peek.kind ≠ .semicolon := by
        intro hk
        rw [peekPrecedence, hk] at hp
        exact Nat.not_lt_zero _ hp
      have g := g.advance more
      have more := g.more hk
      split
      · exact (arguments_guards n g more).bind fun args c g more => climb_guards n floor _ g more
      · exact (expression_guards n _ (g.advance more)).bind fun right c g more =>
          climb_guards n floor _ g more
    · exact ⟨rfl, g, more⟩
termination_by structural n

theorem arguments_guards (n : Nat) {c : Cursor} (g : c.Guarded) (more : c.tokens.tail ≠ []) :
    (arguments n c).Guards := by
  match n with
  | 0 => trivial
  | n + 1 =>
    simp only [arguments]
    split
    · next hp => exact ⟨rfl, g.advance_of_peekIs more hp (by decide)⟩
    refine (expression_guards n .lowest (g.advance more)).bind fun first c g more => ?_
    split
    · next hp =>
      obtain ⟨g, more⟩ := g.advance_of_peekIs more hp (by decide)
      exact guards_map.2 (arguments_guards n g more)
    · exact guards_map.2 (expect_guards g more (by decide))
termination_by structural n

theorem conditional_guards (n : Nat) {c : Cursor} (g : c.Guarded) (more : c.tokens.tail ≠ []) :
    (conditional n c).Guards := by
  match n with
  | 0 => trivial
  | n + 1 =>
    simp only [conditional]
    refine (expect_guards g more (by decide)).bind fun _ c g more => ?_
    refine (expression_guards n .lowest (g.advance more)).bind fun test c g more => ?_
    refine (expect_guards g more (by decide)).bind fun _ c g more => ?_
    exact expect_lbrace_bind_guards g more
termination_by structural n

end

/-! ### Statements, with and without what follows -/

variable {r c : Cursor}

theorem skipSemicolon_alike (f : Token → Stmt) (g : c.Guarded) (more : c.tokens.tail ≠ []) :
    (Outcome.ok (f c.skipSemicolon.current) c.skipSemicolon []).Alike r
      (Outcome.ok (f (c.append r).skipSemicolon.current) (c.append r).skipSemicolon []) := by
  rw [skipSemicolon_append more, current_append g.skipSemicolon.ne_nil]
  exact .ok _ g.skipSemicolon

theorem binding_alike (n : Nat) (g : c.Guarded) (more : c.tokens.tail ≠ []) :
    (binding n c).Alike r (binding n (c.append r)) := by
  cases n with
  | zero => exact .outOfFuel _
  | succ n =>
    simp only [binding]
    rw [current_append g.ne_nil]
    refine (expect_parts g.ne_nil (by decide)).bind_alike (expect_guards g more (by decide))
      fun name c g more => ?_
    refine (expect_parts g.ne_nil (by decide)).bind_alike (expect_guards g more (by decide))
      fun _ c g more => ?_
    rw [advance_append g.ne_nil]
    refine (expression_parts n .lowest _).bind_alike
      (expression_guards n .lowest (g.advance more)) fun value c g more => ?_
    exact skipSemicolon_alike (fun t => .bind _ _ value ⟨_, t.span.stop⟩) g more

theorem ret_alike (n : Nat) (g : c.Guarded) (more : c.tokens.tail ≠ []) :
    (ret n c).Alike r (ret n (c.append r)) := by
  cases n with
  | zero => exact .outOfFuel _
  | succ n =>
    simp only [ret]
    rw [current_append g.ne_nil, advance_append g.ne_nil]
    refine (expression_parts n .lowest _).bind_alike
      (expression_guards n .lowest (g.advance more)) fun value c g more => ?_
    exact skipSemicolon_alike (fun t => .ret _ value ⟨_, t.span.stop⟩) g more

theorem expressionStatement_alike (n : Nat) (g : c.Guarded) :
    (expressionStatement n c).Alike r (expressionStatement n (c.append r)) := by
  cases n with
  | zero => exact .outOfFuel _
  | succ n =>
    simp only [expressionStatement]
    rw [current_append g.ne_nil]
    refine (expression_parts n .lowest _).bind_alike (expression_guards n .lowest g)
      fun value c g more => ?_
    exact skipSemicolon_alike (fun t => .expr _ value ⟨_, t.span.stop⟩) g more

theorem statement_alike (n : Nat) (g : c.Guarded) :
    (statement n c).Alike r (statement n (c.append r)) := by
  cases n with
  | zero => exact .outOfFuel _
  | succ n =>
    simp only [statement]
    rw [current_append g.ne_nil]
    split
    · next hk => exact binding_alike n g (g.more (by simp [hk]))
    · next hk => exact ret_alike n g (g.more (by simp [hk]))
    · exact expressionStatement_alike n g

/-- Reading resumes at `r` behind the last semicolon, with the statements in front of it kept. -/
theorem statements_resumes (n : Nat) {closes : Kind → Bool}
    (hcloses : ∀ kind, closes kind = true ↔ kind = .eof) (hc : c.tokens = [] ∨ c.Guarded)
    (hr : r.current.kind ≠ .semicolon) :
    (statements n closes c).Resumes (fun m => statements m closes r)
      (statements n closes (c.append r)) := by
  induction n generalizing c with
  | zero => exact .outOfFuel _
  | succ n ih =>
    rcases hc with hc | g
    · have closed : statements (n + 1) closes c = .ok [] c [] := by
        rw [statements, if_pos ((hcloses _).2 (current_of_nil hc))]
      rw [closed, append_of_nil hc]
      exact .start (n + 1)
    · have opened : ¬ closes c.current.kind = true := by
        rw [hcloses]
        exact g.current_ne_eof
      rw [statements_succ, statements_succ, current_append g.ne_nil, if_neg opened, if_neg opened]
      exact (statement_alike n g).thenRest hr fun c hc => ih hc

theorem statements_of_nil {n : Nat} {ss : List Stmt} {c c' : Cursor} {es : List ParseError}
    (hc : c.tokens = []) (h : statements n (· = .eof) c = .ok ss c' es) : ss = [] ∧ es = [] := by
  cases n with
  | zero => simp [statements] at h
  | succ n =>
    simp only [statements, current_of_nil hc, decide_true, if_true, Outcome.ok.injEq] at h
    exact ⟨h.1.symm, h.2.2.symm⟩

end Parser

/-- Whatever is wrong with tokens that open no block and end in a semicolon, it has no effect on how
the tokens behind them are read, as long as those do not begin with another semicolon. -/
theorem parseTokens_append_of_semicolon (s₁ s₂ : List Token)
    (noBlock : ∀ t ∈ s₁, t.kind ≠ .lbrace) (noEnd : ∀ t ∈ s₁, t.kind ≠ .eof)
    (last : s₁.getLast?.map Token.kind = some .semicolon)
    (next : s₂.head?.map Token.kind ≠ some .semicolon) :
    (parseTokens (s₁ ++ s₂)).program.statements =
        (parseTokens s₁).program.statements ++ (parseTokens s₂).program.statements ∧
      (parseTokens (s₁ ++ s₂)).errors = (parseTokens s₁).errors ++ (parseTokens s₂).errors ∧
      ∀ e ∈ (parseTokens s₁).errors, e.isUnexpectedEnd = false := by
  let r : Cursor := ⟨s₂, (Cursor.ofTokens (s₁ ++ s₂)).stop⟩
  have guarded : (Cursor.ofTokens s₁).Guarded := ⟨last, noBlock, noEnd⟩
  have begins : r.current.kind ≠ .semicolon := by
    cases s₂ with
    | nil => simp [r, Cursor.current_eq_headD, Token.eof]
    | cons t w => simpa [r, Cursor.current_eq_headD] using next
  obtain ⟨ss, c, es, whole⟩ := Parser.exists_program_eq_ok (.ofTokens (s₁ ++ s₂))
  obtain ⟨ss₁, c₁, es₁, first⟩ := Parser.exists_program_eq_ok (.ofTokens s₁)
  have resumes : (Parser.program (.ofTokens s₁)).Resumes
      (fun m => Parser.statements m (· = .eof) r) (Parser.program (.ofTokens (s₁ ++ s₂))) := by
    rw [← Parser.statements_fuel_append s₁ s₂]
    exact Parser.statements_resumes _ (by simp) (.inr guarded) begins
  rw [first, whole] at resumes
  obtain ⟨other, m, ss₂, es₂, second, rfl, rfl⟩ := resumes.exists_of_ok
  -- The fuel that is left for `s₂` need not be its own, but it was enough.
  have alone : parseTokens s₂ = ⟨⟨ss₂⟩, es₂⟩ := by
    cases s₂ with
    | nil =>
      obtain ⟨rfl, rfl⟩ := Parser.statements_of_nil rfl second
      rfl
    | cons t w =>
      have here : r = .ofTokens (t :: w) := Cursor.mk_stop_append s₁ (List.cons_ne_nil t w)
      exact Parser.parseTokens_eq_of_statements (here ▸ second)
  have both : parseTokens (s₁ ++ s₂) = ⟨⟨ss₁ ++ ss₂⟩, es₁ ++ es₂⟩ :=
    Parser.parseTokens_eq_of_statements whole
  have before : parseTokens s₁ = ⟨⟨ss₁⟩, es₁⟩ := Parser.parseTokens_eq_of_statements first
  rw [both, before, alone]
  exact ⟨rfl, rfl, other⟩

/-- `let 5 ; ) ;`, two statements that cannot be read. -/
def twoFaults : List Token :=
  [⟨.letWord, "let", ⟨0, 3⟩⟩, ⟨.int, "5", ⟨4, 5⟩⟩, ⟨.semicolon, ";", ⟨5, 6⟩⟩,
    ⟨.rparen, ")", ⟨7, 8⟩⟩, ⟨.semicolon, ";", ⟨8, 9⟩⟩]

theorem parseTokens_append_of_semicolon_twoFaults :
    (parseTokens (twoFaults ++ openBlock)).program.statements =
        (parseTokens twoFaults).program.statements ++ (parseTokens openBlock).program.statements ∧
      (parseTokens (twoFaults ++ openBlock)).errors =
        (parseTokens twoFaults).errors ++ (parseTokens openBlock).errors ∧
      (parseTokens twoFaults).errors ≠ [] ∧
      ∀ e ∈ (parseTokens twoFaults).errors, e.isUnexpectedEnd = false := by
  obtain ⟨statements, errors, other⟩ := parseTokens_append_of_semicolon twoFaults openBlock
    (by decide) (by decide) (by decide) (by decide)
  exact ⟨statements, errors, by decide, other⟩

end LetFn
