import LetFn.Proofs.Decimal
import LetFn.Proofs.Nesting

/-! Which tokens the errors of a program are about. Each is about the token where reading had got to
or about the one behind it, and reading goes on behind that place. So errors come in the order of
the source, and no token is blamed more than twice: as the next one, and then as the current one. -/

namespace LetFn

open Text (byteLength)

/-! ### Places further on -/

namespace Cursor

variable {c c₁ c₂ : Cursor} {t : Token} {span : Span}

/-- `c₁` is where `c` is or further on in the same list. -/
structure Onward (c c₁ : Cursor) : Prop where
  tokens : c₁.tokens <:+ c.tokens
  stop : c₁.stop = c.stop

/-- The tokens that are left, and the end behind them. -/
def ahead (c : Cursor) : List Token := c.tokens ++ [.eof c.stop]

namespace Onward

theorem refl (c : Cursor) : c.Onward c := ⟨List.suffix_rfl, rfl⟩

theorem trans (first : c.Onward c₁) (second : c₁.Onward c₂) : c.Onward c₂ :=
  ⟨second.tokens.trans first.tokens, second.stop.trans first.stop⟩

theorem advance (c : Cursor) : c.Onward c.advance := ⟨List.tail_suffix _, rfl⟩

/-- Of two places the one further on stays so when both move on. -/
theorem advance_advance (onward : c.Onward c₁) : c.advance.Onward c₁.advance := by
  refine ⟨?_, onward.stop⟩
  obtain ⟨v, hv⟩ := onward.tokens
  cases v with
  | nil => exact ⟨[], congrArg List.tail hv⟩
  | cons t v =>
    have behind : c.advance.tokens = v ++ c₁.tokens := by simp [← hv]
    rw [behind]
    exact (List.tail_suffix _).trans (List.suffix_append v _)

theorem ahead (onward : c.Onward c₁) : c₁.ahead <:+ c.ahead := by
  obtain ⟨v, hv⟩ := onward.tokens
  exact ⟨v, by rw [Cursor.ahead, Cursor.ahead, onward.stop, ← hv, List.append_assoc]⟩

end Onward

theorem skipSemicolon_onward (c : Cursor) : c.Onward c.skipSemicolon := by
  unfold skipSemicolon
  split
  · exact .advance c
  · exact .refl c

/-- Behind a semicolon that is skipped one is also behind the current token. -/
theorem advance_onward_skipSemicolon (c : Cursor) :
    c.advance.Onward c.skipSemicolon.advance := by
  unfold skipSemicolon
  split
  · exact .advance c.advance
  · exact .refl c.advance

theorem exists_ahead_eq (c : Cursor) : ∃ rest, c.ahead = c.current :: rest := by
  obtain ⟨tokens, stop⟩ := c
  cases tokens with
  | nil => exact ⟨[], rfl⟩
  | cons t tokens => exact ⟨tokens ++ [.eof stop], rfl⟩

theorem current_mem_ahead (c : Cursor) : c.current ∈ c.ahead := by
  obtain ⟨rest, h⟩ := c.exists_ahead_eq
  simp [h]

theorem peek_mem_ahead (c : Cursor) : c.peek ∈ c.ahead :=
  (Onward.advance c).ahead.subset c.advance.current_mem_ahead

/-- The tokens left to read are in the order of their places. -/
def Ordered (c : Cursor) : Prop := c.ahead.Pairwise fun t u => t.span.stop ≤ u.span.start

namespace Ordered

theorem onward (order : c.Ordered) (onward : c.Onward c₁) : c₁.Ordered :=
  order.sublist onward.ahead.sublist

theorem advance (order : c.Ordered) : c.advance.Ordered := order.onward (.advance c)

theorem start_le (order : c.Ordered) (solid : ∀ t ∈ c.ahead, t.span.start ≤ t.span.stop)
    (ht : t ∈ c.ahead) : c.current.span.start ≤ t.span.start := by
  obtain ⟨rest, h⟩ := c.exists_ahead_eq
  rw [Ordered, h] at order
  rw [h] at ht
  rcases List.mem_cons.1 ht with rfl | ht
  · exact Nat.le_refl _
  · have apart := (List.pairwise_cons.1 order).1 t ht
    exact Nat.le_trans (solid _ c.current_mem_ahead) apart

/-- The place of the current token is not met again. -/
theorem span_ne (order : c.Ordered) (solid : c.current.span.start < c.current.span.stop) :
    ∀ t ∈ c.advance.ahead, t.span ≠ c.current.span := by
  obtain ⟨tokens, stop⟩ := c
  cases tokens with
  | nil => exact (Nat.lt_irrefl _ solid).elim
  | cons first tokens =>
    intro t ht same
    have apart : first.span.stop ≤ t.span.start := (List.pairwise_cons.1 order).1 t ht
    rw [same] at apart
    exact Nat.not_le_of_lt solid apart

end Ordered

end Cursor

/-! ### What errors are about -/

/-- What the cause says is true of the token. -/
def ParseError.Cause.Describes : ParseError.Cause → Token → Prop
  | unexpected expected got, t => got = t.kind ∧ expected ≠ t.kind
  | notAnExpression got, t => got = t.kind
  | integerRange literal, t =>
    t.kind = .int ∧ literal = t.literal ∧ Decimal.toInt64? literal.toList = none

/-- The error is about this token: it has its place and describes it. -/
structure ParseError.About (e : ParseError) (t : Token) : Prop where
  span : e.span = t.span
  describes : e.cause.Describes t

/-- The error was met at `c`: it is about the token there or about the one behind it. -/
def ParseError.MetAt (e : ParseError) (c : Cursor) : Prop := e.About c.current ∨ e.About c.peek

theorem ParseError.About.isUnexpectedEnd_iff {e : ParseError} {t : Token} (about : e.About t) :
    e.isUnexpectedEnd = true ↔ t.kind = .eof := by
  have describes := about.describes
  unfold ParseError.isUnexpectedEnd
  cases h : e.cause with
  | unexpected expected got =>
    rw [h] at describes
    simp [describes.1]
  | notAnExpression got =>
    rw [h] at describes
    simp [show got = t.kind from describes]
  | integerRange literal =>
    rw [h] at describes
    simp [describes.1]

theorem ParseError.MetAt.exists_about {e : ParseError} {c : Cursor} (met : e.MetAt c) :
    ∃ t ∈ c.ahead, e.About t := by
  rcases met with about | about
  · exact ⟨_, c.current_mem_ahead, about⟩
  · exact ⟨_, c.peek_mem_ahead, about⟩

open Cursor (Onward)

/-- The errors are met one after the other on the way from `c` to `c'`. Behind each of them reading
goes on with the next token at the earliest. -/
inductive Trail : Cursor → List ParseError → Cursor → Prop
  | nil {c c' : Cursor} : c.Onward c' → Trail c [] c'
  | cons {c c₁ c' : Cursor} {e : ParseError} {es : List ParseError} : c.Onward c₁ → e.MetAt c₁ →
      Trail c₁.advance es c' → Trail c (e :: es) c'

namespace Trail

variable {c c₁ c' : Cursor} {es fs : List ParseError} {span : Span}

theorem of_onward (onward : c.Onward c₁) (trail : Trail c₁ es c') : Trail c es c' := by
  cases trail with
  | nil rest => exact .nil (onward.trans rest)
  | cons rest met trail => exact .cons (onward.trans rest) met trail

theorem append (first : Trail c es c₁) (second : Trail c₁ fs c') : Trail c (es ++ fs) c' := by
  induction first with
  | nil onward => exact of_onward onward second
  | cons onward met _ ih => exact .cons onward met (ih second)

theorem exists_about (trail : Trail c es c') : ∀ e ∈ es, ∃ t ∈ c.ahead, e.About t := by
  induction trail with
  | nil => simp
  | @cons c c₁ c' e es onward met _ ih =>
    intro f hf
    rcases List.mem_cons.1 hf with rfl | hf
    · obtain ⟨t, ht, about⟩ := met.exists_about
      exact ⟨t, onward.ahead.subset ht, about⟩
    · obtain ⟨t, ht, about⟩ := ih f hf
      exact ⟨t, (onward.trans (.advance c₁)).ahead.subset ht, about⟩

/-- An error is about nothing behind the places where the later ones are met. -/
theorem pairwise (trail : Trail c es c') (order : c.Ordered)
    (solid : ∀ t ∈ c.ahead, t.span.start ≤ t.span.stop) :
    es.Pairwise fun e f => e.span.start ≤ f.span.start := by
  induction trail with
  | nil => exact .nil
  | @cons c c₁ c' e es onward met trail ih =>
    have order₁ := order.onward onward
    have solid₁ : ∀ t ∈ c₁.ahead, t.span.start ≤ t.span.stop :=
      fun t ht => solid t (onward.ahead.subset ht)
    have solid₂ : ∀ t ∈ c₁.advance.ahead, t.span.start ≤ t.span.stop :=
      fun t ht => solid₁ t ((Onward.advance c₁).ahead.subset ht)
    refine .cons (fun f hf => ?_) (ih order₁.advance solid₂)
    obtain ⟨t, ht, about⟩ := trail.exists_about f hf
    have behind : c₁.peek.span.start ≤ t.span.start := order₁.advance.start_le solid₂ ht
    rw [about.span]
    rcases met with met | met
    · rw [met.span]
      exact Nat.le_trans (order₁.start_le solid₁ c₁.peek_mem_ahead) behind
    · rw [met.span]
      exact behind

/-! ### How often a token is blamed -/

theorem count_eq_zero (trail : Trail c es c') (none : ∀ t ∈ c.ahead, t.span ≠ span) :
    es.countP (fun e => e.span = span) = 0 := by
  rw [List.countP_eq_zero]
  intro e he
  obtain ⟨t, ht, about⟩ := trail.exists_about e he
  simpa [about.span] using none t ht

/-- Reading goes on behind the place, so there is one error at most where the token is current. -/
theorem count_le_one (trail : Trail c es c') (order : c.Ordered) (solid : span.start < span.stop)
    (current : c.current.span = span) : es.countP (fun e => e.span = span) ≤ 1 := by
  cases trail with
  | nil => exact Nat.zero_le 1
  | @cons _ c₁ _ e es onward met trail =>
    suffices later : es.countP (fun e => e.span = span) = 0 by
      rw [List.countP_cons, later]
      split <;> omega
    have behind := order.span_ne (current.symm ▸ solid)
    rw [current] at behind
    refine trail.count_eq_zero fun t ht => behind t ?_
    exact onward.advance_advance.ahead.subset ht

theorem count_le_two (trail : Trail c es c') (order : c.Ordered) (solid : span.start < span.stop) :
    es.countP (fun e => e.span = span) ≤ 2 := by
  induction trail with
  | nil => exact Nat.zero_le 2
  | @cons c c₁ c' e es onward met trail ih =>
    have order₁ := order.onward onward
    rw [List.countP_cons]
    by_cases current : c₁.current.span = span
    · have later : es.countP (fun e => e.span = span) = 0 :=
        trail.count_eq_zero (current ▸ order₁.span_ne (current.symm ▸ solid))
      split <;> omega
    · by_cases peek : c₁.peek.span = span
      · have later := trail.count_le_one order₁.advance solid peek
        split <;> omega
      · have other : e.span ≠ span := by
          rcases met with met | met
          · rwa [met.span]
          · rwa [met.span]
        simpa [other] using ih order₁.advance

end Trail

/-! ### Steps -/

namespace Outcome

variable {α β : Type} {c c₁ : Cursor} {o : Outcome α}

/-- The errors dropped in a step were met on its way, and the one that ended it where it stopped. -/
def Blames (c : Cursor) : Outcome α → Prop
  | ok _ next dropped => Trail c dropped next
  | error cause next dropped => Trail c dropped next ∧ cause.MetAt next
  | outOfFuel => True

namespace Blames

theorem result (v : α) (onward : c.Onward c₁) : (ok v c₁ []).Blames c := .nil onward

theorem failure {e : ParseError} (met : e.MetAt c) : (error e c [] : Outcome α).Blames c :=
  ⟨.nil (.refl c), met⟩

theorem after {es : List ParseError} (trail : Trail c es c₁) (blames : o.Blames c₁) :
    (o.after es).Blames c := by
  cases o with
  | ok value next dropped => exact trail.append blames
  | error cause next dropped => exact ⟨trail.append blames.1, blames.2⟩
  | outOfFuel => trivial

theorem of_onward (onward : c.Onward c₁) (blames : o.Blames c₁) : o.Blames c := by
  have after := Blames.after (.nil onward) blames
  rwa [after_nil] at after

theorem of_advance (blames : o.Blames c.advance) : o.Blames c := of_onward (.advance c) blames

theorem map (blames : o.Blames c) (f : α → β) : (o.map f).Blames c := by
  cases o with
  | ok | error => exact blames
  | outOfFuel => trivial

theorem bind {f : α → Cursor → Outcome β} (first : o.Blames c)
    (second : ∀ v c₁, (f v c₁).Blames c₁) : (o.bind f).Blames c := by
  cases o with
  | ok value next dropped => exact after first (second value next)
  | error | outOfFuel => exact first

/-- Behind a dropped statement reading goes on with the next token at the earliest. -/
theorem thenRest {o : Outcome Stmt} {rest : Cursor → Outcome (List Stmt)} (first : o.Blames c)
    (second : ∀ c₁, (rest c₁).Blames c₁) : (o.thenRest rest).Blames c := by
  cases o with
  | ok s next dropped => exact after first ((second _).of_advance.map _)
  | error cause next dropped =>
    obtain ⟨trail, met⟩ := first
    have last : Trail next [cause] next.skipSemicolon.advance :=
      .cons (.refl next) met (.nil next.advance_onward_skipSemicolon)
    exact after (trail.append last) (second _)
  | outOfFuel => trivial

end Blames

end Outcome

theorem Cursor.expect_blames (c : Cursor) (kind : Kind) : (c.expect kind).Blames c := by
  unfold expect
  split
  · exact .result _ (.advance c)
  · next other =>
    have differs : kind ≠ c.peek.kind := fun same => other (peekIs_iff.2 same.symm)
    exact .failure (.inr ⟨rfl, rfl, differs⟩)

namespace Parser

open Outcome

theorem integer_blames {c : Cursor} (hk : c.current.kind = .int) : (integer c).Blames c := by
  unfold integer
  split
  · exact .result _ (.refl c)
  · next refused => exact .failure (.inl ⟨rfl, hk, rfl, refused⟩)

theorem parameters_blames (n : Nat) (c : Cursor) : (parameters n c).Blames c := by
  induction n generalizing c with
  | zero => trivial
  | succ n ih =>
    simp only [parameters]
    split
    · exact .result _ (.advance c)
    refine (c.expect_blames .ident).bind fun name c₁ => ?_
    split
    · exact ((ih c₁.advance).map _).of_advance
    · exact (c₁.expect_blames .rparen).map _

/-- The semicolon behind a statement is skipped. -/
theorem ending_blames (v : Token → Stmt) (c : Cursor) :
    (Outcome.ok (v c.skipSemicolon.current) c.skipSemicolon []).Blames c :=
  .result _ c.skipSemicolon_onward

mutual

theorem expression_blames (n : Nat) (floor : Precedence) (c : Cursor) :
    (expression n floor c).Blames c := by
  match n with
  | 0 => trivial
  | n + 1 =>
    simp only [expression]
    exact (operand_blames n c).bind fun left c₁ => climb_blames n floor left c₁
termination_by structural n

theorem operand_blames (n : Nat) (c : Cursor) : (operand n c).Blames c := by
  match n with
  | 0 => trivial
  | n + 1 =>
    simp only [operand]
    split
    case h_1 | h_3 | h_4 => exact .result _ (.refl c)
    case h_2 hk => exact integer_blames hk
    case h_5 | h_6 =>
      exact (expression_blames n .unary c.advance).of_advance.bind fun right c₁ =>
        .result _ (.refl c₁)
    case h_7 =>
      exact (expression_blames n .lowest c.advance).of_advance.bind fun inner c₁ =>
        (c₁.expect_blames .rparen).map _
    case h_8 => exact conditional_blames n c
    case h_9 => exact function_blames n c
    case h_10 => exact .failure (.inl ⟨rfl, rfl⟩)
termination_by structural n

theorem climb_blames (n : Nat) (floor : Precedence) (left : Expr) (c : Cursor) :
    (climb n floor left c).Blames c := by
  match n with
  | 0 => trivial
  | n + 1 =>
    simp only [climb]
    split
    · split
      · exact (arguments_blames n c.advance).of_advance.bind fun args c₁ =>
          climb_blames n floor _ c₁
      · exact (expression_blames n _ c.advance.advance).of_advance.of_advance.bind
          fun right c₁ => climb_blames n floor _ c₁
    · exact .result _ (.refl c)
termination_by structural n

theorem arguments_blames (n : Nat) (c : Cursor) : (arguments n c).Blames c := by
  match n with
  | 0 => trivial
  | n + 1 =>
    simp only [arguments]
    split
    · exact .result _ (.advance c)
    refine (expression_blames n .lowest c.advance).of_advance.bind fun first c₁ => ?_
    split
    · exact ((arguments_blames n c₁.advance).map _).of_advance
    · exact (c₁.expect_blames .rparen).map _
termination_by structural n

theorem conditional_blames (n : Nat) (c : Cursor) : (conditional n c).Blames c := by
  match n with
  | 0 => trivial
  | n + 1 =>
    simp only [conditional]
    refine (c.expect_blames .lparen).bind fun _ c₁ => ?_
    refine (expression_blames n .lowest c₁.advance).of_advance.bind fun test c₂ => ?_
    refine (c₂.expect_blames .rparen).bind fun _ c₃ => ?_
    refine (c₃.expect_blames .lbrace).bind fun _ c₄ => ?_
    refine (block_blames n c₄).bind fun consequence c₅ => ?_
    split
    · exact (c₅.advance.expect_blames .lbrace).of_advance.bind fun _ c₆ =>
        (block_blames n c₆).map _
    · exact .result _ (.refl c₅)
termination_by structural n

theorem function_blames (n : Nat) (c : Cursor) : (function n c).Blames c := by
  match n with
  | 0 => trivial
  | n + 1 =>
    simp only [function]
    refine (c.expect_blames .lparen).bind fun _ c₁ => ?_
    refine (parameters_blames n c₁).bind fun params c₂ => ?_
    exact (c₂.expect_blames .lbrace).bind fun _ c₃ => (block_blames n c₃).map _
termination_by structural n

theorem block_blames (n : Nat) (c : Cursor) : (block n c).Blames c := by
  match n with
  | 0 => trivial
  | n + 1 =>
    simp only [block]
    refine (statements_blames n _ c.advance).of_advance.bind fun body c₁ => ?_
    split
    · next ended => exact .failure (.inl ⟨rfl, rfl, by simp [ended]⟩)
    · exact .result _ (.refl c₁)
termination_by structural n

theorem statements_blames (n : Nat) (closes : Kind → Bool) (c : Cursor) :
    (statements n closes c).Blames c := by
  match n with
  | 0 => trivial
  | n + 1 =>
    rw [statements_succ]
    split
    · exact .result _ (.refl c)
    · exact (statement_blames n c).thenRest (statements_blames n closes)
termination_by structural n

theorem statement_blames (n : Nat) (c : Cursor) : (statement n c).Blames c := by
  match n with
  | 0 => trivial
  | n + 1 =>
    simp only [statement]
    split
    · exact binding_blames n c
    · exact ret_blames n c
    · exact expressionStatement_blames n c
termination_by structural n

theorem binding_blames (n : Nat) (c : Cursor) : (binding n c).Blames c := by
  match n with
  | 0 => trivial
  | n + 1 =>
    simp only [binding]
    refine (c.expect_blames .ident).bind fun name c₁ => ?_
    refine (c₁.expect_blames .assign).bind fun _ c₂ => ?_
    exact (expression_blames n .lowest c₂.advance).of_advance.bind fun value c₃ =>
      ending_blames (fun last => .bind _ _ value ⟨_, last.span.stop⟩) c₃
termination_by structural n

theorem ret_blames (n : Nat) (c : Cursor) : (ret n c).Blames c := by
  match n with
  | 0 => trivial
  | n + 1 =>
    simp only [ret]
    exact (expression_blames n .lowest c.advance).of_advance.bind fun value c₁ =>
      ending_blames (fun last => .ret _ value ⟨_, last.span.stop⟩) c₁
termination_by structural n

theorem expressionStatement_blames (n : Nat) (c : Cursor) :
    (expressionStatement n c).Blames c := by
  match n with
  | 0 => trivial
  | n + 1 =>
    simp only [expressionStatement]
    exact (expression_blames n .lowest c).bind fun value c₁ =>
      ending_blames (fun last => .expr _ value ⟨_, last.span.stop⟩) c₁
termination_by structural n

end

end Parser

/-- The errors of a program are met one after the other on the way through its tokens. -/
theorem parseTokens_trail (tokens : List Token) :
    ∃ c, Trail (.ofTokens tokens) (parseTokens tokens).errors c := by
  have blames : (Parser.program (.ofTokens tokens)).Blames (.ofTokens tokens) :=
    Parser.statements_blames _ _ _
  obtain ⟨ss, c, es, run⟩ := Parser.exists_program_eq_ok (.ofTokens tokens)
  rw [run] at blames
  rw [Parser.parseTokens_eq_of_statements run]
  exact ⟨c, blames⟩

/-! ### Errors of a text -/

section

variable {text : String} {ts : List Token}

theorem ahead_ofText (tokens : Token.ofText text = ts ++ [.eof (byteLength text.toList)]) :
    (Cursor.ofTokens (Token.ofText text)).ahead =
      Token.ofText text ++ [.eof (byteLength text.toList)] := by
  have stop : (Cursor.ofTokens (Token.ofText text)).stop = byteLength text.toList := by
    simp [Cursor.ofTokens, tokens, Token.eof, Span.point]
  rw [Cursor.ahead, stop]
  rfl

theorem Tiling.ordered (tiling : Tiling 0 text.toList ts)
    (tokens : Token.ofText text = ts ++ [.eof (byteLength text.toList)]) :
    (Cursor.ofTokens (Token.ofText text)).Ordered := by
  rw [Cursor.Ordered, ahead_ofText tokens, tokens]
  refine List.pairwise_append.2 ⟨tiling.pairwise_concat_eof, List.pairwise_singleton _ _, ?_⟩
  intro t ht u hu
  rw [List.mem_singleton.1 hu]
  rcases List.mem_append.1 ht with ht | ht
  · simpa [Token.eof, Span.point] using tiling.stop_le ht
  · rw [List.mem_singleton.1 ht]
    exact Nat.le_refl _

/-- The only token with the place of the end is the one that marks it. -/
theorem Tiling.kind_eq_eof_iff (tiling : Tiling 0 text.toList ts) {t : Token}
    (ht : t ∈ ts ++ [.eof (byteLength text.toList)]) :
    t.kind = .eof ↔ t.span = .point (byteLength text.toList) := by
  rcases List.mem_append.1 ht with ht | ht
  · have solid := tiling.start_lt_stop ht
    refine iff_of_false (tiling.of_mem ht).1 fun same => ?_
    rw [same] at solid
    exact Nat.lt_irrefl _ solid
  · rw [List.mem_singleton.1 ht]
    exact iff_of_true rfl rfl

end

/-- Each error of a program is about a token of the text and says of it what is true. It is an
unexpected end exactly if its place is the end of the text. The places are in the order of the
source, and none but the end is in more than two errors. -/
theorem parse_errors_about (text : String) :
    (∀ e ∈ (parse text).errors, ∃ t ∈ Token.ofText text, e.About t ∧
      ∀ literal, e.cause = .integerRange literal →
        literal = t.literal ∧ (∀ c ∈ literal.toList, c.isDigit = true) ∧
        ∃ n : Nat, Decimal.toNat? literal.toList = some n ∧ Int64.maxValue.toInt < n) ∧
    (∀ e ∈ (parse text).errors,
      e.isUnexpectedEnd = true ↔ e.span = .point (byteLength text.toList)) ∧
    ((parse text).errors.Pairwise fun e f => e.span.start ≤ f.span.start) ∧
    ∀ t ∈ Token.ofText text, t.kind ≠ .eof →
      ((parse text).errors.countP fun e => e.span = t.span) ≤ 2 := by
  obtain ⟨ts, tokens, tiling⟩ := Token.exists_tiling_ofText text
  obtain ⟨c, trail⟩ := parseTokens_trail (Token.ofText text)
  have parsed : parse text = parseTokens (Token.ofText text) := rfl
  rw [← parsed] at trail
  have order := tiling.ordered tokens
  have solid : ∀ t ∈ ts, t.span.start < t.span.stop := fun t => tiling.start_lt_stop
  have about : ∀ e ∈ (parse text).errors, ∃ t ∈ Token.ofText text, e.About t := by
    intro e he
    obtain ⟨t, ht, about⟩ := trail.exists_about e he
    rw [ahead_ofText tokens, tokens] at ht
    exact ⟨t, by simpa [tokens] using ht, about⟩
  refine ⟨fun e he => ?_, fun e he => ?_, ?_, fun t ht notEnd => ?_⟩
  · obtain ⟨t, ht, about⟩ := about e he
    refine ⟨t, ht, about, fun literal cause => ?_⟩
    have describes := about.describes
    rw [cause] at describes
    obtain ⟨kind, rfl, refused⟩ := describes
    have spelled := (Token.lexed_of_mem_ofChars ht).digits kind
    exact ⟨rfl, spelled.2, Decimal.exists_toNat?_of_refused spelled.1 spelled.2 refused⟩
  · obtain ⟨t, ht, about⟩ := about e he
    rw [tokens] at ht
    rw [about.isUnexpectedEnd_iff, tiling.kind_eq_eof_iff ht, about.span]
  · refine trail.pairwise order fun t ht => ?_
    rw [ahead_ofText tokens, tokens] at ht
    by_cases inside : t ∈ ts
    · exact Nat.le_of_lt (solid t inside)
    · have last : t = .eof (byteLength text.toList) := by simpa [inside] using ht
      rw [last]
      exact Nat.le_refl _
  · rw [tokens] at ht
    have inside : t ∈ ts := by
      rcases List.mem_append.1 ht with ht | ht
      · exact ht
      · exact (notEnd (List.mem_singleton.1 ht ▸ rfl)).elim
    exact trail.count_le_two order (solid t inside)

/-- The parenthesis is no name, and then no statement either. -/
def blamedTwice : String := "let ) 99999999999999999999 let"

theorem parse_errors_about_blamedTwice :
    (parse blamedTwice).errors =
      [⟨.unexpected .ident .rparen, ⟨4, 5⟩⟩, ⟨.notAnExpression .rparen, ⟨4, 5⟩⟩,
        ⟨.integerRange "99999999999999999999", ⟨6, 26⟩⟩, ⟨.unexpected .ident .eof, ⟨30, 30⟩⟩] ∧
    ((parse blamedTwice).errors.Pairwise fun e f => e.span.start ≤ f.span.start) ∧
    (⟨.rparen, ")", ⟨4, 5⟩⟩ : Token) ∈ Token.ofText blamedTwice ∧
    ((parse blamedTwice).errors.countP fun e => e.span = ⟨4, 5⟩) ≤ 2 := by
  obtain ⟨-, -, order, twice⟩ := parse_errors_about blamedTwice
  have token : (⟨.rparen, ")", ⟨4, 5⟩⟩ : Token) ∈ Token.ofText blamedTwice := by
    decide +kernel
  exact ⟨by decide +kernel, order, token, twice _ token (by decide)⟩

end LetFn
