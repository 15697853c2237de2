import LetFn.Proofs.Parser.Prefix

/-! A step depends on no tokens but those it takes. It looks at the one behind them, too, to see
whether to go on; if it does not go on, the end of the input in that place makes no difference. -/

namespace LetFn

open Cursor

namespace Outcome

variable {α β : Type} {c r : Cursor}

/-- What is left to read is the end of what `c` has. -/
def Behind (c : Cursor) : Outcome α → Prop
  | ok _ next _ | error _ next _ => next.tokens <:+ c.tokens
  | outOfFuel => True

/-- The step ended in front of what `r` has. One that failed has not got to the token right in front
of it, as the error may be about the token behind the place. -/
def Inside (r : Cursor) : Outcome α → Prop
  | ok _ next _ => r.tokens.length < next.tokens.length
  | error _ next _ => r.tokens.length + 1 < next.tokens.length
  | outOfFuel => False

/-- The same outcome with more to read. -/
def append (o : Outcome α) (r : Cursor) : Outcome α :=
  match o with
  | ok value next dropped => ok value (next.append r) dropped
  | error cause next dropped => error cause (next.append r) dropped
  | outOfFuel => outOfFuel

@[simp] theorem behind_after {o : Outcome α} {es : List ParseError} :
    (o.after es).Behind c ↔ o.Behind c := by
  cases o <;> rfl

@[simp] theorem inside_after {o : Outcome α} {es : List ParseError} :
    (o.after es).Inside r ↔ o.Inside r := by
  cases o <;> rfl

@[simp] theorem behind_map {o : Outcome α} {f : α → β} : (o.map f).Behind c ↔ o.Behind c := by
  cases o <;> rfl

@[simp] theorem inside_map {o : Outcome α} {f : α → β} : (o.map f).Inside r ↔ o.Inside r := by
  cases o <;> rfl

theorem append_after (o : Outcome α) (es : List ParseError) (r : Cursor) :
    (o.after es).append r = (o.append r).after es := by
  cases o <;> rfl

theorem append_map (o : Outcome α) (f : α → β) (r : Cursor) :
    (o.map f).append r = (o.append r).map f := by
  cases o <;> rfl

theorem append_eq_ok {o : Outcome α} {v : α} {next : Cursor} {es : List ParseError} :
    ok v next es = o.append r ↔ ∃ c₁, o = ok v c₁ es ∧ next = c₁.append r := by
  cases o with
  | ok w c₁ fs =>
    constructor
    · rintro ⟨⟩
      exact ⟨c₁, rfl, rfl⟩
    · rintro ⟨_, ⟨⟩, rfl⟩
      rfl
  | error | outOfFuel => simp [append]

theorem append_eq_error {o : Outcome α} {cause : ParseError} {next : Cursor}
    {es : List ParseError} :
    error cause next es = o.append r ↔ ∃ c₁, o = error cause c₁ es ∧ next = c₁.append r := by
  cases o with
  | error other c₁ fs =>
    constructor
    · rintro ⟨⟩
      exact ⟨c₁, rfl, rfl⟩
    · rintro ⟨_, ⟨⟩, rfl⟩
      rfl
  | ok | outOfFuel => simp [append]

theorem Behind.trans {o : Outcome α} {c' : Cursor} (h : o.Behind c')
    (suffix : c'.tokens <:+ c.tokens) : o.Behind c := by
  cases o with
  | ok | error => exact List.IsSuffix.trans h suffix
  | outOfFuel => trivial

/-- Nothing lies in front of all that is left. -/
theorem Behind.not_inside {o : Outcome α} (h : o.Behind c)
    (short : c.tokens.length ≤ r.tokens.length) : ¬ o.Inside r := by
  cases o with
  | ok value next dropped =>
    have le : next.tokens.length ≤ c.tokens.length := h.length_le
    simp only [Inside]
    omega
  | error cause next dropped =>
    have le : next.tokens.length ≤ c.tokens.length := h.length_le
    simp only [Inside]
    omega
  | outOfFuel => exact id

end Outcome

open Outcome

/-- The step never goes back, and where it ends in front of some tokens it does not matter what they
are. -/
structure Local {α : Type} (f : Cursor → Outcome α) : Prop where
  behind : ∀ c, (f c).Behind c
  inside : ∀ c r, (f (c.append r)).Inside r → f (c.append r) = (f c).append r

namespace Local

variable {α β : Type} {f : Cursor → Outcome α} {c r : Cursor}

/-- A step that starts behind all that is there has nowhere to end inside. -/
theorem ne_nil (hf : Local f) (inside : (f (c.append r)).Inside r) : c.tokens ≠ [] := by
  intro none
  rw [append_of_nil none] at inside
  exact (hf.behind r).not_inside (Nat.le_refl _) inside

theorem result (v : α) : Local fun c => .ok v c [] where
  behind _ := List.suffix_rfl
  inside _ _ _ := rfl

theorem failure (cause : ParseError) : Local fun c => (.error cause c [] : Outcome α) where
  behind _ := List.suffix_rfl
  inside _ _ _ := rfl

theorem remember {F : Token → Cursor → Outcome α} (hF : ∀ t, Local (F t)) :
    Local fun c => F c.current c where
  behind c := (hF c.current).behind c
  inside c r inside := by
    have ne := (hF _).ne_nil inside
    simp only [current_append ne] at inside ⊢
    exact (hF _).inside c r inside

/-- The current token may be kept for later. -/
theorem remembering {F : Token → Cursor → Outcome α} (eq : ∀ t c, c.current = t → f c = F t c)
    (hF : ∀ t, Local (F t)) : Local f := by
  obtain rfl : f = fun c => F c.current c := funext fun c => eq _ c rfl
  exact remember hF

theorem advance (hf : Local f) : Local fun c => f c.advance where
  behind c := (hf.behind c.advance).trans (List.tail_suffix _)
  inside c r inside := by
    have ne : c.tokens ≠ [] := by
      intro none
      rw [append_of_nil none] at inside
      refine (hf.behind r.advance).not_inside ?_ inside
      exact r.size_advance_le
    simp only [advance_append ne] at inside ⊢
    exact hf.inside c.advance r inside

/-- Whether the token behind the current one is taken may depend on it, if the end is not taken. -/
theorem peek {p : Kind → Prop} [DecidablePred p] (notEnd : ¬ p .eof)
    {F : Token → Cursor → Outcome α} (hF : ∀ t, Local (F t)) (hf : Local f) :
    Local fun c => if p c.peek.kind then F c.peek c.advance else f c where
  behind c := by
    split
    · exact (hF _).advance.behind c
    · exact hf.behind c
  inside c r inside := by
    by_cases last : c.tokens.tail = []
    · rw [peek_of_tail last, if_neg notEnd]
      by_cases taken : p (c.append r).peek.kind
      · rw [if_pos taken] at inside
        have ne := (hF _).advance.ne_nil inside
        rw [advance_append ne] at inside
        exact ((hF _).ne_nil inside last).elim
      · rw [if_neg taken] at inside ⊢
        exact hf.inside c r inside
    · simp only [peek_append last] at inside ⊢
      by_cases taken : p c.peek.kind
      · rw [if_pos taken] at inside ⊢
        rw [if_pos taken]
        exact (hF _).advance.inside c r inside
      · rw [if_neg taken] at inside ⊢
        rw [if_neg taken]
        exact hf.inside c r inside

theorem expect (kind : Kind) : Local fun c => c.expect kind where
  behind c := by
    unfold Cursor.expect
    split
    · exact List.tail_suffix _
    · exact List.suffix_rfl
  inside c r inside := by
    by_cases last : c.tokens.tail = []
    · have short : (c.append r).tokens.length ≤ r.tokens.length + 1 := by
        have length := congrArg List.length last
        simp only [List.length_tail, List.length_nil] at length
        simp only [Cursor.append, Cursor.tokens_mk, List.length_append]
        omega
      unfold Cursor.expect at inside
      split at inside
      · simp only [Inside, tokens_advance, List.length_tail] at inside
        omega
      · simp only [Inside] at inside
        omega
    · rw [Cursor.expect, Cursor.expect, peekIs_append last, peek_append last,
        advance_append (ne_nil_of_tail last)]
      split <;> rfl

theorem bind {g : α → Cursor → Outcome β} (hf : Local f) (hg : ∀ v, Local (g v)) :
    Local fun c => (f c).bind g where
  behind c := by
    have first := hf.behind c
    cases ho : f c with
    | ok v next es =>
      rw [ho] at first
      exact behind_after.2 (((hg v).behind next).trans first)
    | error cause next es =>
      rw [ho] at first
      exact first
    | outOfFuel => trivial
  inside c r inside := by
    have same := hf.inside c r
    cases ho : f (c.append r) with
    | ok v next es =>
      rw [ho] at same inside
      have inside := inside_after.1 inside
      -- What comes second does not go back, so the first step ended inside as well.
      have ahead : r.tokens.length < next.tokens.length :=
        Nat.lt_of_not_le fun short => ((hg v).behind next).not_inside short inside
      obtain ⟨c₁, hc, rfl⟩ := append_eq_ok.1 (same ahead)
      rw [hc]
      simp only [Outcome.bind, append_after, (hg v).inside c₁ r inside]
    | error cause next es =>
      rw [ho] at same inside
      obtain ⟨c₁, hc, rfl⟩ := append_eq_error.1 (same inside)
      rw [hc]
      rfl
    | outOfFuel =>
      rw [ho] at inside
      exact inside.elim

theorem map {g : α → β} (hf : Local f) : Local fun c => (f c).map g where
  behind c := behind_map.2 (hf.behind c)
  inside c r inside := by
    rw [hf.inside c r (inside_map.1 inside), append_map]

theorem outOfFuel : Local fun _ => (.outOfFuel : Outcome α) where
  behind _ := trivial
  inside _ _ inside := inside.elim

theorem peekIs {kind : Kind} (notEnd : kind ≠ .eof) {F : Cursor → Outcome α} (hF : Local F)
    (hf : Local f) : Local fun c => if c.peekIs kind then F c.advance else f c :=
  peek (p := fun k => decide (k = kind) = true) (F := fun _ => F)
    (by simpa using notEnd.symm) (fun _ => hF) hf

theorem skipSemicolon (hf : Local f) : Local fun c => f c.skipSemicolon := by
  simp only [Cursor.skipSemicolon, apply_ite f]
  exact peekIs (by decide) hf hf

/-- How every statement ends: its place includes the semicolon that is skipped. -/
theorem ending (v : Token → α) :
    Local fun c => .ok (v c.skipSemicolon.current) c.skipSemicolon [] :=
  skipSemicolon (remember fun last => result (v last))

theorem thenRest {f : Cursor → Outcome Stmt} {rest : Cursor → Outcome (List Stmt)} (hf : Local f)
    (hr : Local rest) : Local fun c => (f c).thenRest rest where
  behind c := by
    have first := hf.behind c
    cases ho : f c with
    | ok v next es =>
      rw [ho] at first
      exact behind_after.2 (behind_map.2 ((hr.advance.behind next).trans first))
    | error cause next es =>
      rw [ho] at first
      exact behind_after.2 ((hr.advance.skipSemicolon.behind next).trans first)
    | outOfFuel => trivial
  inside c r inside := by
    have same := hf.inside c r
    cases ho : f (c.append r) with
    | ok v next es =>
      rw [ho] at same inside
      have inside := inside_map.1 (inside_after.1 inside)
      have ahead : r.tokens.length < next.tokens.length :=
        Nat.lt_of_not_le fun short => (hr.advance.behind next).not_inside short inside
      obtain ⟨c₁, hc, rfl⟩ := append_eq_ok.1 (same ahead)
      rw [hc]
      simp only [Outcome.thenRest, append_after, append_map, hr.advance.inside c₁ r inside]
    | error cause next es =>
      rw [ho] at same inside
      have inside := inside_after.1 inside
      have ahead : r.tokens.length + 1 < next.tokens.length := by
        refine Nat.lt_of_not_le fun short => ?_
        refine (hr.behind next.skipSemicolon.advance).not_inside ?_ inside
        have skip : next.skipSemicolon.tokens.length ≤ next.tokens.length :=
          next.size_skipSemicolon_le
        rw [tokens_advance, List.length_tail]
        omega
      obtain ⟨c₁, hc, rfl⟩ := append_eq_error.1 (same ahead)
      rw [hc]
      simp only [Outcome.thenRest, append_after, hr.advance.skipSemicolon.inside c₁ r inside]
    | outOfFuel =>
      rw [ho] at inside
      exact inside.elim

end Local

namespace Parser

open Local

theorem integer_local : Local integer := by
  refine remembering (fun t c hc => by simp only [integer, hc]; rfl) fun t => ?_
  cases Decimal.toInt64? t.literal.toList with
  | some value => exact result _
  | none => exact failure _

theorem parameters_local (n : Nat) : Local (parameters n) := by
  induction n with
  | zero => exact .outOfFuel
  | succ n ih =>
    show Local fun c => parameters (n + 1) c
    simp only [parameters]
    refine peekIs (by decide) (result []) ((expect .ident).bind fun name => ?_)
    exact peekIs (by decide) ih.map (expect .rparen).map

mutual

theorem expression_local (n : Nat) (floor : Precedence) : Local (expression n floor) := by
  match n with
  | 0 => exact .outOfFuel
  | n + 1 =>
    show Local fun c => expression (n + 1) floor c
    simp only [expression]
    exact (operand_local n).bind fun left => climb_local n floor left
termination_by structural n

theorem operand_local (n : Nat) : Local (operand n) := by
  match n with
  | 0 => exact .outOfFuel
  | n + 1 =>
    refine remembering (fun t c hc => by simp only [operand, hc]; rfl) fun t => ?_
    cases t.kind with
    | ident | trueWord | falseWord => exact result _
    | int => exact integer_local
    | bang | minus => exact (expression_local n .unary).advance.bind fun right => result _
    | lparen => exact (expression_local n .lowest).advance.bind fun inner => (expect .rparen).map
    | ifWord => exact conditional_local n
    | fnWord => exact function_local n
    | _ => exact failure _
termination_by structural n

theorem climb_local (n : Nat) (floor : Precedence) (left : Expr) : Local (climb n floor left) := by
  match n with
  | 0 => exact .outOfFuel
  | n + 1 =>
    show Local fun c => climb (n + 1) floor left c
    simp only [climb]
    refine peek (p := fun kind => floor < .ofKind kind) (Nat.not_lt_zero _) (F := fun token c =>
      if token.kind = .lparen then
        (arguments n c).bind fun args c =>
          climb n floor (.call token left args ⟨left.span.start, c.current.span.stop⟩) c
      else
        (expression n (.ofKind token.kind) c.advance).bind fun right c =>
          climb n floor
            (.binary token left token.literal right ⟨left.span.start, right.span.stop⟩) c)
      (fun token => ?_) (result left)
    by_cases call : token.kind = .lparen
    · simp only [if_pos call]
      refine (arguments_local n).bind fun args => ?_
      exact remember fun last =>
        climb_local n floor (.call token left args ⟨left.span.start, last.span.stop⟩)
    · simp only [if_neg call]
      exact (expression_local n _).advance.bind fun right => climb_local n floor _
termination_by structural n

theorem arguments_local (n : Nat) : Local (arguments n) := by
  match n with
  | 0 => exact .outOfFuel
  | n + 1 =>
    show Local fun c => arguments (n + 1) c
    simp only [arguments]
    refine peekIs (by decide) (result []) ((expression_local n .lowest).advance.bind fun _ => ?_)
    exact peekIs (by decide) (arguments_local n).map (expect .rparen).map
termination_by structural n

theorem conditional_local (n : Nat) : Local (conditional n) := by
  match n with
  | 0 => exact .outOfFuel
  | n + 1 =>
    refine remembering (fun t c hc => by simp only [conditional, hc]; rfl) fun token => ?_
    refine (expect .lparen).bind fun _ => (expression_local n .lowest).advance.bind fun test => ?_
    refine (expect .rparen).bind fun _ => (expect .lbrace).bind fun _ => ?_
    refine (block_local n).bind fun consequence => ?_
    exact peekIs (by decide) ((expect .lbrace).bind fun _ => (block_local n).map) (result _)
termination_by structural n

theorem function_local (n : Nat) : Local (function n) := by
  match n with
  | 0 => exact .outOfFuel
  | n + 1 =>
    refine remembering (fun t c hc => by simp only [function, hc]; rfl) fun token => ?_
    refine (expect .lparen).bind fun _ => (parameters_local n).bind fun params => ?_
    exact (expect .lbrace).bind fun _ => (block_local n).map
termination_by structural n

theorem block_local (n : Nat) : Local (block n) := by
  match n with
  | 0 => exact .outOfFuel
  | n + 1 =>
    refine remembering (fun t c hc => by simp only [block, hc]; rfl) fun token => ?_
    refine (statements_local n _).advance.bind fun body => ?_
    refine remembering (fun t c hc => by simp only [hc]; rfl) fun last => ?_
    by_cases ended : last.kind = .eof
    · simp only [if_pos ended]
      exact failure _
    · simp only [if_neg ended]
      exact result _
termination_by structural n

theorem statements_local (n : Nat) (closes : Kind → Bool) : Local (statements n closes) := by
  match n with
  | 0 => exact .outOfFuel
  | n + 1 =>
    refine remembering (fun t c hc => by simp only [statements_succ, hc]; rfl) fun t => ?_
    by_cases closed : closes t.kind = true
    · simp only [if_pos closed]
      exact result []
    · simp only [if_neg closed]
      exact (statement_local n).thenRest (statements_local n closes)
termination_by structural n

theorem statement_local (n : Nat) : Local (statement n) := by
  match n with
  | 0 => exact .outOfFuel
  | n + 1 =>
    refine remembering (fun t c hc => by simp only [statement, hc]; rfl) fun t => ?_
    cases t.kind with
    | letWord => exact binding_local n
    | returnWord => exact ret_local n
    | _ => exact expressionStatement_local n
termination_by structural n

theorem binding_local (n : Nat) : Local (binding n) := by
  match n with
  | 0 => exact .outOfFuel
  | n + 1 =>
    refine remembering (fun t c hc => by simp only [binding, hc]; rfl) fun token => ?_
    refine (expect .ident).bind fun name => (expect .assign).bind fun _ => ?_
    refine (expression_local n .lowest).advance.bind fun value => ?_
    exact ending fun last =>
      Stmt.bind token ⟨name, name.literal⟩ value ⟨token.span.start, last.span.stop⟩
termination_by structural n

theorem ret_local (n : Nat) : Local (ret n) := by
  match n with
  | 0 => exact .outOfFuel
  | n + 1 =>
    refine remembering (fun t c hc => by simp only [ret, hc]; rfl) fun token => ?_
    refine (expression_local n .lowest).advance.bind fun value => ?_
    exact ending fun last => Stmt.ret token value ⟨token.span.start, last.span.stop⟩
termination_by structural n

theorem expressionStatement_local (n : Nat) : Local (expressionStatement n) := by
  match n with
  | 0 => exact .outOfFuel
  | n + 1 =>
    refine remembering (fun t c hc => by simp only [expressionStatement, hc]; rfl) fun token => ?_
    refine (expression_local n .lowest).bind fun value => ?_
    exact ending fun last => Stmt.expr token value ⟨token.span.start, last.span.stop⟩
termination_by structural n

end

end Parser

end LetFn
