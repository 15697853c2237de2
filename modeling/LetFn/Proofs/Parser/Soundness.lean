import LetFn.Parsed
import LetFn.Proofs.Grammar

/-! What is read without an error is derivable, and the result is the tree of the derivation. -/

namespace LetFn

namespace Outcome

variable {α β : Type} {c : Cursor}

theorem after_eq_ok {es : List ParseError} {o : Outcome α} {v : α} :
    o.after es = ok v c [] ↔ es = [] ∧ o = ok v c [] := by
  cases o with
  | ok value next dropped =>
    simp only [after, ok.injEq, List.append_eq_nil_iff]
    constructor
    · rintro ⟨hv, hc, he, hd⟩
      exact ⟨he, hv, hc, hd⟩
    · rintro ⟨he, hv, hc, hd⟩
      exact ⟨hv, hc, he, hd⟩
  | error | outOfFuel => simp [after]

theorem bind_eq_ok {o : Outcome α} {f : α → Cursor → Outcome β} {v : β} :
    o.bind f = ok v c [] ↔ ∃ a c₁, o = ok a c₁ [] ∧ f a c₁ = ok v c [] := by
  cases o with
  | ok a c₁ es =>
    simp only [bind, after_eq_ok, ok.injEq]
    constructor
    · rintro ⟨rfl, h⟩
      exact ⟨a, c₁, ⟨rfl, rfl, rfl⟩, h⟩
    · rintro ⟨_, _, ⟨rfl, rfl, rfl⟩, h⟩
      exact ⟨rfl, h⟩
  | error | outOfFuel => simp [bind]

theorem map_eq_ok {f : α → β} {o : Outcome α} {v : β} {es : List ParseError} :
    o.map f = ok v c es ↔ ∃ a, o = ok a c es ∧ f a = v := by
  cases o with
  | ok value next dropped =>
    simp only [map, ok.injEq]
    constructor
    · rintro ⟨hv, hc, hd⟩
      exact ⟨value, ⟨rfl, hc, hd⟩, hv⟩
    · rintro ⟨a, ⟨rfl, hc, hd⟩, hv⟩
      exact ⟨hv, hc, hd⟩
  | error | outOfFuel => simp [map]

end Outcome

namespace Cursor

variable {c c₁ c₂ : Cursor} {v w : List Token}

theorem expect_bind_eq_ok {β : Type} {kind : Kind} {f : Token → Cursor → Outcome β} {b : β} :
    (c.expect kind).bind f = .ok b c₁ [] ↔
      c.peek.kind = kind ∧ f c.peek c.advance = .ok b c₁ [] := by
  by_cases h : c.peek.kind = kind
  · simp [expect, peekIs, h, Outcome.bind]
  · simp [expect, peekIs, h, Outcome.bind]

theorem expect_map_eq_ok {β : Type} {kind : Kind} {f : Token → β} {b : β} :
    (c.expect kind).map f = .ok b c₁ [] ↔
      c.peek.kind = kind ∧ f c.peek = b ∧ c.advance = c₁ := by
  by_cases h : c.peek.kind = kind
  · simp [expect, peekIs, h, Outcome.map]
  · simp [expect, peekIs, h, Outcome.map]

/-- Reading `w` from `c` on stops at `c₁`, which is still at the last token of `w`. -/
structure Reads (c : Cursor) (w : List Token) (c₁ : Cursor) : Prop where
  tokens : c.tokens = w ++ c₁.advance.tokens
  last : w.getLast? = some c₁.current

theorem tokens_eq_cons (h : c.current.kind ≠ .eof) : c.tokens = c.current :: c.advance.tokens := by
  rcases c with ⟨tokens, stop⟩
  cases tokens with
  | nil => exact (h rfl).elim
  | cons t ts => rfl

theorem Reads.current (h : c.current.kind ≠ .eof) : c.Reads [c.current] c :=
  ⟨tokens_eq_cons h, rfl⟩

theorem Reads.peek (h : c.peek.kind ≠ .eof) : c.advance.Reads [c.peek] c.advance :=
  Reads.current (c := c.advance) h

theorem Reads.trans (h₁ : c.Reads v c₁) (h₂ : c₁.advance.Reads w c₂) : c.Reads (v ++ w) c₂ := by
  refine ⟨?_, ?_⟩
  · rw [h₁.tokens, h₂.tokens, List.append_assoc]
  · rw [List.getLast?_append, h₂.last, Option.some_or]

/-- A statement ends with its semicolon if there is one. -/
theorem Reads.skipSemicolon (h : c.Reads w c₁) :
    ∃ s, Grammar.Semicolon s ∧ c.Reads (w ++ s) c₁.skipSemicolon := by
  unfold Cursor.skipSemicolon peekIs
  split
  · next hk =>
    have hk : c₁.peek.kind = .semicolon := by simpa using hk
    exact ⟨[c₁.peek], .inr ⟨_, rfl, hk⟩, h.trans (.peek (by simp [hk]))⟩
  · exact ⟨[], .inl rfl, by simpa using h⟩

end Cursor

namespace Parser

open Grammar Outcome Cursor

theorem parameters_sound {n : Nat} {c c' : Cursor} {names : List Ident}
    (h : parameters n c = .ok names c' []) :
    ∃ w, c.advance.Reads (w ++ [c'.current]) c' ∧ c'.current.kind = .rparen ∧
      Parameters w names := by
  induction n generalizing c names with
  | zero => cases h
  | succ n ih =>
    simp only [parameters] at h
    split at h
    · next hp =>
      obtain ⟨rfl, rfl⟩ : names = [] ∧ c.advance = c' := by cases h; exact ⟨rfl, rfl⟩
      have hp : c.peek.kind = .rparen := by simpa [peekIs] using hp
      exact ⟨[], .peek (by simp [hp]), hp, .nil⟩
    rcases expect_bind_eq_ok.1 h with ⟨hname, h⟩
    have first : c.advance.Reads [c.peek] c.advance := .peek (by simp [hname])
    split at h
    · next hp =>
      have hp : c.advance.peek.kind = .comma := by simpa [peekIs] using hp
      rcases map_eq_ok.1 h with ⟨rest, hrest, rfl⟩
      rcases ih hrest with ⟨w, reads, hr, d⟩
      refine ⟨c.peek :: c.advance.peek :: w, ?_, hr, .cons hname hp d⟩
      exact first.trans (.trans (.peek (by simp [hp])) reads)
    · obtain ⟨hr, rfl, rfl⟩ := expect_map_eq_ok.1 h
      exact ⟨[c.peek], first.trans (.peek (by simp [hr])), hr, .last hname⟩

theorem integer_sound {c c' : Cursor} {e : Expr} (hk : c.current.kind = .int)
    (h : integer c = .ok e c' []) : ∃ w, c.Reads w c' ∧ Expression w e := by
  unfold integer at h
  split at h
  · next value hv =>
    cases h
    exact ⟨[c.current], .current (by simp [hk]), .int hk hv⟩
  · cases h

mutual

theorem expression_sound {n : Nat} {floor : Precedence} {c c' : Cursor} {e : Expr}
    (h : expression n floor c = .ok e c' []) : ∃ w, c.Reads w c' ∧ Expression w e := by
  match n, h with
  | 0, h => cases h
  | n + 1, h =>
    simp only [expression] at h
    rcases bind_eq_ok.1 h with ⟨left, c₁, hleft, h⟩
    rcases operand_sound hleft with ⟨u, reads, d⟩
    exact climb_sound reads d h

theorem operand_sound {n : Nat} {c c' : Cursor} {e : Expr} (h : operand n c = .ok e c' []) :
    ∃ w, c.Reads w c' ∧ Expression w e := by
  match n, h with
  | 0, h => cases h
  | n + 1, h =>
    have current (hk : c.current.kind ≠ .eof) := Reads.current hk
    simp only [operand] at h
    split at h
    case h_1 hk =>
      cases h
      exact ⟨_, current (by simp [hk]), .ident hk⟩
    case h_2 hk => exact integer_sound hk h
    case h_3 hk =>
      cases h
      exact ⟨_, current (by simp [hk]), .trueWord hk⟩
    case h_4 hk =>
      cases h
      exact ⟨_, current (by simp [hk]), .falseWord hk⟩
    case h_5 hk | h_6 hk =>
      rcases bind_eq_ok.1 h with ⟨right, c₁, hright, h⟩
      cases h
      rcases expression_sound hright with ⟨w, reads, d⟩
      exact ⟨_, (current (by simp [hk])).trans reads, .unary (by simp [hk, Kind.isUnary]) d⟩
    case h_7 hk =>
      rcases bind_eq_ok.1 h with ⟨inner, c₁, hinner, h⟩
      rcases expression_sound hinner with ⟨w, reads, d⟩
      rcases expect_map_eq_ok.1 h with ⟨hr, rfl, rfl⟩
      have close : c₁.advance.Reads [c₁.peek] c₁.advance := .peek (by simp [hr])
      exact ⟨_, (current (by simp [hk])).trans (reads.trans close), .paren hk hr d⟩
    case h_8 hk => exact conditional_sound hk h
    case h_9 hk => exact function_sound hk h
    case h_10 => cases h

/-- What has been read so far only ever grows to the right. -/
theorem climb_sound {n : Nat} {floor : Precedence} {c₀ c c' : Cursor} {u : List Token}
    {left e : Expr} (reads : c₀.Reads u c) (d : Expression u left)
    (h : climb n floor left c = .ok e c' []) : ∃ w, c₀.Reads w c' ∧ Expression w e := by
  match n, h with
  | 0, h => cases h
  | n + 1, h =>
    simp only [climb] at h
    split at h
    · next hp =>
      have peek (hk : c.peek.kind ≠ .eof) := Reads.peek hk
      split at h
      · next hl =>
        rcases bind_eq_ok.1 h with ⟨args, c₁, hargs, h⟩
        rcases arguments_sound hargs with ⟨w, reads', hr, d'⟩
        exact climb_sound (reads.trans ((peek (by simp [hl])).trans reads')) (.call hl hr d d') h
      · next hl =>
        rcases bind_eq_ok.1 h with ⟨right, c₁, hright, h⟩
        rcases expression_sound hright with ⟨w, reads', d'⟩
        have hb : c.peek.kind.isBinary = true :=
          (Precedence.isBinary_or_lparen hp).resolve_right hl
        have he : c.peek.kind ≠ .eof := by
          intro he
          simp [he, Kind.isBinary] at hb
        exact climb_sound (reads.trans ((peek he).trans reads')) (.binary hb d d') h
    · cases h
      exact ⟨u, reads, d⟩

theorem arguments_sound {n : Nat} {c c' : Cursor} {es : List Expr}
    (h : arguments n c = .ok es c' []) :
    ∃ w, c.advance.Reads (w ++ [c'.current]) c' ∧ c'.current.kind = .rparen ∧ Arguments w es := by
  match n, h with
  | 0, h => cases h
  | n + 1, h =>
    simp only [arguments] at h
    split at h
    · next hp =>
      have hp : c.peek.kind = .rparen := by simpa [peekIs] using hp
      cases h
      exact ⟨[], .peek (by simp [hp]), hp, .nil⟩
    rcases bind_eq_ok.1 h with ⟨first, c₁, hfirst, h⟩
    rcases expression_sound hfirst with ⟨v, reads, d⟩
    split at h
    · next hp =>
      have hp : c₁.peek.kind = .comma := by simpa [peekIs] using hp
      rcases map_eq_ok.1 h with ⟨rest, hrest, rfl⟩
      rcases arguments_sound hrest with ⟨w, reads', hr, d'⟩
      refine ⟨v ++ c₁.peek :: w, ?_, hr, .cons hp d d'⟩
      simpa using reads.trans (.trans (.peek (by simp [hp])) reads')
    · obtain ⟨hr, rfl, rfl⟩ := expect_map_eq_ok.1 h
      exact ⟨v, reads.trans (.peek (by simp [hr])), hr, .last d⟩

theorem conditional_sound {n : Nat} {c c' : Cursor} {e : Expr} (hk : c.current.kind = .ifWord)
    (h : conditional n c = .ok e c' []) : ∃ w, c.Reads w c' ∧ Expression w e := by
  match n, h with
  | 0, h => cases h
  | n + 1, h =>
    simp only [conditional] at h
    rcases expect_bind_eq_ok.1 h with ⟨hl, h⟩
    rcases bind_eq_ok.1 h with ⟨test, c₁, htest, h⟩
    rcases expression_sound htest with ⟨u, reads, d⟩
    rcases expect_bind_eq_ok.1 h with ⟨hr, h⟩
    rcases expect_bind_eq_ok.1 h with ⟨hb, h⟩
    rcases bind_eq_ok.1 h with ⟨body, c₂, hbody, h⟩
    rcases block_sound (c := c₁.advance.advance) hb hbody with ⟨v, reads', d'⟩
    have toBody : c.Reads (c.current :: c.peek :: (u ++ c₁.peek :: v)) c₂ :=
      (Reads.current (by simp [hk])).trans <| (Reads.peek (by simp [hl])).trans <|
        reads.trans <| (Reads.peek (by simp [hr])).trans reads'
    split at h
    · next hp =>
      have hp : c₂.peek.kind = .elseWord := by simpa [peekIs] using hp
      rcases expect_bind_eq_ok.1 h with ⟨hb', h⟩
      rcases map_eq_ok.1 h with ⟨body', hbody', rfl⟩
      rcases block_sound (c := c₂.advance.advance) hb' hbody' with ⟨w, reads'', d''⟩
      refine ⟨_, ?_, .condElse hk hl hr hp d d' d''⟩
      simpa using toBody.trans ((Reads.peek (by simp [hp])).trans reads'')
    · cases h
      exact ⟨_, toBody, .cond hk hl hr d d'⟩

theorem function_sound {n : Nat} {c c' : Cursor} {e : Expr} (hk : c.current.kind = .fnWord)
    (h : function n c = .ok e c' []) : ∃ w, c.Reads w c' ∧ Expression w e := by
  match n, h with
  | 0, h => cases h
  | n + 1, h =>
    simp only [function] at h
    rcases expect_bind_eq_ok.1 h with ⟨hl, h⟩
    rcases bind_eq_ok.1 h with ⟨names, c₁, hnames, h⟩
    rcases parameters_sound hnames with ⟨v, reads, hr, d⟩
    rcases expect_bind_eq_ok.1 h with ⟨hb, h⟩
    rcases map_eq_ok.1 h with ⟨body, hbody, rfl⟩
    rcases block_sound (c := c₁.advance) hb hbody with ⟨w, reads', d'⟩
    refine ⟨_, ?_, .fn hk hl hr d d'⟩
    simpa using (Reads.current (by simp [hk])).trans <| (Reads.peek (by simp [hl])).trans <|
      reads.trans reads'

theorem block_sound {n : Nat} {c c' : Cursor} {b : LetFn.Block} (hk : c.current.kind = .lbrace)
    (h : block n c = .ok b c' []) : ∃ w, c.Reads w c' ∧ Braced w b := by
  match n, h with
  | 0, h => cases h
  | n + 1, h =>
    simp only [block] at h
    rcases bind_eq_ok.1 h with ⟨ss, c₁, hss, h⟩
    rcases statements_sound hss with ⟨w, tokens, closes, d⟩
    split at h
    · cases h
    next he =>
    cases h
    have hr : c'.current.kind = .rbrace := by simpa [he] using closes
    rw [← extent_braced (w := w)]
    refine ⟨_, ⟨?_, ?_⟩, .mk hk hr d⟩
    · rw [tokens_eq_cons (c := c) (by simp [hk]), tokens, tokens_eq_cons he]
      simp
    · rw [← List.cons_append, List.getLast?_concat]

theorem statements_sound {n : Nat} {closes : Kind → Bool} {c c' : Cursor} {ss : List Stmt}
    (h : statements n closes c = .ok ss c' []) :
    ∃ w, c.tokens = w ++ c'.tokens ∧ closes c'.current.kind = true ∧ Statements w ss := by
  match n, h with
  | 0, h => cases h
  | n + 1, h =>
    simp only [statements] at h
    split at h
    · next hc =>
      cases h
      exact ⟨[], rfl, hc, .nil⟩
    cases hs : statement n c with
    | ok s c₁ dropped =>
      rw [hs] at h
      rcases after_eq_ok.1 h with ⟨rfl, h'⟩
      rcases map_eq_ok.1 h' with ⟨rest, hrest, rfl⟩
      rcases statement_sound hs with ⟨v, reads, d⟩
      rcases statements_sound hrest with ⟨w, tokens, hc, d'⟩
      refine ⟨v ++ w, ?_, hc, .cons d d'⟩
      rw [reads.tokens, tokens, List.append_assoc]
    | error cause c₁ dropped =>
      rw [hs] at h
      have h := (after_eq_ok.1 h).1
      simp at h
    | outOfFuel =>
      rw [hs] at h
      cases h

theorem statement_sound {n : Nat} {c c' : Cursor} {s : Stmt} (h : statement n c = .ok s c' []) :
    ∃ w, c.Reads w c' ∧ Statement w s := by
  match n, h with
  | 0, h => cases h
  | n + 1, h =>
    simp only [statement] at h
    split at h
    case h_1 hk => exact binding_sound hk h
    case h_2 hk => exact ret_sound hk h
    case h_3 => exact expressionStatement_sound h

theorem binding_sound {n : Nat} {c c' : Cursor} {s : Stmt} (hk : c.current.kind = .letWord)
    (h : binding n c = .ok s c' []) : ∃ w, c.Reads w c' ∧ Statement w s := by
  match n, h with
  | 0, h => cases h
  | n + 1, h =>
    simp only [binding] at h
    rcases expect_bind_eq_ok.1 h with ⟨hname, h⟩
    rcases expect_bind_eq_ok.1 h with ⟨ha, h⟩
    rcases bind_eq_ok.1 h with ⟨value, c₁, hvalue, h⟩
    rcases expression_sound hvalue with ⟨v, reads, d⟩
    rcases reads.skipSemicolon with ⟨w, hw, reads⟩
    cases h
    have all : c.Reads (c.current :: c.peek :: c.advance.peek :: (v ++ w)) c₁.skipSemicolon :=
      (Reads.current (by simp [hk])).trans <| (Reads.peek (by simp [hname])).trans <|
        (Reads.peek (by simp [ha])).trans reads
    rw [← extent_eq (by rfl) all.last]
    exact ⟨_, all, .bind hk hname ha d hw⟩

theorem ret_sound {n : Nat} {c c' : Cursor} {s : Stmt} (hk : c.current.kind = .returnWord)
    (h : ret n c = .ok s c' []) : ∃ w, c.Reads w c' ∧ Statement w s := by
  match n, h with
  | 0, h => cases h
  | n + 1, h =>
    simp only [ret] at h
    rcases bind_eq_ok.1 h with ⟨value, c₁, hvalue, h⟩
    rcases expression_sound hvalue with ⟨v, reads, d⟩
    rcases reads.skipSemicolon with ⟨w, hw, reads⟩
    cases h
    have all : c.Reads (c.current :: (v ++ w)) c₁.skipSemicolon :=
      (Reads.current (by simp [hk])).trans reads
    rw [← extent_eq (by rfl) all.last]
    exact ⟨_, all, .ret hk d hw⟩

theorem expressionStatement_sound {n : Nat} {c c' : Cursor} {s : Stmt}
    (h : expressionStatement n c = .ok s c' []) : ∃ w, c.Reads w c' ∧ Statement w s := by
  match n, h with
  | 0, h => cases h
  | n + 1, h =>
    simp only [expressionStatement] at h
    rcases bind_eq_ok.1 h with ⟨value, c₁, hvalue, h⟩
    rcases expression_sound hvalue with ⟨v, reads, d⟩
    rcases reads.skipSemicolon with ⟨w, hw, reads'⟩
    cases h
    have hv : v.head? = some c.current := by
      have tokens := reads.tokens
      cases v with
      | nil => exact (d.ne_nil rfl).elim
      | cons t v =>
        simp [Cursor.current_eq_headD, tokens]
    rw [← extent_eq (by simp [hv]) reads'.last]
    exact ⟨_, reads', .expr hv d hw⟩

end

end Parser

end LetFn
