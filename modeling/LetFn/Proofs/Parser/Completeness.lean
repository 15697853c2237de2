import LetFn.Proofs.Grammar.Chain
import LetFn.Proofs.Parser.Progress
import LetFn.Proofs.Parser.Soundness
import LetFn.Proofs.Parser.Yields

/-! Whatever is derivable is read without an error: a list of tokens is accepted exactly if there
is a derivation of it. -/

namespace LetFn

open Grammar

namespace Grammar

/-- The part of a conditional behind its first block. -/
def Alternative (w : List Token) : Prop :=
  w = [] ∨ ∃ t v b, w = t :: v ∧ t.kind = .elseWord ∧ Braced v b

end Grammar

namespace Parser

open Outcome Cursor

/-- Reading stopped in front of `rest` or of an operator that binds no tighter than `floor`. -/
structure StopsAt (floor : Precedence) (rest : List Token) (c : Cursor) : Prop where
  exists_tail : ∃ v, Tail v ∧ c.advance.tokens = v ++ rest
  floor_le : ¬ floor < c.peekPrecedence

theorem peek_ne {c : Cursor} {w : List Token} {kind : Kind} (hc : c.advance.tokens = w)
    (h : ∀ t ∈ w.head?, t.kind ≠ kind) (he : kind ≠ .eof) : c.peek.kind ≠ kind := by
  cases w with
  | nil => simpa [peek_eq_headD, ← tokens_advance, hc, Token.eof] using he.symm
  | cons t w => simpa [peek_eq hc] using h

theorem peekPrecedence_eq {c : Cursor} {w : List Token} (hc : c.advance.tokens = w)
    (h : Stops w) : c.peekPrecedence = .lowest := by
  cases w with
  | nil => simp [peekPrecedence, peek_eq_headD, ← tokens_advance, hc, Token.eof, Precedence.ofKind]
  | cons t w => rw [peekPrecedence, peek_eq hc, (stops_cons.1 h).1]

theorem unary_kind {k : Kind} (h : k.isUnary = true) : k = .bang ∨ k = .minus := by
  cases k <;> simp_all [Kind.isUnary]

theorem stops_close {r : Token} {w : List Token} (hr : r.kind = .rparen) : Stops (r :: w) := by
  simp [stops_cons, hr, Precedence.ofKind]

theorem peekIs_rparen {c : Cursor} {w rest : List Token} (hc : c.advance.tokens = w ++ rest)
    (hw : Chain w) : ¬ c.peekIs .rparen = true := by
  obtain ⟨t, v, rfl, ht⟩ := hw.exists_head
  intro h
  rw [peekIs_iff, peek_eq hc] at h
  simp [h, Kind.beginsOperand] at ht

theorem StopsAt.advance_eq {rest : List Token} {c : Cursor} (h : StopsAt .lowest rest c) :
    c.advance.tokens = rest := by
  obtain ⟨⟨v, hv, hc⟩, hf⟩ := h
  by_cases hn : v = []
  · simpa [hn] using hc
  obtain ⟨t, v, rfl, -, ht⟩ := hv.exists_head hn
  rw [peekPrecedence, peek_eq hc] at hf
  exact (hf ht).elim

theorem parameters_yields {n : Nat} {c : Cursor} {w rest : List Token} {r : Token}
    {names : List Ident} (hc : c.advance.tokens = w ++ r :: rest) (hr : r.kind = .rparen)
    (d : Parameters w names) :
    (parameters n c).Yields fun _ c' => c'.tokens = r :: rest := by
  induction n generalizing c w names with
  | zero => trivial
  | succ n ih =>
    have peek (t : Token) (v : List Token) (h : c.advance.tokens = t :: v) := peek_eq h
    simp only [parameters]
    cases d with
    | nil =>
      rw [if_pos (by simp [peekIs, peek _ _ hc, hr])]
      exact ⟨rfl, hc⟩
    | last hk =>
      have peek₁ : c.advance.peek = r := peek_eq (Cursor.advance_eq hc)
      rw [if_neg (by simp [peekIs, peek _ _ hc, hk])]
      refine yields_expect_bind (by rw [peek _ _ hc, hk]) ?_
      rw [if_neg (by simp [peekIs, peek₁, hr])]
      exact yields_expect_map (by rw [peek₁, hr]) (Cursor.advance_eq hc)
    | cons hk hm d =>
      have peek₁ : c.advance.peek = _ := peek_eq (Cursor.advance_eq hc)
      rw [if_neg (by simp [peekIs, peek _ _ hc, hk])]
      refine yields_expect_bind (by rw [peek _ _ hc, hk]) ?_
      rw [if_pos (by simp [peekIs, peek₁, hm])]
      exact yields_map.2 (ih (Cursor.advance_eq (Cursor.advance_eq hc)) d)

theorem peek_braced {c : Cursor} {w rest : List Token} {b : LetFn.Block}
    (hc : c.advance.tokens = w ++ rest) (d : Braced w b) : c.peek.kind = .lbrace := by
  cases d with
  | mk hl _ _ => rw [peek_eq hc, hl]

/-- A statement takes the semicolon behind it, and nothing else. -/
theorem tokens_skipSemicolon {c : Cursor} {s rest : List Token}
    (hc : c.advance.tokens = s ++ rest) (hs : Semicolon s)
    (hn : s = [] → ∀ t ∈ rest.head?, t.kind ≠ .semicolon) :
    c.skipSemicolon.advance.tokens = rest := by
  obtain rfl | ⟨t, rfl, hk⟩ := hs
  · have hp : c.peek.kind ≠ .semicolon := peek_ne hc (hn rfl) (by decide)
    rw [skipSemicolon, if_neg (by simpa [peekIs] using hp)]
    exact hc
  · rw [skipSemicolon, if_pos (by simp [peekIs, peek_eq hc, hk])]
    exact Cursor.advance_eq hc

mutual

theorem expression_yields {n : Nat} {floor : Precedence} {c : Cursor} {w rest : List Token}
    (hc : c.tokens = w ++ rest) (hw : Chain w) (hr : Stops rest) :
    (expression n floor c).Yields fun _ => StopsAt floor rest := by
  match n with
  | 0 => trivial
  | n + 1 =>
    obtain ⟨u, v, rfl, hu, hv⟩ := hw
    rw [List.append_assoc] at hc
    simp only [expression]
    refine (operand_yields hc hu hv hr).bind ?_
    rintro left c₁ ⟨v', hv', hc₁⟩
    exact climb_yields hc₁ hv' hr

theorem operand_yields {n : Nat} {c : Cursor} {u v rest : List Token}
    (hc : c.tokens = u ++ (v ++ rest)) (hu : Grammar.Operand u) (hv : Tail v) (hr : Stops rest) :
    (operand n c).Yields fun _ c' => ∃ v', Tail v' ∧ c'.advance.tokens = v' ++ rest := by
  match n with
  | 0 => trivial
  | n + 1 =>
    have else_ne : ∀ t ∈ (v ++ rest).head?, t.kind ≠ .elseWord := by
      by_cases hn : v = []
      · intro t ht
        rw [hn] at ht
        exact (hr t ht).2
      · obtain ⟨t, v', rfl, ht, -⟩ := hv.exists_head hn
        simpa using ht
    cases hu with
    | @unary t u hk hu =>
      have all : c.advance.tokens = (u ++ v) ++ rest := by simpa using Cursor.advance_eq hc
      have right : (expression n .unary c.advance).Yields fun _ => StopsAt .unary rest :=
        expression_yields all ⟨u, v, rfl, hu, hv⟩ hr
      rw [operand_unary (by rw [current_eq hc]; exact unary_kind hk)]
      exact right.bind fun e c' h => ⟨rfl, h.exists_tail⟩
    | atom ha =>
      suffices (operand (n + 1) c).Yields fun _ c' => c'.advance.tokens = v ++ rest from
        this.mono fun _ c' h => ⟨v, hv, h⟩
      cases ha with
      | ident hk | trueWord hk | falseWord hk =>
        simp only [operand, current_eq hc, hk]
        exact ⟨rfl, Cursor.advance_eq hc⟩
      | int hk hv =>
        simp only [operand, integer, current_eq hc, hk, hv]
        exact ⟨rfl, Cursor.advance_eq hc⟩
      | @paren l r w e hl hr d =>
        have inner : c.advance.tokens = w ++ r :: (v ++ rest) := by
          simpa using Cursor.advance_eq hc
        simp only [operand, current_eq hc, hl]
        apply (expression_yields inner d.chain (stops_close hr)).bind
        intro e c₁ h
        have hc₁ := h.advance_eq
        exact yields_expect_map (by rw [peek_eq hc₁, hr]) (Cursor.advance_eq hc₁)
      | @cond t l r u w test body hk hl hr d b =>
        simp only [operand, current_eq hc, hk]
        exact conditional_yields (by simpa using hc) hl hr d b (.inl rfl) else_ne
      | @condElse t l r other u v' w test body body' hk hl hr he d b b' =>
        have all : c.tokens = t :: l :: (u ++ r :: (v' ++ ((other :: w) ++ (v ++ rest)))) := by
          simpa using hc
        simp only [operand, current_eq hc, hk]
        exact conditional_yields all hl hr d b (.inr ⟨other, w, body', rfl, he, b'⟩) else_ne
      | fn hk hl hr d b =>
        simp only [operand, current_eq hc, hk]
        exact function_yields (by simpa using hc) hl hr d b

theorem climb_yields {n : Nat} {floor : Precedence} {left : Expr} {c : Cursor}
    {v rest : List Token} (hc : c.advance.tokens = v ++ rest) (hv : Tail v) (hr : Stops rest) :
    (climb n floor left c).Yields fun _ => StopsAt floor rest := by
  match n with
  | 0 => trivial
  | n + 1 =>
    simp only [climb]
    by_cases hf : floor < c.peekPrecedence
    · rw [if_pos hf]
      cases hv with
      | nil =>
        rw [peekPrecedence_eq hc hr] at hf
        exact (Nat.not_lt_zero _ hf).elim
      | @binary t u w hk hu hw =>
        have hk' : c.peek.kind ≠ .lparen := by
          rw [peek_eq hc]
          intro h
          simp [h, Kind.isBinary] at hk
        have all : c.advance.advance.tokens = (u ++ w) ++ rest := by
          simpa using Cursor.advance_eq hc
        rw [if_neg hk']
        apply (expression_yields all ⟨u, w, rfl, hu, hw⟩ hr).bind
        intro e c₁ h
        obtain ⟨w', hw', hc₁⟩ := h.exists_tail
        exact climb_yields hc₁ hw' hr
      | @call l r u w es hl hr' ha hw =>
        have all : c.advance.advance.tokens = u ++ r :: (w ++ rest) := by
          simpa using Cursor.advance_eq hc
        rw [if_pos (by rw [peek_eq hc, hl])]
        apply (arguments_yields all hr' ha).bind
        intro args c₁ hc₁
        exact climb_yields (Cursor.advance_eq hc₁) hw hr
    · rw [if_neg hf]
      exact ⟨rfl, ⟨v, hv, hc⟩, hf⟩

theorem arguments_yields {n : Nat} {c : Cursor} {w rest : List Token} {r : Token}
    {es : List Expr} (hc : c.advance.tokens = w ++ r :: rest) (hr : r.kind = .rparen)
    (d : Arguments w es) : (arguments n c).Yields fun _ c' => c'.tokens = r :: rest := by
  match n with
  | 0 => trivial
  | n + 1 =>
    simp only [arguments]
    cases d with
    | nil =>
      rw [if_pos (by simp [peekIs, peek_eq hc, hr])]
      exact ⟨rfl, hc⟩
    | last d =>
      rw [if_neg (peekIs_rparen hc d.chain)]
      apply (expression_yields hc d.chain (stops_close hr)).bind
      intro e c₁ h
      have hc₁ := h.advance_eq
      rw [if_neg (by simp [peekIs, peek_eq hc₁, hr])]
      exact yields_expect_map (by rw [peek_eq hc₁, hr]) hc₁
    | @cons comma v w e es hk d d' =>
      have all : c.advance.tokens = v ++ comma :: (w ++ r :: rest) := by simpa using hc
      have stops : Stops (comma :: (w ++ r :: rest)) := by simp [stops_cons, hk, Precedence.ofKind]
      rw [if_neg (peekIs_rparen all d.chain)]
      apply (expression_yields all d.chain stops).bind
      intro e c₁ h
      have hc₁ := h.advance_eq
      rw [if_pos (by simp [peekIs, peek_eq hc₁, hk])]
      exact yields_map.2 (arguments_yields (Cursor.advance_eq hc₁) hr d')

theorem conditional_yields {n : Nat} {c : Cursor} {t l r : Token} {v w alt rest : List Token}
    {test : Expr} {body : LetFn.Block} (hc : c.tokens = t :: l :: (v ++ r :: (w ++ (alt ++ rest))))
    (hl : l.kind = .lparen) (hr : r.kind = .rparen) (d : Expression v test) (b : Braced w body)
    (ha : Alternative alt) (he : ∀ t ∈ rest.head?, t.kind ≠ .elseWord) :
    (conditional n c).Yields fun _ c' => c'.advance.tokens = rest := by
  match n with
  | 0 => trivial
  | n + 1 =>
    have hl' := Cursor.advance_eq hc
    simp only [conditional]
    refine yields_expect_bind (by rw [peek_eq hl', hl]) ?_
    refine (expression_yields (Cursor.advance_eq hl') d.chain (stops_close hr)).bind ?_
    intro test' c₁ h
    have hc₁ := h.advance_eq
    have hb := Cursor.advance_eq hc₁
    refine yields_expect_bind (by rw [peek_eq hc₁, hr]) ?_
    refine yields_expect_bind (peek_braced hb b) ?_
    apply (block_yields hb b).bind
    intro body' c₂ hc₂
    obtain rfl | ⟨other, w', alternative, rfl, hk, b'⟩ := ha
    · rw [if_neg (by simpa [peekIs] using peek_ne hc₂ he (by decide))]
      exact ⟨rfl, hc₂⟩
    · have hb' := Cursor.advance_eq hc₂
      rw [if_pos (by simp [peekIs, peek_eq hc₂, hk])]
      refine yields_expect_bind (peek_braced hb' b') ?_
      exact yields_map.2 (block_yields hb' b')

theorem function_yields {n : Nat} {c : Cursor} {t l r : Token} {v w rest : List Token}
    {names : List Ident} {body : LetFn.Block} (hc : c.tokens = t :: l :: (v ++ r :: (w ++ rest)))
    (hl : l.kind = .lparen) (hr : r.kind = .rparen) (d : Parameters v names)
    (b : Braced w body) : (function n c).Yields fun _ c' => c'.advance.tokens = rest := by
  match n with
  | 0 => trivial
  | n + 1 =>
    have hl' := Cursor.advance_eq hc
    simp only [function]
    refine yields_expect_bind (by rw [peek_eq hl', hl]) ?_
    apply (parameters_yields (Cursor.advance_eq hl') hr d).bind
    intro names' c₁ hc₁
    have hb := Cursor.advance_eq hc₁
    refine yields_expect_bind (peek_braced hb b) ?_
    exact yields_map.2 (block_yields hb b)

theorem block_yields {n : Nat} {c : Cursor} {w rest : List Token} {b : LetFn.Block}
    (hc : c.tokens = w ++ rest) (d : Braced w b) :
    (block n c).Yields fun _ c' => c'.advance.tokens = rest := by
  match n with
  | 0 => trivial
  | n + 1 =>
    obtain @⟨l, r, w, ss, hl, hr, d⟩ := d
    have body : c.advance.tokens = w ++ r :: rest := by simpa using Cursor.advance_eq hc
    simp only [block]
    refine (statements_yields body d.body (by simp [hr]) ?_ ?_).bind fun ss' c₁ hc₁ => ?_
    · intro k hk
      simpa using hk
    · intro c₁ hc₁
      simp [current_eq hc₁, hr]
    · rw [if_neg (by simp [current_eq hc₁, hr])]
      exact ⟨rfl, Cursor.advance_eq hc₁⟩

theorem statements_yields {n : Nat} {closes : Kind → Bool} {c : Cursor} {w rest : List Token}
    (hc : c.tokens = w ++ rest) (b : Body w) (hr : ∀ t ∈ rest.head?, t.kind = .rbrace)
    (only : ∀ k, closes k = true → k = .rbrace ∨ k = .eof)
    (atRest : ∀ c : Cursor, c.tokens = rest → closes c.current.kind = true) :
    (statements n closes c).Yields fun _ c' => c'.tokens = rest := by
  match n with
  | 0 => trivial
  | n + 1 =>
    cases b with
    | nil =>
      rw [statements, if_pos (atRest c hc)]
      exact ⟨rfl, hc⟩
    | @cons h u s w hh hu hs b stops =>
      have all : c.tokens = h ++ (u ++ (s ++ (w ++ rest))) := by simpa using hc
      have rest_stops : Stops rest := fun t ht => by simp [hr t ht, Precedence.ofKind]
      have first : (statement n c).Yields fun _ c' => c'.advance.tokens = w ++ rest := by
        refine statement_yields all hh hu hs fun hs => ⟨stops_append (stops hs) rest_stops, ?_⟩
        intro t ht hk
        rcases b.head_append hr t ht with h | h
        · simp [hk, beginsStatement, Kind.beginsOperand] at h
        · simp [hk] at h
      have opens : ¬ closes c.current.kind = true := by
        intro h
        obtain ⟨t, v, hv, ht⟩ := hh.exists_head hu
        rw [← List.append_assoc, hv] at all
        rw [current_eq all] at h
        rcases only _ h with h | h
        · simp [h, beginsStatement, Kind.beginsOperand] at ht
        · simp [h, beginsStatement, Kind.beginsOperand] at ht
      apply statements_yields_cons opens first
      intro s c₁ hc₁
      exact statements_yields hc₁ b hr only atRest

theorem statement_yields {n : Nat} {c : Cursor} {h u s rest : List Token}
    (hc : c.tokens = h ++ (u ++ (s ++ rest))) (hh : Opening h) (hu : Chain u) (hs : Semicolon s)
    (ends : s = [] → Stops rest ∧ ∀ t ∈ rest.head?, t.kind ≠ .semicolon) :
    (statement n c).Yields fun _ c' => c'.advance.tokens = rest := by
  match n with
  | 0 => trivial
  | n + 1 =>
    have stops : Stops (s ++ rest) := by
      obtain rfl | ⟨t, rfl, hk⟩ := hs
      · exact (ends rfl).1
      · simp [stops_cons, hk, Precedence.ofKind]
    have skip (c₁ : Cursor) (hc₁ : c₁.advance.tokens = s ++ rest) :
        c₁.skipSemicolon.advance.tokens = rest :=
      tokens_skipSemicolon hc₁ hs fun hs => (ends hs).2
    cases hh with
    | bind ht hn ha =>
      simp only [statement, current_eq hc, ht]
      exact binding_yields (u := u) hc hn ha hu stops skip
    | ret ht =>
      simp only [statement, current_eq hc, ht]
      exact ret_yields (u := u) hc hu stops skip
    | expr =>
      obtain ⟨t, v, rfl, ht⟩ := hu.exists_head
      simp only [statement, current_eq hc]
      split
      · next hk => simp [hk, Kind.beginsOperand] at ht
      · next hk => simp [hk, Kind.beginsOperand] at ht
      · exact expressionStatement_yields (u := t :: v) hc hu stops skip

theorem binding_yields {n : Nat} {c : Cursor} {t name assign : Token} {u w rest : List Token}
    (hc : c.tokens = t :: name :: assign :: (u ++ w)) (hn : name.kind = .ident)
    (ha : assign.kind = .assign) (hu : Chain u) (stops : Stops w)
    (skip : ∀ c₁ : Cursor, c₁.advance.tokens = w → c₁.skipSemicolon.advance.tokens = rest) :
    (binding n c).Yields fun _ c' => c'.advance.tokens = rest := by
  match n with
  | 0 => trivial
  | n + 1 =>
    have hn' := Cursor.advance_eq hc
    have ha' := Cursor.advance_eq hn'
    simp only [binding]
    refine yields_expect_bind (by rw [peek_eq hn', hn]) ?_
    refine yields_expect_bind (by rw [peek_eq ha', ha]) ?_
    apply (expression_yields (Cursor.advance_eq ha') hu stops).bind
    intro value c₁ h
    exact ⟨rfl, skip c₁ h.advance_eq⟩

theorem ret_yields {n : Nat} {c : Cursor} {t : Token} {u w rest : List Token}
    (hc : c.tokens = t :: (u ++ w)) (hu : Chain u) (stops : Stops w)
    (skip : ∀ c₁ : Cursor, c₁.advance.tokens = w → c₁.skipSemicolon.advance.tokens = rest) :
    (ret n c).Yields fun _ c' => c'.advance.tokens = rest := by
  match n with
  | 0 => trivial
  | n + 1 =>
    simp only [ret]
    apply (expression_yields (Cursor.advance_eq hc) hu stops).bind
    intro value c₁ h
    exact ⟨rfl, skip c₁ h.advance_eq⟩

theorem expressionStatement_yields {n : Nat} {c : Cursor} {u w rest : List Token}
    (hc : c.tokens = u ++ w) (hu : Chain u) (stops : Stops w)
    (skip : ∀ c₁ : Cursor, c₁.advance.tokens = w → c₁.skipSemicolon.advance.tokens = rest) :
    (expressionStatement n c).Yields fun _ c' => c'.advance.tokens = rest := by
  match n with
  | 0 => trivial
  | n + 1 =>
    simp only [expressionStatement]
    apply (expression_yields hc hu stops).bind
    intro value c₁ h
    exact ⟨rfl, skip c₁ h.advance_eq⟩

end

/-! ### Accepted lists of tokens -/

/-- A derivable list without end tokens is read to its end, and nothing is dropped. -/
theorem program_of_statements {w : List Token} {ss : List Stmt} (d : Statements w ss) :
    ∃ ss' c', program (.ofTokens w) = .ok ss' c' [] := by
  have yields : (program (.ofTokens w)).Yields fun _ c' => c'.tokens = [] := by
    refine statements_yields (by simp [Cursor.ofTokens]) d.body (by simp) ?_ ?_
    · intro k hk
      exact .inr (by simpa using hk)
    · intro c hc
      simp [Cursor.current_eq_headD, hc, Token.eof]
  obtain ⟨ss', c', es, h⟩ := exists_program_eq_ok (.ofTokens w)
  rw [h] at yields
  obtain ⟨rfl, -⟩ := yields
  exact ⟨ss', c', h⟩

/-- What is read without an error is the tree of a derivation of the whole list. -/
theorem statements_of_program {w : List Token} {ss : List Stmt} {c' : Cursor}
    (hw : ∀ t ∈ w, t.kind ≠ .eof) (h : program (.ofTokens w) = .ok ss c' []) :
    Statements w ss := by
  obtain ⟨v, tokens, closes, d⟩ := statements_sound h
  have hw' : w = v ++ c'.tokens := tokens
  have he : c'.current.kind = .eof := by simpa using closes
  have all : c'.tokens = [] := by
    cases hc : c'.tokens with
    | nil => rfl
    | cons t rest =>
      rw [Cursor.current_eq hc] at he
      exact (hw t (by simp [hw', hc]) he).elim
  rw [hw', all, List.append_nil]
  exact d

end Parser

/-- A list of tokens is read without an error exactly if it is derivable, and then the program
that is read is the tree of a derivation of all of it. -/
theorem errors_eq_nil_iff_statements (w : List Token) (hw : ∀ t ∈ w, t.kind ≠ .eof) :
    ((parseTokens w).errors = [] ↔ ∃ ss, Statements w ss) ∧
      ((parseTokens w).errors = [] → Statements w (parseTokens w).program.statements) := by
  have sound : (parseTokens w).errors = [] → Statements w (parseTokens w).program.statements := by
    intro h
    obtain ⟨ss, c', es, hp⟩ := Parser.exists_program_eq_ok (.ofTokens w)
    simp only [parseTokens, Parser.read, hp] at h ⊢
    subst h
    exact Parser.statements_of_program hw hp
  refine ⟨⟨fun h => ⟨_, sound h⟩, ?_⟩, sound⟩
  rintro ⟨ss, d⟩
  obtain ⟨ss', c', hp⟩ := Parser.program_of_statements d
  simp only [parseTokens, Parser.read, hp]

/-- `a` and `-1`, or a difference. -/
def difference : List Token :=
  [⟨.ident, "a", ⟨0, 1⟩⟩, ⟨.minus, "-", ⟨2, 3⟩⟩, ⟨.int, "1", ⟨3, 4⟩⟩]

theorem errors_eq_nil_iff_statements_difference :
    (parseTokens difference).errors = [] ∧
      Statements difference (parseTokens difference).program.statements ∧
      ∃ ss, Statements difference ss := by
  have accepted : (parseTokens difference).errors = [] := by decide
  have both := errors_eq_nil_iff_statements difference (by decide)
  exact ⟨accepted, both.2 accepted, both.1.1 accepted⟩

end LetFn
