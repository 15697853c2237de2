import LetFn.Proofs.Parser.Places
import LetFn.Proofs.Parser.Recovery
import LetFn.Proofs.Parser.Soundness

/-! Tokens behind a program that ends in a semicolon. What is read without an error in front of the
semicolon is read in the same way when more follows: no expression ends on a semicolon, so each one
of them still has a token behind it when it ends. -/

namespace LetFn

/-- The kinds of token that an expression can end with. -/
def Kind.endsExpression : Kind → Bool
  | ident | int | trueWord | falseWord | rparen | rbrace => true
  | _ => false

namespace Grammar

def EndsExpression (w : List Token) : Prop :=
  ∃ t, w.getLast? = some t ∧ t.kind.endsExpression = true

namespace EndsExpression

variable {w : List Token} {t : Token}

theorem single (ht : t.kind.endsExpression = true) : EndsExpression [t] := ⟨t, rfl, ht⟩

theorem append (h : EndsExpression w) (v : List Token) : EndsExpression (v ++ w) := by
  obtain ⟨t, hw, ht⟩ := h
  exact ⟨t, by rw [List.getLast?_append, hw, Option.some_or], ht⟩

theorem cons (h : EndsExpression w) (t : Token) : EndsExpression (t :: w) := h.append [t]

end EndsExpression

theorem Braced.ends {w : List Token} {b : Block} (d : Braced w b) : EndsExpression w := by
  cases d with
  | @mk l r w ss _ hr _ =>
    have close : EndsExpression [r] := .single (by simp [hr, Kind.endsExpression])
    exact (close.append w).cons l

open EndsExpression in
theorem Expression.ends {w : List Token} {e : Expr} (d : Expression w e) : EndsExpression w :=
  match d with
  | .ident hk | .int hk _ | .trueWord hk | .falseWord hk =>
    .single (by simp [hk, Kind.endsExpression])
  | .unary _ d => d.ends.cons _
  | .binary _ _ d => (d.ends.cons _).append _
  | .paren _ hr _ => ((single (by simp [hr, Kind.endsExpression])).append _).cons _
  | .call _ hr _ _ => (((single (by simp [hr, Kind.endsExpression])).append _).cons _).append _
  | .cond _ _ _ _ b | .fn _ _ _ _ b => (((b.ends.cons _).append _).cons _).cons _
  | .condElse _ _ _ _ _ _ b => (((((b.ends.cons _).append _).cons _).append _).cons _).cons _

end Grammar

namespace Cursor

variable {r c c₁ : Cursor} {w : List Token}

/-- Reading that stopped on another token than a semicolon has not come to the last one. -/
theorem Terminated.of_reads (h : c.Terminated) (reads : c.Reads w c₁)
    (ends : Grammar.EndsExpression w) : c₁.Terminated ∧ c₁.tokens.tail ≠ [] := by
  obtain ⟨t, last, ht⟩ := ends
  obtain rfl : c₁.current = t := Option.some.inj (reads.last.symm.trans last)
  have notEnd : c₁.current.kind ≠ .eof := by
    intro hk
    simp [hk, Kind.endsExpression] at ht
  have notSemicolon : c₁.current.kind ≠ .semicolon := by
    intro hk
    simp [hk, Kind.endsExpression] at ht
  obtain ⟨v, rfl⟩ := List.getLast?_eq_some_iff.1 last
  have split : c.tokens = v ++ c₁.tokens := by
    rw [tokens_eq_cons notEnd, reads.tokens, List.append_assoc, List.singleton_append]
  have rest : c₁.Terminated := h.suffix split (by rw [tokens_eq_cons notEnd]; simp)
  exact ⟨rest, rest.more notSemicolon⟩

end Cursor

namespace Outcome

variable {α : Type} {r c : Cursor}

/-- The runs have not parted if the first one ended in front of its last token. -/
theorem Parts.eq_ok {v : α} {es : List ParseError} {o' : Outcome α}
    (h : (Outcome.ok v c es).Parts r o') (more : c.tokens.tail ≠ []) :
    o' = Outcome.ok v (c.append r) es := by
  generalize ho : Outcome.ok v c es = o at h
  cases h with
  | ok =>
    cases ho
    rfl
  | error => cases ho
  | @ended ds o o' ended =>
    cases o with
    | ok =>
      cases ho
      exact (more ended.1).elim
    | error | outOfFuel => cases ho

end Outcome

namespace Parser

open Outcome Cursor

variable {r c c' : Cursor}

theorem expression_append {n : Nat} {floor : Precedence} {e : Expr} (hc : c.Terminated)
    (h : expression n floor c = .ok e c' []) :
    c'.Terminated ∧ c'.tokens.tail ≠ [] ∧
      expression n floor (c.append r) = .ok e (c'.append r) [] := by
  obtain ⟨w, reads, d⟩ := expression_sound h
  obtain ⟨rest, more⟩ := hc.of_reads reads d.ends
  have parts := expression_parts (r := r) n floor c
  rw [h] at parts
  exact ⟨rest, more, parts.eq_ok more⟩

/-- At the end of the tokens there is no expression. -/
theorem ne_nil_of_expression {n : Nat} {floor : Precedence} {e : Expr}
    (h : expression n floor c = .ok e c' []) : c.tokens ≠ [] := by
  intro none
  have cut := expression_cut n floor none
  rw [h] at cut
  exact cut

/-- How every statement ends: with an expression, and a semicolon if there is one. -/
theorem ending_append {n : Nat} {f : Expr → Token → Stmt} {s : Stmt} (hc : c.Terminated)
    (h : (expression n .lowest c).bind (fun value c =>
      .ok (f value c.skipSemicolon.current) c.skipSemicolon []) = .ok s c' []) :
    c'.Terminated ∧
      (expression n .lowest (c.append r)).bind (fun value c =>
        .ok (f value c.skipSemicolon.current) c.skipSemicolon []) = .ok s (c'.append r) [] := by
  obtain ⟨value, c₁, hvalue, h⟩ := bind_eq_ok.1 h
  obtain ⟨rest, more, joined⟩ := expression_append (r := r) hc hvalue
  cases h
  refine ⟨rest.skipSemicolon, bind_eq_ok.2 ⟨value, c₁.append r, joined, ?_⟩⟩
  rw [skipSemicolon_append more, current_append (skipSemicolon_ne_nil more)]

theorem binding_append {n : Nat} {s : Stmt} (hc : c.Terminated)
    (h : binding n c = .ok s c' []) :
    c'.Terminated ∧ binding n (c.append r) = .ok s (c'.append r) [] := by
  cases n with
  | zero => cases h
  | succ n =>
    simp only [binding] at h ⊢
    obtain ⟨hname, h⟩ := expect_bind_eq_ok.1 h
    obtain ⟨hassign, h⟩ := expect_bind_eq_ok.1 h
    obtain ⟨value, c₁, hvalue, -⟩ := bind_eq_ok.1 h
    have more₂ : c.advance.advance.tokens.tail ≠ [] := ne_nil_of_expression hvalue
    have more₁ : c.advance.tokens.tail ≠ [] := ne_nil_of_tail more₂
    have more : c.tokens.tail ≠ [] := ne_nil_of_tail more₁
    obtain ⟨rest, joined⟩ := ending_append (r := r)
      (f := fun value t => .bind c.current ⟨c.peek, c.peek.literal⟩ value
        ⟨c.current.span.start, t.span.stop⟩)
      (((hc.advance more).advance more₁).advance more₂) h
    refine ⟨rest, expect_bind_eq_ok.2 ⟨?_, expect_bind_eq_ok.2 ⟨?_, ?_⟩⟩⟩
    · rw [peek_append more, hname]
    · rw [advance_append hc.ne_nil, peek_append more₁, hassign]
    · rw [current_append hc.ne_nil, peek_append more, advance_append hc.ne_nil,
        advance_append more, advance_append more₁]
      exact joined

theorem ret_append {n : Nat} {s : Stmt} (hc : c.Terminated) (h : ret n c = .ok s c' []) :
    c'.Terminated ∧ ret n (c.append r) = .ok s (c'.append r) [] := by
  cases n with
  | zero => cases h
  | succ n =>
    simp only [ret] at h ⊢
    obtain ⟨value, c₁, hvalue, -⟩ := bind_eq_ok.1 h
    rw [current_append hc.ne_nil, advance_append hc.ne_nil]
    exact ending_append (f := fun value t => .ret c.current value
      ⟨c.current.span.start, t.span.stop⟩) (hc.advance (ne_nil_of_expression hvalue)) h

theorem expressionStatement_append {n : Nat} {s : Stmt} (hc : c.Terminated)
    (h : expressionStatement n c = .ok s c' []) :
    c'.Terminated ∧ expressionStatement n (c.append r) = .ok s (c'.append r) [] := by
  cases n with
  | zero => cases h
  | succ n =>
    simp only [expressionStatement] at h ⊢
    rw [current_append hc.ne_nil]
    exact ending_append (f := fun value t => .expr c.current value
      ⟨c.current.span.start, t.span.stop⟩) hc h

theorem statement_append {n : Nat} {s : Stmt} (hc : c.Terminated)
    (h : statement n c = .ok s c' []) :
    c'.Terminated ∧ statement n (c.append r) = .ok s (c'.append r) [] := by
  cases n with
  | zero => cases h
  | succ n =>
    simp only [statement] at h ⊢
    rw [current_append hc.ne_nil]
    split at h
    · exact binding_append hc h
    · exact ret_append hc h
    · exact expressionStatement_append hc h

/-- Statements read without an error up to the end are read in front of `r`, and `r` after them. -/
theorem statements_resumes_of_ok {n : Nat} {closes : Kind → Bool} {ss : List Stmt}
    (hcloses : ∀ kind, closes kind = true ↔ kind = .eof) (hc : c.tokens = [] ∨ c.Terminated)
    (h : statements n closes c = .ok ss c' []) :
    (Outcome.ok ss c' []).Resumes (fun m => statements m closes r)
      (statements n closes (c.append r)) := by
  induction n generalizing c ss with
  | zero => cases h
  | succ n ih =>
    rcases hc with none | hc
    · have closed : closes c.current.kind = true := (hcloses _).2 (current_of_nil none)
      rw [statements, if_pos closed] at h
      cases h
      rw [append_of_nil none]
      exact .start (n + 1)
    · have opened : ¬ closes c.current.kind = true := by
        rw [hcloses]
        exact hc.noEnd _ hc.current_mem
      rw [statements_succ, if_neg opened] at h
      rw [statements_succ, current_append hc.ne_nil, if_neg opened]
      cases first : statement n c with
      | ok s c₁ dropped =>
        rw [first, thenRest] at h
        obtain ⟨rfl, tail⟩ := after_eq_ok.1 h
        obtain ⟨rest, hrest, rfl⟩ := map_eq_ok.1 tail
        obtain ⟨next, joined⟩ := statement_append (r := r) hc first
        rw [joined, thenRest, after_nil, advance_append next.ne_nil]
        exact (ih next.advance_or hrest).cons s
      | error cause c₁ dropped =>
        rw [first] at h
        simpa using (after_eq_ok.1 h).1
      | outOfFuel =>
        rw [first] at h
        cases h

/-- The token that marks the end is not needed, and more fuel does no harm. -/
theorem statements_without_eof {w : List Token} {stop m : Nat} {ss : List Stmt} {c : Cursor}
    (hm : fuel (.ofTokens (w ++ [.eof stop])) ≤ m)
    (h : program (.ofTokens (w ++ [.eof stop])) = .ok ss c []) :
    ∃ c', statements m (· = .eof) (⟨w, stop⟩ : Cursor) = .ok ss c' [] := by
  have moves : (Cursor.ofTokens (w ++ [.eof stop])).Moves id (⟨w, stop⟩ : Cursor) := by
    intro i
    rw [ofTokens_concat_eof, token_concat_eof]
    rfl
  have same := statements_moves Cursor.moves_follows m (· = .eof) moves
  have ends : program (.ofTokens (w ++ [.eof stop])) ≠ .outOfFuel := by simp [h]
  have whole : statements m (· = .eof) (.ofTokens (w ++ [.eof stop])) = .ok ss c [] :=
    ((statements_below hm _ _).eq ends).symm.trans h
  rw [whole] at same
  generalize ho : statements m (· = .eof) (⟨w, stop⟩ : Cursor) = o at same
  cases same with
  | ok => exact ⟨_, by rw [map_move_id, List.map_nil]⟩

end Parser

/-- What is read without an error up to a semicolon is read in front of whatever follows, and what
follows is read as if it stood alone. -/
theorem parseTokens_append_of_accepted {w u : List Token} {stop : Nat} (hu : u ≠ [])
    (accepted : (parseTokens (w ++ [.eof stop])).errors = []) (noEnd : ∀ t ∈ w, t.kind ≠ .eof)
    (last : ∀ t ∈ w.getLast?, t.kind = .semicolon) :
    (parseTokens (w ++ u)).program.statements =
        (parseTokens (w ++ [.eof stop])).program.statements ++ (parseTokens u).program.statements ∧
      (parseTokens (w ++ u)).errors = (parseTokens u).errors := by
  let r : Cursor := ⟨u, (Cursor.ofTokens (w ++ u)).stop⟩
  obtain ⟨ss, c, es, whole⟩ := Parser.exists_program_eq_ok (.ofTokens (w ++ u))
  obtain ⟨ss₁, c₁, es₁, first⟩ := Parser.exists_program_eq_ok (.ofTokens (w ++ [.eof stop]))
  obtain rfl : es₁ = [] := by simpa [parseTokens, Parser.read, first] using accepted
  have enough : Parser.fuel (.ofTokens (w ++ [.eof stop])) ≤ Parser.fuel (.ofTokens (w ++ u)) := by
    have some := List.length_pos_iff.2 hu
    simp only [Parser.fuel_ofTokens, List.length_append, List.length_singleton]
    omega
  obtain ⟨c', alone⟩ := Parser.statements_without_eof enough first
  have front : w = [] ∨ (⟨w, stop⟩ : Cursor).Terminated := by
    by_cases hw : w = []
    · exact .inl hw
    · have ending := List.getLast?_eq_some_getLast hw
      refine .inr ⟨?_, noEnd⟩
      simp only [ending, Option.map_some, last _ ending]
  have resumes : (Outcome.ok ss₁ c' []).Resumes (fun m => Parser.statements m (· = .eof) r)
      (Parser.program (.ofTokens (w ++ u))) :=
    Parser.statements_resumes_of_ok (by simp) front alone
  rw [whole] at resumes
  obtain ⟨-, m, ss₂, es₂, second, rfl, rfl⟩ := resumes.exists_of_ok
  have here : r = .ofTokens u := Cursor.mk_stop_append w hu
  rw [here] at second
  rw [Parser.parseTokens_eq_of_statements second, Parser.parseTokens_eq_of_statements first,
    Parser.parseTokens_eq_of_statements whole]
  exact ⟨rfl, rfl⟩

end LetFn
