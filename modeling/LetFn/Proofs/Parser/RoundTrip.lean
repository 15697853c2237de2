import LetFn.Proofs.Grammar.Chain
import LetFn.Proofs.Parser.Progress
import LetFn.Proofs.Parser.WellFormed
import LetFn.Proofs.Parser.Yields
import LetFn.Proofs.Program.Relabel
import LetFn.Proofs.Program.Words

/-! Reading undoes writing: a well-formed statement that is written and read again is the same
statement, apart from tokens and places. -/

namespace LetFn

/-! ### Words in front of a cursor -/

namespace Cursor

variable {c : Cursor} {kind : Kind} {literal : String} {ws : List (Kind × String)}

def words (c : Cursor) : List (Kind × String) := c.tokens.map Token.word

theorem current_word (h : c.words = (kind, literal) :: ws) :
    c.current.kind = kind ∧ c.current.literal = literal := by
  obtain ⟨tokens, stop⟩ := c
  cases tokens with
  | nil => cases h
  | cons t ts => exact Prod.mk.inj (List.cons.inj h).1

theorem advance_words (h : c.words = (kind, literal) :: ws) : c.advance.words = ws := by
  obtain ⟨tokens, stop⟩ := c
  cases tokens with
  | nil => cases h
  | cons t ts => exact (List.cons.inj h).2

theorem peek_word (h : c.advance.words = (kind, literal) :: ws) :
    c.peek.kind = kind ∧ c.peek.literal = literal :=
  current_word (c := c.advance) h

theorem peek_kind_eq_eof (h : c.advance.words = []) : c.peek.kind = .eof := by
  have none : c.advance.tokens = [] := List.map_eq_nil_iff.1 h
  rw [peek, current_eq_headD, none]
  rfl

end Cursor

/-- The first word, if there is one, neither goes on with an expression nor is an `else`. -/
def Closing (ws : List (Kind × String)) : Prop :=
  ∃ kind literal rest, ws = (kind, literal) :: rest ∧ Precedence.ofKind kind = .lowest ∧
    kind ≠ .elseWord

/-- In front of `ws` an expression with this floor ends, whatever it is. -/
def Halts (floor : Precedence) (ws : List (Kind × String)) : Prop :=
  ∀ p ∈ ws.head?, (Precedence.ofKind p.1).rank ≤ floor.rank ∧ p.1 ≠ .elseWord

section

variable {floor : Precedence} {ws : List (Kind × String)}

theorem Halts.mono {floor' : Precedence} (halts : Halts floor ws)
    (le : floor.rank ≤ floor'.rank) : Halts floor' ws :=
  fun p hp => ⟨Nat.le_trans (halts p hp).1 le, (halts p hp).2⟩

theorem Halts.ne_elseWord (halts : Halts floor ws) : ∀ p ∈ ws.head?, p.1 ≠ .elseWord :=
  fun p hp => (halts p hp).2

theorem Halts.not_lt {c : Cursor} (halts : Halts floor ws) (hc : c.advance.words = ws) :
    ¬ floor < c.peekPrecedence := by
  cases ws with
  | nil =>
    rw [Cursor.peekPrecedence, Cursor.peek_kind_eq_eof hc]
    exact Nat.not_lt_zero _
  | cons p ws =>
    rw [Cursor.peekPrecedence, (Cursor.peek_word hc).1]
    exact Nat.not_lt.2 (halts p rfl).1

theorem Closing.halts (h : Closing ws) : Halts floor ws := by
  obtain ⟨kind, literal, rest, rfl, lowest, not_else⟩ := h
  intro p hp
  obtain rfl : (kind, literal) = p := Option.some.inj hp
  exact ⟨lowest ▸ Nat.zero_le _, not_else⟩

theorem Closing.ne_elseWord (h : Closing ws) : ∀ p ∈ ws.head?, p.1 ≠ .elseWord :=
  (h.halts : Halts .lowest ws).ne_elseWord

end

theorem closing_rparen (ws : List (Kind × String)) : Closing ((.rparen, ")") :: ws) :=
  ⟨_, _, _, rfl, rfl, by decide⟩

theorem closing_comma (ws : List (Kind × String)) : Closing ((.comma, ",") :: ws) :=
  ⟨_, _, _, rfl, rfl, by decide⟩

theorem closing_eof : Closing [(.eof, "")] := ⟨_, _, _, rfl, rfl, by decide⟩

theorem closing_semicolon (ws : List (Kind × String)) : Closing ((.semicolon, ";") :: ws) :=
  ⟨_, _, _, rfl, rfl, by decide⟩

/-- Behind the words of a statement stand `ws`, and `rest` behind the semicolon that it takes. -/
def Stmt.Leaves (ws rest : List (Kind × String)) : Stmt → Prop
  | .bind _ _ _ _ | .ret _ _ _ => ws = rest
  | .expr _ _ _ => ws = (.semicolon, ";") :: rest ∨ ws = rest ∧ rest = [(.eof, "")]

namespace Parser

open Outcome Cursor

/-- The result is `e` apart from tokens and places, and `rest` is left behind it. -/
def Rereads (e : Expr) (rest : List (Kind × String)) (e' : Expr) (c : Cursor) : Prop :=
  e'.erase = e.erase ∧ c.advance.words = rest

theorem climb_of_halts {floor : Precedence} {rest : List (Kind × String)} {n : Nat} {left : Expr}
    {c : Cursor} (halts : Halts floor rest) (hc : c.advance.words = rest) :
    climb (n + 1) floor left c = .ok left c [] := by
  rw [climb, if_neg (halts.not_lt hc)]

theorem climb_yields_of_halts {e : Expr} {rest : List (Kind × String)} {floor : Precedence}
    (halts : Halts floor rest) (n : Nat) (left : Expr) (c : Cursor) (h : Rereads e rest left c) :
    (climb n floor left c).Yields (Rereads e rest) := by
  cases n with
  | zero => trivial
  | succ n =>
    rw [climb_of_halts halts h.2]
    exact ⟨rfl, h⟩

theorem expression_yields_of_operand {n : Nat} {floor : Precedence} {c : Cursor}
    {G H : Expr → Cursor → Prop} (ho : ∀ n, (operand (n + 1) c).Yields G)
    (hf : ∀ n e' c', G e' c' → (climb n floor e' c').Yields H) :
    (expression n floor c).Yields H :=
  match n with
  | 0 | 1 => trivial
  | n + 2 => (ho n).bind (hf (n + 1))

/-! ### Operators, and the first word of an expression -/

theorem operatorKind_unary {operator : String} (h : operator ∈ unaryOperators) :
    operatorKind operator = .bang ∨ operatorKind operator = .minus := by
  simp only [unaryOperators, List.mem_cons, List.not_mem_nil, or_false] at h
  rcases h with rfl | rfl
  · exact .inl (by decide)
  · exact .inr (by decide)

theorem operatorKind_binary {operator : String} (h : operator ∈ binaryOperators) :
    (operatorKind operator).isBinary = true := by
  simp only [binaryOperators, List.mem_cons, List.not_mem_nil, or_false] at h
  rcases h with rfl | rfl | rfl | rfl | rfl | rfl | rfl | rfl <;> decide

theorem precedence_of_isBinary {kind : Kind} (h : kind.isBinary = true) :
    kind ≠ .lparen ∧ kind ≠ .elseWord ∧ Precedence.lowest < .ofKind kind ∧
      Precedence.ofKind kind < .call := by
  cases kind <;> first | exact absurd h (by decide) | decide

theorem exists_head_words (e : Expr) :
    ∃ kind literal ws, e.words = (kind, literal) :: ws ∧ kind.beginsOperand = true :=
  match e with
  | .ident _ | .int _ _ | .bool _ true | .bool _ false | .unary _ _ _ _ | .binary _ _ _ _ _ |
    .cond _ _ _ _ _ | .fn _ _ _ _ => ⟨_, _, _, by simp only [Expr.words]; rfl, rfl⟩
  | .call _ callee arguments _ => by
    obtain ⟨kind, literal, ws, hw, hk⟩ := exists_head_words callee
    exact ⟨kind, literal, _, by rw [Expr.words, hw]; rfl, hk⟩

theorem peekIs_rparen_of_words {c : Cursor} {e : Expr} {rest : List (Kind × String)}
    (hc : c.advance.words = e.words ++ rest) : ¬ c.peekIs .rparen = true := by
  obtain ⟨kind, literal, ws, hw, hk⟩ := exists_head_words e
  rw [hw] at hc
  intro h
  rw [peekIs_iff, (peek_word hc).1] at h
  rw [h] at hk
  cases hk

theorem peek_brace {c : Cursor} {b : LetFn.Block} {rest : List (Kind × String)}
    (hc : c.advance.words = b.words ++ rest) : c.peek.kind = .lbrace := by
  cases b with
  | mk t ss s =>
    rw [Block.words] at hc
    exact (peek_word hc).1

theorem peekIs_elseWord {c : Cursor} {rest : List (Kind × String)} (hc : c.advance.words = rest)
    (h : ∀ p ∈ rest.head?, p.1 ≠ .elseWord) : ¬ c.peekIs .elseWord = true := by
  rw [peekIs_iff]
  cases rest with
  | nil => simp [peek_kind_eq_eof hc]
  | cons p rest =>
    rw [(peek_word hc).1]
    exact h p rfl

theorem exists_head_stmtWords (s : Stmt) :
    ∃ kind literal ws, s.words = (kind, literal) :: ws ∧ Grammar.beginsStatement kind = true := by
  cases s with
  | bind | ret => exact ⟨_, _, _, by rw [Stmt.words], rfl⟩
  | expr t value s =>
    obtain ⟨kind, literal, ws, hw, hk⟩ := exists_head_words value
    exact ⟨kind, literal, ws, by rw [Stmt.words, hw], by simp [Grammar.beginsStatement, hk]⟩

/-- A statement takes the semicolon behind it, and not the end of the text. -/
theorem skipSemicolon_words {c : Cursor} {ws rest : List (Kind × String)}
    (hc : c.advance.words = ws)
    (h : ws = (.semicolon, ";") :: rest ∨ ws = rest ∧ rest = [(.eof, "")]) :
    c.skipSemicolon.advance.words = rest := by
  rcases h with rfl | ⟨rfl, rfl⟩
  · rw [skipSemicolon, if_pos (peekIs_iff.2 (peek_word hc).1)]
    exact advance_words hc
  · rw [skipSemicolon, if_neg (by simp [peekIs, (peek_word hc).1])]
    exact hc

/-- What begins an operand begins a statement that is an expression. -/
theorem statement_yields_of_expression {n : Nat} {c : Cursor} {G : Expr → Cursor → Prop}
    (begins : c.current.kind.beginsOperand = true)
    (value : ∀ n, (expression n .lowest c).Yields G) :
    (statement n c).Yields fun s c' =>
      ∃ token e span c₁, s = .expr token e span ∧ G e c₁ ∧ c' = c₁.skipSemicolon := by
  cases n with
  | zero => trivial
  | succ n =>
    simp only [statement]
    split
    · next hl => simp [hl, Kind.beginsOperand] at begins
    · next hr => simp [hr, Kind.beginsOperand] at begins
    cases n with
    | zero => trivial
    | succ n =>
      simp only [expressionStatement]
      exact (value n).bind fun e c₁ h => ⟨rfl, _, e, _, c₁, rfl, h, rfl⟩

/-! ### Expressions and blocks -/

theorem parameters_reread (names : List Ident) {n : Nat} {c : Cursor}
    {rest : List (Kind × String)}
    (hc : c.advance.words =
      commas (names.map fun p => [(.ident, p.name)]) ++ (.rparen, ")") :: rest) :
    (parameters n c).Yields fun names' c' =>
      names'.map Ident.erase = names.map Ident.erase ∧ c'.advance.words = rest := by
  induction n generalizing c names with
  | zero => trivial
  | succ n ih =>
    simp only [parameters]
    cases names with
    | nil =>
      rw [if_pos (peekIs_iff.2 (peek_word hc).1)]
      exact ⟨rfl, rfl, advance_words hc⟩
    | cons p names =>
      cases names with
      | nil =>
        have hp := peek_word hc
        have hc' := advance_words hc
        have hr := (peek_word hc').1
        rw [if_neg (by simp [peekIs, hp])]
        refine yields_expect_bind hp.1 ?_
        rw [if_neg (by simp [peekIs, hr])]
        refine yields_expect_map hr ⟨?_, advance_words hc'⟩
        simp [hp, Ident.erase, Ident.relabel]
      | cons q names =>
        have hp := peek_word hc
        have hc' := advance_words hc
        have hm := (peek_word hc').1
        rw [if_neg (by simp [peekIs, hp])]
        refine yields_expect_bind hp.1 ?_
        rw [if_pos (peekIs_iff.2 hm)]
        refine yields_map.2 ((ih (q :: names) (advance_words hc')).mono ?_)
        rintro names' c' ⟨hn, hr⟩
        refine ⟨?_, hr⟩
        rw [List.map_cons, hn, Ident.erase_mk, hp.2]
        rfl

mutual

/-- Calls are read by going on, so what follows the expression is left to the caller to go on
with. -/
theorem expression_rereads (e : Expr) (h : e.WellFormed) {n : Nat} {floor : Precedence}
    {c : Cursor} {rest : List (Kind × String)} {G : Expr → Cursor → Prop}
    (hc : c.words = e.words ++ rest) (hf : floor < .call)
    (he : ∀ p ∈ rest.head?, p.1 ≠ .elseWord)
    (climbs : ∀ n e' c', Rereads e rest e' c' → (climb n floor e' c').Yields G) :
    (expression n floor c).Yields G :=
  match e, h with
  | .ident name, h => by
    refine expression_yields_of_operand (fun n => ?_) climbs
    have word := current_word hc
    simp only [operand, word.1]
    refine ⟨rfl, ?_, advance_words hc⟩
    rw [Expr.erase_ident, Expr.erase_ident, Ident.erase_mk, word.2]
    rfl
  | .int _ value, h => by
    refine expression_yields_of_operand (fun n => ?_) climbs
    have word := current_word hc
    simp only [operand, word.1, integer, word.2, Decimal.toInt64?_ofInt h]
    refine ⟨rfl, ?_, advance_words hc⟩
    rw [Expr.erase_int, Expr.erase_int]
  | .bool _ true, _ => by
    refine expression_yields_of_operand (fun n => ?_) climbs
    simp only [operand, (current_word hc).1]
    exact ⟨rfl, rfl, advance_words hc⟩
  | .bool _ false, _ => by
    refine expression_yields_of_operand (fun n => ?_) climbs
    simp only [operand, (current_word hc).1]
    exact ⟨rfl, rfl, advance_words hc⟩
  | .unary t operator right s, ⟨ho, h⟩ => by
    refine expression_yields_of_operand (fun n => ?_) climbs
    have all : c.words = (.lparen, "(") :: (operatorKind operator, operator) ::
        (right.words ++ (.rparen, ")") :: rest) := by simpa [Expr.words] using hc
    have word := current_word (c := c.advance) (advance_words all)
    have hr := advance_words (c := c.advance) (advance_words all)
    have inner : (expression n .lowest c.advance).Yields
        (Rereads (.unary t operator right s) ((.rparen, ")") :: rest)) := by
      refine expression_yields_of_operand (fun n => ?_)
        (climb_yields_of_halts (closing_rparen rest).halts)
      have right' : (expression n .unary c.advance.advance).Yields
          (Rereads right ((.rparen, ")") :: rest)) :=
        expression_rereads right h hr (by decide) (closing_rparen rest).ne_elseWord
          (climb_yields_of_halts (closing_rparen rest).halts)
      rw [operand_unary (by rw [word.1]; exact operatorKind_unary ho)]
      refine right'.bind fun e' c' h => ⟨rfl, ?_, h.2⟩
      rw [Expr.erase_unary, Expr.erase_unary, h.1, word.2]
    simp only [operand, (current_word all).1]
    apply inner.bind
    intro e' c' h
    exact yields_expect_map (peek_word h.2).1 ⟨h.1, advance_words h.2⟩
  | .binary t left operator right s, ⟨ho, hl, hr⟩ => by
    refine expression_yields_of_operand (fun n => ?_) climbs
    have all : c.words = (.lparen, "(") :: (left.words ++ (operatorKind operator, operator) ::
        (right.words ++ (.rparen, ")") :: rest)) := by simpa [Expr.words] using hc
    obtain ⟨not_call, not_else, above, below⟩ :=
      precedence_of_isBinary (operatorKind_binary ho)
    have inner : (expression n .lowest c.advance).Yields
        (Rereads (.binary t left operator right s) ((.rparen, ")") :: rest)) := by
      refine expression_rereads left hl (advance_words all) (by decide) (by simpa using not_else)
        fun n left' c' h => ?_
      cases n with
      | zero => trivial
      | succ n =>
        have word := peek_word h.2
        have hr' := advance_words (c := c'.advance) h.2
        simp only [climb, peekPrecedence, word.1]
        rw [if_pos above, if_neg not_call]
        have right' : (expression n (.ofKind (operatorKind operator)) c'.advance.advance).Yields
            (Rereads right ((.rparen, ")") :: rest)) :=
          expression_rereads right hr hr' below (closing_rparen rest).ne_elseWord
            (climb_yields_of_halts (closing_rparen rest).halts)
        apply right'.bind
        intro e' c'' h'
        refine climb_yields_of_halts (closing_rparen rest).halts _ _ _ ⟨?_, h'.2⟩
        rw [Expr.erase_binary, Expr.erase_binary, h.1, h'.1, word.2]
    simp only [operand, (current_word all).1]
    apply inner.bind
    intro e' c' h
    exact yields_expect_map (peek_word h.2).1 ⟨h.1, advance_words h.2⟩
  | .cond t test consequence alternative s, ⟨ht, hb, ha⟩ => by
    refine expression_yields_of_operand (fun n => ?_) climbs
    have all : c.words = (.ifWord, "if") :: (.lparen, "(") :: (test.words ++ (.rparen, ")") ::
        (consequence.words ++ (elseWords alternative ++ rest))) := by
      simpa [Expr.words] using hc
    have hl := advance_words all
    simp only [operand, (current_word all).1]
    cases n with
    | zero => trivial
    | succ n =>
      simp only [conditional]
      refine yields_expect_bind (peek_word hl).1 ?_
      have closing := closing_rparen (consequence.words ++ (elseWords alternative ++ rest))
      have test' : (expression n .lowest c.advance.advance).Yields (Rereads test _) :=
        expression_rereads test ht (advance_words hl) (by decide) closing.ne_elseWord
          (climb_yields_of_halts closing.halts)
      apply test'.bind
      intro e' c₁ h₁
      have hbr := advance_words (c := c₁.advance) h₁.2
      refine yields_expect_bind (peek_word h₁.2).1 ?_
      refine yields_expect_bind (peek_brace hbr) ?_
      apply (block_rereads consequence hb hbr).bind
      intro b' c₂ h₂
      cases alternative with
      | none =>
        have hrest : c₂.advance.words = rest := by simpa [elseWords] using h₂.2
        rw [if_neg (peekIs_elseWord hrest he)]
        refine ⟨rfl, ?_, hrest⟩
        rw [Expr.erase_cond, Expr.erase_cond, h₁.1, h₂.1]
      | some alternative =>
        have helse : c₂.advance.words = (.elseWord, "else") :: (alternative.words ++ rest) := by
          simpa [elseWords] using h₂.2
        have halt := advance_words helse
        rw [if_pos (peekIs_iff.2 (peek_word helse).1)]
        refine yields_expect_bind (peek_brace halt) ?_
        refine yields_map.2 ((block_rereads alternative ha halt).mono fun b'' c₃ h₃ => ⟨?_, h₃.2⟩)
        rw [Expr.erase_cond, Expr.erase_cond, h₁.1, h₂.1, eraseElse_some, eraseElse_some, h₃.1]
  | .fn t names body s, ⟨hk, hn, hb⟩ => by
    refine expression_yields_of_operand (fun n => ?_) climbs
    have all : c.words = (.fnWord, "fn") :: (.lparen, "(") ::
        (commas (names.map fun p => [(.ident, p.name)]) ++ (.rparen, ")") ::
          (body.words ++ rest)) := by simpa [Expr.words] using hc
    have hl := advance_words all
    simp only [operand, (current_word all).1]
    cases n with
    | zero => trivial
    | succ n =>
      simp only [function]
      refine yields_expect_bind (peek_word hl).1 ?_
      apply (parameters_reread names (advance_words hl)).bind
      intro names' c₁ h₁
      refine yields_expect_bind (peek_brace h₁.2) ?_
      refine yields_map.2 ((block_rereads body hb h₁.2).mono fun b' c₂ h₂ => ⟨?_, h₂.2⟩)
      rw [Expr.erase_fn, Expr.erase_fn, h₁.1, h₂.1]
  | .call t callee args s, ⟨hl, ha⟩ => by
    have all : c.words = callee.words ++ (.lparen, "(") ::
        (commas (argumentWords args) ++ (.rparen, ")") :: rest) := by simpa [Expr.words] using hc
    apply expression_rereads callee hl all hf (by simp)
    intro n callee' c' h
    cases n with
    | zero => trivial
    | succ n =>
      have above : floor < Precedence.ofKind .lparen := hf
      simp only [climb, peekPrecedence, (peek_word h.2).1]
      rw [if_pos above, if_pos trivial]
      apply (arguments_reread args ha (advance_words h.2)).bind
      intro args' c'' h'
      refine climbs _ _ _ ⟨?_, h'.2⟩
      rw [Expr.erase_call, Expr.erase_call, h.1, h'.1]

theorem arguments_reread (es : List Expr) (h : WellFormedArguments es) {n : Nat} {c : Cursor}
    {rest : List (Kind × String)}
    (hc : c.advance.words = commas (argumentWords es) ++ (.rparen, ")") :: rest) :
    (arguments n c).Yields fun es' c' =>
      eraseArguments es' = eraseArguments es ∧ c'.advance.words = rest :=
  match n, es, h with
  | 0, _, _ => trivial
  | n + 1, [], _ => by
    rw [arguments, if_pos (peekIs_iff.2 (peek_word hc).1)]
    exact ⟨rfl, rfl, advance_words hc⟩
  | n + 1, [e], ⟨he, _⟩ => by
    have first : (expression n .lowest c.advance).Yields (Rereads e ((.rparen, ")") :: rest)) :=
      expression_rereads e he hc (by decide) (closing_rparen rest).ne_elseWord
        (climb_yields_of_halts (closing_rparen rest).halts)
    rw [arguments, if_neg (peekIs_rparen_of_words hc)]
    apply first.bind
    intro e' c₁ h₁
    have hr := (peek_word h₁.2).1
    rw [if_neg (by simp [peekIs, hr])]
    refine yields_expect_map hr ⟨?_, advance_words h₁.2⟩
    rw [eraseArguments_cons, eraseArguments_cons, h₁.1]
  | n + 1, e :: e₂ :: es, ⟨he, hes⟩ => by
    have all : c.advance.words = e.words ++ (.comma, ",") ::
        (commas (argumentWords (e₂ :: es)) ++ (.rparen, ")") :: rest) := by
      simpa [argumentWords, commas] using hc
    have closing := closing_comma (commas (argumentWords (e₂ :: es)) ++ (.rparen, ")") :: rest)
    have first : (expression n .lowest c.advance).Yields (Rereads e _) :=
      expression_rereads e he all (by decide) closing.ne_elseWord
        (climb_yields_of_halts closing.halts)
    rw [arguments, if_neg (peekIs_rparen_of_words all)]
    apply first.bind
    intro e' c₁ h₁
    rw [if_pos (peekIs_iff.2 (peek_word h₁.2).1)]
    have more := arguments_reread (e₂ :: es) hes (n := n) (advance_words h₁.2)
    refine yields_map.2 (more.mono fun es' c₂ h₂ => ⟨?_, h₂.2⟩)
    rw [eraseArguments_cons, eraseArguments_cons, h₁.1, h₂.1]

theorem block_rereads (b : LetFn.Block) (h : b.WellFormed) {n : Nat} {c : Cursor}
    {rest : List (Kind × String)} (hc : c.words = b.words ++ rest) :
    (block n c).Yields fun b' c' => b'.erase = b.erase ∧ c'.advance.words = rest :=
  match n, b, h with
  | 0, _, _ => trivial
  | n + 1, .mk t ss s, h => by
    have all : c.words = (.lbrace, "\x7b") :: (bodyWords ss ++ (.rbrace, "\x7d") :: rest) := by
      simpa [Block.words] using hc
    simp only [block]
    apply (body_rereads ss h (advance_words all)).bind
    intro ss' c₁ h₁
    have hr := (current_word h₁.2).1
    rw [if_neg (by simp [hr])]
    refine ⟨rfl, ?_, advance_words h₁.2⟩
    rw [Block.erase_mk, Block.erase_mk, h₁.1]

theorem body_rereads (ss : List Stmt) (h : WellFormedBody ss) {n : Nat} {c : Cursor}
    {rest : List (Kind × String)}
    (hc : c.words = bodyWords ss ++ (.rbrace, "\x7d") :: rest) :
    (statements n (fun kind => kind = .rbrace || kind = .eof) c).Yields fun ss' c' =>
      eraseBody ss' = eraseBody ss ∧ c'.words = (.rbrace, "\x7d") :: rest :=
  match n, ss, h with
  | 0, _, _ => trivial
  | n + 1, [], _ => by
    rw [statements, if_pos (by simp [(current_word hc).1])]
    exact ⟨rfl, rfl, hc⟩
  | n + 1, s :: ss, ⟨hs, hss⟩ => by
    obtain ⟨ws, all, leaves⟩ : ∃ ws, c.words = s.words ++ ws ∧
        s.Leaves ws (bodyWords ss ++ (.rbrace, "\x7d") :: rest) := by
      cases s with
      | expr t value s => exact ⟨_, by simpa [bodyWords, Stmt.words] using hc, .inl rfl⟩
      | bind | ret => exact ⟨_, by simpa [bodyWords] using hc, rfl⟩
    obtain ⟨kind, literal, ws', hw, begins⟩ := exists_head_stmtWords s
    rw [hw] at all
    have opens : ¬ (c.current.kind = .rbrace || c.current.kind = .eof) = true := by
      rw [(current_word all).1]
      intro h
      cases kind <;> simp_all [Grammar.beginsStatement, Kind.beginsOperand]
    rw [← hw] at all
    apply statements_yields_cons opens (statement_rereads s hs all leaves)
    intro s' c₁ h₁
    refine (body_rereads ss hss h₁.2).mono fun ss' c₂ h₂ => ⟨?_, h₂.2⟩
    rw [eraseBody_cons, eraseBody_cons, h₁.1, h₂.1]

theorem statement_rereads (s : Stmt) (h : s.WellFormed) {n : Nat} {c : Cursor}
    {ws rest : List (Kind × String)} (hc : c.words = s.words ++ ws) (leaves : s.Leaves ws rest) :
    (statement n c).Yields fun s' c' => s'.erase = s.erase ∧ c'.advance.words = rest :=
  match n, s, h with
  | 0, _, _ => trivial
  | n + 1, .bind t name value s, ⟨hk, hn, hv⟩ => by
    have all : c.words = (.letWord, "let") :: (.ident, name.name) :: (.assign, "=") ::
        (value.words ++ (.semicolon, ";") :: ws) := by simpa [Stmt.words] using hc
    have hname := advance_words all
    have hassign := advance_words (c := c.advance) hname
    simp only [statement, (current_word all).1]
    cases n with
    | zero => trivial
    | succ n =>
      have closing := closing_semicolon ws
      have value' : (expression n .lowest c.advance.advance.advance).Yields (Rereads value _) :=
        expression_rereads value hv (advance_words (c := c.advance.advance) hassign) (by decide)
          closing.ne_elseWord (climb_yields_of_halts closing.halts)
      simp only [binding]
      refine yields_expect_bind (peek_word hname).1 ?_
      refine yields_expect_bind (peek_word hassign).1 ?_
      refine value'.bind fun e' c' h => ⟨rfl, ?_, ?_⟩
      · rw [Stmt.erase_bind, Stmt.erase_bind, h.1, Ident.erase_mk, (peek_word hname).2]
        rfl
      · rw [skipSemicolon_words h.2 (.inl rfl)]
        exact leaves
  | n + 1, .ret t value s, ⟨hk, hv⟩ => by
    have all : c.words = (.returnWord, "return") :: (value.words ++ (.semicolon, ";") :: ws) := by
      simpa [Stmt.words] using hc
    simp only [statement, (current_word all).1]
    cases n with
    | zero => trivial
    | succ n =>
      have closing := closing_semicolon ws
      have value' : (expression n .lowest c.advance).Yields (Rereads value _) :=
        expression_rereads value hv (advance_words all) (by decide) closing.ne_elseWord
          (climb_yields_of_halts closing.halts)
      simp only [ret]
      refine value'.bind fun e' c' h => ⟨rfl, ?_, ?_⟩
      · rw [Stmt.erase_ret, Stmt.erase_ret, h.1]
      · rw [skipSemicolon_words h.2 (.inl rfl)]
        exact leaves
  | n + 1, .expr t value s, hv => by
    have all : c.words = value.words ++ ws := by simpa [Stmt.words] using hc
    have closing : Closing ws := by
      rcases leaves with rfl | ⟨rfl, rfl⟩
      · exact closing_semicolon rest
      · exact closing_eof
    obtain ⟨kind, literal, ws', hw, hk⟩ := exists_head_words value
    have begins : c.current.kind.beginsOperand = true := by
      rw [hw] at all
      rw [(current_word all).1, hk]
    have value' n : (expression n .lowest c).Yields (Rereads value ws) :=
      expression_rereads value hv all (by decide) closing.ne_elseWord
        (climb_yields_of_halts closing.halts)
    refine (statement_yields_of_expression begins value').mono ?_
    rintro _ _ ⟨token, e, span, c₁, rfl, h, rfl⟩
    refine ⟨?_, skipSemicolon_words h.2 leaves⟩
    rw [Stmt.erase_expr, Stmt.erase_expr, h.1]

end

/-! ### Statements as programs -/

/-- A program is a single statement if nothing is left behind the first. -/
theorem program_yields_single {c : Cursor} {G : Stmt → Prop} (opens : c.current.kind ≠ .eof)
    (first : ∀ n, (statement n c).Yields fun s c' => G s ∧ c'.advance.words = [(.eof, "")]) :
    (program c).Yields fun ss _ => ∃ s, ss = [s] ∧ G s := by
  have fuel_eq : fuel c = (8 * c.size + 7) + 1 := by
    rw [fuel]
    omega
  rw [program, fuel_eq]
  apply statements_yields_cons (by simpa using opens) (first _)
  intro s c₁ h
  have closed : c₁.advance.current.kind = .eof := (current_word h.2).1
  rw [statements, if_pos (by simp [closed])]
  exact ⟨rfl, s, rfl, h.1⟩

/-- So it is if an expression takes everything. -/
theorem program_yields_expression {c : Cursor} {G : Expr → Prop}
    (begins : c.current.kind.beginsOperand = true)
    (whole : ∀ n, (expression n .lowest c).Yields fun e c' =>
      G e ∧ c'.advance.words = [(.eof, "")]) :
    (program c).Yields fun ss _ => ∃ s, ss = [s] ∧
      ∃ token value span, s = .expr token value span ∧ G value := by
  refine program_yields_single (fun eof => by simp [eof, Kind.beginsOperand] at begins) fun n => ?_
  refine (statement_yields_of_expression begins whole).mono ?_
  rintro s _ ⟨token, value, span, c₁, rfl, h, rfl⟩
  exact ⟨⟨token, value, span, rfl, h.1⟩, skipSemicolon_words h.2 (.inr ⟨rfl, rfl⟩)⟩

/-- One written statement, and nothing behind it, is read as one statement. -/
theorem program_rereads (s : Stmt) (h : s.WellFormed) {c : Cursor}
    (hc : c.words = s.words ++ [(.eof, "")]) :
    (program c).Yields fun ss _ => ∃ s', ss = [s'] ∧ s'.erase = s.erase := by
  have leaves : s.Leaves [(.eof, "")] [(.eof, "")] := by
    cases s with
    | expr => exact .inr ⟨rfl, rfl⟩
    | bind | ret => rfl
  obtain ⟨kind, literal, ws, hw, hk⟩ := exists_head_stmtWords s
  have opens : c.current.kind ≠ .eof := by
    rw [hw] at hc
    rw [(current_word hc).1]
    rintro rfl
    cases hk
  exact program_yields_single opens fun n => statement_rereads s h hc leaves

end Parser

/-- A text is read without an error as a single statement if its words are. -/
theorem parse_single {text : String} {G : Stmt → Prop}
    (reads : ∀ c : Cursor, c.words = words text.toList ++ [(.eof, "")] →
      (Parser.program c).Yields fun ss _ => ∃ s, ss = [s] ∧ G s) :
    ∃ s, parse text = ⟨⟨[s]⟩, []⟩ ∧ G s := by
  have yields := reads (.ofTokens (Token.ofChars text.toList)) (Token.map_word_ofChars text.toList)
  obtain ⟨ss, c', es, hp⟩ := Parser.exists_program_eq_ok (.ofTokens (Token.ofChars text.toList))
  rw [hp] at yields
  obtain ⟨rfl, s, rfl, h⟩ := yields
  exact ⟨s, by simp only [parse, parseChars, parseTokens, Parser.read, hp], h⟩

/-- A written statement is read without an error as that statement alone. -/
theorem parse_render {s : Stmt} (h : s.WellFormed) :
    ∃ s', parse s.render = ⟨⟨[s']⟩, []⟩ ∧ s'.erase = s.erase := by
  have text : words s.render.toList = s.words := by
    simpa using s.written h [] Loose.nil
  exact parse_single fun c hc => Parser.program_rereads s h (text ▸ hc)

/-- Whatever is read is well-formed, and whatever is well-formed is read back from its own text:
the same tree apart from tokens and places, which therefore has the same text. -/
theorem wellFormed_and_parse_render :
    (∀ text, ∀ s ∈ (parse text).program.statements, s.WellFormed) ∧
      ∀ s : Stmt, s.WellFormed →
        ∃ s', parse s.render = ⟨⟨[s']⟩, []⟩ ∧ s'.erase = s.erase ∧ s'.render = s.render := by
  have read (text : String) : ∀ s ∈ (parse text).program.statements, s.WellFormed :=
    fun s hs => wellFormed_of_mem_parseChars hs
  refine ⟨read, fun s h => ?_⟩
  obtain ⟨s', hp, he⟩ := parse_render h
  have h' : s'.WellFormed := read s.render s' (by simp [hp])
  exact ⟨s', hp, he, s'.render_eq s h' h he⟩

/-- A function that takes `x` and returns its opposite if it is below 1, called with 2. -/
def application : Stmt :=
  let word (kind : Kind) (literal : String) : Token := ⟨kind, literal, .point 0⟩
  let x : Expr := .ident ⟨word .ident "x", "x"⟩
  let one : Expr := .int (word .int "1") 1
  let opposite : Expr := .unary (word .minus "-") "-" x (.point 0)
  let test : Expr := .binary (word .less "<") x "<" one (.point 0)
  let inner : Block :=
    .mk (word .lbrace "\x7b") [.ret (word .returnWord "return") opposite (.point 0)]
    (.point 0)
  let body : Block := .mk (word .lbrace "\x7b")
    [.expr (word .ifWord "if") (.cond (word .ifWord "if") test inner none (.point 0)) (.point 0)]
    (.point 0)
  .expr (word .fnWord "fn") (.call (word .lparen "(")
    (.fn (word .fnWord "fn") [⟨word .ident "x", "x"⟩] body (.point 0))
    [.int (word .int "2") 2] (.point 0)) (.point 0)

theorem wellFormed_and_parse_render_application :
    application.render = "fn(x) \x7b if ((x < 1)) \x7b return (-x); \x7d; \x7d(2)" ∧
      application.WellFormed ∧
      ∃ s', parse application.render = ⟨⟨[s']⟩, []⟩ ∧ s'.erase = application.erase ∧
        s'.render = application.render := by
  have name : IsName "x" := ⟨⟨'x', [], rfl, by decide, by simp⟩, by decide⟩
  have wellFormed : application.WellFormed := by
    simp [application, Stmt.WellFormed, Expr.WellFormed, Block.WellFormed, WellFormedBody,
      WellFormedElse, WellFormedArguments, unaryOperators, binaryOperators, name]
  exact ⟨by decide, wellFormed, wellFormed_and_parse_render.2 application wellFormed⟩

end LetFn
