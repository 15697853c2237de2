import LetFn.Program.Render
import LetFn.Proofs.Decimal
import LetFn.Proofs.Program.WellFormed

/-! The words that trees are written with, and that a written tree is cut into exactly these. -/

namespace LetFn

/-- The kind of an operator's text. -/
def operatorKind (operator : String) : Kind :=
  (Kind.all.find? fun k => k.text? == some operator).getD .illegal

/-- Lists of words with a comma between one and the next. -/
def commas : List (List (Kind × String)) → List (Kind × String)
  | [] => []
  | [ws] => ws
  | ws :: rest => ws ++ (.comma, ",") :: commas rest

mutual

def Expr.words : Expr → List (Kind × String)
  | .ident name => [(.ident, name.name)]
  | .int _ value => [(.int, Decimal.ofInt value.toInt)]
  | .bool _ value => if value then [(.trueWord, "true")] else [(.falseWord, "false")]
  | .unary _ operator operand _ =>
    (.lparen, "(") :: (operatorKind operator, operator) :: (operand.words ++ [(.rparen, ")")])
  | .binary _ left operator right _ =>
    (.lparen, "(") :: (left.words ++ (operatorKind operator, operator) ::
      (right.words ++ [(.rparen, ")")]))
  | .cond _ test consequence alternative _ =>
    (.ifWord, "if") :: (.lparen, "(") :: (test.words ++ (.rparen, ")") ::
      (consequence.words ++ elseWords alternative))
  | .fn _ parameters body _ =>
    (.fnWord, "fn") :: (.lparen, "(") ::
      (commas (parameters.map fun p => [(.ident, p.name)]) ++ (.rparen, ")") :: body.words)
  | .call _ callee arguments _ =>
    callee.words ++ (.lparen, "(") :: (commas (argumentWords arguments) ++ [(.rparen, ")")])

def elseWords : Option Block → List (Kind × String)
  | none => []
  | some alternative => (.elseWord, "else") :: alternative.words

def argumentWords : List Expr → List (List (Kind × String))
  | [] => []
  | e :: es => e.words :: argumentWords es

def Stmt.words : Stmt → List (Kind × String)
  | .bind _ name value _ =>
    (.letWord, "let") :: (.ident, name.name) :: (.assign, "=") ::
      (value.words ++ [(.semicolon, ";")])
  | .ret _ value _ => (.returnWord, "return") :: (value.words ++ [(.semicolon, ";")])
  | .expr _ value _ => value.words

def Block.words : Block → List (Kind × String)
  | .mk _ statements _ => (.lbrace, "\x7b") :: (bodyWords statements ++ [(.rbrace, "\x7d")])

/-- The words of statements in a block, each closed by a semicolon. -/
def bodyWords : List Stmt → List (Kind × String)
  | [] => []
  | .expr _ value _ :: rest => value.words ++ (.semicolon, ";") :: bodyWords rest
  | s :: rest => s.words ++ bodyWords rest

end

/-! ### Single words -/

/-- A word ends in front of `cs`. -/
def Loose (cs : List Char) : Prop := ∀ c ∈ cs.head?, isWordPart c = false

theorem Loose.nil : Loose [] := by simp [Loose]

@[simp] theorem loose_cons {c : Char} {cs : List Char} :
    Loose (c :: cs) ↔ isWordPart c = false := by
  simp [Loose]

theorem words_isWord {w : String} {cs : List Char} (h : IsWord w) (hr : Loose cs) :
    words (w.toList ++ cs) = ((Kind.ofWord? w).getD .ident, w) :: words cs := by
  obtain ⟨c, ds, hw, hc, hds⟩ := h
  have same : String.ofList (c :: ds) = w := by rw [← hw, String.ofList_toList]
  rw [hw, List.cons_append, words_word hc hds hr, same]

theorem words_name {name : String} {cs : List Char} (h : IsName name) (hr : Loose cs) :
    words (name.toList ++ cs) = (.ident, name) :: words cs := by
  rw [words_isWord h.1 hr, h.2]
  rfl

theorem words_reserved {w : String} {kind : Kind} {cs : List Char}
    (h : Kind.ofWord? w = some kind) (hr : Loose cs) :
    words (w.toList ++ cs) = (kind, w) :: words cs := by
  rw [words_isWord (isWord_of_reserved h) hr, h]
  rfl

theorem words_if {cs : List Char} (hr : Loose cs) :
    words ('i' :: 'f' :: cs) = (.ifWord, "if") :: words cs := by
  simpa using words_reserved (w := "if") (by decide) hr

theorem words_else {cs : List Char} (hr : Loose cs) :
    words ('e' :: 'l' :: 's' :: 'e' :: cs) = (.elseWord, "else") :: words cs := by
  simpa using words_reserved (w := "else") (by decide) hr

theorem words_fn {cs : List Char} (hr : Loose cs) :
    words ('f' :: 'n' :: cs) = (.fnWord, "fn") :: words cs := by
  simpa using words_reserved (w := "fn") (by decide) hr

theorem words_let {cs : List Char} (hr : Loose cs) :
    words ('l' :: 'e' :: 't' :: cs) = (.letWord, "let") :: words cs := by
  simpa using words_reserved (w := "let") (by decide) hr

theorem words_return {cs : List Char} (hr : Loose cs) :
    words ('r' :: 'e' :: 't' :: 'u' :: 'r' :: 'n' :: cs) = (.returnWord, "return") :: words cs := by
  simpa using words_reserved (w := "return") (by decide) hr

theorem words_ofInt {value : Int64} {cs : List Char} (h : 0 ≤ value) (hr : Loose cs) :
    words ((Decimal.ofInt value.toInt).toList ++ cs) =
      (.int, Decimal.ofInt value.toInt) :: words cs := by
  have digits : ∀ c ∈ (Decimal.ofInt value.toInt).toList, c.isDigit = true := by
    rw [Decimal.toList_ofInt h]
    exact Decimal.isDigit_of_mem_toDigits
  cases hd : (Decimal.ofInt value.toInt).toList with
  | nil =>
    rw [Decimal.toList_ofInt h] at hd
    exact (Nat.toDigits_ne_nil hd).elim
  | cons c ds =>
    have same : String.ofList (c :: ds) = Decimal.ofInt value.toInt := by
      rw [← hd, String.ofList_toList]
    rw [hd, List.forall_mem_cons] at digits
    have rest : ∀ d ∈ cs.head?, d.isDigit = false := by
      intro d hd
      have := hr d hd
      simp [isWordPart, Char.isAlphanum] at this
      exact this.1.2
    rw [List.cons_append, words_digits digits.1 digits.2 rest, same]

/-- A symbol that no longer token begins with. -/
theorem words_symbol_of_ne {c : Char} {cs : List Char} (hk : Lexeme.symbol c ≠ .illegal)
    (hc : c ≠ '=') (hc' : c ≠ '!') :
    words (c :: cs) = (Lexeme.symbol c, String.ofList [c]) :: words cs :=
  words_symbol hk (by simp [hc, hc'])

theorem words_assign (cs : List Char) : words ('=' :: ' ' :: cs) = (.assign, "=") :: words cs := by
  rw [words_symbol (by decide) (by simp), words_blank]
  rfl

theorem words_binary {operator : String} {cs : List Char} (h : operator ∈ binaryOperators) :
    words (operator.toList ++ cs) = (operatorKind operator, operator) :: words cs := by
  simp only [binaryOperators, List.mem_cons, List.not_mem_nil, or_false] at h
  rcases h with rfl | rfl | rfl | rfl | rfl | rfl | rfl | rfl <;>
    simp [words_symbol_of_ne, Lexeme.symbol, operatorKind, Kind.all, Kind.text?]

theorem words_unary {operator : String} {cs : List Char} (h : operator ∈ unaryOperators)
    (hcs : cs.head? ≠ some '=') :
    words (operator.toList ++ cs) = (operatorKind operator, operator) :: words cs := by
  simp only [unaryOperators, List.mem_cons, List.not_mem_nil, or_false] at h
  rcases h with rfl | rfl
  · exact words_symbol (by decide) fun _ => hcs
  · simp [words_symbol_of_ne, Lexeme.symbol, operatorKind, Kind.all, Kind.text?]

/-! ### Trees -/

/-- The text `s` is cut into `ws`, whatever follows that does not go on with a word. -/
def Written (s : String) (ws : List (Kind × String)) : Prop :=
  ∀ cs, Loose cs → words (s.toList ++ cs) = ws ++ words cs

theorem Written.words_append {s : String} {ws : List (Kind × String)} {cs : List Char}
    (h : Written s ws) (hr : Loose cs) : words (s.toList ++ cs) = ws ++ words cs :=
  h cs hr

theorem Written.name {name : String} (h : IsName name) : Written name [(.ident, name)] :=
  fun _ hr => words_name h hr

theorem Written.commas {α : Type} {f : α → String} {g : α → List (Kind × String)} {l : List α}
    (h : ∀ a ∈ l, Written (f a) (g a)) :
    Written (commaSeparated (l.map f)) (LetFn.commas (l.map g)) := by
  intro cs hr
  induction l with
  | nil => simp [commaSeparated, LetFn.commas]
  | cons a l ih =>
    obtain ⟨ha, hl⟩ := List.forall_mem_cons.1 h
    cases l with
    | nil => simpa [commaSeparated, LetFn.commas] using ha cs hr
    | cons b l =>
      have rest := ih hl
      simp only [commaSeparated, LetFn.commas, List.map_cons] at rest ⊢
      have split : (", ".intercalate (f a :: f b :: l.map f)).toList ++ cs =
          (f a).toList ++ ',' :: ' ' :: ((", ".intercalate (f b :: l.map f)).toList ++ cs) := by
        simp
      rw [split, ha.words_append (by simp [isWordPart]), words_symbol_of_ne (by decide) (by decide)
        (by decide), words_blank, rest, List.append_assoc]
      rfl

theorem renderArguments_eq_map (es : List Expr) : renderArguments es = es.map Expr.render := by
  induction es with
  | nil => simp [renderArguments]
  | cons e es ih => simp [renderArguments, ih]

theorem argumentWords_eq_map (es : List Expr) : argumentWords es = es.map Expr.words := by
  induction es with
  | nil => simp [argumentWords]
  | cons e es ih => simp [argumentWords, ih]

/-- No expression is written with an equals sign in front, so none turns a `!` into a `!=`. -/
theorem Expr.head_render_ne (e : Expr) (h : e.WellFormed) (cs : List Char) :
    (e.render.toList ++ cs).head? ≠ some '=' :=
  match e, h with
  | .ident name, h => by
    obtain ⟨c, ds, hn, hc, -⟩ := h.1
    rw [Expr.render, hn]
    simp only [List.cons_append, List.head?_cons, ne_eq, Option.some.injEq]
    rintro rfl
    exact absurd hc (by decide)
  | .int _ value, h => by
    rw [Expr.render, Decimal.toList_ofInt h]
    cases hd : Nat.toDigits 10 value.toInt.natAbs with
    | nil => exact (Nat.toDigits_ne_nil hd).elim
    | cons c ds =>
      have hc := Decimal.isDigit_of_mem_toDigits c (hd ▸ List.mem_cons_self)
      exact fun h => Decimal.ne_of_isDigit hc (by decide) (Option.some.inj h)
  | .bool _ true, _ => by simp [Expr.render]
  | .bool _ false, _ => by simp [Expr.render]
  | .unary _ _ _ _, _ => by simp [Expr.render]
  | .binary _ _ _ _ _, _ => by simp [Expr.render]
  | .cond _ _ _ _ _, _ => by simp [Expr.render]
  | .fn _ _ _ _, ⟨hk, _⟩ => by simp [Expr.render, hk]
  | .call _ callee _ _, ⟨hc, _⟩ => by
    rw [Expr.render, String.toList_append, String.toList_append, String.toList_append,
      List.append_assoc, List.append_assoc, List.append_assoc]
    exact callee.head_render_ne hc _

mutual

theorem Expr.written (e : Expr) (h : e.WellFormed) : Written e.render e.words :=
  match e, h with
  | .ident name, h => .name h
  | .int _ value, h => fun cs hr => words_ofInt h hr
  | .bool _ true, _ => fun cs hr => words_reserved (w := "true") (by decide) hr
  | .bool _ false, _ => fun cs hr => words_reserved (w := "false") (by decide) hr
  | .unary _ operator operand _, ⟨ho, h⟩ => by
    intro cs hcs
    have first := words_unary ho (operand.head_render_ne h (')' :: cs))
    simp [Expr.render, Expr.words, words_symbol_of_ne, Lexeme.symbol, isWordPart, first,
      (operand.written h).words_append]
  | .binary _ left operator right _, ⟨ho, hl, hr⟩ => by
    intro cs hcs
    simp [Expr.render, Expr.words, words_symbol_of_ne, Lexeme.symbol, isWordPart,
      (left.written hl).words_append, words_binary ho, (right.written hr).words_append]
  | .cond _ test consequence alternative _, ⟨ht, hc, ha⟩ => by
    intro cs hcs
    simp [Expr.render, Expr.words, words_symbol_of_ne, Lexeme.symbol, isWordPart, words_if,
      (test.written ht).words_append, consequence.written hc, written_else alternative ha]
  | .fn token parameters body _, ⟨hk, hp, hb⟩ => by
    intro cs hcs
    have names : Written (commaSeparated (parameters.map Ident.name))
        (commas (parameters.map fun p => [(.ident, p.name)])) :=
      .commas fun p hp' => .name (hp p hp')
    simp [Expr.render, Expr.words, words_symbol_of_ne, Lexeme.symbol, isWordPart, hk, words_fn,
      names.words_append, body.written hb]
  | .call _ callee arguments _, ⟨hc, ha⟩ => by
    intro cs hcs
    have args := Written.commas (written_arguments arguments ha)
    rw [← renderArguments_eq_map, ← argumentWords_eq_map] at args
    simp [Expr.render, Expr.words, words_symbol_of_ne, Lexeme.symbol, isWordPart,
      (callee.written hc).words_append, args.words_append]

theorem written_arguments (es : List Expr) (h : WellFormedArguments es) :
    ∀ e ∈ es, Written e.render e.words :=
  match es, h with
  | [], _ => by simp
  | e :: es, ⟨he, hes⟩ => List.forall_mem_cons.2 ⟨e.written he, written_arguments es hes⟩

theorem written_else (alternative : Option Block) (h : WellFormedElse alternative)
    (cs : List Char) :
    words ((renderElse alternative).toList ++ cs) = elseWords alternative ++ words cs :=
  match alternative, h with
  | none, _ => by simp [renderElse, elseWords]
  | some alternative, h => by
    simp [renderElse, elseWords, isWordPart, words_else, alternative.written h]

/-- A closing brace ends a block in front of anything. -/
theorem Block.written (b : Block) (h : b.WellFormed) (cs : List Char) :
    words (b.render.toList ++ cs) = b.words ++ words cs :=
  match b, h with
  | .mk _ statements _, h => by
    simp [Block.render, Block.words, words_symbol_of_ne, Lexeme.symbol, written_body statements h]

theorem written_body (ss : List Stmt) (h : WellFormedBody ss) (cs : List Char) :
    words ((renderBody ss).toList ++ cs) = bodyWords ss ++ words cs :=
  match ss, h with
  | [], _ => by simp [renderBody, bodyWords]
  | .expr _ value _ :: rest, ⟨hv, hr⟩ => by
    simp [renderBody, bodyWords, words_symbol_of_ne, Lexeme.symbol, isWordPart,
      (value.written hv).words_append, written_body rest hr]
  | .bind t name value s :: rest, ⟨hs, hr⟩ => by
    simp [renderBody, bodyWords, isWordPart,
      ((Stmt.bind t name value s).written hs).words_append, written_body rest hr]
  | .ret t value s :: rest, ⟨hs, hr⟩ => by
    simp [renderBody, bodyWords, isWordPart, ((Stmt.ret t value s).written hs).words_append,
      written_body rest hr]

theorem Stmt.written (s : Stmt) (h : s.WellFormed) : Written s.render s.words :=
  match s, h with
  | .bind token name value _, ⟨hk, hn, hv⟩ => by
    intro cs hcs
    simp [Stmt.render, Stmt.words, words_symbol_of_ne, Lexeme.symbol, isWordPart, hk, words_let,
      (Written.name hn).words_append, words_assign, (value.written hv).words_append]
  | .ret token value _, ⟨hk, hv⟩ => by
    intro cs hcs
    simp [Stmt.render, Stmt.words, words_symbol_of_ne, Lexeme.symbol, isWordPart, hk,
      words_return, (value.written hv).words_append]
  | .expr _ value _, h => value.written h

end

end LetFn
