import LetFn.Proofs.Eval.Arithmetic
import LetFn.Proofs.Eval.InTurn
import LetFn.Proofs.Parser.Climbing
import LetFn.Proofs.Token.Tiling

/-! Numbers written as a program. Digits are read before the sign in front of them, as a number of
their own, so the least number is the only one that is not read again. -/

namespace LetFn

open Text (byteLength)

/-! ### Digits with zeros in front -/

namespace Decimal

/-- The text of a number with more zeros in front of its digits. -/
def padded (zeros : Nat) (text : String) : String :=
  match text.toList with
  | '-' :: digits => String.ofList ('-' :: (List.replicate zeros '0' ++ digits))
  | digits => String.ofList (List.replicate zeros '0' ++ digits)

/-- The digits of `n` behind zeros. -/
def digits (zeros n : Nat) : List Char := List.replicate zeros '0' ++ Nat.toDigits 10 n

theorem isDigit_of_mem_digits {zeros n : Nat} : ∀ c ∈ digits zeros n, c.isDigit = true := by
  intro c hc
  rcases List.mem_append.1 hc with zero | digit
  · rw [List.eq_of_mem_replicate zero]
    rfl
  · exact isDigit_of_mem_toDigits c digit

theorem digits_ne_nil {zeros n : Nat} : digits zeros n ≠ [] :=
  List.append_ne_nil_of_right_ne_nil _ Nat.toDigits_ne_nil

theorem toNat?_digits (zeros n : Nat) : toNat? (digits zeros n) = some n := by
  rw [toNat?, if_pos ⟨digits_ne_nil, List.all_eq_true.2 isDigit_of_mem_digits⟩, digits,
    Nat.ofDigitChars_append, Nat.ofDigitChars_replicate_zero, Nat.mul_zero,
    Nat.ofDigitChars_ten_toDigits]

theorem toInt64?_digits (zeros n : Nat) :
    toInt64? (digits zeros n) = if n < bound then some (.ofNat n) else none := by
  rw [toInt64?_eq_positive? isDigit_of_mem_digits, positive?, toNat?_digits, Option.bind_some]

theorem padded_of_neg {i : Int} (h : i < 0) (zeros : Nat) :
    padded zeros (ofInt i) = String.ofList ('-' :: digits zeros i.natAbs) := by
  rw [padded, toList_ofInt_of_neg h, Nat.toList_repr]
  rfl

theorem padded_of_nonneg {i : Int} (h : 0 ≤ i) (zeros : Nat) :
    padded zeros (ofInt i) = String.ofList (digits zeros i.natAbs) := by
  rw [padded, ofInt_of_nonneg h, Nat.toList_repr]
  split
  · next minus => exact (not_mem_repr (n := i.natAbs) (by decide) (d := '-') (by simp [minus])).elim
  · rfl

end Decimal

/-! ### Reading a number -/

namespace Parser

open Outcome Cursor

variable {c : Cursor} {literal : String} {value : Int64} {rest : List (Kind × String)}

theorem expression_yields_number {floor : Precedence} {n : Nat}
    (hc : c.words = (.int, literal) :: rest)
    (number : Decimal.toInt64? literal.toList = some value) (halts : Halts floor rest) :
    (expression n floor c).Yields (Rereads (.int (.eof 0) value) rest) := by
  refine expression_yields_of_operand (fun n => ?_) (climb_yields_of_halts halts)
  have word := current_word hc
  simp only [operand, word.1, integer, word.2, number]
  exact ⟨rfl, rfl, advance_words hc⟩

/-- The sign takes the digits as they are read without it. -/
theorem expression_yields_opposite {floor : Precedence} {n : Nat}
    (hc : c.words = (.minus, "-") :: (.int, literal) :: rest)
    (number : Decimal.toInt64? literal.toList = some value) (closing : Closing rest) :
    (expression n floor c).Yields
      (Rereads (.unary (.eof 0) "-" (.int (.eof 0) value) (.point 0)) rest) := by
  refine expression_yields_of_operand (fun n => ?_) (climb_yields_of_halts closing.halts)
  have word := current_word hc
  rw [operand_unary (.inr word.1)]
  have right : (expression n .unary c.advance).Yields (Rereads (.int (.eof 0) value) rest) :=
    expression_yields_number (advance_words hc) number closing.halts
  refine right.bind fun e' c' h => ⟨rfl, ?_, h.2⟩
  rw [Expr.erase_unary, Expr.erase_unary, h.1, word.2]

end Parser

theorem words_number {digits : List Char} (hd : ∀ c ∈ digits, c.isDigit = true)
    (ne : digits ≠ []) : words digits = [(.int, String.ofList digits)] := by
  obtain ⟨c, cs, rfl⟩ := List.exists_cons_of_ne_nil ne
  obtain ⟨hc, hcs⟩ := List.forall_mem_cons.1 hd
  have word : words (c :: (cs ++ [])) = _ := words_digits hc hcs (by simp)
  rwa [List.append_nil, words_nil] at word

theorem words_opposite (cs : List Char) : words ('-' :: cs) = (.minus, "-") :: words cs :=
  words_symbol (by decide) (by simp)

/-- What an expression amounts to does not depend on tokens and places. -/
theorem Expr.Amounts.of_erase {e e' : Expr} {m : Int} (amounts : e'.Amounts m)
    (same : e.erase = e'.erase) : e.Amounts m := by
  induction amounts generalizing e with
  | int =>
    cases e <;> simp at same
    exact same ▸ .int
  | opposite _ ih =>
    cases e <;> simp at same
    obtain ⟨rfl, operand⟩ := same
    exact .opposite (ih operand)
  | sum _ _ ihl ihr =>
    cases e <;> simp at same
    obtain ⟨left, rfl, right⟩ := same
    exact .sum (ihl left) (ihr right)
  | difference _ _ ihl ihr =>
    cases e <;> simp at same
    obtain ⟨left, rfl, right⟩ := same
    exact .difference (ihl left) (ihr right)
  | product _ _ ihl ihr =>
    cases e <;> simp at same
    obtain ⟨left, rfl, right⟩ := same
    exact .product (ihl left) (ihr right)

/-- A text is one expression if its words are read as one. -/
theorem parse_expression {text : String} {kind : Kind} {literal : String}
    {ws : List (Kind × String)} {e : Expr} (ht : words text.toList = (kind, literal) :: ws)
    (begins : kind.beginsOperand = true)
    (whole : ∀ (c : Cursor) n, c.words = (kind, literal) :: (ws ++ [(.eof, "")]) →
      (Parser.expression n .lowest c).Yields (Parser.Rereads e [(.eof, "")])) :
    ∃ token e' span, parse text = ⟨⟨[.expr token e' span]⟩, []⟩ ∧ e'.erase = e.erase := by
  obtain ⟨s, hp, token, e', span, rfl, same⟩ := parse_single fun c hc => by
    rw [ht] at hc
    exact Parser.program_yields_expression (by rwa [(Cursor.current_word hc).1])
      fun n => whole c n hc
  exact ⟨token, e', span, hp, same⟩

theorem parse_number {digits : List Char} {value : Int64} (hd : ∀ c ∈ digits, c.isDigit = true)
    (ne : digits ≠ []) (number : Decimal.toInt64? digits = some value) :
    ∃ token e span, parse (String.ofList digits) = ⟨⟨[.expr token e span]⟩, []⟩ ∧
      e.Amounts value.toInt := by
  have text : words (String.ofList digits).toList = [(.int, String.ofList digits)] := by
    rw [String.toList_ofList, words_number hd ne]
  obtain ⟨token, e, span, hp, same⟩ := parse_expression text rfl fun c n hc =>
    Parser.expression_yields_number hc (by rwa [String.toList_ofList]) closing_eof.halts
  exact ⟨token, e, span, hp, .of_erase .int same⟩

theorem parse_opposite {digits : List Char} {value : Int64} (hd : ∀ c ∈ digits, c.isDigit = true)
    (ne : digits ≠ []) (number : Decimal.toInt64? digits = some value) :
    ∃ token e span, parse (String.ofList ('-' :: digits)) = ⟨⟨[.expr token e span]⟩, []⟩ ∧
      e.Amounts (-value.toInt) := by
  have text : words (String.ofList ('-' :: digits)).toList =
      [(.minus, "-"), (.int, String.ofList digits)] := by
    rw [String.toList_ofList, words_opposite, words_number hd ne]
  obtain ⟨token, e, span, hp, same⟩ := parse_expression text rfl fun c n hc =>
    Parser.expression_yields_opposite hc (by rwa [String.toList_ofList]) closing_eof
  exact ⟨token, e, span, hp, .of_erase (.opposite .int) same⟩

/-! ### A number that is too large -/

/-- A sign and the digits behind it are two tokens. -/
theorem ofText_opposite {digits : List Char} (hd : ∀ c ∈ digits, c.isDigit = true)
    (ne : digits ≠ []) :
    Token.ofText (String.ofList ('-' :: digits)) =
      [⟨.minus, "-", ⟨0, 1⟩⟩,
        ⟨.int, String.ofList digits, ⟨1, 1 + byteLength digits⟩⟩,
        .eof (1 + byteLength digits)] := by
  have minus : Munched .minus (String.ofList ['-']) (digits ++ []).head? :=
    .of_fixed _ (Spelled.of_text rfl) (by decide)
  have number : Munched .int (String.ofList digits) ([] : List Char).head? :=
    ⟨nofun, .int (by simpa using ne) (by simpa using hd), nofun, nofun, by simp, nofun⟩
  have tiling : Tiling 0 (['-'] ++ (digits ++ [])) _ := .token minus (.token number .nil)
  have tokens := tiling.startingAt_eq
  rw [List.append_nil, ← Token.ofChars_eq_startingAt] at tokens
  rw [Token.ofText, String.toList_ofList, ← List.singleton_append, tokens]
  have one : '-'.utf8Size = 1 := rfl
  simp [byteLength, one]

/-- The digits are refused, and with them all there is. -/
theorem parseTokens_opposite {minus span : Span} {literal : String} {stop : Nat}
    (refused : Decimal.toInt64? literal.toList = none) :
    parseTokens [⟨.minus, "-", minus⟩, ⟨.int, literal, span⟩, .eof stop] =
      ⟨⟨[]⟩, [⟨.integerRange literal, span⟩]⟩ := by
  simp [parseTokens, Parser.read, Parser.program, Parser.fuel, Cursor.ofTokens, Parser.statements,
    Parser.statement, Parser.expressionStatement, Parser.expression, Parser.operand,
    Parser.integer, refused, Outcome.bind, Outcome.after, Cursor.skipSemicolon, Cursor.peekIs,
    Cursor.peek, Token.eof]

theorem byteLength_digits (zeros n : Nat) :
    byteLength (Decimal.digits zeros n) = zeros + byteLength (Nat.toDigits 10 n) := by
  rw [Decimal.digits, Text.byteLength_append]
  congr 1
  induction zeros with
  | zero => rfl
  | succ zeros ih =>
    have one : '0'.utf8Size = 1 := rfl
    rw [List.replicate_succ, byteLength, ih, one, Nat.add_comm]

/-! ### Numbers as programs -/

namespace Eval

theorem settles_program_amount {e : Expr} {m : Int} (amounts : e.Amounts m) (token : Token)
    (span : Span) (scope : ScopeId) (h : Heap) :
    Settles (fun n => program n ⟨[.expr token e span]⟩ scope h) (.int (.ofInt m), h) := by
  obtain ⟨n, evaluates⟩ := settles_amount amounts scope h
  refine .succ (n + 1) fun m hm => ?_
  obtain ⟨j, rfl⟩ := Nat.exists_eq_add_of_le' hm
  have evaluated : expr (j + n) e scope h = _ := evaluates _ (Nat.le_add_left n j)
  rw [program, ← Nat.add_assoc, stmts_singleton, evaluated]
  rfl

end Eval

/-- The text is read without an error, and its value is the number in every scope of every heap,
which it leaves as it is. -/
def ReadsBack (text : String) (value : Int64) : Prop :=
  (parse text).errors = [] ∧ ∀ scope h,
    Eval.Settles (fun n => Eval.program n (parse text).program scope h) (.int value, h)

theorem readsBack_of_amounts {text : String} {value : Int64} {token : Token} {e : Expr}
    {span : Span} (hp : parse text = ⟨⟨[.expr token e span]⟩, []⟩)
    (amounts : e.Amounts value.toInt) : ReadsBack text value := by
  have settles := Eval.settles_program_amount amounts token span
  rw [Int64.ofInt_toInt] at settles
  rw [ReadsBack, hp]
  exact ⟨rfl, settles⟩

theorem readsBack_padded_of_nonneg {value : Int64} (h : 0 ≤ value.toInt) (zeros : Nat) :
    ReadsBack (Decimal.padded zeros (Value.int value).inspect) value := by
  have fits : value.toInt.natAbs < Decimal.bound := by
    have := Int64.toInt_lt value
    simp only [Decimal.bound]
    omega
  obtain ⟨token, e, span, hp, amounts⟩ := parse_number Decimal.isDigit_of_mem_digits
    Decimal.digits_ne_nil ((Decimal.toInt64?_digits zeros value.toInt.natAbs).trans (if_pos fits))
  rw [Int64.toInt_ofNat_of_lt (by simpa [Decimal.bound] using fits),
    Int.natAbs_of_nonneg h] at amounts
  rw [Value.inspect, Decimal.padded_of_nonneg h]
  exact readsBack_of_amounts hp amounts

theorem readsBack_padded_of_neg {value : Int64} (h : value.toInt < 0) (ne : value ≠ .minValue)
    (zeros : Nat) : ReadsBack (Decimal.padded zeros (Value.int value).inspect) value := by
  have fits : value.toInt.natAbs < Decimal.bound := by
    have least := Int64.le_toInt value
    have other : value.toInt ≠ Int64.minValue.toInt := fun same => ne (Int64.toInt_inj.1 same)
    rw [Int64.toInt_minValue] at other
    simp only [Decimal.bound]
    omega
  obtain ⟨token, e, span, hp, amounts⟩ := parse_opposite Decimal.isDigit_of_mem_digits
    Decimal.digits_ne_nil ((Decimal.toInt64?_digits zeros value.toInt.natAbs).trans (if_pos fits))
  rw [Int64.toInt_ofNat_of_lt (by simpa [Decimal.bound] using fits),
    Int.ofNat_natAbs_of_nonpos (Int.le_of_lt h), Int.neg_neg] at amounts
  rw [Value.inspect, Decimal.padded_of_neg h]
  exact readsBack_of_amounts hp amounts

/-- The digits of the least number are those of a number that is too large. -/
theorem parse_padded_minValue (zeros : Nat) :
    parse (Decimal.padded zeros (Value.int .minValue).inspect) =
      ⟨⟨[]⟩, [⟨.integerRange (String.ofList (Decimal.digits zeros Decimal.bound)),
        ⟨1, 20 + zeros⟩⟩]⟩ := by
  have text : Decimal.padded zeros (Value.int .minValue).inspect =
      String.ofList ('-' :: Decimal.digits zeros Decimal.bound) :=
    Decimal.padded_of_neg (by decide) zeros
  have refused : Decimal.toInt64? (Decimal.digits zeros Decimal.bound) = none :=
    (Decimal.toInt64?_digits zeros _).trans (if_neg (Nat.lt_irrefl _))
  have length : byteLength (Nat.toDigits 10 Decimal.bound) = 19 := by decide
  have isDigit : ∀ c ∈ Decimal.digits zeros Decimal.bound, c.isDigit = true :=
    Decimal.isDigit_of_mem_digits
  have tokens := ofText_opposite isDigit Decimal.digits_ne_nil
  rw [byteLength_digits, length] at tokens
  rw [text, parse, parseChars, ← Token.ofText, tokens,
    parseTokens_opposite (by simpa using refused)]
  congr 4
  omega

/-- Every number but the least is read back from its text, however many zeros are in front of its
digits. The least is refused, as its digits alone are too large for a number. -/
theorem padded_readsBack (zeros : Nat) :
    (∀ value : Int64, value ≠ .minValue →
      ReadsBack (Decimal.padded zeros (Value.int value).inspect) value) ∧
    parse (Decimal.padded zeros (Value.int .minValue).inspect) =
      ⟨⟨[]⟩, [⟨.integerRange (String.ofList (Decimal.digits zeros Decimal.bound)),
        ⟨1, 20 + zeros⟩⟩]⟩ := by
  refine ⟨fun value ne => ?_, parse_padded_minValue zeros⟩
  by_cases neg : value.toInt < 0
  · exact readsBack_padded_of_neg neg ne zeros
  · exact readsBack_padded_of_nonneg (Int.not_lt.1 neg) zeros

/-- The number next to the least is read back, the least itself is not. -/
theorem padded_readsBack_least :
    Decimal.padded 2 (Value.int (.minValue + 1)).inspect = "-009223372036854775807" ∧
      ReadsBack "-009223372036854775807" (.minValue + 1) ∧
      parse "-9223372036854775808" =
        ⟨⟨[]⟩, [⟨.integerRange "9223372036854775808", ⟨1, 20⟩⟩]⟩ := by
  have next : Decimal.padded 2 (Value.int (.minValue + 1)).inspect = "-009223372036854775807" := by
    decide
  have least : Decimal.padded 0 (Value.int .minValue).inspect = "-9223372036854775808" := by decide
  have digits : String.ofList (Decimal.digits 0 Decimal.bound) = "9223372036854775808" := by decide
  refine ⟨next, ?_, ?_⟩
  · rw [← next]
    exact (padded_readsBack 2).1 _ (by decide)
  · rw [← least, (padded_readsBack 0).2, digits]

/-- Not every number is read back from its text. -/
theorem not_readsBack_minValue :
    ¬ ∀ (value : Int64) (zeros : Nat),
      ReadsBack (Decimal.padded zeros (Value.int value).inspect) value := by
  intro all
  have clean := (all .minValue 0).1
  rw [parse_padded_minValue] at clean
  cases clean

end LetFn
