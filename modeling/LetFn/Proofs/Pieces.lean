import LetFn.Proofs.Eval.InTurn
import LetFn.Proofs.Parser.Append
import LetFn.Proofs.Token.Append

/-! A program in two pieces. If the first one is a program without errors and ends in a semicolon,
the pieces can as well be read and run one after the other. -/

namespace LetFn

open Text (byteLength)

theorem Program.placeless_move (φ : Nat → Nat) (p : Program) : (p.move φ).placeless = p.placeless :=
  p.move_move φ fun _ => 0

section

variable (s₁ s₂ : String) (accepted : (parse s₁).errors = [])
  (last : ∀ t ∈ (Token.ofText s₁).dropLast.getLast?, t.kind = .semicolon)

include accepted last

theorem parse_append :
    (parse (s₁ ++ s₂)).program.statements = (parse s₁).program.statements ++
        ((parse s₂).program.move (· + byteLength s₁.toList)).statements ∧
      (parse (s₁ ++ s₂)).errors =
        (parse s₂).errors.map (ParseError.move (· + byteLength s₁.toList)) := by
  obtain ⟨ts, first, tiling⟩ := Token.exists_tiling_ofText s₁
  have some : Token.ofText s₂ ≠ [] := by
    obtain ⟨us, second, -⟩ := Token.exists_tiling_ofText s₂
    simp [second]
  have some' : (Token.ofText s₂).map (Token.move (· + byteLength s₁.toList)) ≠ [] := by
    simpa using some
  have front : parse s₁ = parseTokens (ts ++ [.eof (byteLength s₁.toList)]) :=
    congrArg parseTokens first
  have whole : parse (s₁ ++ s₂) = parseTokens
      (ts ++ (Token.ofText s₂).map (Token.move (· + byteLength s₁.toList))) := by
    have tokens := Token.ofText_append s₁ s₂ last
    rw [first, List.dropLast_concat] at tokens
    exact congrArg parseTokens tokens
  rw [first, List.dropLast_concat] at last
  rw [front] at accepted
  obtain ⟨statements, errors⟩ := parseTokens_append_of_accepted some' accepted
    (fun t ht => (tiling.of_mem ht).1) last
  have behind : (Cursor.ofTokens (Token.ofText s₂)).Moves (· + byteLength s₁.toList)
      (.ofTokens ((Token.ofText s₂).map (Token.move (· + byteLength s₁.toList)))) :=
    Cursor.ofTokens_moves fun none => absurd none some
  obtain ⟨program, errors'⟩ := parseTokens_moves behind
  rw [program, ← front, ← whole] at statements
  rw [errors', ← whole] at errors
  exact ⟨statements, errors⟩

end

/-- Behind a program that ends in a semicolon a text is read as it is alone, only further behind.
Evaluating the whole program is to evaluate both in turn. -/
theorem parse_append_and_inTurn (s₁ s₂ : String) (accepted : (parse s₁).errors = [])
    (last : ∀ t ∈ (Token.ofText s₁).dropLast.getLast?, t.kind = .semicolon) :
    (parse (s₁ ++ s₂)).program.statements = (parse s₁).program.statements ++
        ((parse s₂).program.move (· + byteLength s₁.toList)).statements ∧
      (parse (s₁ ++ s₂)).errors =
        (parse s₂).errors.map (ParseError.move (· + byteLength s₁.toList)) ∧
      ∀ scope h a,
        (∃ n, (Eval.program n (parse (s₁ ++ s₂)).program scope h).map Eval.placeless = some a) ↔
          ∃ n, (Eval.inTurn n (parse s₁).program (parse s₂).program scope h).map
            Eval.placeless = some a := by
  obtain ⟨statements, errors⟩ := parse_append s₁ s₂ accepted last
  refine ⟨statements, errors, fun scope h a => ?_⟩
  have joined : (parse (s₁ ++ s₂)).program = ⟨(parse s₁).program.statements ++
      ((parse s₂).program.move (· + byteLength s₁.toList)).statements⟩ :=
    congrArg Program.mk statements
  rw [joined]
  exact Eval.program_append_placeless (Program.placeless_move _ _) scope h a

/-- A function, -/
def definition : String := "let next = fn(x) \x7b x + 1; \x7d; "

/-- and a use of it, in front of something that is wrong. -/
def useOfDefinition : String := "next(4); )"

theorem parse_append_and_inTurn_definition :
    (parse definition).errors = [] ∧
      (∀ t ∈ (Token.ofText definition).dropLast.getLast?, t.kind = .semicolon) ∧
      (parse useOfDefinition).errors ≠ [] ∧
      (parse (definition ++ useOfDefinition)).program.statements =
        (parse definition).program.statements ++
          ((parse useOfDefinition).program.move (· + byteLength definition.toList)).statements ∧
      (parse (definition ++ useOfDefinition)).errors =
        (parse useOfDefinition).errors.map
          (ParseError.move (· + byteLength definition.toList)) ∧
      (Eval.inTurn 20 (parse definition).program (parse useOfDefinition).program 0 .root).map
        (fun a => a.1.inspect) = some "5" ∧
      ∀ a, (∃ n, (Eval.program n (parse (definition ++ useOfDefinition)).program 0 .root).map
          Eval.placeless = some a) ↔
        ∃ n, (Eval.inTurn n (parse definition).program (parse useOfDefinition).program 0 .root).map
          Eval.placeless = some a := by
  have accepted : (parse definition).errors = [] := by decide +kernel
  have last : ∀ t ∈ (Token.ofText definition).dropLast.getLast?, t.kind = .semicolon := by
    decide +kernel
  obtain ⟨statements, errors, runs⟩ :=
    parse_append_and_inTurn definition useOfDefinition accepted last
  exact ⟨accepted, last, by decide +kernel, statements, errors, by decide +kernel, runs 0 .root⟩

end LetFn
