import LetFn.Proofs.Eval.Places
import LetFn.Proofs.Parser.Places

/-! Layout does not matter. Texts with the same tokens, apart from their places, are read alike and
do the same when they are run. -/

namespace LetFn

namespace Eval

/-- What a user can see of a run: the kind and the text of the value, and the same of all that the
root scope binds. -/
def observe (r : Result) : Option (ValueType × String × List (String × String)) :=
  r.map fun (v, h) =>
    (v.type, v.inspect, (h.bindings 0).map fun (name, bound) => (name, bound.inspect))

theorem observe_placeless (r : Result) : observe (r.map placeless) = observe r := by
  cases r with
  | none => rfl
  | some a =>
    obtain ⟨v, h⟩ := a
    have bindings : (h.placeless.bindings 0).map (fun (name, bound) => (name, bound.inspect)) =
        (h.bindings 0).map fun (name, bound) => (name, bound.inspect) := by
      simp only [Heap.bindings, Heap.placeless, Heap.getElem?_map]
      cases h.scopes[0]? with
      | none => rfl
      | some s => simp [Scope.map, Value.inspect_placeless]
    simp only [observe, placeless, Option.map_some, Prod.map, Value.type_placeless,
      Value.inspect_placeless, bindings]

end Eval

/-- The same programs and the same errors, apart from places, and programs that do the same in a
fresh root scope. -/
structure Parsed.Resembles (p q : Parsed) : Prop where
  program : p.program.placeless = q.program.placeless
  errors : p.errors.map ParseError.placeless = q.errors.map ParseError.placeless
  runs : ∀ fuel, Eval.observe (Eval.program fuel p.program 0 .root) =
    Eval.observe (Eval.program fuel q.program 0 .root)

theorem parseTokens_resembles {s s' : List Token}
    (h : ∀ i, ((Cursor.ofTokens s).token i).word = ((Cursor.ofTokens s').token i).word) :
    (parseTokens s).Resembles (parseTokens s') := by
  obtain ⟨program, errors⟩ := parseTokens_placeless h
  refine ⟨program, errors, fun fuel => ?_⟩
  rw [← Eval.observe_placeless, ← Eval.program_placeless, program, Eval.program_placeless,
    Eval.observe_placeless]

/-- Only the kinds and the literals of its tokens decide how a text is read and what it does, and
the token that marks its end does not matter. -/
theorem parse_resembles :
    (∀ text text', (Token.ofText text).map Token.word = (Token.ofText text').map Token.word →
      (parse text).Resembles (parse text')) ∧
    ∀ text, (parse text).Resembles (parseTokens (Token.ofText text).dropLast) := by
  refine ⟨fun text text' same => parseTokens_resembles fun i => ?_,
    fun text => parseTokens_resembles fun i => ?_⟩
  · rw [Cursor.word_token, Cursor.word_token]
    exact congrArg (·.getD i (.eof, "")) same
  · have words : (Token.ofText text).map Token.word = _ := Token.map_word_ofChars text.toList
    have front : (Token.ofText text).dropLast.map Token.word = LetFn.words text.toList := by
      rw [List.map_dropLast, words, List.dropLast_concat]
    rw [Cursor.word_token, Cursor.word_token]
    show ((Token.ofText text).map Token.word).getD i _ =
      ((Token.ofText text).dropLast.map Token.word).getD i _
    rw [words, front, Cursor.getD_concat]

/-- A function and a call that is left open. -/
def tight : String := "let a=fn(x)\x7bx\x7d;a("

def spacious : String := "let a = fn ( x ) \x7b x \x7d ;\n\ta ( "

theorem parse_resembles_spacious :
    (Token.ofText tight).map Token.word = (Token.ofText spacious).map Token.word ∧
      Token.ofText tight ≠ Token.ofText spacious ∧ (parse tight).errors ≠ [] ∧
      (parse tight).Resembles (parse spacious) ∧
      (parse tight).Resembles (parseTokens (Token.ofText tight).dropLast) := by
  have same : (Token.ofText tight).map Token.word = (Token.ofText spacious).map Token.word := by
    decide +kernel
  exact ⟨same, by decide +kernel, by decide +kernel, parse_resembles.1 tight spacious same,
    parse_resembles.2 tight⟩

end LetFn
