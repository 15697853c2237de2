import LetFn.Proofs.Parser.Extent
import LetFn.Proofs.Token.Tiling

/-! The places of all nodes of a program, whatever was wrong in the source: they begin and end with
tokens, lie in each other as the nodes do, and siblings do not overlap. -/

namespace LetFn

open Text (byteLength)

theorem Tiling.inOrder {start : Nat} {cs : List Char} {ts : List Token}
    (tiling : Tiling start cs ts) : InOrder ts :=
  ⟨tiling.pairwise, fun _ => tiling.start_lt_stop⟩

theorem Tiling.stop_le {start : Nat} {cs : List Char} {ts : List Token}
    (tiling : Tiling start cs ts) {t : Token} (ht : t ∈ ts) :
    t.span.stop ≤ start + byteLength cs := by
  obtain ⟨-, -, front, back, rfl, begins, ends⟩ := tiling.of_mem ht
  rw [ends, begins, Text.byteLength_append, Text.byteLength_append]
  omega

/-- The token that marks the end is behind all others, too. -/
theorem Tiling.pairwise_concat_eof {cs : List Char} {ts : List Token} (tiling : Tiling 0 cs ts) :
    (ts ++ [Token.eof (byteLength cs)]).Pairwise fun t u => t.span.stop ≤ u.span.start := by
  refine List.pairwise_append.2 ⟨tiling.pairwise, List.pairwise_singleton _ _, ?_⟩
  intro t ht u hu
  rw [List.mem_singleton.1 hu]
  simpa [Token.eof, Span.point] using tiling.stop_le ht

/-- The place of statements in order is from the first one to the last one. -/
theorem Program.span?_eq {p : Program}
    (apart : p.statements.Pairwise fun s next => s.span.stop ≤ next.span.start)
    (solid : ∀ s ∈ p.statements, s.span.start < s.span.stop) :
    p.span? = do
      let first ← p.statements.head?
      let last ← p.statements.getLast?
      return ⟨first.span.start, last.span.stop⟩ := by
  obtain ⟨ss⟩ := p
  cases ss with
  | nil => rfl
  | cons first rest =>
    have hlast : (first :: rest).getLast? = some ((first :: rest).getLast (by simp)) :=
      List.getLast?_eq_some_getLast _
    generalize (first :: rest).getLast (by simp) = last at hlast
    have covers : first.span.start ≤ last.span.start ∧ first.span.stop ≤ last.span.stop := by
      rcases List.mem_cons.1 (List.mem_of_getLast? hlast) with rfl | behind
      · exact ⟨Nat.le_refl _, Nat.le_refl _⟩
      · have apart := (List.pairwise_cons.1 apart).1 last behind
        have solid₁ := solid first List.mem_cons_self
        have solid₂ := solid last (List.mem_cons_of_mem first behind)
        omega
    simp [span?, hlast, Span.merge, Nat.min_eq_left covers.1, Nat.max_eq_right covers.2]

/-- The nodes of a program are placed between the tokens of its text, and its statements stand one
behind the other. -/
theorem parse_placed (text : String) :
    ∃ ts, Token.ofText text = ts ++ [.eof (byteLength text.toList)] ∧
      (∀ m, (parse text).program.Has m →
        m.Placed ts ∧ m.span.stop ≤ byteLength text.toList) ∧
      (parse text).program.statements.Pairwise (fun s next => s.span.stop ≤ next.span.start) ∧
      (parse text).program.span? = do
        let first ← (parse text).program.statements.head?
        let last ← (parse text).program.statements.getLast?
        return ⟨first.span.start, last.span.stop⟩ := by
  obtain ⟨ts, tokens, tiling⟩ := Token.exists_tiling_ofText text
  have parsed : parse text = parseTokens (ts ++ [.eof (byteLength text.toList)]) :=
    congrArg parseTokens tokens
  have placed : ∀ m, (parse text).program.Has m →
      m.Placed ts ∧ m.span.stop ≤ byteLength text.toList := by
    intro m has
    rw [parsed] at has
    obtain ⟨w, inside, lies⟩ := exists_lies has
    obtain ⟨last, hlast, -, stop⟩ := lies.exists_stop
    refine ⟨lies.placed tiling.inOrder inside fun _ _ => id, ?_⟩
    rw [stop]
    simpa using tiling.stop_le (inside.subset hlast)
  have apart : (parse text).program.statements.Pairwise
      fun s next => s.span.stop ≤ next.span.start := by
    obtain ⟨w, inside, row⟩ := parseTokens_row (ts ++ [.eof (byteLength text.toList)])
    rw [← parsed] at row
    have order := row.ordered (tiling.pairwise_concat_eof.sublist inside.sublist)
    exact List.pairwise_map.1 order
  have solid : ∀ s ∈ (parse text).program.statements, s.span.start < s.span.stop :=
    fun s hs => (placed (.stmt s) ⟨s, hs, .self⟩).1.solid
  exact ⟨ts, tokens, placed, apart, Program.span?_eq apart solid⟩

-- Parentheses around an operand belong to the statement and to no node in it.
example : (parse ") (1) + (2)").program.statements.map
    (fun s => (s.span, (Node.stmt s).children.map Node.span)) = [(⟨2, 11⟩, [⟨3, 10⟩])] := by
  decide +kernel

end LetFn
