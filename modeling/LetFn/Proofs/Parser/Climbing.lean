import LetFn.Proofs.Parser.RoundTrip
import LetFn.Proofs.Program.Operators

/-! Precedence climbing reads chains of operators of any length as the trees they stand for. -/

namespace LetFn

namespace Parser

open Outcome Cursor

variable {floor : Precedence} {rest : List (Kind × String)}

theorem halts_linkWords {links : List Link} (halts : Halts floor rest)
    (looser : ∀ l ∈ links.head?, l.strength ≤ floor.rank) :
    Halts floor (linkWords links ++ rest) := by
  cases links with
  | nil => exact halts
  | cons l links =>
    obtain ⟨-, not_else, -, -⟩ := precedence_of_isBinary (operatorKind_binary l.binary)
    intro p hp
    obtain rfl : (operatorKind l.operator, l.operator) = p := Option.some.inj hp
    exact ⟨l.rank_eq ▸ looser l rfl, not_else⟩

/-- Prefix operators bind tighter than what follows the operand, unless that is a call. -/
theorem prefixed_rereads {operators : List String}
    (unary : ∀ operator ∈ operators, operator ∈ unaryOperators) {e : Expr} (h : e.WellFormed)
    {n : Nat} {c : Cursor} {G : Expr → Cursor → Prop}
    (hc : c.words = prefixWords operators ++ (e.words ++ rest)) (hf : floor < .call)
    (halts : Halts .unary rest)
    (climbs : ∀ n e' c', Rereads (prefixed operators e) rest e' c' →
      (climb n floor e' c').Yields G) :
    (expression n floor c).Yields G := by
  induction operators generalizing n floor c G with
  | nil => exact expression_rereads e h hc hf halts.ne_elseWord climbs
  | cons operator operators ih =>
    obtain ⟨ho, others⟩ := List.forall_mem_cons.1 unary
    have word := current_word hc
    refine expression_yields_of_operand (fun n => ?_) climbs
    have right : (expression n .unary c.advance).Yields (Rereads (prefixed operators e) rest) :=
      ih others (advance_words hc) (by decide) (climb_yields_of_halts halts)
    rw [operand_unary (by rw [word.1]; exact operatorKind_unary ho)]
    refine right.bind fun e' c' h => ⟨rfl, ?_, h.2⟩
    rw [prefixed, Expr.erase_unary, Expr.erase_unary, h.1, word.2]

/-- An operand is read, and then what follows it in the chain. -/
theorem expression_yields_of_chain (o : Operand) (links : List Link) {n : Nat} {c : Cursor}
    {G : Expr → Cursor → Prop} (hc : c.words = o.words ++ (linkWords links ++ rest))
    (hf : floor.rank < Precedence.unary.rank) (halts : Halts floor rest)
    (climbs : ∀ n e c', Grouped o [] e → c'.advance.words = linkWords links ++ rest →
      (climb n floor e c').Yields G) :
    (expression n floor c).Yields G := by
  rw [Operand.words, List.append_assoc] at hc
  have below : floor < .call := Nat.lt_trans hf (by decide)
  have haltsUnary : Halts .unary (linkWords links ++ rest) :=
    halts_linkWords (halts.mono (Nat.le_of_lt hf)) fun l _ => Nat.le_of_lt l.strength_lt
  exact prefixed_rereads o.unary o.wellFormed hc below haltsUnary fun n e c' h =>
    climbs n e c' (.operand h.1) h.2

/-- The links up to the first that does not bind tighter. -/
theorem exists_run (bound : Nat) (links : List Link) :
    ∃ inner outer, links = inner ++ outer ∧ (∀ l ∈ inner, bound < l.strength) ∧
      ∀ l ∈ outer.head?, l.strength ≤ bound := by
  induction links with
  | nil => exact ⟨[], [], rfl, by simp, by simp⟩
  | cons l links ih =>
    by_cases h : bound < l.strength
    · obtain ⟨inner, outer, rfl, tighter, looser⟩ := ih
      exact ⟨l :: inner, outer, rfl, List.forall_mem_cons.2 ⟨h, tighter⟩, looser⟩
    · exact ⟨[], l :: links, rfl, by simp, by simpa using h⟩

/-- Climbing at some floor takes in the operators above it. It has read `done` already, which binds
at least as tightly as what comes next, and goes on to read `links`. -/
theorem climb_grouped {floor : Precedence} {rest : List (Kind × String)} (first : Operand)
    (done links : List Link) {n : Nat} {left : Expr} {c : Cursor}
    (hc : c.advance.words = linkWords links ++ rest) (halts : Halts floor rest)
    (tighter : ∀ l ∈ links, floor.rank < l.strength)
    (falls : ∀ next ∈ links.head?, ∀ l ∈ done, next.strength ≤ l.strength)
    (grouped : Grouped first done left) :
    (climb n floor left c).Yields fun e c' =>
      Grouped first (done ++ links) e ∧ c'.advance.words = rest := by
  match n, links with
  | 0, _ => trivial
  | n + 1, [] =>
    rw [climb_of_halts halts hc, List.append_nil]
    exact ⟨rfl, grouped, hc⟩
  | n + 1, link :: links =>
    have word := peek_word hc
    have behind := advance_words (c := c.advance) hc
    obtain ⟨not_call, -, -, -⟩ := precedence_of_isBinary (operatorKind_binary link.binary)
    have above : floor < .ofKind (operatorKind link.operator) :=
      (link.rank_eq ▸ tighter link List.mem_cons_self : floor.rank < Precedence.rank _)
    -- what binds tighter than this operator belongs to its right side
    obtain ⟨inner, outer, run, innerTighter, outerLooser⟩ := exists_run link.strength links
    have shorter : inner.length + outer.length = links.length := by rw [run, List.length_append]
    have right : (expression n (.ofKind (operatorKind link.operator)) c.advance.advance).Yields
        fun e c' => Grouped link.operand inner e ∧ c'.advance.words = linkWords outer ++ rest := by
      have haltsOuter : Halts (.ofKind (operatorKind link.operator)) (linkWords outer ++ rest) :=
        halts_linkWords (halts.mono (Nat.le_of_lt above)) (link.rank_eq ▸ outerLooser)
      refine expression_yields_of_chain link.operand inner
        (by simpa [run, linkWords_append] using behind) (link.rank_eq ▸ link.strength_lt)
        haltsOuter fun n e c' operand hc' => ?_
      exact climb_grouped link.operand [] inner hc' haltsOuter (link.rank_eq.symm ▸ innerTighter)
        (by simp) operand
    simp only [climb, peekPrecedence, word.1]
    rw [if_pos above, if_neg not_call]
    refine right.bind fun e c' ⟨tree, hc'⟩ => ?_
    have grouped' : Grouped first (done ++ link :: inner)
        (.binary c.peek left c.peek.literal e ⟨left.span.start, e.span.stop⟩) := by
      rw [word.2]
      exact .split (falls link rfl) innerTighter grouped tree
    have least : ∀ l ∈ done ++ link :: inner, link.strength ≤ l.strength :=
      List.forall_mem_append.2 ⟨falls link rfl,
        List.forall_mem_cons.2 ⟨Nat.le_refl _, fun l hl => Nat.le_of_lt (innerTighter l hl)⟩⟩
    have more := climb_grouped (n := n) first (done ++ link :: inner) outer hc' halts
      (fun l hl => tighter l (by simp [run, hl]))
      (fun next hn l hl => Nat.le_trans (outerLooser next hn) (least l hl)) grouped'
    simpa [run] using more
termination_by links.length
decreasing_by all_goals
  rw [List.length_cons, ← shorter]
  omega

/-- A chain is read as its tree. -/
theorem expression_grouped (first : Operand) (links : List Link) {n : Nat} {c : Cursor}
    (hc : c.words = first.words ++ (linkWords links ++ rest)) (closing : Closing rest) :
    (expression n .lowest c).Yields fun e c' =>
      Grouped first links e ∧ c'.advance.words = rest := by
  have halts : Halts .lowest rest := closing.halts
  refine expression_yields_of_chain first links hc (by decide) halts fun n e c' operand hc' => ?_
  exact climb_grouped first [] links hc' halts (fun l _ => l.strength_pos) (by simp) operand

theorem exists_head_operandWords (o : Operand) :
    ∃ kind literal ws, o.words = (kind, literal) :: ws ∧ kind.beginsOperand = true := by
  obtain ⟨operators, e, unary, wellFormed⟩ := o
  cases operators with
  | nil => exact exists_head_words e
  | cons operator operators =>
    refine ⟨_, _, _, rfl, ?_⟩
    rcases operatorKind_unary (unary operator List.mem_cons_self) with h | h <;> rw [h] <;> rfl

/-- A chain with nothing behind it is read as one statement. -/
theorem program_grouped (first : Operand) (links : List Link) {c : Cursor}
    (hc : c.words = first.words ++ linkWords links ++ [(.eof, "")]) :
    (program c).Yields fun ss _ => ∃ s, ss = [s] ∧
      ∃ token value span, s = .expr token value span ∧ Grouped first links value := by
  rw [List.append_assoc] at hc
  obtain ⟨kind, literal, ws, hw, hk⟩ := exists_head_operandWords first
  have begins : c.current.kind.beginsOperand = true := by
    rw [hw] at hc
    rw [(current_word hc).1, hk]
  exact program_yields_expression begins fun n => expression_grouped first links hc closing_eof

end Parser

/-- A chain of operators is read without an error as one expression: the only tree, apart from
tokens and places, that splits every part of the chain at the last of its loosest operators and
applies prefix operators from the nearest to the farthest. -/
theorem parse_operators (first : Operand) (links : List Link) {gap : String}
    (blank : ∀ c ∈ gap.toList, isSpace c = true) :
    ∃ token value span,
      parse (first.render ++ renderLinks gap links) = ⟨⟨[.expr token value span]⟩, []⟩ ∧
        Grouped first links value ∧ ∀ e, Grouped first links e → e.erase = value.erase := by
  have text := words_render_append_renderLinks blank first links
  obtain ⟨s, hp, token, value, span, rfl, grouped⟩ := parse_single fun c hc =>
    Parser.program_grouped first links (text ▸ hc)
  exact ⟨token, value, span, hp, grouped, fun e other => grouped.erase_eq other rfl⟩

def Operand.number (value : Int64) (h : 0 ≤ value) : Operand :=
  ⟨[], .int (.eof 0) value, by simp, h⟩

def Operand.minusTwo : Operand :=
  ⟨["-"], .int (.eof 0) 2, by decide, (by decide : (0 : Int64) ≤ 2)⟩

def Link.minus (operand : Operand) : Link := ⟨"-", operand, by decide⟩

def Link.times (operand : Operand) : Link := ⟨"*", operand, by decide⟩

/-- What follows the 1 in `1--2*3-4`. -/
def differences : List Link :=
  [.minus .minusTwo, .times (.number 3 (by decide)), .minus (.number 4 (by decide))]

/-- `((-2) * 3)` -/
def productTree : Expr :=
  .binary (.eof 0) Operand.minusTwo.tree "*" (.int (.eof 0) 3) (.point 0)

/-- `(1 - ((-2) * 3))` -/
def differenceTree : Expr :=
  .binary (.eof 0) (.int (.eof 0) 1) "-" productTree (.point 0)

/-- The first `-` is not where the chain splits, although it is as loose as the last. -/
theorem parse_operators_differences :
    (Operand.number 1 (by decide)).render ++ renderLinks "" differences = "1--2*3-4" ∧
      ∃ token value span, parse "1--2*3-4" = ⟨⟨[.expr token value span]⟩, []⟩ ∧
        value.erase =
          .binary (.eof 0) differenceTree.erase "-" (.int (.eof 0) 4) (.point 0) := by
  have text : (Operand.number 1 (by decide)).render ++ renderLinks "" differences = "1--2*3-4" := by
    decide
  have product : Grouped .minusTwo ([] ++ .times (.number 3 (by decide)) :: []) productTree :=
    .split (by simp) (by simp) (.operand rfl) (.operand rfl)
  have difference : Grouped (.number 1 (by decide))
      ([] ++ .minus .minusTwo :: [.times (.number 3 (by decide))]) differenceTree :=
    .split (by simp) (by decide) (.operand rfl) product
  have whole : Grouped (.number 1 (by decide))
      ([.minus .minusTwo, .times (.number 3 (by decide))] ++ .minus (.number 4 (by decide)) :: [])
      (.binary (.eof 0) differenceTree "-" (.int (.eof 0) 4) (.point 0)) :=
    .split (by decide) (by simp) difference (.operand rfl)
  have blank : ∀ c ∈ "".toList, isSpace c = true := by simp
  obtain ⟨token, value, span, hp, -, unique⟩ :=
    parse_operators (.number 1 (by decide)) differences blank
  exact ⟨text, token, value, span, text ▸ hp, (unique _ whole).symm⟩

end LetFn
