import LetFn.Proofs.Parser.Fuel
import LetFn.Proofs.Parser.Progress

/-! Reading the beginning of a list of tokens, beside reading all of it. The two runs agree until
the first one looks behind its end; from there on every error it meets says that the input has
ended. So input that could be completed has no other error. -/

namespace LetFn

namespace Cursor

variable {r c : Cursor} {kind : Kind}

/-- What `c` has left to read, and then what `r` has. -/
def append (c r : Cursor) : Cursor := ⟨c.tokens ++ r.tokens, r.stop⟩

theorem append_of_nil (hc : c.tokens = []) : c.append r = r := by
  rw [append, hc, List.nil_append]

theorem ne_nil_of_tail (more : c.tokens.tail ≠ []) : c.tokens ≠ [] := by
  rintro hc
  simp [hc] at more

theorem current_append (ne : c.tokens ≠ []) : (c.append r).current = c.current := by
  obtain ⟨t, w, hc⟩ := List.exists_cons_of_ne_nil ne
  simp [append, current_eq_headD, hc]

theorem advance_append (ne : c.tokens ≠ []) : (c.append r).advance = c.advance.append r := by
  rw [append, append, tokens_advance, ← List.tail_append_of_ne_nil ne]
  rfl

theorem peek_append (more : c.tokens.tail ≠ []) : (c.append r).peek = c.peek := by
  rw [← current_advance, advance_append (ne_nil_of_tail more)]
  exact current_append more

theorem peekIs_append (more : c.tokens.tail ≠ []) :
    (c.append r).peekIs kind = c.peekIs kind := by
  rw [peekIs, peekIs, peek_append more]

theorem peekPrecedence_append (more : c.tokens.tail ≠ []) :
    (c.append r).peekPrecedence = c.peekPrecedence := by
  rw [peekPrecedence, peekPrecedence, peek_append more]

theorem skipSemicolon_append (more : c.tokens.tail ≠ []) :
    (c.append r).skipSemicolon = c.skipSemicolon.append r := by
  rw [skipSemicolon, skipSemicolon, peekIs_append more, advance_append (ne_nil_of_tail more)]
  split <;> rfl

theorem skipSemicolon_ne_nil (more : c.tokens.tail ≠ []) : c.skipSemicolon.tokens ≠ [] := by
  unfold skipSemicolon
  split
  · exact more
  · exact ne_nil_of_tail more

/-! ### At the last token -/

theorem current_of_nil (hc : c.tokens = []) : c.current.kind = .eof := by
  simp [current_eq_headD, hc, Token.eof]

theorem peek_of_tail (last : c.tokens.tail = []) : c.peek.kind = .eof := by
  simp [peek_eq_headD, last, Token.eof]

theorem peekIs_of_tail (last : c.tokens.tail = []) (hk : kind ≠ .eof) :
    c.peekIs kind = false := by
  simpa [peekIs, peek_of_tail last] using hk.symm

theorem peekPrecedence_of_tail (last : c.tokens.tail = []) : c.peekPrecedence = .lowest := by
  rw [peekPrecedence, peek_of_tail last]
  rfl

theorem skipSemicolon_of_tail (last : c.tokens.tail = []) : c.skipSemicolon = c := by
  simp [skipSemicolon, peekIs_of_tail last]

end Cursor

namespace Outcome

variable {α β : Type} {r : Cursor} {o o' : Outcome α}

/-- The step came to the last token or behind it, and all its errors are about the end. -/
def Ended : Outcome α → Prop
  | ok _ next dropped => next.tokens.tail = [] ∧ ∀ e ∈ dropped, e.isUnexpectedEnd = true
  | error cause next dropped =>
    next.tokens.tail = [] ∧ cause.isUnexpectedEnd = true ∧ ∀ e ∈ dropped, e.isUnexpectedEnd = true
  | outOfFuel => True

theorem Ended.after {es : List ParseError} (h : o.Ended)
    (hes : ∀ e ∈ es, e.isUnexpectedEnd = true) : (o.after es).Ended := by
  cases o with
  | ok v c fs => exact ⟨h.1, List.forall_mem_append.2 ⟨hes, h.2⟩⟩
  | error cause c fs => exact ⟨h.1, h.2.1, List.forall_mem_append.2 ⟨hes, h.2.2⟩⟩
  | outOfFuel => trivial

@[simp] theorem ended_map {f : α → β} : (o.map f).Ended ↔ o.Ended := by
  cases o <;> rfl

theorem Ended.bind {f : α → Cursor → Outcome β} (h : o.Ended)
    (hf : ∀ v c, c.tokens.tail = [] → (f v c).Ended) : (o.bind f).Ended := by
  cases o with
  | ok v c es => exact (hf v c h.1).after h.2
  | error | outOfFuel => exact h

/-- The step failed at the end. -/
def Cut : Outcome α → Prop
  | ok _ _ _ => False
  | o => o.Ended

theorem Cut.ended (h : o.Cut) : o.Ended := by
  cases o with
  | ok => exact h.elim
  | error | outOfFuel => exact h

theorem Cut.bind (h : o.Cut) (f : α → Cursor → Outcome β) : (o.bind f).Cut := by
  cases o with
  | ok => exact h.elim
  | error | outOfFuel => exact h

theorem Cut.map (h : o.Cut) (f : α → β) : (o.map f).Cut := by
  cases o with
  | ok => exact h.elim
  | error | outOfFuel => exact h

/-- `o` is what a step does on tokens that it does `o'` on when those of `r` follow: the same, or
they part where `o` meets the end of its tokens, having dropped the same until then. -/
inductive Parts (r : Cursor) : Outcome α → Outcome α → Prop
  | ok (value : α) (dropped : List ParseError) {c : Cursor} : c.tokens ≠ [] →
      Parts r (ok value c dropped) (ok value (c.append r) dropped)
  | error (cause : ParseError) (dropped : List ParseError) {c : Cursor} : c.tokens ≠ [] →
      Parts r (error cause c dropped) (error cause (c.append r) dropped)
  | ended (dropped : List ParseError) {o o' : Outcome α} : o.Ended →
      Parts r (o.after dropped) (o'.after dropped)

theorem Ended.parts (h : o.Ended) (o' : Outcome α) : o.Parts r o' := by
  have parts : (o.after []).Parts r (o'.after []) := .ended [] h
  simpa using parts

theorem outOfFuel_parts (o' : Outcome α) : outOfFuel.Parts r o' :=
  Ended.parts (o := outOfFuel) trivial o'

theorem Parts.after (h : o.Parts r o') (es : List ParseError) :
    (o.after es).Parts r (o'.after es) := by
  cases h with
  | ok v fs h => exact .ok v (es ++ fs) h
  | error cause fs h => exact .error cause (es ++ fs) h
  | ended fs h => simpa using Parts.ended (es ++ fs) h

theorem map_after (f : α → β) (o : Outcome α) (es : List ParseError) :
    (o.after es).map f = (o.map f).after es := by
  cases o <;> rfl

theorem map_map {γ : Type} (f : α → β) (g : β → γ) (o : Outcome α) :
    (o.map f).map g = o.map (g ∘ f) := by
  cases o <;> rfl

theorem bind_after (o : Outcome α) (f : α → Cursor → Outcome β) (es : List ParseError) :
    (o.after es).bind f = (o.bind f).after es := by
  cases o with
  | ok v c fs => exact (after_after es fs (f v c)).symm
  | error | outOfFuel => rfl

theorem Parts.map (h : o.Parts r o') (f : α → β) : (o.map f).Parts r (o'.map f) := by
  cases h with
  | ok v es h => exact .ok (f v) es h
  | error cause es h => exact .error cause es h
  | ended es h =>
    rw [map_after, map_after]
    exact .ended es (ended_map.2 h)

/-- What follows is compared only where more tokens are to come. -/
theorem Parts.bind {f f' : α → Cursor → Outcome β} (h : o.Parts r o')
    (within : ∀ v c, c.tokens.tail ≠ [] → (f v c).Parts r (f' v (c.append r)))
    (atEnd : ∀ v c, c.tokens.tail = [] → (f v c).Ended) : (o.bind f).Parts r (o'.bind f') := by
  cases h with
  | @ok v es c ne =>
    by_cases last : c.tokens.tail = []
    · exact ((atEnd v c last).parts _).after es
    · exact (within v c last).after es
  | error cause es ne => exact .error cause es ne
  | ended es h =>
    rw [bind_after, bind_after]
    exact .ended es (h.bind atEnd)

/-- If all goes well with the whole, what is wrong with its beginning is only that it ends. -/
theorem Parts.isUnexpectedEnd_of_ok {v v' : α} {c c' : Cursor} {es : List ParseError}
    (h : (Outcome.ok v c es).Parts r (Outcome.ok v' c' [])) :
    ∀ e ∈ es, e.isUnexpectedEnd = true := by
  generalize ho : Outcome.ok v c es = o at h
  generalize ho' : Outcome.ok v' c' [] = o' at h
  cases h with
  | ok w ds h =>
    cases ho
    cases ho'
    simp
  | error => cases ho
  | @ended ds o o' h =>
    cases o with
    | ok w c₁ fs =>
      cases ho
      cases o' with
      | ok w' c₂ gs =>
        simp only [Outcome.after, Outcome.ok.injEq, List.nil_eq_append_iff] at ho'
        rw [ho'.2.2.1]
        exact h.2
      | error | outOfFuel => cases ho'
    | error | outOfFuel => cases ho

/-- What a list of statements makes of its first one. One that failed is dropped. -/
def thenRest {σ : Type} [TokenSource σ] (rest : Cursor σ → Outcome (List Stmt) σ) :
    Outcome Stmt σ → Outcome (List Stmt) σ
  | ok first c dropped => ((rest c.advance).map (first :: ·)).after dropped
  | error cause c dropped => (rest c.skipSemicolon.advance).after (dropped ++ [cause])
  | outOfFuel => outOfFuel

theorem thenRest_after (rest : Cursor → Outcome (List Stmt)) (o : Outcome Stmt)
    (es : List ParseError) : (o.after es).thenRest rest = (o.thenRest rest).after es := by
  cases o with
  | ok first c fs => exact (after_after es fs _).symm
  | error cause c fs =>
    have nested := after_after es (fs ++ [cause]) (rest c.skipSemicolon.advance)
    rw [← List.append_assoc] at nested
    exact nested.symm
  | outOfFuel => rfl

theorem Ended.thenRest {rest : Cursor → Outcome (List Stmt)} {o : Outcome Stmt} (h : o.Ended)
    (atEnd : ∀ c, c.tokens = [] → (rest c).Ended) : (o.thenRest rest).Ended := by
  cases o with
  | ok first c es => exact (ended_map.2 (atEnd _ h.1)).after h.2
  | error cause c es =>
    have next : c.skipSemicolon.advance.tokens = [] := by
      rw [Cursor.skipSemicolon_of_tail h.1]
      exact h.1
    exact (atEnd _ next).after (List.forall_mem_append.2 ⟨h.2.2, by simpa using h.2.1⟩)
  | outOfFuel => trivial

theorem Parts.thenRest {rest : Cursor → Outcome (List Stmt)} {o o' : Outcome Stmt}
    (h : o.Parts r o') (within : ∀ c, (rest c).Parts r (rest (c.append r)))
    (atEnd : ∀ c, c.tokens = [] → (rest c).Ended) :
    (o.thenRest rest).Parts r (o'.thenRest rest) := by
  cases h with
  | ok first es ne =>
    simp only [Outcome.thenRest, Cursor.advance_append ne]
    exact ((within _).map _).after es
  | @error cause es c ne =>
    by_cases last : c.tokens.tail = []
    · have next : c.skipSemicolon.advance.tokens = [] := by
        rw [Cursor.skipSemicolon_of_tail last]
        exact last
      exact ((atEnd _ next).parts _).after _
    · simp only [Outcome.thenRest, Cursor.skipSemicolon_append last,
        Cursor.advance_append (Cursor.skipSemicolon_ne_nil last)]
      exact (within _).after _
  | ended es h =>
    rw [thenRest_after, thenRest_after]
    exact .ended es (h.thenRest atEnd)

end Outcome

namespace Cursor

variable {r c : Cursor} {kind : Kind}

theorem expect_cut (last : c.tokens.tail = []) (hk : kind ≠ .eof) : (c.expect kind).Cut := by
  simp [expect, peekIs_of_tail last hk, Outcome.Cut, Outcome.Ended, last, unexpected,
    peek_of_tail last, ParseError.isUnexpectedEnd]

theorem expect_parts (ne : c.tokens ≠ []) (hk : kind ≠ .eof) :
    (c.expect kind).Parts r ((c.append r).expect kind) := by
  by_cases last : c.tokens.tail = []
  · exact (expect_cut last hk).ended.parts _
  unfold expect
  rw [peekIs_append last, peek_append last, advance_append ne]
  split
  · exact .ok _ _ last
  · exact .error _ _ ne

end Cursor

namespace Parser

open Outcome Cursor

variable {r c : Cursor}

theorem statements_succ {σ : Type} [TokenSource σ] (n : Nat) (closes : Kind → Bool)
    (c : Cursor σ) :
    statements (n + 1) closes c =
      if closes c.current.kind then .ok [] c []
      else (statement n c).thenRest (statements n closes) := by
  simp only [statements]
  split
  · rfl
  · cases statement n c <;> rfl

/-! ### At the end

Only an expression that needs nothing more, and a list of statements can end there. -/

theorem operand_cut (n : Nat) (hc : c.tokens = []) : (operand n c).Cut := by
  cases n with
  | zero => trivial
  | succ n => simp [operand, current_of_nil hc, Cut, Ended, hc, ParseError.isUnexpectedEnd]

theorem expression_cut (n : Nat) (floor : Precedence) (hc : c.tokens = []) :
    (expression n floor c).Cut := by
  cases n with
  | zero => trivial
  | succ n => exact (operand_cut n hc).bind _

theorem climb_ended (n : Nat) (floor : Precedence) (left : Expr) (last : c.tokens.tail = []) :
    (climb n floor left c).Ended := by
  cases n with
  | zero => trivial
  | succ n =>
    have stops : ¬ floor < c.peekPrecedence := by
      rw [peekPrecedence_of_tail last]
      exact Nat.not_lt_zero _
    simp [climb, stops, Ended, last]

theorem parameters_cut (n : Nat) (last : c.tokens.tail = []) : (parameters n c).Cut := by
  cases n with
  | zero => trivial
  | succ n =>
    rw [parameters, if_neg (by simp [peekIs_of_tail last])]
    exact (expect_cut last (by decide)).bind _

theorem arguments_cut (n : Nat) (last : c.tokens.tail = []) : (arguments n c).Cut := by
  cases n with
  | zero => trivial
  | succ n =>
    rw [arguments, if_neg (by simp [peekIs_of_tail last])]
    exact (expression_cut n .lowest last).bind _

theorem statements_ended (n : Nat) {closes : Kind → Bool} (he : closes .eof = true)
    (hc : c.tokens = []) : (statements n closes c).Ended := by
  cases n with
  | zero => trivial
  | succ n =>
    rw [statements, if_pos (by rw [current_of_nil hc, he])]
    simp [Ended, hc]

theorem block_cut (n : Nat) (last : c.tokens.tail = []) : (block n c).Cut := by
  have eof : c.advance.current.kind = .eof := current_of_nil last
  match n with
  | 0 | 1 => trivial
  | n + 2 =>
    simp [block, statements, eof, Outcome.bind, Outcome.after, Cut, Ended, last, unexpected,
      ParseError.isUnexpectedEnd]

/-- A statement is complete without a semicolon. -/
theorem skipSemicolon_ended {s : Stmt} (last : c.tokens.tail = []) :
    (Outcome.ok s c.skipSemicolon []).Ended := by
  rw [skipSemicolon_of_tail last]
  exact ⟨last, by simp⟩

/-! ### On the way there -/

theorem skipSemicolon_parts (f : Token → Stmt) (more : c.tokens.tail ≠ []) :
    (Outcome.ok (f c.skipSemicolon.current) c.skipSemicolon []).Parts r
      (Outcome.ok (f (c.append r).skipSemicolon.current) (c.append r).skipSemicolon []) := by
  have ne := skipSemicolon_ne_nil more
  rw [skipSemicolon_append more, current_append ne]
  exact .ok _ _ ne

theorem integer_parts (ne : c.tokens ≠ []) : (integer c).Parts r (integer (c.append r)) := by
  unfold integer
  rw [current_append ne]
  split
  · exact .ok _ _ ne
  · exact .error _ _ ne

theorem parameters_parts (n : Nat) (ne : c.tokens ≠ []) :
    (parameters n c).Parts r (parameters n (c.append r)) := by
  induction n generalizing c with
  | zero => exact outOfFuel_parts _
  | succ n ih =>
    by_cases last : c.tokens.tail = []
    · exact (parameters_cut (n + 1) last).ended.parts _
    simp only [parameters]
    rw [peekIs_append last, advance_append ne]
    split
    · exact .ok _ _ last
    refine (expect_parts ne (by decide)).bind (fun name c last => ?_) fun name c last => ?_
    · rw [peekIs_append last, advance_append (ne_nil_of_tail last)]
      split
      · exact (ih last).map _
      · exact (expect_parts (ne_nil_of_tail last) (by decide)).map _
    · rw [if_neg (by simp [peekIs_of_tail last])]
      exact ((expect_cut last (by decide)).map _).ended

mutual

theorem expression_parts (n : Nat) (floor : Precedence) (c : Cursor) :
    (expression n floor c).Parts r (expression n floor (c.append r)) := by
  match n with
  | 0 => exact outOfFuel_parts _
  | n + 1 =>
    simp only [expression]
    exact (operand_parts n c).bind (fun left c more => climb_parts n floor left more)
      fun left c last => climb_ended n floor left last
termination_by structural n

theorem operand_parts (n : Nat) (c : Cursor) :
    (operand n c).Parts r (operand n (c.append r)) := by
  match n with
  | 0 => exact outOfFuel_parts _
  | n + 1 =>
    by_cases ne : c.tokens = []
    · exact (operand_cut (n + 1) ne).ended.parts _
    simp only [operand]
    rw [current_append ne, advance_append ne]
    split
    case h_1 | h_3 | h_4 => exact .ok _ _ ne
    case h_2 => exact integer_parts ne
    case h_5 | h_6 =>
      exact (expression_parts n .unary _).bind
        (fun right c more => .ok _ _ (ne_nil_of_tail more)) fun right c last => ⟨last, by simp⟩
    case h_7 =>
      exact (expression_parts n .lowest _).bind
        (fun inner c more => (expect_parts (ne_nil_of_tail more) (by decide)).map _)
        fun inner c last => ((expect_cut last (by decide)).map _).ended
    case h_8 => exact conditional_parts n ne
    case h_9 => exact function_parts n ne
    case h_10 => exact .error _ _ ne
termination_by structural n

theorem climb_parts (n : Nat) (floor : Precedence) (left : Expr) {c : Cursor}
    (more : c.tokens.tail ≠ []) :
    (climb n floor left c).Parts r (climb n floor left (c.append r)) := by
  match n with
  | 0 => exact outOfFuel_parts _
  | n + 1 =>
    have ne := ne_nil_of_tail more
    simp only [climb]
    rw [peekPrecedence_append more, peek_append more, advance_append ne, advance_append more]
    split
    · split
      · refine (arguments_parts n more).bind (fun args c more => ?_)
          fun args c last => climb_ended n floor _ last
        rw [current_append (ne_nil_of_tail more)]
        exact climb_parts n floor _ more
      · exact (expression_parts n _ _).bind (fun right c more => climb_parts n floor _ more)
          fun right c last => climb_ended n floor _ last
    · exact .ok _ _ ne
termination_by structural n

theorem arguments_parts (n : Nat) {c : Cursor} (ne : c.tokens ≠ []) :
    (arguments n c).Parts r (arguments n (c.append r)) := by
  match n with
  | 0 => exact outOfFuel_parts _
  | n + 1 =>
    by_cases last : c.tokens.tail = []
    · exact (arguments_cut (n + 1) last).ended.parts _
    simp only [arguments]
    rw [peekIs_append last, advance_append ne]
    split
    · exact .ok _ _ last
    refine (expression_parts n .lowest _).bind (fun first c more => ?_) fun first c last => ?_
    · have ne := ne_nil_of_tail more
      rw [peekIs_append more, advance_append ne]
      split
      · exact (arguments_parts n more).map _
      · exact (expect_parts ne (by decide)).map _
    · rw [if_neg (by simp [peekIs_of_tail last])]
      exact ((expect_cut last (by decide)).map _).ended
termination_by structural n

theorem conditional_parts (n : Nat) {c : Cursor} (ne : c.tokens ≠ []) :
    (conditional n c).Parts r (conditional n (c.append r)) := by
  match n with
  | 0 => exact outOfFuel_parts _
  | n + 1 =>
    simp only [conditional]
    rw [current_append ne]
    refine (expect_parts ne (by decide)).bind (fun _ c more => ?_)
      fun _ c last => ((expression_cut n .lowest last).bind _).ended
    rw [advance_append (ne_nil_of_tail more)]
    refine (expression_parts n .lowest _).bind (fun test c more => ?_)
      fun test c last => ((expect_cut last (by decide)).bind _).ended
    refine (expect_parts (ne_nil_of_tail more) (by decide)).bind (fun _ c more => ?_)
      fun _ c last => ((expect_cut last (by decide)).bind _).ended
    refine (expect_parts (ne_nil_of_tail more) (by decide)).bind (fun _ c more => ?_)
      fun _ c last => ((block_cut n last).bind _).ended
    refine (block_parts n (ne_nil_of_tail more)).bind (fun consequence c more => ?_)
      fun consequence c last => ?_
    · have ne := ne_nil_of_tail more
      rw [peekIs_append more, advance_append ne]
      split
      · exact (expect_parts more (by decide)).bind
          (fun _ c more => (block_parts n (ne_nil_of_tail more)).map _)
          fun _ c last => ((block_cut n last).map _).ended
      · exact .ok _ _ ne
    · rw [if_neg (by simp [peekIs_of_tail last])]
      exact ⟨last, by simp⟩
termination_by structural n

theorem function_parts (n : Nat) {c : Cursor} (ne : c.tokens ≠ []) :
    (function n c).Parts r (function n (c.append r)) := by
  match n with
  | 0 => exact outOfFuel_parts _
  | n + 1 =>
    simp only [function]
    rw [current_append ne]
    refine (expect_parts ne (by decide)).bind (fun _ c more => ?_)
      fun _ c last => ((parameters_cut n last).bind _).ended
    refine (parameters_parts n (ne_nil_of_tail more)).bind (fun params c more => ?_)
      fun params c last => ((expect_cut last (by decide)).bind _).ended
    exact (expect_parts (ne_nil_of_tail more) (by decide)).bind
      (fun _ c more => (block_parts n (ne_nil_of_tail more)).map _)
      fun _ c last => ((block_cut n last).map _).ended
termination_by structural n

theorem block_parts (n : Nat) {c : Cursor} (ne : c.tokens ≠ []) :
    (block n c).Parts r (block n (c.append r)) := by
  match n with
  | 0 => exact outOfFuel_parts _
  | n + 1 =>
    simp only [block]
    rw [current_append ne, advance_append ne]
    refine (statements_parts n rfl _).bind (fun body c more => ?_) fun body c last => ?_
    · have ne := ne_nil_of_tail more
      rw [current_append ne]
      split
      · exact .error _ _ ne
      · exact .ok _ _ ne
    · split
      · next he => exact ⟨last, by simp [unexpected, he, ParseError.isUnexpectedEnd], by simp⟩
      · exact ⟨last, by simp⟩
termination_by structural n

theorem statements_parts (n : Nat) {closes : Kind → Bool} (he : closes .eof = true)
    (c : Cursor) : (statements n closes c).Parts r (statements n closes (c.append r)) := by
  match n with
  | 0 => exact outOfFuel_parts _
  | n + 1 =>
    by_cases ne : c.tokens = []
    · exact (statements_ended (n + 1) he ne).parts _
    rw [statements_succ, statements_succ, current_append ne]
    split
    · exact .ok _ _ ne
    · exact (statement_parts n ne).thenRest (fun c => statements_parts n he c)
        fun c hc => statements_ended n he hc
termination_by structural n

theorem statement_parts (n : Nat) {c : Cursor} (ne : c.tokens ≠ []) :
    (statement n c).Parts r (statement n (c.append r)) := by
  match n with
  | 0 => exact outOfFuel_parts _
  | n + 1 =>
    simp only [statement]
    rw [current_append ne]
    split
    · exact binding_parts n ne
    · exact ret_parts n ne
    · exact expressionStatement_parts n ne
termination_by structural n

theorem binding_parts (n : Nat) {c : Cursor} (ne : c.tokens ≠ []) :
    (binding n c).Parts r (binding n (c.append r)) := by
  match n with
  | 0 => exact outOfFuel_parts _
  | n + 1 =>
    simp only [binding]
    rw [current_append ne]
    refine (expect_parts ne (by decide)).bind (fun name c more => ?_)
      fun name c last => ((expect_cut last (by decide)).bind _).ended
    refine (expect_parts (ne_nil_of_tail more) (by decide)).bind (fun _ c more => ?_)
      fun _ c last => ((expression_cut n .lowest last).bind _).ended
    rw [advance_append (ne_nil_of_tail more)]
    refine (expression_parts n .lowest _).bind (fun value c more => ?_)
      fun value c last => skipSemicolon_ended last
    exact skipSemicolon_parts (fun t => .bind _ _ value ⟨_, t.span.stop⟩) more
termination_by structural n

theorem ret_parts (n : Nat) {c : Cursor} (ne : c.tokens ≠ []) :
    (ret n c).Parts r (ret n (c.append r)) := by
  match n with
  | 0 => exact outOfFuel_parts _
  | n + 1 =>
    simp only [ret]
    rw [current_append ne, advance_append ne]
    refine (expression_parts n .lowest _).bind (fun value c more => ?_)
      fun value c last => skipSemicolon_ended last
    exact skipSemicolon_parts (fun t => .ret _ value ⟨_, t.span.stop⟩) more
termination_by structural n

theorem expressionStatement_parts (n : Nat) {c : Cursor} (ne : c.tokens ≠ []) :
    (expressionStatement n c).Parts r (expressionStatement n (c.append r)) := by
  match n with
  | 0 => exact outOfFuel_parts _
  | n + 1 =>
    simp only [expressionStatement]
    rw [current_append ne]
    refine (expression_parts n .lowest _).bind (fun value c more => ?_)
      fun value c last => skipSemicolon_ended last
    exact skipSemicolon_parts (fun t => .expr _ value ⟨_, t.span.stop⟩) more
termination_by structural n

end

/-! ### Programs -/

/-- The fuel for a longer list reads its beginning just as well. -/
theorem statements_fuel_append (w u : List Token) :
    statements (fuel (.ofTokens (w ++ u))) (· = .eof) (.ofTokens w) = program (.ofTokens w) := by
  have enough : fuel (.ofTokens w) ≤ fuel (.ofTokens (w ++ u)) := by
    simp only [fuel_ofTokens, List.length_append]
    omega
  have ends : program (.ofTokens w) ≠ .outOfFuel := by
    obtain ⟨ss, c, es, h⟩ := exists_program_eq_ok (.ofTokens w)
    simp [h]
  exact ((statements_below enough _ (.ofTokens w)).eq ends).symm

/-- The tokens of a program decide it, however much fuel there is beyond what they need. -/
theorem parseTokens_eq_of_statements {n : Nat} {s : List Token} {ss : List Stmt} {c : Cursor}
    {es : List ParseError} (h : statements n (· = .eof) (.ofTokens s) = .ok ss c es) :
    parseTokens s = ⟨⟨ss⟩, es⟩ := by
  obtain ⟨ss', c', es', hp⟩ := exists_program_eq_ok (.ofTokens s)
  have same : program (.ofTokens s) = statements n (· = .eof) (.ofTokens s) :=
    statements_eq_of_ne (by rw [← program, hp]; nofun) (by rw [h]; nofun)
  rw [parseTokens, read_eq (same.trans h)]

theorem program_parts (w u : List Token) :
    (program (.ofTokens w)).Parts ⟨u, (Cursor.ofTokens (w ++ u)).stop⟩
      (program (.ofTokens (w ++ u))) := by
  rw [← statements_fuel_append w u]
  exact statements_parts _ rfl (.ofTokens w)

end Parser

/-- If some continuation makes a list of tokens a program without errors, then all that is wrong
with the list alone is that it ends: with any other error in it, no continuation can make it
right. -/
theorem isUnexpectedEnd_of_continuation (w : List Token) :
    (∀ u, (parseTokens (w ++ u)).errors = [] →
      ∀ e ∈ (parseTokens w).errors, e.isUnexpectedEnd = true) ∧
    ((∃ e ∈ (parseTokens w).errors, e.isUnexpectedEnd = false) →
      ∀ u, (parseTokens (w ++ u)).errors ≠ []) := by
  have incomplete : ∀ u, (parseTokens (w ++ u)).errors = [] →
      ∀ e ∈ (parseTokens w).errors, e.isUnexpectedEnd = true := by
    intro u accepted
    have parts := Parser.program_parts w u
    obtain ⟨ss, c, es, short⟩ := Parser.exists_program_eq_ok (.ofTokens w)
    obtain ⟨ss', c', es', long⟩ := Parser.exists_program_eq_ok (.ofTokens (w ++ u))
    simp only [parseTokens, Parser.read, short, long] at accepted ⊢
    subst accepted
    rw [short, long] at parts
    exact parts.isUnexpectedEnd_of_ok
  refine ⟨incomplete, ?_⟩
  rintro ⟨e, he, other⟩ u accepted
  simp [incomplete u accepted e he] at other

/-- `if (a) { b`, with the block left open. -/
def openBlock : List Token :=
  [⟨.ifWord, "if", ⟨0, 2⟩⟩, ⟨.lparen, "(", ⟨3, 4⟩⟩, ⟨.ident, "a", ⟨4, 5⟩⟩, ⟨.rparen, ")", ⟨5, 6⟩⟩,
    ⟨.lbrace, "\x7b", ⟨7, 8⟩⟩, ⟨.ident, "b", ⟨9, 10⟩⟩]

/-- `a ) b`, where nothing was opened. -/
def strayParenthesis : List Token :=
  [⟨.ident, "a", ⟨0, 1⟩⟩, ⟨.rparen, ")", ⟨2, 3⟩⟩, ⟨.ident, "b", ⟨4, 5⟩⟩]

theorem isUnexpectedEnd_of_continuation_openBlock :
    ((parseTokens (openBlock ++ [⟨.rbrace, "\x7d", ⟨11, 12⟩⟩])).errors = [] ∧
      (parseTokens openBlock).errors ≠ [] ∧
      ∀ e ∈ (parseTokens openBlock).errors, e.isUnexpectedEnd = true) ∧
    ((∃ e ∈ (parseTokens strayParenthesis).errors, e.isUnexpectedEnd = false) ∧
      (parseTokens (strayParenthesis ++ openBlock)).errors ≠ []) := by
  have completed : (parseTokens (openBlock ++ [⟨.rbrace, "\x7d", ⟨11, 12⟩⟩])).errors = [] := by
    decide
  have stray : ∃ e ∈ (parseTokens strayParenthesis).errors, e.isUnexpectedEnd = false := by
    decide
  exact ⟨⟨completed, by decide, (isUnexpectedEnd_of_continuation openBlock).1 _ completed⟩, stray,
    (isUnexpectedEnd_of_continuation strayParenthesis).2 stray openBlock⟩

end LetFn
