import LetFn.Proofs.Parser.Local
import LetFn.Proofs.Parser.Soundness
import LetFn.Proofs.Program.Node

/-! Which tokens the nodes of a program were read from, also where others were skipped to recover
from an error: a row of them, in the order of the tree, and with parentheses left out at its
ends. -/

namespace LetFn

open Grammar

/-! ### Tokens taken -/

namespace Cursor

variable {c c₁ c₂ : Cursor} {v w : List Token}

theorem advance_suffix {ts : List Token} (hc : c.tokens <:+ ts) : c.advance.tokens <:+ ts :=
  (List.tail_suffix c.tokens).trans hc

theorem skipSemicolon_suffix {ts : List Token} (hc : c.tokens <:+ ts) :
    c.skipSemicolon.tokens <:+ ts := by
  unfold Cursor.skipSemicolon
  split
  · exact advance_suffix hc
  · exact hc

theorem skipSemicolon_ends (c : Cursor) :
    c.skipSemicolon.current.kind = .semicolon ∨ c.skipSemicolon.peek.kind ≠ .semicolon := by
  unfold Cursor.skipSemicolon
  split
  · next hk => exact .inl (peekIs_iff.1 hk)
  · next hk => exact .inr (mt peekIs_iff.2 hk)

/-- Reading `w` from `c` on stops at `c₁`, which is at the last token of `w` and not at the end. -/
structure Takes (c : Cursor) (w : List Token) (c₁ : Cursor) : Prop extends Reads c w c₁ where
  more : c₁.current.kind ≠ .eof

namespace Takes

theorem current (h : c.current.kind ≠ .eof) : c.Takes [c.current] c := ⟨.current h, h⟩

theorem peek (h : c.peek.kind ≠ .eof) : c.advance.Takes [c.peek] c.advance :=
  current (c := c.advance) h

theorem trans (h₁ : c.Takes v c₁) (h₂ : c₁.advance.Takes w c₂) : c.Takes (v ++ w) c₂ :=
  ⟨h₁.toReads.trans h₂.toReads, h₂.more⟩

theorem ne_nil (h : c.Takes w c₁) : w ≠ [] := by
  rintro rfl
  cases h.last

theorem suffix {ts : List Token} (h : c.Takes w c₁) (hc : c.tokens <:+ ts) :
    c₁.tokens <:+ ts := by
  obtain ⟨v, rfl⟩ := List.getLast?_eq_some_iff.1 h.last
  refine List.IsSuffix.trans ⟨v, ?_⟩ hc
  rw [h.tokens, tokens_eq_cons h.more, List.append_assoc, List.singleton_append]

theorem extent_eq (h : c.Takes w c₁) :
    extent w = ⟨c.current.span.start, c₁.current.span.stop⟩ := by
  obtain ⟨t, w, rfl⟩ := List.exists_cons_of_ne_nil h.ne_nil
  have first : c.current = t := by
    rw [Cursor.current_eq_headD, h.tokens]
    rfl
  rw [first]
  exact Grammar.extent_eq rfl h.last

/-- The semicolon behind a statement is taken with it. -/
theorem skipSemicolon (h : c.Takes w c₁) : ∃ s, c.Takes (w ++ s) c₁.skipSemicolon := by
  unfold Cursor.skipSemicolon
  split
  · next hk =>
    rw [peekIs_iff] at hk
    exact ⟨[c₁.peek], h.trans (.peek (by simp [hk]))⟩
  · exact ⟨[], by simpa using h⟩

end Takes

end Cursor

/-! ### What is known of statements -/

/-- The statement `s` is read from exactly the tokens `w` of `all`. It ends with a semicolon, or
there is none behind it. What is dropped within it is among `es`. -/
def ReadFrom (all : List Token) (es : List ParseError) (w : List Token) (s : Stmt) : Prop :=
  ∃ n c c' dropped, c.tokens <:+ all ∧ Parser.statement n c = .ok s c' dropped ∧ c.Takes w c' ∧
    dropped ⊆ es ∧ (c'.current.kind = .semicolon ∨ c'.peek.kind ≠ .semicolon)

/-- Tokens are themselves; statements are read anew from their tokens. -/
def Known (all : List Token) (es : List ParseError) (w : List Token) : Node → Prop
  | .token t => w = [t]
  | .stmt s => ReadFrom all es w s
  | .name _ | .expr _ | .block _ => True

namespace Outcome

variable {α β : Type} {es : List ParseError} {G : α → Cursor → Prop}

/-- If all errors dropped on the way are among `es`, the result is as `G` says. -/
def Leaves (es : List ParseError) (G : α → Cursor → Prop) : Outcome α → Prop
  | ok value next dropped => dropped ⊆ es → G value next
  | error _ _ _ | outOfFuel => True

theorem Leaves.after {o : Outcome α} (ho : o.Leaves es G) (fs : List ParseError) :
    (o.after fs).Leaves es G := by
  cases o with
  | ok value next dropped => exact fun sub => ho (List.append_subset.1 sub).2
  | error | outOfFuel => trivial

@[simp] theorem leaves_map {H : β → Cursor → Prop} {f : α → β} {o : Outcome α} :
    (o.map f).Leaves es H ↔ o.Leaves es fun v => H (f v) := by
  cases o <;> rfl

theorem Leaves.mono {G' : α → Cursor → Prop} {o : Outcome α} (ho : o.Leaves es G)
    (h : ∀ v c, G v c → G' v c) : o.Leaves es G' := by
  cases o with
  | ok value next dropped => exact fun sub => h value next (ho sub)
  | error | outOfFuel => trivial

theorem Leaves.bind {H : β → Cursor → Prop} {o : Outcome α} {f : α → Cursor → Outcome β}
    (ho : o.Leaves es G) (hf : ∀ v c, G v c → (f v c).Leaves es H) : (o.bind f).Leaves es H := by
  cases o with
  | ok value next dropped =>
    simp only [Outcome.bind]
    cases h : f value next with
    | ok result next' dropped' =>
      intro sub
      rw [List.append_subset] at sub
      have second := hf value next (ho sub.1)
      rw [h] at second
      exact second sub.2
    | error | outOfFuel => trivial
  | error | outOfFuel => trivial

theorem Leaves.thenRest {c : Cursor} {G : Stmt → Cursor → Prop}
    {H : List Stmt → Cursor → Prop} {rest : Cursor → Outcome (List Stmt)} {o : Outcome Stmt}
    (ho : o.Leaves es G) (behind : o.Behind c)
    (hok : ∀ s (c' : Cursor), G s c' → ((rest c'.advance).map (s :: ·)).Leaves es H)
    (herr : ∀ c' : Cursor, c'.tokens <:+ c.tokens → (rest c'.skipSemicolon.advance).Leaves es H) :
    (o.thenRest rest).Leaves es H := by
  cases o with
  | ok s next dropped =>
    by_cases sub : dropped ⊆ es
    · exact (hok s next (ho sub)).after dropped
    · simp only [Outcome.thenRest]
      cases (rest next.advance).map (s :: ·) with
      | ok => exact fun sub' => (sub (List.append_subset.1 sub').1).elim
      | error | outOfFuel => trivial
  | error cause next dropped => exact (herr next behind).after _
  | outOfFuel => trivial

theorem leaves_expect_bind {H : β → Cursor → Prop} {c : Cursor} {kind : Kind}
    {f : Token → Cursor → Outcome β}
    (hf : c.peek.kind = kind → (f c.peek c.advance).Leaves es H) :
    ((c.expect kind).bind f).Leaves es H := by
  by_cases hk : c.peek.kind = kind
  · simpa [Cursor.expect, Cursor.peekIs, hk, Outcome.bind] using hf hk
  · simp [Cursor.expect, Cursor.peekIs, hk, Outcome.bind, Leaves]

theorem leaves_expect_map {H : β → Cursor → Prop} {c : Cursor} {kind : Kind} {f : Token → β}
    (hf : c.peek.kind = kind → H (f c.peek) c.advance) :
    ((c.expect kind).map f).Leaves es H := by
  by_cases hk : c.peek.kind = kind
  · simpa [Cursor.expect, Cursor.peekIs, hk, Outcome.map, Leaves] using hf hk
  · simp [Cursor.expect, Cursor.peekIs, hk, Outcome.map, Leaves]

end Outcome

/-! ### Steps from tokens to nodes -/

namespace Parser

open Outcome Cursor

variable {all : List Token} {es : List ParseError}

/-- From `c` up to `c'` the nodes are read, one behind the other. There may be other tokens in front
of them, between and behind them. -/
def Passes (all : List Token) (es : List ParseError) (c : Cursor) (ms : List Node) (c' : Cursor) :
    Prop :=
  ∃ w, c.Takes w c' ∧ Row (Lies (Known all es)) w ms

/-- All that is read from `c` up to `c'` is the node. -/
def Fills (all : List Token) (es : List ParseError) (c : Cursor) (m : Node) (c' : Cursor) : Prop :=
  ∃ w, c.Takes w c' ∧ Lies (Known all es) w m

/-- From `c` up to `c'` the node is read, with only parentheses in front of it and behind it. -/
def Reading (all : List Token) (es : List ParseError) (c : Cursor) (m : Node) (c' : Cursor) :
    Prop :=
  ∃ u w v, c.Takes (u ++ (w ++ v)) c' ∧ Lies (Known all es) w m

/-- From `c` up to the closing parenthesis at `c'` the nodes are read. -/
def Listing (all : List Token) (es : List ParseError) (c : Cursor) (ms : List Node) (c' : Cursor) :
    Prop :=
  ∃ w, c.Takes (w ++ [c'.current]) c' ∧ c'.current.kind = .rparen ∧
    Row (Lies (Known all es)) w ms

/-- A statement is read from `c` up to `c'`, where it has a semicolon or where there is none. -/
def Ended (all : List Token) (es : List ParseError) (c : Cursor) (s : Stmt) (c' : Cursor) : Prop :=
  Passes all es c (Node.stmt s).children c' ∧
    s.span = ⟨c.current.span.start, c'.current.span.stop⟩ ∧
    (c'.current.kind = .semicolon ∨ c'.peek.kind ≠ .semicolon)

theorem lies_token (t : Token) : Lies (Known all es) [t] (.token t) := .leaf rfl rfl rfl rfl

theorem lies_name (t : Token) : Lies (Known all es) [t] (.name ⟨t, t.literal⟩) :=
  .leaf rfl rfl rfl trivial

section

variable {c c₀ c₁ c₂ : Cursor} {m : Node} {ms ns : List Node}

theorem Passes.skip (hk : c.current.kind ≠ .eof) : Passes all es c [] c :=
  ⟨[c.current], .current hk, .nil _⟩

theorem Passes.trans (first : Passes all es c ms c₁) (rest : Passes all es c₁.advance ns c₂) :
    Passes all es c (ms ++ ns) c₂ := by
  obtain ⟨v, takes, row⟩ := first
  obtain ⟨w, takes', row'⟩ := rest
  exact ⟨v ++ w, takes.trans takes', row.append row'⟩

theorem Passes.suffix (h : Passes all es c ms c₁) (hc : c.tokens <:+ all) :
    c₁.tokens <:+ all := by
  obtain ⟨w, takes, -⟩ := h
  exact takes.suffix hc

theorem Passes.skipSemicolon (h : Passes all es c ms c₁) :
    Passes all es c ms c₁.skipSemicolon := by
  obtain ⟨w, takes, row⟩ := h
  obtain ⟨v, takes⟩ := takes.skipSemicolon
  exact ⟨w ++ v, takes, by simpa using row.append (.nil v)⟩

theorem Fills.token (hk : c.current.kind ≠ .eof) : Fills all es c (.token c.current) c :=
  ⟨[c.current], .current hk, lies_token _⟩

theorem Fills.passes (h : Fills all es c m c₁) : Passes all es c [m] c₁ := by
  obtain ⟨w, takes, lies⟩ := h
  exact ⟨[] ++ (w ++ []), by simpa using takes, .cons [] lies (.nil [])⟩

theorem Fills.reading (h : Fills all es c m c₁) : Reading all es c m c₁ := by
  obtain ⟨w, takes, lies⟩ := h
  exact ⟨[], w, [], by simpa using takes, lies⟩

theorem Fills.stop_eq (h : Fills all es c m c₁) : m.span.stop = c₁.current.span.stop := by
  obtain ⟨w, takes, lies⟩ := h
  rw [lies.span_eq, takes.extent_eq]

/-- A node that begins with the first token and ends with the last one. -/
theorem Passes.fills (h : Passes all es c m.children c₁)
    (span : m.span = ⟨c.current.span.start, c₁.current.span.stop⟩) (closing : m.closing? = none)
    (info : ∀ w, c.Takes w c₁ → Known all es w m) : Fills all es c m c₁ := by
  obtain ⟨w, takes, row⟩ := h
  exact ⟨w, takes, .of_row takes.ne_nil (span.trans takes.extent_eq.symm) row closing
    (info w takes)⟩

theorem Reading.passes (h : Reading all es c m c₁) : Passes all es c [m] c₁ := by
  obtain ⟨u, w, v, takes, lies⟩ := h
  exact ⟨u ++ (w ++ v), takes, .cons u lies (.nil v)⟩

theorem Reading.suffix (h : Reading all es c m c₁) (hc : c.tokens <:+ all) :
    c₁.tokens <:+ all := by
  obtain ⟨u, w, v, takes, -⟩ := h
  exact takes.suffix hc

theorem Reading.paren (hl : c.current.kind ≠ .eof) (inner : Reading all es c.advance m c₁)
    (hr : c₁.peek.kind = .rparen) : Reading all es c m c₁.advance := by
  obtain ⟨u, w, v, takes, lies⟩ := inner
  have close : c₁.advance.Takes [c₁.peek] c₁.advance := .peek (by simp [hr])
  refine ⟨[c.current] ++ u, w, v ++ [c₁.peek], ?_, lies⟩
  simpa using (Takes.current hl).trans (takes.trans close)

/-- Parentheses that end the operand are not part of the whole. -/
theorem Reading.unary {operator : String} {right : Expr} (hk : c.current.kind ≠ .eof)
    (operand : Reading all es c.advance (.expr right) c₁) :
    Reading all es c
      (.expr (.unary c.current operator right ⟨c.current.span.start, right.span.stop⟩)) c₁ := by
  obtain ⟨u, w, v, takes, lies⟩ := operand
  refine ⟨[], [c.current] ++ (u ++ w), v, by simpa using (Takes.current hk).trans takes, ?_⟩
  refine .of_row (by simp) ?_ (.cons [] (lies_token _) ?_) rfl trivial
  · rw [extent_between (by simp) lies.ne_nil, ← lies.span_eq]
    rfl
  · simpa using Row.cons u lies (.nil [])

/-- Nor are those that the left operand begins with. -/
theorem Reading.binary {operator : String} {left right : Expr}
    (first : Reading all es c₀ (.expr left) c) (hk : c.peek.kind ≠ .eof)
    (second : Reading all es c.advance.advance (.expr right) c₁) :
    Reading all es c₀
      (.expr (.binary c.peek left operator right ⟨left.span.start, right.span.stop⟩)) c₁ := by
  obtain ⟨u, w, v, takes, lies⟩ := first
  obtain ⟨u', w', v', takes', lies'⟩ := second
  refine ⟨u, w ++ (v ++ ([c.peek] ++ u') ++ w'), v', ?_, ?_⟩
  · simpa using takes.trans ((Takes.peek hk).trans takes')
  · refine .of_row (by simp [lies.ne_nil]) ?_ ?_ rfl trivial
    · rw [extent_between lies.ne_nil lies'.ne_nil, ← lies.span_eq, ← lies'.span_eq]
      rfl
    · have rest : Row (Lies (Known all es)) ([] ++ ([c.peek] ++ (u' ++ (w' ++ []))))
          [.token c.peek, .expr right] := .cons [] (lies_token _) (.cons u' lies' (.nil []))
      simpa [Node.children] using Row.cons [] lies (rest.skip v)

theorem Reading.call {callee : Expr} {args : List Expr}
    (first : Reading all es c₀ (.expr callee) c) (hk : c.peek.kind ≠ .eof)
    (listing : Listing all es c.advance.advance (args.map .expr) c₁) :
    Reading all es c₀
      (.expr (.call c.peek callee args ⟨callee.span.start, c₁.current.span.stop⟩)) c₁ := by
  obtain ⟨u, w, v, takes, lies⟩ := first
  obtain ⟨x, takes', hr, row⟩ := listing
  refine ⟨u, w ++ (v ++ ([c.peek] ++ x)) ++ [c₁.current], [], ?_, ?_⟩
  · simpa using takes.trans ((Takes.peek hk).trans takes')
  · refine .mk (by simp) ?_ ?_ ⟨_, rfl, hr⟩ trivial
    · rw [List.append_assoc, extent_between lies.ne_nil (by simp), ← lies.span_eq]
      rfl
    · have rest : Row (Lies (Known all es)) ([] ++ ([c.peek] ++ x))
          (.token c.peek :: args.map .expr) := .cons [] (lies_token _) row
      exact .cons [] lies (rest.skip v)

theorem Listing.none (hr : c.current.kind = .rparen) : Listing all es c [] c :=
  ⟨[], .current (by simp [hr]), hr, .nil []⟩

theorem Listing.last (first : Reading all es c m c₁) (hr : c₁.peek.kind = .rparen) :
    Listing all es c [m] c₁.advance := by
  obtain ⟨u, w, v, takes, lies⟩ := first
  exact ⟨u ++ (w ++ v), takes.trans (.peek (by simp [hr])), hr, .cons u lies (.nil v)⟩

theorem Listing.cons (first : Reading all es c m c₁) (hk : c₁.peek.kind = .comma)
    (rest : Listing all es c₁.advance.advance ms c₂) : Listing all es c (m :: ms) c₂ := by
  obtain ⟨u, w, v, takes, lies⟩ := first
  obtain ⟨x, takes', hr, row⟩ := rest
  refine ⟨u ++ (w ++ (v ++ ([c₁.peek] ++ x))), ?_, hr, .cons u lies ((row.skip _).skip v)⟩
  simpa using takes.trans (.trans (.peek (by simp [hk])) takes')

theorem Listing.passes (h : Listing all es c ms c₁) : Passes all es c ms c₁ := by
  obtain ⟨w, takes, -, row⟩ := h
  exact ⟨_, takes, by simpa using row.append (.nil [c₁.current])⟩

end

/-! ### The parser -/

theorem integer_leaves {c : Cursor} (hk : c.current.kind = .int) :
    (integer c).Leaves es fun e c' => Reading all es c (.expr e) c' := by
  unfold integer
  split
  · refine fun _ => Fills.reading ⟨[c.current], .current (by simp [hk]), ?_⟩
    exact .leaf rfl rfl rfl trivial
  · trivial

theorem parameters_leaves (n : Nat) (c : Cursor) :
    (parameters n c).Leaves es fun names c' => Listing all es c.advance (names.map .name) c' := by
  induction n generalizing c with
  | zero => trivial
  | succ n ih =>
    simp only [parameters]
    split
    · next hp => exact fun _ => .none (c := c.advance) (peekIs_iff.1 hp)
    refine leaves_expect_bind fun hname => ?_
    have name : Reading all es c.advance (.name ⟨c.peek, c.peek.literal⟩) c.advance :=
      Fills.reading ⟨[c.peek], .peek (by simp [hname]), lies_name _⟩
    split
    · next hp =>
      exact leaves_map.2 ((ih c.advance.advance).mono fun names c' listing =>
        Listing.cons name (peekIs_iff.1 hp) listing)
    · exact leaves_expect_map fun hr => Listing.last name hr

mutual

theorem expression_leaves (n : Nat) (floor : Precedence) {c : Cursor} (hc : c.tokens <:+ all) :
    (expression n floor c).Leaves es fun e c' => Reading all es c (.expr e) c' := by
  match n with
  | 0 => trivial
  | n + 1 =>
    simp only [expression]
    exact (operand_leaves n hc).bind fun left c₁ reading => climb_leaves n floor hc reading
termination_by structural n

theorem operand_leaves (n : Nat) {c : Cursor} (hc : c.tokens <:+ all) :
    (operand n c).Leaves es fun e c' => Reading all es c (.expr e) c' := by
  match n with
  | 0 => trivial
  | n + 1 =>
    have behind : c.advance.tokens <:+ all := advance_suffix hc
    simp only [operand]
    split
    case h_1 hk | h_3 hk | h_4 hk =>
      refine fun _ => Fills.reading ⟨[c.current], .current (by simp [hk]), ?_⟩
      exact .leaf rfl rfl rfl trivial
    case h_2 hk => exact integer_leaves hk
    case h_5 hk | h_6 hk =>
      exact (expression_leaves n .unary behind).bind fun right c₁ operand _ =>
        .unary (by simp [hk]) operand
    case h_7 hk =>
      exact (expression_leaves n .lowest behind).bind fun inner c₁ reading =>
        leaves_expect_map fun hr => .paren (by simp [hk]) reading hr
    case h_8 hk => exact conditional_leaves n hc (by simp [hk])
    case h_9 hk => exact function_leaves n hc (by simp [hk])
    case h_10 => trivial
termination_by structural n

theorem climb_leaves (n : Nat) (floor : Precedence) {c₀ c : Cursor} {left : Expr}
    (hc : c₀.tokens <:+ all) (reading : Reading all es c₀ (.expr left) c) :
    (climb n floor left c).Leaves es fun e c' => Reading all es c₀ (.expr e) c' := by
  match n with
  | 0 => trivial
  | n + 1 =>
    have behind : c.advance.tokens <:+ all := advance_suffix (reading.suffix hc)
    simp only [climb]
    split
    · next hp =>
      have notEnd : c.peek.kind ≠ .eof := by
        intro hk
        rw [peekPrecedence, hk] at hp
        exact Nat.not_lt_zero _ hp
      split
      · exact (arguments_leaves n behind).bind fun args c₁ listing =>
          climb_leaves n floor hc (reading.call notEnd listing)
      · exact (expression_leaves n _ (advance_suffix behind)).bind fun right c₁ second =>
          climb_leaves n floor hc (reading.binary notEnd second)
    · exact fun _ => reading
termination_by structural n

theorem arguments_leaves (n : Nat) {c : Cursor} (hc : c.tokens <:+ all) :
    (arguments n c).Leaves es fun args c' => Listing all es c.advance (args.map .expr) c' := by
  match n with
  | 0 => trivial
  | n + 1 =>
    have behind : c.advance.tokens <:+ all := advance_suffix hc
    simp only [arguments]
    split
    · next hp => exact fun _ => .none (c := c.advance) (peekIs_iff.1 hp)
    refine (expression_leaves n .lowest behind).bind fun first c₁ reading => ?_
    have rest : c₁.advance.tokens <:+ all := advance_suffix (reading.suffix behind)
    split
    · next hp =>
      exact leaves_map.2 ((arguments_leaves n rest).mono fun args c' listing =>
        Listing.cons reading (peekIs_iff.1 hp) listing)
    · exact leaves_expect_map fun hr => Listing.last reading hr
termination_by structural n

theorem conditional_leaves (n : Nat) {c : Cursor} (hc : c.tokens <:+ all)
    (hk : c.current.kind ≠ .eof) :
    (conditional n c).Leaves es fun e c' => Reading all es c (.expr e) c' := by
  match n with
  | 0 => trivial
  | n + 1 =>
    simp only [conditional]
    refine leaves_expect_bind fun hl => ?_
    have behind : c.advance.advance.tokens <:+ all := advance_suffix (advance_suffix hc)
    refine (expression_leaves n .lowest behind).bind fun test c₁ reading => ?_
    refine leaves_expect_bind fun hr => leaves_expect_bind fun hb => ?_
    have behind : c₁.advance.advance.tokens <:+ all :=
      advance_suffix (advance_suffix (reading.suffix behind))
    refine (block_leaves n behind hb).bind fun consequence c₂ braced => ?_
    have word : Passes all es c [.token c.current] c := (Fills.token hk).passes
    have front : Passes all es c [.token c.current, .expr test, .block consequence] c₂ :=
      word.trans <| (Passes.skip (c := c.advance) (by simp [current_advance, hl])).trans <|
        reading.passes.trans <|
        (Passes.skip (c := c₁.advance) (by simp [current_advance, hr])).trans braced.passes
    split
    · next hp =>
      have hp := peekIs_iff.1 hp
      refine leaves_expect_bind fun hb' => leaves_map.2 ?_
      have behind : c₂.advance.advance.tokens <:+ all :=
        advance_suffix (advance_suffix (braced.passes.suffix behind))
      refine (block_leaves n behind hb').mono fun alternative c₃ braced' => Fills.reading ?_
      have other : Passes all es c₂.advance [.block alternative] c₃ :=
        (Passes.skip (by simp [current_advance, hp])).trans braced'.passes
      refine (front.trans other).fills ?_ rfl fun _ _ => trivial
      exact congrArg (Span.mk _) braced'.stop_eq
    · refine fun _ => Fills.reading (front.fills ?_ rfl fun _ _ => trivial)
      exact congrArg (Span.mk _) braced.stop_eq
termination_by structural n

theorem function_leaves (n : Nat) {c : Cursor} (hc : c.tokens <:+ all)
    (hk : c.current.kind ≠ .eof) :
    (function n c).Leaves es fun e c' => Reading all es c (.expr e) c' := by
  match n with
  | 0 => trivial
  | n + 1 =>
    simp only [function]
    refine leaves_expect_bind fun hl => ?_
    have parameters : (parameters n c.advance).Leaves es fun names c' =>
      Listing all es c.advance.advance (names.map .name) c' := parameters_leaves n c.advance
    refine parameters.bind fun names c₁ listing => ?_
    refine leaves_expect_bind fun hb => leaves_map.2 ?_
    have behind : c₁.advance.tokens <:+ all :=
      advance_suffix (listing.passes.suffix (advance_suffix (advance_suffix hc)))
    refine (block_leaves n behind hb).mono fun body c₂ braced => Fills.reading ?_
    have word : Passes all es c [.token c.current] c := (Fills.token hk).passes
    have whole : Passes all es c (.token c.current :: (names.map .name ++ [.block body])) c₂ :=
      word.trans <| (Passes.skip (c := c.advance) (by simp [current_advance, hl])).trans <|
        listing.passes.trans braced.passes
    refine whole.fills ?_ rfl fun _ _ => trivial
    exact congrArg (Span.mk _) braced.stop_eq
termination_by structural n

theorem block_leaves (n : Nat) {c : Cursor} (hc : c.tokens <:+ all)
    (hk : c.current.kind = .lbrace) :
    (block n c).Leaves es fun b c' => Fills all es c (.block b) c' := by
  match n with
  | 0 => trivial
  | n + 1 =>
    simp only [block]
    refine (statements_leaves n _ (advance_suffix hc)).bind fun ss c₁ inside => ?_
    obtain ⟨w, tokens, closes, row⟩ := inside
    split
    · trivial
    next he =>
    have hr : c₁.current.kind = .rbrace := by simpa [he] using closes
    have takes : c.Takes ([c.current] ++ w ++ [c₁.current]) c₁ := by
      refine ⟨⟨?_, List.getLast?_concat⟩, he⟩
      rw [tokens_eq_cons (c := c) (by simp [hk]), tokens, tokens_eq_cons he]
      simp
    refine fun _ => ⟨_, takes, .mk (by simp) takes.extent_eq.symm ?_ ⟨_, rfl, hr⟩ trivial⟩
    exact .cons [] (lies_token c.current) row
termination_by structural n

theorem statements_leaves (n : Nat) (closes : Kind → Bool) {c : Cursor} (hc : c.tokens <:+ all) :
    (statements n closes c).Leaves es fun ss c' => ∃ w, c.tokens = w ++ c'.tokens ∧
      closes c'.current.kind = true ∧ Row (Lies (Known all es)) w (ss.map .stmt) := by
  match n with
  | 0 => trivial
  | n + 1 =>
    rw [statements_succ]
    split
    · next closed => exact fun _ => ⟨[], rfl, closed, .nil []⟩
    refine (statement_leaves n hc).thenRest ((statement_local n).behind c) ?_ ?_
    · rintro s c₁ ⟨w, takes, lies⟩
      have behind : c₁.advance.tokens <:+ all := advance_suffix (takes.suffix hc)
      refine leaves_map.2 ((statements_leaves n closes behind).mono fun ss c₂ => ?_)
      rintro ⟨x, tokens, closed, row⟩
      exact ⟨w ++ x, by rw [takes.tokens, tokens, List.append_assoc], closed, .cons [] lies row⟩
    · intro c₁ skipped
      obtain ⟨v, hv⟩ : c₁.skipSemicolon.advance.tokens <:+ c.tokens :=
        advance_suffix (skipSemicolon_suffix skipped)
      have behind : c₁.skipSemicolon.advance.tokens <:+ all := List.IsSuffix.trans ⟨v, hv⟩ hc
      refine (statements_leaves n closes behind).mono fun ss c₂ => ?_
      rintro ⟨x, tokens, closed, row⟩
      exact ⟨v ++ x, by rw [← hv, tokens, List.append_assoc], closed, row.skip v⟩
termination_by structural n

theorem statement_leaves (n : Nat) {c : Cursor} (hc : c.tokens <:+ all) :
    (statement n c).Leaves es fun s c' => Fills all es c (.stmt s) c' := by
  match n with
  | 0 => trivial
  | n + 1 =>
    have ended : (statement (n + 1) c).Leaves es (Ended all es c) := by
      simp only [statement]
      split
      · next hk => exact binding_leaves n hc (by simp [hk])
      · next hk => exact ret_leaves n hc (by simp [hk])
      · exact expressionStatement_leaves n hc
    cases h : statement (n + 1) c with
    | ok s c' dropped =>
      rw [h] at ended
      intro sub
      obtain ⟨passes, span, semicolon⟩ := ended sub
      exact passes.fills span rfl fun w takes =>
        ⟨n + 1, c, c', dropped, hc, h, takes, sub, semicolon⟩
    | error | outOfFuel => trivial
termination_by structural n

theorem binding_leaves (n : Nat) {c : Cursor} (hc : c.tokens <:+ all)
    (hk : c.current.kind ≠ .eof) : (binding n c).Leaves es (Ended all es c) := by
  match n with
  | 0 => trivial
  | n + 1 =>
    simp only [binding]
    refine leaves_expect_bind fun hname => leaves_expect_bind fun ha => ?_
    have behind : c.advance.advance.advance.tokens <:+ all :=
      advance_suffix (advance_suffix (advance_suffix hc))
    refine (expression_leaves n .lowest behind).bind fun value c₁ reading _ => ?_
    have word : Passes all es c [.token c.current] c := (Fills.token hk).passes
    have name : Fills all es c.advance (.name ⟨c.peek, c.peek.literal⟩) c.advance :=
      ⟨[c.peek], .peek (by simp [hname]), lies_name _⟩
    have whole := word.trans <| name.passes.trans <|
      (Passes.skip (c := c.advance.advance) (by simp [current_advance, ha])).trans reading.passes
    exact ⟨whole.skipSemicolon, rfl, c₁.skipSemicolon_ends⟩
termination_by structural n

theorem ret_leaves (n : Nat) {c : Cursor} (hc : c.tokens <:+ all)
    (hk : c.current.kind ≠ .eof) : (ret n c).Leaves es (Ended all es c) := by
  match n with
  | 0 => trivial
  | n + 1 =>
    simp only [ret]
    refine (expression_leaves n .lowest (advance_suffix hc)).bind fun value c₁ reading _ => ?_
    have whole := (Fills.token hk).passes.trans reading.passes
    exact ⟨whole.skipSemicolon, rfl, c₁.skipSemicolon_ends⟩
termination_by structural n

theorem expressionStatement_leaves (n : Nat) {c : Cursor} (hc : c.tokens <:+ all) :
    (expressionStatement n c).Leaves es (Ended all es c) := by
  match n with
  | 0 => trivial
  | n + 1 =>
    simp only [expressionStatement]
    exact (expression_leaves n .lowest hc).bind fun value c₁ reading _ =>
      ⟨reading.passes.skipSemicolon, rfl, c₁.skipSemicolon_ends⟩
termination_by structural n

end

end Parser

/-! ### Whole programs -/

/-- The statements of a program lie in its tokens in a row. -/
theorem parseTokens_row (tokens : List Token) :
    ∃ w, w <+: tokens ∧ Row (Lies (Known tokens (parseTokens tokens).errors)) w
      ((parseTokens tokens).program.statements.map .stmt) := by
  obtain ⟨ss, c, es, run⟩ := Parser.exists_program_eq_ok (.ofTokens tokens)
  rw [Parser.parseTokens_eq_of_statements run]
  have all : (Cursor.ofTokens tokens).tokens <:+ tokens := List.suffix_rfl
  have leaves : (Parser.program (.ofTokens tokens)).Leaves es _ :=
    Parser.statements_leaves _ (· = .eof) all
  rw [run] at leaves
  obtain ⟨w, parts, -, row⟩ := leaves (List.Subset.refl es)
  exact ⟨w, ⟨c.tokens, parts.symm⟩, row⟩

section

variable {ts : List Token} {stop : Nat}

/-- No statement ends with the token that marks the end. -/
theorem ReadFrom.infix {all w : List Token} {es : List ParseError} {s : Stmt}
    (read : ReadFrom all es w s) (inside : w <:+: ts ++ [.eof stop]) : w <:+: ts := by
  obtain ⟨n, c, c', dropped, -, -, takes, -, -⟩ := read
  obtain ⟨u, v, parts⟩ := inside
  rcases List.eq_nil_or_concat v with rfl | ⟨v, last, rfl⟩
  · have eof := congrArg List.getLast? parts
    rw [List.append_nil, List.getLast?_append, takes.last, List.getLast?_concat] at eof
    exact (takes.more (by simp [Option.some.inj eof, Token.eof])).elim
  · rw [List.concat_eq_append, ← List.append_assoc] at parts
    exact ⟨u, v, (List.append_inj' parts rfl).1⟩

/-- Every node of a program lies in its tokens, in front of the one that marks the end. -/
theorem exists_lies {m : Node} (has : (parseTokens (ts ++ [.eof stop])).program.Has m) :
    ∃ w, w <:+: ts ∧ Lies (Known (ts ++ [.eof stop])
      (parseTokens (ts ++ [.eof stop])).errors) w m := by
  obtain ⟨w, inside, row⟩ := parseTokens_row (ts ++ [.eof stop])
  obtain ⟨s, hs, under⟩ := has
  obtain ⟨v, inside', lies⟩ := row.exists_of_mem (List.mem_map_of_mem hs)
  have inside := lies.info.infix (inside'.trans inside.isInfix)
  obtain ⟨x, inside', lies'⟩ := lies.exists_of_under under
  exact ⟨x, inside'.trans inside, lies'⟩

end

end LetFn
