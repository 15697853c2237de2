import LetFn.Proofs.Grammar

/-! Syntax trees node by node. The tokens that a node keeps count as children of it, and all of them
are in the order of the source. -/

namespace LetFn

inductive Node where
  | token (t : Token)
  | name (name : Ident)
  | expr (e : Expr)
  | block (b : Block)
  | stmt (s : Stmt)

namespace Node

def span : Node → Span
  | token t => t.span
  | name p => p.token.span
  | expr e => e.span
  | block b => b.span
  | stmt s => s.span

/-- An expression as a statement has no token besides those of the expression. -/
def children : Node → List Node
  | token _ | name _ | expr (.ident _) | expr (.int _ _) | expr (.bool _ _) => []
  | expr (.unary t _ operand _) => [token t, expr operand]
  | expr (.binary t left _ right _) => [expr left, token t, expr right]
  | expr (.cond t test consequence alternative _) =>
    [token t, expr test, block consequence] ++ alternative.toList.map block
  | expr (.fn t parameters body _) => token t :: (parameters.map name ++ [block body])
  | expr (.call t callee arguments _) => expr callee :: token t :: arguments.map expr
  | block (.mk t statements _) => token t :: statements.map stmt
  | stmt (.bind t n value _) => [token t, name n, expr value]
  | stmt (.ret t value _) => [token t, expr value]
  | stmt (.expr _ value _) => [expr value]

/-- The token behind all children, if it ends with one. -/
def closing? : Node → Option Kind
  | expr (.call _ _ _ _) => some .rparen
  | block _ => some .rbrace
  | _ => none

/-- What is in `top` at any depth, itself included. -/
inductive Under (top : Node) : Node → Prop
  | self : Under top top
  | child {m n : Node} : Under top m → n ∈ m.children → Under top n

/-- The node that a path of positions among children leads to. -/
def follow (top : Node) : List Nat → Option Node
  | [] => some top
  | i :: path => top.children[i]?.bind fun child => child.follow path

theorem Under.trans {top m n : Node} (outer : top.Under m) (inner : m.Under n) : top.Under n := by
  induction inner with
  | self => exact outer
  | child _ hn ih => exact ih.child hn

theorem under_of_follow {top m : Node} {path : List Nat} (h : top.follow path = some m) :
    top.Under m := by
  induction path generalizing top with
  | nil =>
    obtain rfl : top = m := Option.some.inj h
    exact .self
  | cons i path ih =>
    obtain ⟨child, hc, hm⟩ := Option.bind_eq_some_iff.1 h
    exact (Under.self.child (List.mem_of_getElem? hc)).trans (ih hm)

end Node

def Program.Has (p : Program) (m : Node) : Prop := ∃ s ∈ p.statements, (Node.stmt s).Under m

/-! ### Tokens in order -/

/-- The tokens stand one behind the other, and none of them is empty. -/
structure InOrder (w : List Token) : Prop where
  apart : w.Pairwise fun t u => t.span.stop ≤ u.span.start
  solid : ∀ t ∈ w, t.span.start < t.span.stop

namespace InOrder

open Grammar

variable {v w : List Token} {t : Token}

theorem sublist (order : InOrder w) (sub : v.Sublist w) : InOrder v where
  apart := order.apart.sublist sub
  solid t ht := order.solid t (sub.subset ht)

theorem start_le (order : InOrder w) (ht : t ∈ w) : (extent w).start ≤ t.span.start := by
  cases w with
  | nil => cases ht
  | cons first w =>
    rcases List.mem_cons.1 ht with rfl | ht
    · exact Nat.le_refl _
    · have solid := order.solid first List.mem_cons_self
      exact Nat.le_trans (Nat.le_of_lt solid) ((List.pairwise_cons.1 order.apart).1 t ht)

theorem le_stop (order : InOrder w) (ht : t ∈ w) : t.span.stop ≤ (extent w).stop := by
  obtain ⟨front, last, rfl⟩ : ∃ front last, w = front ++ [last] :=
    ⟨_, _, (List.dropLast_concat_getLast (List.ne_nil_of_mem ht)).symm⟩
  have stop : (extent (front ++ [last])).stop = last.span.stop := by simp [extent]
  rw [stop]
  rcases List.mem_append.1 ht with ht | ht
  · have solid := order.solid last (by simp)
    have apart := (List.pairwise_append.1 order.apart).2.2 t ht last List.mem_cons_self
    exact Nat.le_trans apart (Nat.le_of_lt solid)
  · obtain rfl := List.mem_singleton.1 ht
    exact Nat.le_refl _

end InOrder

namespace Grammar

variable {v w : List Token}

theorem exists_start (ne : w ≠ []) :
    ∃ t ∈ w, w.head? = some t ∧ (extent w).start = t.span.start := by
  obtain ⟨t, w, rfl⟩ := List.exists_cons_of_ne_nil ne
  exact ⟨t, List.mem_cons_self, rfl, rfl⟩

theorem exists_stop (ne : w ≠ []) :
    ∃ t ∈ w, w.getLast? = some t ∧ (extent w).stop = t.span.stop := by
  have last := List.getLast?_eq_some_getLast ne
  exact ⟨w.getLast ne, List.getLast_mem ne, last, by simp [extent, last]⟩

/-- The place of tokens that begin as `v` does and end as `w` does. -/
theorem extent_between (hv : v ≠ []) (hw : w ≠ []) (x : List Token) :
    extent (v ++ (x ++ w)) = ⟨(extent v).start, (extent w).stop⟩ := by
  obtain ⟨t, v, rfl⟩ := List.exists_cons_of_ne_nil hv
  have last := List.getLast?_eq_some_getLast hw
  have last' : (t :: v ++ (x ++ w)).getLast? = some (w.getLast hw) := by
    rw [List.getLast?_append, List.getLast?_append, last, Option.some_or, Option.some_or]
  rw [extent_eq rfl last', extent, extent, last]
  rfl

end Grammar

/-! ### Where nodes lie -/

/-- The nodes lie in the tokens one behind the other. Tokens before, between and behind them may
belong to none of them. -/
inductive Row (lies : List Token → Node → Prop) : List Token → List Node → Prop
  | nil (w : List Token) : Row lies w []
  | cons (u : List Token) {v w : List Token} {m : Node} {ms : List Node} : lies v m →
      Row lies w ms → Row lies (u ++ (v ++ w)) (m :: ms)

/-- The token in which `m` ends behind its children, if there is one. -/
def Node.ClosedBy (back : List Token) (m : Node) : Prop :=
  match m.closing? with
  | none => back = []
  | some kind => ∃ t, back = [t] ∧ t.kind = kind

/-- The tokens are exactly those from the first to the last one that `m` was read from; `known`
tells more about some nodes. -/
inductive Lies (known : List Token → Node → Prop) : List Token → Node → Prop
  | mk {w back : List Token} {m : Node} : w ++ back ≠ [] → m.span = Grammar.extent (w ++ back) →
      Row (Lies known) w m.children → m.ClosedBy back → known (w ++ back) m →
      Lies known (w ++ back) m

namespace Row

variable {lies : List Token → Node → Prop} {v w : List Token} {m : Node} {ms ns : List Node}

theorem append (row : Row lies v ms) (row' : Row lies w ns) : Row lies (v ++ w) (ms ++ ns) := by
  induction row with
  | nil v =>
    cases row' with
    | nil w => exact .nil _
    | cons u first rest =>
      rw [← List.append_assoc]
      exact .cons (v ++ u) first rest
  | cons u first _ ih =>
    rw [List.append_assoc, List.append_assoc]
    exact .cons u first ih

theorem skip (u : List Token) (row : Row lies w ms) : Row lies (u ++ w) ms := (nil u).append row

theorem exists_of_mem (row : Row lies w ms) (hm : m ∈ ms) : ∃ v, v <:+: w ∧ lies v m := by
  induction row with
  | nil => cases hm
  | @cons u v w n ns first _ ih =>
    rcases List.mem_cons.1 hm with rfl | hm
    · exact ⟨v, ⟨u, w, by rw [List.append_assoc]⟩, first⟩
    · obtain ⟨x, inside, hx⟩ := ih hm
      have behind : w <:+: u ++ (v ++ w) := ((List.suffix_append v w).trans
        (List.suffix_append u (v ++ w))).isInfix
      exact ⟨x, inside.trans behind, hx⟩

end Row

namespace Lies

open Grammar

variable {known : List Token → Node → Prop} {v w : List Token} {t : Token} {m n : Node}

/-- A node that ends with the last of its children, or skipped tokens behind it. -/
theorem of_row (ne : w ≠ []) (span : m.span = extent w) (row : Row (Lies known) w m.children)
    (closing : m.closing? = none) (info : known w m) : Lies known w m := by
  have here : Lies known (w ++ []) m := .mk (by simpa using ne) (by simpa using span) row
    (by simp [Node.ClosedBy, closing]) (by simpa using info)
  simpa using here

theorem leaf (span : m.span = t.span) (children : m.children = []) (closing : m.closing? = none)
    (info : known [t] m) : Lies known [t] m :=
  .of_row (by simp) span (children ▸ .nil _) closing info

theorem ne_nil (lies : Lies known w m) : w ≠ [] := by
  cases lies with
  | mk ne => exact ne

theorem span_eq (lies : Lies known w m) : m.span = extent w := by
  cases lies with
  | mk _ span => exact span

theorem info (lies : Lies known w m) : known w m := by
  cases lies with
  | mk _ _ _ _ info => exact info

theorem exists_of_child (lies : Lies known w m) (hn : n ∈ m.children) :
    ∃ v, v <:+: w ∧ Lies known v n := by
  cases lies with
  | @mk w back m _ _ row _ _ =>
    obtain ⟨v, inside, hv⟩ := row.exists_of_mem hn
    exact ⟨v, inside.trans (List.prefix_append w back).isInfix, hv⟩

/-- What is in a node lies within the tokens of it. -/
theorem exists_of_under (lies : Lies known w m) (under : m.Under n) :
    ∃ v, v <:+: w ∧ Lies known v n := by
  induction under with
  | self => exact ⟨w, List.infix_rfl, lies⟩
  | child _ hn ih =>
    obtain ⟨v, inside, hv⟩ := ih
    obtain ⟨x, inside', hx⟩ := hv.exists_of_child hn
    exact ⟨x, inside'.trans inside, hx⟩

theorem exists_start (lies : Lies known w m) :
    ∃ t ∈ w, w.head? = some t ∧ m.span.start = t.span.start := by
  rw [lies.span_eq]
  exact Grammar.exists_start lies.ne_nil

theorem exists_stop (lies : Lies known w m) :
    ∃ t ∈ w, w.getLast? = some t ∧ m.span.stop = t.span.stop := by
  rw [lies.span_eq]
  exact Grammar.exists_stop lies.ne_nil

theorem within (lies : Lies known v m) (order : InOrder w) (inside : v <:+: w) :
    (extent w).start ≤ m.span.start ∧ m.span.stop ≤ (extent w).stop := by
  obtain ⟨first, hfirst, -, start⟩ := lies.exists_start
  obtain ⟨last, hlast, -, stop⟩ := lies.exists_stop
  rw [start, stop]
  exact ⟨order.start_le (inside.subset hfirst), order.le_stop (inside.subset hlast)⟩

end Lies

/-! ### Places of siblings -/

theorem Row.ordered {known : List Token → Node → Prop} {w : List Token} {ms : List Node}
    (row : Row (Lies known) w ms) (apart : w.Pairwise fun t u => t.span.stop ≤ u.span.start) :
    ms.Pairwise fun m n => m.span.stop ≤ n.span.start := by
  induction row with
  | nil => exact .nil
  | @cons u v w m ms first rest ih =>
    have apart := (List.pairwise_append.1 apart).2.1
    refine .cons (fun n hn => ?_) (ih (List.pairwise_append.1 apart).2.1)
    obtain ⟨x, inside, lies⟩ := rest.exists_of_mem hn
    obtain ⟨last, hlast, -, stop⟩ := first.exists_stop
    obtain ⟨head, hhead, -, start⟩ := lies.exists_start
    rw [start, stop]
    exact (List.pairwise_append.1 apart).2.2 last hlast head (inside.subset hhead)

/-- Where a node is in a source with the tokens `ts`: from the start of one of them to the end of
one, around all its children, which are one behind the other; if a token closes it behind these, it
ends with that one. -/
structure Node.Placed (ts : List Token) (m : Node) : Prop where
  starts : ∃ t ∈ ts, t.span.start = m.span.start
  stops : ∃ t ∈ ts, t.span.stop = m.span.stop
  solid : m.span.start < m.span.stop
  inside : ∀ child ∈ m.children,
    m.span.start ≤ child.span.start ∧ child.span.stop ≤ m.span.stop
  ordered : m.children.Pairwise fun child next => child.span.stop ≤ next.span.start
  tokens : ∀ t, .token t ∈ m.children → t ∈ ts
  closed : ∀ kind, m.closing? = some kind → ∃ t ∈ ts, t.kind = kind ∧
    t.span.stop = m.span.stop ∧ ∀ child ∈ m.children, child.span.stop ≤ t.span.start

theorem Lies.placed {known : List Token → Node → Prop} {ts w : List Token} {m : Node}
    (lies : Lies known w m) (order : InOrder ts) (inside : w <:+: ts)
    (single : ∀ w t, known w (.token t) → w = [t]) : m.Placed ts := by
  have order := order.sublist inside.sublist
  obtain ⟨first, hfirst, -, start⟩ := lies.exists_start
  obtain ⟨last, hlast, -, stop⟩ := lies.exists_stop
  have token : ∀ t, .token t ∈ m.children → t ∈ ts := by
    intro t ht
    obtain ⟨v, inside', hv⟩ := lies.exists_of_child ht
    obtain rfl := single v t hv.info
    exact inside.subset (inside'.subset List.mem_cons_self)
  have solid : m.span.start < m.span.stop := by
    have first_le := order.le_stop hfirst
    rw [← lies.span_eq] at first_le
    rw [start]
    exact Nat.lt_of_lt_of_le (order.solid first hfirst) first_le
  have around : ∀ child ∈ m.children,
      m.span.start ≤ child.span.start ∧ child.span.stop ≤ m.span.stop := by
    intro child hc
    obtain ⟨v, inside', hv⟩ := lies.exists_of_child hc
    rw [lies.span_eq]
    exact hv.within order inside'
  cases lies with
  | @mk w back m ne span row closing info =>
    refine ⟨⟨first, inside.subset hfirst, start.symm⟩, ⟨last, inside.subset hlast, stop.symm⟩,
      solid, around, row.ordered (List.pairwise_append.1 order.apart).1, token, ?_⟩
    intro kind hk
    rw [Node.ClosedBy, hk] at closing
    obtain ⟨t, rfl, rfl⟩ := closing
    refine ⟨t, inside.subset (by simp), rfl, by simp [span, Grammar.extent], fun child hc => ?_⟩
    obtain ⟨v, inside', hv⟩ := row.exists_of_mem hc
    obtain ⟨u, hu, -, stop⟩ := hv.exists_stop
    rw [stop]
    exact (List.pairwise_append.1 order.apart).2.2 u (inside'.subset hu) t List.mem_cons_self

end LetFn
