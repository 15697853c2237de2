import LetFn.Proofs.Grammar

/-! Derivable lists of tokens, regrouped the way they are read from left to right.

An expression is an operand and then operators and calls. A statement without a semicolon ends
only in front of a token that cannot go on with it: what a derivation splits in front of a `-` or
a `(` is here one longer expression. -/

namespace LetFn

/-- The kinds of token that an expression can begin with. -/
def Kind.beginsOperand : Kind → Bool
  | ident | int | trueWord | falseWord | lparen | ifWord | fnWord | bang | minus => true
  | _ => false

namespace Grammar

/-- An operand without operators in front of it. -/
inductive Atom : List Token → Prop
  | ident {t : Token} : t.kind = .ident → Atom [t]
  | int {t : Token} {value : Int64} : t.kind = .int →
      Decimal.toInt64? t.literal.toList = some value → Atom [t]
  | trueWord {t : Token} : t.kind = .trueWord → Atom [t]
  | falseWord {t : Token} : t.kind = .falseWord → Atom [t]
  | paren {l r : Token} {w : List Token} {e : Expr} : l.kind = .lparen → r.kind = .rparen →
      Expression w e → Atom (l :: (w ++ [r]))
  | cond {t l r : Token} {v w : List Token} {test : Expr} {body : Block} : t.kind = .ifWord →
      l.kind = .lparen → r.kind = .rparen → Expression v test → Braced w body →
      Atom (t :: l :: (v ++ r :: w))
  | condElse {t l r other : Token} {u v w : List Token} {test : Expr} {body body' : Block} :
      t.kind = .ifWord → l.kind = .lparen → r.kind = .rparen → other.kind = .elseWord →
      Expression u test → Braced v body → Braced w body' →
      Atom (t :: l :: (u ++ r :: (v ++ other :: w)))
  | fn {t l r : Token} {v w : List Token} {names : List Ident} {body : Block} : t.kind = .fnWord →
      l.kind = .lparen → r.kind = .rparen → Parameters v names → Braced w body →
      Atom (t :: l :: (v ++ r :: w))

inductive Operand : List Token → Prop
  | atom {w : List Token} : Atom w → Operand w
  | unary {t : Token} {w : List Token} : t.kind.isUnary = true → Operand w → Operand (t :: w)

/-- Operators with their right operands, and calls. -/
inductive Tail : List Token → Prop
  | nil : Tail []
  | binary {t : Token} {v w : List Token} : t.kind.isBinary = true → Operand v → Tail w →
      Tail (t :: (v ++ w))
  | call {l r : Token} {v w : List Token} {es : List Expr} : l.kind = .lparen →
      r.kind = .rparen → Arguments v es → Tail w → Tail (l :: (v ++ r :: w))

def Chain (w : List Token) : Prop := ∃ u v, w = u ++ v ∧ Operand u ∧ Tail v

theorem Tail.append {v w : List Token} (hv : Tail v) (hw : Tail w) : Tail (v ++ w) := by
  induction hv with
  | nil => exact hw
  | binary hb ho _ ih => simpa using Tail.binary hb ho ih
  | call hl hr ha _ ih => simpa using Tail.call hl hr ha ih

theorem Atom.chain {w : List Token} (h : Atom w) : Chain w :=
  ⟨w, [], by simp, .atom h, .nil⟩

/-! ### Every expression is a chain -/

theorem Expression.chain {w : List Token} {e : Expr} (d : Expression w e) : Chain w :=
  match d with
  | .ident hk => Atom.chain (.ident hk)
  | .int hk hv => Atom.chain (.int hk hv)
  | .trueWord hk => Atom.chain (.trueWord hk)
  | .falseWord hk => Atom.chain (.falseWord hk)
  | .unary hk d => by
    obtain ⟨u, v, rfl, hu, hv⟩ := d.chain
    exact ⟨_, v, rfl, .unary hk hu, hv⟩
  | .binary hk d d' => by
    obtain ⟨u, v, rfl, hu, hv⟩ := d.chain
    obtain ⟨u', v', rfl, hu', hv'⟩ := d'.chain
    exact ⟨u, _, by simp, hu, hv.append (.binary hk hu' hv')⟩
  | .paren hl hr d => Atom.chain (.paren hl hr d)
  | .cond hk hl hr d b => Atom.chain (.cond hk hl hr d b)
  | .condElse hk hl hr he d b b' => Atom.chain (.condElse hk hl hr he d b b')
  | .fn hk hl hr d b => Atom.chain (.fn hk hl hr d b)
  | .call hl hr d d' => by
    obtain ⟨u, v, rfl, hu, hv⟩ := d.chain
    exact ⟨u, _, by simp, hu, hv.append (.call hl hr d' .nil)⟩

/-! ### Where expressions begin and end -/

theorem Operand.exists_head {w : List Token} (h : Operand w) :
    ∃ t v, w = t :: v ∧ t.kind.beginsOperand = true := by
  cases h with
  | unary hk _ =>
    refine ⟨_, _, rfl, ?_⟩
    revert hk
    cases Token.kind _ <;> simp [Kind.isUnary, Kind.beginsOperand]
  | atom ha => cases ha <;> exact ⟨_, _, rfl, by simp [*, Kind.beginsOperand]⟩

theorem Chain.exists_head {w : List Token} (h : Chain w) :
    ∃ t v, w = t :: v ∧ t.kind.beginsOperand = true := by
  obtain ⟨u, v, rfl, hu, -⟩ := h
  obtain ⟨t, u, rfl, ht⟩ := hu.exists_head
  exact ⟨t, u ++ v, rfl, ht⟩

/-- In front of `w` an expression ends, whatever it is. -/
def Stops (w : List Token) : Prop :=
  ∀ t ∈ w.head?, Precedence.ofKind t.kind = .lowest ∧ t.kind ≠ .elseWord

theorem Stops.nil : Stops [] := by simp [Stops]

theorem stops_cons {t : Token} {w : List Token} :
    Stops (t :: w) ↔ Precedence.ofKind t.kind = .lowest ∧ t.kind ≠ .elseWord := by
  simp [Stops]

theorem Chain.stops_append_iff {u w : List Token} (h : Chain u) :
    Stops (u ++ w) ↔ Stops u := by
  obtain ⟨t, v, rfl, -⟩ := h.exists_head
  rw [List.cons_append, stops_cons, stops_cons]

theorem stops_append {u w : List Token} (hu : Stops u) (hw : Stops w) : Stops (u ++ w) := by
  cases u with
  | nil => exact hw
  | cons t u => exact stops_cons.2 (stops_cons.1 hu)

theorem Tail.exists_head {w : List Token} (h : Tail w) (hw : w ≠ []) :
    ∃ t v, w = t :: v ∧ t.kind ≠ .elseWord ∧ Precedence.lowest < .ofKind t.kind := by
  cases h with
  | nil => exact (hw rfl).elim
  | binary hk =>
    refine ⟨_, _, rfl, ?_⟩
    revert hk
    cases Token.kind _ <;> decide
  | call hl =>
    refine ⟨_, _, rfl, ?_⟩
    rw [hl]
    decide

/-- Of the tokens that an expression begins with, only `-` and `(` can go on with another. -/
theorem minus_or_lparen {k : Kind} (h : k.beginsOperand = true)
    (hp : ¬ (Precedence.ofKind k = .lowest ∧ k ≠ .elseWord)) : k = .minus ∨ k = .lparen := by
  cases k <;> simp_all [Kind.beginsOperand, Precedence.ofKind]

/-- An expression goes on with one that begins with `-` or `(`. -/
theorem Chain.append {v w : List Token} (hv : Chain v) (hw : Chain w) (h : ¬ Stops w) :
    Chain (v ++ w) := by
  obtain ⟨u, v, rfl, hu, hv⟩ := hv
  obtain ⟨o, w, rfl, ho, hw⟩ := hw
  suffices tail : Tail (o ++ w) from ⟨u, v ++ (o ++ w), by simp, hu, hv.append tail⟩
  obtain ⟨t, o', rfl, ht⟩ := ho.exists_head
  rw [List.cons_append, stops_cons] at h
  rcases minus_or_lparen ht h with hk | hk
  · cases ho with
    | unary _ ho => exact .binary (by simp [hk, Kind.isBinary]) ho hw
    | atom ha => cases ha <;> simp_all
  · cases ho with
    | unary hu => simp [hk, Kind.isUnary] at hu
    | atom ha =>
      cases ha with
      | paren hl hr d => simpa using Tail.call hl hr (.last d) hw
      | _ => simp_all

/-! ### Statements -/

/-- The tokens in front of the expression of a statement. -/
inductive Opening : List Token → Prop
  | bind {t name assign : Token} : t.kind = .letWord → name.kind = .ident →
      assign.kind = .assign → Opening [t, name, assign]
  | ret {t : Token} : t.kind = .returnWord → Opening [t]
  | expr : Opening []

/-- Statements each of which goes on as far as it can. -/
inductive Body : List Token → Prop
  | nil : Body []
  | cons {h u s w : List Token} : Opening h → Chain u → Semicolon s → Body w →
      (s = [] → Stops w) → Body (h ++ (u ++ (s ++ w)))

/-- The kinds of token that a statement can begin with. -/
def beginsStatement (k : Kind) : Bool := k = .letWord || k = .returnWord || k.beginsOperand

theorem Opening.exists_head {h u : List Token} (hh : Opening h) (hu : Chain u) :
    ∃ t v, h ++ u = t :: v ∧ beginsStatement t.kind = true := by
  cases hh with
  | bind hk | ret hk => exact ⟨_, _, rfl, by simp [beginsStatement, hk]⟩
  | expr =>
    obtain ⟨t, v, rfl, ht⟩ := hu.exists_head
    exact ⟨t, v, rfl, by simp [beginsStatement, ht]⟩

theorem Body.beginsStatement {w : List Token} (h : Body w) :
    ∀ t ∈ w.head?, beginsStatement t.kind = true := by
  cases h with
  | nil => simp
  | cons hh hu _ _ _ =>
    obtain ⟨t, v, hv, ht⟩ := hh.exists_head hu
    rw [← List.append_assoc, hv]
    simpa using ht

theorem Body.head_append {w rest : List Token} (h : Body w)
    (hr : ∀ t ∈ rest.head?, t.kind = .rbrace) :
    ∀ t ∈ (w ++ rest).head?, Grammar.beginsStatement t.kind = true ∨ t.kind = .rbrace := by
  intro t ht
  cases hw : w with
  | nil =>
    rw [hw] at ht
    exact .inr (hr t ht)
  | cons t' w' =>
    rw [hw] at ht
    exact .inl (h.beginsStatement t (hw ▸ ht))

theorem Statement.exists_opening {w : List Token} {s : Stmt} (d : Statement w s) :
    ∃ h u v, w = h ++ (u ++ v) ∧ Opening h ∧ Chain u ∧ Semicolon v := by
  cases d with
  | bind ht hn ha d hw => exact ⟨[_, _, _], _, _, rfl, .bind ht hn ha, d.chain, hw⟩
  | ret ht d hw => exact ⟨[_], _, _, rfl, .ret ht, d.chain, hw⟩
  | expr _ d hw => exact ⟨[], _, _, rfl, .expr, d.chain, hw⟩

/-- A statement in front of others takes from the next what it can go on with. -/
theorem Body.cons_statement {v w : List Token} {s : Stmt} (d : Statement v s) (b : Body w) :
    Body (v ++ w) := by
  obtain ⟨h, u, s, rfl, hh, hu, hs⟩ := d.exists_opening
  by_cases stops : s = [] → Stops w
  · simpa using Body.cons hh hu hs b stops
  obtain ⟨rfl, hw⟩ := Classical.not_imp.1 stops
  cases b with
  | nil => exact (hw .nil).elim
  | cons hh' hu' hs' b' stops' =>
    cases hh' with
    | bind ht | ret ht => simp [stops_cons, ht, Precedence.ofKind] at hw
    | expr =>
      rw [List.nil_append, hu'.stops_append_iff] at hw
      simpa using Body.cons hh (hu.append hu' hw) hs' b' stops'

theorem Statements.body {w : List Token} {ss : List Stmt} (d : Statements w ss) : Body w :=
  match d with
  | .nil => .nil
  | .cons d d' => .cons_statement d d'.body

end Grammar

end LetFn
