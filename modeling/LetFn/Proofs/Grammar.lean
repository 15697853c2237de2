import LetFn.Precedence
import LetFn.Program
import LetFn.Decimal

/-! The grammar of programs, on tokens and with the trees that its derivations stand for.

It is ambiguous: it knows neither how tightly operators bind nor where a statement without a
semicolon ends. A tree keeps tokens of the list it is derived from, and no others. -/

namespace LetFn

def Kind.isBinary : Kind → Bool
  | plus | minus | asterisk | slash | equal | notEqual | less | greater => true
  | _ => false

def Kind.isUnary : Kind → Bool
  | bang | minus => true
  | _ => false

theorem Precedence.isBinary_or_lparen {floor : Precedence} {k : Kind} (h : floor < .ofKind k) :
    k.isBinary = true ∨ k = .lparen := by
  have none : ¬ floor < .lowest := Nat.not_lt_zero _
  cases k <;> simp_all [Kind.isBinary, ofKind]

namespace Grammar

/-- From the start of the first token to the end of the last one. -/
def extent (w : List Token) : Span :=
  ⟨(w.head?.map fun t => t.span.start).getD 0, (w.getLast?.map fun t => t.span.stop).getD 0⟩

/-- One semicolon or none. -/
def Semicolon (w : List Token) : Prop := w = [] ∨ ∃ t, w = [t] ∧ t.kind = .semicolon

/-- Names with commas between them, and perhaps one behind the last. -/
inductive Parameters : List Token → List Ident → Prop
  | nil : Parameters [] []
  | last {t : Token} : t.kind = .ident → Parameters [t] [⟨t, t.literal⟩]
  | cons {t comma : Token} {w : List Token} {names : List Ident} : t.kind = .ident →
      comma.kind = .comma → Parameters w names →
      Parameters (t :: comma :: w) (⟨t, t.literal⟩ :: names)

mutual

inductive Expression : List Token → Expr → Prop
  | ident {t : Token} : t.kind = .ident → Expression [t] (.ident ⟨t, t.literal⟩)
  | int {t : Token} {value : Int64} : t.kind = .int →
      Decimal.toInt64? t.literal.toList = some value → Expression [t] (.int t value)
  | trueWord {t : Token} : t.kind = .trueWord → Expression [t] (.bool t true)
  | falseWord {t : Token} : t.kind = .falseWord → Expression [t] (.bool t false)
  | unary {t : Token} {w : List Token} {e : Expr} : t.kind.isUnary = true → Expression w e →
      Expression (t :: w) (.unary t t.literal e ⟨t.span.start, e.span.stop⟩)
  | binary {t : Token} {v w : List Token} {left right : Expr} : t.kind.isBinary = true →
      Expression v left → Expression w right →
      Expression (v ++ t :: w) (.binary t left t.literal right ⟨left.span.start, right.span.stop⟩)
  | paren {l r : Token} {w : List Token} {e : Expr} : l.kind = .lparen → r.kind = .rparen →
      Expression w e → Expression (l :: (w ++ [r])) e
  | cond {t l r : Token} {v w : List Token} {test : Expr} {body : Block} : t.kind = .ifWord →
      l.kind = .lparen → r.kind = .rparen → Expression v test → Braced w body →
      Expression (t :: l :: (v ++ r :: w)) (.cond t test body none ⟨t.span.start, body.span.stop⟩)
  | condElse {t l r other : Token} {u v w : List Token} {test : Expr} {body body' : Block} :
      t.kind = .ifWord → l.kind = .lparen → r.kind = .rparen → other.kind = .elseWord →
      Expression u test → Braced v body → Braced w body' →
      Expression (t :: l :: (u ++ r :: (v ++ other :: w)))
        (.cond t test body (some body') ⟨t.span.start, body'.span.stop⟩)
  | fn {t l r : Token} {v w : List Token} {names : List Ident} {body : Block} : t.kind = .fnWord →
      l.kind = .lparen → r.kind = .rparen → Parameters v names → Braced w body →
      Expression (t :: l :: (v ++ r :: w)) (.fn t names body ⟨t.span.start, body.span.stop⟩)
  | call {l r : Token} {v w : List Token} {callee : Expr} {args : List Expr} : l.kind = .lparen →
      r.kind = .rparen → Expression v callee → Arguments w args →
      Expression (v ++ l :: (w ++ [r])) (.call l callee args ⟨callee.span.start, r.span.stop⟩)

/-- Expressions with commas between them, and perhaps one behind the last. -/
inductive Arguments : List Token → List Expr → Prop
  | nil : Arguments [] []
  | last {w : List Token} {e : Expr} : Expression w e → Arguments w [e]
  | cons {comma : Token} {v w : List Token} {e : Expr} {es : List Expr} : comma.kind = .comma →
      Expression v e → Arguments w es → Arguments (v ++ comma :: w) (e :: es)

/-- Statements between braces. -/
inductive Braced : List Token → Block → Prop
  | mk {l r : Token} {w : List Token} {ss : List Stmt} : l.kind = .lbrace → r.kind = .rbrace →
      Statements w ss → Braced (l :: (w ++ [r])) (.mk l ss (extent (l :: (w ++ [r]))))

/-- Statements one behind the other, with nothing between them. -/
inductive Statements : List Token → List Stmt → Prop
  | nil : Statements [] []
  | cons {v w : List Token} {s : Stmt} {ss : List Stmt} : Statement v s → Statements w ss →
      Statements (v ++ w) (s :: ss)

inductive Statement : List Token → Stmt → Prop
  | bind {t name assign : Token} {v w : List Token} {value : Expr} : t.kind = .letWord →
      name.kind = .ident → assign.kind = .assign → Expression v value → Semicolon w →
      Statement (t :: name :: assign :: (v ++ w))
        (.bind t ⟨name, name.literal⟩ value (extent (t :: name :: assign :: (v ++ w))))
  | ret {t : Token} {v w : List Token} {value : Expr} : t.kind = .returnWord →
      Expression v value → Semicolon w →
      Statement (t :: (v ++ w)) (.ret t value (extent (t :: (v ++ w))))
  | expr {t : Token} {v w : List Token} {value : Expr} : v.head? = some t →
      Expression v value → Semicolon w →
      Statement (v ++ w) (.expr t value (extent (v ++ w)))

end

theorem extent_eq {w : List Token} {first last : Token} (hh : w.head? = some first)
    (hl : w.getLast? = some last) : extent w = ⟨first.span.start, last.span.stop⟩ := by
  simp [extent, hh, hl]

theorem extent_braced {l r : Token} {w : List Token} :
    extent (l :: (w ++ [r])) = ⟨l.span.start, r.span.stop⟩ := by
  apply extent_eq rfl
  rw [← List.cons_append, List.getLast?_concat]

/-- Each expression takes at least one token. -/
theorem Expression.ne_nil {w : List Token} {e : Expr} (d : Expression w e) : w ≠ [] := by
  cases d <;> simp

end Grammar

end LetFn
