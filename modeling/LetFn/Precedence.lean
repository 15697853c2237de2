import LetFn.Token

/-! How tightly operators bind. -/

namespace LetFn

/-- From the loosest to the tightest. -/
inductive Precedence where
  | lowest | equality | comparison | sum | product | unary | call
  deriving DecidableEq, Repr

namespace Precedence

def all : List Precedence := [lowest, equality, comparison, sum, product, unary, call]

def rank : Precedence → Nat
  | lowest => 0
  | equality => 1
  | comparison => 2
  | sum => 3
  | product => 4
  | unary => 5
  | call => 6

instance : LT Precedence := ⟨fun p q => p.rank < q.rank⟩

instance (p q : Precedence) : Decidable (p < q) := inferInstanceAs (Decidable (p.rank < q.rank))

/-- Binding strength of a token between or behind expressions. -/
def ofKind : Kind → Precedence
  | .equal | .notEqual => equality
  | .less | .greater => comparison
  | .plus | .minus => sum
  | .asterisk | .slash => product
  | .lparen => call
  | _ => lowest

theorem rank_injective {p q : Precedence} (h : p.rank = q.rank) : p = q := by
  cases p <;> cases q <;> first | rfl | cases h

end Precedence

end LetFn
