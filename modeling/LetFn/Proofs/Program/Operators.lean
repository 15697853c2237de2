import LetFn.Precedence
import LetFn.Proofs.Program.Words

/-! Chains of operators: operands without parentheses around them, each with any number of prefix
operators, and infix operators in between. What such a chain means is said by where it splits. -/

namespace LetFn

/-- Prefix operators apply to what is behind them. -/
def prefixed : List String → Expr → Expr
  | [], e => e
  | operator :: operators, e => .unary (.eof 0) operator (prefixed operators e) (.point 0)

/-- A well-formed expression with prefix operators in front of it. -/
structure Operand where
  prefixes : List String
  base : Expr
  unary : ∀ operator ∈ prefixes, operator ∈ unaryOperators
  wellFormed : base.WellFormed

/-- An infix operator and what is to the right of it. -/
structure Link where
  operator : String
  operand : Operand
  binary : operator ∈ binaryOperators

/-- How tightly an infix operator binds. -/
def strength : String → Nat
  | "==" | "!=" => 1
  | "<" | ">" => 2
  | "+" | "-" => 3
  | "*" | "/" => 4
  | _ => 0

def Operand.tree (o : Operand) : Expr := prefixed o.prefixes o.base

def Link.strength (l : Link) : Nat := LetFn.strength l.operator

/-! ### Trees of chains -/

/-- The tree of a chain, apart from tokens and places. A chain with operators splits at the last of
those that bind the least. -/
inductive Grouped : Operand → List Link → Expr → Prop
  | operand {o : Operand} {e : Expr} : e.erase = o.tree.erase → Grouped o [] e
  | split {first : Operand} {before after : List Link} {link : Link} {token : Token}
      {left right : Expr} {span : Span} :
      (∀ l ∈ before, link.strength ≤ l.strength) → (∀ l ∈ after, link.strength < l.strength) →
      Grouped first before left → Grouped link.operand after right →
      Grouped first (before ++ link :: after) (.binary token left link.operator right span)

/-- There is one place to split at. -/
theorem split_unique {before before' after after' : List Link} {link link' : Link}
    (same : before' ++ link' :: after' = before ++ link :: after)
    (hb : ∀ l ∈ before, link.strength ≤ l.strength)
    (ha : ∀ l ∈ after, link.strength < l.strength)
    (hb' : ∀ l ∈ before', link'.strength ≤ l.strength)
    (ha' : ∀ l ∈ after', link'.strength < l.strength) :
    before' = before ∧ link' = link ∧ after' = after := by
  rcases List.append_eq_append_iff.1 same with ⟨m, rfl, rest⟩ | ⟨m, rfl, rest⟩
  · cases m with
    | nil => simpa using rest
    | cons l m =>
      obtain ⟨rfl, rfl⟩ := List.cons.inj rest
      have least := hb link' (by simp)
      have last := ha' link (by simp)
      omega
  · cases m with
    | nil => simpa [eq_comm] using rest
    | cons l m =>
      obtain ⟨rfl, rfl⟩ := List.cons.inj rest
      have least := hb' link (by simp)
      have last := ha link' (by simp)
      omega

/-- A chain has one tree. -/
theorem Grouped.erase_eq {first : Operand} {links links' : List Link} {e e' : Expr}
    (d : Grouped first links e) (d' : Grouped first links' e') (same : links' = links) :
    e'.erase = e.erase := by
  induction d generalizing links' e' with
  | operand he =>
    cases d' with
    | operand he' => rw [he, he']
    | split => simp at same
  | split hb ha left right ihl ihr =>
    cases d' with
    | operand => simp at same
    | split hb' ha' left' right' =>
      obtain ⟨rfl, rfl, rfl⟩ := split_unique same hb ha hb' ha'
      rw [Expr.erase_binary, Expr.erase_binary, ihl left' rfl, ihr right' rfl]

/-! ### Chains as texts -/

def Operand.render (o : Operand) : String := String.join o.prefixes ++ o.base.render

/-- With the same gap on both sides of every operator. -/
def renderLinks (gap : String) : List Link → String
  | [] => ""
  | l :: ls => gap ++ l.operator ++ gap ++ l.operand.render ++ renderLinks gap ls

def prefixWords (operators : List String) : List (Kind × String) :=
  operators.map fun operator => (operatorKind operator, operator)

def Operand.words (o : Operand) : List (Kind × String) := prefixWords o.prefixes ++ o.base.words

def linkWords : List Link → List (Kind × String)
  | [] => []
  | l :: ls => (operatorKind l.operator, l.operator) :: (l.operand.words ++ linkWords ls)

theorem linkWords_append (links links' : List Link) :
    linkWords (links ++ links') = linkWords links ++ linkWords links' := by
  induction links with
  | nil => rfl
  | cons l links ih => simp [linkWords, ih]

theorem head_prefixes_ne {operators : List String} (unary : ∀ o ∈ operators, o ∈ unaryOperators)
    {cs : List Char} (hcs : cs.head? ≠ some '=') :
    ((String.join operators).toList ++ cs).head? ≠ some '=' := by
  cases operators with
  | nil => exact hcs
  | cons o operators =>
    have first := unary o List.mem_cons_self
    simp only [unaryOperators, List.mem_cons, List.not_mem_nil, or_false] at first
    rcases first with rfl | rfl
    · simp [String.join_cons]
    · simp [String.join_cons]

/-- Prefix operators run neither into each other nor into what is behind them. -/
theorem words_prefixes {operators : List String} (unary : ∀ o ∈ operators, o ∈ unaryOperators)
    {cs : List Char} (hcs : cs.head? ≠ some '=') :
    words ((String.join operators).toList ++ cs) = prefixWords operators ++ words cs := by
  induction operators with
  | nil => rfl
  | cons o operators ih =>
    obtain ⟨ho, rest⟩ := List.forall_mem_cons.1 unary
    rw [String.join_cons, String.toList_append, List.append_assoc,
      words_unary ho (head_prefixes_ne rest hcs), ih rest]
    rfl

theorem Operand.written (o : Operand) : Written o.render o.words := by
  intro cs hcs
  have base := o.base.written o.wellFormed cs hcs
  rw [Operand.render, String.toList_append, List.append_assoc,
    words_prefixes o.unary (o.base.head_render_ne o.wellFormed cs), base, Operand.words,
    List.append_assoc]

theorem Link.loose (l : Link) (cs : List Char) : Loose (l.operator.toList ++ cs) := by
  obtain ⟨operator, operand, h⟩ := l
  simp only [binaryOperators, List.mem_cons, List.not_mem_nil, or_false] at h
  rcases h with rfl | rfl | rfl | rfl | rfl | rfl | rfl | rfl <;> simp [isWordPart]

section

variable {gap : String} (blank : ∀ c ∈ gap.toList, isSpace c = true)

include blank

/-- The word in front of a gap or of an operator ends there. -/
theorem loose_renderLinks (links : List Link) {cs : List Char} (hcs : Loose cs) :
    Loose ((renderLinks gap links).toList ++ cs) := by
  cases links with
  | nil => exact hcs
  | cons l links =>
    simp only [renderLinks, String.toList_append, List.append_assoc]
    generalize gap.toList = blanks at blank ⊢
    cases blanks with
    | nil => exact l.loose _
    | cons c blanks => exact loose_cons.2 (isWordPart_of_isSpace (blank c List.mem_cons_self))

theorem words_renderLinks (links : List Link) {cs : List Char} (hcs : Loose cs) :
    words ((renderLinks gap links).toList ++ cs) = linkWords links ++ words cs := by
  induction links with
  | nil => rfl
  | cons l links ih =>
    have operand := l.operand.written _ (loose_renderLinks blank links hcs)
    simp only [renderLinks, String.toList_append, List.append_assoc, words_gap blank,
      words_binary l.binary, operand, ih, linkWords, List.cons_append]

theorem words_render_append_renderLinks (first : Operand) (links : List Link) :
    words (first.render ++ renderLinks gap links).toList = first.words ++ linkWords links := by
  have rest := words_renderLinks blank links Loose.nil
  have all := first.written _ (loose_renderLinks blank links Loose.nil)
  rw [List.append_nil, words_nil, List.append_nil] at rest
  rw [List.append_nil, rest] at all
  rw [String.toList_append, all]

end

/-! ### Strengths and precedences -/

/-- Operators bind as the reader takes them to bind. -/
theorem rank_operatorKind : ∀ operator ∈ binaryOperators,
    (Precedence.ofKind (operatorKind operator)).rank = strength operator := by
  decide

theorem Link.rank_eq (l : Link) :
    (Precedence.ofKind (operatorKind l.operator)).rank = l.strength :=
  rank_operatorKind l.operator l.binary

theorem Link.strength_pos (l : Link) : 0 < l.strength :=
  (by decide : ∀ operator ∈ binaryOperators, 0 < LetFn.strength operator) l.operator l.binary

/-- Prefix operators bind tighter than all others. -/
theorem Link.strength_lt (l : Link) : l.strength < Precedence.unary.rank := by
  unfold Link.strength LetFn.strength
  split <;> decide

end LetFn
