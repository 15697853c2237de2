import LetFn.Proofs.Eval.Simulation

/-! One tree on two heaps, where only the names that occur in it matter. -/

namespace LetFn

/-! ### Names that occur -/

mutual

/-- Names that are referred to, bound by a `let` or parameters. -/
def Expr.names : Expr → List String
  | .ident name => [name.name]
  | .int _ _ | .bool _ _ => []
  | .unary _ _ operand _ => operand.names
  | .binary _ left _ right _ => left.names ++ right.names
  | .cond _ test consequence alternative _ =>
    test.names ++ consequence.names ++ namesElse alternative
  | .fn _ parameters body _ => parameters.map Ident.name ++ body.names
  | .call _ callee arguments _ => callee.names ++ namesArguments arguments

def namesElse : Option Block → List String
  | none => []
  | some alternative => alternative.names

def namesArguments : List Expr → List String
  | [] => []
  | e :: es => e.names ++ namesArguments es

def Stmt.names : Stmt → List String
  | .bind _ name value _ => name.name :: value.names
  | .ret _ value _ | .expr _ value _ => value.names

def Block.names : Block → List String
  | .mk _ statements _ => namesBody statements

def namesBody : List Stmt → List String
  | [] => []
  | s :: ss => s.names ++ namesBody ss

end

def Program.names (p : Program) : List String := namesBody p.statements

theorem Block.names_eq (b : Block) : b.names = namesBody b.statements := by
  cases b
  rfl

def Closure.names (f : Closure) : List String := f.parameters.map Ident.name ++ f.body.names

/-! ### The same tree -/

section

variable (P : String → Prop) (ρ : ScopeId → ScopeId)

/-- The same expression, in which only names in `P` occur. -/
structure Expr.Same (e e' : Expr) : Prop where
  eq : e' = e
  only : ∀ x ∈ e.names, P x

/-- The same function, but that it has another number and was made in the renamed scope. Only names
in `P` occur in it. -/
inductive Closure.Alike : Closure → Closure → Prop
  | intro {f : Closure} (id : Nat) : (∀ x ∈ f.names, P x) →
      Alike f { f with id := id, scope := ρ f.scope }

abbrev Value.Alike : Value → Value → Prop := Value.Rel (Closure.Alike P ρ)

end

variable {P : String → Prop} {ρ : ScopeId → ScopeId}

theorem Closure.Alike.render_eq {f g : Closure} (alike : f.Alike P ρ g) : g.render = f.render := by
  cases alike
  rfl

theorem Value.Alike.looksLike {v w : Value} (alike : v.Alike P ρ w) : v.LooksLike w :=
  Value.Rel.looksLike (fun _ _ => Closure.Alike.render_eq) alike

theorem same_arguments {es : List Expr} (only : ∀ x ∈ namesArguments es, P x) :
    List.Forall₂ (Expr.Same P) es es := by
  induction es with
  | nil => exact .nil
  | cons e es ih =>
    rw [namesArguments, List.forall_mem_append] at only
    exact .cons ⟨rfl, only.1⟩ (ih only.2)

theorem same_body {ss : List Stmt} (only : ∀ x ∈ namesBody ss, P x) :
    List.Forall₂ (Stmt.Matched P (Expr.Same P)) ss ss := by
  induction ss with
  | nil => exact .nil
  | cons s ss ih =>
    rw [namesBody, List.forall_mem_append] at only
    refine .cons ?_ (ih only.2)
    cases s with
    | bind _ name value _ =>
      rw [Stmt.names, List.forall_mem_cons] at only
      exact .bind ⟨rfl, only.1.1⟩ ⟨rfl, only.1.2⟩
    | ret => exact .ret ⟨rfl, only.1⟩
    | expr => exact .expr ⟨rfl, only.1⟩

theorem Block.same {b : Block} (only : ∀ x ∈ b.names, P x) : b.Matched P (Expr.Same P) b :=
  same_body (b.names_eq ▸ only)

namespace Eval

theorem matching_same : Matching P ρ (Expr.Same P) (Closure.Alike P ρ) where
  tree := by
    rintro _ e ⟨rfl, only⟩
    cases e with
    | ident name => exact .ident ⟨rfl, only _ (List.mem_singleton_self _)⟩
    | int token value => exact .int value
    | bool token value => exact .bool value
    | unary _ operator operand _ => exact .unary operator ⟨rfl, only⟩
    | binary _ left operator right _ =>
      rw [Expr.names, List.forall_mem_append] at only
      exact .binary operator ⟨rfl, only.1⟩ ⟨rfl, only.2⟩
    | cond _ test consequence alternative _ =>
      rw [Expr.names, List.forall_mem_append, List.forall_mem_append] at only
      refine .cond ⟨rfl, only.1.1⟩ (Block.same only.1.2) ?_
      cases alternative with
      | none => exact .none
      | some alternative => exact .some (Block.same only.2)
    | fn _ parameters body _ => exact .fn fun id id' scope => .intro id' only
    | call _ callee arguments _ =>
      rw [Expr.names, List.forall_mem_append] at only
      exact .call ⟨rfl, only.1⟩ (same_arguments only.2)
  function := by
    rintro f _ ⟨id, only⟩
    rw [Closure.names, List.forall_mem_append] at only
    refine ⟨List.forall₂_same.2 fun p hp => ⟨rfl, ?_⟩, Block.same only.2, rfl⟩
    exact only.1 _ (List.mem_map_of_mem hp)

variable {R : Heap → Heap → Prop}

theorem related_apply (sim : Heap.Simulation P ρ (Closure.Alike P ρ) R) (n : Nat) {f g : Value}
    (callee : Value.Alike P ρ f g) {vs ws : List Value}
    (values : List.Forall₂ (Value.Alike P ρ) vs ws) {h k : Heap} (heaps : R h k) :
    Related (Value.Alike P ρ) R (apply n f vs h) (apply n g ws k) :=
  matching_same.related_apply sim n callee values heaps

theorem related_program (sim : Heap.Simulation P ρ (Closure.Alike P ρ) R) (n : Nat) (p : Program)
    (only : ∀ x ∈ p.names, P x) (scope : ScopeId) {h k : Heap} (heaps : R h k) :
    Related (Value.Alike P ρ) R (program n p scope h) (program n p (ρ scope) k) :=
  matching_same.related_program sim n (same_body only) scope heaps

end Eval

end LetFn
