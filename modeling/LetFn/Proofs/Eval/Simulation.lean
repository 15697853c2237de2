import Mathlib.Data.List.Forall2
import LetFn.Eval

/-! What evaluation can see of trees and heaps. It looks at the form of a tree and at the parts of
it, at names and numbers and operators; of a heap it sees what names are bound to, in scopes it
creates and binds names in. Trees of one form, on heaps that answer alike and go on answering alike
whatever is bound and created, evaluate alike. Tokens and places may differ, and so may the numbers
of scopes and functions, and bindings of names that do not matter. -/

namespace LetFn

theorem optionRel_mono {α β : Type} {V W : α → β → Prop} {o : Option α} {o' : Option β}
    (related : Option.Rel V o o') (le : ∀ a b, V a b → W a b) : Option.Rel W o o' := by
  obtain h | _ := related
  · exact .some (le _ _ h)
  · exact .none

/-! ### Values -/

section

variable (F : Closure → Closure → Prop)

/-- The same value, but that functions in it are only related by `F`. -/
inductive Value.Rel : Value → Value → Prop
  | int (n : Int64) : Rel (.int n) (.int n)
  | bool (b : Bool) : Rel (.bool b) (.bool b)
  | error (message : String) : Rel (.error message) (.error message)
  | null : Rel .null .null
  | returned {v w : Value} : Rel v w → Rel (.returned v) (.returned w)
  | fn {f g : Closure} : F f g → Rel (.fn f) (.fn g)

/-- The values of arguments, or what stopped them. -/
inductive Eval.ArgumentsRel : Except Value (List Value) → Except Value (List Value) → Prop
  | ok {vs ws : List Value} : List.Forall₂ (Value.Rel F) vs ws → ArgumentsRel (.ok vs) (.ok ws)
  | error {v w : Value} : Value.Rel F v w → ArgumentsRel (.error v) (.error w)

end

namespace Value.Rel

variable {F : Closure → Closure → Prop} {v w v' w' : Value}

theorem isUnwinding_eq (related : Value.Rel F v w) : w.isUnwinding = v.isUnwinding := by
  cases related <;> rfl

theorem isTruthy_eq (related : Value.Rel F v w) : w.isTruthy = v.isTruthy := by
  cases related <;> rfl

theorem type_eq (related : Value.Rel F v w) : w.type = v.type := by
  cases related <;> rfl

theorem inspect_eq (same : ∀ f g, F f g → g.render = f.render) (related : Value.Rel F v w) :
    w.inspect = v.inspect := by
  induction related with
  | returned _ ih => exact ih
  | fn related => exact same _ _ related
  | int | bool | error | null => rfl

theorem unwrap (related : Value.Rel F v w) : Value.Rel F v.unwrap w.unwrap := by
  cases related with
  | returned related => exact related
  | fn related => exact .fn related
  | int | bool | error | null => constructor

/-- Operators do not look into functions, and make none. -/
theorem unaryOperator (operator : String) (related : Value.Rel F v w) :
    Value.Rel F (unaryOperator operator v) (unaryOperator operator w) := by
  simp only [Value.unaryOperator, related.isTruthy_eq, related.type_eq]
  split
  · exact .bool _
  · cases related <;> constructor
  · exact .error _

theorem binaryOperator (operator : String) (left : Value.Rel F v w) (right : Value.Rel F v' w') :
    Value.Rel F (binaryOperator operator v v') (binaryOperator operator w w') := by
  have same : Value.binaryOperator operator w w' = Value.binaryOperator operator v v' := by
    cases left <;> cases right <;> rfl
  rw [same]
  unfold Value.binaryOperator
  split
  · unfold Value.integerOperator
    split
    case h_4 => split <;> constructor
    all_goals constructor
  · unfold Value.booleanOperator
    split <;> constructor
  · split <;> exact .error _

end Value.Rel

/-- They look the same to whoever has nothing but them. -/
structure Value.LooksLike (v w : Value) : Prop where
  type : w.type = v.type
  inspect : w.inspect = v.inspect
  error : ∀ message, v = .error message ↔ w = .error message

namespace Value.LooksLike

variable {u v w : Value}

theorem symm (like : v.LooksLike w) : w.LooksLike v :=
  ⟨like.type.symm, like.inspect.symm, fun message => (like.error message).symm⟩

theorem trans (first : u.LooksLike v) (second : v.LooksLike w) : u.LooksLike w :=
  ⟨second.type.trans first.type, second.inspect.trans first.inspect,
    fun message => (first.error message).trans (second.error message)⟩

end Value.LooksLike

theorem Value.Rel.looksLike {F : Closure → Closure → Prop} {v w : Value}
    (same : ∀ f g, F f g → g.render = f.render) (related : Value.Rel F v w) : v.LooksLike w where
  type := related.type_eq
  inspect := related.inspect_eq same
  error message := by cases related <;> simp

/-! ### Trees -/

section

variable (P : String → Prop) (ρ : ScopeId → ScopeId) (T : Expr → Expr → Prop)
  (F : Closure → Closure → Prop)

/-- The same name, one that matters. -/
structure Ident.Matched (i j : Ident) : Prop where
  name : j.name = i.name
  matters : P i.name

/-- Statements of one form that bind the same name to, return or consist of what `T` relates. -/
inductive Stmt.Matched : Stmt → Stmt → Prop
  | bind {t t' : Token} {i j : Ident} {e e' : Expr} {s s' : Span} : i.Matched P j → T e e' →
      Matched (.bind t i e s) (.bind t' j e' s')
  | ret {t t' : Token} {e e' : Expr} {s s' : Span} : T e e' → Matched (.ret t e s) (.ret t' e' s')
  | expr {t t' : Token} {e e' : Expr} {s s' : Span} : T e e' →
      Matched (.expr t e s) (.expr t' e' s')

def Block.Matched (b b' : Block) : Prop :=
  List.Forall₂ (Stmt.Matched P T) b.statements b'.statements

/-- Expressions of one form that differ in parts which `T` relates. What they make of functions is
related by `F`. -/
inductive Expr.Matched : Expr → Expr → Prop
  | ident {i j : Ident} : i.Matched P j → Matched (.ident i) (.ident j)
  | int {t t' : Token} (value : Int64) : Matched (.int t value) (.int t' value)
  | bool {t t' : Token} (value : Bool) : Matched (.bool t value) (.bool t' value)
  | unary {t t' : Token} (operator : String) {e e' : Expr} {s s' : Span} : T e e' →
      Matched (.unary t operator e s) (.unary t' operator e' s')
  | binary {t t' : Token} {left left' : Expr} (operator : String) {right right' : Expr}
      {s s' : Span} : T left left' → T right right' →
      Matched (.binary t left operator right s) (.binary t' left' operator right' s')
  | cond {t t' : Token} {test test' : Expr} {b b' : Block} {o o' : Option Block} {s s' : Span} :
      T test test' → b.Matched P T b' → Option.Rel (Block.Matched P T) o o' →
      Matched (.cond t test b o s) (.cond t' test' b' o' s')
  | fn {t t' : Token} {ps ps' : List Ident} {b b' : Block} {s s' : Span} :
      (∀ id id' scope, F ⟨id, ps, b, scope⟩ ⟨id', ps', b', ρ scope⟩) →
      Matched (.fn t ps b s) (.fn t' ps' b' s')
  | call {t t' : Token} {callee callee' : Expr} {es es' : List Expr} {s s' : Span} :
      T callee callee' → List.Forall₂ T es es' →
      Matched (.call t callee es s) (.call t' callee' es' s')

structure Closure.Matched (f g : Closure) : Prop where
  parameters : List.Forall₂ (Ident.Matched P) f.parameters g.parameters
  body : f.body.Matched P T g.body
  scope : g.scope = ρ f.scope

/-- What `T` and `F` relate is of one form, and however deep one looks into it this stays so. -/
structure Eval.Matching : Prop where
  tree : ∀ {e e'}, T e e' → e.Matched P ρ T F e'
  function : ∀ {f g}, F f g → f.Matched P ρ T g

end

section

variable {P : String → Prop} {ρ : ScopeId → ScopeId} {T T' : Expr → Expr → Prop}
  {F F' : Closure → Closure → Prop}

theorem Stmt.Matched.mono {s s' : Stmt} (matched : s.Matched P T s')
    (le : ∀ e e', T e e' → T' e e') : s.Matched P T' s' := by
  cases matched with
  | bind name he => exact .bind name (le _ _ he)
  | ret he => exact .ret (le _ _ he)
  | expr he => exact .expr (le _ _ he)

theorem Block.Matched.mono {b b' : Block} (matched : b.Matched P T b')
    (le : ∀ e e', T e e' → T' e e') : b.Matched P T' b' :=
  List.Forall₂.imp (fun _ _ hs => hs.mono le) matched

theorem Expr.Matched.mono {e e' : Expr} (matched : e.Matched P ρ T F e')
    (le : ∀ e e', T e e' → T' e e') (le' : ∀ f g, F f g → F' f g) : e.Matched P ρ T' F' e' := by
  cases matched with
  | ident name => exact .ident name
  | int value => exact .int value
  | bool value => exact .bool value
  | unary operator operand => exact .unary operator (le _ _ operand)
  | binary operator left right => exact .binary operator (le _ _ left) (le _ _ right)
  | cond test consequence alternative =>
    exact .cond (le _ _ test) (consequence.mono le)
      (optionRel_mono alternative fun _ _ hb => hb.mono le)
  | fn made => exact .fn fun id id' scope => le' _ _ (made id id' scope)
  | call callee arguments => exact .call (le _ _ callee) (arguments.imp le)

theorem Closure.Matched.mono {f g : Closure} (matched : f.Matched P ρ T g)
    (le : ∀ e e', T e e' → T' e e') : f.Matched P ρ T' g :=
  ⟨matched.parameters, matched.body.mono le, matched.scope⟩

/-- Trees may be matched in either of two ways, here in one and there in the other. -/
theorem Eval.Matching.or (matching : Matching P ρ T F) (matching' : Matching P ρ T' F') :
    Matching P ρ (fun e e' => T e e' ∨ T' e e') fun f g => F f g ∨ F' f g where
  tree := by
    rintro e e' (he | he)
    · exact (matching.tree he).mono (fun _ _ => .inl) fun _ _ => .inl
    · exact (matching'.tree he).mono (fun _ _ => .inr) fun _ _ => .inr
  function := by
    rintro f g (related | related)
    · exact (matching.function related).mono fun _ _ => .inl
    · exact (matching'.function related).mono fun _ _ => .inr

end

/-! ### Heaps -/

/-- `R` relates heaps that answer alike when scopes are renamed by `ρ`, and nothing that evaluation
does to both of them changes that. -/
structure Heap.Simulation (P : String → Prop) (ρ : ScopeId → ScopeId)
    (F : Closure → Closure → Prop) (R : Heap → Heap → Prop) : Prop where
  next : ∀ {h k}, R h k → ρ h.next = k.next
  get? : ∀ {h k}, R h k → ∀ i x, P x →
    Option.Rel (Value.Rel F) (h.get? i x) (k.get? (ρ i) x)
  set : ∀ {h k}, R h k → ∀ i x v w, P x → Value.Rel F v w → R (h.set i x v) (k.set (ρ i) x w)
  add : ∀ {h k}, R h k → ∀ i, R (h.add (some i)) (k.add (some (ρ i)))
  closure : ∀ {h k : Heap}, R h k →
    R { h with closures := h.closures + 1 } { k with closures := k.closures + 1 }

namespace Eval

/-! ### Evaluation -/

/-- Both come to an end or neither does; then the heaps are related, and so are the answers. -/
def Related {β : Type} (V : β → β → Prop) (R : Heap → Heap → Prop) :
    Option (β × Heap) → Option (β × Heap) → Prop :=
  Option.Rel fun a b => V a.1 b.1 ∧ R a.2 b.2

variable {P : String → Prop} {ρ : ScopeId → ScopeId} {T : Expr → Expr → Prop}
  {F : Closure → Closure → Prop} {R : Heap → Heap → Prop}

theorem related_none {β : Type} {V : β → β → Prop} : Related V R none none := .none

theorem related_some {β : Type} {V : β → β → Prop} {b c : β} {h k : Heap} (hb : V b c)
    (heaps : R h k) :
    Related V R (some (b, h)) (some (c, k)) :=
  .some ⟨hb, heaps⟩

theorem Related.isSome_eq {β : Type} {V : β → β → Prop} {r r' : Option (β × Heap)}
    (related : Related V R r r') : r.isSome = r'.isSome := by
  cases related <;> rfl

theorem Related.mono {β : Type} {V W : β → β → Prop} {S : Heap → Heap → Prop}
    {r r' : Option (β × Heap)} (related : Related V R r r') (le : ∀ b c, V b c → W b c)
    (le' : ∀ h k, R h k → S h k) : Related W S r r' :=
  optionRel_mono related fun _ _ both => ⟨le _ _ both.1, le' _ _ both.2⟩

/-- Steps that are related one by one are related as sequences. -/
theorem Related.andThen {r r' : Result} {f f' : Value → Heap → Result}
    (first : Related (Value.Rel F) R r r')
    (second : ∀ v w h k, Value.Rel F v w → R h k → Related (Value.Rel F) R (f v h) (f' w k)) :
    Related (Value.Rel F) R (andThen r f) (andThen r' f') := by
  obtain ⟨values, heaps⟩ | _ := first
  · simp only [Eval.andThen, values.isUnwinding_eq]
    split
    · exact related_some values heaps
    · exact second _ _ _ _ values heaps
  · exact related_none

theorem Related.map {β γ : Type} {V : β → β → Prop} {W : γ → γ → Prop}
    {r r' : Option (β × Heap)} {g : β → γ} (related : Related V R r r')
    (hg : ∀ b c, V b c → W (g b) (g c)) :
    Related W R (r.map fun (b, h) => (g b, h)) (r'.map fun (b, h) => (g b, h)) := by
  obtain ⟨hb, heaps⟩ | _ := related
  · exact related_some (hg _ _ hb) heaps
  · exact related_none

theorem related_bindAll (sim : Heap.Simulation P ρ F R) {ps ps' : List Ident}
    (names : List.Forall₂ (Ident.Matched P) ps ps') {vs ws : List Value}
    (values : List.Forall₂ (Value.Rel F) vs ws) (scope : ScopeId) {h k : Heap} (heaps : R h k) :
    R (bindAll scope ps vs h) (bindAll (ρ scope) ps' ws k) := by
  induction names generalizing vs ws h k with
  | nil => exact heaps
  | cons name names ih =>
    cases values with
    | nil => exact heaps
    | cons value values =>
      rw [bindAll, bindAll, name.name]
      exact ih values (sim.set heaps scope _ _ _ name.matters value)

namespace Matching

mutual

theorem related_expr (matching : Matching P ρ T F) (sim : Heap.Simulation P ρ F R) (n : Nat)
    {e e' : Expr} (he : T e e') (scope : ScopeId) {h k : Heap} (heaps : R h k) :
    Related (Value.Rel F) R (expr n e scope h) (expr n e' (ρ scope) k) := by
  match n with
  | 0 =>
    simp only [expr]
    exact related_none
  | n + 1 =>
    cases matching.tree he with
    | int value | bool value =>
      simp only [expr]
      exact related_some (by constructor) heaps
    | @ident i j name =>
      simp only [expr, name.name]
      have found := sim.get? heaps scope i.name name.matters
      generalize h.get? scope i.name = v, k.get? (ρ scope) i.name = w at found ⊢
      obtain value | _ := found
      · exact related_some value heaps
      · exact related_some (.error _) heaps
    | unary operator operand =>
      simp only [expr]
      refine (matching.related_expr sim n operand scope heaps).andThen fun v w h k value heaps => ?_
      exact related_some (value.unaryOperator operator) heaps
    | binary operator left right =>
      simp only [expr]
      refine (matching.related_expr sim n left scope heaps).andThen fun _ _ _ _ first heaps => ?_
      refine (matching.related_expr sim n right scope heaps).andThen fun _ _ _ _ second heaps => ?_
      exact related_some (first.binaryOperator operator second) heaps
    | cond test consequence alternative =>
      simp only [expr]
      refine (matching.related_expr sim n test scope heaps).andThen fun v w h k value heaps => ?_
      rw [value.isTruthy_eq]
      split
      · exact matching.related_stmts sim n .null consequence scope heaps
      · cases alternative with
        | none => exact related_some .null heaps
        | some alternative => exact matching.related_stmts sim n .null alternative scope heaps
    | fn made =>
      simp only [expr]
      exact related_some (.fn (made _ _ scope)) (sim.closure heaps)
    | @call _ _ _ _ es es' _ _ callee arguments =>
      simp only [expr]
      refine (matching.related_expr sim n callee scope heaps).andThen fun f g h k called heaps => ?_
      have values := matching.related_args sim n arguments scope heaps
      generalize args n es scope h = r, args n es' (ρ scope) k = r' at values ⊢
      obtain @⟨⟨_, h₁⟩, ⟨_, k₁⟩, values, heaps⟩ | _ := values
      · cases values with
        | ok values => exact matching.related_apply sim n called values heaps
        | error stopped => exact related_some stopped heaps
      · exact related_none
termination_by structural n

theorem related_args (matching : Matching P ρ T F) (sim : Heap.Simulation P ρ F R) (n : Nat)
    {es es' : List Expr} (hes : List.Forall₂ T es es') (scope : ScopeId) {h k : Heap}
    (heaps : R h k) :
    Related (ArgumentsRel F) R (args n es scope h) (args n es' (ρ scope) k) := by
  match n with
  | 0 =>
    simp only [args]
    exact related_none
  | n + 1 =>
    cases hes with
    | nil =>
      simp only [args]
      exact related_some (.ok .nil) heaps
    | @cons e e' es es' he hes =>
      simp only [args]
      have first := matching.related_expr sim n he scope heaps
      generalize expr n e scope h = r, expr n e' (ρ scope) k = r' at first ⊢
      obtain @⟨⟨v, h₁⟩, ⟨w, k₁⟩, value, heaps⟩ | _ := first
      · simp only [value.isUnwinding_eq]
        split
        · exact related_some (.error value) heaps
        have rest := matching.related_args sim n hes scope heaps
        generalize args n es scope h₁ = r, args n es' (ρ scope) k₁ = r' at rest ⊢
        obtain @⟨⟨_, h₂⟩, ⟨_, k₂⟩, values, heaps⟩ | _ := rest
        · cases values with
          | ok values => exact related_some (.ok (.cons value values)) heaps
          | error stopped => exact related_some (.error stopped) heaps
        · exact related_none
      · exact related_none
termination_by structural n

theorem related_apply (matching : Matching P ρ T F) (sim : Heap.Simulation P ρ F R) (n : Nat)
    {f g : Value} (callee : Value.Rel F f g) {vs ws : List Value}
    (values : List.Forall₂ (Value.Rel F) vs ws) {h k : Heap} (heaps : R h k) :
    Related (Value.Rel F) R (apply n f vs h) (apply n g ws k) := by
  match n with
  | 0 =>
    simp only [apply]
    exact related_none
  | n + 1 =>
    cases callee with
    | @fn f g related =>
      have ⟨parameters, body, scope⟩ := matching.function related
      simp only [apply, values.length_eq, parameters.length_eq, scope]
      split
      · have opened := sim.add heaps f.scope
        have bound := related_bindAll sim parameters values h.next opened
        have ends := matching.related_stmts sim n .null body h.next bound
        rw [sim.next heaps] at ends
        exact ends.map fun _ _ => Value.Rel.unwrap
      · exact related_some (.error _) heaps
    | _ =>
      simp only [apply]
      exact related_some (.error _) heaps
termination_by structural n

theorem related_stmts (matching : Matching P ρ T F) (sim : Heap.Simulation P ρ F R) (n : Nat)
    {last last' : Value} (lasts : Value.Rel F last last') {ss ss' : List Stmt}
    (hss : List.Forall₂ (Stmt.Matched P T) ss ss') (scope : ScopeId) {h k : Heap}
    (heaps : R h k) :
    Related (Value.Rel F) R (stmts n last ss scope h) (stmts n last' ss' (ρ scope) k) := by
  match n with
  | 0 =>
    simp only [stmts]
    exact related_none
  | n + 1 =>
    cases hss with
    | nil =>
      simp only [stmts]
      exact related_some lasts heaps
    | cons hs hss =>
      simp only [stmts]
      refine (matching.related_stmt sim n hs scope heaps).andThen fun v w h k value heaps => ?_
      exact matching.related_stmts sim n value hss scope heaps
termination_by structural n

theorem related_stmt (matching : Matching P ρ T F) (sim : Heap.Simulation P ρ F R) (n : Nat)
    {s s' : Stmt} (hs : s.Matched P T s') (scope : ScopeId) {h k : Heap} (heaps : R h k) :
    Related (Value.Rel F) R (stmt n s scope h) (stmt n s' (ρ scope) k) := by
  match n with
  | 0 =>
    simp only [stmt]
    exact related_none
  | n + 1 =>
    cases hs with
    | expr he =>
      simp only [stmt]
      exact matching.related_expr sim n he scope heaps
    | ret he =>
      simp only [stmt]
      refine (matching.related_expr sim n he scope heaps).andThen fun v w h k value heaps => ?_
      exact related_some value.returned heaps
    | bind name he =>
      simp only [stmt, name.name]
      refine (matching.related_expr sim n he scope heaps).andThen fun v w h k value heaps => ?_
      exact related_some .null (sim.set heaps scope _ _ _ name.matters value)
termination_by structural n

end

theorem related_program (matching : Matching P ρ T F) (sim : Heap.Simulation P ρ F R) (n : Nat)
    {p p' : Program} (hp : List.Forall₂ (Stmt.Matched P T) p.statements p'.statements)
    (scope : ScopeId) {h k : Heap} (heaps : R h k) :
    Related (Value.Rel F) R (program n p scope h) (program n p' (ρ scope) k) :=
  (matching.related_stmts sim n .null hp scope heaps).map fun _ _ => Value.Rel.unwrap

end Matching

end Eval

end LetFn
