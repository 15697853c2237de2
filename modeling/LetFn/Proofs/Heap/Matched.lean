import LetFn.Proofs.Eval.Simulation
import LetFn.Proofs.Heap.Event

/-! Two heaps of one shape. The scopes of the second have other numbers but stand in the same order,
and there may be a scope around them that binds nothing. Evaluation keeps it so. -/

namespace LetFn

section

variable (P : String → Prop) (ρ : ScopeId → ScopeId) (F : Closure → Closure → Prop)
  (around : Option ScopeId)

/-- A scope and the one that stands for it: in what stands for the scope around it, or in `around`
if there is none. -/
structure Scope.Matched (s s' : Scope) : Prop where
  outer : s'.outer = (s.outer.map ρ).or around
  get? : ∀ x, P x → Option.Rel (Value.Rel F) (s.get? x) (s'.get? x)

/-- For every scope of `h` one of `k` stands. From the next ones on both count alike. -/
structure Heap.Matched (h k : Heap) : Prop where
  next : ∀ n, ρ (h.next + n) = k.next + n
  scope : ∀ i, Option.Rel (Scope.Matched P ρ F around) h.scopes[i]? k.scopes[ρ i]?
  blank : ∀ a ∈ around, k.scopes[a]? = some ⟨[], none⟩

end

namespace Heap

variable {P : String → Prop} {ρ : ScopeId → ScopeId} {F : Closure → Closure → Prop}
  {around : Option ScopeId} {h k : Heap}

theorem injective_of_order (order : ∀ {i j}, ρ i < ρ j ↔ i < j) {i j : ScopeId} :
    ρ i = ρ j ↔ i = j := by
  refine ⟨fun same => ?_, congrArg ρ⟩
  have before := mt order.2 (Nat.not_lt.2 (Nat.le_of_eq same.symm))
  have behind := mt order.2 (Nat.not_lt.2 (Nat.le_of_eq same))
  exact Nat.le_antisymm (Nat.not_lt.1 behind) (Nat.not_lt.1 before)

/-- A blank scope binds nothing, and no scope is around it. -/
theorem get?_of_blank {a : ScopeId} (blank : k.scopes[a]? = some ⟨[], none⟩) (x : String) :
    k.get? a x = none := by
  rw [Heap.get?, blank]
  rfl

namespace Matched

theorem get? (order : ∀ {i j}, ρ i < ρ j ↔ i < j) (matched : Matched P ρ F around h k)
    (i : ScopeId) {x : String} (matters : P x) :
    Option.Rel (Value.Rel F) (h.get? i x) (k.get? (ρ i) x) := by
  induction i using Nat.strongRecOn with
  | ind i ih =>
    have scopes := matched.scope i
    rw [Heap.get?, Heap.get?]
    generalize h.scopes[i]? = s, k.scopes[ρ i]? = s' at scopes ⊢
    obtain @⟨s, s', scopes⟩ | _ := scopes
    · have bound := scopes.get? x matters
      simp only [scopes.outer]
      generalize s.get? x = v, s'.get? x = w at bound ⊢
      obtain value | _ := bound
      · exact .some value
      · cases s.outer with
        | none =>
          rw [Option.map_none, Option.none_or]
          cases around with
          | none => exact .none
          | some a =>
            simp only [get?_of_blank (matched.blank a rfl), ite_self]
            exact .none
        | some o =>
          simp only [Option.map_some, Option.some_or, order]
          split
          · next earlier => exact ih o earlier
          · exact .none
    · exact .none

theorem set (order : ∀ {i j}, ρ i < ρ j ↔ i < j) (inside : ∀ a ∈ around, ∀ i, ρ i ≠ a)
    (matched : Matched P ρ F around h k) (i : ScopeId) (x : String) {v w : Value}
    (value : Value.Rel F v w) : Matched P ρ F around (h.set i x v) (k.set (ρ i) x w) where
  next := by simpa using matched.next
  scope j := by
    have scopes := matched.scope j
    rw [Heap.set, Heap.set, Array.getElem?_modify, Array.getElem?_modify]
    simp only [injective_of_order order]
    split
    · generalize h.scopes[j]? = s, k.scopes[ρ j]? = s' at scopes ⊢
      obtain scopes | _ := scopes
      · refine .some ⟨scopes.outer, fun y matters => ?_⟩
        rw [Scope.get?_set, Scope.get?_set]
        split
        · exact .some value
        · exact scopes.get? y matters
      · exact .none
    · exact scopes
  blank a ha := by
    rw [getElem?_set_ne k x w (inside a ha i).symm]
    exact matched.blank a ha

theorem add (order : ∀ {i j}, ρ i < ρ j ↔ i < j) (matched : Matched P ρ F around h k)
    {outer outer' : Option ScopeId} (links : outer' = (outer.map ρ).or around) :
    Matched P ρ F around (h.add outer) (k.add outer') where
  next n := by
    rw [next_add, next_add, Nat.add_assoc, Nat.add_assoc]
    exact matched.next (1 + n)
  scope j := by
    have counted : ρ h.next = k.next := matched.next 0
    have fresh : ρ j = k.scopes.size ↔ j = h.scopes.size :=
      (counted ▸ injective_of_order order : ρ j = k.next ↔ j = h.next)
    rw [Heap.add, Heap.add, Array.getElem?_push, Array.getElem?_push]
    simp only [fresh]
    split
    · exact .some ⟨links, fun y _ => .none⟩
    · exact matched.scope j
  blank a ha := by
    have there := matched.blank a ha
    have older : a ≠ k.scopes.size := Nat.ne_of_lt (lt_next there)
    rw [Heap.add, Array.getElem?_push, if_neg older]
    exact there

end Matched

theorem simulation_matched (order : ∀ {i j}, ρ i < ρ j ↔ i < j)
    (inside : ∀ a ∈ around, ∀ i, ρ i ≠ a) : Simulation P ρ F (Matched P ρ F around) where
  next matched := matched.next 0
  get? matched i _ matters := matched.get? order i matters
  set matched i x _ _ _ value := matched.set order inside i x value
  add matched _ := matched.add order rfl
  closure matched := ⟨matched.next, matched.scope, matched.blank⟩

end Heap

end LetFn
