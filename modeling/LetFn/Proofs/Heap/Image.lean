import LetFn.Proofs.Eval.Alike
import LetFn.Proofs.Heap.Matched

/-! A heap and an image of it, in which scopes have other numbers but stand in the same order. Names
that matter are bound to what is alike; others may be bound to anything. Evaluation keeps it so. -/

namespace LetFn

section

variable (P : String → Prop) (ρ : ScopeId → ScopeId)

/-- A scope and its image, which lies within the image of what is around it. -/
structure Scope.Image (s s' : Scope) : Prop where
  outer : s'.outer = s.outer.map ρ
  get? : ∀ x, P x → Option.Rel (Value.Alike P ρ) (s.get? x) (s'.get? x)

/-- All scopes of `h` have their images in `k`. From the next ones on both count alike. -/
structure Heap.Image (h k : Heap) : Prop where
  next : ∀ n, ρ (h.next + n) = k.next + n
  scope : ∀ i, Option.Rel (Scope.Image P ρ) h.scopes[i]? k.scopes[ρ i]?

end

variable {P : String → Prop} {ρ : ScopeId → ScopeId}

theorem Scope.image_iff {s s' : Scope} :
    s.Image P ρ s' ↔ s.Matched P ρ (Closure.Alike P ρ) none s' where
  mp image := ⟨by rw [Option.or_none, image.outer], image.get?⟩
  mpr matched := ⟨by rw [matched.outer, Option.or_none], matched.get?⟩

namespace Heap

theorem image_iff {h k : Heap} : h.Image P ρ k ↔ h.Matched P ρ (Closure.Alike P ρ) none k where
  mp image := ⟨image.next, fun i => optionRel_mono (image.scope i) fun _ _ => Scope.image_iff.1,
    nofun⟩
  mpr matched := ⟨matched.next, fun i => optionRel_mono (matched.scope i)
    fun _ _ => Scope.image_iff.2⟩

theorem simulation_image (order : ∀ {i j}, ρ i < ρ j ↔ i < j) :
    Simulation P ρ (Closure.Alike P ρ) (Image P ρ) := by
  have same : Image P ρ = Matched P ρ (Closure.Alike P ρ) none := by
    funext h k
    exact propext image_iff
  rw [same]
  exact simulation_matched order nofun

end Heap

end LetFn
