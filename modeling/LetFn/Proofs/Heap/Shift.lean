import LetFn.Proofs.Heap.Image

/-! Heaps that share their first scopes. What is made later in them may have other numbers, as more
has been made in the one than in the other; evaluation does not notice. -/

namespace LetFn

/-- Scopes from `start` on are counted `gap` further. -/
def shift (start gap i : Nat) : Nat := if i < start then i else i + gap

section

variable {start gap i j : Nat}

theorem shift_of_lt (h : i < start) : shift start gap i = i := if_pos h

theorem shift_of_le (h : start ≤ i) : shift start gap i = i + gap := if_neg (Nat.not_lt.2 h)

theorem shift_lt_shift_iff : shift start gap i < shift start gap j ↔ i < j := by
  unfold shift
  split <;> split <;> omega

end

/-- What belongs to the shared scopes looks the same from both sides. -/
theorem Value.Within.alike {start gap : Nat} {v : Value} (within : v.Within start) :
    Value.Alike (fun _ => True) (shift start gap) v v := by
  induction v with
  | fn f =>
    have same : Closure.Alike (fun _ => True) (shift start gap) f _ :=
      .intro f.id fun _ _ => trivial
    rw [shift_of_lt within] at same
    exact .fn same
  | returned v ih => exact .returned (ih within)
  | int | bool | error | null => constructor

/-- A scope and its image: it lies in the image of what is around it, and binds what is alike. -/
structure Scope.Shifted (start gap : Nat) (s s' : Scope) : Prop where
  outer : s'.outer = s.outer.map (shift start gap)
  get? : ∀ x, Option.Rel (Value.Alike (fun _ => True) (shift start gap)) (s.get? x) (s'.get? x)

namespace Heap

/-- From the scope `start` on, those of `h` stand `gap` further behind in `k`. -/
structure Shifted (start gap : Nat) (h k : Heap) : Prop where
  le : start ≤ h.next
  next : k.next = h.next + gap
  scope : ∀ i, Option.Rel (Scope.Shifted start gap) h.scopes[i]? k.scopes[shift start gap i]?

namespace Shifted

variable {start gap : Nat} {h k : Heap}

/-- Both heaps count on from where they are. -/
theorem image (shifted : Shifted start gap h k) :
    Image (fun _ => True) (shift start gap) h k where
  next n := by
    rw [shift_of_le (Nat.le_add_right_of_le shifted.le), shifted.next, Nat.add_right_comm]
  scope i := optionRel_mono (shifted.scope i) fun _ _ scopes =>
    ⟨scopes.outer, fun x _ => scopes.get? x⟩

/-- Heaps with the same first scopes, and no way leading out of these. -/
theorem of_same (closed : h.Closed)
    (same : ∀ (i : ScopeId) (s : Scope), h.scopes[i]? = some s → k.scopes[i]? = some s) :
    Shifted h.next (k.next - h.next) h k := by
  have le : h.next ≤ k.next := by
    refine Nat.le_of_not_lt fun less => ?_
    obtain ⟨s, hs⟩ := exists_scope less
    exact Nat.lt_irrefl _ (lt_next (same _ s hs))
  have next : k.next = h.next + (k.next - h.next) := (Nat.add_sub_of_le le).symm
  refine ⟨Nat.le_refl _, next, fun i => ?_⟩
  by_cases hi : i < h.next
  · obtain ⟨s, hs⟩ := exists_scope hi
    rw [shift_of_lt hi, hs, same i s hs]
    refine .some ⟨?_, fun x => ?_⟩
    · cases outer : s.outer with
      | none => rfl
      | some o =>
        have earlier := Nat.lt_trans (closed.outer i s hs o outer) hi
        rw [Option.map_some, shift_of_lt earlier]
    · cases bound : s.get? x with
      | none => exact .none
      | some v => exact .some (closed.bound i s hs x v bound).alike
  · have hi := Nat.le_of_not_lt hi
    have beyond : k.next ≤ shift h.next (k.next - h.next) i := calc
      k.next = h.next + (k.next - h.next) := next
      _ ≤ i + (k.next - h.next) := Nat.add_le_add_right hi _
      _ = shift h.next (k.next - h.next) i := (shift_of_le hi).symm
    rw [Array.getElem?_eq_none hi, Array.getElem?_eq_none beyond]
    exact .none

end Shifted

end Heap

end LetFn
