import LetFn.Proofs.Eval.Unwinding

/-! Nothing that unwinds escapes into a heap. On a heap that binds nothing unwinding, every step of
evaluation ends on such a heap again, and at most one `returned` is ever around a value. -/

namespace LetFn

/-! ### Values -/

namespace Value

/-- What is returned in it, if anything, does not unwind itself. -/
def Flat : Value → Prop
  | returned v => v.isUnwinding = false
  | _ => True

/-- It is no `returned`: whatever it was returned from has been left. -/
def Caught (v : Value) : Prop := ∀ w, v ≠ returned w

theorem Caught.unwrap_eq {v : Value} (caught : v.Caught) : v.unwrap = v := by
  cases v with
  | returned w => exact (caught w rfl).elim
  | int | bool | fn | error | null => rfl

theorem flat_of_not_isUnwinding {v : Value} (hv : v.isUnwinding = false) : v.Flat := by
  cases v <;> trivial

theorem map_toValue_plain {vs : List Value} (hvs : ∀ v ∈ vs, v.isUnwinding = false) :
    (vs.map plain).map Plain.toValue = vs := by
  rw [List.map_map]
  exact (List.map_congr_left fun v hv => toValue_plain (hvs v hv)).trans (List.map_id _)

end Value

theorem Plain.caught_toValue (v : Plain) : v.toValue.Caught := by
  intro w
  cases v <;> simp [toValue]

theorem Ending.flat_toValue (r : Ending) : r.toValue.Flat := by
  rcases r with (v | message) | v
  · exact v.isUnwinding_toValue
  · trivial
  · exact Value.flat_of_not_isUnwinding v.isUnwinding_toValue

/-- A call has left what its body returned. -/
theorem CallEnds.caught_toValue {f : Plain} {vs : List Plain} {k k' : Heap Plain} {r : Ending}
    (ends : CallEnds f vs k r k') : r.toValue.Caught := by
  cases ends with
  | completes | returns => exact Plain.caught_toValue _
  | notAFunction | argumentCount | fails =>
    intro w hw
    cases hw

/-! ### Heaps -/

namespace Heap

variable {h : Heap}

theorem settled_ofPlain (k : Heap Plain) : k.ofPlain.Settled := by
  intro s hs b hb
  obtain ⟨s, -, rfl⟩ := Array.mem_map.1 hs
  obtain ⟨b, -, rfl⟩ := List.mem_map.1 hb
  exact b.2.isUnwinding_toValue

theorem settled_empty : Heap.empty.Settled := by
  intro s hs
  simp [empty] at hs

/-- Plain heaps are closed under what evaluation does to a heap, and so are settled ones. -/
theorem Settled.add (settled : h.Settled) (outer : Option ScopeId) : (h.add outer).Settled := by
  rw [← ofPlain_plain settled, ofPlain, add_map]
  exact settled_ofPlain _

theorem Settled.set (settled : h.Settled) (scope : ScopeId) (name : String) {v : Value}
    (hv : v.isUnwinding = false) : (h.set scope name v).Settled := by
  rw [← ofPlain_plain settled, ← Value.toValue_plain hv, set_ofPlain]
  exact settled_ofPlain _

theorem Settled.bindAll (settled : h.Settled) (scope : ScopeId) (ps : List Ident)
    {vs : List Value} (hvs : ∀ v ∈ vs, v.isUnwinding = false) :
    (Eval.bindAll scope ps vs h).Settled := by
  rw [← ofPlain_plain settled, ← Value.map_toValue_plain hvs, ofPlain, bindAll_map]
  exact settled_ofPlain _

/-- A name means nothing unwinding in any scope, however far out it is bound. -/
theorem Settled.get? (settled : h.Settled) {scope : ScopeId} {name : String} {v : Value}
    (hv : h.get? scope name = some v) : v.isUnwinding = false := by
  rw [← ofPlain_plain settled, get?_ofPlain] at hv
  obtain ⟨w, -, rfl⟩ := Option.map_eq_some_iff.1 hv
  exact w.isUnwinding_toValue

end Heap

namespace Eval

/-! ### Evaluation -/

/-- Started on a heap that binds nothing unwinding, `run` leaves such a heap behind, and `P` holds
of what it answers. -/
def Settling {β : Type} (P : β → Prop) (run : Heap → Option (β × Heap)) : Prop :=
  ∀ h b h', h.Settled → run h = some (b, h') → h'.Settled ∧ P b

theorem Settling.mono {β : Type} {P Q : β → Prop} {run : Heap → Option (β × Heap)}
    (settling : Settling P run) (imp : ∀ b, P b → Q b) : Settling Q run := by
  intro h b h' settled hr
  obtain ⟨settled', hb⟩ := settling h b h' settled hr
  exact ⟨settled', imp b hb⟩

/-- Whatever stands for an ending on a plain heap is flat, and leaves a settled heap. -/
theorem Stands.settled_and_flat {P : Ending → Heap Plain → Prop} {v : Value} {h : Heap}
    (stands : Stands P v h) : h.Settled ∧ v.Flat := by
  obtain ⟨r, k, -, rfl, rfl⟩ := stands
  exact ⟨Heap.settled_ofPlain k, r.flat_toValue⟩

theorem settling_expr (n : Nat) (e : Expr) (scope : ScopeId) :
    Settling Value.Flat (expr n e scope) := by
  intro h v h' settled hr
  rw [← Heap.ofPlain_plain settled] at hr
  exact (stands_expr n e scope h.plain hr).settled_and_flat

theorem settling_stmt (n : Nat) (s : Stmt) (scope : ScopeId) :
    Settling Value.Flat (stmt n s scope) := by
  intro h v h' settled hr
  rw [← Heap.ofPlain_plain settled] at hr
  exact (stands_stmt n s scope h.plain hr).settled_and_flat

theorem settling_stmts (n : Nat) {last : Value} (hl : last.isUnwinding = false) (ss : List Stmt)
    (scope : ScopeId) : Settling Value.Flat (stmts n last ss scope) := by
  intro h v h' settled hr
  rw [← Heap.ofPlain_plain settled, ← Value.toValue_plain hl] at hr
  exact (stands_stmts n last.plain ss scope h.plain hr).settled_and_flat

/-- The values of arguments do not unwind, and what stops them from being evaluated is flat. -/
def FlatArguments : Except Value (List Value) → Prop
  | .ok vs => ∀ v ∈ vs, v.isUnwinding = false
  | .error v => v.Flat

theorem settling_args (n : Nat) (es : List Expr) (scope : ScopeId) :
    Settling FlatArguments (args n es scope) := by
  intro h a h' settled hr
  rw [← Heap.ofPlain_plain settled] at hr
  obtain ⟨r, k, -, rfl, rfl⟩ := stands_args n es scope h.plain hr
  refine ⟨Heap.settled_ofPlain k, ?_⟩
  cases r with
  | ok vs =>
    intro v hv
    obtain ⟨w, -, rfl⟩ := List.mem_map.1 hv
    exact w.isUnwinding_toValue
  | error x => exact Ending.flat_toValue (.error x)

theorem settling_apply (n : Nat) (f : Value) {values : List Value}
    (hvs : ∀ v ∈ values, v.isUnwinding = false) :
    Settling Value.Caught (apply n f values) := by
  intro h v h' settled hr
  cases hf : f.isUnwinding with
  | false =>
    rw [← Heap.ofPlain_plain settled, ← Value.toValue_plain hf, ← Value.map_toValue_plain hvs] at hr
    obtain ⟨r, k, ends, rfl, rfl⟩ := stands_apply n f.plain (values.map Value.plain) h.plain hr
    exact ⟨Heap.settled_ofPlain k, ends.caught_toValue⟩
  | true =>
    -- What unwinds is no function, and nothing is evaluated.
    cases n with
    | zero => simp [apply] at hr
    | succ n =>
      cases f with
      | returned | error =>
        simp only [apply] at hr
        cases hr
        exact ⟨settled, fun w hw => by cases hw⟩
      | int | bool | fn | null => cases hf

theorem settling_program (n : Nat) (p : Program) (scope : ScopeId) :
    Settling Value.Caught (program n p scope) := by
  intro h v h' settled hr
  rw [← Heap.ofPlain_plain settled] at hr
  obtain ⟨r, k, -, rfl, rfl⟩ := stands_program hr
  refine ⟨Heap.settled_ofPlain k, ?_⟩
  cases r with
  | ok v => exact v.caught_toValue
  | error message => exact fun w hw => by cases hw

end Eval

end LetFn
