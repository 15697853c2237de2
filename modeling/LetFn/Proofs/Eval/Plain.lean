import LetFn.Proofs.Eval.Raising

/-! Values and heaps without anything that unwinds, as values and heaps among others. -/

namespace LetFn

/-! ### Values -/

namespace Plain

def toValue : Plain → Value
  | int n => .int n
  | bool b => .bool b
  | fn closure => .fn closure
  | null => .null

@[simp] theorem isUnwinding_toValue (v : Plain) : v.toValue.isUnwinding = false := by
  cases v <;> rfl

@[simp] theorem isTruthy_toValue (v : Plain) : v.toValue.isTruthy = v.isTruthy := by
  cases v with
  | bool b => cases b <;> rfl
  | _ => rfl

@[simp] theorem type_toValue (v : Plain) : v.toValue.type = v.type := by
  cases v <;> rfl

@[simp] theorem unwrap_toValue (v : Plain) : v.toValue.unwrap = v.toValue := by
  cases v <;> rfl

end Plain

/-- The value that stands for what was raised. -/
def Signal.toValue : Signal → Value
  | returned v => .returned v.toValue
  | error message => .error message

@[simp] theorem Signal.isUnwinding_toValue (x : Signal) : x.toValue.isUnwinding = true := by
  cases x <;> rfl

namespace Ending

def toValue : Ending → Value
  | .ok v => v.toValue
  | .error x => x.toValue

@[simp] theorem toValue_raise (e : RuntimeError) : (raise e).toValue = .raise e := rfl

end Ending

theorem Value.unaryOperator_toValue (operator : String) (v : Plain) :
    unaryOperator operator v.toValue = (Plain.unary operator v).toValue := by
  simp only [unaryOperator, Plain.unary, Plain.isTruthy_toValue, Plain.type_toValue]
  split
  · rfl
  · cases v <;> rfl
  · simp

theorem Value.integerOperator_toValue (operator : String) (m n : Int64) :
    integerOperator operator m n = (Plain.integers operator m n).toValue := by
  simp only [integerOperator, Plain.integers]
  split
  case h_4 => split <;> rfl
  case h_9 => simp
  all_goals rfl

theorem Value.booleanOperator_toValue (operator : String) (a b : Bool) :
    booleanOperator operator a b = (Plain.booleans operator a b).toValue := by
  simp only [booleanOperator, Plain.booleans]
  split
  · rfl
  · rfl
  · simp

theorem Value.binaryOperator_toValue (operator : String) (v w : Plain) :
    binaryOperator operator v.toValue w.toValue = (Plain.binary operator v w).toValue := by
  cases v <;> cases w <;> first
    | exact integerOperator_toValue operator _ _
    | exact booleanOperator_toValue operator _ _
    | rfl

/-- The other way round; what unwinds has no counterpart. -/
def Value.plain : Value → Plain
  | int n => .int n
  | bool b => .bool b
  | fn closure => .fn closure
  | null | returned _ | error _ => .null

theorem Value.toValue_plain {v : Value} (hv : v.isUnwinding = false) : v.plain.toValue = v := by
  cases v <;> first | rfl | cases hv

/-! ### Heaps -/

variable {α β : Type}

def Scope.map (f : α → β) (s : Scope α) : Scope β :=
  ⟨s.bindings.map fun b => (b.1, f b.2), s.outer⟩

theorem insertBinding_map (f : α → β) (name : String) (value : α) (bindings : List (String × α)) :
    insertBinding name (f value) (bindings.map fun b => (b.1, f b.2)) =
      (insertBinding name value bindings).map fun b => (b.1, f b.2) := by
  induction bindings with
  | nil => rfl
  | cons b rest ih =>
    simp only [insertBinding, List.map_cons]
    split
    · rfl
    · split
      · rfl
      · simp [ih]

namespace Scope

theorem get?_map (f : α → β) (s : Scope α) (name : String) :
    (s.map f).get? name = (s.get? name).map f := by
  obtain ⟨bindings, outer⟩ := s
  simp only [get?, map]
  induction bindings with
  | nil => rfl
  | cons b rest ih =>
    rw [List.map_cons, lookup_cons, lookup_cons]
    split
    · rfl
    · exact ih

theorem set_map (f : α → β) (s : Scope α) (name : String) (value : α) :
    (s.map f).set name (f value) = (s.set name value).map f := by
  simp [set, map, insertBinding_map]

end Scope

namespace Heap

/-- The same scopes, with `f` applied to everything they bind. -/
def map (f : α → β) (h : Heap α) : Heap β := ⟨h.scopes.map (·.map f), h.closures⟩

theorem getElem?_map (f : α → β) (h : Heap α) (i : ScopeId) :
    (h.map f).scopes[i]? = h.scopes[i]?.map (·.map f) := by
  simp [map]

theorem get?_map (f : α → β) (h : Heap α) (scope : ScopeId) (name : String) :
    (h.map f).get? scope name = (h.get? scope name).map f := by
  induction scope using Nat.strongRecOn with
  | ind scope ih =>
    rw [get?, get?, getElem?_map]
    cases h.scopes[scope]? with
    | none => rfl
    | some s =>
      simp only [Option.map_some, Scope.get?_map]
      cases s.get? name with
      | some value => rfl
      | none =>
        simp only [Option.map_none]
        have outer_map : (s.map f).outer = s.outer := rfl
        rw [outer_map]
        cases s.outer with
        | none => rfl
        | some outer =>
          by_cases ho : outer < scope
          · simpa [ho] using ih outer ho
          · simp [ho]

theorem set_map (f : α → β) (h : Heap α) (scope : ScopeId) (name : String) (value : α) :
    (h.map f).set scope name (f value) = (h.set scope name value).map f := by
  simp only [set, map, mk.injEq, and_true]
  apply Array.ext_getElem?
  intro i
  simp only [Array.getElem?_modify, Array.getElem?_map]
  split
  · cases h.scopes[i]? with
    | none => rfl
    | some s => simp [Scope.set_map]
  · rfl

theorem add_map (f : α → β) (h : Heap α) (outer : Option ScopeId) :
    (h.map f).add outer = (h.add outer).map f := by
  simp [add, map, Scope.map]

theorem next_map (f : α → β) (h : Heap α) : (h.map f).next = h.next := by
  simp [next, map]

theorem bindAll_map (f : α → β) (scope : ScopeId) (ps : List Ident) (vs : List α) (h : Heap α) :
    Eval.bindAll scope ps (vs.map f) (h.map f) = (Eval.bindAll scope ps vs h).map f := by
  induction ps generalizing vs h with
  | nil => rfl
  | cons p ps ih =>
    cases vs with
    | nil => rfl
    | cons v vs => rw [List.map_cons, Eval.bindAll, Eval.bindAll, set_map, ih]

/-- No scope binds a name to something that unwinds. -/
def Settled (h : Heap) : Prop :=
  ∀ s ∈ h.scopes, ∀ b ∈ s.bindings, b.2.isUnwinding = false

/-- A heap of plain values is a heap of values. -/
def ofPlain (k : Heap Plain) : Heap := k.map Plain.toValue

def plain (h : Heap) : Heap Plain := h.map Value.plain

theorem ofPlain_plain {h : Heap} (settled : h.Settled) : h.plain.ofPlain = h := by
  obtain ⟨scopes, closures⟩ := h
  simp only [ofPlain, plain, map, Array.map_map, mk.injEq, and_true]
  refine (Array.map_congr_left fun s hs => ?_).trans (Array.map_id _)
  obtain ⟨bindings, outer⟩ := s
  simp only [Function.comp, Scope.map, List.map_map, id, Scope.mk.injEq, and_true]
  refine (List.map_congr_left fun b hb => ?_).trans (List.map_id _)
  simp [Value.toValue_plain (settled _ hs b hb)]

end Heap

end LetFn
