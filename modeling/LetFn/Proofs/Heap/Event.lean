import LetFn.Proofs.Eval.Frame

/-! What can be done to a heap, one thing after another. Whatever is done, the links between scopes
lead to earlier ones, and no function leaves the heap it belongs to. -/

namespace LetFn

/-! ### Heaps that nothing leads out of -/

/-- Its functions were made in scopes with numbers below `n`. -/
def Value.Within (n : Nat) : Value → Prop
  | fn closure => closure.scope < n
  | returned value => value.Within n
  | int _ | bool _ | error _ | null => True

theorem Value.Within.mono {n m : Nat} {v : Value} (within : v.Within n) (le : n ≤ m) :
    v.Within m := by
  induction v with
  | fn closure => exact Nat.lt_of_lt_of_le within le
  | returned value ih => exact ih within
  | int | bool | error | null => trivial

namespace Heap

/-- Links lead from later scopes to earlier ones, and the functions that are bound were made in
scopes that are there. -/
structure Closed (h : Heap) : Prop where
  outer : ∀ (i : ScopeId) (s : Scope), h.scopes[i]? = some s → ∀ o ∈ s.outer, o < i
  bound : ∀ (i : ScopeId) (s : Scope), h.scopes[i]? = some s →
    ∀ x v, s.get? x = some v → v.Within h.next

variable {h h₁ h₂ : Heap} {i scope : ScopeId} {s : Scope} {v : Value}

theorem lt_next (hs : h.scopes[i]? = some s) : i < h.next :=
  (Array.getElem?_eq_some_iff.1 hs).1

theorem exists_scope (hi : i < h.next) : ∃ s, h.scopes[i]? = some s :=
  ⟨_, Array.getElem?_eq_getElem hi⟩

@[simp] theorem next_add (h : Heap) (outer : Option ScopeId) : (h.add outer).next = h.next + 1 := by
  simp [next, add]

@[simp] theorem next_set (h : Heap) (scope : ScopeId) (name : String) (value : Value) :
    (h.set scope name value).next = h.next := by
  simp [next, set]

/-- A scope of a heap with one more is an old one or the new one. -/
theorem getElem?_add_cases {outer : Option ScopeId} (hs : (h.add outer).scopes[i]? = some s) :
    h.scopes[i]? = some s ∨ i = h.next ∧ s = ⟨[], outer⟩ := by
  rw [add, Array.getElem?_push] at hs
  split at hs
  · next hi => exact .inr ⟨hi, (Option.some.inj hs).symm⟩
  · exact .inl hs

/-- A scope of a heap that has been written to is one that was there, with or without the
binding. -/
theorem getElem?_set_cases {name : String} {value : Value}
    (hs : (h.set scope name value).scopes[i]? = some s) :
    ∃ old, h.scopes[i]? = some old ∧ s = if i = scope then old.set name value else old := by
  by_cases hi : i = scope
  · subst hi
    obtain ⟨old, found⟩ := exists_scope (next_set h i name value ▸ lt_next hs)
    rw [getElem?_set_self name value found] at hs
    exact ⟨old, found, by rw [if_pos rfl, Option.some.inj hs]⟩
  · rw [getElem?_set_ne h name value hi] at hs
    exact ⟨s, hs, by rw [if_neg hi]⟩

theorem closed_empty : Heap.empty.Closed where
  outer i s hs := by simp [empty] at hs
  bound i s hs := by simp [empty] at hs

namespace Closed

theorem add (closed : h.Closed) {outer : Option ScopeId} (earlier : ∀ o ∈ outer, o < h.next) :
    (h.add outer).Closed where
  outer i s hs := by
    rcases getElem?_add_cases hs with old | ⟨rfl, rfl⟩
    · exact closed.outer i s old
    · exact earlier
  bound i s hs x v hv := by
    rcases getElem?_add_cases hs with old | ⟨rfl, rfl⟩
    · exact (closed.bound i s old x v hv).mono (by simp)
    · simp [Scope.get?] at hv

theorem set (closed : h.Closed) (scope : ScopeId) (name : String) {value : Value}
    (within : value.Within h.next) : (h.set scope name value).Closed where
  outer i s hs := by
    obtain ⟨old, found, rfl⟩ := getElem?_set_cases hs
    have links := closed.outer i old found
    split
    · exact links
    · exact links
  bound i s hs x v hv := by
    obtain ⟨old, found, rfl⟩ := getElem?_set_cases hs
    rw [next_set]
    split at hv
    · rw [Scope.get?_set] at hv
      split at hv
      · exact Option.some.inj hv ▸ within
      · exact closed.bound i old found x v hv
    · exact closed.bound i old found x v hv

/-- What a name means belongs to the heap, however far out it is bound. -/
theorem get? (closed : h.Closed) {name : String} (hv : h.get? scope name = some v) :
    v.Within h.next := by
  fun_induction Heap.get? h scope name with
  | case1 => cases hv
  | case2 scope s hs value found => exact closed.bound scope s hs name v (found.trans hv)
  | case3 | case5 => cases hv
  | case4 scope s hs none outer link earlier ih => exact ih hv

end Closed

end Heap

/-! ### Events -/

/-- One thing that is done to a heap. -/
inductive Event where
  | create (outer : Option ScopeId)
  /-- A function gets its number. -/
  | closure
  | write (scope : ScopeId) (name : String) (value : Value)

namespace Event

def perform (h : Heap) : Event → Heap
  | create outer => h.add outer
  | closure => { h with closures := h.closures + 1 }
  | write scope name value => h.set scope name value

def replay (h : Heap) (log : List Event) : Heap := log.foldl perform h

/-- It refers to nothing that is not there. -/
def Fits (h : Heap) : Event → Prop
  | create outer => ∀ o ∈ outer, o < h.next
  | closure => True
  | write scope _ value => scope < h.next ∧ value.Within h.next

end Event

open Event (replay)

/-- The events are done to `h` in turn and make it `h'`, each of them fitting what it is done to. -/
inductive Leads : Heap → List Event → Heap → Prop
  | nil {h : Heap} : Leads h [] h
  | cons {h h' : Heap} {e : Event} {log : List Event} : e.Fits h → Leads (e.perform h) log h' →
      Leads h (e :: log) h'

variable {h h₁ h₂ : Heap} {e : Event} {log more : List Event}

theorem Event.next_le_perform (h : Heap) (e : Event) : h.next ≤ (e.perform h).next := by
  cases e with
  | create outer => simp [perform]
  | closure => exact Nat.le_refl _
  | write scope name value => simp [perform]

theorem Event.Fits.closed (fits : e.Fits h) (closed : h.Closed) : (e.perform h).Closed := by
  cases e with
  | create outer => exact closed.add fits
  | closure => exact ⟨closed.outer, closed.bound⟩
  | write scope name value => exact closed.set scope name fits.2

namespace Leads

theorem single (fits : e.Fits h) : Leads h [e] (e.perform h) := .cons fits .nil

theorem append (first : Leads h log h₁) (second : Leads h₁ more h₂) : Leads h (log ++ more) h₂ := by
  induction first with
  | nil => exact second
  | cons fits _ ih => exact .cons fits (ih second)

theorem replay_eq (leads : Leads h log h₁) : replay h log = h₁ := by
  induction leads with
  | nil => rfl
  | cons _ _ ih => exact ih

theorem next_le (leads : Leads h log h₁) : h.next ≤ h₁.next := by
  induction leads with
  | nil => exact Nat.le_refl _
  | cons _ _ ih => exact Nat.le_trans (Event.next_le_perform _ _) ih

theorem closed (leads : Leads h log h₁) (closed : h.Closed) : h₁.Closed := by
  induction leads with
  | nil => exact closed
  | cons fits _ ih => exact ih (fits.closed closed)

/-- What has been done up to some point led to a heap, too. -/
theorem of_prefix (leads : Leads h log h₁) {past : List Event} (before : past <+: log) :
    Leads h past (replay h past) := by
  induction leads generalizing past with
  | nil =>
    obtain rfl := List.prefix_nil.1 before
    exact .nil
  | cons fits _ ih =>
    cases past with
    | nil => exact .nil
    | cons e past =>
      obtain ⟨rfl, rest⟩ := List.cons_prefix_cons.1 before
      exact .cons fits (ih rest)

end Leads

end LetFn
