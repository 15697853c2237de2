import LetFn.Proofs.Heap.Event

/-! Looking names up. From every scope the links lead outwards to a last one, and a name means what
was last written under it to the nearest scope on that way. -/

namespace LetFn

/-! ### The way outwards -/

/-- The scopes that are met from a scope on when the links are followed to the end, the scope itself
included. -/
inductive Heap.Chain (h : Heap) : ScopeId → List ScopeId → Prop
  | last {i : ScopeId} {s : Scope} : h.scopes[i]? = some s → s.outer = none → h.Chain i [i]
  | link {i o : ScopeId} {s : Scope} {chain : List ScopeId} : h.scopes[i]? = some s →
      s.outer = some o → h.Chain o chain → h.Chain i (i :: chain)

namespace Heap

variable {h : Heap} {i : ScopeId} {chain : List ScopeId}

/-- What the name is bound to in the scope itself. -/
def own? (h : Heap) (i : ScopeId) (name : String) : Option Value :=
  h.scopes[i]?.bind fun s => s.get? name

namespace Closed

theorem exists_chain (closed : h.Closed) (hi : i < h.next) : ∃ chain, h.Chain i chain := by
  induction i using Nat.strongRecOn with
  | ind i ih =>
    obtain ⟨s, hs⟩ := exists_scope hi
    cases link : s.outer with
    | none => exact ⟨_, .last hs link⟩
    | some o =>
      have earlier := closed.outer i s hs o link
      obtain ⟨chain, rest⟩ := ih o earlier (Nat.lt_trans earlier hi)
      exact ⟨_, .link hs link rest⟩

theorem le_of_mem_chain (closed : h.Closed) (on : h.Chain i chain) : ∀ j ∈ chain, j ≤ i := by
  induction on with
  | last => simp
  | @link i o s chain hs outer _ ih =>
    have earlier := closed.outer i s hs o outer
    refine List.forall_mem_cons.2 ⟨Nat.le_refl _, fun j hj => ?_⟩
    exact Nat.le_trans (ih j hj) (Nat.le_of_lt earlier)

/-- The links lead backwards all the way, so no scope is met twice. -/
theorem chain_descends (closed : h.Closed) (on : h.Chain i chain) :
    chain.Pairwise fun j k => k < j := by
  induction on with
  | last => simp
  | @link i o s chain hs outer rest ih =>
    have earlier := closed.outer i s hs o outer
    refine .cons (fun j hj => ?_) ih
    exact Nat.lt_of_le_of_lt (closed.le_of_mem_chain rest j hj) earlier

/-- The nearest scope on the way that binds the name decides. -/
theorem get?_eq_findSome? (closed : h.Closed) (on : h.Chain i chain) (name : String) :
    h.get? i name = chain.findSome? fun j => h.own? j name := by
  induction on with
  | @last i s hs outer =>
    rw [Heap.get?, hs]
    cases found : s.get? name <;> simp [own?, hs, found, outer]
  | @link i o s chain hs outer _ ih =>
    have earlier := closed.outer i s hs o outer
    rw [Heap.get?, hs]
    cases found : s.get? name with
    | some value => simp [own?, hs, found]
    | none => simpa [own?, hs, found, outer, earlier] using ih

end Closed

theorem own?_set_ne {scope : ScopeId} (h : Heap) (name other : String) (value : Value)
    (hi : i ≠ scope) : (h.set scope name value).own? i other = h.own? i other := by
  rw [own?, own?, getElem?_set_ne h name value hi]

/-- Whatever is bound anywhere has the property. -/
def Binds (P : Value → Prop) (h : Heap) : Prop := ∀ i name v, h.own? i name = some v → P v

theorem binds_empty {P : Value → Prop} : Heap.empty.Binds P := by
  intro i name v hv
  simp [own?, empty] at hv

namespace Binds

variable {P : Value → Prop}

theorem add (binds : h.Binds P) (outer : Option ScopeId) : (h.add outer).Binds P := by
  intro i name v hv
  obtain ⟨s, hs, hv⟩ := Option.bind_eq_some_iff.1 hv
  rcases getElem?_add_cases hs with old | ⟨-, rfl⟩
  · exact binds i name v (Option.bind_eq_some_iff.2 ⟨s, old, hv⟩)
  · simp [Scope.get?] at hv

theorem set (binds : h.Binds P) (scope : ScopeId) (name : String) {value : Value}
    (hp : P value) : (h.set scope name value).Binds P := by
  intro i other v hv
  obtain ⟨s, hs, hv⟩ := Option.bind_eq_some_iff.1 hv
  obtain ⟨old, found, rfl⟩ := getElem?_set_cases hs
  have before (hv : old.get? other = some v) : P v :=
    binds i other v (Option.bind_eq_some_iff.2 ⟨old, found, hv⟩)
  split at hv
  · rw [Scope.get?_set] at hv
    split at hv
    · exact Option.some.inj hv ▸ hp
    · exact before hv
  · exact before hv

/-- What a name means is bound in one of the scopes around. -/
theorem get? (binds : h.Binds P) {scope : ScopeId} {name : String} {v : Value}
    (hv : h.get? scope name = some v) : P v := by
  induction scope using Nat.strongRecOn with
  | ind scope ih =>
    rw [Heap.get?] at hv
    split at hv
    · cases hv
    next s hs =>
    split at hv
    · next found =>
      cases hv
      exact binds scope name v (Option.bind_eq_some_iff.2 ⟨s, hs, found⟩)
    · split at hv
      · cases hv
      · split at hv
        · next earlier => exact ih _ earlier hv
        · cases hv

theorem bindAll (binds : h.Binds P) (scope : ScopeId) (ps : List Ident) {values : List Value}
    (hvs : ∀ v ∈ values, P v) : (Eval.bindAll scope ps values h).Binds P := by
  induction ps generalizing values h with
  | nil => exact binds
  | cons p ps ih =>
    cases values with
    | nil => exact binds
    | cons v values =>
      obtain ⟨hv, rest⟩ := List.forall_mem_cons.1 hvs
      exact ih (binds.set scope p.name hv) rest

end Binds

/-- A write matters only on the way outwards. -/
theorem Chain.get?_set_of_not_mem (on : h.Chain i chain) {scope : ScopeId} (off : scope ∉ chain)
    (name other : String) (value : Value) :
    (h.set scope name value).get? i other = h.get? i other := by
  induction on with
  | last hs outer =>
    have ne := List.ne_of_not_mem_cons off
    rw [Heap.get?, Heap.get?, getElem?_set_ne h name value ne.symm, hs]
    simp [outer]
  | link hs outer _ ih =>
    have ne := List.ne_of_not_mem_cons off
    rw [Heap.get?, Heap.get?, getElem?_set_ne h name value ne.symm, hs]
    simp [outer, ih (List.not_mem_of_not_mem_cons off)]

end Heap

/-! ### What was written last -/

namespace Event

/-- The link of the scope that is created, if one is. -/
def link? : Event → Option (Option ScopeId)
  | create outer => some outer
  | closure | write _ _ _ => none

/-- What is bound to the name in the scope, if anything is. -/
def written? (i : ScopeId) (name : String) : Event → Option Value
  | write scope other value => if scope = i ∧ other = name then some value else none
  | create _ | closure => none

/-- What the latest event to bind the name in the scope bound it to. -/
def lastWritten? (log : List Event) (i : ScopeId) (name : String) : Option Value :=
  log.reverse.findSome? (written? i name)

variable {log : List Event} {e : Event} {i : ScopeId} {name : String}

theorem lastWritten?_concat :
    lastWritten? (log ++ [e]) i name = (e.written? i name).or (lastWritten? log i name) := by
  simp only [lastWritten?, List.reverse_append, List.reverse_singleton, List.singleton_append,
    List.findSome?_cons]
  cases e.written? i name <;> rfl

end Event

open Event (lastWritten?)

/-- The log tells all about the scopes of the heap. -/
structure Heap.Recorded (h : Heap) (log : List Event) : Prop where
  links : h.scopes.toList.map Scope.outer = log.filterMap Event.link?
  own : ∀ i name, h.own? i name = lastWritten? log i name

namespace Heap.Recorded

variable {h h' : Heap} {e : Event} {log more : List Event}

theorem empty : Heap.empty.Recorded [] where
  links := rfl
  own _ _ := rfl

theorem perform (recorded : h.Recorded log) (fits : e.Fits h) :
    (e.perform h).Recorded (log ++ [e]) where
  links := by
    rw [List.filterMap_append, ← recorded.links]
    cases e with
    | create outer => simp [Event.perform, Event.link?, add]
    | closure => simp [Event.perform, Event.link?]
    | write scope name value =>
      refine List.ext_getElem? fun i => ?_
      simp only [Event.perform, set, Event.link?, List.filterMap_cons, List.filterMap_nil,
        List.append_nil, List.getElem?_map, Array.getElem?_toList, Array.getElem?_modify]
      split
      · cases h.scopes[i]? <;> rfl
      · rfl
  own i name := by
    rw [Event.lastWritten?_concat, ← recorded.own]
    cases e with
    | create outer =>
      rw [Event.written?, Option.none_or, Event.perform, own?, own?, add, Array.getElem?_push]
      split
      · next hi =>
        subst hi
        simp [Scope.get?]
      · rfl
    | closure => rfl
    | write scope other value =>
      obtain ⟨s, hs⟩ := exists_scope fits.1
      rw [Event.perform, Event.written?]
      by_cases hi : i = scope
      · subst hi
        rw [own?, getElem?_set_self other value hs, own?, hs]
        by_cases hn : name = other
        · simp [Scope.get?_set, hn]
        · simp [Scope.get?_set, hn, Ne.symm hn]
      · rw [own?_set_ne h other name value hi, if_neg fun same => hi same.1.symm, Option.none_or]

end Heap.Recorded

theorem Leads.recorded {h h' : Heap} {log more : List Event} (leads : Leads h more h')
    (recorded : h.Recorded log) : h'.Recorded (log ++ more) := by
  induction leads generalizing log with
  | nil => simpa using recorded
  | cons fits _ ih => simpa using ih (recorded.perform fits)

end LetFn
