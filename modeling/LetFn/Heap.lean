import LetFn.Value

/-! Scopes, and the heap that holds all of them.

Closures share the scope they were made in, so scopes live in one heap and are named by their
position in it. Nothing here depends on what names are bound to. -/

namespace LetFn

/-- The bindings of one scope in ascending order of names, and the scope around it. -/
structure Scope (α : Type := Value) where
  bindings : List (String × α)
  outer : Option ScopeId

variable {α : Type}

/-- Inserts in order, replacing what the name was bound to. -/
def insertBinding (name : String) (value : α) : List (String × α) → List (String × α)
  | [] => [(name, value)]
  | (other, old) :: rest =>
    if name = other then (name, value) :: rest
    else if name < other then (name, value) :: (other, old) :: rest
    else (other, old) :: insertBinding name value rest

namespace Scope

/-- What the scope itself binds the name to. -/
def get? (s : Scope α) (name : String) : Option α := s.bindings.lookup name

def set (s : Scope α) (name : String) (value : α) : Scope α :=
  { s with bindings := insertBinding name value s.bindings }

theorem lookup_cons (name other : String) (value : α) (rest : List (String × α)) :
    ((name, value) :: rest).lookup other =
      if other = name then some value else rest.lookup other := by
  rw [List.lookup_cons]
  by_cases h : other = name
  · simp [h]
  · simp [beq_eq_false_iff_ne.2 h, h]

theorem lookup_insertBinding (name other : String) (value : α)
    (bindings : List (String × α)) :
    (insertBinding name value bindings).lookup other =
      if other = name then some value else bindings.lookup other := by
  induction bindings with
  | nil => rw [insertBinding, lookup_cons]
  | cons b rest ih =>
    obtain ⟨n, v⟩ := b
    simp only [insertBinding]
    split
    · rename_i hn
      simp only [lookup_cons, hn]
      split <;> rfl
    · split
      · rw [lookup_cons]
      · rename_i hn _
        simp only [lookup_cons, ih]
        split
        · rename_i h
          simp [h, Ne.symm hn]
        · rfl

theorem get?_set (s : Scope α) (name other : String) (value : α) :
    (s.set name value).get? other = if other = name then some value else s.get? other :=
  lookup_insertBinding name other value s.bindings

end Scope

/-- All scopes made so far, and how many closures were. -/
structure Heap (α : Type := Value) where
  scopes : Array (Scope α)
  closures : Nat

namespace Heap

def empty : Heap α := ⟨#[], 0⟩

/-- Adds a scope; its number is the old size. -/
def add (h : Heap α) (outer : Option ScopeId) : Heap α :=
  { h with scopes := h.scopes.push ⟨[], outer⟩ }

/-- A heap with a single root scope, number 0. -/
def root : Heap α := empty.add none

def next (h : Heap α) : ScopeId := h.scopes.size

/-- Looks the name up in the scope and, failing that, in those around it. Links lead to earlier
scopes. -/
def get? (h : Heap α) (scope : ScopeId) (name : String) : Option α :=
  match h.scopes[scope]? with
  | none => none
  | some s =>
    match s.get? name with
    | some value => some value
    | none =>
      match s.outer with
      | none => none
      | some outer => if outer < scope then h.get? outer name else none
termination_by scope

/-- Binds the name in this very scope. -/
def set (h : Heap α) (scope : ScopeId) (name : String) (value : α) : Heap α :=
  { h with scopes := h.scopes.modify scope (·.set name value) }

/-- The scope's own bindings in order of names. -/
def bindings (h : Heap α) (scope : ScopeId) : List (String × α) :=
  match h.scopes[scope]? with
  | none => []
  | some s => s.bindings

end Heap

end LetFn
