import LetFn.Eval

/-! What evaluation leaves alone. It writes only the scope it runs in, and there only what a `let`
outside of every function literal binds; the body of a function runs in a scope of its own. -/

namespace LetFn

/-! ### Names that a `let` binds -/

mutual

/-- The names of the `let` statements that stand outside of function literals. -/
def Expr.lets : Expr → List String
  | .ident _ | .int _ _ | .bool _ _ | .fn _ _ _ _ => []
  | .unary _ _ operand _ => operand.lets
  | .binary _ left _ right _ => left.lets ++ right.lets
  | .cond _ test consequence alternative _ => test.lets ++ consequence.lets ++ letsElse alternative
  | .call _ callee arguments _ => callee.lets ++ letsArguments arguments

def letsElse : Option Block → List String
  | none => []
  | some alternative => alternative.lets

def letsArguments : List Expr → List String
  | [] => []
  | e :: es => e.lets ++ letsArguments es

def Stmt.lets : Stmt → List String
  | .bind _ name value _ => name.name :: value.lets
  | .ret _ value _ | .expr _ value _ => value.lets

def Block.lets : Block → List String
  | .mk _ statements _ => letsBody statements

def letsBody : List Stmt → List String
  | [] => []
  | s :: ss => s.lets ++ letsBody ss

end

def Program.lets (p : Program) : List String := letsBody p.statements

namespace Heap

variable {α : Type} {h h₁ h₂ : Heap α} {scope : ScopeId} {names : List String}

/-! ### Heaps that agree outside of one scope -/

/-- Every scope of `h` but `scope` is still there and as it was. -/
def SameExcept (scope : ScopeId) (h h' : Heap α) : Prop :=
  ∀ i s, i ≠ scope → h.scopes[i]? = some s → h'.scopes[i]? = some s

/-- Besides, `scope` keeps its place within the others and all it binds, and a binding that changes
is one of `names`. -/
structure Frame (scope : ScopeId) (names : List String) (h h' : Heap α) : Prop where
  others : SameExcept scope h h'
  own : ∀ s, h.scopes[scope]? = some s → ∃ s', h'.scopes[scope]? = some s' ∧
    s'.outer = s.outer ∧ (∀ x, s.get? x ≠ none → s'.get? x ≠ none) ∧
    ∀ x, s'.get? x ≠ s.get? x → x ∈ names

theorem Frame.refl (scope : ScopeId) (names : List String) (h : Heap α) :
    Frame scope names h h where
  others _ _ _ hs := hs
  own s hs := ⟨s, hs, rfl, fun _ hx => hx, fun _ hx => (hx rfl).elim⟩

theorem Frame.trans (left : Frame scope names h h₁) (right : Frame scope names h₁ h₂) :
    Frame scope names h h₂ where
  others i s hi hs := right.others i s hi (left.others i s hi hs)
  own s hs := by
    obtain ⟨s₁, hs₁, outer₁, bound₁, changed₁⟩ := left.own s hs
    obtain ⟨s₂, hs₂, outer₂, bound₂, changed₂⟩ := right.own s₁ hs₁
    refine ⟨s₂, hs₂, outer₂.trans outer₁, fun x hx => bound₂ x (bound₁ x hx), ?_⟩
    intro x hx
    by_cases h₂₁ : s₂.get? x = s₁.get? x
    · exact changed₁ x (h₂₁ ▸ hx)
    · exact changed₂ x h₂₁

theorem Frame.mono {more : List String} (frame : Frame scope names h h₁) (sub : names ⊆ more) :
    Frame scope more h h₁ where
  others := frame.others
  own s hs := by
    obtain ⟨s', hs', outer, bound, changed⟩ := frame.own s hs
    exact ⟨s', hs', outer, bound, fun x hx => sub (changed x hx)⟩

/-- If no scope at all changes, then every scope is framed. -/
theorem Frame.of_same
    (same : ∀ (i : ScopeId) (s : Scope α), h.scopes[i]? = some s → h₁.scopes[i]? = some s) :
    Frame scope names h h₁ where
  others i s _ hs := same i s hs
  own s hs := ⟨s, same scope s hs, rfl, fun _ hx => hx, fun _ hx => (hx rfl).elim⟩

theorem getElem?_set_ne {i : ScopeId} (h : Heap α) (name : String) (value : α) (hi : i ≠ scope) :
    (h.set scope name value).scopes[i]? = h.scopes[i]? := by
  simp [set, Array.getElem?_modify, Ne.symm hi]

theorem getElem?_set_self {s : Scope α} (name : String) (value : α)
    (hs : h.scopes[scope]? = some s) :
    (h.set scope name value).scopes[scope]? = some (s.set name value) := by
  simp [set, Array.getElem?_modify, hs]

theorem frame_set (h : Heap α) (value : α) {name : String} (mem : name ∈ names) :
    Frame scope names h (h.set scope name value) where
  others i s hi hs := (getElem?_set_ne h name value hi).trans hs
  own s hs := by
    refine ⟨_, getElem?_set_self name value hs, rfl, ?_, ?_⟩
    · intro x hx
      rw [Scope.get?_set]
      split
      · simp
      · exact hx
    · intro x hx
      rw [Scope.get?_set] at hx
      split at hx
      · next heq => exact heq ▸ mem
      · exact (hx rfl).elim

theorem getElem?_add {s : Scope α} {i : ScopeId} (outer : Option ScopeId)
    (hs : h.scopes[i]? = some s) : (h.add outer).scopes[i]? = some s := by
  obtain ⟨hi, _⟩ := Array.getElem?_eq_some_iff.1 hs
  rw [add, Array.getElem?_push_lt hi, ← Array.getElem?_eq_getElem hi, hs]

/-- What changes only the scope that was just added changes no earlier one. -/
theorem SameExcept.of_add {outer : Option ScopeId}
    (same : SameExcept h.next (h.add outer) h₁) {i : ScopeId} {s : Scope α}
    (hs : h.scopes[i]? = some s) : h₁.scopes[i]? = some s := by
  obtain ⟨hi, _⟩ := Array.getElem?_eq_some_iff.1 hs
  exact same i s (Nat.ne_of_lt hi) (getElem?_add outer hs)

end Heap

namespace Eval

open Heap

/-! ### Evaluation is framed -/

theorem frame_bindAll (scope : ScopeId) (ps : List Ident) (vs : List Value) (h : Heap) :
    Frame scope (ps.map Ident.name) h (bindAll scope ps vs h) := by
  induction ps generalizing vs h with
  | nil => exact .refl _ _ _
  | cons p ps ih =>
    cases vs with
    | nil => exact .refl _ _ _
    | cons v vs =>
      have first : Frame scope ((p :: ps).map Ident.name) h (h.set scope p.name v) :=
        frame_set h v (List.mem_cons_self ..)
      exact first.trans ((ih vs _).mono (List.subset_cons_self ..))

/-- Two steps that are framed one by one are framed as a sequence. -/
theorem frame_andThen {scope : ScopeId} {names : List String} {h h' : Heap} {v : Value}
    {r : Result} {f : Value → Heap → Result}
    (run : andThen r f = some (v, h'))
    (first : ∀ w h₁, r = some (w, h₁) → Frame scope names h h₁)
    (second : ∀ w h₁, f w h₁ = some (v, h') → Frame scope names h₁ h') :
    Frame scope names h h' := by
  cases r with
  | none => cases run
  | some wh =>
    obtain ⟨w, h₁⟩ := wh
    simp only [andThen] at run
    split at run
    · cases run
      exact first _ _ rfl
    · exact (first w h₁ rfl).trans (second w h₁ run)

mutual

theorem frame_expr (n : Nat) (e : Expr) (scope : ScopeId) (h : Heap) {v : Value} {h' : Heap}
    (run : expr n e scope h = some (v, h')) : Frame scope e.lets h h' := by
  match n, run with
  | 0, run => simp [expr] at run
  | n + 1, run =>
    cases e with
    | int token value | bool token value =>
      simp only [expr] at run
      cases run
      exact .refl _ _ _
    | fn token parameters body span =>
      simp only [expr] at run
      cases run
      exact .of_same fun _ _ hs => hs
    | ident name =>
      simp only [expr] at run
      split at run <;> cases run <;> exact .refl _ _ _
    | unary token operator operand span =>
      simp only [expr] at run
      refine frame_andThen run (fun w h₁ hr => frame_expr n operand scope h hr) ?_
      intro w h₁ hr
      cases hr
      exact .refl _ _ _
    | binary token left operator right span =>
      simp only [expr] at run
      refine frame_andThen run (fun w h₁ hr =>
        (frame_expr n left scope h hr).mono (List.subset_append_left ..)) ?_
      intro a h₁ hr
      refine frame_andThen hr (fun w h₂ hr =>
        (frame_expr n right scope h₁ hr).mono (List.subset_append_right ..)) ?_
      intro b h₂ hr
      cases hr
      exact .refl _ _ _
    | cond token test consequence alternative span =>
      simp only [expr] at run
      refine frame_andThen run (fun w h₁ hr => (frame_expr n test scope h hr).mono ?_) ?_
      · simp [Expr.lets]
      intro w h₁ hr
      split at hr
      · cases consequence with
        | mk token body span =>
          exact (frame_stmts n .null body scope h₁ hr).mono (by simp [Expr.lets, Block.lets])
      · cases alternative with
        | none => cases hr; exact .refl _ _ _
        | some block =>
          cases block with
          | mk token body span =>
            exact (frame_stmts n .null body scope h₁ hr).mono
              (by simp [Expr.lets, letsElse, Block.lets])
    | call token callee arguments span =>
      simp only [expr] at run
      refine frame_andThen run (fun w h₁ hr =>
        (frame_expr n callee scope h hr).mono (List.subset_append_left ..)) ?_
      intro f h₁ hr
      have hargs : ∀ r h₂, args n arguments scope h₁ = some (r, h₂) →
          Frame scope (callee.lets ++ letsArguments arguments) h₁ h₂ := fun r h₂ ha =>
        (frame_args n arguments scope h₁ ha).mono (List.subset_append_right ..)
      split at hr
      · cases hr
      · next ha => cases hr; exact hargs _ _ ha
      · next values h₂ ha =>
        exact (hargs _ _ ha).trans (.of_same fun i s hs => same_apply n f values h₂ hr hs)
termination_by structural n

theorem frame_args (n : Nat) (es : List Expr) (scope : ScopeId) (h : Heap)
    {r : Except Value (List Value)} {h' : Heap} (run : args n es scope h = some (r, h')) :
    Frame scope (letsArguments es) h h' := by
  match n, run with
  | 0, run => simp [args] at run
  | n + 1, run =>
    cases es with
    | nil =>
      simp only [args] at run
      cases run
      exact .refl _ _ _
    | cons e es =>
      simp only [args] at run
      split at run
      · cases run
      next v h₁ he =>
      have first : Frame scope (e.lets ++ letsArguments es) h h₁ :=
        (frame_expr n e scope h he).mono (List.subset_append_left ..)
      split at run
      · cases run; exact first
      have more : ∀ r h₂, args n es scope h₁ = some (r, h₂) →
          Frame scope (e.lets ++ letsArguments es) h₁ h₂ := fun r h₂ ha =>
        (frame_args n es scope h₁ ha).mono (List.subset_append_right ..)
      split at run
      · next ha => cases run; exact first.trans (more _ _ ha)
      · exact first.trans (more _ _ run)
termination_by structural n

/-- A call changes none of the scopes that were there before it. -/
theorem same_apply (n : Nat) (f : Value) (values : List Value) (h : Heap) {v : Value} {h' : Heap}
    (run : apply n f values h = some (v, h')) {i : ScopeId} {s : Scope}
    (hs : h.scopes[i]? = some s) : h'.scopes[i]? = some s := by
  match n, run with
  | 0, run => simp [apply] at run
  | n + 1, run =>
    cases f with
    | fn closure =>
      simp only [apply] at run
      split at run
      · obtain ⟨⟨w, h₁⟩, hb, hw⟩ := Option.map_eq_some_iff.1 run
        cases hw
        have params := frame_bindAll h.next closure.parameters values (h.add closure.scope)
        have body := frame_stmts n .null closure.body.statements h.next _ hb
        have same : SameExcept h.next (h.add closure.scope) h₁ := fun i s hi hs =>
          body.others i s hi (params.others i s hi hs)
        exact same.of_add hs
      · cases run
        exact hs
    | _ =>
      simp only [apply] at run
      cases run
      exact hs
termination_by structural n

theorem frame_stmts (n : Nat) (last : Value) (ss : List Stmt) (scope : ScopeId) (h : Heap)
    {v : Value} {h' : Heap} (run : stmts n last ss scope h = some (v, h')) :
    Frame scope (letsBody ss) h h' := by
  match n, run with
  | 0, run => simp [stmts] at run
  | n + 1, run =>
    cases ss with
    | nil =>
      simp only [stmts] at run
      cases run
      exact .refl _ _ _
    | cons s ss =>
      simp only [stmts] at run
      refine frame_andThen run (fun w h₁ hr =>
        (frame_stmt n s scope h hr).mono (List.subset_append_left ..)) ?_
      intro w h₁ hr
      exact (frame_stmts n w ss scope h₁ hr).mono (List.subset_append_right ..)
termination_by structural n

theorem frame_stmt (n : Nat) (s : Stmt) (scope : ScopeId) (h : Heap) {v : Value} {h' : Heap}
    (run : stmt n s scope h = some (v, h')) : Frame scope s.lets h h' := by
  match n, run with
  | 0, run => simp [stmt] at run
  | n + 1, run =>
    cases s with
    | expr token value span =>
      simp only [stmt] at run
      exact frame_expr n value scope h run
    | ret token value span =>
      simp only [stmt] at run
      refine frame_andThen run (fun w h₁ hr => frame_expr n value scope h hr) ?_
      intro w h₁ hr
      cases hr
      exact .refl _ _ _
    | bind token name value span =>
      simp only [stmt] at run
      refine frame_andThen run (fun w h₁ hr =>
        (frame_expr n value scope h hr).mono (List.subset_cons_self ..)) ?_
      intro w h₁ hr
      cases hr
      exact frame_set h₁ w (List.mem_cons_self ..)
termination_by structural n

end

/-- A program changes no scope but its own, and there only what one of its `let`s outside of
function literals binds; a call changes no scope at all that was there before it, neither the one
its function was made in nor the one it is called from. -/
theorem program_frame :
    (∀ (n : Nat) (p : Program) (scope : ScopeId) (h h' : Heap) (v : Value),
      program n p scope h = some (v, h') → Frame scope p.lets h h') ∧
    (∀ (n : Nat) (f : Value) (values : List Value) (h h' : Heap) (v : Value),
      apply n f values h = some (v, h') →
        ∀ (i : ScopeId) (s : Scope), h.scopes[i]? = some s → h'.scopes[i]? = some s) := by
  constructor
  · intro n p scope h h' v run
    obtain ⟨⟨w, h₁⟩, hw, he⟩ := Option.map_eq_some_iff.1 run
    cases he
    exact frame_stmts n .null p.statements scope h hw
  · intro n f values h h' v run i s hs
    exact same_apply n f values h run hs

/-- `fn(x) { let y = 1; 5; }`, made in the outermost scope. -/
def localLet : Closure :=
  ⟨0, [⟨.eof 0, "x"⟩],
    .mk (.eof 0)
      [.bind (.eof 0) ⟨.eof 0, "y"⟩ (.int (.eof 0) 1) (.point 0),
        .expr (.eof 0) (.int (.eof 0) 5) (.point 0)]
      (.point 0), 0⟩

/-- `let z = fn(x) { let y = 1; 5; }(2);` -/
def boundCall : Program :=
  ⟨[.bind (.eof 0) ⟨.eof 0, "z"⟩
    (.call (.eof 0) (.fn (.eof 0) localLet.parameters localLet.body (.point 0))
      [.int (.eof 0) 2] (.point 0))
    (.point 0)]⟩

/-- Scope 1 binds the result, scope 2 the parameter and what the body binds. -/
def afterBoundCall : Heap :=
  ⟨#[⟨[], none⟩, ⟨[("z", .int 5)], some 0⟩, ⟨[("x", .int 2), ("y", .int 1)], some 1⟩], 1⟩

def afterLocalLet : Heap :=
  ⟨#[⟨[], none⟩, ⟨[("x", .int 2), ("y", .int 1)], some 0⟩], 0⟩

theorem program_frame_boundCall :
    (program 9 boundCall 1 (Heap.root.add (some 0)) = some (.null, afterBoundCall) ∧
      Frame 1 ["z"] (Heap.root.add (some 0)) afterBoundCall) ∧
    apply 9 (.fn localLet) [.int 2] Heap.root = some (.int 5, afterLocalLet) ∧
      afterLocalLet.scopes[0]? = some ⟨[], none⟩ := by
  have run : program 9 boundCall 1 (Heap.root.add (some 0)) = some (.null, afterBoundCall) := by
    cbv
  have call : apply 9 (.fn localLet) [.int 2] Heap.root = some (.int 5, afterLocalLet) := by
    cbv
  exact ⟨⟨run, program_frame.1 9 boundCall 1 _ _ _ run⟩, call,
    program_frame.2 9 (.fn localLet) [.int 2] Heap.root _ _ call 0 _ rfl⟩

end Eval

end LetFn
