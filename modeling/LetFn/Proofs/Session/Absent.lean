import LetFn.Proofs.Eval.Fuel
import LetFn.Proofs.Heap.Image
import LetFn.Proofs.Session.Repeat

/-! Names that do not occur. If neither a program nor any function it can get hold of mentions a
name, it does not matter what the name is bound to, in whatever scopes. -/

namespace LetFn

/-! ### Heaps that differ in one name -/

/-- No function mentions `x`, neither the value itself nor what is being returned. -/
def Value.Avoids (x : String) : Value → Prop
  | fn f => x ∉ f.names
  | returned v => v.Avoids x
  | int _ | bool _ | error _ | null => True

namespace Heap

variable {x : String} {h k : Heap}

/-- Functions mention `x` only if they are bound to `x`. -/
def Avoids (x : String) (h : Heap) : Prop :=
  ∀ i y v, y ≠ x → h.own? i y = some v → v.Avoids x

/-- The same scopes with the same links, which may differ in whether and how they bind `x`. -/
structure SameBut (x : String) (h k : Heap) : Prop where
  links : k.scopes.map Scope.outer = h.scopes.map Scope.outer
  own : ∀ i y, y ≠ x → k.own? i y = h.own? i y

theorem SameBut.avoids (same : h.SameBut x k) (avoids : h.Avoids x) : k.Avoids x :=
  fun i y v other bound => avoids i y v other (same.own i y other ▸ bound)

theorem sameBut_set (h : Heap) (scope : ScopeId) (x : String) (v : Value) :
    h.SameBut x (h.set scope x v) where
  links := by
    refine Array.ext_getElem? fun i => ?_
    simp only [set, Array.getElem?_map, Array.getElem?_modify]
    split
    · cases h.scopes[i]? <;> rfl
    · rfl
  own i y other := by
    rw [own?, own?, set, Array.getElem?_modify]
    split
    · cases h.scopes[i]? with
      | none => rfl
      | some s => exact (Scope.get?_set s x y v).trans (if_neg other)
    · rfl

end Heap

/-- Without `x` in it, a value is what it is whatever `x` is bound to. -/
theorem Value.Avoids.alike {x : String} {v : Value} (avoids : v.Avoids x) :
    Value.Alike (· ≠ x) id v v := by
  induction v with
  | fn f => exact .fn (.intro f.id fun y hy => ne_of_mem_of_not_mem hy avoids)
  | returned v ih => exact .returned (ih avoids)
  | int | bool | error | null => constructor

namespace Heap

variable {x : String} {h k : Heap}

theorem SameBut.image (same : h.SameBut x k) (avoids : h.Avoids x) : Image (· ≠ x) id h k where
  next n := by
    have sizes := congrArg Array.size same.links
    rw [Array.size_map, Array.size_map] at sizes
    rw [id, next, next, sizes]
  scope i := by
    have links := congrArg (·[i]?) same.links
    have own := same.own i
    have avoids := avoids i
    simp only [Array.getElem?_map, own?] at links own avoids
    rw [id]
    generalize h.scopes[i]? = s, k.scopes[i]? = s' at links own avoids ⊢
    cases s with
    | none =>
      obtain rfl := Option.map_eq_none_iff.1 links
      exact .none
    | some s =>
      obtain ⟨s', rfl, outer⟩ := Option.map_eq_some_iff.1 links
      refine .some ⟨outer.trans (Option.map_id_apply).symm, fun y matters => ?_⟩
      have bound : s'.get? y = s.get? y := own y matters
      rw [bound]
      cases hv : s.get? y with
      | none => exact .none
      | some v => exact .some (avoids y v matters hv).alike

theorem Image.own? {P : String → Prop} {ρ : ScopeId → ScopeId} (image : Image P ρ h k)
    (i : ScopeId) {y : String} (matters : P y) :
    Option.Rel (Value.Alike P ρ) (h.own? i y) (k.own? (ρ i) y) := by
  have scopes := image.scope i
  rw [Heap.own?, Heap.own?]
  generalize h.scopes[i]? = s, k.scopes[ρ i]? = s' at scopes ⊢
  obtain scopes | _ := scopes
  · exact scopes.get? y matters
  · exact .none

end Heap

namespace Eval

/-- What is seen of two endings when nobody asks for `x`. -/
structure LookAlikeBut (x : String) (a b : Value × Heap) : Prop where
  value : a.1.LooksLike b.1
  own : ∀ i y, y ≠ x → Option.Rel Value.LooksLike (a.2.own? i y) (b.2.own? i y)

/-- A program that does not mention `x`, on a heap where no function does except what `x` itself is
bound to, cannot tell how `x` is bound: with other bindings of it, or none, it comes to an end or
not all the same, and everything but them looks the same then. -/
theorem program_of_absent {x : String} {p : Program} (absent : x ∉ p.names) {h k : Heap}
    (avoids : h.Avoids x) (same : h.SameBut x k) (scope : ScopeId) :
    ((∃ n, (program n p scope h).isSome) ↔ ∃ n, (program n p scope k).isSome) ∧
      ∀ n m a b, program n p scope h = some a → program m p scope k = some b →
        LookAlikeBut x a b := by
  have related n : Related (Value.Alike (· ≠ x) id) (Heap.Image (· ≠ x) id)
      (program n p scope h) (program n p scope k) :=
    related_program (Heap.simulation_image Iff.rfl) n p
      (fun y hy => ne_of_mem_of_not_mem hy absent) scope (same.image avoids)
  refine ⟨exists_congr fun n => ?_, fun n m a b ha hb => ?_⟩
  · rw [(related n).isSome_eq]
  · -- with the larger fuel both come to the same ends as before
    have ha := (program_below (Nat.le_max_left n m) p scope h).eq_some ha
    have hb := (program_below (Nat.le_max_right n m) p scope k).eq_some hb
    have ends := related (max n m)
    rw [ha, hb] at ends
    obtain ⟨alike, image⟩ := ends
    exact ⟨alike.looksLike, fun i y matters =>
      optionRel_mono (image.own? i matters) fun _ _ alike => alike.looksLike⟩

/-- `f(5)()` -/
def delayedCall : Program :=
  ⟨[.expr (.eof 0)
    (.call (.eof 0) (.call (.eof 0) (.ident ⟨.eof 0, "f"⟩) [.int (.eof 0) 5] (.point 0)) []
      (.point 0))
    (.point 0)]⟩

/-- `fn() { y }`, made in the outermost scope. -/
def yielding : Closure :=
  ⟨0, [], .mk (.eof 0) [.expr (.eof 0) (.ident ⟨.eof 0, "y"⟩) (.point 0)] (.point 0), 0⟩

/-- It does not matter that `f` is called where `y` is itself, nor that it no longer is. -/
theorem program_of_absent_delayedCall :
    ∃ n b, program n delayedCall 0 ((Session.withDelaying.set 0 "y" (.fn yielding)).set 0 "y" .null)
      = some b ∧ (Value.int 5).LooksLike b.1 := by
  have absent : "y" ∉ delayedCall.names := by decide
  have avoids : Session.withDelaying.Avoids "y" := by
    intro i y v _ bound
    match i with
    | 0 =>
      rw [Heap.own?, Session.withDelaying] at bound
      obtain ⟨-, rfl⟩ : y = "f" ∧ .fn Session.delaying = v := by
        simpa [Scope.get?, Scope.lookup_cons] using bound
      exact (by decide : "y" ∉ Session.delaying.names)
    | i + 1 => simp [Heap.own?, Session.withDelaying] at bound
  have run : (program 9 delayedCall 0 (Session.withDelaying.set 0 "y" (.fn yielding))).map Prod.fst
      = some (.int 5) := by
    with_unfolding_all rfl
  obtain ⟨a, ha, value⟩ := Option.map_eq_some_iff.1 run
  obtain ⟨ends, look⟩ := program_of_absent absent
    ((Heap.sameBut_set _ 0 "y" _).avoids avoids) (Heap.sameBut_set _ 0 "y" .null) 0
  obtain ⟨n, hn⟩ := ends.1 ⟨9, Option.isSome_of_eq_some ha⟩
  obtain ⟨b, hb⟩ := Option.isSome_iff_exists.1 hn
  exact ⟨n, b, hb, value ▸ (look 9 n a b ha hb).value⟩

end Eval

end LetFn
