import LetFn.Proofs.Program.Places
import LetFn.Proofs.Token.Tiling

/-! The tokens of a text in two pieces. If what ends the first piece may end in front of the second
one, the first is cut as it would be alone, and the second as if it began there. -/

namespace LetFn

open Text (byteLength)

namespace Munched

variable {kind : Kind} {literal : String} {next next' : Option Char}

theorem mono (m : Munched kind literal next) (fewer : ∀ c ∈ next', c ∈ next) :
    Munched kind literal next' where
  notEnd := m.notEnd
  spelled := m.spelled
  stray := m.stray
  word hk c hc := m.word hk c (fewer c hc)
  number hk c hc := m.number hk c (fewer c hc)
  single hk hc := m.single hk (fewer _ hc)

/-- Nothing can be added to a semicolon. -/
theorem of_semicolon (m : Munched kind literal next) (hk : kind = .semicolon) :
    Munched kind literal next' := by
  subst hk
  exact .of_fixed next' m.spelled (by decide)

end Munched

namespace Tiling

variable {start : Nat} {cs ds : List Char} {ts us : List Token}

theorem append (first : Tiling start cs ts)
    (seam : ∀ t ∈ ts.getLast?, Munched t.kind t.literal none → Munched t.kind t.literal ds.head?)
    (second : Tiling (start + byteLength cs) ds us) : Tiling start (cs ++ ds) (ts ++ us) := by
  induction first with
  | nil => simpa [byteLength] using second
  | space space _ ih =>
    rw [byteLength, ← Nat.add_assoc] at second
    exact .space space (ih seam second)
  | @token start kind text rest ts m tiling ih =>
    rw [Text.byteLength_append, ← Nat.add_assoc] at second
    rw [List.append_assoc]
    cases rest with
    | nil =>
      obtain rfl : ts = [] := List.length_eq_zero_iff.1 (Nat.le_zero.1 tiling.length_le)
      exact .token (seam _ rfl m) (ih (by simp) second)
    | cons c rest =>
      refine .token m (ih ?_ second)
      intro t ht
      apply seam
      cases ts with
      | nil => cases ht
      | cons u ts => rwa [List.getLast?_cons_cons]

theorem move (n : Nat) (tiling : Tiling start cs ts) :
    Tiling (start + n) cs (ts.map (Token.move (· + n))) := by
  induction tiling with
  | nil => exact .nil
  | space space _ ih =>
    rw [Nat.add_right_comm] at ih
    exact .space space ih
  | @token start kind text rest ts m _ ih =>
    rw [Nat.add_right_comm] at ih
    have here := Tiling.token m ih
    rw [← Nat.add_right_comm] at here
    exact here

end Tiling

namespace Token

/-- The second piece is cut as if it began behind the first one. -/
theorem ofText_append_of_seam (s₁ s₂ : String)
    (seam : ∀ t ∈ (ofText s₁).dropLast.getLast?, Munched t.kind t.literal none →
      Munched t.kind t.literal s₂.toList.head?) :
    ofText (s₁ ++ s₂) = (ofText s₁).dropLast ++
      (ofText s₂).map (Token.move (· + byteLength s₁.toList)) := by
  obtain ⟨ts, first, tiling₁⟩ := exists_tiling_ofText s₁
  obtain ⟨us, second, tiling₂⟩ := exists_tiling_ofText s₂
  rw [first, List.dropLast_concat] at seam ⊢
  have tiling := tiling₁.append seam (tiling₂.move (byteLength s₁.toList))
  have both := tiling.startingAt_eq
  rw [← String.toList_append, ← ofChars_eq_startingAt] at both
  have ending : Token.eof (0 + byteLength (s₁ ++ s₂).toList) =
      (Token.eof (byteLength s₂.toList)).move (· + byteLength s₁.toList) := by
    rw [String.toList_append, Text.byteLength_append, Nat.zero_add, Nat.add_comm]
    rfl
  rw [ofText, both, second, List.map_append, List.append_assoc, ending]
  rfl

theorem ofText_append (s₁ s₂ : String)
    (last : ∀ t ∈ (ofText s₁).dropLast.getLast?, t.kind = .semicolon) :
    ofText (s₁ ++ s₂) = (ofText s₁).dropLast ++
      (ofText s₂).map (Token.move (· + byteLength s₁.toList)) :=
  ofText_append_of_seam s₁ s₂ fun t ht m => m.of_semicolon (last t ht)

end Token

end LetFn
