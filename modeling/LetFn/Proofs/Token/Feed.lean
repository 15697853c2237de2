import LetFn.Proofs.Text.Utf8
import LetFn.Proofs.Token.Scanner
import LetFn.Token.Feed

/-! What a feed hands out: the characters of the text that its bytes begin with, at their offsets.
Behind them it is asked once more, and that can meet a second fault. -/

namespace LetFn

open CharSource (Holds)

/-- The fault that stays when decoding has met `fault` in front of `rest`: what is read next is read
all the same, and can be at fault, too. -/
def Text.Utf8.Fault.before (fault : Fault) (rest : List UInt8) : Fault :=
  match rest with
  | [] => fault
  | b :: bytes =>
    match (next b bytes).1 with
    | .ok _ => fault
    | .error later => later

namespace Feed

open Text.Utf8

/-- A text in front is handed out character by character. -/
theorem holds_encode_append {last : Feed} (cs : List Char) (bytes : List UInt8) (offset : Nat)
    (text : List Char) (fault : Option Fault)
    (h : Holds (⟨bytes, offset + Text.byteLength cs, cs.reverse ++ text, fault⟩ : Feed) [] last) :
    Holds (⟨encode cs ++ bytes, offset, text, fault⟩ : Feed)
      ((Token.offsets offset cs).zip cs) last := by
  induction cs generalizing offset text with
  | nil => exact h
  | cons c cs ih =>
    obtain ⟨b, tail, hb, hn⟩ := exists_next c (encode cs ++ bytes)
    have pulled : pull ⟨encode (c :: cs) ++ bytes, offset, text, fault⟩ =
        (some (offset, c), ⟨encode cs ++ bytes, offset + c.utf8Size, c :: text, fault⟩) := by
      rw [encode_cons, List.append_assoc, hb]
      simp [pull, hn]
    rw [Token.offsets, List.zip_cons_cons]
    refine .cons pulled (ih _ _ ?_)
    simpa [Text.byteLength, Nat.add_assoc] using h

theorem fault_pull (bytes : List UInt8) (offset : Nat) (text : List Char) (fault : Fault) :
    (pull ⟨bytes, offset, text, some fault⟩).2.fault = some (fault.before bytes) := by
  cases bytes with
  | nil => rfl
  | cons b bytes =>
    simp only [pull, Fault.before]
    rcases next b bytes with ⟨later | c, rest⟩ <;> rfl

theorem holds_encode (cs : List Char) :
    ∃ last, Holds (ofBytes (encode cs)) ((Token.offsets 0 cs).zip cs) last ∧
      last.text = cs.reverse ∧ last.fault = none := by
  have holds := holds_encode_append cs [] 0 [] none (.nil rfl rfl)
  rw [List.append_nil] at holds
  exact ⟨_, holds, by simp [CharSource.pull, pull], rfl⟩

theorem holds_of_fault {b : UInt8} {bytes rest : List UInt8} {fault : Fault} (cs : List Char)
    (hn : next b bytes = (.error fault, rest)) :
    ∃ last, Holds (ofBytes (encode cs ++ b :: bytes)) ((Token.offsets 0 cs).zip cs) last ∧
      last.fault = some (fault.before rest) := by
  have stops : pull ⟨b :: bytes, 0 + Text.byteLength cs, cs.reverse ++ [], none⟩ =
      (none, ⟨rest, 0 + Text.byteLength cs, cs.reverse ++ [], some fault⟩) := by
    simp only [pull, hn]
  exact ⟨_, holds_encode_append cs (b :: bytes) 0 [] none (.nil stops rfl), fault_pull _ _ _ _⟩

end Feed

end LetFn
