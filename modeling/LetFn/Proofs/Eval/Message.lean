import LetFn.Eval
import LetFn.Proofs.Decimal
import LetFn.Proofs.Token.Words

/-! The message of a runtime error tells which error it is, and all that is known about it. -/

namespace LetFn

/-- What is in front of the first `d` of a text, and what is behind it. -/
theorem split_at_first {d : Char} {cs cs' ds ds' : List Char}
    (h : cs ++ d :: ds = cs' ++ d :: ds') (hcs : d ∉ cs) (hcs' : d ∉ cs') :
    cs = cs' ∧ ds = ds' := by
  have other : ∀ es : List Char, d ∉ es → ∀ c ∈ es, (c != d) = true := by
    rintro es hes c hc
    exact bne_iff_ne.2 fun same => hes (same ▸ hc)
  have front := congrArg (List.takeWhile (· != d)) h
  rw [takeWhile_append (other cs hcs) (by simp), takeWhile_append (other cs' hcs') (by simp)]
    at front
  subst front
  exact ⟨rfl, (List.cons.inj (List.append_cancel_left h)).2⟩

/-- What is in front of the last `d`, and what is behind it. -/
theorem split_at_last {d : Char} {cs cs' ds ds' : List Char}
    (h : cs ++ d :: ds = cs' ++ d :: ds') (hds : d ∉ ds) (hds' : d ∉ ds') :
    cs = cs' ∧ ds = ds' := by
  have back := congrArg List.reverse h
  simp only [List.reverse_append, List.reverse_cons, List.append_assoc, List.singleton_append]
    at back
  obtain ⟨behind, front⟩ := split_at_first back (by simpa using hds) (by simpa using hds')
  exact ⟨List.reverse_inj.1 front, List.reverse_inj.1 behind⟩

/-! ### Names of types -/

namespace ValueType

theorem blank_not_mem_name (t : ValueType) : ' ' ∉ t.name.toList := by
  cases t <;> decide

theorem name_injective {t t' : ValueType} (h : t.name = t'.name) : t = t' := by
  cases t <;> cases t' <;> first | rfl | exact absurd h (by decide)

/-- The last two letters tell the names apart, whatever stands in front. -/
theorem append_name_inj {cs cs' : List Char} {t t' : ValueType}
    (h : cs ++ t.name.toList = cs' ++ t'.name.toList) : cs = cs' ∧ t = t' := by
  have ends (cs : List Char) (t : ValueType) :
      (cs ++ t.name.toList).reverse.take 2 = t.name.toList.reverse.take 2 := by
    cases t <;> simp [name]
  have last := congrArg (fun cs => cs.reverse.take 2) h
  simp only [ends] at last
  obtain rfl : t = t' := by
    cases t <;> cases t' <;> first | rfl | exact absurd last (by decide)
  exact ⟨List.append_cancel_right h, rfl⟩

end ValueType

/-! ### Messages -/

namespace RuntimeError

/-- A prefix operator is a token, and no token has a blank in it. -/
def Spelled : RuntimeError → Prop
  | unknownUnary operator _ => ' ' ∉ operator.toList
  | _ => True

/-- What the message begins with. -/
def opening : RuntimeError → String
  | notFound _ => "identifier not found: "
  | divisionByZero _ _ => "division by zero: "
  | unknownUnary _ _ | unknownBinary _ _ _ => "unknown operator: "
  | typeMismatch _ _ _ => "type mismatch: "
  | notAFunction _ => "not a function: "
  | argumentCount _ _ => "wrong number of arguments: want="

/-- How the message goes on. -/
def details : RuntimeError → List Char
  | notFound name => name.toList
  | divisionByZero left right =>
    (Decimal.ofInt left.toInt).toList ++ ' ' :: '/' :: ' ' :: (Decimal.ofInt right.toInt).toList
  | unknownUnary operator operand => operator.toList ++ operand.name.toList
  | unknownBinary left operator right | typeMismatch left operator right =>
    left.name.toList ++ ' ' :: (operator.toList ++ ' ' :: right.name.toList)
  | notAFunction callee => callee.name.toList
  | argumentCount want got =>
    (Nat.repr want).toList ++ ',' :: (" got=".toList ++ (Nat.repr got).toList)

theorem toList_message (e : RuntimeError) :
    e.message.toList = e.opening.toList ++ e.details := by
  cases e with
  | notFound name => exact String.toList_append
  | divisionByZero left right =>
    change ("division by zero: " ++ Decimal.ofInt left.toInt ++ " / " ++
      Decimal.ofInt right.toInt).toList = _
    simp [opening, details]
  | unknownUnary operator operand =>
    change ("unknown operator: " ++ operator ++ operand.name).toList = _
    simp [opening, details]
  | unknownBinary left operator right =>
    change ("unknown operator: " ++ left.name ++ " " ++ operator ++ " " ++ right.name).toList = _
    simp [opening, details]
  | typeMismatch left operator right =>
    change ("type mismatch: " ++ left.name ++ " " ++ operator ++ " " ++ right.name).toList = _
    simp [opening, details]
  | notAFunction callee => exact String.toList_append
  | argumentCount want got =>
    change ("wrong number of arguments: want=" ++ Nat.repr want ++ ", got=" ++
      Nat.repr got).toList = _
    simp [opening, details]

/-- Openings that differ do so in their first letters. -/
theorem opening_eq {e e' : RuntimeError} (h : e.message = e'.message) :
    e.opening = e'.opening := by
  have first (e : RuntimeError) : e.message.toList.head? = e.opening.toList.head? := by
    rw [toList_message]
    cases e <;> simp [opening]
  have letters := (first e).symm.trans ((congrArg (·.toList.head?) h).trans (first e'))
  cases e <;> cases e' <;> first | rfl | exact absurd letters (by simp [opening])

/-- Operands are words, and so are what stands in front of the first blank and what stands behind
the last. -/
theorem operands_inj {left left' right right' : ValueType} {operator operator' : String}
    (h : left.name.toList ++ ' ' :: (operator.toList ++ ' ' :: right.name.toList) =
      left'.name.toList ++ ' ' :: (operator'.toList ++ ' ' :: right'.name.toList)) :
    left = left' ∧ operator = operator' ∧ right = right' := by
  obtain ⟨first, rest⟩ := split_at_first h left.blank_not_mem_name left'.blank_not_mem_name
  obtain ⟨between, last⟩ := split_at_last rest right.blank_not_mem_name right'.blank_not_mem_name
  exact ⟨ValueType.name_injective (String.toList_inj.1 first), String.toList_inj.1 between,
    ValueType.name_injective (String.toList_inj.1 last)⟩

/-- A prefix operator and the type behind it have no blank in them, other operands have. -/
theorem unary_ne_binary {operator operator' : String} {operand left right : ValueType}
    (spelled : ' ' ∉ operator.toList) :
    operator.toList ++ operand.name.toList ≠
      left.name.toList ++ ' ' :: (operator'.toList ++ ' ' :: right.name.toList) := by
  intro h
  have blank : ' ' ∈ operator.toList ++ operand.name.toList := by simp [h]
  rcases List.mem_append.1 blank with within | within
  · exact spelled within
  · exact operand.blank_not_mem_name within

theorem eq_of_details {e e' : RuntimeError} (he : e.Spelled) (he' : e'.Spelled)
    (begins : e.opening = e'.opening) (h : e.details = e'.details) : e = e' := by
  cases e with
  | notFound name =>
    cases e' with
    | notFound name' => rw [String.toList_inj.1 h]
    | _ => simp [opening] at begins
  | divisionByZero left right =>
    cases e' with
    | divisionByZero left' right' =>
      obtain ⟨first, rest⟩ := split_at_first h (Decimal.blank_not_mem_ofInt _)
        (Decimal.blank_not_mem_ofInt _)
      have last := (List.cons.inj (List.cons.inj rest).2).2
      rw [Int64.toInt_inj.1 (Decimal.ofInt_injective (String.toList_inj.1 first)),
        Int64.toInt_inj.1 (Decimal.ofInt_injective (String.toList_inj.1 last))]
    | _ => simp [opening] at begins
  | unknownUnary operator operand =>
    cases e' with
    | unknownUnary operator' operand' =>
      obtain ⟨first, rfl⟩ := ValueType.append_name_inj h
      rw [String.toList_inj.1 first]
    | unknownBinary => exact (unary_ne_binary he h).elim
    | _ => simp [opening] at begins
  | unknownBinary left operator right =>
    cases e' with
    | unknownUnary => exact (unary_ne_binary he' h.symm).elim
    | unknownBinary left' operator' right' =>
      obtain ⟨rfl, rfl, rfl⟩ := operands_inj h
      rfl
    | _ => simp [opening] at begins
  | typeMismatch left operator right =>
    cases e' with
    | typeMismatch left' operator' right' =>
      obtain ⟨rfl, rfl, rfl⟩ := operands_inj h
      rfl
    | _ => simp [opening] at begins
  | notAFunction callee =>
    cases e' with
    | notAFunction callee' => rw [ValueType.name_injective (String.toList_inj.1 h)]
    | _ => simp [opening] at begins
  | argumentCount want got =>
    cases e' with
    | argumentCount want' got' =>
      obtain ⟨first, rest⟩ := split_at_first h (Decimal.not_mem_repr (by decide))
        (Decimal.not_mem_repr (by decide))
      have last := List.append_cancel_left rest
      rw [Decimal.repr_injective (String.toList_inj.1 first),
        Decimal.repr_injective (String.toList_inj.1 last)]
    | _ => simp [opening] at begins

/-- Errors with the same message are the same. -/
theorem eq_of_message {e e' : RuntimeError} (he : e.Spelled) (he' : e'.Spelled)
    (h : e.message = e'.message) : e = e' := by
  have texts := congrArg String.toList h
  rw [toList_message, toList_message, opening_eq h] at texts
  exact eq_of_details he he' (opening_eq h) (List.append_cancel_left texts)

end RuntimeError

end LetFn
