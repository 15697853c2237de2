import LetFn.Command
import LetFn.Proofs.Eval.Fuel
import LetFn.Proofs.Shell.Lines

/-! Whole conversations. What is heard depends on the lines alone. A shell that evaluates nothing
answers to each text by itself, and one that evaluates hands on what the accepted texts bind, so a
line that is refused might as well be missing. -/

namespace LetFn.Shell

open Command (perform Report)

/-! ### What is heard -/

/-- How a conversation ends: with a line that asks to leave, with one that is no text, or because
no line is left. -/
inductive Ending where
  | asked | broken | exhausted
  deriving DecidableEq, Repr

/-- The texts of the lines up to the one that ends the conversation. -/
inductive Heard : List (List UInt8) → List String → Ending → Prop where
  | exhausted : Heard [] [] .exhausted
  | asked {line : List UInt8} {rest : List (List UInt8)} : Reads line ".exit" →
      Heard (line :: rest) [] .asked
  | broken {line : List UInt8} {rest : List (List UInt8)} : Broken line →
      Heard (line :: rest) [] .broken
  | text {line : List UInt8} {text : String} {rest : List (List UInt8)} {texts : List String}
      {ending : Ending} : Reads line text → text ≠ ".exit" → Heard rest texts ending →
      Heard (line :: rest) (text :: texts) ending

theorem exists_heard (ls : List (List UInt8)) : ∃ texts ending, Heard ls texts ending := by
  induction ls with
  | nil => exact ⟨_, _, .exhausted⟩
  | cons line rest ih =>
    obtain ⟨texts, ending, heard⟩ := ih
    obtain ⟨text, reads⟩ | broken := reads_or_broken line
    · by_cases exit : text = ".exit"
      · exact ⟨_, _, .asked (exit ▸ reads)⟩
      · exact ⟨_, _, .text reads exit heard⟩
    · exact ⟨_, _, .broken broken⟩

/-- A line that does not end the conversation is heard between the others. -/
theorem heard_append_cons_iff {ls rest : List (List UInt8)} {line : List UInt8} {text : String}
    {texts : List String} {ending : Ending} (hls : ∀ l ∈ ls, ¬Ends l) (reads : Reads line text)
    (ne : text ≠ ".exit") :
    Heard (ls ++ line :: rest) texts ending ↔
      ∃ before after, before.length = ls.length ∧ texts = before ++ text :: after ∧
        Heard (ls ++ rest) (before ++ after) ending := by
  induction ls generalizing texts with
  | nil =>
    constructor
    · intro heard
      cases heard with
      | asked exit => exact (reads.not_ends ne (.inl exit)).elim
      | broken broken => exact (reads.not_ends ne (.inr broken)).elim
      | @text _ text' _ after _ reads' _ heard =>
        exact ⟨[], after, rfl, by rw [reads.unique reads', List.nil_append], heard⟩
    · rintro ⟨before, after, len, rfl, heard⟩
      obtain rfl := List.eq_nil_of_length_eq_zero len
      exact .text reads ne heard
  | cons l ls ih =>
    rw [List.forall_mem_cons] at hls
    obtain ⟨hl, hls⟩ := hls
    constructor
    · intro heard
      cases heard with
      | asked exit => exact (hl (.inl exit)).elim
      | broken broken => exact (hl (.inr broken)).elim
      | @text _ first _ _ _ reads' ne' heard =>
        obtain ⟨before, after, len, rfl, others⟩ := (ih hls).1 heard
        exact ⟨first :: before, after, congrArg Nat.succ len, rfl, .text reads' ne' others⟩
    · rintro ⟨before, after, len, rfl, heard⟩
      cases before with
      | nil => cases len
      | cons first before =>
        cases heard with
        | text reads' ne' heard =>
          exact .text reads' ne' ((ih hls).2 ⟨before, after, Nat.succ.inj len, rfl, heard⟩)

/-! ### What is answered -/

/-- The tokens of a text, each on a line of its own. -/
def tokensShown (text : String) : String :=
  if text = "" then "" else String.join ((Token.ofText text).map fun t => t.dump.inline ++ "\n")

/-- The program of a text, or what is wrong with it. -/
def programShown (text : String) : String :=
  if text = "" then ""
  else if (parse text).errors = [] then (parse text).program.render ++ "\n"
  else complaint (parse text).errors

/-- What is answered to a text that leaves everything as it is. -/
def idleReply (text : String) : String :=
  if text = "" then "" else complaint (parse text).errors

/-- The text is empty or no program. -/
def Idle (text : String) : Prop := text = "" ∨ (parse text).errors ≠ []

/-- The answer to a text and the heap behind it, where values are shown. -/
inductive Replies : Heap → String → String → Heap → Prop where
  | idle {h : Heap} {text : String} : Idle text → Replies h text (idleReply text) h
  | value {n : Nat} {h h' : Heap} {text : String} {v : Value} : text ≠ "" →
      (parse text).errors = [] → Eval.program n (parse text).program 0 h = some (v, h') →
      Replies h text (v.inspect ++ "\n") h'

/-- The answers to texts one after the other, each in what the texts before it have bound, and the
heap behind the last one. -/
inductive Answers : Heap → List String → List String → Heap → Prop where
  | nil {h : Heap} : Answers h [] [] h
  | cons {h h₁ h₂ : Heap} {text reply : String} {texts replies : List String} :
      Replies h text reply h₁ → Answers h₁ texts replies h₂ →
      Answers h (text :: texts) (reply :: replies) h₂

theorem Answers.length_eq {h h' : Heap} {texts replies : List String}
    (answers : Answers h texts replies h') : replies.length = texts.length := by
  induction answers with
  | nil => rfl
  | cons _ _ ih => exact congrArg Nat.succ ih

theorem replies_iff_of_idle {h h' : Heap} {text reply : String} (idle : Idle text) :
    Replies h text reply h' ↔ reply = idleReply text ∧ h' = h := by
  constructor
  · intro replies
    cases replies with
    | idle => exact ⟨rfl, rfl⟩
    | value ne accepted => exact (idle.elim ne (· accepted)).elim
  · rintro ⟨rfl, rfl⟩
    exact .idle idle

/-- Without a text that leaves everything as it is, the other ones are answered in the same way. -/
theorem answers_append_cons_iff {h h' : Heap} {before after : List String} {text : String}
    {replies : List String} (idle : Idle text) :
    Answers h (before ++ text :: after) replies h' ↔
      ∃ front back, front.length = before.length ∧ replies = front ++ idleReply text :: back ∧
        Answers h (before ++ after) (front ++ back) h' := by
  induction before generalizing h replies with
  | nil =>
    constructor
    · intro answers
      cases answers with
      | cons reply answers =>
        obtain ⟨rfl, rfl⟩ := (replies_iff_of_idle idle).1 reply
        exact ⟨[], _, rfl, rfl, answers⟩
    · rintro ⟨front, back, len, rfl, answers⟩
      obtain rfl := List.eq_nil_of_length_eq_zero len
      exact .cons (.idle idle) answers
  | cons first before ih =>
    constructor
    · intro answers
      cases answers with
      | cons reply answers =>
        obtain ⟨front, back, len, rfl, others⟩ := ih.1 answers
        exact ⟨_ :: front, back, congrArg Nat.succ len, rfl, .cons reply others⟩
    · rintro ⟨front, back, len, rfl, answers⟩
      cases front with
      | nil => cases len
      | cons s front =>
        cases answers with
        | cons reply answers =>
          exact .cons reply (ih.2 ⟨front, back, Nat.succ.inj len, rfl, answers⟩)

/-- The answers to lines, starting with nothing bound, where values are shown. -/
def Held (ls : List (List UInt8)) (replies : List String) (ending : Ending) : Prop :=
  ∃ texts h, Heard ls texts ending ∧ Answers .root texts replies h

theorem held_append_cons_iff {ls rest : List (List UInt8)} {line : List UInt8} {text : String}
    {replies : List String} {ending : Ending} (hls : ∀ l ∈ ls, ¬Ends l) (reads : Reads line text)
    (ne : text ≠ ".exit") (idle : Idle text) :
    Held (ls ++ line :: rest) replies ending ↔
      ∃ front back, front.length = ls.length ∧ replies = front ++ idleReply text :: back ∧
        Held (ls ++ rest) (front ++ back) ending := by
  constructor
  · rintro ⟨texts, h, heard, answers⟩
    obtain ⟨before, after, len, rfl, others⟩ := (heard_append_cons_iff hls reads ne).1 heard
    obtain ⟨front, back, len', rfl, replied⟩ := (answers_append_cons_iff idle).1 answers
    exact ⟨front, back, len'.trans len, rfl, _, h, others, replied⟩
  · rintro ⟨front, back, len, rfl, texts, h, heard, answers⟩
    -- the texts in front of the line are as many as the answers there
    have lens : (texts.take ls.length).length = ls.length := by
      have total := answers.length_eq
      rw [List.length_append] at total
      exact List.length_take_of_le (by omega)
    rw [← List.take_append_drop ls.length texts] at heard answers
    exact ⟨_, h, (heard_append_cons_iff hls reads ne).2 ⟨_, _, lens, rfl, heard⟩,
      (answers_append_cons_iff idle).2 ⟨front, back, len.trans lens.symm, rfl, answers⟩⟩

/-! ### What is printed -/

/-- A prompt in front of every answer, and one that is not answered. -/
def printed (replies : List String) : String := String.join (replies.map (prompt ++ ·)) ++ prompt

theorem after_printed (reply : String) (replies : List String) (failure : Option Failure) :
    Transcript.after (prompt ++ reply) ⟨printed replies, failure⟩ =
      ⟨printed (reply :: replies), failure⟩ := by
  simp [Transcript.after, printed, String.append_assoc]

/-- Only a line that is no text is a failure. -/
def Ending.failure : Ending → Option Failure
  | .asked | .exhausted => none
  | .broken => some (.io .invalidData)

section

variable {n : Nat} {mode : Mode} {h h' : Heap} {line : List UInt8} {ls rest : List (List UInt8)}
  {text s : String} {texts replies : List String} {ending : Ending}

/-- An empty text is not answered, whatever is shown of others. -/
theorem turn_of_reads (reads : Reads line text) (ne : text ≠ ".exit") :
    turn n mode h line =
      if text = "" then some (.goOn "" h)
      else (answer n mode h text.toList).map fun (s, h) => .goOn s h := by
  rw [turn, request_of_reads reads, if_neg ne]
  by_cases empty : text = ""
  · rw [if_pos empty, if_pos empty]
  · rw [if_neg empty, if_neg empty]

theorem converse_cons_of_goOn {failure : Option Failure}
    (first : turn n mode h line = some (.goOn s h'))
    (more : converse n mode h' rest = some ⟨printed replies, failure⟩) :
    converse n mode h (line :: rest) = some ⟨printed (s :: replies), failure⟩ := by
  simp only [converse, first, more, Option.map_some, after_printed]

theorem converse_of_heard_nil (heard : Heard ls [] ending) :
    converse n mode h ls = some ⟨printed [], ending.failure⟩ := by
  cases heard with
  | exhausted => rfl
  | asked exit =>
    rw [converse, turn, request_of_reads exit]
    rfl
  | broken broken =>
    rw [converse, turn, request_of_broken broken]
    rfl

/-- Lines behind one that ends the conversation are not heard. -/
theorem converse_append_of_ends (ends : ∃ l ∈ ls, Ends l) (rest : List (List UInt8)) :
    converse n mode h (ls ++ rest) = converse n mode h ls := by
  induction ls generalizing h with
  | nil => simp at ends
  | cons l ls ih =>
    rw [List.cons_append]
    by_cases first : Ends l
    · obtain exit | broken := first
      · rw [converse_of_heard_nil (.asked exit), converse_of_heard_nil (.asked exit)]
      · rw [converse_of_heard_nil (.broken broken), converse_of_heard_nil (.broken broken)]
    · obtain ⟨l', hl', ends⟩ := ends
      obtain rfl | behind := List.mem_cons.1 hl'
      · exact (first ends).elim
      · simp only [converse, ih ⟨l', behind, ends⟩]

/-! ### Shells that evaluate nothing -/

theorem turn_tokens (reads : Reads line text) (ne : text ≠ ".exit") :
    turn n .tokens h line = some (.goOn (tokensShown text) h) := by
  rw [turn_of_reads reads ne, tokensShown]
  split <;> rfl

theorem turn_programs (reads : Reads line text) (ne : text ≠ ".exit") :
    turn n .programs h line = some (.goOn (programShown text) h) := by
  rw [turn_of_reads reads ne, programShown, answer, ← parse]
  split
  · rfl
  · split <;> rfl

theorem converse_of_shown {shown : String → String}
    (shows : ∀ line text, Reads line text → text ≠ ".exit" →
      turn n mode h line = some (.goOn (shown text) h))
    (heard : Heard ls texts ending) :
    converse n mode h ls = some ⟨printed (texts.map shown), ending.failure⟩ := by
  induction texts generalizing ls with
  | nil => exact converse_of_heard_nil heard
  | cons text texts ih =>
    cases heard with
    | text reads ne heard => exact converse_cons_of_goOn (shows _ _ reads ne) (ih heard)

/-! ### The shell that shows values -/

theorem turn_of_idle (reads : Reads line text) (ne : text ≠ ".exit") (idle : Idle text) :
    turn n .values h line = some (.goOn (idleReply text) h) := by
  rw [turn_of_reads reads ne, idleReply, answer, ← parse]
  split
  · rfl
  · next nonempty => rw [if_neg (idle.resolve_left nonempty), Option.map_some]

theorem turn_of_accepted (reads : Reads line text) (nonempty : text ≠ "")
    (accepted : (parse text).errors = []) :
    turn n .values h line =
      (Eval.program n (parse text).program 0 h).map fun (v, h) => .goOn (v.inspect ++ "\n") h := by
  have ne : text ≠ ".exit" := by
    rintro rfl
    exact absurd accepted (by decide +kernel)
  rw [turn_of_reads reads ne, if_neg nonempty, answer, ← parse, if_pos accepted]
  cases Eval.program n (parse text).program 0 h <;> rfl

/-- Whatever is heard is answered, unless its evaluation does not end. -/
theorem exists_replies_of_turn {t : Turn} (reads : Reads line text) (ne : text ≠ ".exit")
    (first : turn n .values h line = some t) : ∃ s h', t = .goOn s h' ∧ Replies h text s h' := by
  by_cases idle : Idle text
  · rw [turn_of_idle reads ne idle] at first
    cases first
    exact ⟨_, h, rfl, .idle idle⟩
  · obtain ⟨nonempty, accepted⟩ := not_or.1 idle
    rw [not_not] at accepted
    rw [turn_of_accepted reads nonempty accepted] at first
    obtain ⟨⟨v, h'⟩, run, rfl⟩ := Option.map_eq_some_iff.1 first
    exact ⟨_, h', rfl, .value nonempty accepted run⟩

theorem Replies.settles (replies : Replies h text s h') (reads : Reads line text)
    (ne : text ≠ ".exit") : ∃ m, ∀ n, m ≤ n → turn n .values h line = some (.goOn s h') := by
  cases replies with
  | idle idle => exact ⟨0, fun n _ => turn_of_idle reads ne idle⟩
  | @value m _ _ _ v nonempty accepted run =>
    refine ⟨m, fun n hn => ?_⟩
    rw [turn_of_accepted reads nonempty accepted, (Eval.program_below hn _ 0 h).eq_some run]
    rfl

theorem exists_answers_of_converse {t : Transcript} (heard : Heard ls texts ending)
    (run : converse n .values h ls = some t) :
    ∃ replies h', Answers h texts replies h' ∧ t = ⟨printed replies, ending.failure⟩ := by
  induction texts generalizing ls h t with
  | nil =>
    rw [converse_of_heard_nil heard] at run
    cases run
    exact ⟨[], h, .nil, rfl⟩
  | cons text texts ih =>
    cases heard with
    | @text line _ _ _ _ reads ne heard =>
      cases first : turn n .values h line with
      | none => simp [converse, first] at run
      | some answered =>
        obtain ⟨s, h₁, rfl, replied⟩ := exists_replies_of_turn reads ne first
        simp only [converse, first] at run
        obtain ⟨t₁, run₁, rfl⟩ := Option.map_eq_some_iff.1 run
        obtain ⟨replies, h', answers, rfl⟩ := ih heard run₁
        exact ⟨s :: replies, h', .cons replied answers, after_printed s replies _⟩

theorem Answers.settles (answers : Answers h texts replies h') (heard : Heard ls texts ending) :
    ∃ m, ∀ n, m ≤ n → converse n .values h ls = some ⟨printed replies, ending.failure⟩ := by
  induction answers generalizing ls with
  | nil => exact ⟨0, fun n _ => converse_of_heard_nil heard⟩
  | cons reply _ ih =>
    cases heard with
    | text reads ne heard =>
      obtain ⟨m₁, first⟩ := reply.settles reads ne
      obtain ⟨m₂, more⟩ := ih heard
      refine ⟨max m₁ m₂, fun n hn => ?_⟩
      obtain ⟨hm₁, hm₂⟩ := Nat.max_le.1 hn
      exact converse_cons_of_goOn (first n hm₁) (more n hm₂)

end

/-! ### Reports -/

/-- The report of a shell that has printed `out`. -/
def Ending.report (ending : Ending) (out : String) : Report :=
  match ending with
  | .asked | .exhausted => ⟨out, [], true⟩
  | .broken => ⟨out, (Failure.io .invalidData).report, false⟩

section

variable {n : Nat} {read : String → Except IoFault (List UInt8)} {elapsed : String} {mode : Mode}
  {input : List UInt8} {ls : List (List UInt8)} {replies : List String} {ending : Ending}

theorem perform_of_transcript {out : String}
    (held : transcript n mode input = some ⟨out, ending.failure⟩) :
    perform n read input elapsed (.shell mode) = some (ending.report out) := by
  rw [perform, held]
  cases ending <;> rfl

theorem Cut.transcript_eq (cut : Cut input ls) :
    transcript n mode input = converse n mode .root ls := by
  rw [transcript, cut_iff.1 cut]

theorem perform_values_iff (cut : Cut input ls) (r : Report) :
    (∃ n, perform n read input elapsed (.shell .values) = some r) ↔
      ∃ replies ending, Held ls replies ending ∧ r = ending.report (printed replies) := by
  constructor
  · rintro ⟨n, run⟩
    obtain ⟨t, held, -⟩ := Option.map_eq_some_iff.1 run
    obtain ⟨texts, ending, heard⟩ := exists_heard ls
    rw [cut.transcript_eq] at held
    obtain ⟨replies, h, answers, rfl⟩ := exists_answers_of_converse heard held
    rw [perform_of_transcript (cut.transcript_eq.trans held), Option.some.injEq] at run
    exact ⟨replies, ending, ⟨texts, h, heard, answers⟩, run.symm⟩
  · rintro ⟨replies, ending, ⟨texts, h, heard, answers⟩, rfl⟩
    obtain ⟨m, settled⟩ := answers.settles heard
    exact ⟨m, perform_of_transcript (cut.transcript_eq.trans (settled m (Nat.le_refl m)))⟩

end

/-- Shells go through their input line by line, and every line is heard up to the first that ends
the conversation. A prompt stands in front of every answer, and one more at the end. The answer to a
line is a matter of its text alone, or of this and of what the accepted texts before it have bound.
So nothing behind a line that ends the conversation matters, and where a line is left out that is
empty or refused, the other answers stay as they are. Only a line that is no text makes the program
fail. -/
theorem answered_line_by_line (read : String → Except IoFault (List UInt8)) (elapsed : String) :
    (∀ input, ∃ ls texts ending, Cut input ls ∧ Heard ls texts ending) ∧
    (∀ input ls texts ending, Cut input ls → Heard ls texts ending → ∀ n,
      perform n read input elapsed (.shell .tokens) =
          some (ending.report (printed (texts.map tokensShown))) ∧
        perform n read input elapsed (.shell .programs) =
          some (ending.report (printed (texts.map programShown)))) ∧
    (∀ input ls, Cut input ls → ∀ r,
      (∃ n, perform n read input elapsed (.shell .values) = some r) ↔
        ∃ replies ending, Held ls replies ending ∧ r = ending.report (printed replies)) ∧
    (∀ input input' ls rest rest', Cut input (ls ++ rest) → Cut input' (ls ++ rest') →
      (∃ l ∈ ls, Ends l) → ∀ n mode,
      perform n read input elapsed (.shell mode) = perform n read input' elapsed (.shell mode)) ∧
    (∀ input ls line rest, Cut input (ls ++ line :: rest) →
      Cut (ls ++ rest).flatten (ls ++ rest) ∧
      ∀ text, (∀ l ∈ ls, ¬Ends l) → Reads line text → text ≠ ".exit" → Idle text →
        ∀ replies ending, Held (ls ++ line :: rest) replies ending ↔
          ∃ front back, front.length = ls.length ∧ replies = front ++ idleReply text :: back ∧
            Held (ls ++ rest) (front ++ back) ending) ∧
    ∀ ending out, (Ending.report ending out).exitCode = if ending = .broken then 1 else 0 := by
  refine ⟨?_, ?_, ?_, ?_, ?_, ?_⟩
  · intro input
    obtain ⟨texts, ending, heard⟩ := exists_heard (lines input)
    exact ⟨_, texts, ending, cut_lines input, heard⟩
  · intro input ls texts ending cut heard n
    refine ⟨perform_of_transcript ?_, perform_of_transcript ?_⟩ <;> rw [cut.transcript_eq]
    · exact converse_of_shown (fun _ _ => turn_tokens) heard
    · exact converse_of_shown (fun _ _ => turn_programs) heard
  · intro input ls cut r
    exact perform_values_iff cut r
  · intro input input' ls rest rest' cut cut' ends n mode
    rw [perform, perform, cut.transcript_eq, cut'.transcript_eq, converse_append_of_ends ends,
      converse_append_of_ends ends]
  · intro input ls line rest cut
    refine ⟨cut.erase, fun text goesOn reads ne idle replies ending => ?_⟩
    exact held_append_cons_iff goesOn reads ne idle
  · intro ending out
    cases ending <;> rfl

/-- A binding, and a line without a text. -/
def binding : List (List UInt8) := ["let a = 2;\n", "\r\n"].map fun l => l.toUTF8.data.toList

/-- The first statement would bind anew, but the second is cut off. -/
def cutOff : List UInt8 := "let a = 3; let\n".toUTF8.data.toList

def cutOffReply : String := "parser errors:\n\texpected next token to be IDENT, got EOF instead\n"

/-- A question, and a line that asks to leave. -/
def leaving : List (List UInt8) := ["a\r\n", ".exit\n"].map fun l => l.toUTF8.data.toList

def talk : List (List UInt8) := binding ++ cutOff :: leaving

/-- A line that is no text, and another one. -/
def garbled : List (List UInt8) := [[0xff, 0x0a], [0x61]]

def noFiles (_ : String) : Except IoFault (List UInt8) := .error .notFound

/-- The answer behind the line that is cut off is the one that is given without that line. -/
theorem answered_line_by_line_cutOff :
    (Cut talk.flatten talk ∧ Heard talk ["let a = 2;", "", "let a = 3; let", "a"] .asked ∧
      perform 0 noFiles talk.flatten "" (.shell .programs) =
        some ⟨">> let a = 2;\n>> >> " ++ cutOffReply ++ ">> a\n>> ", [], true⟩) ∧
    (Held (binding ++ leaving) ["null\n", "", "2\n"] .asked ∧
      ∃ n, perform n noFiles talk.flatten "" (.shell .values) =
        some ⟨">> null\n>> >> " ++ cutOffReply ++ ">> 2\n>> ", [], true⟩) ∧
    perform 9 noFiles (talk ++ garbled).flatten "" (.shell .values) =
      perform 9 noFiles talk.flatten "" (.shell .values) ∧
    perform 9 noFiles garbled.flatten "" (.shell .tokens) = some (Ending.broken.report ">> ") ∧
      (Ending.broken.report ">> ").exitCode = 1 := by
  have cut : Cut talk.flatten talk := cut_iff.2 (by decide +kernel)
  have more : Cut (talk ++ garbled).flatten (talk ++ garbled) := cut_iff.2 (by decide +kernel)
  have behind : Cut garbled.flatten garbled := cut_iff.2 (by decide +kernel)
  have bound : Reads "let a = 2;\n".toUTF8.data.toList "let a = 2;" :=
    ⟨"\n", by decide, by simp, by simp⟩
  have empty : Reads "\r\n".toUTF8.data.toList "" := ⟨"\r\n", by decide, by simp, by simp⟩
  have stopped : Reads cutOff "let a = 3; let" := ⟨"\n", by decide, by simp, by simp⟩
  have asked : Reads "a\r\n".toUTF8.data.toList "a" := ⟨"\r\n", by decide, by simp, by simp⟩
  have exit : Reads ".exit\n".toUTF8.data.toList ".exit" := ⟨"\n", by decide, by simp, by simp⟩
  have broken : Broken [0xff, 0x0a] := broken_iff.2 (by with_unfolding_all rfl)
  have left : Heard leaving ["a"] .asked := .text asked (by decide) (.asked exit)
  have heard : Heard talk ["let a = 2;", "", "let a = 3; let", "a"] .asked :=
    .text bound (by decide) (.text empty (by decide) (.text stopped (by decide) left))
  have goesOn : ∀ l ∈ binding, ¬Ends l :=
    List.forall_mem_cons.2 ⟨bound.not_ends (by decide),
      List.forall_mem_cons.2 ⟨empty.not_ends (by decide), by simp⟩⟩
  have ends : ∃ l ∈ talk, Ends l := ⟨_, by simp [talk, leaving], .inl exit⟩
  have refused : (parse "let a = 3; let").errors = [⟨.unexpected .ident .eof, ⟨14, 14⟩⟩] := by
    decide +kernel
  have without : Held (binding ++ leaving) ["null\n", "", "2\n"] .asked := by
    have bind : Eval.program 9 (parse "let a = 2;").program 0 .root =
        some (.null, Heap.root.set 0 "a" (.int 2)) := by
      with_unfolding_all rfl
    have ask : Eval.program 9 (parse "a").program 0 (Heap.root.set 0 "a" (.int 2)) =
        some (.int 2, Heap.root.set 0 "a" (.int 2)) := by
      with_unfolding_all rfl
    exact ⟨_, _, .text bound (by decide) (.text empty (by decide) left),
      .cons (.value (by decide) (by decide +kernel) bind)
        (.cons (.idle (.inl rfl)) (.cons (.value (by decide) (by decide +kernel) ask) .nil))⟩
  obtain ⟨-, shown, held, deaf, erased, code⟩ := answered_line_by_line noFiles ""
  refine ⟨⟨cut, heard, ?_⟩, ⟨without, ?_⟩, ?_, ?_, code .broken _⟩
  · have out : printed (["let a = 2;", "", "let a = 3; let", "a"].map programShown) =
        ">> let a = 2;\n>> >> " ++ cutOffReply ++ ">> a\n>> " := by
      decide +kernel
    rw [(shown _ _ _ _ cut heard 0).2, out]
    rfl
  · have out : printed (["null\n", ""] ++ idleReply "let a = 3; let" :: ["2\n"]) =
        ">> null\n>> >> " ++ cutOffReply ++ ">> 2\n>> " := by
      decide +kernel
    have whole := ((erased _ binding cutOff leaving cut).2 _ goesOn stopped (by decide)
      (.inr (by simp [refused])) _ _).2 ⟨["null\n", ""], ["2\n"], rfl, rfl, without⟩
    exact (held _ _ cut _).2 ⟨_, _, whole, by rw [out]; rfl⟩
  · exact deaf _ _ talk garbled [] more (by rwa [List.append_nil]) ends 9 .values
  · exact (shown _ _ _ _ behind (.broken broken) 9).1

end LetFn.Shell
