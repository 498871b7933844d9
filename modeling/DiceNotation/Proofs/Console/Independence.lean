import DiceNotation.Proofs.Console.Lines
import DiceNotation.Proofs.Grammar.Reading
import DiceNotation.Proofs.Grammar.Trailing
import DiceNotation.Proofs.Roll.OneFaced
import DiceNotation.Proofs.Roll.Writer

/-!
# Lines on their own

One session answers all lines of a console, and goes on from the values that the
lines before have drawn; one writer writes all results. If every die that is rolled
has one face, none of this is to be seen: each line contributes what it would as the
only line, with new values and a new writer (`Console.run_eq_apart`).

A run of lines is taken apart into its lines, each with an answer and a number of
draws that depend on nothing else (`Console.RollsOnly.eachAnswers`). From them the
output is put together, with as many values as they draw in all.
-/

namespace DiceNotation

variable {values : Nat → Double} {ceiling : UInt64}

/-! ## One text -/

/-- The text is answered in the same way, `k` draws further, wherever a supply
without a value below zero has so many left. -/
def Session.AlwaysAnswers (text : String) (ceiling : UInt64) (answer : Except Failure Result)
    (k : Nat) : Prop :=
  answer ≠ .error .unfinished ∧ ∀ (s : Supply) (n : Nat), s.Nonnegative → n + k ≤ s.limit →
    Session.roll text ⟨s, ceiling, n⟩ = (answer, ⟨s, ceiling, n + k⟩)

/-- A text that is refused is answered without a roll. -/
theorem Session.alwaysAnswers_of_error {text : String} {error : ParseError}
    (h : parse text = .error error) : AlwaysAnswers text ceiling (.error (.parse error)) 0 := by
  refine ⟨by simp, fun s n _ _ => ?_⟩
  rw [Session.roll, h]
  rfl

/-- A text that is read is answered with what its roll ends with. -/
theorem Session.alwaysAnswers_of_ok {text : String} {node : Node} {answer : Except Halt Result}
    {k : Nat} (h : parse text = .ok node) (hnode : node.roll.AlwaysEnds ceiling answer k) :
    AlwaysAnswers text ceiling (answer.mapError Failure.ofHalt) k := by
  refine ⟨?_, fun s n hs hn => ?_⟩
  · match answer, hnode.1 with
    | .ok _, _ | .error (.refused _), _ => simp [Except.mapError, Failure.ofHalt]
    | .error .unfinished, hend => exact absurd rfl hend
  · rw [Session.roll_eq h, hnode.2 s n hs hn]

namespace Console

theorem Output.append_nil (a : Output) : a ++ (⟨"", ""⟩ : Output) = a := by
  change (⟨a.results ++ "", a.errors ++ ""⟩ : Output) = a
  rw [String.append_empty, String.append_empty]

theorem Output.append_assoc (a b c : Output) : a ++ b ++ c = a ++ (b ++ c) := by
  change (⟨a.results ++ b.results ++ c.results, a.errors ++ b.errors ++ c.errors⟩ : Output) =
    ⟨a.results ++ (b.results ++ c.results), a.errors ++ (b.errors ++ c.errors)⟩
  rw [String.append_assoc, String.append_assoc]

/-! ## One line -/

/-- The text of a line that is rolled. -/
def content (line : String) : String := String.ofList (Text.trim line.toList)

/-- What is written for an answer: the Markdown of the roll, or the error. -/
def written : Except Failure Result → Output
  | .ok r => ⟨r.line .markdown ++ "\n", ""⟩
  | .error failure => ⟨"", "Error: " ++ failure.message ++ "\n"⟩

/-- What a line writes in a session, if it is not blank. -/
def contribution (line : String) (session : Session) : Output :=
  if content line = "" then ⟨"", ""⟩ else written (session.roll (content line)).1

/-- An answer is what the line contributes, and the session goes on only if there was
something to roll. -/
theorem answer_eq (line : String) (session : Session) :
    answer line session = (contribution line session,
      if content line = "" then session else (session.roll (content line)).2) := by
  unfold answer contribution content
  cases Text.trim line.toList with
  | nil => rfl
  | cons c cs =>
    have hcontent : String.ofList (c :: cs) ≠ "" := by simp [← String.toList_inj]
    rw [if_neg hcontent, if_neg hcontent]
    dsimp only
    rcases session.roll (String.ofList (c :: cs)) with ⟨failure | result, after⟩ <;> rfl

/-- An answer that never changes is written in the same way in all sessions, and
what it draws is bounded. -/
theorem answer_of_alwaysAnswers {line : String} {a : Except Failure Result} {k n m : Nat}
    {s t : Supply} (h : Session.AlwaysAnswers (content line) ceiling a k)
    (hs : s.Nonnegative) (ht : t.Nonnegative) (hn : n + k ≤ s.limit) (hm : m + k ≤ t.limit) :
    ∃ d, d ≤ n + k ∧
      answer line ⟨s, ceiling, n⟩ = (contribution line ⟨t, ceiling, m⟩, ⟨s, ceiling, d⟩) := by
  rw [answer_eq, contribution, contribution, h.2 s n hs hn, h.2 t m ht hm]
  by_cases hblank : content line = ""
  · exact ⟨n, by omega, by rw [if_pos hblank, if_pos hblank]⟩
  · exact ⟨n + k, by omega, by rw [if_neg hblank, if_neg hblank]⟩

/-! ## Lines one after the other -/

/-- Every die that is rolled for the lines, one line after the other, is of a kind
in the box. A line that is no expression rolls none; a line that never ends is the
last one. -/
inductive RollsOnly (box : DieType → Prop) (values : Nat → Double) (ceiling : UInt64) :
    List String → Nat → Prop
  | nil (n : Nat) : RollsOnly box values ceiling [] n
  | unread {line : String} {rest : List String} {n : Nat} {error : ParseError} :
    parse (content line) = .error error → RollsOnly box values ceiling rest n →
    RollsOnly box values ceiling (line :: rest) n
  | read {line : String} {rest : List String} {n : Nat} {node : Node} :
    parse (content line) = .ok node → node.roll.RollsOnly box values ceiling n →
    (∀ answer d, node.roll.EndsWith values ceiling n answer d →
      RollsOnly box values ceiling rest d) →
    RollsOnly box values ceiling (line :: rest) n

/-- What the lines write, each in a session of its own, with a prompt behind it. -/
def apart (ls : List String) (fresh : Session) : Output where
  results := String.join (ls.map fun line => (contribution line fresh).results ++ prompt)
  errors := String.join (ls.map fun line => (contribution line fresh).errors)

/-- Apart, each line is answered by a session of its own. -/
theorem apart_cons (line : String) (ls : List String) (fresh : Session) :
    apart (line :: ls) fresh = contribution line fresh ++ ⟨prompt, ""⟩ ++ apart ls fresh := by
  simp only [apart, List.map_cons, String.join_cons]
  change (⟨_, _⟩ : Output) = ⟨_ ++ _ ++ _, _ ++ "" ++ _⟩
  rw [String.append_empty]

/-- Each of the lines is always answered, and all of them together with `total`
draws. -/
inductive EachAnswers (ceiling : UInt64) : List String → Nat → Prop
  | nil : EachAnswers ceiling [] 0
  | cons {line : String} {rest : List String} {a : Except Failure Result} {k total : Nat} :
    Session.AlwaysAnswers (content line) ceiling a k → EachAnswers ceiling rest total →
    EachAnswers ceiling (line :: rest) (k + total)

/-- **Each line has an answer of its own**, if only dice with one face are rolled. -/
theorem RollsOnly.eachAnswers {ls : List String} {n : Nat}
    (h : RollsOnly (· = .numeric 1) values ceiling ls n)
    (hvalues : ∀ i, Double.zero.le (values i)) : ∃ total, EachAnswers ceiling ls total := by
  induction h with
  | nil => exact ⟨0, .nil⟩
  | unread hparse _ ih =>
    obtain ⟨total, ih⟩ := ih
    exact ⟨0 + total, .cons (Session.alwaysAnswers_of_error hparse) ih⟩
  | @read line rest n node hparse hnode _ ih =>
    obtain ⟨answer, k, hends⟩ := hnode.unchanging hvalues
    obtain ⟨total, ih⟩ := ih answer (n + k)
      ⟨hends.1, n + k, hends.2 ⟨values, n + k⟩ n hvalues le_rfl⟩
    exact ⟨k + total, .cons (Session.alwaysAnswers_of_ok hparse hends) ih⟩

/-- **The output is put together** from what each line contributes in a session of
its own. -/
theorem EachAnswers.respond_eq {ls : List String} {total : Nat} (h : EachAnswers ceiling ls total)
    {s t : Supply} {n m : Nat} (hs : s.Nonnegative) (ht : t.Nonnegative)
    (hn : n + total ≤ s.limit) (hm : m + total ≤ t.limit) :
    respond ls ⟨s, ceiling, n⟩ = apart ls ⟨t, ceiling, m⟩ := by
  induction h generalizing n with
  | nil => rfl
  | @cons line rest a k total hline _ ih =>
    obtain ⟨d, hd, hanswer⟩ : ∃ d, d ≤ n + k ∧ answer line ⟨s, ceiling, n⟩ =
        (contribution line ⟨t, ceiling, m⟩, ⟨s, ceiling, d⟩) :=
      answer_of_alwaysAnswers hline hs ht (by omega) (by omega)
    rw [respond, hanswer]
    dsimp only
    rw [ih (by omega) (by omega), apart_cons]

/-- Each of the lines is answered with no more draws than there are in all. -/
theorem EachAnswers.exists_of_mem {ls : List String} {total : Nat}
    (h : EachAnswers ceiling ls total) {line : String} (hline : line ∈ ls) :
    ∃ a k, Session.AlwaysAnswers (content line) ceiling a k ∧ k ≤ total := by
  induction h with
  | nil => cases hline
  | cons hfirst _ ih =>
    rcases List.mem_cons.1 hline with rfl | hline
    · exact ⟨_, _, hfirst, Nat.le_add_right _ _⟩
    · obtain ⟨a, k, ha, hk⟩ := ih hline
      exact ⟨a, k, ha, by omega⟩

/-! ## One writer for all lines -/

/-- The answer to one line, by a writer that the console keeps. -/
def answerWith (line : String) (session : Session) : Writing (Output × Session) :=
  if content line = "" then return (⟨"", ""⟩, session)
  else
    match session.roll (content line) with
    | (.ok result, session) => return (⟨(← result.writeLine) ++ "\n", ""⟩, session)
    | (.error failure, session) => return (⟨"", "Error: " ++ failure.message ++ "\n"⟩, session)

/-- All that is written after the first prompt, by one writer. -/
def respondWith : List String → Session → Writing Output
  | [], _ => return ⟨"", ""⟩
  | line :: rest, session => do
    let (output, session) ← answerWith line session
    return output ++ ⟨prompt, ""⟩ ++ (← respondWith rest session)

/-- All that is written for an input, by one writer. -/
def runWith (input : String) (session : Session) : Writing Output :=
  return ⟨prompt, ""⟩ ++ (← respondWith (lines input) session)

/-- The writer's flag has no part in an answer. -/
theorem run_answerWith (line : String) (session : Session) (struck : Bool) :
    ((answerWith line session).run struck).1 = answer line session := by
  rw [answer_eq, answerWith, contribution]
  by_cases hblank : content line = ""
  · rw [if_pos hblank, if_pos hblank, if_pos hblank]
    rfl
  · rw [if_neg hblank, if_neg hblank, if_neg hblank]
    rcases session.roll (content line) with ⟨failure | result, after⟩
    · rfl
    · have hline : (result.writeLine.run struck).1 = result.line .markdown := by
        rw [result.run_writeLine]
      change ((⟨(result.writeLine.run struck).1 ++ "\n", ""⟩, after) : Output × Session) = _
      rw [hline]
      rfl

theorem run_respondWith (ls : List String) (session : Session) (struck : Bool) :
    ((respondWith ls session).run struck).1 = respond ls session := by
  induction ls generalizing session struck with
  | nil => rfl
  | cons line rest ih =>
    have hanswer := run_answerWith line session struck
    rw [respondWith, respond, StateT.run_bind]
    rcases hwritten : (answerWith line session).run struck with ⟨⟨output, after⟩, memory⟩
    rw [hwritten] at hanswer
    rw [← hanswer]
    change output ++ ⟨prompt, ""⟩ ++ ((respondWith rest after).run memory).1 = _
    rw [ih]

/-- **A writer that is kept** writes what new ones would. -/
theorem run_runWith (input : String) (session : Session) (struck : Bool) :
    ((runWith input session).run struck).1 = run input session := by
  rw [run, ← run_respondWith (lines input) session struck]
  rfl

/-! ## An input -/

/-- **Lines on their own.** If every die that is rolled for an input has one face,
then each line of it has an answer, and enough values lead to it: one session and one
writer write for the whole input, in order and with a prompt behind each line, what
each line contributes as the only line of an input, to a new session with other
values and a new writer. -/
theorem run_eq_apart {input : String} (hvalues : ∀ i, Double.zero.le (values i))
    (h : RollsOnly (· = .numeric 1) values ceiling (lines input) 0) :
    ∃ needed, ∀ s t : Supply, s.Nonnegative → t.Nonnegative → needed ≤ s.limit →
      needed ≤ t.limit →
      let session : Session := { supply := s, ceiling := ceiling }
      let fresh : Session := { supply := t, ceiling := ceiling }
      (∀ struck, ((runWith input session).run struck).1 = run input session) ∧
      run input session = ⟨prompt, ""⟩ ++ apart (lines input) fresh ∧
      ∀ line ∈ lines input, (fresh.roll (content line)).1 ≠ .error .unfinished ∧
        ((runWith (line ++ "\n") fresh).run false).1 =
          ⟨prompt, ""⟩ ++ contribution line fresh ++ ⟨prompt, ""⟩ := by
  obtain ⟨total, hanswers⟩ := h.eachAnswers hvalues
  refine ⟨total, fun s t hs ht hsl htl => ⟨?_, ?_, fun line hline => ?_⟩⟩
  · exact run_runWith _ _
  · rw [run, hanswers.respond_eq hs ht (by omega) (m := 0) (by omega)]
  · obtain ⟨a, k, ha, hk⟩ := hanswers.exists_of_mem hline
    constructor
    · rw [ha.2 t 0 ht (by omega)]
      exact ha.1
    · rw [run_runWith, run, lines_newline (newline_not_mem hline), respond, answer_eq]
      dsimp only
      rw [respond, Output.append_nil, Output.append_assoc]

/-- Two dice with one face, a blank line, and such a die that would explode for ever. -/
theorem run_eq_apart_ones :
    let input := "2d1\n\nd1!\n"
    let values := (Supply.generated 7 0).value
    (∀ i, Double.zero.le (values i)) ∧
      RollsOnly (· = .numeric 1) values 1000 (lines input) 0 ∧
      ∃ needed, ∀ s t : Supply, s.Nonnegative → t.Nonnegative → needed ≤ s.limit →
        needed ≤ t.limit →
        let session : Session := { supply := s, ceiling := 1000 }
        let fresh : Session := { supply := t, ceiling := 1000 }
        (∀ struck, ((runWith input session).run struck).1 = run input session) ∧
        run input session = ⟨prompt, ""⟩ ++ apart (lines input) fresh ∧
        ∀ line ∈ lines input, (fresh.roll (content line)).1 ≠ .error .unfinished ∧
          ((runWith (line ++ "\n") fresh).run false).1 =
            ⟨prompt, ""⟩ ++ contribution line fresh ++ ⟨prompt, ""⟩ := by
  intro input values
  let dice (count : Int64) (mods : List (Modifier Node)) : Node :=
    .term (.die { sides := .numeric (.int 1), count := .int count, mods := mods }) none
  have hvalues : ∀ i, Double.zero.le (values i) := Supply.nonnegative_generated 7 0
  have hplain : Reads "2d1" (dice 2 []) := by
    have htokens : tokenize "2d1" = [⟨.integer, 0, "2"⟩, ⟨.d, 1, "d"⟩, ⟨.integer, 2, "1"⟩] := by
      decide +kernel
    exact ⟨⟨some 3, [], 3⟩, by rw [ReadsTo, htokens]; rfl, rfl⟩
  have hexplode : Reads "d1!" (dice 1 [.again .explode none]) := by
    have htokens : tokenize "d1!" = [⟨.d, 0, "d"⟩, ⟨.integer, 1, "1"⟩, ⟨.explode, 2, "!"⟩] := by
      decide +kernel
    exact ⟨⟨some 3, [], 3⟩, by rw [ReadsTo, htokens]; rfl, rfl⟩
  have hrolls {count : Int64} {mods : List (Modifier Node)} (hmods : ∀ m ∈ mods, m.operands = [])
      (n : Nat) : (dice count mods).roll.RollsOnly (· = .numeric 1) values 1000 n := by
    refine Node.DiceIn.rollsOnly (.term ?_ ?_) n
    · rintro _ ⟨⟩
      exact ⟨.numeric 1, rfl, rfl⟩
    · refine Form.forall_parts_die.2 ⟨.number _, ?_, fun m hm => ?_, by simp, by simp⟩
      · rintro x hx
        obtain rfl : x = Node.int 1 := by simpa [Sides.parts] using hx
        exact .number _
      · simp [hmods m hm]
  have hlines : lines input = ["2d1", "", "d1!"] := by
    rw [lines, splitOn_newline]
    decide
  -- the blank line is read as nothing, and it draws nothing
  have hinput : RollsOnly (· = .numeric 1) values 1000 (lines input) 0 := by
    have hread : parse (content "2d1") = .ok (dice 2 []) := hplain.parse_eq
    have hblank : parse (content "") = .error _ := rfl
    rw [hlines]
    refine .read hread (hrolls (by simp) 0) fun _ d _ => .unread hblank ?_
    exact .read hexplode.parse_eq (hrolls (by simp [Modifier.operands]) d) fun _ d _ => .nil d
  exact ⟨hvalues, hinput, run_eq_apart hvalues hinput⟩

/-- What is written for that input. -/
example : run "2d1\n\nd1!\n" { supply := .generated 7 3 } =
    ⟨"> 2d1 (**1**, **1**) = `2`\n> > > ",
      "Error: invalid target for 'explode': every face would be re-rolled\n"⟩ := by
  rw [run, lines, splitOn_newline]
  decide +kernel

end Console

end DiceNotation
