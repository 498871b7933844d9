import DiceNotation.Proofs.Grammar.Linear

/-!
# The rules of the grammar

A text is read by its rules, and each of them comes to its end from every position
(`Indexed.ends_rules`): it goes on from where it is, past a token if it gives a node or a
modifier, stays within the text, and takes steps in proportion to the tokens that it takes.
It breaks off only to refuse what it reads.
-/

namespace DiceNotation

open Token (Kind)
open Cursor (place)

/-! ## Rules -/

/-- The rules of the grammar with what they give. -/
inductive Rule : Type → Type
  | sum : Rule Node
  | product : Rule Node
  | power : Rule Node
  | term : Rule Node
  | label? : Rule (Option String)
  | number : Rule Node
  | parenthesized : Rule Node
  | inline : Rule Node
  | function (fn : NumFn) : Rule Node
  | operand : Rule Node
  | comparison? : Rule (Option Comparison)
  | condition : Rule (Condition Node)
  | trigger? : Rule (Option (Condition Node))
  | countOrDice (count : Node) : Rule Node
  | dice (count : Node) : Rule Node
  | dieSuffix (spec : DieSpec Node) : Rule (Option (DieSpec Node))
  | dieSuffixes (spec : DieSpec Node) : Rule (DieSpec Node)
  | selection : Rule (Modifier Node)
  | matching : Rule (Matching Node)
  | group : Rule Node
  | groupSuffix : Rule (Option (Modifier Node))

namespace Rule

variable {α : Type}

/-- The rule as it is parsed. -/
def parser (nested : Parser Node) : Rule α → Parser α
  | sum => Parser.sum nested
  | product => Parser.product nested
  | power => Parser.power nested
  | term => Parser.term nested
  | label? => Parser.label?
  | number => Parser.number
  | parenthesized => Parser.parenthesized nested
  | inline => Parser.inline nested
  | function fn => do
    Parser.skip
    return .function fn (← Parser.parenthesized nested)
  | operand => Parser.operand nested
  | comparison? => Parser.comparison?
  | condition => Parser.condition nested
  | trigger? => Parser.trigger? nested
  | countOrDice count => Parser.countOrDice nested count
  | dice count => Parser.dice nested count
  | dieSuffix spec => Parser.dieSuffix nested spec
  | dieSuffixes spec => Parser.iterate (Parser.dieSuffix nested) spec
  | selection => Parser.selection nested
  | matching => Parser.matching nested
  | group => Parser.group nested
  | groupSuffix => Parser.groupSuffix nested

/-- The rule as it is read by index. -/
def indexed (nested : Indexed Node) : Rule α → Indexed α
  | sum => Indexed.sum nested
  | product => Indexed.product nested
  | power => Indexed.power nested
  | term => Indexed.term nested
  | label? => Indexed.label?
  | number => Indexed.number
  | parenthesized => Indexed.parenthesized nested
  | inline => Indexed.inline nested
  | function _ => Indexed.function nested
  | operand => Indexed.operand nested
  | comparison? => Indexed.comparison?
  | condition => Indexed.condition nested
  | trigger? => Indexed.trigger? nested
  | countOrDice count => Indexed.countOrDice nested count
  | dice count => Indexed.dice nested count
  | dieSuffix spec => Indexed.dieSuffix nested spec
  | dieSuffixes spec => Indexed.dieSuffixes nested spec
  | selection => Indexed.selection nested
  | matching => Indexed.matching nested
  | group => Indexed.group nested
  | groupSuffix => Indexed.groupSuffix nested

/-- What the rule relies on to come next: the token that it was called for. -/
def Suits : Rule α → Option Kind → Prop
  | function fn, next => next.bind Parser.functionOf? = some fn
  | selection, next => next = some .keep ∨ next = some .d
  | matching, next => next = some .match ∨ next = some .matchCount
  | _, _ => True

/-- How many tokens the rule takes at least for what it gives: one for a node or a modifier,
but for a count that was read before and modifiers that need not be there. -/
def least : Rule α → α → Nat
  | label?, o => Parser.taken o
  | comparison?, o => Parser.taken o
  | trigger?, _ => 0
  | countOrDice _, _ => 0
  | dieSuffix _, o => Parser.taken o
  | dieSuffixes _, _ => 0
  | groupSuffix, o => Parser.taken o
  | _, _ => 1

end Rule

/-! ## Ends -/

namespace Indexed

variable {α : Type} {s : String} {i : Nat}

/-- A run from position `i` and the parser at that place end alike: with the same at the same
place, past as many tokens as it has to take, or refusing the same. The steps are twenty for
each token that was taken and twelve more at most. -/
inductive Ends (s : String) (i : Nat) (least : α → Nat) :
    EStateM.Result Fault Walk α → Except ParseError (α × Cursor) → Prop
  | ok {a : α} {j n : Nat} (hij : i + least a ≤ j) (hj : j ≤ (tokenize s).length)
    (hsteps : n ≤ 20 * (j - i) + 12) :
    Ends s i least (.ok a ⟨j, n⟩) (.ok (a, place (tokenize s) s.utf8ByteSize j))
  | error {e : ParseError} {j n : Nat} (hij : i ≤ j) (hj : j ≤ (tokenize s).length)
    (hsteps : n ≤ 20 * (j - i) + 12) : Ends s i least (.error (.refused e) ⟨j, n⟩) (.error e)

/-- A run that began with few steps in hand ends within a bound linear in the tokens taken.
-/
theorem Settles.ends {c : Nat} {d least : α → Nat} {o : EStateM.Result Fault Walk α}
    {o' : Except ParseError (α × Cursor)} (h : Settles s i 0 c d o o') (hc : c ≤ 12)
    (hleast : ∀ a, least a ≤ 1 ∧ least a ≤ d a - c) : Ends s i least o o' := by
  cases h with
  | @ok a j n hij hj hsteps hpaid =>
    have hleast := hleast a
    exact .ok (by omega) hj (by omega)
  | error hij hj hsteps hpaid => exact .error hij hj (by omega)

namespace Affords

variable {c : Nat} {d : α → Nat} {p : Indexed α} {q : Parser α}

/-- A rule that takes a token has more in hand at its end. -/
theorem ends_taking {x : Nat} (h : Affords s i c (fun _ => x) p q) (hc : c ≤ 12) (hx : c < x)
    (hi : i ≤ (tokenize s).length) :
    Ends s i (fun _ => 1) (p.runAt s i 0) (q.run (place (tokenize s) s.utf8ByteSize i)) :=
  (h hi 0).ends hc fun _ => ⟨Nat.le_refl 1, Nat.le_sub_of_add_le' hx⟩

/-- A rule that may decline takes a token if it does not. -/
theorem ends_taken {l : Nat} {p : Indexed (Option α)} {q : Parser (Option α)}
    (h : Affords s i c (fun o => o.elim l fun _ => 20) p q) (hc : c ≤ 12)
    (hi : i ≤ (tokenize s).length) :
    Ends s i Parser.taken (p.runAt s i 0) (q.run (place (tokenize s) s.utf8ByteSize i)) := by
  refine (h hi 0).ends hc fun o => ⟨Parser.taken_le_one o, ?_⟩
  cases o with
  | none => exact Nat.zero_le _
  | some a => exact Nat.le_sub_of_add_le' (by omega : c + 1 ≤ 20)

/-- Whatever a run has in hand at its end, it ends so. -/
theorem ends_anyhow (h : Affords s i c d p q) (hc : c ≤ 12) (hi : i ≤ (tokenize s).length) :
    Ends s i (fun _ => 0) (p.runAt s i 0) (q.run (place (tokenize s) s.utf8ByteSize i)) :=
  (h hi 0).ends hc fun _ => ⟨Nat.zero_le 1, Nat.zero_le _⟩

end Affords

/-- One rule from one position. -/
theorem ends_rule (r : Rule α) {nested : Indexed Node} {nested' : Parser Node}
    (h : Encloses s i nested nested') (hsuits : r.Suits ((tokenize s)[i]?.map Token.kind))
    (hi : i ≤ (tokenize s).length) :
    Ends s i r.least ((r.indexed nested).runAt s i 0)
      ((r.parser nested').run (place (tokenize s) s.utf8ByteSize i)) := by
  cases r with
  | sum => exact (affords_sum h).ends_taking (by omega) (by omega) hi
  | product => exact (affords_product h).ends_taking (by omega) (by omega) hi
  | power => exact (affords_power h).ends_taking (by omega) (by omega) hi
  | term => exact (affords_term h).ends_taking (by omega) (by omega) hi
  | label? => exact affords_label?.ends_taken (by omega) hi
  | number => exact affords_number.ends_taking (by omega) (by omega) hi
  | parenthesized => exact (affords_parenthesized h).ends_taking (by omega) (by omega) hi
  | inline => exact (affords_inline h).ends_taking (by omega) (by omega) hi
  | function fn =>
    obtain ⟨kind, hkind, hfn⟩ := Option.bind_eq_some_iff.1 hsuits
    exact (affords_function h hfn hkind).ends_taking (by omega) (by omega) hi
  | operand => exact (affords_operand h).ends_taking (by omega) (by omega) hi
  | comparison? => exact affords_comparison?.ends_taken (by omega) hi
  | condition => exact (affords_condition h).ends_taking (by omega) (by omega) hi
  | trigger? => exact (affords_trigger? h).ends_anyhow (by omega) hi
  | countOrDice count => exact (affords_countOrDice h count).ends_anyhow (by omega) hi
  | dice count => exact (affords_dice h count).ends_taking (by omega) (by omega) hi
  | dieSuffix spec => exact (affords_dieSuffix h spec).ends_taken (by omega) hi
  | dieSuffixes spec => exact (affords_dieSuffixes h spec).ends_anyhow (by omega) hi
  | selection =>
    rcases hsuits with hkind | hkind
    · exact (affords_selection h hkind).ends_taking (by omega) (by omega) hi
    · exact (affords_selection h hkind).ends_taking (by omega) (by omega) hi
  | matching =>
    rcases hsuits with hkind | hkind
    · exact (affords_matching h (.inl rfl) hkind).ends_taking (by omega) (by omega) hi
    · exact (affords_matching h (.inr rfl) hkind).ends_taking (by omega) (by omega) hi
  | group => exact (affords_group h).ends_taking (by omega) (by omega) hi
  | groupSuffix => exact (affords_groupSuffix h).ends_taken (by omega) hi

/-- **Reading goes on and comes to an end.** From every position of a text every rule ends as
it is parsed, and so does the whole text: within the text, past a token for each node and
modifier, after steps linear in the tokens taken, and with brackets no deeper than there are
tokens left. -/
theorem ends_rules (s : String) :
    (∀ {α : Type} (r : Rule α) (i depth depth' : Nat), i ≤ (tokenize s).length →
      r.Suits ((tokenize s)[i]?.map Token.kind) → (tokenize s).length ≤ i + depth →
      (tokenize s).length ≤ i + depth' →
      Ends s i r.least ((r.indexed (expression depth)).runAt s i 0)
        ((r.parser (Parser.expression depth')).run (place (tokenize s) s.utf8ByteSize i))) ∧
    ∀ depth, (tokenize s).length < depth → ∃ o,
      Ends s 0 (fun _ => 1) ((text depth).runAt s 0 0) o ∧ parse s = Prod.fst <$> o := by
  refine ⟨fun r i depth depth' hi hsuits hdepth hdepth' => ?_, fun depth hdepth => ?_⟩
  · exact ends_rule r (fun j hj hle => affords_expression (by omega) (by omega) hle) hsuits hi
  · obtain ⟨o, hsettles, hparse⟩ := exists_settles_text hdepth
    exact ⟨o, hsettles.ends (by omega) fun _ => ⟨Nat.le_refl 1, Nat.le_refl 1⟩, hparse⟩

/-- The keep of a group, and the text that it is in. -/
theorem ends_rules_selection :
    let s := "\x7b2d6,(3)\x7dkh1"
    (tokenize s).length = 12 ∧ (tokenize s)[9]?.map Token.kind = some .keep ∧
      Ends s 9 Rule.selection.least ((Rule.selection.indexed (expression 3)).runAt s 9 0)
        ((Rule.selection.parser (Parser.expression 12)).run
          (place (tokenize s) s.utf8ByteSize 9)) ∧
      ∃ o, Ends s 0 (fun _ => 1) ((text 13).runAt s 0 0) o ∧ parse s = Prod.fst <$> o := by
  intro s
  have hlength : (tokenize s).length = 12 := by decide +kernel
  have hkind : (tokenize s)[9]?.map Token.kind = some .keep := by decide +kernel
  obtain ⟨hrule, htext⟩ := ends_rules s
  exact ⟨hlength, hkind,
    hrule Rule.selection 9 3 12 (by omega) (.inl hkind) (by omega) (by omega), htext 13 (by omega)⟩

end Indexed

end DiceNotation
