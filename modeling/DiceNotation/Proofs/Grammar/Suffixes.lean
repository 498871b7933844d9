import DiceNotation.Proofs.Grammar.Numerals
import DiceNotation.Proofs.Notation.Grammatical
import DiceNotation.Session

/-!
# Modifiers in any order

A modifier that is written with its operand is read alike wherever it stands among
others (`Parser.consumes_dieSuffix`): its operand ends where the next one begins. Tests
are collected apart from what keeps, drops and rolls again. So how the two are
interleaved is not to be seen in what was read, and changes no roll
(`parse_interleaved`).
-/

namespace DiceNotation

open Token (Kind digitsWord spell)

variable {us : List (Kind × String)}

/-! ## Suffixes -/

/-- What is written in front of the operand of a modifier: letters, maybe an end of the
ranking or a comparison sign. -/
inductive Lead where
  | select (action : Selection) (extreme : Option Extreme)
  | again (mechanic : Mechanic) (compare : Option Comparison)
  /-- Success has no letters, so it needs its comparison sign. -/
  | test (meaning : Test) (compare : Option Comparison)
    (written : meaning = .success → compare ≠ none)

/-- A numeral that can be read. -/
structure Literal extends Numeral where
  inRange : toNumeral.InRange

def Literal.node (l : Literal) : Node := .int l.toInt64

/-- One modifier with its operand. -/
structure Suffix where
  lead : Lead
  operand : Literal

def Selection.letter : Selection → String
  | .keep => "k"
  | .drop => "d"

def Mechanic.letters : Mechanic → String
  | .explode => "!"
  | .compound => "!!"
  | .penetrate => "!p"
  | .reroll => "r"
  | .rerollOnce => "ro"

def Test.letters : Test → String
  | .success => ""
  | .failure => "f"
  | .crit => "cs"
  | .critfail => "cf"

def Lead.text : Lead → String
  | select action extreme => action.letter ++ extreme.elim "" Extreme.symbol
  | again mechanic compare => mechanic.letters ++ compare.elim "" Comparison.symbol
  | test meaning compare _ => meaning.letters ++ compare.elim "" Comparison.symbol

/-- The modifier of an operand. Without a sign the target is to be met exactly. -/
def Lead.modifier (operand : Node) : Lead → Modifier Node
  | select action extreme => .select action extreme operand
  | again mechanic compare => .again mechanic (some ⟨compare.getD .equal, operand⟩)
  | test meaning compare _ => .test meaning ⟨compare.getD .equal, operand⟩

namespace Suffix

def text (s : Suffix) : String := s.lead.text ++ s.operand.text

def modifier (s : Suffix) : Modifier Node := s.lead.modifier s.operand.node

end Suffix

/-! ## Words -/

def Selection.kind : Selection → Kind
  | .keep => .keep
  | .drop => .d

def Extreme.kind : Extreme → Kind
  | .high => .high
  | .low => .low

def Comparison.kind : Comparison → Kind
  | .atLeast => .greater
  | .atMost => .less
  | .equal => .equal

def Mechanic.kind : Mechanic → Kind
  | .explode => .explode
  | .compound => .compound
  | .penetrate => .penetrate
  | .reroll => .reroll
  | .rerollOnce => .rerollOnce

def Test.kind? : Test → Option Kind
  | .success => none
  | .failure => some .failure
  | .crit => some .critSuccess
  | .critfail => some .critFailure

/-- The kind of a sign that may be left out. -/
def Token.signKind {α : Type} (kind : α → Kind) (sign : Option α) : List Kind :=
  (sign.map kind).toList

namespace Lead

open Token (signKind)

def kinds : Lead → List Kind
  | select action extreme => action.kind :: signKind Extreme.kind extreme
  | again mechanic compare => mechanic.kind :: signKind Comparison.kind compare
  | test meaning compare _ => meaning.kind?.toList ++ signKind Comparison.kind compare

/-- All kinds that leads are made of. -/
def allKinds : List Kind := [
  .keep, .d, .high, .low, .explode, .compound, .penetrate, .reroll, .rerollOnce, .failure,
  .critSuccess, .critFailure, .greater, .less, .equal]

/-- Words that go on neither into digits nor into a minus. -/
theorem allKinds_end : ∀ k ∈ allKinds, k.isWord ∧ k.word.2.toList.head? ≠ some '[' ∧
    Token.Ends k.word Kind.minus.word := by
  decide +kernel

def words (l : Lead) : List (Kind × String) := l.kinds.map Kind.word

/-- The words of a lead have its text, and none of them goes on into the next one. -/
theorem words_apart (l : Lead) : spell l.words = l.text ∧ l.kinds ≠ [] ∧
    l.words.IsChain Token.Ends ∧ l.kinds ⊆ allKinds := by
  rcases l with ⟨_ | _, _ | _ | _⟩ | ⟨_ | _ | _ | _ | _, _ | _ | _ | _⟩ |
    ⟨_ | _ | _ | _, _ | _ | _ | _, h⟩
  case test.success.none => exact absurd rfl (h rfl)
  all_goals
    refine ⟨rfl, ?_⟩
    rw [words, kinds]
    decide +kernel

end Lead

namespace Suffix

def words (s : Suffix) : List (Kind × String) := s.lead.words ++ s.operand.words

/-- The words of a suffix spell it. -/
theorem spell_words (s : Suffix) : spell s.words = s.text := by
  rw [words, Token.spell_append, s.lead.words_apart.1, Numeral.spell_words, text]

theorem words_ne_nil (s : Suffix) : s.words ≠ [] := by
  obtain ⟨-, hne, -⟩ := s.lead.words_apart
  simp [words, Lead.words, hne]

/-- A suffix begins with a letter or a sign. -/
theorem exists_head?_words (s : Suffix) : ∃ k : Kind, k.isWord ∧ s.words.head? = some k.word := by
  obtain ⟨-, hne, -, hkinds⟩ := s.lead.words_apart
  obtain ⟨k, ks, hks⟩ := List.exists_cons_of_ne_nil hne
  refine ⟨k, (Lead.allKinds_end k (hkinds ?_)).1, by simp [words, Lead.words, hks]⟩
  rw [hks]
  exact List.mem_cons_self

/-- It ends with digits. -/
theorem getLast?_words (s : Suffix) : s.words.getLast? = some (digitsWord s.operand.digits) := by
  rw [words, Numeral.words]
  split <;> simp

/-- Its words do not grow together where they stand side by side. -/
theorem apart_words (s : Suffix) : Token.Apart s.words := by
  obtain ⟨-, -, hchain, hkinds⟩ := s.lead.words_apart
  have hwords : ∀ w ∈ s.lead.words, ∃ k ∈ Lead.allKinds, w = k.word := by
    intro w hw
    obtain ⟨k, hk, rfl⟩ := List.mem_map.1 hw
    exact ⟨k, hkinds hk, rfl⟩
  refine .append ⟨fun w hw => ?_, hchain⟩ s.operand.apart_words fun w hw w' hw' => ?_
  · obtain ⟨k, hk, rfl⟩ := hwords w hw
    exact Token.stands_word (Lead.allKinds_end k hk).1
  · obtain ⟨k, hk, rfl⟩ := hwords w (List.mem_of_mem_getLast? hw)
    obtain ⟨hword, hbracket, hminus⟩ := Lead.allKinds_end k hk
    rw [Numeral.words] at hw'
    split at hw'
    · cases hw'
      exact hminus
    · cases hw'
      exact Token.ends_word_digits hword hbracket _

/-- Behind digits, suffixes go on as words of their own. -/
theorem apart_flatMap_words {ds : Digits} {ws : List (Kind × String)} (h : Token.Apart ws)
    (hws : ws.getLast? = some (digitsWord ds)) (ss : List Suffix) :
    Token.Apart (ws ++ ss.flatMap words) := by
  induction ss generalizing ds ws with
  | nil => simpa using h
  | cons s ss ih =>
    rw [List.flatMap_cons, ← List.append_assoc]
    refine ih (h.append s.apart_words fun w hw w' hw' => ?_)
      ((List.getLast?_append_of_ne_nil _ s.words_ne_nil).trans s.getLast?_words)
    rw [hws] at hw
    obtain rfl := Option.some.inj hw
    obtain ⟨k, hk, hhead⟩ := s.exists_head?_words
    rw [hhead] at hw'
    obtain rfl := Option.some.inj hw'
    exact Token.ends_digits_word ds hk

end Suffix

/-! ## Reading suffixes -/

namespace Parser

variable {nested : Parser Node} {ω : Type} {l : Literal}

open Token (signKind)

/-- A literal is an operand where it touches what is before it. -/
theorem consumes_operand (l : Literal) : (operand nested).Consumes l.words us l.node := by
  have hnumber : number.Consumes l.words us l.node := consumes_number l.inRange
  obtain ⟨⟨_ | _, ds⟩, h⟩ := l
  · exact .touching hnumber
  · exact .touching hnumber

theorem consumes_operand? (l : Literal) : (operand? nested).Consumes l.words us (some l.node) := by
  have hoperand : (operand nested).Consumes l.words us l.node := consumes_operand l
  obtain ⟨⟨_ | _, ds⟩, h⟩ := l
  · exact .touching hoperand.map
  · exact .touching hoperand.map

/-- The sign that a table has for a touching token, if it has one. -/
def sign? (table : Kind → Option ω) : Parser (Option ω) := do
  match (← touching).bind table with
  | some x =>
    skip
    return some x
  | none => return none

/-- Comparison signs and highest or lowest are read alike. -/
theorem comparison?_eq : comparison? = sign? comparisonOf? := by
  unfold comparison? sign?
  congr 1
  funext o
  cases o.bind comparisonOf? <;> rfl

theorem extreme?_eq : extreme? = sign? extremeOf? := by
  unfold extreme? sign?
  congr 1
  funext o
  cases o.bind extremeOf? <;> rfl

/-- A sign in front of an operand, or none. -/
theorem consumes_sign? {table : Kind → Option ω} {kind : ω → Kind}
    (htable : ∀ x, (kind x).word = (kind x, (kind x).word.2) ∧ table (kind x) = some x)
    (hinteger : table .integer = none) (hminus : table .minus = none) (sign : Option ω)
    (l : Literal) :
    (sign? table).Consumes ((signKind kind sign).map Kind.word) (l.words ++ us) sign := by
  unfold sign?
  cases sign with
  | some x =>
    obtain ⟨hword, hx⟩ := htable x
    rw [signKind, Option.map_some, Option.toList_some, List.map_singleton, hword]
    refine .touching ?_
    rw [Option.bind_some, hx]
    exact .skip .pure
  | none =>
    -- the operand is seen instead, and begins with no sign
    rw [Numeral.words]
    split
    · refine .touching_ahead ?_
      rw [Option.bind_some, hminus]
      exact .pure
    · refine .touching_ahead ?_
      rw [Option.bind_some, hinteger]
      exact .pure

/-- A sign that is there is taken, and without one the literal comes next. -/
theorem consumes_comparison? (compare : Option Comparison) (l : Literal) :
    comparison?.Consumes ((signKind Comparison.kind compare).map Kind.word) (l.words ++ us)
      compare := by
  have htable (x : Comparison) :
      x.kind.word = (x.kind, x.kind.word.2) ∧ comparisonOf? x.kind = some x := by
    cases x <;> exact ⟨rfl, rfl⟩
  rw [comparison?_eq]
  exact consumes_sign? htable rfl rfl compare l

theorem consumes_extreme? (extreme : Option Extreme) (l : Literal) :
    extreme?.Consumes ((signKind Extreme.kind extreme).map Kind.word) (l.words ++ us) extreme := by
  have htable (x : Extreme) :
      x.kind.word = (x.kind, x.kind.word.2) ∧ extremeOf? x.kind = some x := by
    cases x <;> exact ⟨rfl, rfl⟩
  rw [extreme?_eq]
  exact consumes_sign? htable rfl rfl extreme l

theorem consumes_condition (compare : Option Comparison) (l : Literal) :
    (condition nested).Consumes ((signKind Comparison.kind compare).map Kind.word ++ l.words) us
      ⟨compare.getD .equal, l.node⟩ :=
  (consumes_comparison? compare l).bind ((consumes_operand l).andThen .pure)

theorem consumes_trigger? (compare : Option Comparison) (l : Literal) :
    (trigger? nested).Consumes ((signKind Comparison.kind compare).map Kind.word ++ l.words) us
      (some ⟨compare.getD .equal, l.node⟩) := by
  refine (consumes_comparison? compare l).bind ?_
  cases compare with
  | some compare => exact (consumes_operand l).andThen .pure
  | none => exact (consumes_operand? l).andThen .pure

/-- What is selected is said by highest or lowest, if it is there, and by how many. -/
theorem consumes_selected (action : Selection) (extreme : Option Extreme) (l : Literal) :
    (selected nested action).Consumes ((signKind Extreme.kind extreme).map Kind.word ++ l.words) us
      (.select action extreme l.node) :=
  (consumes_extreme? extreme l).bind ((consumes_operand? l).andThen .pure)

theorem consumes_selection (action : Selection) (extreme : Option Extreme) (l : Literal) :
    (selection nested).Consumes
      (action.kind.word :: ((signKind Extreme.kind extreme).map Kind.word ++ l.words)) us
      (.select action extreme l.node) := by
  rw [selection_eq]
  cases action with
  | keep => exact .peek (.skip (consumes_selected .keep extreme l))
  | drop => exact .peek (.skip (consumes_selected .drop extreme l))

end Parser

/-! ## Dice -/

/-- One more modifier in its place. -/
def DieSpec.push {ε : Type} (spec : DieSpec ε) (m : Modifier ε) : DieSpec ε :=
  if m.isTest then { spec with targets := spec.targets ++ [m] }
  else { spec with mods := spec.mods ++ [m] }

/-- Modifiers that are pushed one after the other stand in two lists, each in the order of
the text. -/
theorem DieSpec.foldl_push {ε : Type} {ms : List (Modifier ε)} (h : ∀ m ∈ ms, m.isKnown)
    (spec : DieSpec ε) :
    ms.foldl push spec = { spec with
      mods := spec.mods ++ ms.filter Modifier.isMechanical
      targets := spec.targets ++ ms.filter Modifier.isTest } := by
  induction ms generalizing spec with
  | nil => simp
  | cons m ms ih =>
    rw [List.forall_mem_cons] at h
    rw [List.foldl_cons, ih h.2]
    cases m with
    | unsupported => cases h.1
    | select => simp [push, List.filter_cons, Modifier.isMechanical, Modifier.isTest]
    | test => simp [push, List.filter_cons, Modifier.isMechanical, Modifier.isTest]
    | again => simp [push, List.filter_cons, Modifier.isMechanical, Modifier.isTest]

namespace Parser

variable {nested : Parser Node}

/-- **A suffix is read for itself**, whatever stands behind it. -/
theorem consumes_dieSuffix (spec : DieSpec Node) (s : Suffix) :
    (dieSuffix nested spec).Consumes s.words us (some (spec.push s.modifier)) := by
  obtain ⟨lead, operand⟩ := s
  cases lead with
  | select action extreme =>
    have h : (selection nested).Consumes _ us _ := consumes_selection action extreme operand
    cases action with
    | keep => exact .touching (h.andThen .pure)
    | drop => exact .touching (h.andThen .pure)
  | again mechanic compare =>
    have h : (trigger? nested).Consumes _ us _ := consumes_trigger? compare operand
    cases mechanic with
    | explode => exact .touching (.skip (h.andThen .pure))
    | compound => exact .touching (.skip (h.andThen .pure))
    | penetrate => exact .touching (.skip (h.andThen .pure))
    | reroll => exact .touching (.skip (h.andThen .pure))
    | rerollOnce => exact .touching (.skip (h.andThen .pure))
  | test meaning compare written =>
    have h : (condition nested).Consumes _ us _ := consumes_condition compare operand
    cases meaning with
    | failure => exact .touching (.skip (h.andThen .pure))
    | crit => exact .touching (.skip (h.andThen .pure))
    | critfail => exact .touching (.skip (h.andThen .pure))
    -- a test for success is told by its comparison, which has to be written
    | success =>
      obtain ⟨compare, rfl⟩ := Option.ne_none_iff_exists'.1 (written rfl)
      cases compare with
      | atLeast => exact .touching (h.andThen .pure)
      | atMost => exact .touching (h.andThen .pure)
      | equal => exact .touching (h.andThen .pure)

/-- Suffixes are taken one after the other, and each is pushed to what is there already. -/
theorem consumes_suffixes (ss : List Suffix) (spec : DieSpec Node) :
    (iterate (dieSuffix nested) spec).Consumes (ss.flatMap Suffix.words) []
      (ss.foldl (fun spec s => spec.push s.modifier) spec) :=
  .iterate (declines_dieSuffix nested) (fun spec s _ => consumes_dieSuffix spec s)
    Suffix.words_ne_nil ss spec

end Parser

/-- Dice as they are written: digits, `d`, digits, and suffixes. -/
structure DiceText where
  count : Digits
  sides : Digits
  suffixes : List Suffix

namespace DiceText

def text (t : DiceText) : String :=
  t.count.text ++ "d" ++ t.sides.text ++ String.join (t.suffixes.map Suffix.text)

/-- The modifiers in written order. -/
def modifiers (t : DiceText) : List (Modifier Node) := t.suffixes.map Suffix.modifier

/-- What the text says: the tests on one side, all else on the other. -/
def spec (t : DiceText) : DieSpec Node where
  sides := .numeric (.int (Int64.ofNat t.sides.value))
  count := .int (Int64.ofNat t.count.value)
  mods := t.modifiers.filter Modifier.isMechanical
  targets := t.modifiers.filter Modifier.isTest

def words (t : DiceText) : List (Kind × String) :=
  [digitsWord t.count, Kind.d.word, digitsWord t.sides] ++ t.suffixes.flatMap Suffix.words

/-- The words of dice with their suffixes spell the text. -/
theorem spell_words (t : DiceText) : spell t.words = t.text := by
  have hsuffixes (ss : List Suffix) :
      spell (ss.flatMap Suffix.words) = String.join (ss.map Suffix.text) := by
    induction ss with
    | nil => rfl
    | cons s ss ih => simp [Suffix.spell_words, ih]
  rw [words, Token.spell_append, hsuffixes, text]
  simp [digitsWord, Kind.word, Kind.pattern?, String.append_assoc]

/-- No suffix grows together with what is before it. -/
theorem apart_words (t : DiceText) : Token.Apart t.words := by
  refine Suffix.apart_flatMap_words ⟨?_, ?_⟩ rfl t.suffixes
  · simp [Token.stands_word (k := .d) rfl, Token.stands_digits]
  · exact .cons_cons (Token.ends_digits_word _ rfl)
      (.cons_cons (Token.ends_word_digits rfl (by decide +kernel) _) (.singleton _))

/-- Pushed to plain dice, the suffixes make the specification. -/
theorem foldl_push (t : DiceText) :
    t.suffixes.foldl (fun spec s => spec.push s.modifier)
      { sides := t.spec.sides, count := t.spec.count } = t.spec := by
  rw [← List.foldl_map, DieSpec.foldl_push]
  · rfl
  · rintro _ hm
    obtain ⟨⟨lead, operand⟩, -, rfl⟩ := List.mem_map.1 hm
    cases lead <;> rfl

/-- **Dice are read to the end of their text**, their tests apart from their other
modifiers. -/
theorem reads (t : DiceText) (hcount : t.count.InRange) (hsides : t.sides.InRange) :
    Reads t.text (.term (.die t.spec) none) := by
  rw [← t.spell_words]
  refine .of_consumes t.apart_words fun nested => ?_
  have hnumber {ds : Digits} {us : List (Kind × String)} (h : ds.InRange) :
      Parser.number.Consumes [digitsWord ds] us (.int (Int64.ofNat ds.value)) :=
    Parser.consumes_number (n := ⟨false, ds⟩) h
  have hsuffixes : (Parser.iterate (Parser.dieSuffix nested)
      { sides := t.spec.sides, count := t.spec.count }).Consumes
        (t.suffixes.flatMap Suffix.words) [] t.spec := by
    have h : (Parser.iterate (Parser.dieSuffix nested) _).Consumes _ [] _ :=
      Parser.consumes_suffixes t.suffixes { sides := t.spec.sides, count := t.spec.count }
    rwa [t.foldl_push] at h
  refine .peek ((hnumber hcount).bind (.touching ?_))
  have hfaces : (Parser.sides nested).Consumes [digitsWord t.sides]
      (t.suffixes.flatMap Suffix.words ++ []) t.spec.sides :=
    .touching ((hnumber hsides).andThen .pure)
  exact .expect (hfaces.bind (hsuffixes.andThen .pure))

end DiceText

/-- **Tests and other modifiers may be interleaved.** Dice with suffixes are read to the
end of their text: what keeps, drops and rolls again is there in written order, and so
are the tests, each with its operand. Another text of so many dice with so many sides
and the same two lists is the same expression, and is rolled alike. -/
theorem parse_interleaved (t : DiceText) (hcount : t.count.InRange) (hsides : t.sides.InRange) :
    Reads t.text (.term (.die t.spec) none) ∧ parse t.text = .ok (.term (.die t.spec) none) ∧
    ∀ t' : DiceText, t'.count.value = t.count.value → t'.sides.value = t.sides.value →
      t'.modifiers.filter Modifier.isMechanical = t.modifiers.filter Modifier.isMechanical →
      t'.modifiers.filter Modifier.isTest = t.modifiers.filter Modifier.isTest →
      parse t'.text = parse t.text ∧
        ∀ session : Session, session.roll t'.text = session.roll t.text := by
  have hreads := t.reads hcount hsides
  refine ⟨hreads, hreads.parse_eq, fun t' hcount' hsides' hmods htargets => ?_⟩
  have hspec : t'.spec = t.spec := by
    unfold DiceText.spec
    rw [hcount', hsides', hmods, htargets]
  have hparse : parse t'.text = parse t.text := by
    have hreads' := t'.reads (by rwa [Digits.InRange, hcount']) (by rwa [Digits.InRange, hsides'])
    rw [hreads'.parse_eq, hreads.parse_eq, hspec]
  refine ⟨hparse, fun session => ?_⟩
  rw [Session.roll, Session.roll, hparse]

/-- The tests first, or where they stand between other modifiers. -/
theorem parse_interleaved_tests_first :
    parse "4d6>4cs6kh3!>5" = parse "4d6kh3>4!>5cs6" ∧
      ∀ session : Session, session.roll "4d6>4cs6kh3!>5" = session.roll "4d6kh3>4!>5cs6" := by
  let literal (n : Fin 10) : Literal := ⟨⟨false, .ofNat n⟩, by
    rw [Numeral.InRange, Digits.InRange, Digits.value_ofNat, Number.highest]
    omega⟩
  let highest : Suffix := ⟨.select .keep (some .high), literal 3⟩
  let success : Suffix := ⟨.test .success (some .atLeast) nofun, literal 4⟩
  let explosion : Suffix := ⟨.again .explode (some .atLeast), literal 5⟩
  let crit : Suffix := ⟨.test .crit none nofun, literal 6⟩
  let mixed : DiceText := ⟨.ofNat 4, .ofNat 6, [highest, success, explosion, crit]⟩
  let sorted : DiceText := ⟨.ofNat 4, .ofNat 6, [success, crit, highest, explosion]⟩
  have hmixed : mixed.text = "4d6kh3>4!>5cs6" := by decide +kernel
  have hsorted : sorted.text = "4d6>4cs6kh3!>5" := by decide +kernel
  rw [← hmixed, ← hsorted]
  have hinterleaved := parse_interleaved mixed (by decide +kernel) (by decide +kernel)
  refine hinterleaved.2.2 sorted rfl rfl ?_ ?_
  · simp [DiceText.modifiers, sorted, mixed, List.filter_cons, Suffix.modifier, Lead.modifier,
      Modifier.isMechanical, highest, success, explosion, crit]
  · simp [DiceText.modifiers, sorted, mixed, List.filter_cons, Suffix.modifier, Lead.modifier,
      Modifier.isTest, highest, success, explosion, crit]

end DiceNotation
