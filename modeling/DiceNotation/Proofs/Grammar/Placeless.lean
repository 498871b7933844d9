import DiceNotation.Proofs.Grammar.Reading
import DiceNotation.Proofs.Token.Words

/-!
# Where blanks matter

Blanks decide which tokens touch, and nothing else of them matters. All that a
parser can come to see are the tokens' kinds and texts and which of them touch
(`Cursor.sights`); where the tokens stand it does not see. So two readings that
begin with the same sights go the same way to the end, and where one of them
refuses a token the other refuses the same one (`Parser.mirrors_expression`).
-/

namespace DiceNotation

open Cursor (place)

namespace Cursor

variable {c d : Cursor}

/-- The tokens of a list as a parser sees them, behind what ends at a byte. -/
def sightsFrom : (previous : Option Nat) → List Token → List Sight
  | _, [] => []
  | previous, t :: ts =>
    ⟨t.kind, t.text, some t.start == previous⟩ :: sightsFrom (some t.stop) ts

/-- All that a parser can come to see from here on. -/
def sights (c : Cursor) : List Sight := sightsFrom c.previous c.rest

theorem head?_sights (c : Cursor) : c.sights.head? = c.sight := by
  obtain ⟨previous, rest, finish⟩ := c
  cases rest <;> rfl

/-- Behind the next token a parser sees what it sees now without it. -/
theorem sights_advance (c : Cursor) : c.advance.sights = c.sights.tail := by
  obtain ⟨previous, rest, finish⟩ := c
  cases rest <;> rfl

theorem length_sightsFrom (previous : Option Nat) (ts : List Token) :
    (sightsFrom previous ts).length = ts.length := by
  induction ts generalizing previous with
  | nil => rfl
  | cons t ts ih => rw [sightsFrom, List.length_cons, ih, List.length_cons]

theorem sight_congr (h : c.sights = d.sights) : c.sight = d.sight := by
  rw [← head?_sights, ← head?_sights, h]

theorem length_rest_congr (h : c.sights = d.sights) : c.rest.length = d.rest.length := by
  rw [← length_sightsFrom c.previous, ← length_sightsFrom d.previous]
  exact congrArg List.length h

end Cursor

namespace Parser

variable {α β σ : Type} {ts : List Token} {finish i m : Nat} {c d : Cursor} {p q : Parser α}

/-! ## Readings without places -/

/-- Answers that differ in nothing but places. -/
inductive Alike : Except ParseError (α × Cursor) → Except ParseError (α × Cursor) → Prop
  | ok {a : α} {c d : Cursor} (h : c.sights = d.sights) : Alike (.ok (a, c)) (.ok (a, d))
  | error {e e' : ParseError} (hcause : e.cause = e'.cause) (hslice : e.slice = e'.slice) :
    Alike (.error e) (.error e')

/-- What is unexpected here is unexpected there, and it is the same token. -/
theorem alike_unexpected (expected : List Token.Kind) (h : c.sights = d.sights) :
    Alike ((unexpected expected : Parser α).run c) ((unexpected expected : Parser α).run d) := by
  change Alike (.error (c.unexpected expected)) (.error (d.unexpected expected))
  have hsight := Cursor.sight_congr h
  obtain ⟨previous, rest, finish⟩ := c
  obtain ⟨previous', rest', finish'⟩ := d
  cases rest with
  | nil =>
    cases rest' with
    | nil => exact .error rfl rfl
    | cons t' ts' => cases hsight
  | cons t ts =>
    cases rest' with
    | nil => cases hsight
    | cons t' ts' =>
      obtain ⟨hkind, htext, -⟩ := Sight.mk.inj (Option.some.inj hsight)
      dsimp only [Cursor.unexpected]
      rw [hkind]
      split
      · exact .error rfl htext
      · exact .error rfl htext

theorem alike_refuse (cause : ParseError.Cause) (h : c.sights = d.sights) :
    Alike ((refuse cause : Parser α).run c) ((refuse cause : Parser α).run d) := by
  have hsight := Cursor.sight_congr h
  obtain ⟨previous, rest, finish⟩ := c
  obtain ⟨previous', rest', finish'⟩ := d
  cases rest with
  | nil =>
    cases rest' with
    | nil => exact .error rfl rfl
    | cons t' ts' => cases hsight
  | cons t ts =>
    cases rest' with
    | nil => cases hsight
    | cons t' ts' => exact .error rfl (Sight.mk.inj (Option.some.inj hsight)).2.1

/-- What the first parser answers behind `i` tokens, the second one answers wherever it sees
the same. -/
def Mirrors (ts : List Token) (finish i : Nat) (p q : Parser α) : Prop :=
  i ≤ ts.length → ∀ d, (place ts finish i).sights = d.sights →
    Alike (p.run (place ts finish i)) (q.run d)

namespace Mirrors

theorem pure (a : α) : Mirrors ts finish i (pure a) (pure a) := fun _ _ h => .ok h

theorem skip : Mirrors ts finish i skip skip := by
  intro _ d h
  refine .ok ?_
  rw [Cursor.sights_advance, Cursor.sights_advance, h]

/-- The first parts end where the same is seen, so the second ones start there. -/
theorem bind {f g : α → Parser β} (hp : Mirrors ts finish i p q)
    (hf : Takes ts finish i p fun a j => Mirrors ts finish j (f a) (g a)) :
    Mirrors ts finish i (p >>= f) (q >>= g) := by
  intro hi d h
  rw [StateT.run_bind, StateT.run_bind]
  have hanswer := hp hi d h
  have hforward := hf hi
  revert hanswer hforward
  generalize p.run (place ts finish i) = answer
  generalize q.run d = answer'
  rintro (hsights | ⟨hcause, hslice⟩) hforward
  · obtain ⟨j, -, hj, rfl, hrest⟩ := hforward _ _ rfl
    exact hrest hj _ hsights
  · exact .error hcause hslice

/-- A look sees the same in both. -/
theorem look {f g : Option Sight → Parser α}
    (h : Mirrors ts finish i (f (place ts finish i).sight) (g (place ts finish i).sight)) :
    Mirrors ts finish i (Parser.look >>= f) (Parser.look >>= g) := by
  intro hi d hd
  rw [run_look_bind, run_look_bind, ← Cursor.sight_congr hd]
  exact h hi d hd

/-- Where nothing is to be taken, nothing is. -/
theorem glance {f g : Option Sight → Parser α} {z : α}
    (hf : f (place ts finish i).sight = Pure.pure z)
    (hg : g (place ts finish i).sight = Pure.pure z) :
    Mirrors ts finish i (Parser.look >>= f) (Parser.look >>= g) := by
  refine look ?_
  rw [hf, hg]
  exact pure z

/-- **Repetitions** take as many steps in the one reading as in the other. -/
theorem iterate {step step' : σ → Parser (Option σ)} {I : σ → Nat → Prop} {s : σ}
    (h : ∀ s j, i ≤ j → I s j → Mirrors ts finish j (step s) (step' s) ∧
      Takes ts finish j (step s) fun o k => o.elim (k = j) fun s' => j < k ∧ I s' k)
    (hs : I s i) : Mirrors ts finish i (iterate step s) (iterate step' s) := by
  have hgo (n : Nat) (s : σ) (j : Nat) (hij : i ≤ j) (hs : I s j) :
      Mirrors ts finish j (iterate.go step n s) (iterate.go step' n s) := by
    induction n generalizing s j with
    | zero => exact pure s
    | succ n ih =>
      refine bind (h s j hij hs).1 ((h s j hij hs).2.mono fun o k hjk ho => ?_)
      cases o with
      | none => exact pure s
      | some s' => exact ih s' k (Nat.le_trans hij hjk) ho.2
  intro hi d hd
  change Alike ((iterate.go step (place ts finish i).rest.length s).run _)
    ((iterate.go step' d.rest.length s).run d)
  rw [← Cursor.length_rest_congr hd]
  exact hgo _ s i (Nat.le_refl i) hs hi d hd

end Mirrors

/-- Readings that see the same from start to end. -/
def Coupling.mirroring : Coupling ts finish where
  toBeyond := .nothing
  Relates _ i p q := Mirrors ts finish i p q
  relates_pure := .pure
  relates_bind hp hf := hp.bind (hf.mono fun _ _ _ h => h.1)
  relates_skip _ := .skip
  relates_unexpected _ _ _ h := alike_unexpected _ h
  relates_refuse _ _ _ _ h := alike_refuse _ h
  relates_look h _ := h.look
  relates_glance hf hg _ _ := .glance hf hg
  relates_iterate h _ _ hs := .iterate h hs

/-- **Expressions** are read without regard to places. -/
theorem mirrors_expression {depth : Nat} (h : ts.length ≤ i + depth) :
    Mirrors ts finish i (expression depth) (expression depth) :=
  (Coupling.Keeps.expression (R := .mirroring) (m := 0) (fun _ _ => id) h).relates

end Parser

/-! ## Texts -/

/-- For each token but the last, whether the next one touches it. -/
def Token.touchings (ts : List Token) : List Bool :=
  List.zipWith (fun t u => t.stop == u.start) ts ts.tail

/-- Kinds, texts and touchings are all that is seen of tokens. -/
theorem Cursor.sightsFrom_congr {ts us : List Token} {previous previous' : Option Nat}
    (hwords : ts.map Token.word = us.map Token.word)
    (htouch : Token.touchings ts = Token.touchings us)
    (hhead : ∀ t ∈ ts.head?, ∀ u ∈ us.head?,
      (some t.start == previous) = (some u.start == previous')) :
    sightsFrom previous ts = sightsFrom previous' us := by
  induction ts generalizing us previous previous' with
  | nil =>
    obtain rfl := List.map_eq_nil_iff.1 hwords.symm
    rfl
  | cons t ts ih =>
    cases us with
    | nil => cases hwords
    | cons u us =>
      obtain ⟨hword, hwords⟩ := List.cons.inj hwords
      obtain ⟨hkind, htext⟩ := Prod.mk.inj hword
      have hrest : sightsFrom (some t.stop) ts = sightsFrom (some u.stop) us := by
        cases ts with
        | nil =>
          obtain rfl := List.map_eq_nil_iff.1 hwords.symm
          rfl
        | cons t' ts =>
          cases us with
          | nil => cases hwords
          | cons u' us =>
            obtain ⟨hnext, htouch⟩ := List.cons.inj htouch
            refine ih hwords htouch ?_
            simpa [eq_comm] using hnext
      rw [sightsFrom, sightsFrom, hkind, htext, hrest, hhead t rfl u rfl]

/-- What is left of the text changes the label of what was read, and no more. -/
theorem ReadsTo.exists_parse_eq {s : String} {form : Form Node} {label : Option String}
    {after : Cursor} (h : ReadsTo s (.term form label) after) :
    ∃ label', parse s = .ok (.term form label') ∧ (after.rest = [] → label' = label) := by
  rw [h.parse_eq]
  cases hrest : after.rest with
  | nil => exact ⟨label, rfl, fun _ => rfl⟩
  | cons t ts =>
    rw [List.head?_cons, Option.elim_some]
    cases label <;> exact ⟨_, rfl, nofun⟩

/-- **Blanks matter only where tokens touch.** Two texts that say the same, with
the same tokens touching, are both read, from as many tokens and as the same
tree, but for the label that tokens left over end up in; or both are refused,
for the same cause and the same piece of text. -/
theorem parse_placeless {s s' : String}
    (hwords : (tokenize s).map Token.word = (tokenize s').map Token.word)
    (htouch : Token.touchings (tokenize s) = Token.touchings (tokenize s')) :
    (∃ node after after' taken taken' form label label',
      ReadsTo s node after ∧ ReadsTo s' node after' ∧
      tokenize s = taken ++ after.rest ∧ tokenize s' = taken' ++ after'.rest ∧
      taken.length = taken'.length ∧
      parse s = .ok (.term form label) ∧ parse s' = .ok (.term form label') ∧
      (after.rest = [] → label = label')) ∨
    ∃ e e', parse s = .error e ∧ parse s' = .error e' ∧
      e.cause = e'.cause ∧ e.slice = e'.slice := by
  have hlength : (tokenize s).length = (tokenize s').length := by
    simpa using congrArg List.length hwords
  have hsights : (Cursor.start (tokenize s) s.utf8ByteSize).sights =
      (Cursor.start (tokenize s') s'.utf8ByteSize).sights :=
    Cursor.sightsFrom_congr hwords htouch fun _ _ _ _ => rfl
  have halike : Parser.Alike
      ((Parser.expression (tokenize s).length).run (.start (tokenize s) s.utf8ByteSize))
      ((Parser.expression (tokenize s).length).run (.start (tokenize s') s'.utf8ByteSize)) :=
    Parser.mirrors_expression (Nat.le_add_left _ 0) (Nat.zero_le _) _ hsights
  -- both texts have as many tokens, so they are read with the same depth
  generalize hread : (Parser.expression (tokenize s).length).run
    (.start (tokenize s) s.utf8ByteSize) = answer at halike
  generalize hread' : (Parser.expression (tokenize s).length).run
    (.start (tokenize s') s'.utf8ByteSize) = answer' at halike
  rw [hlength] at hread'
  cases halike with
  | @ok node after after' hrest =>
    have hread : ReadsTo s node after := hread
    have hread' : ReadsTo s' node after' := hread'
    obtain ⟨taken, htaken, -⟩ := Parser.read_taken hread
    obtain ⟨taken', htaken', -⟩ := Parser.read_taken hread'
    have hleft := Cursor.length_rest_congr hrest
    obtain ⟨form, label, rfl⟩ : ∃ form label, node = .term form label := by
      cases hread.grammatical with
      | term => exact ⟨_, _, rfl⟩
    obtain ⟨l, hparse, hl⟩ := hread.exists_parse_eq
    obtain ⟨l', hparse', hl'⟩ := hread'.exists_parse_eq
    refine .inl ⟨_, after, after', taken, taken', form, l, l', hread, hread', htaken, htaken', ?_,
      hparse, hparse', fun hnil => ?_⟩
    · have := congrArg List.length htaken
      have := congrArg List.length htaken'
      simp only [List.length_append] at *
      omega
    · rw [hnil, List.length_nil, eq_comm, List.length_eq_zero_iff] at hleft
      rw [hl hnil, hl' hleft]
  | error hcause hslice =>
    exact .inr ⟨_, _, parse_eq_error hread, parse_eq_error hread', hcause, hslice⟩

/-- Line ends and tabs around a sum, and in the words that are left over behind it. -/
theorem parse_placeless_leftover :
    let s := "2d6kh1 + 3 for fire"
    let s' := "\t2d6kh1\r\n+\t3  for\tfire "
    (tokenize s).map Token.word = (tokenize s').map Token.word ∧
      Token.touchings (tokenize s) = Token.touchings (tokenize s') ∧
      ((∃ node after after' taken taken' form label label',
        ReadsTo s node after ∧ ReadsTo s' node after' ∧
        tokenize s = taken ++ after.rest ∧ tokenize s' = taken' ++ after'.rest ∧
        taken.length = taken'.length ∧
        parse s = .ok (.term form label) ∧ parse s' = .ok (.term form label') ∧
        (after.rest = [] → label = label')) ∨
      ∃ e e', parse s = .error e ∧ parse s' = .error e' ∧
        e.cause = e'.cause ∧ e.slice = e'.slice) := by
  intro s s'
  have hwords : (tokenize s).map Token.word = (tokenize s').map Token.word := by decide +kernel
  have htouch : Token.touchings (tokenize s) = Token.touchings (tokenize s') := by decide +kernel
  exact ⟨hwords, htouch, parse_placeless hwords htouch⟩

end DiceNotation
