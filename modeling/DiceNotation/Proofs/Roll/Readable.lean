import DiceNotation.Proofs.Grammar.Trailing
import DiceNotation.Proofs.Grammar.Understood
import DiceNotation.Proofs.Grammar.Writable
import DiceNotation.Proofs.Roll.Labels
import DiceNotation.Proofs.Roll.Layers
import DiceNotation.Proofs.Roll.Steps
import DiceNotation.Roll.Render

/-!
# Results of arithmetic as texts

The simple text of the result of an arithmetic expression is a text of the same
expression, up to labels and double brackets (`Node.readable_roll`). So it can
be read and rolled again, for the same value (`Session.rollValue_text`).

The renderer puts parentheses around every chain within a chain, so all that
the levels of the grammar have to tell apart are chains and single terms.
-/

namespace DiceNotation

open Counted
open DiceNotation.Parser (Level Writes WritesLinks WritesMembers)
open Token (Kind Opens Spells braces integerWords labelWord opens_gap opens_of_next opens_spaced
  parens spells_braces spells_integer spells_label spells_parens spells_word)

/-! ## The text of a simple result -/

namespace Result

/-- The simple text of a result, without its label. -/
def body (r : Result) : String := bodyWithin .simple false r.value r.shape

/-- A simple result is its body with its label. -/
theorem textWithin_simple (r : Result) :
    r.textWithin .simple false = Style.withLabel r.outcome.label r.body := by
  cases r
  rw [textWithin]
  rfl

theorem operandsWithin_eq (style : Style) (struck : Bool) (terms : List Result) :
    operandsWithin style struck terms =
      terms.map fun term => Style.enclose term.isChain (textWithin style struck term) := by
  induction terms with
  | nil => rw [operandsWithin, List.map_nil]
  | cons term terms ih => rw [operandsWithin, ih, List.map_cons]

theorem textsWithin_eq (style : Style) (struck : Bool) (members : List Result) :
    textsWithin style struck members = members.map (textWithin style struck) := by
  induction members with
  | nil => rw [textsWithin, List.map_nil]
  | cons member members ih => rw [textsWithin, ih, List.map_cons]

variable {r r' : Result} {n : Node} {ws : List (Kind × String)}

/-! ## Readable results -/

/-- The words are a whole expression, or a single term if the result is no
chain. -/
def WritesAs (r : Result) (ws : List (Kind × String)) (n : Node) : Prop :=
  if r.isChain then Writes .sum ws n else Writes .term ws n

/-- The simple text of the result is read as an expression with these forms. -/
structure Readable (r : Result) (n : Node) : Prop where
  label : ∀ l ∈ r.outcome.label, Text.IsLabel l
  body : ∃ ws, Spells r.body.toList ws ∧ r.WritesAs ws n

namespace WritesAs

/-- Whatever a result writes is an expression. -/
theorem sum (h : r.WritesAs ws n) : Writes .sum ws n := by
  unfold WritesAs at h
  split at h
  · exact h
  · exact h.power.product.sum

/-- With a label it says the label's words too. -/
theorem withLabel (h : r.WritesAs ws n) (label : String) :
    r.WritesAs (ws ++ [labelWord label]) n := by
  unfold WritesAs at h ⊢
  split at h
  · next hchain =>
    rw [if_pos hchain]
    exact h.label label
  · next hchain =>
    rw [if_neg hchain]
    exact h.label label

end WritesAs

namespace Readable

/-- Only the shape, the value and the label matter. -/
theorem congr (h : r.Readable n) (hshape : r'.shape = r.shape) (hvalue : r'.value = r.value)
    (hlabel : ∀ l ∈ r'.outcome.label, Text.IsLabel l) : r'.Readable n := by
  obtain ⟨-, ws, hws, hwrites⟩ := h
  have hchain : r'.isChain = r.isChain := by
    obtain ⟨_, shape⟩ := r
    obtain ⟨_, shape'⟩ := r'
    obtain rfl : shape' = shape := hshape
    cases shape' <;> rfl
  refine ⟨hlabel, ws, ?_, ?_⟩
  · rwa [Result.body, hshape, hvalue]
  · rwa [WritesAs, hchain]

/-- A result reads the same in any order. -/
theorem setOrder (h : r.Readable n) (order : Nat) : (Counted.setOrder order r).Readable n :=
  h.congr (shape_setOrder r order) (value_setOrder r order) (by simpa using h.label)

/-- A label can be put on what is readable. -/
theorem relabel (h : r.Readable n) {label : Option String} (hlabel : ∀ l ∈ label, Text.IsLabel l) :
    (r.relabel label).Readable n := by
  cases label with
  | none => exact h
  | some label =>
    refine h.congr (shape_setOutcome ..) (value_relabel (some label) r) ?_
    rw [Result.relabel, setLabel, counted_setOutcome, outcome_setOutcome]
    exact hlabel

/-- The text with the label. -/
theorem exists_words (h : r.Readable n) :
    ∃ ws, Spells (r.textWithin .simple false).toList ws ∧ r.WritesAs ws n := by
  obtain ⟨hlabel, ws, hws, hwrites⟩ := h
  rw [textWithin_simple]
  cases hl : r.outcome.label with
  | none => exact ⟨ws, hws, hwrites⟩
  | some label =>
    refine ⟨ws ++ [labelWord label], ?_, hwrites.withLabel label⟩
    have htext : (Style.withLabel (some label) r.body).toList =
        r.body.toList ++ (" [" ++ label ++ "]").toList := by
      simp [Style.withLabel]
    rw [htext]
    exact hws.append (spells_label (hlabel label hl)) (by simp; decide +kernel)

/-- The text as it stands between operators. -/
theorem exists_operand (h : r.Readable n) :
    ∃ ws, Spells (Style.enclose r.isChain (r.textWithin .simple false)).toList ws ∧
      Writes .term ws n := by
  obtain ⟨ws, hws, hwrites⟩ := h.exists_words
  unfold WritesAs at hwrites
  unfold Style.enclose
  split at hwrites
  · next hchain =>
    rw [if_pos hchain, String.toList_append, String.toList_append]
    exact ⟨parens ws, spells_parens hws, hwrites.inParens⟩
  · next hchain =>
    rw [if_neg hchain]
    exact ⟨ws, hws, hwrites⟩

/-! ## Layers -/

/-- Integers read as themselves, except for the least one. -/
theorem int {i : Int64} (h : (i.toInt.natAbs : Int) ≤ Number.highest) :
    (Result.number (.int i)).Readable (.int i) := by
  refine ⟨nofun, integerWords i, ?_, Parser.writes_integer h⟩
  rw [Result.body, Result.number, shape, bodyWithin]
  exact spells_integer i

/-- Each function is written as its token. -/
theorem exists_kind_of_numFn (fn : NumFn) :
    ∃ k, Parser.functionOf? k = some fn ∧ Spells fn.symbol.toList [(k, fn.symbol)] := by
  cases fn with
  | floor => exact ⟨.floor, rfl, spells_word (by decide +kernel)⟩
  | ceil => exact ⟨.ceil, rfl, spells_word (by decide +kernel)⟩
  | round => exact ⟨.round, rfl, spells_word (by decide +kernel)⟩
  | abs => exact ⟨.abs, rfl, spells_word (by decide +kernel)⟩

/-- A function of what is readable is readable. -/
theorem function (fn : NumFn) (h : r.Readable n) :
    (Result.function fn r).Readable (.function fn n) := by
  obtain ⟨ws, hws, hwrites⟩ := h.exists_words
  obtain ⟨k, hk, hsymbol⟩ := exists_kind_of_numFn fn
  refine ⟨nofun, (k, fn.symbol) :: parens ws, ?_, hwrites.sum.call hk⟩
  have htext : (Result.function fn r).body.toList =
      fn.symbol.toList ++ ("(".toList ++ (r.textWithin .simple false).toList ++ ")".toList) := by
    rw [Result.body, Result.function, shape, bodyWithin]
    simp
  rw [htext]
  exact hsymbol.append (spells_parens hws) (by simp; decide +kernel)

/-- Members behind the first one. -/
theorem exists_members {ns : List Node} {members : List Result}
    (h : List.Forall₂ (fun n r => Readable r n) ns members) :
    ∃ ws, WritesMembers ws ns ∧ ∀ (text : String) (us : List (Kind × String)),
      Spells text.toList us →
        Spells (", ".intercalate (text :: members.map (textWithin .simple false))).toList
          (us ++ ws) := by
  induction h with
  | nil =>
    refine ⟨[], .nil, fun text us hus => ?_⟩
    rwa [List.map_nil, String.intercalate_singleton, List.append_nil]
  | @cons n r ns members hr hmembers ih =>
    obtain ⟨ws, hws, hwrites⟩ := hr.exists_words
    obtain ⟨ws', hmembers, hspells⟩ := ih
    refine ⟨(.comma, ",") :: ws ++ ws', .cons hwrites.sum hmembers, fun text us hus => ?_⟩
    have hcomma : Opens ([','] ++ [' ']) [(.comma, ",")] :=
      (opens_of_next (fun _ => rfl) (by decide)).append (opens_gap rfl)
    rw [List.map_cons, String.intercalate_cons_cons, String.toList_append, String.toList_append,
      List.append_assoc]
    exact hus.append (hcomma.andSpells (hspells _ _ hws)) (by simp; decide +kernel)

/-- A group of what is readable is readable. -/
theorem group {ns : List Node} {members : List Result} (hr : r.Readable n)
    (h : List.Forall₂ (fun n r => Readable r n) ns members) :
    (Result.group (r :: members)).Readable (.term (.group n ns []) none) := by
  obtain ⟨ws, hws, hwrites⟩ := hr.exists_words
  obtain ⟨ws', hmembers, hspells⟩ := exists_members h
  refine ⟨nofun, braces (ws ++ ws'), ?_, hwrites.sum.inBraces hmembers⟩
  have htext : (Result.group (r :: members)).body.toList = "\x7b".toList ++
      (", ".intercalate (r.textWithin .simple false ::
        members.map (textWithin .simple false))).toList ++ "\x7d".toList := by
    rw [Result.body, Result.group, shape, bodyWithin, textsWithin_eq]
    simp
  rw [htext]
  exact spells_braces (hspells _ _ hws)

theorem exists_kind_of_sumOp (op : SumOp) :
    ∃ k, Parser.sumOpOf? k = some op ∧ Spells op.symbol.toList [(k, op.symbol)] := by
  cases op with
  | add => exact ⟨.plus, rfl, spells_word (by decide +kernel)⟩
  | sub => exact ⟨.minus, rfl, spells_word (by decide +kernel)⟩

theorem exists_kind_of_factor {op : ArithOp} (h : op = .mul ∨ op = .div ∨ op = .rem) :
    ∃ k, Parser.factorOpOf? k = some op ∧ Spells op.symbol.toList [(k, op.symbol)] := by
  rcases h with rfl | rfl | rfl
  · exact ⟨.star, rfl, spells_word (by decide +kernel)⟩
  · exact ⟨.slash, rfl, spells_word (by decide +kernel)⟩
  · exact ⟨.percent, rfl, spells_word (by decide +kernel)⟩

theorem exists_kind_of_power {op : ArithOp} (h : op = .pow) :
    ∃ k, Parser.powerOpOf? k = some op ∧ Spells op.symbol.toList [(k, op.symbol)] := by
  subst h
  exact ⟨.starStar, rfl, spells_word (by decide +kernel)⟩

/-- Terms behind the first one, each with its operator. -/
theorem exists_links {ω : Type} {level : Level} (opOf? : Kind → Option ω) (symbol : ω → String)
    {links : List (Link ω Node)} {terms : List Result}
    (hlevel : ∀ ws n, Writes .term ws n → Writes level ws n)
    (hops : ∀ l ∈ links, ∃ k, opOf? k = some l.op ∧
      Spells (symbol l.op).toList [(k, symbol l.op)])
    (h : List.Forall₂ (fun (l : Link ω Node) r => Readable r l.term) links terms) :
    ∃ ws, WritesLinks opOf? level ws links ∧ ∀ (text : String) (us : List (Kind × String)),
      Spells text.toList us →
        Spells (Style.interleave
          (text :: terms.map fun r => Style.enclose r.isChain (r.textWithin .simple false))
          (links.map fun l => symbol l.op)).toList (us ++ ws) := by
  induction h with
  | nil =>
    refine ⟨[], .nil, fun text us hus => ?_⟩
    rwa [List.append_nil]
  | @cons link r links terms hr _ ih =>
    obtain ⟨ws, hws, hwrites⟩ := hr.exists_operand
    rw [List.forall_mem_cons] at hops
    obtain ⟨k, hk, hsymbol⟩ := hops.1
    obtain ⟨ws', hlinks, hspells⟩ := ih hops.2
    refine ⟨(k, symbol link.op) :: ws ++ ws', .cons hk (hlevel _ _ hwrites) hlinks,
      fun text us hus => ?_⟩
    have hterm := hus.append ((opens_spaced hsymbol).andSpells hws) (by simp; decide +kernel)
    have h := hspells (text ++ " " ++ symbol link.op ++ " " ++
      Style.enclose r.isChain (r.textWithin .simple false)) _ (by simpa using hterm)
    simpa [Style.interleave] using h

/-- A sum of what is readable is readable. -/
theorem sum {links : List (Link SumOp Node)} {terms : List Result} (value : Number)
    (hr : r.Readable n) (h : List.Forall₂ (fun (l : Link SumOp Node) r => Readable r l.term)
      links terms) :
    (Result.sum value (r :: terms) (links.map Link.op)).Readable (Node.sum n links) := by
  obtain ⟨ws, hws, hwrites⟩ := hr.exists_operand
  obtain ⟨ws', hlinks, hspells⟩ := exists_links Parser.sumOpOf? SumOp.symbol
    (fun _ _ h => h.power.product) (fun l _ => exists_kind_of_sumOp l.op) h
  refine ⟨nofun, ws ++ ws', ?_, hwrites.power.product.sums hlinks⟩
  have htext := hspells _ _ hws
  rw [Result.body, Result.sum, shape, bodyWithin, operandsWithin_eq, List.map_map]
  exact htext

/-- A chain of what is readable is readable if its operators are of one level. -/
theorem chain {links : List (Link ArithOp Node)} {terms : List Result} (value : Number)
    (hops : UniformOps (links.map Link.op)) (hr : r.Readable n)
    (h : List.Forall₂ (fun (l : Link ArithOp Node) r => Readable r l.term) links terms) :
    (Result.chain value (r :: terms) (links.map Link.op)).Readable (Node.chain n links) := by
  obtain ⟨ws, hws, hwrites⟩ := hr.exists_operand
  have hreadable {ws' : List (Kind × String)} (hspells : Spells (Style.interleave
        (Style.enclose r.isChain (r.textWithin .simple false) ::
          terms.map fun r => Style.enclose r.isChain (r.textWithin .simple false))
        (links.map fun l => l.op.symbol)).toList (ws ++ ws'))
      (hwrites : Writes .sum (ws ++ ws') (Node.chain n links)) :
      (Result.chain value (r :: terms) (links.map Link.op)).Readable (Node.chain n links) := by
    refine ⟨nofun, ws ++ ws', ?_, hwrites⟩
    rw [Result.body, Result.chain, shape, bodyWithin, operandsWithin_eq, List.map_map]
    exact hspells
  rcases hops with hops | hops
  · obtain ⟨ws', hlinks, hspells⟩ := exists_links Parser.factorOpOf? ArithOp.symbol
      (fun _ _ h => h.power)
      (fun l hl => exists_kind_of_factor (hops l.op (List.mem_map_of_mem hl))) h
    exact hreadable (hspells _ _ hws) (hwrites.power.products hlinks).sum
  · obtain ⟨ws', hlinks, hspells⟩ := exists_links Parser.powerOpOf? ArithOp.symbol
      (fun _ _ h => h)
      (fun l hl => exists_kind_of_power (hops l.op (List.mem_map_of_mem hl))) h
    exact hreadable (hspells _ _ hws) (hwrites.powers hlinks).product.sum

end Readable

end Result

/-! ## Rolls of arithmetic -/

/-- The terms of a chain, if its parts are readable. -/
theorem readable_rollChain {ω : Type} {apply : ω → Number → Number → Rolling Number} {head : Node}
    {tail : List (Link ω Node)} (hhead : head.roll.Gives fun r => r.Readable head.bare)
    (htail : ∀ l ∈ tail, l.term.roll.Gives fun r => r.Readable l.term.bare) :
    (rollChain apply head.roll (tail.map (Link.map Node.roll))).Gives fun p =>
      ∃ first rest, p.2 = first :: rest ∧ first.Readable head.bare ∧
        List.Forall₂ (fun (l : Link ω Node) (r : Result) => r.Readable l.term)
          (tail.map (Link.map Node.bare)) rest := by
  rintro σ n ⟨value, terms⟩ d h
  have hterms := givesAt_rollChain (R := fun (n : Node) r => r.Readable n.bare)
    (fun hr order => hr.setOrder order) (hhead σ) (fun l hl => htail l hl σ) n _ d h
  obtain ⟨first, rest, hfirst, hrest, rfl⟩ := List.forall₂_cons_left_iff.1 hterms
  rw [List.forall₂_map_left_iff] at hrest
  exact ⟨first, rest, rfl, hfirst, List.forall₂_map_left_iff.2 hrest⟩

theorem map_op_map {ω ε φ : Type} {f : ε → φ} (tail : List (Link ω ε)) :
    (tail.map (Link.map f)).map Link.op = tail.map Link.op := by
  simp [Link.map]

/-- A sum of several terms is made bare in one step. -/
theorem Node.bareNode_sum {head : Node} {tail : List (Link SumOp Node)} (h : tail ≠ []) :
    Node.sum head tail = (Form.sum head tail).bareNode := by
  cases tail with
  | nil => exact absurd rfl h
  | cons l tail => rfl

theorem Node.bareNode_chain {head : Node} {tail : List (Link ArithOp Node)} (h : tail ≠ []) :
    Node.chain head tail = (Form.chain head tail).bareNode := by
  cases tail with
  | nil => exact absurd rfl h
  | cons l tail => rfl

/-- **The result of arithmetic is readable** as the expression that it is of,
but for labels and double brackets. -/
theorem Node.readable_roll {n : Node} (harithmetic : n.Arithmetic) (hgrammatical : n.Grammatical)
    (hwritable : n.Writable) : n.roll.Gives fun r => r.Readable n.bare := by
  induction n using Node.induction with
  | unsupported => cases harithmetic
  | term form label ih =>
    obtain ⟨hform, hparts⟩ := harithmetic
    obtain ⟨hgrammatical, hgparts⟩ := hgrammatical
    obtain ⟨hwritable, hlabel, hwparts⟩ := hwritable
    have hpart (m : Node) (hm : m ∈ form.terms) : m.roll.Gives fun r => r.Readable m.bare :=
      have hm := Form.mem_parts_of_mem_terms hm
      ih m hm (hparts m hm) (hgparts m hm) (hwparts m hm)
    intro σ k _ d h
    rw [roll_term] at h
    obtain ⟨r, hr, rfl⟩ := Form.answer_rollLabelled_eq_ok h
    rw [bare_term]
    refine Result.Readable.relabel ?_ hlabel
    cases form with
    | number value =>
      cases value with
      | float x => cases hform
      | int i =>
        cases hr
        exact .int hwritable
    | inline expr => exact hpart expr List.mem_cons_self σ k r d hr
    | die spec => cases hform
    | group first rest mods =>
      subst hform
      obtain ⟨results, e, hresults, hr⟩ := Rolling.answer_bind_eq_ok.1 hr
      cases hr
      change ((first :: rest).map Node.roll |>.mapM id).answer σ k = _ at hresults
      rw [List.mapM_map] at hresults
      have hreadable := Rolling.Gives.forall₂_mapM (R := fun n r => r.Readable n.bare)
        hpart σ k results d hresults
      cases hreadable with
      | @cons _ r _ rs hfirst hrest =>
        rw [numbered, List.mapIdx_cons]
        refine .group (hfirst.setOrder 0) (List.forall₂_map_left_iff.2 ?_)
        exact forall₂_mapIdx_right (fun i _ _ hr => hr.setOrder (i + 1)) hrest
    | sum head tail =>
      obtain ⟨⟨value, terms⟩, e, hchain, hr⟩ := Rolling.answer_bind_eq_ok.1 hr
      cases hr
      obtain ⟨first, rest, rfl, hfirst, hlinks⟩ := readable_rollChain
        (hpart head List.mem_cons_self)
        (fun l hl => hpart l.term (List.mem_cons_of_mem _ (List.mem_map_of_mem hl))) σ k _ _ hchain
      have h := Result.Readable.sum value hfirst hlinks
      -- neither rolling nor removing the labels changes the operators
      rw [map_op_map, ← map_op_map (f := Node.roll)] at h
      rwa [bareNode_sum (mt List.map_eq_nil_iff.1 hgrammatical)] at h
    | chain head tail =>
      obtain ⟨⟨value, terms⟩, e, hchain, hr⟩ := Rolling.answer_bind_eq_ok.1 hr
      cases hr
      obtain ⟨first, rest, rfl, hfirst, hlinks⟩ := readable_rollChain
        (hpart head List.mem_cons_self)
        (fun l hl => hpart l.term (List.mem_cons_of_mem _ (List.mem_map_of_mem hl))) σ k _ _ hchain
      have h := Result.Readable.chain value (by rw [map_op_map]; exact hgrammatical.2) hfirst hlinks
      rw [map_op_map, ← map_op_map (f := Node.roll)] at h
      rwa [bareNode_chain (mt List.map_eq_nil_iff.1 hgrammatical.1)] at h
    | function fn arg =>
      obtain ⟨r, e, hargument, hr⟩ := Rolling.answer_bind_eq_ok.1 hr
      cases hr
      exact .function fn (hpart arg List.mem_cons_self σ k r d hargument)

/-! ## Rolling a text again -/

/-- Arithmetic draws nothing, so it always answers the same. -/
theorem Node.Arithmetic.steady {n : Node} (h : n.Arithmetic) : n.roll.Steady := by
  induction h with
  | @term form label hform _ ih =>
    rw [Node.roll_term]
    refine Rolling.steady_ofRefusals.labelled _ ?_
    refine Rolling.steady_ofRefusals.layer (by simpa using hform.isDie) (by simpa using ih) ?_
    exact .inr fun _ e => ⟨.error (.refused e), fun _ _ => rfl⟩

/-- Labels and double brackets do not change values. -/
theorem Node.value_roll_bare (n : Node) :
    Result.value <$> n.bare.roll = Result.value <$> n.roll := by
  rw [roll_bare, Functor.map_map]
  simp

/-- **The text of a result of arithmetic reads as the same expression**, but for
labels and double brackets, and so has the same value. -/
theorem Session.rollValue_text {s : String} {n : Node} {session after : Session} {r : Result}
    (hread : Reads s n) (hn : n.Arithmetic) (hroll : session.roll s = (.ok r, after)) :
    ∃ m, Reads (r.text .simple) m ∧ m.bare = n.bare ∧
      ∀ session' : Session, session'.rollValue (r.text .simple) = (.ok r.value, session') := by
  obtain ⟨answer, hsteady⟩ := hn.steady
  obtain rfl : answer = .ok r := by
    rw [session.roll_eq hread.parse_eq, hsteady] at hroll
    cases answer with
    | error halt => cases hroll
    | ok r' =>
      cases hroll
      rfl
  have hgrammatical : n.Grammatical := by
    obtain ⟨_, hread, -⟩ := hread
    exact hread.grammatical
  have hreadable := Node.readable_roll hn hgrammatical (writable_of_reads hread hn)
    ⟨session.supply, session.ceiling⟩ session.drawn r session.drawn (hsteady _ _)
  obtain ⟨ws, hws, hwrites⟩ := hreadable.exists_words
  -- labels have moved into brackets, so the two trees are the same when they are bare
  obtain ⟨m, hm, hbare⟩ := (hws.words_eq ▸ hwrites.sum).exists_reads
  refine ⟨m, hm, hbare, fun session' => ?_⟩
  rw [Result.text, session'.rollValue_eq hm.parse_eq, ← Node.value_roll_bare m, hbare,
    Node.value_roll_bare, Rolling.answer_map, hsteady]
  rfl

/-- The label of an embedded sum ends up in its parentheses. -/
theorem Session.rollValue_text_embedded :
    let text := "[[1 + 2 [a]]] [b] * 3"
    let sum := Node.sum (.int 1) [⟨.add, .term (.number (.int 2)) (some "a")⟩]
    let n := Node.chain (.term (.inline sum) (some "b")) [⟨.mul, .int 3⟩]
    let session : Session := { supply := .ofList [] }
    let r := Result.chain (.int 9)
      [setLabel "b" (.sum (.int 3) [.number (.int 1), setLabel "a" (.number (.int 2))] [.add]),
        .number (.int 3)] [.mul]
    Reads text n ∧ n.Arithmetic ∧ session.roll text = (.ok r, session) ∧
      r.text .simple = "(1 + 2 [a] [b]) * 3" ∧
      ∃ m, Reads (r.text .simple) m ∧ m.bare = n.bare ∧
        ∀ session' : Session, session'.rollValue (r.text .simple) = (.ok r.value, session') := by
  intro text sum n session r
  have htokens : tokenize text = [⟨.inlineOpen, 0, "[["⟩, ⟨.integer, 2, "1"⟩, ⟨.plus, 4, "+"⟩,
      ⟨.integer, 6, "2"⟩, ⟨.label, 8, "[a]"⟩, ⟨.inlineClose, 11, "]]"⟩, ⟨.label, 14, "[b]"⟩,
      ⟨.star, 18, "*"⟩, ⟨.integer, 20, "3"⟩] := by
    decide +kernel
  have hread : Reads text n := ⟨⟨some 21, [], 21⟩, by rw [ReadsTo, htokens]; rfl, rfl⟩
  have hint (i : Int64) (label : Option String) :
      (Node.term (.number (.int i)) label).Arithmetic :=
    .term trivial (by simp)
  have hsum : sum.Arithmetic := .term trivial (by simpa using ⟨hint 1 none, hint 2 (some "a")⟩)
  have hembedded : (Node.term (.inline sum) (some "b")).Arithmetic :=
    .term trivial (by simpa using hsum)
  have harithmetic : n.Arithmetic := .term trivial (by simpa using ⟨hembedded, hint 3 none⟩)
  have hroll : session.roll text = (.ok r, session) := by
    rw [session.roll_eq hread.parse_eq]
    rfl
  exact ⟨hread, harithmetic, hroll, rfl, Session.rollValue_text hread harithmetic hroll⟩

end DiceNotation
