import DiceNotation.Proofs.Grammar.Reading
import DiceNotation.Proofs.Notation.Arithmetic

/-!
# What is read can be written

Every arithmetic expression that is read from a text has labels and literals that a text
can have again (`writable_of_reads`). For literals this is so because they were read from
digits. For labels it takes the text, since a parser believes what a label token holds.
-/

namespace DiceNotation

/-- What stands in the brackets of a label token is a label. -/
theorem Token.isLabel_of_mem_tokensAt {start : Nat} {cs : List Char} :
    ∀ t ∈ tokensAt start cs, t.kind = .label →
      Text.IsLabel (String.ofList t.text.toList.tail.dropLast) := by
  induction cs using text_induction generalizing start with
  | nil => exact nofun
  | gap c cs hc ih =>
    rw [tokensAt_gap hc]
    exact ih
  | token k w cs hw ih =>
    rw [hw.tokensAt_eq, List.forall_mem_cons]
    refine ⟨?_, ih⟩
    rintro rfl
    rw [String.toList_ofList]
    exact hw.isLabel

namespace Node

/-- If it is arithmetic, it can be written. -/
def Legible (n : Node) : Prop := n.Arithmetic → n.Writable

/-- An arithmetic layer is legible if its parts are. -/
theorem legible_of_parts {form : Form Node} {label : Option String} (hform : form.Writable)
    (hlabel : ∀ l ∈ label, Text.IsLabel l) (hparts : ∀ n ∈ form.parts, n.Legible) :
    Legible (.term form label) := by
  rintro ⟨-, harithmetic⟩
  exact .term hform hlabel fun n hn => hparts n hn (harithmetic n hn)

theorem legible_number {value : Number} (h : (Form.number (ε := Node) value).Writable) :
    (number value).Legible :=
  legible_of_parts h nofun nofun

/-- A label that can be written may stand on any expression that can be. -/
theorem Legible.withLabel {n : Node} {label : String} (h : n.Legible)
    (hlabel : Text.IsLabel label) : (n.withLabel label).Legible := by
  cases n with
  | term form old =>
    rintro ⟨hform, hparts⟩
    obtain ⟨hwritable, -, hparts⟩ := h ⟨hform, hparts⟩
    exact .term hwritable (by simpa using hlabel) hparts
  | unsupported => exact h

end Node

/-- Every layer that is no number can be written. -/
theorem Form.writable_of_ne_number {ε : Type} {form : Form ε} (h : ∀ v, form ≠ .number v) :
    form.Writable := by
  cases form with
  | number v => exact absurd rfl (h v)
  | die | inline | group | sum | chain | function => trivial

/-- The digits of an integer that was read, with either sign, can be written. -/
theorem Parser.writable_of_integerValue? {text : String} {i : Int64}
    (h : integerValue? text = some i) (negative : Bool) :
    (Form.number (ε := Node) (.int (if negative then -i else i))).Writable := by
  unfold integerValue? at h
  dsimp only at h
  split at h
  · next hle =>
    cases h
    generalize Double.readDigits 0 text.toList = n at hle
    have hn : (n : Int) ≤ 9223372036854775807 := hle
    rw [Form.Writable, ← Int64.ofInt_eq_ofNat, ← Int64.ofInt_neg]
    cases negative with
    | false =>
      rw [if_neg nofun, Int64.toInt_ofInt_of_le (by omega) (by omega)]
      exact hle
    | true =>
      rw [if_pos rfl, Int64.toInt_ofInt_of_le (by omega) (by omega), Int.natAbs_neg]
      exact hle
  · cases h

/-- What tokens say is legible, if their labels are. -/
theorem Spans.legible {ts : List Token} {i j : Nat} {ns : List Node}
    (hlabels : ∀ t ∈ ts, t.kind = .label →
      Text.IsLabel (String.ofList t.text.toList.tail.dropLast))
    (h : Spans ts i j ns) : ∀ n ∈ ns, n.Legible := by
  induction h with
  | nil | word => exact nofun
  | append _ _ ih ih' => exact List.forall_mem_append.2 ⟨ih, ih'⟩
  | perm _ hperm ih => exact fun n hn => ih n (hperm.mem_iff.2 hn)
  | unwritten hn =>
    refine List.forall_mem_singleton.2 (Node.legible_number ?_)
    rw [Form.Writable]
    rcases hn with rfl | rfl
    · decide
    · decide
  | integer _ _ hn negative =>
    exact List.forall_mem_singleton.2
      (Node.legible_number (Parser.writable_of_integerValue? hn negative))
  | decimal => exact List.forall_mem_singleton.2 (Node.legible_number trivial)
  | layer _ hnumber _ ih =>
    exact List.forall_mem_singleton.2
      (Node.legible_of_parts (Form.writable_of_ne_number hnumber) nofun ih)
  | labelled _ hne hread ih =>
    refine List.forall_mem_singleton.2
      ((List.forall_mem_singleton.1 ih).withLabel (Text.isLabel_intercalate hne fun l hl => ?_))
    obtain ⟨t, ht, hkind, rfl⟩ := hread l hl
    exact hlabels t ht hkind

/-- **What is read can be written**, if it is arithmetic. -/
theorem writable_of_reads {s : String} {node : Node} (h : Reads s node) (hnode : node.Arithmetic) :
    node.Writable := by
  obtain ⟨after, hread, -⟩ := h
  obtain ⟨j, -, -, -, hspans⟩ := Parser.exists_place_of_run hread
  have hlabels : ∀ t ∈ tokenize s, t.kind = .label →
      Text.IsLabel (String.ofList t.text.toList.tail.dropLast) := by
    rw [Token.tokenize_eq]
    exact Token.isLabel_of_mem_tokensAt
  exact List.forall_mem_singleton.1 (hspans.legible hlabels) hnode

end DiceNotation
