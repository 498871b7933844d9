import DiceNotation.Proofs.Grammar.Literals
import DiceNotation.Proofs.Grammar.Reading
import DiceNotation.Proofs.Json.Lost
import DiceNotation.Proofs.Token.Words

/-!
# Texts whose expressions survive

An expression that was read from a text is read back from its serialized form,
unless a decimal literal of it is past the largest double
(`parse_ofJson?_toJson`): such a literal is read as an infinity, where an integer
literal past the largest integer is refused.
-/

namespace DiceNotation

/-! ## The range of literals -/

namespace Token

/-- What the literal says is not past the largest integer, or not so far past the
largest double that the nearest double is an infinity: this only takes the digits
in front of the point. -/
def InRange (t : Token) : Prop :=
  (t.kind = .integer → (Double.readDigits 0 t.text.toList : Int) ≤ Number.highest) ∧
  (t.kind = .decimal →
    Double.readDigits 0 (t.text.toList.takeWhile Char.isDigit) < Double.overflow)

instance (t : Token) : Decidable t.InRange := inferInstanceAs (Decidable (_ ∧ _))

variable {t : Token} {start : Nat} {cs : List Char}

/-- An integer token has a value if its digits are in range. -/
theorem hasValue_iff : t.HasValue ↔
    (t.kind = .integer → (Double.readDigits 0 t.text.toList : Int) ≤ Number.highest) := by
  refine imp_congr_right fun _ => ?_
  rw [Parser.integerValue?]
  split
  · next h => exact iff_of_true rfl h
  · next h => exact iff_of_false Bool.false_ne_true h

/-- A decimal token is finite if the whole part does not overflow. -/
theorem isFinite_iff (ht : t ∈ tokensAt start cs) :
    t.IsFinite ↔ (t.kind = .decimal →
      Double.readDigits 0 (t.text.toList.takeWhile Char.isDigit) < Double.overflow) := by
  refine imp_congr_right fun hkind => ?_
  obtain ⟨-, after, -, -, hleads⟩ := exists_leads ht
  rw [hkind] at hleads
  obtain ⟨whole, fraction, htext, hwhole, hdigits⟩ := hleads.exists_pointed
  obtain ⟨x, hx, hfinite⟩ := Double.exists_ofText?_eq_some htext hwhole hdigits
  have hdot : '.'.isDigit = false := rfl
  have hw : ∀ c ∈ whole, c.isDigit := fun c hc => hdigits c (List.mem_append_left _ hc)
  rw [htext, List.takeWhile_append_of_pos hw, List.takeWhile_cons, hdot, hx]
  simpa using hfinite

/-- A literal in range has a value, and it is finite. -/
theorem inRange_iff (ht : t ∈ tokensAt start cs) : t.InRange ↔ t.HasValue ∧ t.IsFinite := by
  rw [hasValue_iff, isFinite_iff ht, InRange]

end Token

/-! ## Lone literals -/

section

variable {s : String} {x : Double} (hx : Double.ofText? s = some x)

include hx

/-- A decimal literal that no other token follows. -/
theorem Parser.run_sum_decimal (nested : Parser Node) (finish : Nat) :
    (sum nested).run (.start [⟨.decimal, 0, s⟩] finish) =
      .ok (.number (.float x), ⟨some (0 + s.utf8ByteSize), [], finish⟩) := by
  let c : Cursor := .start [⟨.decimal, 0, s⟩] finish
  have hmagnitude : (magnitude false).run c = .ok (.number (.float x), c.advance) := by
    unfold magnitude
    simp only [run_look_bind, c, Cursor.start, Cursor.sight_cons, hx]
    rfl
  have hnumber : number.run c = .ok (.number (.float x), c.advance) := by
    rw [number_eq]
    exact run_bind_eq_ok.2 ⟨_, _, rfl, hmagnitude⟩
  exact run_sum_of_bareTerm
    (run_bind_eq_ok.2 ⟨_, _, rfl, run_bind_eq_ok.2 ⟨_, _, hnumber, rfl⟩⟩) rfl

/-- A text that is a decimal literal is an expression, however long it is. -/
theorem Reads.decimal {whole fraction : List Char} (hs : s.toList = whole ++ '.' :: fraction)
    (hwhole : whole ≠ []) (hfraction : fraction ≠ [])
    (hdigits : ∀ c ∈ whole ++ fraction, c.isDigit) : Reads s (.number (.float x)) := by
  refine ⟨⟨some (0 + s.utf8ByteSize), [], s.utf8ByteSize⟩, ?_, rfl⟩
  rw [ReadsTo, Token.tokenize_pointed hs hwhole hfraction hdigits]
  exact Parser.run_sum_decimal hx (Parser.expression 0) s.utf8ByteSize

end

/-! ## Texts -/

/-- A longer label leaves the numbers as they are. -/
theorem Node.finite_extendLabel {n : Node} {text : String} :
    (n.extendLabel text).Finite ↔ n.Finite := by
  rw [extendLabel]
  split
  · exact finite_withLabel
  · exact finite_withLabel

/-- Whether an expression is finite does not depend on what is left over. -/
theorem ReadsTo.finite_iff {s : String} {node n : Node} {after : Cursor}
    (h : ReadsTo s node after) (hn : parse s = .ok n) : n.Finite ↔ node.Finite := by
  rw [h.parse_eq] at hn
  obtain rfl := Except.ok.inj hn
  cases after.rest.head? with
  | none => exact Iff.rfl
  | some t => exact Node.finite_extendLabel

/-- **Parsed expressions survive**, but for decimal literals that are too large.
In the tokens that the expression of a text was read from every integer is in
range; if every decimal literal is, too, what was read is read back from its
serialized form, and otherwise its serialized form is not read at all. -/
theorem parse_ofJson?_toJson {s : String} {n : Node} (h : parse s = .ok n) :
    ∃ node after taken, ReadsTo s node after ∧ tokenize s = taken ++ after.rest ∧
      (∀ t ∈ taken, t.kind = .integer → t.InRange) ∧
      (n.Finite ↔ ∀ t ∈ taken, t.InRange) ∧
      Node.ofJson? n.toJson = if ∀ t ∈ taken, t.InRange then some n else none := by
  obtain ⟨node, after, hread⟩ := exists_readsTo h
  obtain ⟨j, -, -, hafter, hspans⟩ := Parser.exists_place_of_run hread
  generalize htaken : (tokenize s).take j = taken
  have htokens : tokenize s = taken ++ after.rest := by
    rw [← htaken, hafter]
    exact (List.take_append_drop j _).symm
  -- reading has succeeded, so integers are in range; only decimals are left to look at
  have hvalues := Token.throughout_take.1 hspans.hasValue
  have hfinite : node.Finite ↔ ∀ t ∈ taken, t.IsFinite := by
    rw [← htaken, ← Token.throughout_take, ← hspans.finite_iff, List.forall_mem_singleton]
  rw [htaken] at hvalues
  have hrange : ∀ t ∈ taken, (t.InRange ↔ t.HasValue ∧ t.IsFinite) := by
    intro t ht
    have ht : t ∈ tokenize s := htokens ▸ List.mem_append_left _ ht
    rw [Token.tokenize_eq] at ht
    exact Token.inRange_iff ht
  have hall : n.Finite ↔ ∀ t ∈ taken, t.InRange := by
    rw [hread.finite_iff h, hfinite]
    exact forall₂_congr fun t ht => by rw [hrange t ht, and_iff_right (hvalues t ht)]
  refine ⟨node, after, taken, hread, htokens, fun t ht hkind => ?_, hall, ?_⟩
  · refine (hrange t ht).2 ⟨hvalues t ht, fun hdecimal => ?_⟩
    rw [hkind] at hdecimal
    cases hdecimal
  · have : Decidable n.Finite := decidable_of_iff' _ hall
    rw [Node.ofJson?_toJson]
    exact if_congr hall rfl rfl

/-- The largest double, written with 309 digits in front of the point. -/
theorem parse_ofJson?_toJson_largest :
    let s := String.ofList
      ("17976931348623157".toList ++ List.replicate 292 '0' ++ ['.', '0'])
    let n := Node.number (.float ⟨0x7fefffffffffffff⟩)
    parse s = .ok n ∧ ∃ node after taken, ReadsTo s node after ∧
      tokenize s = taken ++ after.rest ∧
      (∀ t ∈ taken, t.kind = .integer → t.InRange) ∧
      (n.Finite ↔ ∀ t ∈ taken, t.InRange) ∧
      Node.ofJson? n.toJson = if ∀ t ∈ taken, t.InRange then some n else none := by
  intro s n
  let whole := "17976931348623157".toList ++ List.replicate 292 '0'
  have hs : s.toList = whole ++ '.' :: ['0'] := String.toList_ofList
  have hdigits : ∀ c ∈ whole ++ ['0'], c.isDigit := List.all_eq_true.1 (by decide +kernel)
  have hx : Double.ofText? s = some ⟨0x7fefffffffffffff⟩ := by
    rw [Double.ofText?_digit hs (by decide), hs]
    decide +kernel
  have hread : Reads s n := .decimal hx hs (List.cons_ne_nil _ _) (List.cons_ne_nil _ _) hdigits
  exact ⟨hread.parse_eq, parse_ofJson?_toJson hread.parse_eq⟩

/-- A literal past the largest double is no error, but an infinity, and does not survive. -/
theorem parse_ofJson?_toJson_infinity :
    let s := String.ofList (List.replicate 309 '9' ++ ['.', '0'])
    let n := Node.number (.float (.infinity false))
    parse s = .ok n ∧ ¬n.Finite ∧ Node.ofJson? n.toJson = none := by
  intro s n
  have hs : s.toList = List.replicate 309 '9' ++ '.' :: ['0'] := String.toList_ofList
  have hdigits : ∀ c ∈ List.replicate 309 '9' ++ ['0'], c.isDigit :=
    List.all_eq_true.1 (by decide +kernel)
  have hx : Double.ofText? s = some (.infinity false) := by
    rw [Double.ofText?_digit hs (by decide), hs]
    decide +kernel
  have hread : Reads s n := .decimal hx hs (List.cons_ne_nil _ _) (List.cons_ne_nil _ _) hdigits
  refine ⟨hread.parse_eq, ?_, rfl⟩
  rw [Node.finite_number]
  decide

end DiceNotation
