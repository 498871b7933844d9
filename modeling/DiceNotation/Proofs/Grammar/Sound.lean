import DiceNotation.Proofs.Grammar.Expressions

/-!
# What is read is grammatical

What some tokens say is grammatical (`Spans.grammatical`), since every layer that they say
is one that the notation can write. So every text that is read is grammatical
(`grammatical_of_parse`).

What holds of known tokens other than literals, and of the literals that can be read, holds
of all tokens that say something (`Spans.throughout`).
-/

namespace DiceNotation

variable {ts : List Token} {i j k : Nat} {t : Token} {P : Token → Prop}

/-! ## The tokens between two places -/

namespace Token

/-- Every token from one place to another has the property. -/
def Throughout (ts : List Token) (i j : Nat) (P : Token → Prop) : Prop :=
  ∀ k t, i ≤ k → k < j → ts[k]? = some t → P t

theorem throughout_self : Throughout ts i i P :=
  fun _ _ hk hk' => absurd (Nat.lt_of_le_of_lt hk hk') (Nat.lt_irrefl i)

theorem throughout_succ (ht : ts[i]? = some t) : Throughout ts i (i + 1) P ↔ P t := by
  refine ⟨fun h => h i t (Nat.le_refl i) (Nat.lt_succ_self i) ht, fun h k u hk hk' hu => ?_⟩
  obtain rfl : k = i := Nat.le_antisymm (Nat.le_of_lt_succ hk') hk
  obtain rfl : t = u := Option.some.inj (ht.symm.trans hu)
  exact h

/-- What holds of all tokens up to a place and of all from there on holds of all. -/
theorem throughout_append (hij : i ≤ j) (hjk : j ≤ k) :
    Throughout ts i k P ↔ Throughout ts i j P ∧ Throughout ts j k P := by
  constructor
  · intro h
    exact ⟨fun l t hl hl' => h l t hl (Nat.lt_of_lt_of_le hl' hjk),
      fun l t hl hl' => h l t (Nat.le_trans hij hl) hl'⟩
  · rintro ⟨h, h'⟩ l t hl hl'
    rcases Nat.lt_or_ge l j with hlj | hlj
    · exact h l t hl hlj
    · exact h' l t hlj hl'

theorem throughout_take : Throughout ts 0 j P ↔ ∀ t ∈ ts.take j, P t := by
  constructor
  · intro h t ht
    obtain ⟨k, hk⟩ := List.mem_iff_getElem?.1 ht
    rw [List.getElem?_take] at hk
    split at hk
    · next hkj => exact h k t (Nat.zero_le k) hkj hk
    · cases hk
  · intro h k t _ hk ht
    refine h t (List.mem_iff_getElem?.2 ⟨k, ?_⟩)
    rw [List.getElem?_take, if_pos hk, ht]

end Token

namespace Spans

variable {ns : List Node}

/-- What tokens say the grammar can write, by induction on what says it. -/
theorem grammatical (h : Spans ts i j ns) : ∀ n ∈ ns, n.Grammatical := by
  induction h with
  | nil | word => exact nofun
  | append _ _ ih ih' => exact List.forall_mem_append.2 ⟨ih, ih'⟩
  | perm _ hperm ih => exact fun n hn => ih n (hperm.mem_iff.2 hn)
  | unwritten | integer => exact List.forall_mem_singleton.2 (Node.grammatical_int _)
  | decimal => exact List.forall_mem_singleton.2 (Node.grammatical_number _)
  | layer hform _ _ ih => exact List.forall_mem_singleton.2 (.term hform ih)
  | labelled _ _ _ ih =>
    exact List.forall_mem_singleton.2 ((List.forall_mem_singleton.1 ih).withLabel _)

/-- What holds of plain tokens and of readable literals holds of all that say something. -/
theorem throughout (hplain : ∀ t : Token, t.kind.isPlain → P t)
    (hinteger : ∀ t : Token, t.kind = .integer → (Parser.integerValue? t.text).isSome → P t)
    (hdecimal : ∀ t : Token, t.kind = .decimal → P t) (h : Spans ts i j ns) :
    Token.Throughout ts i j P := by
  induction h with
  | nil | unwritten => exact Token.throughout_self
  | append h h' ih ih' => exact (Token.throughout_append h.le h'.le).2 ⟨ih, ih'⟩
  | word ht hkind => exact (Token.throughout_succ ht).2 (hplain _ hkind)
  | integer ht hkind hn =>
    exact (Token.throughout_succ ht).2 (hinteger _ hkind (by rw [hn]; rfl))
  | decimal ht hkind => exact (Token.throughout_succ ht).2 (hdecimal _ hkind)
  | perm _ _ ih | layer _ _ _ ih | labelled _ _ _ ih => exact ih

/-- No unknown token says anything. -/
theorem known (h : Spans ts i j ns) : Token.Throughout ts i j fun t => t.kind ≠ .error := by
  refine h.throughout (fun t hplain => (of_decide_eq_true hplain).1) ?_ ?_
  · rintro t hkind - herror
    cases hkind.symm.trans herror
  · intro t hkind herror
    cases hkind.symm.trans herror

end Spans

/-! ## Texts -/

/-- A longer label leaves an expression as it was. -/
theorem Node.Grammatical.extendLabel (text : String) {n : Node} (h : n.Grammatical) :
    (n.extendLabel text).Grammatical := by
  rw [Node.extendLabel]
  split
  · exact h.withLabel _
  · exact h.withLabel _

/-- **Every text**: what is read is grammatical. -/
theorem grammatical_of_parse {text : String} {n : Node} (h : parse text = .ok n) :
    n.Grammatical := by
  rw [parse] at h
  -- the bare expression is grammatical; what is left of the text changes its label only
  rcases hr : (Parser.expression (tokenize text).length).run
    (.start (tokenize text) text.utf8ByteSize) with e | ⟨node, after⟩
  · simp only [hr, bind, Except.bind, reduceCtorEq] at h
  · obtain ⟨j, -, -, -, hspans⟩ := Parser.exists_place_of_run hr
    have hnode := List.forall_mem_singleton.1 hspans.grammatical
    simp only [hr, bind, Except.bind] at h
    split at h
    · cases h
      exact hnode
    · cases h
      exact hnode.extendLabel _

end DiceNotation
