import DiceNotation.Proofs.Grammar.Locality
import DiceNotation.Proofs.Grammar.Sound
import DiceNotation.Proofs.Token.Tokens

/-!
# Reading texts

A text is read through its tokens (`ReadsTo`), and may be read to its end
(`Reads`). What is read is read just as well from the tokens that were taken
alone (`Parser.read_taken`): this is where the two readings side by side become
one reading of a text and one of a part of it.
-/

namespace DiceNotation

/-- An expression is read from the start of a text, up to a place in it. -/
def ReadsTo (s : String) (node : Node) (after : Cursor) : Prop :=
  (Parser.expression (tokenize s).length).run (.start (tokenize s) s.utf8ByteSize) =
    .ok (node, after)

/-- A text is an expression from its start to its end. -/
def Reads (s : String) (node : Node) : Prop := ∃ after, ReadsTo s node after ∧ after.rest = []

namespace ReadsTo

variable {s : String} {node : Node} {after : Cursor}

/-- What is left over becomes part of the label, without the blanks around it. -/
theorem parse_eq (h : ReadsTo s node after) :
    parse s = .ok (after.rest.head?.elim node fun t =>
      node.extendLabel (String.ofList (Text.trim (Text.dropBytes t.start s.toList)))) := by
  rw [ReadsTo] at h
  simp only [parse, h]
  cases hrest : after.rest <;> simp [bind, Except.bind, hrest, pure, Except.pure]

theorem grammatical (h : ReadsTo s node after) : node.Grammatical := by
  obtain ⟨j, -, -, -, hspans⟩ := Parser.exists_place_of_run h
  exact List.forall_mem_singleton.1 hspans.grammatical

end ReadsTo

theorem Reads.parse_eq {s : String} {node : Node} (h : Reads s node) : parse s = .ok node := by
  obtain ⟨after, hread, hrest⟩ := h
  rw [hread.parse_eq, hrest]
  rfl

/-- A text that is read to its end has no unknown tokens. -/
theorem Reads.known {s : String} {node : Node} (h : Reads s node) :
    ∀ t ∈ tokenize s, t.kind ≠ .error := by
  obtain ⟨after, hread, hrest⟩ := h
  obtain ⟨j, -, -, rfl, hspans⟩ := Parser.exists_place_of_run hread
  have hknown := Token.throughout_take.1 hspans.known
  rwa [List.take_of_length_le (List.drop_eq_nil_iff.1 hrest)] at hknown

/-- A text that is refused where its expression is read. -/
theorem parse_eq_error {s : String} {e : ParseError}
    (h : (Parser.expression (tokenize s).length).run (.start (tokenize s) s.utf8ByteSize) =
      .error e) : parse s = .error e := by
  simp only [parse, h]
  rfl

/-- A text that is not refused has an expression in front. -/
theorem exists_readsTo {s : String} {n : Node} (h : parse s = .ok n) :
    ∃ node after, ReadsTo s node after := by
  unfold ReadsTo
  generalize hread : (Parser.expression (tokenize s).length).run
    (.start (tokenize s) s.utf8ByteSize) = answer
  cases answer with
  | ok read => exact ⟨read.1, read.2, rfl⟩
  | error e =>
    rw [parse_eq_error hread] at h
    cases h

/-! ## Terms up to the end -/

namespace Parser

variable {nested : Parser Node} {node : Node} {c e : Cursor}

/-- Nothing behind a term makes anything of it. -/
theorem run_sum_of_bareTerm (h : (bareTerm nested).run c = .ok (node, e)) (he : e.rest = []) :
    (sum nested).run c = .ok (node, e) := by
  have hmany {α : Type} (step : Parser (Option α)) : (many step).run e = .ok ([], e) :=
    run_many_nil fun h => absurd he h
  have hterm : (term nested).run c = .ok (node, e) :=
    run_bind_eq_ok.2 ⟨node, e, h, run_bind_eq_ok.2 ⟨[], e, hmany _, rfl⟩⟩
  have hpower : (power nested).run c = .ok (node, e) :=
    run_bind_eq_ok.2 ⟨node, e, hterm, run_bind_eq_ok.2 ⟨[], e, hmany _, rfl⟩⟩
  have hproduct : (product nested).run c = .ok (node, e) :=
    run_bind_eq_ok.2 ⟨node, e, hpower, run_bind_eq_ok.2 ⟨[], e, hmany _, rfl⟩⟩
  exact run_bind_eq_ok.2 ⟨node, e, hproduct, run_bind_eq_ok.2 ⟨[], e, hmany _, rfl⟩⟩

/-- What refuses the first term refuses the expression. -/
theorem run_sum_of_bareTerm_error {err : ParseError} (h : (bareTerm nested).run c = .error err) :
    (sum nested).run c = .error err := by
  have hterm : (term nested).run c = .error err := run_bind_eq_error.2 (.inl h)
  have hpower : (power nested).run c = .error err := run_bind_eq_error.2 (.inl hterm)
  have hproduct : (product nested).run c = .error err := run_bind_eq_error.2 (.inl hpower)
  exact run_bind_eq_error.2 (.inl hproduct)

end Parser

/-! ## Cutting a text behind what is read -/

namespace Seam

variable {S : Seam}

/-- Lists of tokens that are the same up to the seam. -/
theorem along_append (ts : List Token) (previous : Option Nat) (finish finish' : Nat)
    (hloose : S.loose → ∀ t ∈ S.second.head?, previous ≠ some t.start ∧
      ∀ t' ∈ ts, t'.stop ≠ t.start) :
    S.Along ⟨previous, ts ++ S.first, finish⟩ ⟨previous, ts ++ S.second, finish'⟩ := by
  induction ts generalizing previous with
  | nil =>
    refine .seam rfl rfl fun h => ?_
    rw [Cursor.sight_touching]
    cases hsecond : S.second with
    | nil => rfl
    | cons t us =>
      have hprevious := (hloose h t (by rw [hsecond]; rfl)).1
      simp [Cursor.touching?, Option.filter, hprevious.symm]
  | cons t ts ih =>
    refine .token (List.cons_ne_nil t _) rfl (ih _ fun h t' ht' => ?_)
    have hfree := (hloose h t' ht').2
    exact ⟨by simpa using hfree t List.mem_cons_self, fun t'' ht'' => hfree t'' (.tail t ht'')⟩

/-- The ends of two texts. -/
def atEnd : Seam := ⟨[], [], True, .inl rfl⟩

/-- A list of tokens and the same one further on. -/
theorem along_shift (n : Nat) (ts : List Token) (previous : Option Nat) (finish finish' : Nat) :
    atEnd.Along ⟨previous, ts, finish⟩ ⟨previous.map (· + n), ts.map (Token.shift n), finish'⟩ := by
  induction ts generalizing previous with
  | nil => exact .seam rfl rfl fun _ => rfl
  | cons t ts ih =>
    refine .token (List.cons_ne_nil t ts) ?_ ?_
    · cases previous <;> simp [Cursor.sight, Token.shift]
    · have h := ih (some t.stop)
      rwa [Option.map_some, Token.stop, Nat.add_right_comm] at h

end Seam

/-- What is read from some tokens is read from the tokens that were taken, too,
with any depth that is enough for them. -/
theorem Parser.read_taken {depth : Nat} {tokens : List Token} {bytes : Nat} {node : Node}
    {after : Cursor}
    (h : (expression depth).run (.start tokens bytes) = .ok (node, after)) :
    ∃ taken, tokens = taken ++ after.rest ∧
      ∀ depth' bytes', taken.length ≤ depth' → ∃ after',
        (expression depth').run (.start taken bytes') = .ok (node, after') ∧ after'.rest = [] := by
  let S : Seam := ⟨after.rest, [], True, .inl rfl⟩
  obtain ⟨j, -, -, hafter, -⟩ := exists_place_of_run h
  have hrest : after.rest = tokens.drop j := by rw [hafter]; rfl
  have htokens : tokens = tokens.take j ++ after.rest := by rw [hrest, List.take_append_drop]
  refine ⟨tokens.take j, htokens, fun depth' bytes' hdepth => ?_⟩
  have halong : S.Along (.start tokens bytes) (.start (tokens.take j) bytes') := by
    have h := S.along_append (tokens.take j) none bytes bytes' nofun
    rwa [show S.second = [] from rfl, List.append_nil, ← htokens] at h
  have hguarded : S.Guarded tokens := fun _ _ _ => trivial
  have htracks : (S.tracking tokens bytes hguarded).Keeps 0 0 (expression depth)
      (expression depth') (Says tokens 0) := by
    refine tracks_expression (fun _ => rfl) ?_
    have hlength := congrArg List.length htokens
    rw [List.length_append] at hlength
    change tokens.length + 0 ≤ 0 + depth' + after.rest.length
    omega
  obtain ⟨after', hread, hafter⟩ := htracks.relates (Nat.zero_le _) node after h (Nat.le_refl _)
    _ halong
  refine ⟨after', hread, List.eq_nil_of_length_eq_zero ?_⟩
  have hlength := hafter.length_eq
  simpa [S] using hlength

end DiceNotation
