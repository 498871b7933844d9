import DiceNotation.Proofs.Grammar.Indexed
import DiceNotation.Proofs.Grammar.Looks

/-!
# Steps paid for by tokens

A run by index stays with the parser: from every position of a text it comes to the same, at
the place of the parser, and never asks for what is not there (`Indexed.Affords`).

Its steps are paid for. A run has some steps in hand and gets twenty more for each token that
it takes. So what is spent is linear in the tokens taken; and a run that has more in hand at
its end than it began with has taken a token. Both follow from one inequality that goes
through every rule (`Indexed.Settles`).
-/

namespace DiceNotation

open Token (Kind)
open Cursor (place)

/-! ## Places -/

namespace Cursor

variable {ts : List Token} {finish i : Nat} {t : Token}

/-- Nothing is touched at the start of a text. -/
theorem touching?_place_zero : (place ts finish 0).touching? = none := by
  rw [touching?, Option.filter_eq_none_iff]
  intro t ht
  simp [place]

/-- A token is touched where it starts at the end of the one before. -/
theorem touching?_place_succ (h : i < ts.length) :
    (place ts finish (i + 1)).touching? = ts[i + 1]?.filter fun t => t.start == ts[i].stop := by
  have hlast : (ts.take (i + 1)).getLast? = some ts[i] := by
    rw [List.take_add_one, List.getElem?_eq_getElem h, Option.toList_some, List.getLast?_concat]
  rw [touching?, head?_place]
  simp [place, hlast]

end Cursor

namespace Indexed

variable {α β σ : Type} {s : String} {t : Token} {i j n steps c r x : Nat} {d y : α → Nat}
  {z : β → Nat}

/-! ## Runs of the parts -/

/-- The second part runs where the first one has come to, with the steps that it took. -/
theorem runAt_bind (p : Indexed α) (f : α → Indexed β) (s : String) (i n : Nat) :
    (p >>= f).runAt s i n = match p.runAt s i n with
      | .ok a w => (f a).runAt s w.position w.steps
      | .error e w => .error e w := by
  change EStateM.bind (p (.of s)) (fun a => f a (.of s)) ⟨i, n⟩ = _
  unfold EStateM.bind runAt
  change _ = match p (.of s) ⟨i, n⟩ with
    | .ok a w => f a (.of s) w
    | .error e w => .error e w
  cases p (.of s) ⟨i, n⟩ with
  | ok a w => rfl
  | error e w => rfl

theorem runAt_here : here.runAt s i n = .ok (tokenize s)[i]? ⟨i, n⟩ := rfl

theorem runAt_advance (ht : (tokenize s)[i]? = some t) :
    advance.runAt s i n = .ok (some t) ⟨i + 1, n + 1⟩ := by
  unfold advance
  rw [runAt_bind]
  change (here >>= _).runAt s i (n + 1) = _
  rw [runAt_bind, runAt_here, ht]
  rfl

/-- At the end of the text a step is spent, and nothing is taken. -/
theorem runAt_advance_end (ht : (tokenize s)[i]? = none) :
    advance.runAt s i n = .ok none ⟨i, n + 1⟩ := by
  unfold advance
  rw [runAt_bind]
  change (here >>= _).runAt s i (n + 1) = _
  rw [runAt_bind, runAt_here, ht]
  rfl

/-- A token of the text is at hand wherever the reader stands. -/
theorem runAt_tokenAt (ht : (tokenize s)[j]? = some t) :
    (tokenAt j).runAt s i n = .ok t ⟨i, n⟩ := by
  change ((tokenize s)[j]?.getDM (throw .outside) : Indexed Token).runAt s i n = _
  rw [ht]
  rfl

/-- What touches the last token is found by the indices of the two. -/
theorem runAt_touching (hi : i ≤ (tokenize s).length) :
    touching.runAt s i n =
      .ok ((place (tokenize s) s.utf8ByteSize i).touching?.map Token.kind) ⟨i, n + 1⟩ := by
  cases i with
  | zero =>
    rw [Cursor.touching?_place_zero]
    rfl
  | succ i =>
    rw [Cursor.touching?_place_succ hi]
    change (tokenAt i >>= fun last => here >>= fun next => Pure.pure
      ((next.filter fun t => t.start == last.stop).map Token.kind)).runAt s (i + 1) (n + 1) = _
    rw [runAt_bind, runAt_tokenAt (List.getElem?_eq_getElem hi)]
    rfl

theorem runAt_pieceOf {start stop : Nat} {piece u : String}
    (h : Text.piece? start stop u = some piece) :
    (pieceOf start stop u).runAt s i n = .ok piece ⟨i, n⟩ := by
  unfold pieceOf
  rw [h]
  rfl

/-- A piece of the text is cut out without fault. -/
theorem runAt_slice {start stop : Nat} {piece : String}
    (h : Text.piece? start stop s = some piece) :
    (slice start stop).runAt s i n = .ok piece ⟨i, n⟩ := by
  unfold slice
  rw [runAt_bind]
  exact runAt_pieceOf h

theorem runAt_refuse {cause : ParseError.Cause} (ht : t ∈ tokenize s) :
    (refuse cause t.start t.stop : Indexed α).runAt s i n =
      .error (.refused (.onToken cause t)) ⟨i, n⟩ := by
  unfold refuse
  rw [runAt_bind, runAt_slice (Token.piece?_eq ht)]
  rfl

theorem runAt_refuseNext {cause : ParseError.Cause} (ht : (tokenize s)[i]? = some t) :
    (refuseNext cause : Indexed α).runAt s i n = .error (.refused (.onToken cause t)) ⟨i, n⟩ := by
  change (tokenAt i >>= fun t => refuse cause t.start t.stop).runAt s i n = _
  rw [runAt_bind, runAt_tokenAt ht]
  exact runAt_refuse (List.mem_of_getElem? ht)

/-- What is unexpected has been taken, unless it is the end. -/
theorem exists_runAt_unexpected (expected : List Kind) (hi : i ≤ (tokenize s).length) :
    ∃ j, i ≤ j ∧ j ≤ (tokenize s).length ∧
      (unexpected expected : Indexed α).runAt s i n = .error
        (.refused ((place (tokenize s) s.utf8ByteSize i).unexpected expected)) ⟨j, n + 1⟩ := by
  unfold unexpected Cursor.unexpected
  cases ht : (tokenize s)[i]? with
  | none =>
    have hrest : (place (tokenize s) s.utf8ByteSize i).rest = [] :=
      List.drop_eq_nil_of_le (List.getElem?_eq_none_iff.1 ht)
    refine ⟨i, Nat.le_refl i, hi, ?_⟩
    rw [runAt_bind, runAt_advance_end ht, hrest]
    change (slice s.utf8ByteSize s.utf8ByteSize >>= _).runAt s i (n + 1) = _
    rw [runAt_bind, runAt_slice (Text.piece?_end s)]
    rfl
  | some t =>
    have hlt := (List.getElem?_eq_some_iff.1 ht).1
    have hmem := List.mem_of_getElem? ht
    obtain ⟨us, hrest⟩ : ∃ us, (place (tokenize s) s.utf8ByteSize i).rest = t :: us :=
      List.head?_eq_some_iff.1 (Cursor.head?_place.trans ht)
    refine ⟨i + 1, Nat.le_succ i, hlt, ?_⟩
    rw [runAt_bind, runAt_advance ht, hrest]
    dsimp only
    split
    · exact runAt_refuse hmem
    · exact runAt_refuse hmem

/-! ## What is paid -/

/-- A run that had `c` steps in hand at position `i` and the parser at that place have come to
the same. The run has `d` steps left if it has not been broken off. -/
inductive Settles (s : String) (i steps c : Nat) (d : α → Nat) :
    EStateM.Result Fault Walk α → Except ParseError (α × Cursor) → Prop
  | ok {a : α} {j n : Nat} (hij : i ≤ j) (hj : j ≤ (tokenize s).length) (hsteps : steps ≤ n)
    (hpaid : n + d a + 20 * i ≤ steps + c + 20 * j) :
    Settles s i steps c d (.ok a ⟨j, n⟩) (.ok (a, place (tokenize s) s.utf8ByteSize j))
  | error {e : ParseError} {j n : Nat} (hij : i ≤ j) (hj : j ≤ (tokenize s).length)
    (hsteps : steps ≤ n) (hpaid : n + 20 * i ≤ steps + c + 20 * j) :
    Settles s i steps c d (.error (.refused e) ⟨j, n⟩) (.error e)

/-- With `c` steps in hand, from position `i` the run comes to the same as the parser, and has
`d` in hand then. -/
def Affords (s : String) (i c : Nat) (d : α → Nat) (p : Indexed α) (q : Parser α) : Prop :=
  i ≤ (tokenize s).length → ∀ steps, Settles s i steps c d (p.runAt s i steps)
    (q.run (place (tokenize s) s.utf8ByteSize i))

/-- What comes after some steps that have been paid for. -/
theorem Settles.after {o : EStateM.Result Fault Walk α} {o' : Except ParseError (α × Cursor)}
    (h : Settles s j n r d o o') (hij : i ≤ j) (hsteps : steps ≤ n)
    (hpaid : n + r + 20 * i ≤ steps + c + 20 * j) : Settles s i steps c d o o' := by
  cases h with
  | ok hij' hj' hsteps' hpaid' => exact .ok (by omega) hj' (by omega) (by omega)
  | error hij' hj' hsteps' hpaid' => exact .error (by omega) hj' (by omega) (by omega)

/-- Steps may be kept in hand at the beginning, and given away at the end. -/
theorem Settles.mono {o : EStateM.Result Fault Walk α} {o' : Except ParseError (α × Cursor)}
    (h : Settles s i steps x y o o') (hx : x ≤ c) (hd : ∀ a, d a + x ≤ y a + c) :
    Settles s i steps c d o o' := by
  cases h with
  | @ok a j n hij hj hsteps hpaid =>
    have hd := hd a
    exact .ok hij hj hsteps (by omega)
  | error hij hj hsteps hpaid => exact .error hij hj hsteps (by omega)

namespace Affords

variable {p : Indexed α} {q : Parser α} {kind : Kind}

theorem pure {a : α} (ha : d a ≤ c) : Affords s i c d (pure a) (pure a) :=
  fun hi _ => .ok (Nat.le_refl i) hi (Nat.le_refl _) (by omega)

/-- So may steps of a run. -/
theorem mono (h : Affords s i x y p q) (hx : x ≤ c) (hd : ∀ a, d a + x ≤ y a + c) :
    Affords s i c d p q := fun hi steps => (h hi steps).mono hx hd

/-- **One after the other**: the second one has in hand what the first one leaves, and stands
further on if that is more than before. -/
theorem before {f : α → Indexed β} {g : α → Parser β} (hp : Affords s i c y p q)
    (hf : ∀ a j, i ≤ j → (c < y a → i < j) → Affords s j (y a) z (f a) (g a)) :
    Affords s i c z (p >>= f) (q >>= g) := by
  intro hi steps
  have hp := hp hi steps
  rw [StateT.run_bind, runAt_bind]
  revert hp
  generalize p.runAt s i steps = o
  generalize q.run _ = o'
  rintro (⟨hij, hj, hsteps, hpaid⟩ | ⟨hij, hj, hsteps, hpaid⟩)
  · exact (hf _ _ hij (by omega) hj _).after hij hsteps hpaid
  · exact .error hij hj hsteps hpaid

/-- What the first one does not need is put by for the second. -/
theorem bind {f : α → Indexed β} {g : α → Parser β} (hp : Affords s i x y p q)
    (hf : ∀ a j, i ≤ j → Affords s j (r + y a) z (f a) (g a)) :
    Affords s i (r + x) z (p >>= f) (q >>= g) :=
  (hp.mono (Nat.le_add_left x r) (d := fun a => r + y a) fun a => by omega).before
    fun a j hj _ => hf a j hj

/-- Mapping what was read costs nothing. -/
theorem map {f : α → β} (hp : Affords s i x y p q) (hx : x ≤ c)
    (hz : ∀ a, z (f a) + x ≤ y a + c) : Affords s i c z (f <$> p) (f <$> q) := by
  rw [map_eq_pure_bind, map_eq_pure_bind]
  exact (hp.mono hx (d := fun a => z (f a)) hz).before fun a j _ _ => pure (Nat.le_refl _)

/-- Either side of a branch has the same steps in hand. -/
theorem ite {P : Prop} [Decidable P] {p' : Indexed α} {q' : Parser α}
    (hp : P → Affords s i c d p q) (hp' : ¬P → Affords s i c d p' q') :
    Affords s i c d (if P then p else p') (if P then q else q') := by
  split
  · next h => exact hp h
  · next h => exact hp' h

/-! ### Looking at tokens -/

/-- A step in hand pays for a tick. -/
theorem tick (h : Affords s i c d p q) :
    Affords s i (c + 1) d (Indexed.tick >>= fun _ => p) q :=
  fun hi steps => (h hi (steps + 1)).after (Nat.le_refl i) (Nat.le_succ steps) (by omega)

/-- **A call takes a token** if it ends with more in hand than it began with. -/
theorem taking (hd : ∀ a, c < d a) (h : Affords s i c d p q) :
    Affords s i (c + 1) d (taking p) q := by
  have hchecked : Affords s i c d (p >>= fun a => get >>= fun w =>
      if w.position = i then throw .idle else Pure.pure a) (q >>= Pure.pure) := by
    refine h.before fun a j _ hlt hj steps => ?_
    change Settles s j steps (d a) d
      ((if j = i then throw .idle else Pure.pure a : Indexed α).runAt s j steps) _
    rw [if_neg (Nat.ne_of_gt (hlt (hd a)))]
    exact pure (Nat.le_refl _) hj steps
  rw [bind_pure] at hchecked
  exact fun hi steps =>
    (hchecked hi (steps + 1)).after (Nat.le_refl i) (Nat.le_succ steps) (by omega)

/-- A look that the parser does not need. -/
theorem glance {f : Option Kind → Indexed α}
    (h : Affords s i c d (f ((tokenize s)[i]?.map Token.kind)) q) :
    Affords s i (c + 1) d (Indexed.peek >>= f) q := fun hi steps =>
  (h hi (steps + 1)).after (Nat.le_refl i) (Nat.le_succ steps) (by omega)

/-- A look that only the parser needs. -/
theorem glimpse {g : Option Kind → Parser α}
    (h : Affords s i c d p (g ((tokenize s)[i]?.map Token.kind))) :
    Affords s i c d p (Parser.peek >>= g) := by
  intro hi steps
  have hpeek : (Parser.peek >>= g).run (place (tokenize s) s.utf8ByteSize i) =
      (g ((tokenize s)[i]?.map Token.kind)).run (place (tokenize s) s.utf8ByteSize i) := by
    rw [← Cursor.head?_place]
    rfl
  rw [hpeek]
  exact h hi steps

/-- A look at the next token costs a step. -/
theorem peek {f : Option Kind → Indexed α} {g : Option Kind → Parser α}
    (h : ∀ o, (tokenize s)[i]?.map Token.kind = o → Affords s i c d (f o) (g o)) :
    Affords s i (c + 1) d (Indexed.peek >>= f) (Parser.peek >>= g) :=
  glance (glimpse (h _ rfl))

theorem touching {f : Option Kind → Indexed α} {g : Option Kind → Parser α}
    (h : ∀ o, (∀ kind ∈ o, (tokenize s)[i]?.map Token.kind = some kind) →
      Affords s i c d (f o) (g o)) :
    Affords s i (c + 1) d (Indexed.touching >>= f) (Parser.touching >>= g) := by
  intro hi steps
  have hshows (kind : Kind)
      (h : kind ∈ (place (tokenize s) s.utf8ByteSize i).touching?.map Token.kind) :
      (tokenize s)[i]?.map Token.kind = some kind := by
    rw [← Cursor.sight_touching] at h
    exact Cursor.shows_place.1 (Cursor.shows_of_touching h)
  rw [runAt_bind, runAt_touching hi]
  exact (h _ hshows hi (steps + 1)).after (Nat.le_refl i) (Nat.le_succ steps) (by omega)

/-- **A token is taken**, and twenty steps are in hand for it. -/
theorem skip {f : Option Token → Indexed α} {q : Parser α}
    (hkind : (tokenize s)[i]?.map Token.kind = some kind)
    (h : ∀ t, (tokenize s)[i]? = some t → t.kind = kind →
      Affords s (i + 1) (c + 20) d (f (some t)) q) :
    Affords s i (c + 1) d (advance >>= f) (Parser.skip >>= fun _ => q) := by
  intro hi steps
  obtain ⟨t, ht, rfl⟩ := Option.map_eq_some_iff.1 hkind
  have hlt := (List.getElem?_eq_some_iff.1 ht).1
  have hskip : (Parser.skip >>= fun _ => q).run (place (tokenize s) s.utf8ByteSize i) =
      q.run (place (tokenize s) s.utf8ByteSize (i + 1)) := by
    rw [← Cursor.advance_place hlt]
    rfl
  rw [hskip, runAt_bind, runAt_advance ht]
  exact (h t ht rfl hlt (steps + 1)).after (Nat.le_succ i) (Nat.le_succ steps) (by omega)

/-- A token that is taken pays for twenty steps. -/
theorem skip_pure {a : α} (hkind : (tokenize s)[i]?.map Token.kind = some kind)
    (ha : d a ≤ c + 20) :
    Affords s i (c + 1) d (advance >>= fun _ => Pure.pure a)
      (Parser.skip >>= fun _ => Pure.pure a) :=
  skip hkind fun _ _ _ => pure ha

/-- Cutting out a piece that is there is no step. -/
theorem slice {start stop : Nat} {piece : String} {f : String → Indexed α}
    (hpiece : Text.piece? start stop s = some piece) (h : Affords s i c d (f piece) q) :
    Affords s i c d (slice start stop >>= f) q := by
  intro hi steps
  rw [runAt_bind, runAt_slice hpiece]
  exact h hi steps

/-- What is cut out costs nothing, as the bytes are known to be those of the text. -/
theorem pieceOf {start stop : Nat} {piece u : String} {d : String → Nat}
    (hpiece : Text.piece? start stop u = some piece) (hd : d piece ≤ c) :
    Affords s i c d (pieceOf start stop u) (Pure.pure piece) := by
  intro hi steps
  rw [runAt_pieceOf hpiece]
  exact pure hd hi steps

/-- A look by the parser alone costs nothing. -/
theorem look {g : Option Sight → Parser α}
    (h : Affords s i c d p (g (place (tokenize s) s.utf8ByteSize i).sight)) :
    Affords s i c d p (Parser.look >>= g) := h

/-! ### Refusing tokens -/

/-- An error ends the run, whatever would be in hand. -/
theorem unexpected {expected : List Kind} :
    Affords s i (c + 1) d (unexpected expected) (Parser.unexpected expected) := by
  intro hi steps
  obtain ⟨j, hij, hj, hrun⟩ := exists_runAt_unexpected expected hi
  rw [hrun]
  exact .error hij hj (Nat.le_succ steps) (by omega)

theorem refuseNext {cause : ParseError.Cause}
    (hkind : (tokenize s)[i]?.map Token.kind = some kind) :
    Affords s i c d (refuseNext cause) (Parser.refuse cause) := by
  intro hi steps
  obtain ⟨t, ht, -⟩ := Option.map_eq_some_iff.1 hkind
  have hhead : t ∈ (place (tokenize s) s.utf8ByteSize i).rest.head? := by
    rw [Cursor.head?_place, ht]
    rfl
  rw [runAt_refuseNext ht, Parser.run_refuse hhead]
  exact .error (Nat.le_refl i) hi (Nat.le_refl steps) (by omega)

/-- A token that has to be of the kind that it is of. -/
theorem demand {f : Token → Indexed α} {q : Parser α}
    (hkind : (tokenize s)[i]?.map Token.kind = some kind)
    (h : ∀ t, (tokenize s)[i]? = some t → Affords s (i + 1) (c + 20) d (f t) q) :
    Affords s i (c + 2) d (expect kind >>= f) (Parser.skip >>= fun _ => q) := by
  unfold Indexed.expect
  rw [bind_assoc]
  refine glance ?_
  rw [if_pos hkind, bind_assoc]
  exact skip hkind fun t ht _ => h t ht

/-- A token that has to be of a kind is taken or refused, in two steps at most. -/
theorem expect {f : Token → Indexed α} {q : Parser α}
    (h : ∀ t, (tokenize s)[i]? = some t → Affords s (i + 1) (c + 20) d (f t) q) :
    Affords s i (c + 2) d (expect kind >>= f) (Parser.expect kind >>= fun _ => q) := by
  unfold Parser.expect
  rw [bind_assoc]
  refine glimpse ?_
  split
  · next hkind => exact demand hkind h
  · next hkind =>
    unfold Indexed.expect
    rw [bind_assoc]
    refine glance ?_
    rw [if_neg hkind]
    intro hi steps
    obtain ⟨j, hij, hj, hrun⟩ := exists_runAt_unexpected [kind] hi
    rw [runAt_bind, hrun]
    exact .error hij hj (Nat.le_succ steps) (by omega)

/-! ### Repetitions -/

/-- **A repetition** ends: a turn that has more in hand at its end than at its start has taken
a token, and no token is left where there are no more turns. -/
theorem iterate {l : Nat} {step : σ → Indexed (Option σ)} {step' : σ → Parser (Option σ)}
    (hc : c < 20)
    (h : ∀ a j, i ≤ j → Affords s j c (fun o => o.elim l fun _ => 20) (step a) (step' a))
    (hend : ∀ a, Parser.Declines (step' a)) (a : σ) :
    Affords s i (c + 1) (fun _ => l) (iterate step a) (Parser.iterate step' a) := by
  have hturn {m m' : Nat} {a : σ} {j : Nat} (hj : i ≤ j)
      (hgo : ∀ a' j', j < j' → Affords s j' (c + 1) (fun _ => l)
        (Indexed.iterate.go step m a') (Parser.iterate.go step' m' a')) :
      Affords s j (c + 1) (fun _ => l) (Indexed.iterate.go step (m + 1) a)
        (Parser.iterate.go step' (m' + 1) a) := by
    refine .tick ((h a j hj).before fun o j' hj' hlt => ?_)
    cases o with
    | none => exact pure (Nat.le_refl l)
    | some a' => exact (hgo a' j' (hlt hc)).mono hc fun _ => Nat.add_le_add_left hc l
  have hgo (m : Nat) (a : σ) (j : Nat) (hj : i ≤ j) (hm : (tokenize s).length - j ≤ m) :
      Affords s j (c + 1) (fun _ => l) (Indexed.iterate.go step (m + 1) a)
        (Parser.iterate.go step' m a) := by
    induction m generalizing a j with
    | zero =>
      -- behind the last token the step declines, so the last turn is the one that ends the loop
      intro hle
      have hrest : (place (tokenize s) s.utf8ByteSize j).rest = [] :=
        List.drop_eq_nil_of_le (by omega)
      have hlast : (Parser.iterate.go step' 0 a).run (place (tokenize s) s.utf8ByteSize j) =
          (Parser.iterate.go step' 1 a).run (place (tokenize s) s.utf8ByteSize j) := by
        rw [Parser.iterate.go, Parser.iterate.go, StateT.run_bind, hend a _ hrest]
        rfl
      rw [hlast]
      exact hturn hj (fun a' j' hj' hle' => by omega) hle
    | succ m ih => exact hturn hj fun a' j' hj' => ih a' j' (by omega) (by omega)
  intro hi steps
  have hlength : (place (tokenize s) s.utf8ByteSize i).rest.length = (tokenize s).length - i :=
    List.length_drop
  change Settles s i steps (c + 1) (fun _ => l) _
    ((Parser.iterate.go step' (place (tokenize s) s.utf8ByteSize i).rest.length a).run _)
  rw [hlength]
  exact hgo _ a i (Nat.le_refl i) (Nat.le_refl _) hi steps

/-- A repetition pays each step with what the one before has left. -/
theorem many {l : Nat} {step : Indexed (Option α)} {step' : Parser (Option α)} (hc : c < 20)
    (h : ∀ j, i ≤ j → Affords s j c (fun o => o.elim l fun _ => 20) step step')
    (hend : Parser.Declines step') :
    Affords s i (c + 1) (fun _ => l) (many step) (Parser.many step') := by
  rw [Parser.many_eq_iterate]
  refine (iterate hc (fun as j hj => ?_) hend.pushing []).map (Nat.le_refl _) fun _ => Nat.le_refl _
  refine (h j hj).map (Nat.le_refl c) fun o => ?_
  cases o with
  | none => exact Nat.le_refl _
  | some a => exact Nat.le_refl _

end Affords

end Indexed

end DiceNotation
