import DiceNotation.Grammar.Cursor

/-!
# Places in a text

A parser sees no more of a text than the next token and whether it touches the one before
(`Cursor.sight`), and it is always before one of the tokens or behind the last one
(`Cursor.place`). What it does there is looked at step by step: a bind is one run after the
other, and a repetition is one step and a repetition from there on.
-/

namespace DiceNotation

/-! ## What is seen and what is taken -/

/-- What a parser can see of the next token. -/
structure Sight where
  kind : Token.Kind
  text : String
  /-- The token begins where the last one ended. -/
  touches : Bool
deriving DecidableEq

namespace Sight

/-- The kind of a token that touches the one before. -/
def touching (s : Sight) : Option Token.Kind := if s.touches then some s.kind else none

theorem kind_of_touching {s : Sight} {kind : Token.Kind} (h : s.touching = some kind) :
    s.kind = kind := by
  unfold touching at h
  split at h
  · exact Option.some.inj h
  · cases h

end Sight

namespace Cursor

variable {c : Cursor}

/-- The next token as a parser sees it, if there is one. -/
def sight (c : Cursor) : Option Sight :=
  c.rest.head?.map fun t => ⟨t.kind, t.text, some t.start == c.previous⟩

@[simp] theorem sight_cons {previous : Option Nat} {t : Token} {ts : List Token}
    {finish : Nat} :
    (Cursor.mk previous (t :: ts) finish).sight =
      some ⟨t.kind, t.text, some t.start == previous⟩ := rfl

theorem sight_eq_none : c.sight = none ↔ c.rest = [] := by
  simp [sight]

/-- Looking at the next kind is looking at the next token. -/
theorem sight_kind : c.sight.map Sight.kind = c.rest.head?.map Token.kind := by
  simp [sight, Function.comp_def]

/-- So is looking whether the next token touches the one before. -/
theorem sight_touching : c.sight.bind Sight.touching = c.touching?.map Token.kind := by
  unfold sight touching?
  cases c.rest with
  | nil => rfl
  | cons t ts =>
    by_cases h : some t.start == c.previous
    · simp [Sight.touching, Option.filter, h]
    · simp [Sight.touching, Option.filter, h]

/-- The next token is of this kind. -/
def Shows (c : Cursor) (kind : Token.Kind) : Prop := c.sight.map Sight.kind = some kind

theorem shows_of_sight {s : Sight} (h : c.sight = some s) : c.Shows s.kind := by
  rw [Shows, h, Option.map_some]

theorem shows_of_touching {kind : Token.Kind} (h : c.sight.bind Sight.touching = some kind) :
    c.Shows kind := by
  obtain ⟨s, hs, hkind⟩ := Option.bind_eq_some_iff.1 h
  rw [Shows, hs, Option.map_some, Sight.kind_of_touching hkind]

/-- Going on never puts a token back. -/
theorem length_rest_advance_le (c : Cursor) : c.advance.rest.length ≤ c.rest.length := by
  obtain ⟨previous, rest, finish⟩ := c
  cases rest with
  | nil => exact Nat.le_refl _
  | cons t ts => exact Nat.le_succ _

/-! ## Places -/

section Place

variable {ts : List Token} {finish i : Nat} {kind : Token.Kind}

/-- The place behind so many tokens of a text. -/
def place (ts : List Token) (finish i : Nat) : Cursor :=
  ⟨(ts.take i).getLast?.map Token.stop, ts.drop i, finish⟩

theorem head?_place : (place ts finish i).rest.head? = ts[i]? := List.head?_drop

theorem sight_place : (place ts finish i).sight =
    ts[i]?.map fun t => ⟨t.kind, t.text, some t.start == (place ts finish i).previous⟩ := by
  rw [sight, head?_place]

theorem shows_place : (place ts finish i).Shows kind ↔ ts[i]?.map Token.kind = some kind := by
  rw [Shows, sight_kind, head?_place]

theorem length_rest_place : (place ts finish i).rest.length = ts.length - i := List.length_drop

/-- One token further on is the place behind one token more. -/
theorem advance_place (h : i < ts.length) :
    (place ts finish i).advance = place ts finish (i + 1) := by
  have hlast : (ts.take (i + 1)).getLast? = some ts[i] := by
    rw [List.take_add_one, List.getElem?_eq_getElem h, Option.toList_some, List.getLast?_concat]
  simp only [place, advance, List.drop_eq_getElem_cons h, hlast, Option.map_some]

/-- Where a token is seen the text goes on. -/
theorem lt_of_shows (h : (place ts finish i).Shows kind) : i < ts.length := by
  refine Nat.lt_of_not_le fun hle => ?_
  rw [Shows, sight_eq_none.2 (List.drop_eq_nil_of_le hle)] at h
  cases h

/-- There is a token before this place, and the next one does not touch it. -/
def Loose (c : Cursor) : Prop := c.previous ≠ none ∧ c.sight.bind Sight.touching = none

/-- A token that does not touch the one before stands at a loose place, unless it is the
first one. -/
theorem loose_place (hi : 0 < i) (hkind : (place ts finish i).Shows kind)
    (h : (place ts finish i).sight.bind Sight.touching = none) : (place ts finish i).Loose := by
  have hlt := lt_of_shows hkind
  refine ⟨?_, h⟩
  simp only [place, ne_eq, Option.map_eq_none_iff, List.getLast?_eq_none_iff,
    List.take_eq_nil_iff]
  rintro (rfl | rfl)
  · exact Nat.lt_irrefl 0 hi
  · exact Nat.not_lt_zero i hlt

/-- Every cursor is a place in some text: what ends before it is a token there. -/
theorem exists_eq_place (c : Cursor) :
    ∃ ts i, i ≤ ts.length ∧ c = place ts c.finish i := by
  obtain ⟨_ | stop, rest, finish⟩ := c
  · exact ⟨rest, 0, Nat.zero_le _, rfl⟩
  · refine ⟨⟨.error, stop, ""⟩ :: rest, 1, Nat.le_add_left 1 _, ?_⟩
    simp [place, Token.stop]

end Place

end Cursor

namespace Parser

variable {α β σ : Type} {c : Cursor}

/-- The next token as it is seen. -/
def look : Parser (Option Sight) := return (← get).sight

/-- A look at the next kind is a look at all that can be seen. -/
theorem peek_bind (f : Option Token.Kind → Parser α) :
    (peek >>= f) = (look >>= fun s => f (s.map Sight.kind)) := by
  funext c
  change (f _).run c = (f _).run c
  rw [Cursor.sight_kind]

/-- So is a look at a kind that touches. -/
theorem touching_bind (f : Option Token.Kind → Parser α) :
    (touching >>= f) = (look >>= fun s => f (s.bind Sight.touching)) := by
  funext c
  change (f _).run c = (f _).run c
  rw [Cursor.sight_touching]

theorem run_look_bind (f : Option Sight → Parser α) :
    (look >>= f).run c = (f c.sight).run c := rfl

theorem run_skip : skip.run c = .ok ((), c.advance) := rfl

/-- A sequence gives a result if its first part does and then its second one does from
there. -/
theorem run_bind_eq_ok {p : Parser α} {f : α → Parser β} {b : β} {e : Cursor} :
    (p >>= f).run c = .ok (b, e) ↔
      ∃ a d, p.run c = .ok (a, d) ∧ (f a).run d = .ok (b, e) := by
  rw [StateT.run_bind]
  cases hp : p.run c with
  | error e => simp [bind, Except.bind]
  | ok r =>
    obtain ⟨a, d⟩ := r
    constructor
    · exact fun h => ⟨a, d, rfl, h⟩
    · rintro ⟨a', d', hr, h⟩
      cases hr
      exact h

/-- A sequence is refused where its first part is, or where its second one is behind it. -/
theorem run_bind_eq_error {p : Parser α} {f : α → Parser β} {err : ParseError} :
    (p >>= f).run c = .error err ↔ p.run c = .error err ∨
      ∃ a d, p.run c = .ok (a, d) ∧ (f a).run d = .error err := by
  rw [StateT.run_bind]
  cases hp : p.run c with
  | error e => simp [bind, Except.bind]
  | ok r =>
    obtain ⟨a, d⟩ := r
    constructor
    · exact fun h => .inr ⟨a, d, rfl, h⟩
    · rintro (h | ⟨a', d', hr, h⟩)
      · cases h
      · cases hr
        exact h

theorem run_pure_eq_ok {a b : α} {e : Cursor} :
    (pure a : Parser α).run c = .ok (b, e) ↔ a = b ∧ c = e := by
  change Except.ok (a, c) = Except.ok (b, e) ↔ _
  simp

/-- What is refused is the next token. -/
theorem run_refuse {cause : ParseError.Cause} {t : Token} (ht : t ∈ c.rest.head?) :
    (Parser.refuse cause : Parser α).run c = .error (.onToken cause t) := by
  obtain ⟨previous, rest, finish⟩ := c
  obtain ⟨us, rfl⟩ := List.head?_eq_some_iff.1 ht
  rfl

theorem run_unexpected_ne_ok {expected : List Token.Kind} {a : α} {e : Cursor} :
    (unexpected expected : Parser α).run c ≠ .ok (a, e) := by
  intro h
  cases h

theorem run_refuse_ne_ok {cause : ParseError.Cause} {a : α} {e : Cursor} :
    (refuse cause : Parser α).run c ≠ .ok (a, e) := by
  intro h
  obtain ⟨d, e', -, h⟩ := run_bind_eq_ok.1 h
  split at h
  · cases h
  · cases h

/-! ## Repetitions -/

/-- The tokens that a step takes at least: one if it gives something. -/
def taken : Option α → Nat
  | none => 0
  | some _ => 1

/-- A step of a repetition gives one thing or none. -/
theorem taken_le_one (o : Option α) : taken o ≤ 1 := by
  cases o with
  | none => exact Nat.zero_le 1
  | some a => exact Nat.le_refl 1

/-- The step gives nothing at the end. -/
def Declines (step : Parser (Option α)) : Prop := ∀ c, c.rest = [] → step.run c = .ok (none, c)

section Many

variable {step : Parser (Option α)} {l : List α} {n n' : Nat} {e : Cursor}

/-- A repetition with fuel left ends with its first step, or goes on behind it. -/
theorem run_many_go_succ :
    (many.go step (n + 1)).run c = .ok (l, e) ↔
      (step.run c = .ok (none, e) ∧ l = []) ∨
      ∃ a d l', step.run c = .ok (some a, d) ∧ (many.go step n).run d = .ok (l', e) ∧
        l = a :: l' := by
  rw [many.go, run_bind_eq_ok]
  constructor
  · rintro ⟨_ | a, d, hstep, hrest⟩
    · obtain ⟨rfl, rfl⟩ := run_pure_eq_ok.1 hrest
      exact .inl ⟨hstep, rfl⟩
    · obtain ⟨l', d', hgo, hl⟩ := run_bind_eq_ok.1 hrest
      obtain ⟨rfl, rfl⟩ := run_pure_eq_ok.1 hl
      exact .inr ⟨a, d, l', hstep, hgo, rfl⟩
  · rintro (⟨hstep, rfl⟩ | ⟨a, d, l', hstep, hgo, rfl⟩)
    · exact ⟨none, e, hstep, rfl⟩
    · exact ⟨some a, d, hstep, run_bind_eq_ok.2 ⟨l', e, hgo, rfl⟩⟩

/-- Nothing is collected where nothing is left or the step gives nothing. -/
theorem run_many_nil (h : c.rest ≠ [] → step.run c = .ok (none, c)) :
    (many step).run c = .ok ([], c) := by
  change (many.go step c.rest.length).run c = _
  cases hc : c.rest with
  | nil => rfl
  | cons t ts => exact run_many_go_succ.2 (.inl ⟨h (hc ▸ List.cons_ne_nil t ts), rfl⟩)

variable (hend : Declines step)
  (hstep : ∀ c a d, step.run c = .ok (some a, d) → d.rest.length < c.rest.length)

include hend

/-- Behind the last token nothing is repeated. -/
theorem run_many_go_nil (hc : c.rest = []) :
    (many.go step n).run c = .ok (l, e) ↔ l = [] ∧ c = e := by
  cases n with
  | zero =>
    rw [many.go, run_pure_eq_ok]
    exact and_congr_left' eq_comm
  | succ n =>
    rw [run_many_go_succ, hend c hc]
    simp
    exact and_comm

include hstep

/-- As much fuel as there are tokens is enough, and more of it changes nothing. -/
theorem run_many_go_congr (hn : c.rest.length ≤ n) (hn' : c.rest.length ≤ n') :
    (many.go step n).run c = .ok (l, e) ↔ (many.go step n').run c = .ok (l, e) := by
  induction n generalizing c l n' with
  | zero =>
    have hc := List.eq_nil_of_length_eq_zero (Nat.le_zero.1 hn)
    rw [run_many_go_nil hend hc, run_many_go_nil hend hc]
  | succ n ih =>
    cases n' with
    | zero =>
      have hc := List.eq_nil_of_length_eq_zero (Nat.le_zero.1 hn')
      rw [run_many_go_nil hend hc, run_many_go_nil hend hc]
    | succ n' =>
      rw [run_many_go_succ, run_many_go_succ]
      refine or_congr_right (exists_congr fun a => exists_congr fun d => exists_congr fun l' => ?_)
      refine and_congr_right fun h => and_congr_left' ?_
      have hlength := hstep c a d h
      have hd : d.rest.length ≤ n := by omega
      have hd' : d.rest.length ≤ n' := by omega
      exact ih hd hd'

/-- **Collecting is one step, and collecting from there on.** -/
theorem run_many_eq_ok :
    (many step).run c = .ok (l, e) ↔
      (step.run c = .ok (none, e) ∧ l = []) ∨
      ∃ a d l', step.run c = .ok (some a, d) ∧ (many step).run d = .ok (l', e) ∧ l = a :: l' := by
  have hmany (c : Cursor) : (many step).run c = (many.go step c.rest.length).run c := rfl
  rw [hmany, run_many_go_congr hend hstep (Nat.le_refl _) (Nat.le_succ _), run_many_go_succ]
  refine or_congr_right (exists_congr fun a => exists_congr fun d => exists_congr fun l' => ?_)
  refine and_congr_right fun h => and_congr_left' ?_
  rw [hmany]
  exact run_many_go_congr hend hstep (Nat.le_of_lt (hstep c a d h)) (Nat.le_refl _)

end Many

/-- An iteration with fuel left ends where its step declines, or goes on with what it gave.
-/
theorem run_iterate_go_succ {step : σ → Parser (Option σ)} {n : Nat} {s s' : σ} {e : Cursor} :
    (iterate.go step (n + 1) s).run c = .ok (s', e) ↔
      (step s).run c = .ok (none, e) ∧ s = s' ∨
      ∃ s'' d, (step s).run c = .ok (some s'', d) ∧
        (iterate.go step n s'').run d = .ok (s', e) := by
  rw [iterate.go, run_bind_eq_ok]
  constructor
  · rintro ⟨_ | s'', d, hstep, hgo⟩
    · obtain ⟨rfl, rfl⟩ := run_pure_eq_ok.1 hgo
      exact .inl ⟨hstep, rfl⟩
    · exact .inr ⟨s'', d, hstep, hgo⟩
  · rintro (⟨hstep, rfl⟩ | ⟨s'', d, hstep, hgo⟩)
    · exact ⟨none, e, hstep, rfl⟩
    · exact ⟨some s'', d, hstep, hgo⟩

/-- A step that puts what another step gives in front of a list. -/
def pushing (step : Parser (Option α)) (l : List α) : Parser (Option (List α)) :=
  Option.map (· :: l) <$> step

/-- Any fuel collects what iterating with it collects, behind what was given so far. -/
theorem many_go_eq_iterate_go (step : Parser (Option α)) (n : Nat) (l : List α) :
    (l.reverse ++ ·) <$> many.go step n = List.reverse <$> iterate.go (pushing step) n l := by
  induction n generalizing l with
  | zero => simp [many.go, iterate.go]
  | succ n ih =>
    simp only [many.go, iterate.go, pushing, map_bind, bind_map_left]
    congr 1
    funext o
    cases o with
    | none => simp
    | some a => simpa using ih (a :: l)

/-- Repeating a step is iterating on the list of what it has given. -/
theorem many_eq_iterate (step : Parser (Option α)) :
    many step = List.reverse <$> iterate (pushing step) [] := by
  unfold many iterate
  rw [map_bind]
  congr 1
  funext c
  simpa using many_go_eq_iterate_go step c.rest.length []

theorem Declines.pushing {step : Parser (Option α)} (h : Declines step) (l : List α) :
    Declines (pushing step l) := by
  intro c hc
  rw [Parser.pushing, StateT.run_map, h c hc]
  rfl

end Parser

end DiceNotation
