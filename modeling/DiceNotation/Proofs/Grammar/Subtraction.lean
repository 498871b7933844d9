import DiceNotation.Proofs.Grammar.Reading

/-!
# Subtraction

A minus between two expressions subtracts the second one, with gaps around it
or without, unless it touches a token that an operand may follow: there it is
the sign of a negative operand.
-/

namespace DiceNotation

open Cursor (place)

namespace Parser

variable {S : Seam} {c c' d e : Cursor} {p q nested : Parser Node} {ts : List Token}
  {finish i : Nat} {hguarded : S.Guarded ts}

/-! ## Links -/

/-- A link is read just if there is an operator, and then with the operand behind it. -/
theorem run_link?_eq_ok {ω : Type} {opOf? : Token.Kind → Option ω} {o : Option (Link ω Node)} :
    (link? opOf? p).run c = .ok (o, e) ↔
      ((c.sight.map Sight.kind).bind opOf? = none ∧ o = none ∧ c = e) ∨
      ∃ op term, (c.sight.map Sight.kind).bind opOf? = some op ∧ p.run c.advance = .ok (term, e) ∧
        o = some ⟨op, term⟩ := by
  unfold link?
  rw [peek_bind, run_look_bind]
  cases hop : (c.sight.map Sight.kind).bind opOf? with
  | none =>
    dsimp only
    rw [run_pure_eq_ok]
    simp [eq_comm]
  | some op =>
    dsimp only
    rw [run_bind_eq_ok]
    constructor
    · rintro ⟨_, _, hskip, h⟩
      cases hskip
      obtain ⟨term, d, hterm, h⟩ := run_bind_eq_ok.1 h
      obtain ⟨rfl, rfl⟩ := run_pure_eq_ok.1 h
      exact .inr ⟨op, term, rfl, hterm, rfl⟩
    · rintro (⟨h, -⟩ | ⟨_, term, h, hterm, rfl⟩)
      · cases h
      · cases h
        exact ⟨(), c.advance, rfl, run_bind_eq_ok.2 ⟨term, e, hterm, rfl⟩⟩

/-- Parsers of which every reading takes a token. -/
def Proceeds (p : Parser Node) : Prop :=
  ∀ c a e, p.run c = .ok (a, e) → e.rest.length < c.rest.length

/-- Links are read one by one, up to where no operator stands. -/
theorem run_links_eq_ok {ω : Type} {opOf? : Token.Kind → Option ω} (hp : Proceeds p)
    {l : List (Link ω Node)} :
    (many (link? opOf? p)).run c = .ok (l, e) ↔
      ((c.sight.map Sight.kind).bind opOf? = none ∧ c = e ∧ l = []) ∨
      ∃ op term d l', (c.sight.map Sight.kind).bind opOf? = some op ∧
        p.run c.advance = .ok (term, d) ∧ (many (link? opOf? p)).run d = .ok (l', e) ∧
        l = ⟨op, term⟩ :: l' := by
  rw [run_many_eq_ok (declines_link? opOf? p)]
  · constructor
    · rintro (⟨h, rfl⟩ | ⟨a, d, l', h, hl, rfl⟩)
      · rcases run_link?_eq_ok.1 h with ⟨hop, -, rfl⟩ | ⟨op, term, -, -, h⟩
        · exact .inl ⟨hop, rfl, rfl⟩
        · cases h
      · rcases run_link?_eq_ok.1 h with ⟨-, h, -⟩ | ⟨op, term, hop, hterm, h⟩
        · cases h
        · cases h
          exact .inr ⟨op, term, d, l', hop, hterm, hl, rfl⟩
    · rintro (⟨hop, rfl, rfl⟩ | ⟨op, term, d, l', hop, hterm, hl, rfl⟩)
      · exact .inl ⟨run_link?_eq_ok.2 (.inl ⟨hop, rfl, rfl⟩), rfl⟩
      · exact .inr ⟨_, d, l', run_link?_eq_ok.2 (.inr ⟨op, term, hop, hterm, rfl⟩), hl, rfl⟩
  · intro c a d h
    rcases run_link?_eq_ok.1 h with ⟨-, h, -⟩ | ⟨op, term, -, hterm, -⟩
    · cases h
    · exact Nat.lt_of_lt_of_le (hp _ _ _ hterm) (Cursor.length_rest_advance_le c)

/-- Links up to the seam are there in the second reading too, and what is read
behind the seam goes on after them. -/
theorem exists_links_goOn {ω : Type} {opOf? : Token.Kind → Option ω}
    (hplain : ∀ kind op, opOf? kind = some op → kind.isPlain) (hp : Proceeds p) (hq : Proceeds q)
    (hkeeps : ∀ j, (S.tracking ts finish hguarded).Keeps 0 j p q (Says ts j))
    {l : List (Link ω Node)} (hi : i ≤ ts.length)
    (h : (many (link? opOf? p)).run (place ts finish i) = .ok (l, e))
    (he : S.first.length ≤ e.rest.length) (hc : S.Along (place ts finish i) c') :
    ∃ e', S.Along e e' ∧ ∀ l' f, (many (link? opOf? q)).run e' = .ok (l', f) →
      (many (link? opOf? q)).run c' = .ok (l ++ l', f) := by
  induction l generalizing i c' with
  | nil =>
    rcases (run_links_eq_ok hp).1 h with ⟨-, rfl, -⟩ | ⟨_, _, _, _, -, -, -, h⟩
    · exact ⟨c', hc, fun l' f h => h⟩
    · cases h
  | cons link l ih =>
    rcases (run_links_eq_ok hp).1 h with ⟨-, -, h⟩ | ⟨op, term, d, l₁, hop, hterm, hl, h⟩
    · cases h
    cases h
    obtain ⟨kind, hkind, -⟩ := Option.bind_eq_some_iff.1 hop
    have hlt := Cursor.lt_of_shows hkind
    have hadvance := hc.before
    rw [Cursor.advance_place hlt] at hterm hadvance
    -- where the term and the rest of the links end
    obtain ⟨j, hij, hj, rfl, -⟩ := (hkeeps (i + 1)).takes hlt term d hterm
    have hlinks : Takes ts finish j (many (link? opOf? p)) _ :=
      (Coupling.Keeps.links (R := .alone) (q := p) (m := 0) hplain
        (fun k _ => ⟨(hkeeps k).takes, trivial⟩) (by rintro ⟨_, _, ⟨⟩⟩)).takes
    obtain ⟨k, hjk, hk, rfl, -⟩ := hlinks hj l e hl
    rw [Cursor.length_rest_place] at he hadvance
    obtain ⟨hsight, halong⟩ := hadvance (by omega)
    have hd : S.first.length + 0 ≤ (place ts finish j).rest.length := by
      rw [Cursor.length_rest_place]
      omega
    obtain ⟨d', hterm', hd⟩ := (hkeeps (i + 1)).relates hlt term _ hterm hd _ halong
    obtain ⟨e', he', hgoes⟩ := ih hj hl hd
    refine ⟨e', he', fun l' f hf => (run_links_eq_ok hq).2 (.inr ?_)⟩
    exact ⟨op, term, d', l ++ l', by rw [← hsight, hop], hterm', hgoes l' f hf, rfl⟩

/-! ## Where a term starts -/

section Previous

variable {previous previous' : Option Nat} {t : Token} {ts : List Token} {finish : Nat}

/-- A literal need not touch anything. -/
theorem magnitude_run_previous (negative : Bool) :
    (magnitude negative).run ⟨previous, t :: ts, finish⟩ =
      (magnitude negative).run ⟨previous', t :: ts, finish⟩ := by
  obtain ⟨kind, start, text⟩ := t
  cases kind with
  | integer =>
    simp only [magnitude, run_look_bind, Cursor.sight_cons]
    cases integerValue? text <;> rfl
  | decimal =>
    simp only [magnitude, run_look_bind, Cursor.sight_cons]
    cases Double.ofText? text <;> rfl
  | _ => rfl

/-- Neither need a number with a sign. -/
theorem number_run_previous :
    number.run ⟨previous, t :: ts, finish⟩ = number.run ⟨previous', t :: ts, finish⟩ := by
  rw [number_eq, peek_bind, run_look_bind, run_look_bind, Cursor.sight_cons, Cursor.sight_cons]
  dsimp only [Option.map_some]
  split
  · rfl
  · exact magnitude_run_previous false

/-- Neither need a token that is expected. -/
theorem expect_bind_run_previous {α : Type} {kind : Token.Kind} (f : Unit → Parser α) :
    (expect kind >>= f).run ⟨previous, t :: ts, finish⟩ =
      (expect kind >>= f).run ⟨previous', t :: ts, finish⟩ := by
  unfold expect
  rw [bind_assoc, peek_bind, run_look_bind, run_look_bind, Cursor.sight_cons, Cursor.sight_cons]
  dsimp only [Option.map_some]
  split
  · rfl
  · rfl

/-- What does not matter to the first part does not matter. -/
theorem bind_run_previous {α β : Type} {p : Parser α}
    (h : p.run ⟨previous, t :: ts, finish⟩ = p.run ⟨previous', t :: ts, finish⟩)
    (f : α → Parser β) :
    (p >>= f).run ⟨previous, t :: ts, finish⟩ = (p >>= f).run ⟨previous', t :: ts, finish⟩ := by
  rw [StateT.run_bind, StateT.run_bind, h]

/-- A term may begin anywhere: what was before it does not matter. -/
theorem bareTerm_run_previous :
    (bareTerm nested).run ⟨previous, t :: ts, finish⟩ =
      (bareTerm nested).run ⟨previous', t :: ts, finish⟩ := by
  unfold bareTerm
  rw [peek_bind, run_look_bind, run_look_bind, Cursor.sight_cons, Cursor.sight_cons]
  dsimp only [Option.map_some]
  split
  · exact bind_run_previous number_run_previous _
  · exact bind_run_previous number_run_previous _
  · exact bind_run_previous number_run_previous _
  · exact bind_run_previous (expect_bind_run_previous _) _
  · exact bind_run_previous (expect_bind_run_previous _) _
  · exact expect_bind_run_previous _
  · exact expect_bind_run_previous _
  · split
    · rfl
    · rfl
  · rfl

/-- Nobody asks whether the first token of a term touches what is before it. -/
theorem product_run_previous :
    (product nested).run ⟨previous, t :: ts, finish⟩ =
      (product nested).run ⟨previous', t :: ts, finish⟩ :=
  bind_run_previous (bind_run_previous (bind_run_previous bareTerm_run_previous _) _) _

end Previous

end Parser

/-! ## The tokens around a minus -/

namespace Token

/-- A minus is one token, whatever follows. -/
theorem leads_minus (cs : List Char) : Leads .minus ['-'] cs where
  next := rfl
  gapless := by simp [isGap]

/-- The tokens of two texts with a minus between them. -/
theorem tokenize_minus {a b : String} {gaps gaps' : List Char}
    (ha : ∀ t ∈ tokenize a, t.kind ≠ .error) (hgaps : ∀ c ∈ gaps, isGap c)
    (hgaps' : ∀ c ∈ gaps', isGap c) :
    ∃ n, tokenize (a ++ String.ofList gaps ++ "-" ++ String.ofList gaps' ++ b) =
      tokenize a ++ ⟨.minus, a.utf8ByteSize + Text.bytes gaps, "-"⟩ ::
        (tokenize b).map (shift n) := by
  have hminus (start : Nat) (cs : List Char) : tokensAt start ('-' :: cs) =
      ⟨.minus, start, "-"⟩ :: tokensAt (start + Text.bytes ['-']) cs :=
    (leads_minus cs).tokensAt_eq
  have happend : tokensAt 0 (a.toList ++ (gaps ++ '-' :: (gaps' ++ b.toList))) =
      tokensAt 0 a.toList ++
        tokensAt a.utf8ByteSize (gaps ++ '-' :: (gaps' ++ b.toList)) := by
    cases gaps with
    | nil =>
      rw [List.nil_append, tokensAt_append ha (by decide), Nat.zero_add, Text.bytes_toList]
    | cons x gaps =>
      rw [List.cons_append, tokensAt_append ha (breaks_of_isGap (hgaps x List.mem_cons_self)),
        Nat.zero_add, Text.bytes_toList]
  refine ⟨a.utf8ByteSize + Text.bytes gaps + Text.bytes ['-'] + Text.bytes gaps', ?_⟩
  have htext : (a ++ String.ofList gaps ++ "-" ++ String.ofList gaps' ++ b).toList =
      a.toList ++ (gaps ++ '-' :: (gaps' ++ b.toList)) := by
    simp
  rw [tokenize_eq, htext, happend, tokensAt_gaps hgaps, hminus, tokensAt_gaps hgaps',
    tokenize_eq, tokenize_eq, ← tokensAt_add, Nat.zero_add]

end Token

/-! ## Sums -/

namespace Parser

/-- Each product takes a token. -/
theorem proceeds_product (depth : Nat) : Proceeds (product (expression depth)) := fun _ _ _ =>
  Takes.length_lt fun _ _ _ => (Coupling.Keeps.product (m := 0) (within_alone depth)).takes.mono
    fun _ _ _ hn _ => hn.1

/-- A text is a sum from its start to its end. -/
def ReadsSum (s : String) (head : Node) (tail : List (Link SumOp Node)) : Prop :=
  ∃ depth d e, (tokenize s).length = depth + 1 ∧
    (product (expression depth)).run (.start (tokenize s) s.utf8ByteSize) = .ok (head, d) ∧
    (many (link? sumOpOf? (product (expression depth)))).run d = .ok (tail, e) ∧ e.rest = []

/-- An expression is read as a sum, of one product or of more. -/
theorem reads_iff {s : String} {node : Node} :
    Reads s node ↔ ∃ head tail, ReadsSum s head tail ∧ node = Node.sum head tail := by
  constructor
  · rintro ⟨e, h, he⟩
    rw [ReadsTo] at h
    cases hdepth : (tokenize s).length with
    | zero =>
      rw [hdepth] at h
      cases h
    | succ depth =>
      rw [hdepth] at h
      obtain ⟨head, d, hhead, h⟩ := run_bind_eq_ok.1 h
      obtain ⟨tail, e', htail, h⟩ := run_bind_eq_ok.1 h
      obtain ⟨rfl, rfl⟩ := run_pure_eq_ok.1 h
      exact ⟨head, tail, ⟨depth, d, e', hdepth, hhead, htail, he⟩, rfl⟩
  · rintro ⟨head, tail, ⟨depth, d, e, hdepth, hhead, htail, he⟩, rfl⟩
    refine ⟨e, ?_, he⟩
    rw [ReadsTo, hdepth]
    exact run_bind_eq_ok.2 ⟨head, d, hhead, run_bind_eq_ok.2 ⟨tail, e, htail, rfl⟩⟩

namespace ReadsSum

variable {a b : String} {head head' : Node} {tail tail' : List (Link SumOp Node)}

/-- The sum is read where a minus stands behind it, too, and goes on with what
the minus leads to. -/
theorem goOn (h : ReadsSum a head tail) {m : Token} (hm : m.kind = .minus)
    (hopen : ∀ t ∈ (tokenize a).getLast?, t.kind ∈ Token.Kind.openEnded →
      ∀ t' ∈ tokenize a, t'.stop ≠ m.start)
    (ts : List Token) (depth bytes : Nat) (hdepth : (tokenize a).length + ts.length ≤ depth) :
    ∃ d e, (product (expression depth)).run (.start (tokenize a ++ m :: ts) bytes) = .ok (head, d) ∧
      e.rest = m :: ts ∧
      ∀ l f, (many (link? sumOpOf? (product (expression depth)))).run e = .ok (l, f) →
        (many (link? sumOpOf? (product (expression depth)))).run d = .ok (tail ++ l, f) := by
  obtain ⟨depth', d, e, hlength, hhead, htail, he⟩ := h
  -- the first reading is of `a` alone; the second one sees the minus at its end
  let S : Seam := ⟨[], m :: ts, ∀ t ∈ tokenize a, t.stop ≠ m.start, .inr ⟨rfl, by simp [hm]⟩⟩
  have hguarded : S.Guarded (tokenize a) := by
    rintro t ⟨us, hus⟩
    exact hopen t (by rw [← hus, show S.first = [] from rfl]; simp)
  have hkeeps (j : Nat) : (S.tracking (tokenize a) a.utf8ByteSize hguarded).Keeps 0 j
      (product (expression depth')) (product (expression depth)) (Says (tokenize a) j) := by
    refine .product (within_expression ?_)
    change (tokenize a).length + (ts.length + 1) ≤ j + (depth + 1) + 0
    omega
  have halong : S.Along (.start (tokenize a) a.utf8ByteSize)
      (.start (tokenize a ++ m :: ts) bytes) := by
    have h := S.along_append (tokenize a) none a.utf8ByteSize bytes
      fun hloose t ht => ⟨nofun, by cases ht; exact hloose⟩
    rwa [show S.first = [] from rfl, List.append_nil] at h
  obtain ⟨j, -, hj, rfl, -⟩ := (hkeeps 0).takes (Nat.zero_le _) head d hhead
  obtain ⟨d', hhead', hd⟩ := (hkeeps 0).relates (Nat.zero_le _) head _ hhead (Nat.zero_le _) _
    halong
  obtain ⟨e', he', hgoes⟩ := exists_links_goOn (fun _ _ => isPlain_of_eq_some rfl rfl rfl)
    (proceeds_product depth') (proceeds_product depth) hkeeps hj htail (Nat.zero_le _) hd
  refine ⟨d', e', hhead', ?_, hgoes⟩
  cases he' with
  | seam _ he' => exact he'
  | token hne => exact absurd he hne

/-- The sum is read where it stands further on, behind any token. -/
theorem further (h : ReadsSum b head tail) (n depth finish : Nat) (previous : Option Nat)
    (hdepth : (tokenize b).length ≤ depth + 1) :
    ∃ d e, (product (expression depth)).run
        ⟨previous, (tokenize b).map (Token.shift n), finish⟩ = .ok (head, d) ∧
      (many (link? sumOpOf? (product (expression depth)))).run d = .ok (tail, e) ∧
      e.rest = [] := by
  obtain ⟨depth', d, e, hlength, hhead, htail, he⟩ := h
  have hguarded : Seam.atEnd.Guarded (tokenize b) := fun _ _ _ => trivial
  have hkeeps (j : Nat) : (Seam.atEnd.tracking (tokenize b) b.utf8ByteSize hguarded).Keeps 0 j
      (product (expression depth')) (product (expression depth)) (Says (tokenize b) j) := by
    refine .product (within_expression ?_)
    change (tokenize b).length + 0 ≤ j + (depth + 1) + 0
    omega
  have halong := Seam.along_shift n (tokenize b) none b.utf8ByteSize finish
  obtain ⟨j, -, hj, rfl, -⟩ := (hkeeps 0).takes (Nat.zero_le _) head d hhead
  obtain ⟨d', hhead', hd⟩ := (hkeeps 0).relates (Nat.zero_le _) head _ hhead (Nat.zero_le _) _
    halong
  have hlinks : Seam.atEnd.Tracks (tokenize b) b.utf8ByteSize 0 j
      (many (link? sumOpOf? (product (expression depth'))))
      (many (link? sumOpOf? (product (expression depth)))) := by
    refine (Coupling.Keeps.links (fun _ _ => isPlain_of_eq_some rfl rfl rfl)
      (fun k _ => hkeeps k) ?_).relates
    rintro ⟨_, _, hs⟩
    exact absurd rfl hs.2.2.1
  obtain ⟨e', htail', he'⟩ := hlinks hj tail e htail (Nat.zero_le _) d' hd
  refine ⟨d', e', ?_, htail', ?_⟩
  · cases htokens : tokenize b with
    | nil =>
      rw [htokens] at hlength
      cases hlength
    | cons t ts =>
      rw [htokens] at hhead'
      rw [List.map_cons]
      -- here the first token has one before it, which it may touch
      exact product_run_previous.trans hhead'
  · have hlength := he'.length_eq
    rw [he] at hlength
    exact List.eq_nil_of_length_eq_zero hlength.symm

/-- **A minus between two sums goes on with the first one.** -/
theorem minus (ha : ReadsSum a head tail) (hb : ReadsSum b head' tail') (gaps gaps' : List Char)
    (hgaps : ∀ c ∈ gaps, Token.isGap c) (hgaps' : ∀ c ∈ gaps', Token.isGap c)
    (hopen : gaps = [] → ∀ t ∈ (tokenize a).getLast?, t.kind ∉ Token.Kind.openEnded) :
    ReadsSum (a ++ String.ofList gaps ++ "-" ++ String.ofList gaps' ++ b)
      head (tail ++ ⟨.sub, head'⟩ :: tail') := by
  have hknown := (reads_iff.2 ⟨head, tail, ha, rfl⟩).known
  obtain ⟨n, htokens⟩ := Token.tokenize_minus (b := b) hknown hgaps hgaps'
  generalize a ++ String.ofList gaps ++ "-" ++ String.ofList gaps' ++ b = text at htokens
  let m : Token := ⟨.minus, a.utf8ByteSize + Text.bytes gaps, "-"⟩
  -- behind a token that an operand may follow there is a gap
  have hapart : ∀ t ∈ (tokenize a).getLast?, t.kind ∈ Token.Kind.openEnded →
      ∀ t' ∈ tokenize a, t'.stop ≠ m.start := by
    intro t ht hopenEnded t' ht'
    have hne : gaps ≠ [] := fun h => hopen h t ht hopenEnded
    have hpos := Text.bytes_pos hne
    have hstop := Token.stop_le ht'
    rw [Text.bytes_toList, Nat.zero_add] at hstop
    exact Nat.ne_of_lt (Nat.lt_of_le_of_lt hstop (Nat.lt_add_of_pos_right hpos))
  let depth := (tokenize a).length + ((tokenize b).map (Token.shift n)).length
  have hdepth : (tokenize b).length ≤ depth + 1 := by
    simp only [depth, List.length_map]
    omega
  obtain ⟨d, e, hhead, he, hgoes⟩ := ha.goOn rfl hapart ((tokenize b).map (Token.shift n)) depth
    text.utf8ByteSize (Nat.le_refl depth)
  obtain ⟨d', e', hhead', htail', he'⟩ := hb.further n depth e.finish (some m.stop) hdepth
  refine ⟨_, d, e', ?_, ?_, hgoes _ e' ((run_links_eq_ok (proceeds_product _)).2 (.inr ?_)), he'⟩
  · rw [htokens, List.length_append, List.length_cons, Nat.add_assoc]
  · rw [htokens]
    exact hhead
  · obtain ⟨previous, rest, finish⟩ := e
    cases he
    exact ⟨.sub, head', d', tail', rfl, hhead', htail', rfl⟩

end ReadsSum

end Parser

/-- **Gaps around a minus between expressions do not matter**, as long as it
does not touch a token that an operand may follow: it subtracts what stands
behind it from what stands before it. -/
theorem parse_minus_gaps {a b : String} {x y : Node} (ha : Reads a x) (hb : Reads b y)
    (hopen : ∀ t ∈ (tokenize a).getLast?, t.kind ∉ Token.Kind.openEnded) :
    parse (a ++ "-" ++ b) = parse (a ++ " - " ++ b) ∧
      ∃ head tail head' tail', x = Node.sum head tail ∧ y = Node.sum head' tail' ∧
        parse (a ++ " - " ++ b) = .ok (Node.sum head (tail ++ ⟨.sub, head'⟩ :: tail')) := by
  obtain ⟨head, tail, hsum, rfl⟩ := Parser.reads_iff.1 ha
  obtain ⟨head', tail', hsum', rfl⟩ := Parser.reads_iff.1 hb
  have htight := hsum.minus hsum' [] [] nofun nofun fun _ => hopen
  have hspaced := hsum.minus hsum' [' '] [' '] (by simp [Token.isGap]) (by simp [Token.isGap]) nofun
  have htext : a ++ String.ofList [] ++ "-" ++ String.ofList [] ++ b = a ++ "-" ++ b := by
    simp
  have htext' : a ++ String.ofList [' '] ++ "-" ++ String.ofList [' '] ++ b = a ++ " - " ++ b := by
    apply String.toList_inj.1
    simp
  rw [htext] at htight
  rw [htext'] at hspaced
  have htight := (Parser.reads_iff.2 ⟨_, _, htight, rfl⟩).parse_eq
  have hspaced := (Parser.reads_iff.2 ⟨_, _, hspaced, rfl⟩).parse_eq
  exact ⟨htight.trans hspaced.symm, head, tail, head', tail', rfl, rfl, hspaced⟩

/-- One die is subtracted from the larger one of two. -/
theorem parse_minus_gaps_dice :
    let larger := Node.term (.die
      { sides := .numeric (.int 6), count := .int 2, mods := [.select .keep none (.int 1)] }) none
    let one := Node.term (.die { sides := .numeric (.int 4), count := .int 1 }) none
    Reads "2d6k1" larger ∧ Reads "d4" one ∧
      parse ("2d6k1" ++ "-" ++ "d4") = parse ("2d6k1" ++ " - " ++ "d4") := by
  intro larger one
  have htokens : tokenize "2d6k1" = [⟨.integer, 0, "2"⟩, ⟨.d, 1, "d"⟩, ⟨.integer, 2, "6"⟩,
      ⟨.keep, 3, "k"⟩, ⟨.integer, 4, "1"⟩] := by
    decide +kernel
  have htokens' : tokenize "d4" = [⟨.d, 0, "d"⟩, ⟨.integer, 1, "4"⟩] := by decide +kernel
  have hlarger : Reads "2d6k1" larger := ⟨⟨some 5, [], 5⟩, by rw [ReadsTo, htokens]; rfl, rfl⟩
  have hone : Reads "d4" one := ⟨⟨some 2, [], 2⟩, by rw [ReadsTo, htokens']; rfl, rfl⟩
  refine ⟨hlarger, hone, (parse_minus_gaps hlarger hone ?_).1⟩
  rw [htokens]
  decide

/-- A minus that touches an explosion is the sign of the face to explode on. -/
theorem parse_minus_gaps_explosion :
    let sixes (trigger : Option (Condition Node)) := Node.term (.die
      { sides := .numeric (.int 6), count := .int 3, mods := [.again .explode trigger] }) none
    Reads "3d6!" (sixes none) ∧ Reads "1" (.int 1) ∧
      parse "3d6!-1" = .ok (sixes (some ⟨.equal, .int (-1)⟩)) ∧
      parse "3d6! - 1" = .ok (.term (.sum (sixes none) [⟨.sub, .int 1⟩]) none) ∧
      parse ("3d6!" ++ "-" ++ "1") ≠ parse ("3d6!" ++ " - " ++ "1") := by
  intro sixes
  have hdice : tokenize "3d6!" =
      [⟨.integer, 0, "3"⟩, ⟨.d, 1, "d"⟩, ⟨.integer, 2, "6"⟩, ⟨.explode, 3, "!"⟩] := by
    decide +kernel
  have hone : tokenize "1" = [⟨.integer, 0, "1"⟩] := by decide +kernel
  have htight : tokenize "3d6!-1" =
      tokenize "3d6!" ++ [⟨.minus, 4, "-"⟩, ⟨.integer, 5, "1"⟩] := by
    decide +kernel
  have hspaced : tokenize "3d6! - 1" =
      tokenize "3d6!" ++ [⟨.minus, 5, "-"⟩, ⟨.integer, 7, "1"⟩] := by
    decide +kernel
  have htight : Reads "3d6!-1" (sixes (some ⟨.equal, .int (-1)⟩)) :=
    ⟨⟨some 6, [], 6⟩, by rw [ReadsTo, htight, hdice]; rfl, rfl⟩
  have hspaced : Reads "3d6! - 1" (.term (.sum (sixes none) [⟨.sub, .int 1⟩]) none) :=
    ⟨⟨some 8, [], 8⟩, by rw [ReadsTo, hspaced, hdice]; rfl, rfl⟩
  refine ⟨⟨⟨some 4, [], 4⟩, by rw [ReadsTo, hdice]; rfl, rfl⟩,
    ⟨⟨some 1, [], 1⟩, by rw [ReadsTo, hone]; rfl, rfl⟩, htight.parse_eq, hspaced.parse_eq, ?_⟩
  change parse "3d6!-1" ≠ parse "3d6! - 1"
  rw [htight.parse_eq, hspaced.parse_eq]
  intro h
  cases h

end DiceNotation
