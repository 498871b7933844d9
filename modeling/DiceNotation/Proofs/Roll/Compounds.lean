import DiceNotation.Proofs.Number.Sums
import DiceNotation.Proofs.Roll.Again
import DiceNotation.Proofs.Roll.Items
import DiceNotation.Proofs.Roll.Layers

/-!
# Compounding and exploding

Exploding and compounding draw the same faces: a chain goes on as long as its
last face meets the trigger, and as far as `maxChain` new faces. Exploding lays
the new dice after the old one (`RolledDie.Explodes`), compounding adds them to
it (`RolledDie.compounded`), so what compounding leaves is what exploding leaves
with each chain in one die (`answer_compoundAll`).

With doubles in between the order of additions would matter. As long as no sum
leaves the integers it does not, and then the two give the same value
(`compound_agrees_explode`).
-/

namespace DiceNotation

open Counted

namespace RolledDie

/-- The die counts, and its value is its face. -/
structure Plain (d : RolledDie) : Prop where
  valid : d.outcome.valid = true
  value : d.outcome.value = .int d.roll

/-- The chain of a die is the die itself and new ones after it, at most so many.
All of them count for their faces, and each but the last one is marked. -/
structure Explodes (most : Nat) (d : RolledDie) (chain : List RolledDie) : Prop where
  head : chain.head? = some { d with exploded := decide (1 < chain.length) }
  length_le : chain.length ≤ most + 1
  exploded : ∀ i (hi : i < chain.length), chain[i].exploded = decide (i + 1 < chain.length)
  plain : ∀ e ∈ chain, e.Plain

/-- The faces of dice. -/
def faces (dice : List RolledDie) : List Int64 := dice.map roll

/-- The die with the sum of its chain for a face and for a value. -/
def gathered (d : RolledDie) (chain : List RolledDie) : RolledDie :=
  { d with exploded := decide (1 < chain.length) }.setRoll (Number.sumInt (faces chain))

/-- The die with the faces of its chain added to it, one after the other. -/
def compounded (d : RolledDie) (chain : List RolledDie) : RolledDie :=
  if 1 < chain.length then
    { d with exploded := true }.setTotal ((chain.tail.map faceValue).foldl (· + ·) (faceValue d))
  else d

end RolledDie

section Chains

variable {kind : DieType} {trigger : Condition Number} {σ : Setting} {n : Nat} {d : RolledDie}

/-- A die that did not explode is a chain by itself. -/
theorem RolledDie.explodes_singleton (most : Nat) (hd : d.Plain) (hnot : d.exploded = false) :
    d.Explodes most [d] := by
  refine ⟨?_, by simp, fun i hi => ?_, by simpa using hd⟩
  · simp [← hnot]
  · obtain rfl : i = 0 := by simpa using hi
    simpa using hnot

/-- The first die of a chain is the one that exploded. -/
theorem RolledDie.Explodes.exists_eq_cons {most : Nat} {chain : List RolledDie}
    (h : d.Explodes most chain) :
    ∃ exploded rest, chain = { d with exploded := exploded } :: rest := by
  obtain ⟨rest, hrest⟩ := List.head?_eq_some_iff.1 h.head
  exact ⟨_, rest, hrest⟩

/-- One more die in front makes a chain longer. -/
theorem RolledDie.Explodes.cons {most : Nat} {next : RolledDie} {chain : List RolledDie}
    (hd : d.Plain) (h : next.Explodes most chain) :
    d.Explodes (most + 1) ({ d with exploded := true } :: chain) := by
  have hchain : 0 < chain.length := by
    obtain ⟨exploded, rest, rfl⟩ := h.exists_eq_cons
    simp
  have hlength := h.length_le
  refine ⟨by simpa using hchain, by simpa using hlength, fun i hi => ?_, ?_⟩
  · cases i with
    | zero => simpa using hchain
    | succ i => simpa using h.exploded i (by simpa using hi)
  · exact List.forall_mem_cons.2 ⟨⟨hd.valid, hd.value⟩, h.plain⟩

/-- Dice that are rolled are plain, and none has exploded. -/
theorem gives_roll_plain (kind : DieType) (order : Nat) :
    (kind.roll order).Gives fun d => d.Plain ∧ d.exploded = false := by
  intro σ n d e h
  obtain ⟨-, -, rfl⟩ := Rolling.answer_roll_eq_ok h
  exact ⟨⟨rfl, rfl⟩, rfl⟩

theorem gives_rollMany_plain (kind : DieType) (k : Nat) :
    (kind.rollMany k).Gives fun rolls => ∀ d ∈ rolls, d.Plain ∧ d.exploded = false := by
  intro σ n rolls e h
  rw [Rolling.answer_rollMany] at h
  split at h <;> cases h
  intro d hd
  obtain ⟨i, -, rfl⟩ := List.mem_map.1 hd
  exact ⟨⟨rfl, rfl⟩, rfl⟩

/-- **Exploding** leaves the chain of the die. -/
theorem gives_explodeChain_explodes (fuel : Nat) (hd : d.Plain) (hnot : d.exploded = false) :
    (explodeChain kind trigger 0 fuel d).Gives (d.Explodes fuel) := by
  induction fuel generalizing d with
  | zero => exact Rolling.gives_pure (d.explodes_singleton 0 hd hnot)
  | succ fuel ih =>
    rw [explodeChain]
    split
    · refine (gives_roll_plain kind 0).bind fun next hnext => ?_
      have hplain : (next.setRoll (next.roll - 0)).Plain := ⟨hnext.1.valid, rfl⟩
      exact (ih hplain hnext.2).bind fun chain hchain => Rolling.gives_pure (hchain.cons hd)
    · exact Rolling.gives_pure (d.explodes_singleton _ hd hnot)

/-- The faces after the first, added one after the other. -/
def addFaces (total : Number) (dice : List RolledDie) : Number :=
  (dice.map faceValue).foldl (· + ·) total

/-- **Compounding adds what exploding puts after the die**, with the same draws. -/
theorem answer_compoundChain (fuel : Nat) (d : RolledDie) (total : Number) :
    (compoundChain kind trigger fuel d.roll total).answer σ n =
      ((fun chain => addFaces total chain.tail) <$>
        explodeChain kind trigger 0 fuel d).answer σ n := by
  induction fuel generalizing d total n with
  | zero => rfl
  | succ fuel ih =>
    rw [compoundChain, explodeChain]
    by_cases hhits : hits trigger d.roll
    · -- both draw once more, if there is another value
      rw [if_pos hhits, if_pos hhits, Rolling.answer_map, Rolling.answer_bind, Rolling.answer_bind,
        Rolling.answer_rollFace, Rolling.answer_roll]
      by_cases hlimit : n < σ.supply.limit
      · simp only [if_pos hlimit]
        generalize kind.face (σ.supply.value n) = face
        have hnext : (RolledDie.ofRoll kind face 0).setRoll
            ((RolledDie.ofRoll kind face 0).roll - 0) = .ofRoll kind face 0 := by
          rw [Int64.sub_zero]
          rfl
        have hgives : (explodeChain kind trigger 0 fuel (.ofRoll kind face 0)).Gives
            (RolledDie.Explodes fuel (.ofRoll kind face 0)) :=
          gives_explodeChain_explodes fuel ⟨rfl, rfl⟩ rfl
        have hrest := ih (n := n + 1) (.ofRoll kind face 0) (total + .int face)
        rw [Rolling.answer_map] at hrest
        rw [hnext, Rolling.answer_bind]
        rcases hchain :
          (explodeChain kind trigger 0 fuel (.ofRoll kind face 0)).answer σ (n + 1) with
          ⟨halt | chain, e⟩
        · rwa [hchain] at hrest
        · obtain ⟨exploded, rest, rfl⟩ := (hgives σ _ chain e hchain).exists_eq_cons
          rwa [hchain] at hrest
      · simp only [if_neg hlimit]
        rfl
    · rw [if_neg hhits, if_neg hhits]
      rfl

/-- A die that hits has a chain of two dice at least. -/
theorem gives_explodeChain_longer (fuel : Nat) (h : hits trigger d.roll) :
    (explodeChain kind trigger 0 (fuel + 1) d).Gives fun chain => 1 < chain.length := by
  rw [explodeChain, if_pos h]
  refine (gives_roll_plain kind 0).bind fun next hnext => ?_
  have hplain : (next.setRoll (next.roll - 0)).Plain := ⟨hnext.1.valid, rfl⟩
  refine (gives_explodeChain_explodes fuel hplain hnext.2).bind fun chain hchain => ?_
  obtain ⟨exploded, rest, rfl⟩ := hchain.exists_eq_cons
  exact Rolling.gives_pure (by simp)

/-- **Compounding one die** leaves the sum of the chain that exploding leaves. -/
theorem answer_compoundDie (d : RolledDie) :
    (compoundDie kind trigger d).answer σ n =
      (d.compounded <$> explodeChain kind trigger 0 maxChain d).answer σ n := by
  rw [compoundDie]
  by_cases hhits : hits trigger d.roll
  · have hlonger : (explodeChain kind trigger 0 maxChain d).Gives fun chain => 1 < chain.length :=
      gives_explodeChain_longer 999 hhits
    rw [if_pos hhits, Rolling.answer_bind, answer_compoundChain, Rolling.answer_map,
      Rolling.answer_map]
    rcases hchain : (explodeChain kind trigger 0 maxChain d).answer σ n with ⟨halt | chain, e⟩
    · rfl
    · have hcompounded : d.compounded chain =
          { d with exploded := true }.setTotal (addFaces (.int d.roll) chain.tail) :=
        if_pos (hlonger σ n chain e hchain)
      simp only [Except.map, hcompounded, Rolling.answer_pure]
  · rw [if_neg hhits, maxChain, explodeChain, if_neg hhits]
    rfl

/-! ## All dice -/

section Lists

variable {α β γ : Type} {f : α → Rolling β} {g : α → Rolling γ} {h : α → β → γ}

/-- A loop whose steps finish those of another finishes its list. -/
theorem Rolling.answer_mapM_zipWith
    (hg : ∀ a n, (g a).answer σ n = (h a <$> f a).answer σ n) (l : List α) :
    (l.mapM g).answer σ n = (List.zipWith h l <$> l.mapM f).answer σ n := by
  induction l generalizing n with
  | nil => rfl
  | cons a l ih =>
    rw [List.mapM_cons, List.mapM_cons, answer_bind, hg, answer_map, answer_map, answer_bind]
    rcases (f a).answer σ n with ⟨halt | b, e⟩
    · rfl
    · simp only [Except.map, answer_bind, ih, answer_map]
      rcases (l.mapM f).answer σ e with ⟨halt | bs, e⟩ <;> rfl

/-- Rolling lists and joining them is rolling all lists and then joining them. -/
theorem Rolling.answer_flatMapM (f : α → Rolling (List β)) (l : List α) :
    (l.flatMapM f).answer σ n = (List.flatten <$> l.mapM f).answer σ n := by
  induction l generalizing n with
  | nil => rfl
  | cons a l ih =>
    rw [List.flatMapM_cons, List.mapM_cons, answer_map, answer_bind, answer_bind]
    rcases (f a).answer σ n with ⟨halt | b, e⟩
    · rfl
    · simp only [answer_bind, ih, answer_map]
      rcases (l.mapM f).answer σ e with ⟨halt | bs, e⟩ <;> rfl

end Lists

/-- Compounding rolls what exploding rolls, and gathers each chain in a die. -/
theorem answer_compoundAll (rolls : List RolledDie) :
    (compoundAll kind trigger rolls).answer σ n =
      (List.zipWith RolledDie.compounded rolls <$>
        rolls.mapM (explodeChain kind trigger 0 maxChain)).answer σ n :=
  Rolling.answer_mapM_zipWith (fun d _ => answer_compoundDie d) rolls

/-- Exploding lays all chains out in one order. -/
theorem answer_explodeAll (rolls : List RolledDie) :
    (explodeAll kind trigger 0 rolls).answer σ n =
      ((fun chains => numbered chains.flatten) <$>
        rolls.mapM (explodeChain kind trigger 0 maxChain)).answer σ n := by
  rw [explodeAll, Rolling.answer_bind, Rolling.answer_flatMapM, Rolling.answer_map,
    Rolling.answer_map]
  rcases (rolls.mapM (explodeChain kind trigger 0 maxChain)).answer σ n with ⟨halt | chains, e⟩
  · rfl
  · rfl

end Chains

/-! ## Sums -/

/-- Plain dice count with their faces. -/
theorem sumTotals_of_plain {dice : List RolledDie} (h : ∀ d ∈ dice, d.Plain) :
    sumTotals dice = Number.sum ((RolledDie.faces dice).map Number.int) := by
  rw [sumTotals, RolledDie.faces, List.map_map]
  refine congrArg Number.sum (List.map_congr_left fun d hd => ?_)
  exact (if_pos (h d hd).valid).trans (h d hd).value

/-- Without overflow, adding one after the other is adding all. -/
theorem RolledDie.compounded_eq_gathered {most : Nat} {d : RolledDie} {chain : List RolledDie}
    (hd : d.Plain) (hnot : d.exploded = false) (h : d.Explodes most chain)
    (hsum : Number.SumsFit 0 (faces chain)) : d.compounded chain = d.gathered chain := by
  obtain ⟨exploded, rest, rfl⟩ := h.exists_eq_cons
  cases rest with
  | nil =>
    have hroll : Number.sumInt (faces [{ d with exploded := exploded }]) = d.roll := by
      simp [Number.sumInt, faces]
    rw [compounded, if_neg (by simp), gathered, hroll, setRoll]
    simp [← hd.value, ← hnot]
  | cons e rest =>
    have htail : Number.SumsFit (0 + d.roll.toInt) (faces (e :: rest)) :=
      Number.SumsFit.tail (show Number.SumsFit 0 (d.roll :: faces (e :: rest)) from hsum)
    rw [Int.zero_add] at htail
    have hfaces : (e :: rest).map faceValue = (faces (e :: rest)).map Number.int := by
      rw [faces, List.map_map]
      rfl
    have htotal : ((e :: rest).map faceValue).foldl (· + ·) (faceValue d) =
        .int (Number.sumInt (faces ({ d with exploded := exploded } :: e :: rest))) := by
      rw [hfaces]
      exact htail.foldl_eq
    rw [compounded, if_pos (by simp), List.tail_cons, htotal, gathered]
    simp [setTotal, setRoll, Number.toInt64]

/-- Numbering leaves the faces as they are. -/
theorem RolledDie.faces_numbered (dice : List RolledDie) : faces (numbered dice) = faces dice := by
  refine List.ext_getElem (by simp [faces, numbered]) fun i hi hi' => ?_
  simp only [faces, numbered, List.getElem_map, List.getElem_mapIdx]
  rfl

/-- A gathered die shows the sum of its chain. -/
theorem RolledDie.faces_gathered {rolls : List RolledDie} {chains : List (List RolledDie)}
    (h : rolls.length = chains.length) :
    faces (List.zipWith gathered rolls chains) = (chains.map faces).map Number.sumInt := by
  refine List.ext_getElem (by simp [faces, h]) fun i hi hi' => ?_
  simp only [faces, List.getElem_map, List.getElem_zipWith]
  rfl

/-- **As much in one die as in a chain.** -/
theorem sumTotals_gathered {rolls : List RolledDie} {chains : List (List RolledDie)}
    (hrolls : ∀ d ∈ rolls, d.Plain)
    (h : List.Forall₂ (RolledDie.Explodes maxChain) rolls chains)
    (hchains : ∀ chain ∈ chains, Number.SumsFit 0 (RolledDie.faces chain))
    (hsum : Number.SumsFit 0 (RolledDie.faces chains.flatten)) :
    sumTotals (List.zipWith RolledDie.gathered rolls chains) =
      sumTotals (numbered chains.flatten) := by
  have hgathered : ∀ d ∈ List.zipWith RolledDie.gathered rolls chains, d.Plain := by
    intro d hd
    obtain ⟨i, hi, rfl⟩ := List.mem_iff_getElem.1 hd
    rw [List.getElem_zipWith]
    exact ⟨(hrolls _ (List.getElem_mem _)).valid, rfl⟩
  have hexploded : ∀ d ∈ numbered chains.flatten, d.Plain := by
    refine forall_mem_numbered (fun h _ => ⟨h.valid, h.value⟩) fun d hd => ?_
    obtain ⟨chain, hchain, hd⟩ := List.mem_flatten.1 hd
    obtain ⟨die, -, hdie⟩ := exists_of_forall₂_of_mem h hchain
    exact hdie.plain d hd
  rw [sumTotals_of_plain hgathered, sumTotals_of_plain hexploded, RolledDie.faces_numbered,
    RolledDie.faces_gathered h.length_eq]
  rw [RolledDie.faces, List.map_flatten] at hsum ⊢
  exact Number.SumsFit.sum_flatten (by simpa [RolledDie.faces] using hchains) hsum

/-! ## Mechanics -/

/-- The dice that exploding and compounding leave, of the same dice by the same
chains: one chain lies after the other, and as long as its sums fit each chain is
in its die. If all other sums fit too, there is as much in either of the two. -/
structure Gathers (rolls exploded compounded : List RolledDie)
    (chains : List (List RolledDie)) : Prop where
  explodes : List.Forall₂ (RolledDie.Explodes maxChain) rolls chains
  exploded_eq : exploded = numbered chains.flatten
  compounded_eq : (∀ chain ∈ chains, Number.SumsFit 0 (RolledDie.faces chain)) →
    compounded = List.zipWith RolledDie.gathered rolls chains
  sumTotals_eq : (∀ chain ∈ chains, Number.SumsFit 0 (RolledDie.faces chain)) →
    Number.SumsFit 0 (RolledDie.faces exploded) → sumTotals compounded = sumTotals exploded

section Mechanics

variable {kind : DieType} {trigger : Condition Number} {rolls : List RolledDie} {σ : Setting}
  {n d : Nat}

/-- **One run for both**: compounding ends where exploding does, after as many
draws, and gathers the chains that exploding leaves. -/
theorem answer_compoundAll_of_explodeAll (hrolls : ∀ d ∈ rolls, d.Plain ∧ d.exploded = false) :
    (∀ exploded, (explodeAll kind trigger 0 rolls).answer σ n = (.ok exploded, d) →
      ∃ compounded chains, (compoundAll kind trigger rolls).answer σ n = (.ok compounded, d) ∧
        Gathers rolls exploded compounded chains) ∧
    ∀ halt, (explodeAll kind trigger 0 rolls).answer σ n = (.error halt, d) →
      (compoundAll kind trigger rolls).answer σ n = (.error halt, d) := by
  rw [answer_explodeAll, answer_compoundAll, Rolling.answer_map, Rolling.answer_map]
  rcases hchains : (rolls.mapM (explodeChain kind trigger 0 maxChain)).answer σ n with
    ⟨halt | chains, e⟩
  · simp [Except.map]
  · have hexplodes : List.Forall₂ (RolledDie.Explodes maxChain) rolls chains :=
      Rolling.Gives.forall₂_mapM (fun d hd => gives_explodeChain_explodes maxChain (hrolls d hd).1
        (hrolls d hd).2) σ n chains e hchains
    refine ⟨fun exploded h => ?_, fun halt h => by cases h⟩
    cases h
    -- a total is the sum of its chain unless it is wrapped around
    have hcompounded (hfits : ∀ chain ∈ chains, Number.SumsFit 0 (RolledDie.faces chain)) :
        List.zipWith RolledDie.compounded rolls chains =
          List.zipWith RolledDie.gathered rolls chains := by
      refine List.ext_getElem (by simp) fun i hi _ => ?_
      rw [List.getElem_zipWith, List.getElem_zipWith]
      have hi : i < chains.length := by simp at hi; omega
      obtain ⟨hi', hexplodes⟩ := getElem_of_forall₂ hexplodes hi
      have hdie := hrolls _ (List.getElem_mem hi')
      exact RolledDie.compounded_eq_gathered hdie.1 hdie.2 hexplodes
        (hfits _ (List.getElem_mem hi))
    refine ⟨_, chains, rfl, hexplodes, rfl, hcompounded, fun hfits hsum => ?_⟩
    rw [hcompounded hfits]
    rw [RolledDie.faces_numbered] at hsum
    exact sumTotals_gathered (fun d hd => (hrolls d hd).1) hexplodes hfits hsum

/-- Both modifiers take the same trigger, and refuse the same ones. -/
theorem Modifier.answer_again_compound {trigger : Option (Condition (Rolling Result))}
    {exploded : List RolledDie}
    (h : ((again .explode trigger).applyToDice kind rolls).answer σ n = (.ok exploded, d)) :
    ∃ condition e, (explodeAll kind condition 0 rolls).answer σ e = (.ok exploded, d) ∧
      ((again .compound trigger).applyToDice kind rolls).answer σ n =
        (compoundAll kind condition rolls).answer σ e := by
  have happly (condition : Condition Number) {e : Nat}
      (h : (Mechanic.apply .explode kind condition rolls).answer σ e = (.ok exploded, d)) :
      (explodeAll kind condition 0 rolls).answer σ e = (.ok exploded, d) ∧
        (Mechanic.apply .compound kind condition rolls).answer σ e =
          (compoundAll kind condition rolls).answer σ e := by
    rw [Mechanic.apply, Rolling.answer_ite] at h
    rw [Mechanic.apply, Rolling.answer_ite]
    split at h
    · cases h
    next hmisses => exact ⟨h, by rw [if_neg hmisses]⟩
  cases trigger with
  | none => exact ⟨_, n, happly _ h⟩
  | some trigger =>
    obtain ⟨condition, e, hresolve, h⟩ := Rolling.answer_bind_eq_ok.1 h
    refine ⟨condition, e, (happly condition h).1, ?_⟩
    rw [applyToDice, Rolling.answer_bind, hresolve]
    exact (happly condition h).2

end Mechanics

/-- Dice with one mechanic, and nothing else. -/
def Node.diceAgain (sides : Sides Node) (count : Node) (trigger : Option (Condition Node))
    (label : Option String) (mechanic : Mechanic) : Node :=
  .term (.die { sides, count, mods := [.again mechanic trigger] }) label

/-- With a single modifier and no targets, dice are rolled and then modified. -/
theorem DieSpec.rollDice_again {spec : DieSpec (Rolling Result)} {m : Modifier (Rolling Result)}
    (hmods : spec.mods = [m]) (htargets : spec.targets = []) (kind : DieType) (k : Nat) :
    spec.rollDice kind k = kind.rollMany k >>= fun rolls => m.applyToDice kind rolls := by
  simp [rollDice, hmods, htargets, settle]

/-- **Compounding agrees with exploding.** Whatever dice there are, if they count
for their faces and did not explode before, compounding ends where exploding does,
with the draws that exploding makes, and gathers the chains that exploding leaves.
So as long as no sum leaves the integers, dice that compound have the value of the
same dice that explode. -/
theorem compound_agrees_explode :
    (∀ (kind : DieType) (trigger : Condition Number) (rolls : List RolledDie),
      (∀ d ∈ rolls, d.Plain ∧ d.exploded = false) → ∀ (σ : Setting) (n d : Nat),
        (∀ exploded, (explodeAll kind trigger 0 rolls).answer σ n = (.ok exploded, d) →
          ∃ compounded chains, (compoundAll kind trigger rolls).answer σ n = (.ok compounded, d) ∧
            Gathers rolls exploded compounded chains) ∧
        ∀ halt, (explodeAll kind trigger 0 rolls).answer σ n = (.error halt, d) →
          (compoundAll kind trigger rolls).answer σ n = (.error halt, d)) ∧
    ∀ (sides : Sides Node) (count : Node) (trigger : Option (Condition Node))
      (label : Option String) (σ : Setting) (n d : Nat) (r : Result),
      (Node.diceAgain sides count trigger label .explode).roll.answer σ n = (.ok r, d) →
        ∃ r' rolls chains,
          (Node.diceAgain sides count trigger label .compound).roll.answer σ n = (.ok r', d) ∧
            Gathers rolls r.shape.rolls r'.shape.rolls chains ∧
            ((∀ chain ∈ chains, Number.SumsFit 0 (RolledDie.faces chain)) →
              Number.SumsFit 0 (RolledDie.faces r.shape.rolls) → r'.value = r.value) := by
  refine ⟨fun _ _ _ hrolls _ _ _ => answer_compoundAll_of_explodeAll hrolls, ?_⟩
  intro sides count trigger label σ n d r h
  rw [Node.diceAgain, Node.roll_term] at h
  obtain ⟨r, hr, rfl⟩ := Form.answer_rollLabelled_eq_ok h
  obtain ⟨count', e₁, hc, k, e₂, hk, sides', kind, e₃, hs, exploded, e₄, hexploded, hr⟩ :=
    DieSpec.answer_roll_eq_ok.1 hr
  rw [DieSpec.rollDice_again rfl rfl, Rolling.answer_bind_eq_ok] at hexploded
  obtain ⟨rolls, e, hrolls, hexploded⟩ := hexploded
  -- both mechanics resolve the same trigger, and from there on they roll the same chains
  obtain ⟨condition, e', hexplode, hcompound⟩ := Modifier.answer_again_compound hexploded
  have hplain := gives_rollMany_plain kind k _ _ _ _ hrolls
  obtain ⟨compounded, chains, hcompounded, hgathers⟩ :=
    (answer_compoundAll_of_explodeAll hplain).1 exploded hexplode
  cases hr
  refine ⟨(Result.dice count' sides' compounded).relabel label, rolls, chains, ?_, ?_, ?_⟩
  · rw [Node.diceAgain, Node.roll_term]
    refine Rolling.answer_bind_eq_ok.2 ⟨_, d, DieSpec.answer_roll_eq_ok.2 ?_, rfl⟩
    refine ⟨count', e₁, hc, k, e₂, hk, sides', kind, e₃, hs, compounded, d, ?_, rfl⟩
    rw [DieSpec.rollDice_again rfl rfl]
    exact Rolling.answer_bind_eq_ok.2 ⟨rolls, e, hrolls, hcompound.trans hcompounded⟩
  · rw [Result.shape_relabel, Result.shape_relabel]
    exact hgathers
  · rw [Result.shape_relabel, Result.value_relabel, Result.value_relabel]
    exact hgathers.sumTotals_eq

/-- Two dice of which the first rolls a six, another six and a two: fourteen in one
die, and seventeen with the second die, as in the four dice of the explosion. -/
theorem compound_agrees_explode_sixes :
    let dice := Node.diceAgain (.numeric (.int 6)) (.int 2) none none
    let tenths (k : Nat) : Double := .ofRatio false k 10
    let σ : Setting := ⟨.ofList [tenths 9, tenths 4, tenths 9, tenths 2], 1000⟩
    ∃ r r' rolls chains, (dice .explode).roll.answer σ 0 = (.ok r, 4) ∧
      (dice .compound).roll.answer σ 0 = (.ok r', 4) ∧
      Gathers rolls r.shape.rolls r'.shape.rolls chains ∧ r'.value = r.value ∧
      r.value = .int 17 := by
  intro dice tenths σ
  obtain ⟨r, hr, hvalue⟩ : ∃ r, (dice .explode).roll.answer σ 0 = (.ok r, 4) ∧
      (RolledDie.faces r.shape.rolls, r.value) = ([6, 6, 2, 3], .int 17) :=
    Rolling.exists_answer_eq_ok_of_map _ (by decide +kernel)
  obtain ⟨hfaces, hvalue⟩ := Prod.mk.inj hvalue
  obtain ⟨r', rolls, chains, hr', hgathers, hsame⟩ := compound_agrees_explode.2 _ _ _ _ _ _ _ _ hr
  have hfits {xs : List Int64} (h : xs.Sublist (RolledDie.faces r.shape.rolls)) :
      Number.SumsFit 0 xs :=
    Number.sumsFit_of_sublist (hfaces ▸ h) (by simp) (by decide)
  have hchains : ∀ chain ∈ chains, Number.SumsFit 0 (RolledDie.faces chain) := by
    intro chain hchain
    refine hfits ?_
    rw [hgathers.exploded_eq, RolledDie.faces_numbered]
    exact (List.sublist_flatten_of_mem hchain).map _
  have hvalue' := hsame hchains (hfits (List.Sublist.refl _))
  exact ⟨r, r', rolls, chains, hr, hr', hgathers, hvalue', hvalue⟩

end DiceNotation
