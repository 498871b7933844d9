import DiceNotation.Proofs.Roll.Laws
import Mathlib.Data.Finset.Card

/-!
# Faces that dice share

A match looks at faces and at nothing else of the dice. It counts, for every face
that came up, the dice that show it, whether they count or not, and marks the dice
of those faces that are shown often enough (`SharedFace`). As the value of a
specification the number of these faces may stand in the place of the sum
(`DieSpec.answer_conclude_match`).

Nothing else marks dice in this way, so after a match the marked dice show just the
faces that were counted (`matchedFaces_markIfShared`), and nothing that is done to
dice later on marks another one or turns one over (`matchedFaces_changed`).
-/

namespace DiceNotation

open Counted

/-! ## Shared faces -/

/-- The face is shared: at least so many dice show it, and it meets the condition,
if there is one. -/
def SharedFace (least : Number) (condition : Option (Condition Number)) (rolls : List RolledDie)
    (face : Int64) : Prop :=
  (Number.int (Int64.ofNat (rolls.countP fun d => d.roll = face))).atLeast least ∧
    ∀ c ∈ condition, c.meets (.int face)

section Faces

variable {least : Number} {condition : Option (Condition Number)} {rolls : List RolledDie}

instance : DecidablePred (SharedFace least condition rolls) :=
  fun _ => inferInstanceAs (Decidable (_ ∧ _))

/-- The die as a match leaves it: with the mark, if its face is shared. -/
def markIfShared (least : Number) (condition : Option (Condition Number))
    (rolls : List RolledDie) (d : RolledDie) : RolledDie :=
  { d with matched := d.matched || decide (SharedFace least condition rolls d.roll) }

theorem nodup_eraseDups {α : Type} [DecidableEq α] : ∀ l : List α, l.eraseDups.Nodup
  | [] => by simp
  | a :: l => by
    rw [List.eraseDups_cons, List.nodup_cons, List.mem_eraseDups]
    exact ⟨by simp, nodup_eraseDups _⟩
termination_by l => l.length
decreasing_by
  have := List.length_filter_le (fun b => !b == a) l
  simp only [List.length_cons]
  omega

/-- The shared faces are those that are rolled often enough and meet the condition. -/
theorem mem_sharedFaces {face : Int64} :
    face ∈ sharedFaces least condition rolls ↔
      (∃ d ∈ rolls, d.roll = face) ∧ SharedFace least condition rolls face := by
  have hcount : (rolls.map RolledDie.roll).count face = rolls.countP fun d => d.roll = face := by
    rw [List.count_eq_countP, List.countP_map]
    rfl
  simp [sharedFaces, SharedFace, hcount, Option.all_eq_true]

/-- **The faces that are found are counted once each.** -/
theorem length_sharedFaces :
    (sharedFaces least condition rolls).length =
      ((rolls.map RolledDie.roll).toFinset.filter (SharedFace least condition rolls)).card := by
  have hnodup : (sharedFaces least condition rolls).Nodup := (nodup_eraseDups _).filter _
  rw [← List.toFinset_card_of_nodup hnodup]
  congr 1
  ext face
  simp [mem_sharedFaces]

/-- **The dice that are marked** are those that show a shared face. -/
theorem markMatched_sharedFaces :
    markMatched (sharedFaces least condition rolls) rolls =
      rolls.map (markIfShared least condition rolls) := by
  refine List.map_congr_left fun d hd => ?_
  have hshown : ∃ d' ∈ rolls, d'.roll = d.roll := ⟨d, hd, rfl⟩
  by_cases h : SharedFace least condition rolls d.roll
  · rw [if_pos (mem_sharedFaces.2 ⟨hshown, h⟩)]
    simp [markIfShared, h]
  · rw [if_neg fun hmem => h (mem_sharedFaces.1 hmem).2]
    simp [markIfShared, h]

end Faces

/-! ## The match of a specification -/

/-- The condition of a match on faces: a comparison with what its target gives, if
both are there, and none otherwise. -/
inductive Matching.Resolves (m : Matching (Rolling Result)) (σ : Setting) (n : Nat) :
    Option (Condition Number) → Nat → Prop
  | both {compare : Comparison} {target : Rolling Result} {r : Result} {d : Nat} :
    m.compare = some compare → m.target = some target → target.answer σ n = (.ok r, d) →
      Resolves m σ n (some ⟨compare, r.value⟩) d
  | neither : m.compare = none ∨ m.target = none → Resolves m σ n none n

/-- A match that resolves has its condition resolved. -/
theorem Matching.Resolves.answer_condition? {m : Matching (Rolling Result)} {σ : Setting}
    {n d : Nat} {condition : Option (Condition Number)} (h : m.Resolves σ n condition d) :
    m.condition?.answer σ n = (.ok condition, d) := by
  rw [condition?]
  cases h with
  | both hcompare htarget hr =>
    simp [hcompare, htarget, Condition.resolve, Rolling.answer_map, hr, Except.map]
  | neither h => rcases h with h | h <;> simp [h]

section Conclude

variable {spec : DieSpec (Rolling Result)} {m : Matching (Rolling Result)} {σ : Setting}
  {n e d : Nat} {least : Result} {condition : Option (Condition Number)}

/-- **Dice that share faces.** Of dice that were rolled and modified, valid or not,
a match marks those whose face is shown by at least so many of them and meets the
condition, and changes nothing else. If it counts, the number of these faces is the
value; if it does not, the value is the sum that the dice have without it. -/
theorem DieSpec.answer_conclude_match (hmatching : spec.matching = some m)
    (hleast : m.least.answer σ n = (.ok least, e)) (hcondition : m.Resolves σ e condition d)
    (count : Result) (sides : Sides Result) (rolls : List RolledDie) :
    (spec.conclude count sides rolls).answer σ n =
      (.ok (.mk
        { value := if m.counts then
            .int (Int64.ofNat ((rolls.map RolledDie.roll).toFinset.filter
              (SharedFace least.value condition rolls)).card)
          else sumTotals (spec.arrange rolls) }
        (.dice count sides (spec.arrange (rolls.map (markIfShared least.value condition rolls)))
          m.counts)), d) := by
  have hfaces :
      (m.faces rolls).answer σ n = (.ok (sharedFaces least.value condition rolls), d) := by
    simp [Matching.faces, Rolling.answer_bind, Rolling.answer_map, hleast,
      hcondition.answer_condition?, Except.map]
  have hsum : sumTotals (spec.arrange (rolls.map (markIfShared least.value condition rolls))) =
      sumTotals (spec.arrange rolls) := by
    rw [← spec.map_arrange (f := markIfShared least.value condition rolls) (fun _ _ => rfl)
      fun _ => rfl]
    exact sumTotals_map (f := markIfShared least.value condition rolls) (fun _ => rfl) _
  simp only [conclude, hmatching, Rolling.answer_bind, hfaces, Rolling.answer_pure]
  rw [markMatched_sharedFaces, ← length_sharedFaces]
  cases m.counts with
  | true => rfl
  | false => simp [Result.dice, hsum]

/-- Two fives, of which one was dropped, two twos and a six, and a match of faces that
two dice share and that are three at least. -/
theorem DieSpec.answer_conclude_match_fives :
    let number (k : Int64) : Result := .number (.int k)
    let m : Matching (Rolling Result) :=
      ⟨pure (number 2), true, some .atLeast, some (pure (number 3))⟩
    let spec : DieSpec (Rolling Result) :=
      { sides := .numeric (pure (number 6)), count := pure (number 5), matching := some m }
    let die (roll : Int64) (i : Nat) : RolledDie := .ofRoll (.numeric 6) roll i
    let rolls := [die 5 0, discard (die 5 1), die 2 2, die 2 3, die 6 4]
    (spec.conclude (number 5) (.numeric (number 6)) rolls).answer ⟨.ofList [], 1000⟩ 0 =
      (.ok (.mk { value := .int 1 } (.dice (number 5) (.numeric (number 6))
        [{ die 5 0 with matched := true }, { discard (die 5 1) with matched := true },
          die 2 2, die 2 3, die 6 4] true)), 0) := by
  intro number m spec die rolls
  refine (DieSpec.answer_conclude_match rfl rfl (.both rfl rfl rfl) _ _ _).trans ?_
  have hcard : ((rolls.map RolledDie.roll).toFinset.filter
      (SharedFace (number 2).value (some ⟨.atLeast, (number 3).value⟩) rolls)).card = 1 := by
    decide +kernel
  have hmarked : rolls.map
      (markIfShared (number 2).value (some ⟨.atLeast, (number 3).value⟩) rolls) =
        [{ die 5 0 with matched := true }, { discard (die 5 1) with matched := true },
          die 2 2, die 2 3, die 6 4] := by
    decide +kernel
  rw [hcard, hmarked]
  rfl

end Conclude

/-! ## Marked faces -/

/-- What a match reads and writes of a die: the mark, and the face. -/
def RolledDie.shown (d : RolledDie) : Bool × Int64 := (d.matched, d.roll)

/-- The faces of the marked dice. -/
def matchedFaces (rolls : List RolledDie) : Finset Int64 :=
  ((rolls.filter RolledDie.matched).map RolledDie.roll).toFinset

section Marked

variable {rolls rolls' : List RolledDie}

theorem mem_matchedFaces {face : Int64} :
    face ∈ matchedFaces rolls ↔ (true, face) ∈ rolls.map RolledDie.shown := by
  simp [matchedFaces, RolledDie.shown, and_assoc]

/-- Only what the dice show decides which faces are matched. -/
theorem matchedFaces_congr (h : (rolls.map RolledDie.shown).Perm (rolls'.map RolledDie.shown)) :
    matchedFaces rolls = matchedFaces rolls' := by
  ext face
  rw [mem_matchedFaces, mem_matchedFaces, h.mem_iff]

theorem DieSpec.matchedFaces_arrange {ε : Type} (spec : DieSpec ε) (rolls : List RolledDie) :
    matchedFaces (spec.arrange rolls) = matchedFaces rolls :=
  matchedFaces_congr (spec.map_arrange_perm (fun _ _ => rfl) rolls)

/-- A selection or a count leaves the mark of a die and its face. -/
theorem Counted.Changed.shown_eq {d d' : RolledDie} (h : Changed d d') : d'.shown = d.shown := by
  refine h.apply_eq fun hstep => ?_
  cases hstep with
  | discard | zero => rfl
  | countOne =>
    rw [countOne]
    split <;> rfl

/-- Changed dice show what they did. -/
theorem matchedFaces_changed (h : List.Forall₂ Changed rolls rolls') :
    matchedFaces rolls' = matchedFaces rolls :=
  matchedFaces_congr (.of_eq (map_eq_of_forall₂ (h.imp fun _ _ h => h.shown_eq)))

/-- **The marked faces are the shared ones**, if no die was marked before. -/
theorem matchedFaces_markIfShared (h : ∀ d ∈ rolls, d.matched = false) (least : Number)
    (condition : Option (Condition Number)) :
    matchedFaces (rolls.map (markIfShared least condition rolls)) =
      (rolls.map RolledDie.roll).toFinset.filter (SharedFace least condition rolls) := by
  ext face
  simp only [mem_matchedFaces, List.map_map, List.mem_map, Finset.mem_filter, List.mem_toFinset]
  constructor
  · rintro ⟨d, hd, hshown⟩
    obtain ⟨hmatched, rfl⟩ := Prod.mk.inj hshown
    simp only [markIfShared, h d hd, Bool.false_or, decide_eq_true_eq] at hmatched
    exact ⟨⟨d, hd, rfl⟩, hmatched⟩
  · rintro ⟨⟨d, hd, rfl⟩, hshared⟩
    exact ⟨d, hd, by simp [RolledDie.shown, markIfShared, hshared]⟩

end Marked

/-! ## Counted faces -/

section Counts

variable {spec : DieSpec (Rolling Result)} {σ : Setting} {n d : Nat}

/-- No die is matched before the match. -/
theorem RolledDie.dieLaw_unmatched : DieLaw fun d => d.matched = false where
  rolled _ _ _ := rfl
  exploded h := h
  setRoll h _ := h
  setTotal h _ := h
  replaced h := h
  setOrder h _ := h

theorem RolledDie.matched_setCritical (mark : Option Critical) (d : RolledDie) :
    (d.setCritical mark).matched = d.matched := by
  rw [setCritical]
  split <;> rfl

/-- Nothing but the match of a specification marks its dice. -/
theorem gives_rollDice_unmatched (spec : DieSpec (Rolling Result)) (kind : DieType) (k : Nat) :
    (spec.rollDice kind k).Gives fun rolls => ∀ d ∈ rolls, d.matched = false :=
  (RolledDie.dieLaw_unmatched.tableLaw
    (fun hchange h => (congrArg Prod.fst hchange.shown_eq).trans h)
    fun mark h => (RolledDie.matched_setCritical mark _).trans h).gives_rollDice spec kind k

/-- The faces that match are those shared by as many dice as it asks for. -/
theorem Matching.exists_of_answer_faces {m : Matching (Rolling Result)} {rolls : List RolledDie}
    {faces : List Int64} (h : (m.faces rolls).answer σ n = (.ok faces, d)) :
    ∃ least condition, faces = sharedFaces least condition rolls := by
  simp only [Matching.faces, Rolling.answer_bind_eq_ok] at h
  obtain ⟨least, e, -, condition, e', -, h⟩ := h
  cases h
  exact ⟨least.value, condition, rfl⟩

/-- **A specification that counts** has the number of its marked faces for a value,
and any other the sum of its dice. -/
theorem DieSpec.exists_of_answer_conclude {count r : Result} {sides : Sides Result}
    {rolls : List RolledDie} (hrolls : ∀ d ∈ rolls, d.matched = false)
    (h : (spec.conclude count sides rolls).answer σ n = (.ok r, d)) :
    ∃ rolls matched, r = .mk
      { value := if matched then .int (Int64.ofNat (matchedFaces rolls).card) else sumTotals rolls }
      (.dice count sides rolls matched) := by
  rcases answer_conclude_eq_ok h with ⟨-, -, rfl⟩ | ⟨m, faces, -, hfaces, rfl⟩
  · exact ⟨_, false, rfl⟩
  · obtain ⟨least, condition, rfl⟩ := m.exists_of_answer_faces hfaces
    refine ⟨spec.arrange (markMatched (sharedFaces least condition rolls) rolls), m.counts, ?_⟩
    rw [spec.matchedFaces_arrange, length_sharedFaces, markMatched_sharedFaces,
      matchedFaces_markIfShared hrolls]
    cases m.counts <;> rfl

end Counts

end DiceNotation
