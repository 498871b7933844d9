import DiceNotation.Proofs.Number.Sums
import DiceNotation.Proofs.Roll.Again
import DiceNotation.Proofs.Roll.Mirrors
import DiceNotation.Proofs.Roll.OneFaced
import DiceNotation.Proofs.Roll.Sizes
import DiceNotation.Proofs.Roll.Triggers

/-!
# Counts and faces

If every value that is drawn gives a face of its die (`Supply.Fair`), then all dice of a
result show such faces, as long as nothing takes from a face or adds to it: a penalty
takes one off, and only a compounding die shows a sum (`RolledDie.Faced`). With the
number of dice that there are for a count (`DieSpec.Rolled`), that holds of every
specification in an expression, however deep it stands, and no sum or difference that
makes a face is out of range on the way (`Node.answer_roll_faces`).
-/

namespace DiceNotation

open Counted

/-! ## Faces -/

namespace DieType

variable {kind : DieType} {face : Int64}

/-- The faces that a die of the kind can show, and those with one taken off. -/
def ShowsReduced : DieType → Int64 → Prop
  | .fate, face => -2 ≤ face ∧ face ≤ 1
  | .numeric faces, face => 0 ≤ face ∧ face ≤ faces

/-- A face of a die may be shown by one that was reduced. -/
theorem Shows.reduced (h : kind.Shows face) : kind.ShowsReduced face := by
  cases kind with
  | fate => rcases h with rfl | rfl | rfl <;> exact ⟨by decide, by decide⟩
  | numeric faces => exact ⟨Int64.le_trans (by decide) h.1, h.2⟩

/-- A face fits with one taken off. -/
theorem Shows.fits (h : kind.Shows face) : Number.Fits (face.toInt - 1) := by
  cases kind with
  | fate => rcases h with rfl | rfl | rfl <;> decide
  | numeric faces =>
    have hleast := Int64.le_iff_toInt_le.1 h.1
    have hmost := face.toInt_lt
    have hone : (1 : Int64).toInt = 1 := rfl
    unfold Number.Fits Number.lowest Number.highest
    omega

/-- A penalty of one leaves a face that a reduced die may show. -/
theorem Shows.reduced_sub_one (h : kind.Shows face) : kind.ShowsReduced (face - 1) := by
  have hsub : (face - 1).toInt = face.toInt - 1 := Number.toInt_sub h.fits
  cases kind with
  | fate => rcases h with rfl | rfl | rfl <;> exact ⟨by decide, by decide⟩
  | numeric faces =>
    have hleast := Int64.le_iff_toInt_le.1 h.1
    have hmost := Int64.le_iff_toInt_le.1 h.2
    have hzero : (0 : Int64).toInt = 0 := rfl
    have hone : (1 : Int64).toInt = 1 := rfl
    exact ⟨Int64.le_iff_toInt_le.2 (by omega), Int64.le_iff_toInt_le.2 (by omega)⟩

end DieType

/-! ## Computing a face -/

/-- The part of the unit interval that a value lies in, of as many as there are faces. -/
def numericPart (faces : Int64) (random : Double) : Int64 :=
  min (Number.clampToInt64 Double.floor (random * Double.ofInt faces.toInt)) (faces - 1)

theorem numericFace_eq (faces : Int64) (random : Double) :
    numericFace faces random = numericPart faces random + 1 := rfl

/-- The third of the unit interval that a value lies in. -/
def fatePart (random : Double) : Int64 :=
  Number.clampToInt64 Double.floor (random * Double.ofInt 3)

theorem fateFace_eq (random : Double) : fateFace random = fatePart random - 1 := rfl

/-- The sums and differences that make a face of a random value fit, and so does the face
with its penalty off. -/
def DieType.Computes : DieType → Double → Prop
  | .fate, random =>
    Number.Fits ((fatePart random).toInt - 1) ∧ Number.Fits ((fateFace random).toInt - 1)
  | .numeric faces, random =>
    Number.Fits (faces.toInt - 1) ∧ Number.Fits ((numericPart faces random).toInt + 1) ∧
      Number.Fits ((numericFace faces random).toInt - 1)

/-- No value has a part above the last one. -/
theorem toInt_numericPart_le (faces : Int64) (random : Double) :
    (numericPart faces random).toInt ≤ (faces - 1).toInt := by
  unfold numericPart
  generalize Number.clampToInt64 Double.floor (random * Double.ofInt faces.toInt) = part
  change (if part ≤ faces - 1 then part else faces - 1).toInt ≤ (faces - 1).toInt
  split
  next hle => exact Int64.le_iff_toInt_le.1 hle
  next => exact Int.le_refl _

/-- A part is below the highest face, which leaves room for one more. -/
theorem fits_numericPart_add_one {faces : Int64} (h : Number.Fits (faces.toInt - 1))
    (random : Double) : Number.Fits ((numericPart faces random).toInt + 1) := by
  have hsub : (faces - 1).toInt = faces.toInt - 1 := Number.toInt_sub h
  have hpart := toInt_numericPart_le faces random
  have hleast := (numericPart faces random).le_toInt
  have hmost := faces.toInt_lt
  unfold Number.Fits Number.lowest Number.highest
  omega

/-- **A value that gives a face** is computed within range. -/
theorem DieType.computes_of_shows {kind : DieType} (hkind : kind.HasFaces) {random : Double}
    (h : kind.Shows (kind.face random)) : kind.Computes random := by
  cases kind with
  | fate =>
    refine ⟨?_, h.fits⟩
    change _ = _ ∨ _ = _ ∨ _ = _ at h
    rw [face, fateFace_eq] at h
    generalize fatePart random = part at h ⊢
    have hpart : part = part - 1 + 1 := (Int64.sub_add_cancel part 1).symm
    rcases h with h | h | h <;> rw [h] at hpart <;> subst hpart <;> decide
  | numeric faces =>
    have hfaces : Number.Fits (faces.toInt - 1) := (shows_max hkind).fits
    exact ⟨hfaces, fits_numericPart_add_one hfaces random, h.fits⟩

/-- A value that is not negative gives a face of every numeric die. -/
theorem shows_numericFace {faces : Int64} (hfaces : 1 ≤ faces) {random : Double}
    (h : random.isNegative = false) :
    DieType.Shows (.numeric faces) (numericFace faces random) := by
  have hone : (1 : Int64).toInt = 1 := rfl
  have hleast := Int64.le_iff_toInt_le.1 hfaces
  have hmax : DieType.Shows (.numeric faces) faces := ⟨hfaces, Int64.le_refl faces⟩
  have hfits : Number.Fits (faces.toInt - 1) := hmax.fits
  have hsub : (faces - 1).toInt = faces.toInt - 1 := Number.toInt_sub hfits
  have hmost := toInt_numericPart_le faces random
  have hpart : 0 ≤ (numericPart faces random).toInt := by
    have hproduct := Double.isNegative_mul h (y := Double.ofInt faces.toInt)
      (by rw [Double.isNegative_ofInt, decide_eq_false_iff_not]; omega)
    have hnonneg := Number.toInt_clampToInt64_nonneg hproduct
    unfold numericPart
    generalize Number.clampToInt64 Double.floor (random * Double.ofInt faces.toInt) = part
      at hnonneg
    change 0 ≤ (if part ≤ faces - 1 then part else faces - 1).toInt
    split <;> omega
  have hadd : (numericPart faces random + 1).toInt = (numericPart faces random).toInt + 1 :=
    Number.toInt_add (fits_numericPart_add_one hfits random)
  rw [numericFace_eq]
  exact ⟨Int64.le_iff_toInt_le.2 (by omega), Int64.le_iff_toInt_le.2 (by omega)⟩

/-- Every value of the supply gives a face of the die that is rolled with it. -/
def Supply.Fair (s : Supply) : Prop :=
  ∀ i < s.limit, ∀ kind : DieType, kind.HasFaces → kind.Shows (kind.face (s.value i))

/-! ## Single dice -/

/-- What a face came up on. -/
def Face.kind : Face → DieType
  | .numeric faces _ => .numeric faces
  | .fate => .fate

/-- The die is of the kind. It shows a face of it, if no mechanic in use changes faces,
and one taken off at most, if none adds to them. -/
structure RolledDie.Faced (kind : DieType) (uses : Mechanic → Prop) (d : RolledDie) : Prop where
  kind_eq : d.face.kind = kind
  shows : ¬uses .penetrate → ¬uses .compound → kind.Shows d.roll
  reduced : ¬uses .compound → kind.ShowsReduced d.roll

namespace RolledDie

variable {kind : DieType} {uses : Mechanic → Prop} {d d' : RolledDie}

theorem kind_ofRoll (kind : DieType) (roll : Int64) (order : Nat) :
    (ofRoll kind roll order).face.kind = kind := by
  cases kind <;> rfl

theorem kind_setCritical (mark : Option Critical) (d : RolledDie) :
    (d.setCritical mark).face.kind = d.face.kind := by
  rw [setCritical]
  split
  next h => rw [h]; rfl
  next => rfl

/-- Only the kind and the roll of a die decide what it may show. -/
theorem Faced.congr (h : d.Faced kind uses) (hkind : d'.face.kind = d.face.kind)
    (hroll : d'.roll = d.roll) : d'.Faced kind uses where
  kind_eq := hkind.trans h.kind_eq
  shows := by rw [hroll]; exact h.shows
  reduced := by rw [hroll]; exact h.reduced

/-- **Faces that a fair supply gives** are kept by the mechanics in use. -/
theorem kindLaw_faced {σ : Setting} (hfair : σ.supply.Fair) (hkind : kind.HasFaces) :
    KindLaw σ kind uses (Faced kind uses) where
  rolled n hn order := by
    have hshows := hfair n hn kind hkind
    exact ⟨kind_ofRoll .., fun _ _ => hshows, fun _ => hshows.reduced⟩
  penetrated hpenetrate n hn :=
    ⟨kind_ofRoll _ _ 0, fun hnot => absurd hpenetrate hnot,
      fun _ => (hfair n hn kind hkind).reduced_sub_one⟩
  exploded h := h.congr rfl rfl
  setTotal hcompound _ h _ :=
    ⟨h.kind_eq, fun _ hnot => absurd hcompound hnot, fun hnot => absurd hcompound hnot⟩
  replaced h := h.congr rfl rfl
  setOrder h _ := h.congr rfl rfl

theorem Faced.setCritical (h : d.Faced kind uses) (mark : Option Critical) :
    (d.setCritical mark).Faced kind uses := by
  refine h.congr (kind_setCritical mark d) ?_
  rw [RolledDie.setCritical]
  split <;> rfl

/-- A die stays what it is, and shows what it shows, when it is counted or taken out. -/
theorem Faced.changed (hd : Changed d d') (h : d.Faced kind uses) : d'.Faced kind uses := by
  have hsame : (d'.face, d'.roll) = (d.face, d.roll) := by
    refine hd.apply_eq (f := fun d : RolledDie => (d.face, d.roll)) fun hstep => ?_
    cases hstep with
    | discard | zero => rfl
    | countOne =>
      rw [DiceNotation.countOne]
      split <;> rfl
  obtain ⟨hface, hroll⟩ := Prod.mk.inj hsame
  exact h.congr (congrArg Face.kind hface) hroll

end RolledDie

/-! ## Dice of one specification -/

section Dice

variable {kind : DieType} {uses : Mechanic → Prop} {σ : Setting} {rolls : List RolledDie}

/-- Changes of dice leave their faces. -/
theorem forall_faced_changed {rolls' : List RolledDie} (h : List.Forall₂ Changed rolls rolls')
    (hrolls : ∀ d ∈ rolls, d.Faced kind uses) : ∀ d ∈ rolls', d.Faced kind uses := by
  intro d' hd'
  obtain ⟨d, hd, hchanged⟩ := exists_of_forall₂_of_mem h hd'
  exact (hrolls d hd).changed hchanged

theorem forall_faced_markCritical (condition : Condition Number) (mark : Critical)
    (h : ∀ d ∈ rolls, d.Faced kind uses) :
    ∀ d ∈ markCritical condition mark rolls, d.Faced kind uses := by
  intro d' hd'
  obtain ⟨d, hd, rfl⟩ := List.mem_map.1 hd'
  split
  · exact (h d hd).setCritical _
  · exact h d hd

/-- Modifiers leave faces that the dice may show. -/
theorem givesAt_faced_applyToDice (hfair : σ.supply.Fair) (hkind : kind.HasFaces)
    {m : Modifier (Rolling Result)} (hm : ∀ mechanic, m.applies mechanic = true → uses mechanic)
    (h : ∀ d ∈ rolls, d.Faced kind uses) :
    (m.applyToDice kind rolls).GivesAt σ fun rolls => ∀ d ∈ rolls, d.Faced kind uses := by
  have hagain (mechanic : Mechanic) (trigger : Condition Number) (huses : uses mechanic) :
      (mechanic.apply kind trigger rolls).GivesAt σ fun rolls => ∀ d ∈ rolls, d.Faced kind uses :=
    (RolledDie.kindLaw_faced hfair hkind).givesAt_mechanic huses h
  match m with
  | .select .. =>
    exact Rolling.givesAt_bind fun _ =>
      Rolling.givesAt_pure (forall_faced_changed (changed_selectItems ..) h)
  | .test .success _ | .test .failure _ =>
    exact Rolling.givesAt_bind fun _ =>
      Rolling.givesAt_pure (forall_faced_changed (changed_convert ..) h)
  | .test .crit _ | .test .critfail _ =>
    exact Rolling.givesAt_bind fun _ => Rolling.givesAt_pure (forall_faced_markCritical _ _ h)
  | .again mechanic (some _) =>
    exact Rolling.givesAt_bind fun trigger =>
      hagain mechanic trigger (hm mechanic (by simp [Modifier.applies]))
  | .again mechanic none => exact hagain mechanic _ (hm mechanic (by simp [Modifier.applies]))
  | .unsupported => exact Rolling.givesAt_throw _ _

end Dice

namespace DieSpec

variable {ε φ : Type}

/-- Some modifier of the specification applies the mechanic. -/
def Uses (spec : DieSpec ε) (mechanic : Mechanic) : Prop :=
  ∃ m ∈ (Form.die spec).modifiers, m.applies mechanic = true

theorem uses_map (f : ε → φ) (spec : DieSpec ε) : (spec.map f).Uses = spec.Uses := by
  funext mechanic
  simp [Uses, modifiers_map]

/-- **From the first roll to the last modifier**, the dice show faces of their kind. -/
theorem givesAt_faced_rollDice {σ : Setting} (hfair : σ.supply.Fair) {kind : DieType}
    (hkind : kind.HasFaces) (spec : DieSpec (Rolling Result)) (k : Nat) :
    (spec.rollDice kind k).GivesAt σ fun rolls => ∀ d ∈ rolls, d.Faced kind spec.Uses := by
  have hlaw : KindLaw σ kind spec.Uses (RolledDie.Faced kind spec.Uses) :=
    RolledDie.kindLaw_faced hfair hkind
  rw [rollDice_eq]
  refine (hlaw.givesAt_rollMany k).bind fun rolls hrolls => ?_
  have hmods : ((Form.die spec).modifiers.foldlM (Modifier.applyToDice kind) rolls).GivesAt σ
      fun rolls => ∀ d ∈ rolls, RolledDie.Faced kind spec.Uses d :=
    Rolling.GivesAt.foldlM (fun m hm _ hrolls => givesAt_faced_applyToDice hfair hkind
      (fun mechanic hmechanic => ⟨m, hm, hmechanic⟩) hrolls) hrolls
  refine hmods.bind fun rolls hrolls => Rolling.givesAt_pure ?_
  exact forall_faced_changed (changed_settle spec.targets rolls) hrolls

/-- If nothing but compounding rolls dice again, there are as many as at first. -/
theorem Holds.length_eq {spec : DieSpec ε} {k n : Nat} (h : spec.Holds k n)
    (hcompound : ∀ mechanic, spec.Uses mechanic → mechanic = .compound) : n = k := by
  have hone : ∀ m ∈ (Form.die spec).modifiers, m.applies .reroll = false ∧ m.mostDice = 1 := by
    intro m hm
    cases m with
    | again mechanic trigger =>
      obtain rfl := hcompound mechanic ⟨_, hm, by simp [Modifier.applies]⟩
      exact ⟨rfl, rfl⟩
    | select | test | unsupported => exact ⟨rfl, rfl⟩
  have hprod : ((Form.die spec).modifiers.map Modifier.mostDice).prod = 1 :=
    List.prod_eq_one fun n hn => by
      obtain ⟨m, hm, rfl⟩ := List.mem_map.1 hn
      exact (hone m hm).2
  have hmost := h.most fun m hm => (hone m hm).1
  rw [hprod, Nat.mul_one] at hmost
  exact Nat.le_antisymm hmost h.least

end DieSpec

/-- The kind of die that resolved sides make. -/
def Sides.kind (sides : Sides Result) : DieType := sides.map fun faces => faces.value.toInt64

/-- **What a specification rolls.** There are as many dice at first as the count asks for,
and as many in the end if nothing but compounding rolls dice again. All are of the kind
that the sides make, which has a face. They show faces of it, unless a penalty takes one
off, or dice are compounded. -/
structure DieSpec.Rolled {ε : Type} (ceiling : UInt64) (spec : DieSpec ε) (count : Result)
    (sides : Sides Result) (rolls : List RolledDie) : Prop where
  counted : ∃ k, count.value.CountsAs ceiling k ∧ count.value.Requests ceiling.toNat k ∧
    k ≤ rolls.length ∧ ((∀ mechanic, spec.Uses mechanic → mechanic = .compound) → rolls.length = k)
  hasFaces : sides.kind.HasFaces
  kind_eq : ∀ d ∈ rolls, d.face.kind = sides.kind
  shows : ¬spec.Uses .penetrate → ¬spec.Uses .compound → ∀ d ∈ rolls, sides.kind.Shows d.roll
  reduced : ¬spec.Uses .compound → ∀ d ∈ rolls, sides.kind.ShowsReduced d.roll

namespace DieSpec

variable {ε : Type} {ceiling : UInt64} {count : Result} {sides : Sides Result}
  {rolls : List RolledDie}

/-- Dice that may show their faces, as many as they should be, are what a specification
rolls. -/
theorem rolled_of_faced {spec : DieSpec ε} {k : Nat} (hcounts : count.value.CountsAs ceiling k)
    (hrequests : count.value.Requests ceiling.toNat k) (hholds : spec.Holds k rolls.length)
    (hfaces : sides.kind.HasFaces) (h : ∀ d ∈ rolls, d.Faced sides.kind spec.Uses) :
    spec.Rolled ceiling count sides rolls where
  counted := ⟨k, hcounts, hrequests, hholds.least, hholds.length_eq⟩
  hasFaces := hfaces
  kind_eq d hd := (h d hd).kind_eq
  shows hpenetrate hcompound d hd := (h d hd).shows hpenetrate hcompound
  reduced hcompound d hd := (h d hd).reduced hcompound

/-- Only the mechanics of the specification matter. -/
theorem Rolled.of_map {φ : Type} {spec : DieSpec φ} {f : φ → ε}
    (h : (spec.map f).Rolled ceiling count sides rolls) :
    spec.Rolled ceiling count sides rolls := by
  have huses := uses_map f spec
  exact ⟨huses ▸ h.counted, h.hasFaces, h.kind_eq, huses ▸ h.shows, huses ▸ h.reduced⟩

/-- A change of the dice, one by one and where they lie, changes nothing of this. -/
theorem Rolled.changed {spec : DieSpec ε} (h : spec.Rolled ceiling count sides rolls)
    {rolls' : List RolledDie} (hrolls : List.Forall₂ Changed rolls rolls') :
    spec.Rolled ceiling count sides rolls' := by
  have hfaced := forall_faced_changed hrolls fun d hd =>
    (⟨h.kind_eq d hd, fun hp hc => h.shows hp hc d hd, fun hc => h.reduced hc d hd⟩ :
      d.Faced sides.kind spec.Uses)
  obtain ⟨k, hcounts, hrequests, hleast, heq⟩ := h.counted
  rw [hrolls.length_eq] at hleast heq
  exact ⟨⟨k, hcounts, hrequests, hleast, heq⟩, h.hasFaces, fun d hd => (hfaced d hd).kind_eq,
    fun hp hc d hd => (hfaced d hd).shows hp hc, fun hc d hd => (hfaced d hd).reduced hc⟩

end DieSpec

/-- Sides that are not refused make a kind that has a face. -/
theorem Sides.kind_of_resolve {sides : Sides (Rolling Result)} {resolved : Sides Result}
    {kind : DieType} {σ : Setting} {n d : Nat}
    (h : sides.resolve.answer σ n = (.ok (resolved, kind), d)) :
    resolved.kind = kind ∧ kind.HasFaces := by
  rcases answer_resolve_eq_ok h with ⟨-, rfl, rfl, -⟩ | ⟨_, faces, -, -, rfl, rfl, hleast⟩
  · exact ⟨rfl, trivial⟩
  · exact ⟨rfl, Int64.le_iff_toInt_le.2 (Number.one_le_toInt64 hleast)⟩

/-- **Dice as they are rolled** for a specification. -/
theorem DieSpec.rolled_of_answer_roll {spec : DieSpec (Rolling Result)} {σ : Setting} {n d : Nat}
    {r count : Result} {sides : Sides Result} {rolls : List RolledDie} {matched : Bool}
    (hfair : σ.supply.Fair) (hceiling : σ.ceiling.toNat < 0x20000000000000)
    (h : spec.roll.answer σ n = (.ok r, d)) (hshape : r.shape = .dice count sides rolls matched) :
    spec.Rolled σ.ceiling count sides rolls := by
  obtain ⟨k, hcounts, hrequests, hholds⟩ := exists_holds_of_answer_roll hceiling h hshape
  obtain ⟨_, _, -, first, _, -, _, _, e, hsides, dice, _, hdice, hconclude⟩ := answer_roll_eq_ok.1 h
  obtain ⟨faces, matched', hshape'⟩ := exists_shape_of_answer_conclude hconclude
  rw [hshape'] at hshape
  cases hshape
  obtain ⟨rfl, hfaces⟩ := Sides.kind_of_resolve hsides
  have hfaced := spec.givesAt_faced_rollDice hfair hfaces first e dice _ hdice
  refine rolled_of_faced hcounts hrequests hholds hfaces ?_
  refine spec.forall_mem_arrange (fun hd _ => hd.congr rfl rfl) fun d hd => ?_
  obtain ⟨d', hd', rfl⟩ := List.mem_map.1 hd
  split
  · exact (hfaced d' hd').congr rfl rfl
  · exact hfaced d' hd'

/-! ## Expressions -/

namespace Node

/-- Every die that is rolled for an expression has a face. -/
theorem rollsOnly_hasFaces (node : Node) {values : Nat → Double} {ceiling : UInt64} (n : Nat) :
    node.roll.RollsOnly DieType.HasFaces values ceiling n := by
  refine node.fold_induction
    (P := fun m : Rolling Result => ∀ n, m.RollsOnly DieType.HasFaces values ceiling n)
    (fun form label hparts => Rolling.rollsOnly_ofRefusals.labelled label ?_) (.refuse _) n
  refine .form hparts fun spec _ n sides kind d hends => ?_
  obtain ⟨limit, hresolve⟩ := hends.2
  exact (Sides.kind_of_resolve hresolve).2

/-- **Counts and faces.** If the values that are drawn give faces of the dice, and the
ceiling is below `2 ^ 53`, then whatever an expression gives, every specification in it
has rolled the dice it asks for, with faces that they have (`DieSpec.Rolled`). However
the roll ends, all dice that are rolled on the way have a face, and computing it from a
value of the supply, or taking a penalty off it, never leaves the sixty-four bits. -/
theorem answer_roll_faces {supply : Supply} (hfair : supply.Fair) {ceiling : UInt64}
    (hceiling : ceiling.toNat < 0x20000000000000) (node : Node) (n : Nat) :
    (∀ r d, node.roll.answer ⟨supply, ceiling⟩ n = (.ok r, d) →
      node.MirroredBy (fun spec count sides rolls => spec.Rolled ceiling count sides rolls) r) ∧
    node.roll.RollsOnly DieType.HasFaces supply.value ceiling n ∧
    ∀ kind : DieType, kind.HasFaces → ∀ i < supply.limit, kind.Computes (supply.value i) := by
  refine ⟨?_, node.rollsOnly_hasFaces n, fun kind hkind i hi => ?_⟩
  · refine givesAt_mirroredBy (fun hroll hshape => ?_) (fun _ _ _ _ _ hrolls h => h.changed hrolls)
      node n
    exact (DieSpec.rolled_of_answer_roll hfair hceiling hroll hshape).of_map
  · exact DieType.computes_of_shows hkind (hfair i hi kind hkind)

/-- Three fate dice say how many dice are rolled, which is two, and one of them explodes. -/
theorem answer_roll_faces_nested :
    let count : Node := .term (.die { sides := .fate, count := .int 3 }) none
    let dice : Node := .term (.die {
      sides := .numeric (.int 6), count := count, mods := [.again .explode none] }) none
    let tenths (k : Nat) : Double := .ofRatio false k 10
    let values : Supply := .ofList [tenths 9, tenths 5, tenths 9, tenths 9, tenths 2, tenths 4]
    values.Fair ∧ (1000 : UInt64).toNat < 0x20000000000000 ∧
      ∃ r, dice.roll.answer ⟨values, 1000⟩ 0 = (.ok r, 6) ∧
        dice.MirroredBy (fun spec count sides rolls => spec.Rolled 1000 count sides rolls) r := by
  intro count dice tenths values
  have hfair : values.Fair := by
    have hnumeric : ∀ i < 6, (values.value i).isNegative = false := by decide +kernel
    have hfate : ∀ i < 6, fateFace (values.value i) = -1 ∨ fateFace (values.value i) = 0 ∨
        fateFace (values.value i) = 1 := by decide +kernel
    intro i hi kind hkind
    cases kind with
    | fate => exact hfate i hi
    | numeric faces => exact shows_numericFace hkind (hnumeric i hi)
  have hceiling : (1000 : UInt64).toNat < 0x20000000000000 := by decide
  obtain ⟨r, hr⟩ : ∃ r, dice.roll.answer ⟨values, 1000⟩ 0 = (.ok r, 6) :=
    Rolling.exists_answer_eq_ok (by decide +kernel)
  exact ⟨hfair, hceiling, r, hr, (answer_roll_faces hfair hceiling dice 0).1 r 6 hr⟩

end Node

end DiceNotation
