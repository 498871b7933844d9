import DiceNotation.Proofs.Roll.Writer

/-!
# The marks of a text

A result can be written with its marks kept apart from the text they are put
into: a part that does not count has one around its body exactly if it is in no
such part already, and so has the face of a critical die (`Result.marked`). This
is the Markdown of the writer with a memory, and the simple text once the marks
are taken out (`Result.write_marked`). Nothing inside a struck part is struck out
again.
-/

namespace DiceNotation

open Counted

/-- What is put around a part of a text. -/
inductive Mark where
  | strike
  | bold
  | italic
deriving DecidableEq

def Mark.symbol : Mark → String
  | .strike => "~~"
  | .bold => "**"
  | .italic => "*"

/-- A critical success is bold, a critical failure italic. -/
def Critical.mark : Critical → Mark
  | .success => .bold
  | .failure => .italic

/-- A part of a text, or one end of a mark. -/
inductive Piece where
  | plain (text : String)
  | mark (mark : Mark)
deriving DecidableEq

/-- A text that knows which of it is marks. -/
abbrev Marked := List Piece

namespace Marked

/-- The text with its marks. -/
def text : Marked → String
  | [] => ""
  | .plain text :: rest => text ++ Marked.text rest
  | .mark mark :: rest => mark.symbol ++ Marked.text rest

/-- Deletes the marks. -/
def unmarked (m : Marked) : Marked :=
  m.filter fun
    | .plain _ => true
    | .mark _ => false

/-- Puts a mark around all of it, if there is one to put. -/
def wrap (mark : Option Mark) (m : Marked) : Marked :=
  match mark with
  | none => m
  | some mark => .mark mark :: m ++ [.mark mark]

/-- The mark of what does not count, if nothing around it is struck out. -/
def strikeOf (inside valid : Bool) : Option Mark :=
  if !valid && !inside then some .strike else none

/-- With the label of its node behind it. -/
def labelled (label : Option String) (m : Marked) : Marked :=
  match label with
  | some label => m ++ [.plain (" [" ++ label ++ "]")]
  | none => m

/-- In parentheses if need be. -/
def enclose (needed : Bool) (m : Marked) : Marked :=
  if needed then .plain "(" :: m ++ [.plain ")"] else m

/-- Terms with operators between them, as far as both go. -/
def interleave : List Marked → List String → Marked
  | [], _ => []
  | head :: tail, ops =>
    (ops.zip tail).foldl (fun m (op, term) => m ++ .plain (" " ++ op ++ " ") :: term) head

/-- Members with commas between them. -/
def separated : List Marked → Marked
  | [] => []
  | [m] => m
  | m :: next :: rest => m ++ .plain ", " :: separated (next :: rest)

end Marked

open Marked (wrap strikeOf labelled enclose interleave separated)

/-- One die: its face, with the mark of a critical and struck out if need be. -/
def RolledDie.marked (inside : Bool) (d : RolledDie) : Marked :=
  labelled d.outcome.label
    (wrap (strikeOf inside d.outcome.valid)
      (wrap (d.critical.map Critical.mark)
        [.plain (toString d.roll.toInt ++ if d.exploded then "!" else "")]))

namespace Result

mutual

/-- The text of a result with its marks, inside a struck part or outside of one.
The label is not struck out with the body. -/
def marked (inside : Bool) : Result → Marked
  | mk outcome shape =>
    labelled outcome.label
      (wrap (strikeOf inside outcome.valid)
        (bodyMarked (inside || !outcome.valid) outcome.value shape))

def bodyMarked (inside : Bool) (value : Number) : Shape Result → Marked
  | .number => [.plain value.text]
  | .dice count sides rolls _ =>
    enclose (!count.isNumber) (marked inside count) ++ .plain "d" :: sidesMarked inside sides ++
      .plain " (" :: separated (rolls.map (RolledDie.marked inside)) ++ [.plain ")"]
  | .sum terms ops => interleave (operandsMarked inside terms) (ops.map SumOp.symbol)
  | .chain terms ops => interleave (operandsMarked inside terms) (ops.map ArithOp.symbol)
  | .group members => .plain "\x7b" :: separated (membersMarked inside members) ++ [.plain "\x7d"]
  | .function fn arg => .plain (fn.symbol ++ "(") :: marked inside arg ++ [.plain ")"]

def sidesMarked (inside : Bool) : Sides Result → Marked
  | .fate => [.plain "F"]
  | .numeric faces => enclose (!faces.isNumber) (marked inside faces)

def operandsMarked (inside : Bool) : List Result → List Marked
  | [] => []
  | term :: rest => enclose term.isChain (marked inside term) :: operandsMarked inside rest

def membersMarked (inside : Bool) : List Result → List Marked
  | [] => []
  | member :: rest => marked inside member :: membersMarked inside rest

end

end Result

/-! ## Marks in the two styles

The simple text is the one without the marks. Both styles go piece by piece, so
whatever is put together from marked texts is put together from theirs. -/

namespace Marked

variable {style : Style} {mark : Mark} {m m' : Marked}

/-- The text in one of the styles. -/
def textIn (style : Style) (m : Marked) : String :=
  match style with
  | .simple => m.unmarked.text
  | .markdown => m.text

@[simp] theorem textIn_nil : textIn style [] = "" := by
  cases style <;> rfl

@[simp] theorem textIn_plain (text : String) :
    textIn style (.plain text :: m) = text ++ textIn style m := by
  cases style <;> rfl

@[simp] theorem textIn_append : textIn style (m ++ m') = textIn style m ++ textIn style m' := by
  have htext (m m' : Marked) : (m ++ m').text = m.text ++ m'.text := by
    induction m with
    | nil => rw [List.nil_append, text, String.empty_append]
    | cons piece rest ih =>
      cases piece <;> rw [List.cons_append, text, text, ih, String.append_assoc]
  cases style with
  | simple => rw [textIn, textIn, textIn, unmarked, List.filter_append, htext]; rfl
  | markdown => exact htext m m'

/-- A label stands behind its text in any style. -/
@[simp] theorem textIn_labelled (label : Option String) :
    textIn style (labelled label m) = Style.withLabel label (textIn style m) := by
  cases label with
  | none => rfl
  | some label =>
    simp only [labelled, Style.withLabel, textIn_append, textIn_plain, textIn_nil,
      String.append_empty, String.append_assoc]

/-- So do brackets around it, where they are needed. -/
@[simp] theorem textIn_enclose (needed : Bool) :
    textIn style (enclose needed m) = Style.enclose needed (textIn style m) := by
  cases needed with
  | false => rfl
  | true =>
    rw [enclose, Style.enclose, if_pos rfl, if_pos rfl, List.cons_append, textIn_plain,
      textIn_append, textIn_plain, textIn_nil, String.append_empty, String.append_assoc]

@[simp] theorem textIn_interleave (terms : List Marked) (ops : List String) :
    textIn style (interleave terms ops) = Style.interleave (terms.map (textIn style)) ops := by
  cases terms with
  | nil => exact textIn_nil
  | cons head tail =>
    rw [interleave, List.map_cons, Style.interleave, List.zip_map_right, List.foldl_map]
    refine (List.foldl_hom (textIn style) fun m (op, term) => ?_).symm
    simp only [Prod.map, textIn_append, textIn_plain, String.append_assoc, id]

@[simp] theorem textIn_separated (members : List Marked) :
    textIn style (separated members) = ", ".intercalate (members.map (textIn style)) := by
  induction members using separated.induct with
  | case1 => exact textIn_nil
  | case2 m => rw [separated, List.map_singleton, String.intercalate_singleton]
  | case3 m next rest ih =>
    rw [separated, textIn_append, textIn_plain, ih, List.map_cons, List.map_cons, List.map_cons,
      String.intercalate_cons_cons, String.append_assoc]

/-- Without styles nothing stands around a text. -/
theorem textIn_simple_wrap (mark : Option Mark) :
    textIn .simple (wrap mark m) = textIn .simple m := by
  cases mark with
  | none => rfl
  | some mark =>
    rw [wrap, textIn_append]
    exact String.append_empty

/-- In Markdown a sign stands on both sides. -/
theorem textIn_markdown_wrap (mark : Mark) :
    textIn .markdown (wrap (some mark) m) = mark.symbol ++ textIn .markdown m ++ mark.symbol := by
  rw [wrap, textIn_append]
  change mark.symbol ++ textIn .markdown m ++ (mark.symbol ++ "") = _
  rw [String.append_empty]

end Marked

/-! ## The text is the one that passes the marks down

In simple text nothing is struck out, wherever it stands; in Markdown it matters
whether a struck part is around. -/

section

variable {style : Style}

/-- A body is struck out by its mark as it is by the style. -/
theorem Marked.textIn_strikeOf {inside struck : Bool} (h : style = .markdown → struck = inside)
    (valid : Bool) {m : Marked} {body : Bool → String}
    (hbody : ∀ struck, (style = .markdown → struck = (inside || !valid)) →
      m.textIn style = body struck) :
    (wrap (strikeOf inside valid) m).textIn style =
      if style.strikes struck valid then "~~" ++ body true ++ "~~" else body struck := by
  cases style with
  | simple =>
    rw [Marked.textIn_simple_wrap, hbody struck nofun]
    rfl
  | markdown =>
    obtain rfl := h rfl
    cases valid with
    | true => exact hbody struck fun _ => (Bool.or_false struck).symm
    | false =>
      cases struck with
      | true => exact hbody true fun _ => rfl
      | false =>
        change (wrap (some .strike) m).textIn .markdown = "~~" ++ body true ++ "~~"
        rw [Marked.textIn_markdown_wrap, hbody true fun _ => rfl]
        rfl

/-- A critical die is marked as its style marks it. -/
theorem Marked.textIn_critical (critical : Option Critical) (face : String) :
    (wrap (critical.map Critical.mark) [.plain face]).textIn style =
      style.critical critical face := by
  have hface : Marked.textIn style [.plain face] = face := by
    rw [Marked.textIn_plain, Marked.textIn_nil, String.append_empty]
  cases style with
  | simple => rw [Marked.textIn_simple_wrap, hface]; rfl
  | markdown =>
    match critical with
    | none => exact hface
    | some .success | some .failure =>
      rw [Option.map_some, Marked.textIn_markdown_wrap, hface]
      rfl

/-- A die is written with the marks that are not around it already. -/
theorem RolledDie.textIn_marked {inside struck : Bool} (h : style = .markdown → struck = inside)
    (d : RolledDie) : (d.marked inside).textIn style = style.die struck d := by
  rw [marked, Marked.textIn_labelled, @Marked.textIn_strikeOf style inside struck h _ _ (fun _ => _)
    fun _ _ => Marked.textIn_critical d.critical _]
  rfl

namespace Result

mutual

/-- **The text of a result is its marked text** in either style. -/
theorem textIn_marked {inside struck : Bool} (h : style = .markdown → struck = inside) :
    (r : Result) → (r.marked inside).textIn style = r.textWithin style struck
  | mk outcome shape => by
    rw [marked, textWithin, Marked.textIn_labelled,
      Marked.textIn_strikeOf h outcome.valid fun _ h' => textIn_bodyMarked h' outcome.value shape]

/-- The text of a body is the one that its style writes. -/
theorem textIn_bodyMarked {inside struck : Bool} (h : style = .markdown → struck = inside)
    (value : Number) : (shape : Shape Result) →
    (bodyMarked inside value shape).textIn style = bodyWithin style struck value shape
  | .number => by
    rw [bodyMarked, bodyWithin, Marked.textIn_plain, Marked.textIn_nil, String.append_empty]
  | .dice count sides rolls _ => by
    have hrolls : (rolls.map (RolledDie.marked inside)).map (Marked.textIn style) =
        rolls.map (style.die struck) := by
      rw [List.map_map]
      exact List.map_congr_left fun d _ => d.textIn_marked h
    rw [bodyMarked, bodyWithin]
    simp only [Marked.textIn_append, Marked.textIn_plain, Marked.textIn_nil,
      Marked.textIn_enclose, Marked.textIn_separated, textIn_marked h count,
      textIn_sidesMarked h sides, hrolls, String.append_empty, String.append_assoc]
  | .sum terms ops => by
    rw [bodyMarked, bodyWithin, Marked.textIn_interleave, textIn_operandsMarked h terms]
  | .chain terms ops => by
    rw [bodyMarked, bodyWithin, Marked.textIn_interleave, textIn_operandsMarked h terms]
  | .group members => by
    rw [bodyMarked, bodyWithin]
    simp only [Marked.textIn_append, List.cons_append, Marked.textIn_plain, Marked.textIn_nil,
      Marked.textIn_separated, textIn_membersMarked h members, String.append_empty,
      String.append_assoc]
  | .function fn arg => by
    rw [bodyMarked, bodyWithin]
    simp only [Marked.textIn_append, List.cons_append, Marked.textIn_plain, Marked.textIn_nil,
      textIn_marked h arg, String.append_empty, String.append_assoc]

theorem textIn_sidesMarked {inside struck : Bool} (h : style = .markdown → struck = inside) :
    (sides : Sides Result) →
    (sidesMarked inside sides).textIn style = sidesWithin style struck sides
  | .fate => by
    rw [sidesMarked, sidesWithin, Marked.textIn_plain, Marked.textIn_nil, String.append_empty]
  | .numeric faces => by
    rw [sidesMarked, sidesWithin, Marked.textIn_enclose, textIn_marked h faces]

theorem textIn_operandsMarked {inside struck : Bool} (h : style = .markdown → struck = inside) :
    (terms : List Result) →
    (operandsMarked inside terms).map (Marked.textIn style) = operandsWithin style struck terms
  | [] => by rw [operandsMarked, operandsWithin, List.map_nil]
  | term :: rest => by
    rw [operandsMarked, operandsWithin, List.map_cons, Marked.textIn_enclose,
      textIn_marked h term, textIn_operandsMarked h rest]

theorem textIn_membersMarked {inside struck : Bool} (h : style = .markdown → struck = inside) :
    (members : List Result) →
    (membersMarked inside members).map (Marked.textIn style) = textsWithin style struck members
  | [] => by rw [membersMarked, textsWithin, List.map_nil]
  | member :: rest => by
    rw [membersMarked, textsWithin, List.map_cons, textIn_marked h member,
      textIn_membersMarked h rest]

end

end Result

end

/-! ## Struck out once

The two ends of a mark belong together, and there is no mark of striking out
between those of another. -/

/-- The marks come in pairs, one inside the other; only outside of a struck part
is something struck out. -/
inductive Marked.Nested : Bool → Marked → Prop where
  | nil {inside : Bool} : Nested inside []
  | plain {inside : Bool} (text : String) : Nested inside [.plain text]
  | append {inside : Bool} {m m' : Marked} :
    Nested inside m → Nested inside m' → Nested inside (m ++ m')
  | strike {m : Marked} : Nested true m → Nested false (wrap (some .strike) m)
  | critical {inside : Bool} (critical : Critical) (face : String) :
    Nested inside (wrap (some critical.mark) [.plain face])

namespace Marked.Nested

variable {inside : Bool} {m : Marked}

/-- **Nothing inside a struck part is struck out.** -/
theorem not_mem_strike (h : m.Nested inside) (hinside : inside = true) :
    Piece.mark .strike ∉ m := by
  induction h with
  | nil | plain => simp
  | append _ _ ih ih' => simp [ih hinside, ih' hinside]
  | strike => cases hinside
  | critical critical => cases critical <;> simp [wrap, Critical.mark]

/-- Plain text in front strikes nothing out. -/
theorem cons (text : String) (h : m.Nested inside) : Nested inside (.plain text :: m) :=
  (plain text).append h

/-- What is struck out is struck once: inside of it no more marks are set. -/
theorem strikeOf {valid : Bool} (h : m.Nested (inside || !valid)) :
    (wrap (strikeOf inside valid) m).Nested inside := by
  match inside, valid with
  | true, true | true, false | false, true => exact h
  | false, false => exact h.strike

/-- Neither does a label. -/
theorem labelled (h : m.Nested inside) (label : Option String) :
    (labelled label m).Nested inside := by
  cases label with
  | none => exact h
  | some label => exact h.append (plain _)

theorem enclose (h : m.Nested inside) (needed : Bool) : (enclose needed m).Nested inside := by
  cases needed with
  | false => exact h
  | true => exact (h.append (plain ")")).cons "("

/-- Neither do operators between terms. -/
theorem interleave {terms : List Marked} (h : ∀ m ∈ terms, m.Nested inside)
    (ops : List String) : (interleave terms ops).Nested inside := by
  cases terms with
  | nil => exact nil
  | cons head tail =>
    have hhead := h head List.mem_cons_self
    have htail (m : Marked) (hm : m ∈ tail) := h m (List.mem_cons_of_mem head hm)
    clear h
    rw [Marked.interleave]
    induction tail generalizing head ops with
    | nil => rwa [List.zip_nil_right]
    | cons term tail ih =>
      cases ops with
      | nil => exact hhead
      | cons op ops =>
        exact ih ops _ (hhead.append ((htail term List.mem_cons_self).cons _))
          fun m hm => htail m (List.mem_cons_of_mem term hm)

theorem separated {members : List Marked} (h : ∀ m ∈ members, m.Nested inside) :
    (separated members).Nested inside := by
  induction members using Marked.separated.induct with
  | case1 => exact nil
  | case2 m => exact h m List.mem_cons_self
  | case3 m next rest ih =>
    exact (h m List.mem_cons_self).append
      ((ih fun m hm => h m (List.mem_cons_of_mem _ hm)).cons ", ")

end Marked.Nested

/-- The text of a die is struck out once at most. -/
theorem RolledDie.nested_marked (inside : Bool) (d : RolledDie) :
    (d.marked inside).Nested inside := by
  refine Marked.Nested.labelled (.strikeOf ?_) d.outcome.label
  cases d.critical with
  | none => exact .plain _
  | some critical => exact .critical critical _

namespace Result

mutual

/-- **The marks of a result are nested**, whether it is inside a struck part or not. -/
theorem nested_marked (inside : Bool) : (r : Result) → (r.marked inside).Nested inside
  | mk outcome shape => by
    rw [marked]
    exact (nested_bodyMarked _ outcome.value shape).strikeOf.labelled outcome.label

/-- The text of a body is struck out once at most, and so is each of its parts. -/
theorem nested_bodyMarked (inside : Bool) (value : Number) : (shape : Shape Result) →
    (bodyMarked inside value shape).Nested inside
  | .number => by rw [bodyMarked]; exact .plain _
  | .dice count sides rolls _ => by
    have hrolls : ∀ m ∈ rolls.map (RolledDie.marked inside), m.Nested inside := by
      intro m hm
      obtain ⟨d, -, rfl⟩ := List.mem_map.mp hm
      exact d.nested_marked inside
    rw [bodyMarked]
    have hcount := (nested_marked inside count).enclose (!count.isNumber)
    have hsides := (nested_sidesMarked inside sides).cons "d"
    exact ((hcount.append hsides).append ((Marked.Nested.separated hrolls).cons " (")).append
      (.plain ")")
  | .sum terms ops => by
    rw [bodyMarked]
    exact .interleave (nested_operandsMarked inside terms) _
  | .chain terms ops => by
    rw [bodyMarked]
    exact .interleave (nested_operandsMarked inside terms) _
  | .group members => by
    rw [bodyMarked]
    exact ((Marked.Nested.separated (nested_membersMarked inside members)).cons _).append (.plain _)
  | .function fn arg => by
    rw [bodyMarked]
    exact ((nested_marked inside arg).cons _).append (.plain _)

theorem nested_sidesMarked (inside : Bool) : (sides : Sides Result) →
    (sidesMarked inside sides).Nested inside
  | .fate => by rw [sidesMarked]; exact .plain _
  | .numeric faces => by
    rw [sidesMarked]
    exact (nested_marked inside faces).enclose _

theorem nested_operandsMarked (inside : Bool) : (terms : List Result) →
    ∀ m ∈ operandsMarked inside terms, m.Nested inside
  | [] => by simp [operandsMarked]
  | term :: rest => by
    rw [operandsMarked, List.forall_mem_cons]
    exact ⟨(nested_marked inside term).enclose _, nested_operandsMarked inside rest⟩

theorem nested_membersMarked (inside : Bool) : (members : List Result) →
    ∀ m ∈ membersMarked inside members, m.Nested inside
  | [] => by simp [membersMarked]
  | member :: rest => by
    rw [membersMarked, List.forall_mem_cons]
    exact ⟨nested_marked inside member, nested_membersMarked inside rest⟩

end

/-! ## The writer -/

/-- Lines written one after the other are those of new writers. -/
theorem run_mapM_writeLine (rs : List Result) :
    (rs.mapM writeLine).run false = (rs.map fun r => (r.writeLine.run false).1, false) := by
  induction rs with
  | nil => rfl
  | cons r rest ih =>
    have hmemory : (r.writeLine.run false).2 = false := by rw [run_writeLine]
    rw [List.mapM_cons, List.map_cons]
    change ((_ :: ((rest.mapM writeLine).run (r.writeLine.run false).2).1 : List String),
      ((rest.mapM writeLine).run (r.writeLine.run false).2).2) = _
    rw [hmemory, ih]
    rfl

/-- **Markdown is the simple text with marks.** A writer that is not inside a
struck part writes the text with its marks and is outside again, so it writes any
results one after the other as new writers would. Its marks are nested and never
strike out twice, and without them the text is the simple one. -/
theorem write_marked :
    (∀ r : Result, r.write.run false = ((r.marked false).text, false) ∧
      r.text .markdown = (r.marked false).text) ∧
    (∀ rs : List Result,
      (rs.mapM write).run false = (rs.map fun r => (r.write.run false).1, false) ∧
      (rs.mapM writeLine).run false = (rs.map fun r => (r.writeLine.run false).1, false)) ∧
    ∀ r : Result, (r.marked false).Nested false ∧ Piece.mark .strike ∉ r.marked true ∧
      (r.marked false).unmarked.text = r.text .simple := by
  have htext (style : Style) (r : Result) : (r.marked false).textIn style = r.text style :=
    textIn_marked (fun _ => rfl) r
  refine ⟨fun r => ⟨?_, (htext .markdown r).symm⟩, fun rs => ⟨?_, run_mapM_writeLine rs⟩,
    fun r => ⟨nested_marked false r, (nested_marked true r).not_mem_strike rfl,
      htext .simple r⟩⟩
  · rw [run_write]
    exact congrArg (·, false) (htext .markdown r).symm
  · rw [Writing.restores_mapM restores_write rs false]
    simp only [run_write]

end Result

end DiceNotation
