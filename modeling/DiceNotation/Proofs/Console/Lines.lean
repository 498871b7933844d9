import DiceNotation.Console
import Mathlib.Data.String.Basic

/-!
# The lines of an input

Splitting a string at line ends is splitting its characters (`splitOn_newline`).
So no line of an input has a line end in it, and such a line with a line end behind
it is an input of one line (`Console.lines_newline`).
-/

namespace DiceNotation

open String

/-! ## Splitting -/

/-- What is left to split, with the characters since the last line end: the
positions are those of the whole string. -/
theorem splitOnAux_newline (l m r : List Char) (acc : List String) :
    splitOnAux (ofList (l ++ m ++ r)) "\n" ⟨utf8Len l⟩ ⟨utf8Len l + utf8Len m⟩ 0 acc =
      acc.reverse ++ (List.splitOnPPrepend (· == '\n') r m.reverse).map ofList := by
  have hend : Pos.Raw.atEnd (ofList (l ++ m ++ r)) ⟨utf8Len l + utf8Len m⟩ ↔ r = [] := by
    simp only [List.append_assoc, atEnd_iff, rawEndPos_ofList, utf8Len_append, Pos.Raw.mk_le_mk,
      Nat.add_le_add_iff_left, (by omega : utf8Len m + utf8Len r ≤ utf8Len m ↔ utf8Len r = 0),
      utf8Len_eq_zero]
  unfold splitOnAux
  cases r with
  | nil =>
    rw [if_pos (hend.2 rfl), List.splitOnPPrepend_nil, List.reverse_reverse]
    simpa using extract_of_valid l m []
  | cons c r =>
    have hget : Pos.Raw.get (ofList (l ++ m ++ c :: r)) ⟨utf8Len l + utf8Len m⟩ = c := by
      simpa using get_of_valid (l ++ m) (c :: r)
    have hnext : Pos.Raw.next (ofList (l ++ m ++ c :: r)) ⟨utf8Len l + utf8Len m⟩ =
        ⟨utf8Len l + utf8Len m + c.utf8Size⟩ := by
      simpa using next_of_valid (l ++ m) c r
    have hsep : Pos.Raw.get "\n" 0 = '\n' := by decide
    rw [if_neg (by simpa using hend), hget, hsep, List.splitOnPPrepend_cons_eq_if]
    by_cases hc : c = '\n'
    · -- the separator has one character, so it is found as soon as that is
      subst hc
      have hsepNext : Pos.Raw.next "\n" 0 = ⟨1⟩ := by decide
      have hsepEnd : Pos.Raw.atEnd "\n" ⟨1⟩ = true := by decide
      have hback : Pos.Raw.unoffsetBy ⟨utf8Len l + utf8Len m + Char.utf8Size '\n'⟩ ⟨1⟩ =
          ⟨utf8Len l + utf8Len m⟩ := rfl
      have ih := splitOnAux_newline (l ++ m ++ ['\n']) [] r (ofList m :: acc)
      simp only [beq_self_eq_true, if_true, hnext, hsepNext, hsepEnd, hback,
        extract_of_valid l m ('\n' :: r)]
      simpa [Nat.add_assoc] using ih
    · -- any other character belongs to the line
      have hback : Pos.Raw.unoffsetBy ⟨utf8Len l + utf8Len m⟩ 0 = ⟨utf8Len l + utf8Len m⟩ := rfl
      have hne : (c == '\n') = false := by simpa using hc
      have ih := splitOnAux_newline l (m ++ [c]) r acc
      simp only [hne, hback, hnext]
      simpa [Nat.add_assoc] using ih
termination_by r.length

/-- The parts of a text are those of its characters. -/
theorem splitOn_newline (s : String) :
    s.splitOn "\n" = (s.toList.splitOn '\n').map ofList := by
  have h := splitOnAux_newline [] [] s.toList []
  simpa [String.splitOn, List.splitOn_eq_splitOnP] using h

/-- What a list is split at is in none of its parts. -/
theorem not_mem_of_mem_splitOn {α : Type} [BEq α] [LawfulBEq α] {a : α} {l piece : List α}
    (h : piece ∈ l.splitOn a) : a ∉ piece := by
  induction l generalizing piece with
  | nil =>
    rw [List.splitOn_nil] at h
    rw [List.mem_singleton.1 h]
    exact List.not_mem_nil
  | cons x l ih =>
    rw [List.splitOn_cons_eq_if_modifyHead] at h
    split at h
    · rcases List.mem_cons.1 h with rfl | h
      · exact List.not_mem_nil
      · exact ih h
    next hx =>
      -- the character goes in front of the first piece
      obtain ⟨head, tail, heq⟩ := List.exists_cons_of_ne_nil (List.splitOn_ne_nil a l)
      rw [heq, List.modifyHead_cons] at h
      rcases List.mem_cons.1 h with rfl | h
      · have hhead : a ∉ head := ih (heq ▸ List.mem_cons_self)
        have hne : a ≠ x := fun hax => hx (beq_iff_eq.2 hax.symm)
        exact fun hmem => (List.mem_cons.1 hmem).elim hne hhead
      · exact ih (heq ▸ List.mem_cons_of_mem _ h)

/-! ## Lines -/

namespace Console

/-- A line has no line end in it. -/
theorem newline_not_mem {input line : String} (h : line ∈ lines input) : '\n' ∉ line.toList := by
  have hpiece : line ∈ input.splitOn "\n" := by
    unfold lines at h
    dsimp only at h
    split at h
    · exact (List.dropLast_sublist _).subset h
    · exact h
  rw [splitOn_newline] at hpiece
  obtain ⟨piece, hsplit, rfl⟩ := List.mem_map.1 hpiece
  rw [toList_ofList]
  exact not_mem_of_mem_splitOn hsplit

/-- A line with a line end behind it is an input of that line. -/
theorem lines_newline {line : String} (h : '\n' ∉ line.toList) :
    lines (line ++ "\n") = [line] := by
  have hpieces : (line ++ "\n").splitOn "\n" = [line, ""] := by
    have hchars : (line.toList ++ ['\n']).splitOn '\n' = [line.toList, []] := by
      rw [List.splitOn_append_cons_self_of_not_mem h, List.splitOn_nil]
    rw [splitOn_newline, toList_append]
    change ((line.toList ++ ['\n']).splitOn '\n').map ofList = _
    rw [hchars, List.map_cons, ofList_toList]
    rfl
  unfold lines
  rw [hpieces]
  rfl

end Console

end DiceNotation
