import DiceNotation.Proofs.Token.Tiling

/-!
# Pieces of a text

A piece of a text is cut out by the bytes between which it stands. There is one only if both
are places where characters begin or the text ends (`Text.piece?_eq_some_iff`). A token is
the piece between its own two bytes, and so is the inside of a label.
-/

namespace DiceNotation

namespace Text

variable {s : String} {us vs cs : List Char} {n : Nat}

/-- The text cut in two after so many bytes, if a character ends there. -/
def cut? : Nat → List Char → Option (List Char × List Char)
  | 0, cs => some ([], cs)
  | _ + 1, [] => none
  | n + 1, c :: cs =>
    if c.utf8Size ≤ n + 1 then (cut? (n + 1 - c.utf8Size) cs).map fun (us, vs) => (c :: us, vs)
    else none

/-- The piece of a text between two bytes, if characters begin there. -/
def piece? (start stop : Nat) (s : String) : Option String := do
  let (_, rest) ← cut? start s.toList
  if start ≤ stop then
    let (inside, _) ← cut? (stop - start) rest
    return String.ofList inside
  else none

/-- Before the first byte there is nothing, or what has no bytes. -/
theorem cut?_zero_eq_some_iff : cut? 0 cs = some (us, vs) ↔ cs = us ++ vs ∧ bytes us = 0 := by
  rw [cut?]
  constructor
  · rintro ⟨⟩
    exact ⟨rfl, bytes_nil⟩
  · rintro ⟨rfl, hbytes⟩
    obtain rfl : us = [] := by
      by_contra hne
      exact absurd (bytes_pos hne) (by omega)
    rfl

/-- A text is cut only between two characters. -/
theorem cut?_eq_some_iff : cut? n cs = some (us, vs) ↔ cs = us ++ vs ∧ bytes us = n := by
  induction cs generalizing n us with
  | nil =>
    cases n with
    | zero => exact cut?_zero_eq_some_iff
    | succ n =>
      refine iff_of_false nofun ?_
      rintro ⟨hnil, hn⟩
      obtain ⟨rfl, -⟩ := List.append_eq_nil_iff.1 hnil.symm
      cases hn
  | cons c cs ih =>
    cases n with
    | zero => exact cut?_zero_eq_some_iff
    | succ n =>
      rw [cut?]
      constructor
      · intro h
        split at h
        · next hle =>
          obtain ⟨⟨us, vs⟩, hcut, ⟨⟩⟩ := Option.map_eq_some_iff.1 h
          obtain ⟨rfl, hbytes⟩ := ih.1 hcut
          exact ⟨rfl, by rw [bytes_cons]; omega⟩
        · cases h
      · rintro ⟨hcs, hbytes⟩
        cases us with
        | nil => cases hbytes
        | cons d us =>
          obtain ⟨rfl, rfl⟩ := List.cons.inj hcs
          rw [bytes_cons] at hbytes
          rw [if_pos (by omega), ih.2 ⟨rfl, by omega⟩]
          rfl

/-- **A piece is what stands between its bytes**, and there is no other one. -/
theorem piece?_eq_some_iff {start stop : Nat} {piece : String} :
    piece? start stop s = some piece ↔ ∃ us ws, s.toList = us ++ piece.toList ++ ws ∧
      bytes us = start ∧ start + bytes piece.toList = stop := by
  simp only [piece?, Option.bind_eq_bind, Option.bind_eq_some_iff, Prod.exists, cut?_eq_some_iff]
  constructor
  · rintro ⟨us, rest, ⟨hs, hstart⟩, h⟩
    split at h
    · next hle =>
      obtain ⟨⟨vs, ws⟩, hcut, ⟨⟩⟩ := Option.bind_eq_some_iff.1 h
      obtain ⟨rfl, hstop⟩ := cut?_eq_some_iff.1 hcut
      refine ⟨us, ws, by rw [hs, String.toList_ofList, List.append_assoc], hstart, ?_⟩
      rw [String.toList_ofList, hstop]
      omega
    · cases h
  · rintro ⟨us, ws, hs, hstart, hstop⟩
    refine ⟨us, piece.toList ++ ws, ⟨by rw [hs, List.append_assoc], hstart⟩, ?_⟩
    rw [if_pos (by omega), cut?_eq_some_iff.2 ⟨rfl, by omega⟩]
    exact congrArg some String.ofList_toList

/-- Behind the last byte there is nothing. -/
theorem piece?_end (s : String) : piece? s.utf8ByteSize s.utf8ByteSize s = some "" :=
  piece?_eq_some_iff.2 ⟨s.toList, [], by simp, bytes_toList s, rfl⟩

end Text

namespace Token

variable {s : String} {t : Token}

/-- A token is the piece of the text between its bytes. -/
theorem piece?_eq (ht : t ∈ tokenize s) : Text.piece? t.start t.stop s = some t.text := by
  rw [tokenize_eq] at ht
  obtain ⟨before, after, hs, hstart, -⟩ := exists_leads ht
  rw [Nat.zero_add] at hstart
  refine Text.piece?_eq_some_iff.2 ⟨before, after, hs, hstart, ?_⟩
  rw [Text.bytes_toList]
  rfl

/-- The inside of a label stands between its brackets. -/
theorem piece?_label (ht : t ∈ tokenize s) (hkind : t.kind = .label) :
    Text.piece? 1 (t.text.utf8ByteSize - 1) t.text =
      some (String.ofList t.text.toList.tail.dropLast) := by
  rw [tokenize_eq] at ht
  obtain ⟨before, after, -, -, hleads⟩ := exists_leads ht
  rw [hkind] at hleads
  obtain ⟨p, hp, hmatches⟩ := (hleads.takesMost nofun).describes
  cases hp
  generalize htext : t.text.toList = w at hmatches
  cases hmatches with
  | @bracketed inside hne hinside =>
    have hsize : t.text.utf8ByteSize = 1 + Text.bytes inside + 1 := by
      rw [← Text.bytes_toList, htext, List.cons_append, Text.bytes_cons, Text.bytes_append,
        ← Nat.add_assoc]
      rfl
    rw [hsize, Nat.add_sub_cancel, List.cons_append, List.tail_cons, List.dropLast_concat]
    refine Text.piece?_eq_some_iff.2 ⟨['['], [']'], ?_, rfl, ?_⟩
    · rw [htext, String.toList_ofList]
      rfl
    · rw [String.toList_ofList]

end Token

end DiceNotation
