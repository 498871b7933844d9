import DiceNotation.Proofs.Grammar.Adjoining
import DiceNotation.Proofs.Number.Sums

/-!
# Integers as text

A numeral is digits, maybe with a minus in front; zeros may come first. As a text
of its own it is read as the integer that it writes, if its digits alone are in
range, and refused as an invalid number otherwise (`parse_numeral`).

The sign is put on the value that the digits have without it. So the lowest integer
is not read back from its own text: its magnitude is one more than the highest.
-/

namespace DiceNotation

open Token (Kind adjoin digitsWord spell)

variable {ds : Digits} {us : List (Kind × String)} {start finish : Nat}

/-- The number that the digits write is one that can be read. -/
def Digits.InRange (ds : Digits) : Prop := (ds.value : Int) ≤ Number.highest

instance : Decidable ds.InRange := inferInstanceAs (Decidable (_ ≤ _))

/-- Digits, maybe with a minus in front. -/
structure Numeral where
  negative : Bool
  digits : Digits

namespace Numeral

variable {n : Numeral}

def text (n : Numeral) : String := if n.negative then "-" ++ n.digits.text else n.digits.text

/-- The integer that the numeral writes. -/
def value (n : Numeral) : Int := if n.negative then -n.digits.value else n.digits.value

/-- The integer, as far as an `Int64` can hold it. -/
def toInt64 (n : Numeral) : Int64 := Int64.ofInt n.value

/-- The digits of the numeral are in range without its sign. -/
def InRange (n : Numeral) : Prop := n.digits.InRange

instance : Decidable n.InRange := inferInstanceAs (Decidable n.digits.InRange)

/-- Only the lowest integer has no numeral whose digits are in range. -/
theorem inRange_iff : n.InRange ↔ Number.Fits n.value ∧ n.value ≠ Number.lowest := by
  unfold InRange Digits.InRange value Number.Fits Number.lowest Number.highest
  split
  · omega
  · omega

/-- The digits as a token of the numeral's text. -/
def token (n : Numeral) : Token := ⟨.integer, if n.negative then 1 else 0, n.digits.text⟩

/-! ## Words -/

/-- The words of a numeral. -/
def words (n : Numeral) : List (Kind × String) :=
  if n.negative then [Kind.minus.word, digitsWord n.digits] else [digitsWord n.digits]

/-- The words of a numeral spell it. -/
theorem spell_words (n : Numeral) : spell n.words = n.text := by
  unfold words text
  split
  · simp [digitsWord, Kind.word, Kind.pattern?]
  · simp [digitsWord]

/-- They do not grow together where they stand side by side. -/
theorem apart_words (n : Numeral) : Token.Apart n.words := by
  unfold words
  split
  · have hminus : Token.Ends Kind.minus.word (digitsWord n.digits) :=
      Token.ends_word_digits rfl (by decide +kernel) n.digits
    refine ⟨?_, .cons_cons hminus (.singleton _)⟩
    simp [Token.stands_word (k := .minus) rfl, Token.stands_digits]
  · exact ⟨by simp [Token.stands_digits], .singleton _⟩

end Numeral

/-! ## Digits -/

namespace Parser

/-- Digits are read just if the number that they write is in range. -/
theorem integerValue?_digits (ds : Digits) :
    integerValue? ds.text = if ds.InRange then some (Int64.ofNat ds.value) else none := by
  have hvalue : Double.readDigits 0 ds.text.toList = ds.value := Nat.ofDigitChars_eq_foldl.symm
  rw [integerValue?, hvalue]
  rfl

/-- A sign that was taken before makes the number negative. -/
theorem consumes_magnitude (negative : Bool) (h : ds.InRange) :
    (magnitude negative).Consumes [digitsWord ds] us
      (.int (if negative then -Int64.ofNat ds.value else Int64.ofNat ds.value)) := by
  refine .look ?_
  dsimp only
  rw [integerValue?_digits, if_pos h]
  exact .skip .pure

/-- Digits out of range are refused, with or without a sign. -/
theorem run_magnitude_eq_error (negative : Bool) (h : ¬ds.InRange) :
    (magnitude negative).run (Cursor.beside start finish (digitsWord ds :: us)) =
      .error (.onToken .invalidNumber ⟨.integer, start, ds.text⟩) := by
  unfold magnitude
  rw [run_look_bind, digitsWord, Cursor.sight_beside]
  dsimp only
  rw [integerValue?_digits, if_neg h]
  rfl

/-! ## Numerals -/

variable {n : Numeral} {nested : Parser Node}

/-- A numeral in range is read as its value, and takes all of its words. -/
theorem consumes_number (h : n.InRange) : number.Consumes n.words us (.int n.toInt64) := by
  rw [number_eq, Numeral.words, Numeral.toInt64, Numeral.value]
  cases n.negative with
  | true =>
    have hdigits : (magnitude true).Consumes _ us _ := consumes_magnitude true h
    rw [if_pos rfl, ← Int64.ofInt_eq_ofNat, ← Int64.ofInt_neg] at hdigits
    exact .peek (.skip hdigits)
  | false =>
    have hdigits : (magnitude false).Consumes _ us _ := consumes_magnitude false h
    rw [if_neg Bool.false_ne_true, ← Int64.ofInt_eq_ofNat] at hdigits
    exact .peek hdigits

theorem run_number_eq_error (h : ¬n.InRange) :
    number.run (Cursor.beside 0 finish n.words) = .error (.onToken .invalidNumber n.token) := by
  rw [number_eq, Numeral.words, Numeral.token, peek_bind, run_look_bind]
  cases n.negative with
  | true => exact run_magnitude_eq_error true h
  | false => exact run_magnitude_eq_error false h

/-! Nothing stands behind the numeral that it could count. -/

theorem consumes_bareTerm (h : n.InRange) :
    (bareTerm nested).Consumes n.words [] (.int n.toInt64) := by
  have hnumber : number.Consumes n.words [] (.int n.toInt64) := consumes_number h
  obtain ⟨_ | _, ds⟩ := n
  · exact .peek (hnumber.andThen fun start finish => ⟨start, rfl⟩)
  · exact .peek (hnumber.andThen fun start finish => ⟨start, rfl⟩)

theorem run_bareTerm_eq_error (h : ¬n.InRange) :
    (bareTerm nested).run (Cursor.beside 0 finish n.words) =
      .error (.onToken .invalidNumber n.token) := by
  have hnumber : number.run (Cursor.beside 0 finish n.words) = _ := run_number_eq_error h
  unfold bareTerm
  rw [peek_bind, run_look_bind]
  obtain ⟨_ | _, ds⟩ := n
  · exact run_bind_eq_error.2 (.inl hnumber)
  · exact run_bind_eq_error.2 (.inl hnumber)

end Parser

/-! ## Texts -/

namespace Numeral

variable {n : Numeral}

/-- A text that is a numeral in range is read as its value. -/
theorem reads (h : n.InRange) : Reads n.text (.int n.toInt64) := by
  rw [← n.spell_words]
  exact .of_consumes n.apart_words fun _ => Parser.consumes_bareTerm h

/-- A numeral out of range is refused where its digits stand. -/
theorem parse_eq_error (h : ¬n.InRange) :
    parse n.text = .error (.onToken .invalidNumber n.token) := by
  rw [← n.spell_words]
  exact parse_spell_eq_error n.apart_words fun _ _ => Parser.run_bareTerm_eq_error h

/-- **What a text that is a numeral says.** -/
theorem parse_eq (n : Numeral) : parse n.text =
    if n.InRange then .ok (.int n.toInt64) else .error (.onToken .invalidNumber n.token) := by
  split
  · next h => exact (reads h).parse_eq
  · next h => exact parse_eq_error h

end Numeral

/-- The digits of a number, without zeros in front. -/
def Digits.ofNat (m : Nat) : Digits where
  text := toString m
  ne_empty := by
    rw [Nat.toString_eq_ofList_toDigits, ne_eq, String.ofList_eq_empty_iff]
    exact Nat.toDigits_ne_nil
  isDigit c hc := by
    rw [Nat.toString_eq_ofList_toDigits, String.toList_ofList] at hc
    exact Nat.isDigit_of_mem_toDigits (by decide) (by decide) hc

/-- Digits of a number write that number. -/
theorem Digits.value_ofNat (m : Nat) : (Digits.ofNat m).value = m := by
  simp [value, ofNat, Nat.ofDigitChars_ten_toDigits]

namespace Numeral

/-- An integer as it is written. -/
def ofInt64 (x : Int64) : Numeral where
  negative := decide (x.toInt < 0)
  digits := .ofNat x.toInt.natAbs

/-- Integers are written as their numerals. -/
theorem text_ofInt64 (x : Int64) : (ofInt64 x).text = (Number.int x).text := by
  rw [Number.text, Int.toString_eq_repr, Int.repr_eq_if, text, ofInt64]
  by_cases hneg : x.toInt < 0
  · rw [if_pos (decide_eq_true hneg), if_neg (by omega),
      show (-x.toInt).toNat = x.toInt.natAbs by omega]
    rfl
  · rw [if_neg (by simpa using hneg), if_pos (by omega),
      show x.toInt.toNat = x.toInt.natAbs by omega]
    rfl

theorem value_ofInt64 (x : Int64) : (ofInt64 x).value = x.toInt := by
  rw [value, ofInt64, Digits.value_ofNat]
  split
  · next h => have := of_decide_eq_true h; omega
  · next h => have := of_decide_eq_false (Bool.eq_false_iff.2 h); omega

end Numeral

/-- **Numerals are read if they can be.** The text of every integer is read back as that
integer, but for the lowest one. Every text that is a numeral, zeros in front or not, is
read as the integer that it writes if that is in range and not the lowest one; else it
is refused as an invalid number, which its digits are. -/
theorem parse_numeral (x : Int64) (n : Numeral) :
    (parse (Number.int x).text = .ok (.int x) ↔ x.toInt ≠ Number.lowest) ∧
      parse n.text =
        if Number.Fits n.value ∧ n.value ≠ Number.lowest then .ok (.int (Int64.ofInt n.value))
        else .error (.onToken .invalidNumber n.token) := by
  have hnumeral (n : Numeral) : parse n.text =
      if Number.Fits n.value ∧ n.value ≠ Number.lowest then .ok (.int (Int64.ofInt n.value))
      else .error (.onToken .invalidNumber n.token) := by
    rw [n.parse_eq]
    exact if_congr Numeral.inRange_iff rfl rfl
  refine ⟨?_, hnumeral n⟩
  rw [← Numeral.text_ofInt64, hnumeral, Numeral.value_ofInt64, Int64.ofInt_toInt]
  simp [Number.fits_toInt]

/-- The lowest integer is in range, but the digits of its text are not. -/
theorem parse_numeral_lowest :
    let x := Int64.ofInt Number.lowest
    (Number.int x).text = "-9223372036854775808" ∧
      parse "-9223372036854775808" =
        .error (.onToken .invalidNumber ⟨.integer, 1, "9223372036854775808"⟩) ∧
      parse (Number.int x).text ≠ .ok (.int x) := by
  intro x
  have htext : (Number.int x).text = "-9223372036854775808" := by decide +kernel
  have hparse := Numeral.parse_eq_error (n := .ofInt64 x) (by decide +kernel)
  have htoken : (Numeral.ofInt64 x).token = ⟨.integer, 1, "9223372036854775808"⟩ := by
    decide +kernel
  rw [Numeral.text_ofInt64, htoken] at hparse
  refine ⟨htext, htext ▸ hparse, ?_⟩
  rw [hparse]
  nofun

end DiceNotation
