import DiceNotation.Roll.Result

/-!
# The dice inside a result

The pool of a result is the list of all single dice that sums lead to, from
left to right (`pool`). `refill` puts another list of the same length in their
place, and `refresh` computes the values around them again. Groups, functions,
math expressions and the counts and sides of dice are not looked into.
-/

namespace DiceNotation

open Counted

namespace Result

mutual

/-- All dice that sums lead to, from left to right. -/
def pool : Result → List RolledDie
  | mk _ (.dice _ _ rolls _) => rolls
  | mk _ (.sum terms _) => poolAll terms
  | _ => []

def poolAll : List Result → List RolledDie
  | [] => []
  | term :: rest => pool term ++ poolAll rest

end

mutual

/-- The result with the dice of its pool replaced from a list, and what the
list has left. -/
def refill : Result → List RolledDie → Result × List RolledDie
  | mk outcome (.dice count sides rolls matched), supply =>
    (mk outcome (.dice count sides (supply.take rolls.length) matched),
      supply.drop rolls.length)
  | mk outcome (.sum terms ops), supply =>
    let (terms, supply) := refillAll terms supply
    (mk outcome (.sum terms ops), supply)
  | r, supply => (r, supply)

def refillAll : List Result → List RolledDie → List Result × List RolledDie
  | [], supply => ([], supply)
  | term :: rest, supply =>
    let (term, supply) := refill term supply
    let (rest, supply) := refillAll rest supply
    (term :: rest, supply)

end

/-- The value of terms joined by `+` and `-`, from left to right. -/
def foldSum : List Result → List SumOp → Number
  | [], _ => .zero
  | head :: tail, ops =>
    (ops.zip tail).foldl (fun value (op, term) => op.apply value term.value) head.value

mutual

/-- The result with the values of its pool summed again, and of the sums around
them. The value of dice that count matches stays. -/
def refresh : Result → Result
  | mk outcome (.dice count sides rolls matched) =>
    mk (if matched then outcome else { outcome with value := sumTotals rolls })
      (.dice count sides rolls matched)
  | mk outcome (.sum terms ops) =>
    let terms := refreshAll terms
    mk { outcome with value := foldSum terms ops } (.sum terms ops)
  | r => r

def refreshAll : List Result → List Result
  | [] => []
  | term :: rest => refresh term :: refreshAll rest

end

/-- The result has a pool of its own: it is dice, or a sum. -/
def isPooled : Result → Bool
  | mk _ (.dice ..) | mk _ (.sum ..) => true
  | _ => false

end Result

end DiceNotation
