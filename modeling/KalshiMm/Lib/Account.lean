import Mathlib.Algebra.BigOperators.Group.List.Basic
import Mathlib.Tactic.Ring
import KalshiMm.Lib.Run

/-!
# Cash and stock

The account behind any average-cost bookkeeping: some cash and a signed quantity of one asset.
A trade exchanges one for the other at its price, a liquidation turns the whole stock into cash
at the asset's final value.  At that value a trade gains the difference to its price and a
liquidation gains nothing, so the worth of an account is the sum of its trades' gains, whatever
the order.
-/

namespace KalshiMm.Lib

/-- Cash and a signed quantity of one asset. -/
structure Account (α : Type*) where
  cash : α
  stock : α

/-- A change to an account. -/
inductive Movement (α : Type*) where
  | trade (quantity price : α)
  | liquidate

variable {α : Type*} [CommRing α]

namespace Account

/-- The account's worth when the asset is worth `value`. -/
def worth (value : α) (account : Account α) : α := account.cash + account.stock * value

def move (value : α) (account : Account α) : Movement α → Account α
  | .trade quantity price => ⟨account.cash - quantity * price, account.stock + quantity⟩
  | .liquidate => ⟨account.worth value, 0⟩

def gain (value : α) : Movement α → α
  | .trade quantity price => quantity * (value - price)
  | .liquidate => 0

theorem worth_move (value : α) (account : Account α) (movement : Movement α) :
    (account.move value movement).worth value = account.worth value + gain value movement := by
  cases movement with
  | trade quantity price => simp only [worth, move, gain]; ring
  | liquidate => simp only [worth, move, gain]; ring

/-- The worth of an account is carried along any run by the gains of its movements. -/
theorem worth_run (value : α) (account : Account α) (movements : List (Movement α)) :
    (run (move value) account movements).worth value =
      account.worth value + (movements.map (gain value)).sum := by
  induction movements generalizing account with
  | nil => simp
  | cons movement movements inductionHypothesis =>
    rw [run_cons, inductionHypothesis, worth_move, List.map_cons, List.sum_cons, add_assoc]

end Account

end KalshiMm.Lib
