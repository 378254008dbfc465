import Mathlib.Algebra.Order.Field.Basic
import Mathlib.Tactic.Common

/-!
# Spot price state and the trend gate (`spot.rs`)

Generic in the number type: the exponential of the moving average is a parameter, so that the
trader runs over the rationals and the average can be read over the reals.
-/

namespace KalshiMm.Model

/-- Rolling state for one spot product; ticks are (monotonic seconds, price), oldest first. -/
structure SpotState (α : Type*) where
  ticks : List (α × α) := []
  ema : Option α := none
  tauS : α

namespace SpotState

variable {α : Type*} [Field α] [LinearOrder α]

/-- The state before any tick; `none` is the failed assertion on the time constant. -/
def new (tauS : α) : Option (SpotState α) := if 0 < tauS then some { tauS } else none

def retainS : α := 120

/-- A jump above 0.02 within the window is a bad print. -/
def outlierJump : α := 1 / 50
def outlierWindowS : α := 10

/-- The average after a tick that follows another one. -/
def nextEma (exp : α → α) (s : SpotState α) (tLast pLast price nowMono : α) : α :=
  let dt := max (nowMono - tLast) 0
  let alpha := 1 - exp (-dt / s.tauS)
  let ema := s.ema.getD pLast
  ema + alpha * (price - ema)

def push (s : SpotState α) (ema price nowMono : α) : SpotState α :=
  { s with
    ema := some ema
    ticks := (s.ticks ++ [(nowMono, price)]).dropWhile fun tick =>
      decide (retainS < nowMono - tick.1) }

/-- Fold one tick; `false` when it was dropped. -/
def onTick (exp : α → α) (s : SpotState α) (price nowMono : α) : SpotState α × Bool :=
  if price ≤ 0 then (s, false)
  else
    match s.ticks.getLast? with
    | some (tLast, pLast) =>
      if nowMono - tLast < outlierWindowS ∧ outlierJump < |price / pLast - 1| then (s, false)
      else (s.push (s.nextEma exp tLast pLast price nowMono) price nowMono, true)
    | none => (s.push price price nowMono, true)

def latest (s : SpotState α) : Option α := s.ticks.getLast?.map Prod.snd

/-- Return over the window; `none` until the buffer spans it. -/
def ret (s : SpotState α) (windowS nowMono : α) : Option α := do
  let now ← s.ticks.getLast?
  let base ← s.ticks.reverse.find? fun tick => decide (windowS ≤ nowMono - tick.1)
  pure (now.2 / base.2 - 1)

def isStale (s : SpotState α) (nowMono maxAgeS : α) : Bool :=
  match s.ticks.getLast? with
  | some (t, _) => decide (maxAgeS < nowMono - t)
  | none => true

end SpotState

/-- Trend-gate Schmitt trigger. -/
def trendGated {α : Type*} [Field α] [LinearOrder α] (retAbs : α) (currentlyGated : Bool)
    (trip releaseRatio : α) : Bool :=
  let threshold := if currentlyGated then trip * releaseRatio else trip
  decide (threshold < retAbs)

end KalshiMm.Model
