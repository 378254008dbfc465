import KalshiMm.Model.Desk

/-!
# The trader and the exchange's positions

The exchange's side of the account: the position it reports for each market, which moves when a
fill executes.  The trader learns of it twice, from the snapshots it syncs against and from the
fills it books, at any later time.
-/

namespace KalshiMm.Model

open KalshiMm.Lib

structure Clearing where
  trader : Trader
  held : String → ℤ := fun _ => 0
  pending : List NormalizedFill := []

/-- A fill executes, a snapshot is processed, a reported fill is processed. -/
inductive ClearingEvent where
  | execute (nf : NormalizedFill)
  | sync (out : Outside)
  | book (out : Outside) (raw : Value)

def ClearingEvent.isFill : ClearingEvent → Bool
  | .sync _ => false
  | _ => true

namespace Clearing

def step (c : Clearing) : ClearingEvent → Clearing
  | .execute nf =>
    { c with
      held := Function.update c.held nf.ticker (c.held nf.ticker + nf.signedSize)
      pending := c.pending ++ [nf] }
  | .sync out => { c with trader := c.trader.syncPositions out }
  | .book out raw =>
    { c with
      trader := c.trader.processFill out raw
      pending := c.trader.stillPending c.pending raw }

end Clearing

end KalshiMm.Model
