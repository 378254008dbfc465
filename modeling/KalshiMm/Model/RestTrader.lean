import KalshiMm.Model.Feed

/-!
# The trader without a socket (`main.rs`)

Without credentials there is no WebSocket.  The books come of the REST poll then, which reads the
top of each active market's book in turn, and of the snapshots that markets are taken up with.

A `RestTrader` is the trader with the exchange's books.
-/

namespace KalshiMm.Model

open KalshiMm.Lib

/-- The outside where book requests that reach the exchange are answered from its books. -/
def Outside.serving (out : Outside) (books : String → Book) (reached : String → Bool) : Outside :=
  { out with
    api :=
      { out.api with
        getOrderbook := fun ticker =>
          if reached ticker then .ok ((books ticker).response 10) else .error "" } }

structure RestTrader where
  trader : Trader
  books : String → Book

/-- A level of a book changes at the exchange, the loop takes a turn, the poll reads a market. -/
inductive RestEvent where
  | change (ticker : String) (side : ContractSide) (price : ℕ) (qty : ℚ)
  | turn (arrival : Arrival) (reached : String → Bool)
  | poll (out : Outside) (ticker : String) (reached : Bool)

namespace RestTrader

/-- The state after the startup sequence. -/
def start (env : Env) (cfg : Config) (out : Outside) (books : String → Book)
    (reached : String → Bool) : RestTrader :=
  { trader := Trader.startup env cfg (out.serving books reached), books }

def step (env : Env) (w : RestTrader) : RestEvent → RestTrader
  | .change ticker side price qty =>
    { w with books := Function.update w.books ticker ((w.books ticker).setLevel side price qty) }
  | .turn arrival reached =>
    { w with
      trader := w.trader.step env { arrival with out := arrival.out.serving w.books reached } }
  | .poll out ticker reached =>
    { w with
      trader := w.trader.move env (.poll (out.serving w.books fun _ => reached) ticker) }

end RestTrader

end KalshiMm.Model
