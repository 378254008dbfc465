import KalshiMm.Model.Trader

/-!
# The trader and the exchange

The exchange as the order calls see it: which orders rest with how much left to fill, and the ids
it has given out.  It does what a call's reply says: a placement that reports an id rests (unless
it is immediate-or-cancel), a successful cancel removes the order, a failed call changes nothing.

A `World` pairs it with the trader and with the fills that have executed but are not booked yet.
Its events are the steps that orders live through: quote cycles, spot-gate cancels, executions on
the exchange, and the booking of reported fills.
-/

namespace KalshiMm.Model

open KalshiMm.Lib

/-! ## Exchange -/

structure RestingOrder where
  ticker : String
  side : OrderSide
  remaining : ℤ
deriving DecidableEq

structure Exchange where
  resting : Dict String RestingOrder := ∅
  issued : Finset String := ∅

namespace Exchange

def rest (ex : Exchange) (id : String) (order : RestingOrder) : Exchange :=
  { resting := ex.resting.insert id order, issued := insert id ex.issued }

def accept (ex : Exchange) : OrderCall → Exchange
  | .place request reply =>
    match orderIdOf reply, request.timeInForce with
    | some id, .goodTillCanceled =>
      ex.rest id { ticker := request.ticker, side := request.side, remaining := request.size }
    | some id, .immediateOrCancel => { ex with issued := insert id ex.issued }
    | none, _ => ex
  | .cancel id (.ok _) => { ex with resting := ex.resting.erase id }
  | .cancel _ (.error _) => ex
  | .cancelAll (.ok _) => { ex with resting := ∅ }
  | .cancelAll (.error _) => ex

/-- A fill of a resting order takes its size off; an order with nothing left is gone. -/
def execute (ex : Exchange) (nf : NormalizedFill) : Exchange :=
  match nf.orderId with
  | none => ex
  | some id =>
    match ex.resting.lookup id with
    | none => ex
    | some order =>
      if order.remaining ≤ nf.size then { ex with resting := ex.resting.erase id }
      else
        { ex with
          resting := ex.resting.insert id { order with remaining := order.remaining - nf.size } }

end Exchange

/-! ## Executed and booked -/

/-- The fills still to be booked after a report: a new one is booked now. -/
def Trader.stillPending (tr : Trader) (pending : List NormalizedFill) (raw : Value) :
    List NormalizedFill :=
  match normalizeFill raw with
  | none => pending
  | some nf => if nf.fillId ∈ tr.state.fillIds then pending else pending.erase nf

/-! ## World -/

structure World where
  trader : Trader
  exchange : Exchange := {}
  pending : List NormalizedFill := []

/-- The steps orders live through. -/
inductive DeskEvent where
  | data (ticker category : String) (book : Book) (tick : ℚ)
  | quote (out : Outside) (category ticker : String) (action : Action) (fvShift : ℚ)
      (allow : Bool × Bool)
  | spotCancel (out : Outside)
  | execute (nf : NormalizedFill)
  | deliver (out : Outside) (raw : Value)

namespace World

def settleCalls (w : World) (outcome : Outcome) : World :=
  { w with
    trader := outcome.trader
    exchange := outcome.calls.foldl Exchange.accept w.exchange }

def step (w : World) : DeskEvent → World
  | .data ticker category book tick =>
    let ts := { w.trader.state.tickerD ticker category with book, tick }
    { w with trader := { w.trader with state := w.trader.state.setTicker ticker ts } }
  | .quote out category ticker action fvShift allow =>
    w.settleCalls (w.trader.quoteCycle out category ticker action fvShift allow)
  | .spotCancel out => w.settleCalls (w.trader.cancelSpotBoundQuotes out)
  | .execute nf => { w with exchange := w.exchange.execute nf, pending := w.pending ++ [nf] }
  | .deliver out raw =>
    { w with trader := w.trader.processFill out raw, pending := w.trader.stillPending w.pending raw }

end World

end KalshiMm.Model
