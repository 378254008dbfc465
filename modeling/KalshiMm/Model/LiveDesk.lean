import KalshiMm.Model.Client
import KalshiMm.Model.Desk

/-!
# The trader with the live client (`api.rs`, `main.rs`)

The trader in all its moves, beside the exchange that its orders rest on.  Its calls go through the
client, where pulling all orders is a request for the orders that rest and one cancel after another;
the exchange fills orders in between.
-/

namespace KalshiMm.Model

open KalshiMm.Lib

/-- What a move's handler runs against. -/
def Move.out : Move → Outside
  | .turn arrival => arrival.out
  | .poll out _ => out

structure LiveDesk where
  trader : Trader
  exchange : Exchange := {}

inductive LiveDeskEvent where
  /-- A move, with the answers to requests for orders that may be made in it. -/
  | move (m : Move) (getOrders : (status : Option String) → (limit : ℕ) → Except String Value)
  | execute (nf : NormalizedFill)

namespace LiveDesk

/-- What a call of the trader does to the exchange. -/
def carry (api : StartupApi) (ex : Exchange) : OrderCall → Exchange
  | .cancelAll _ => (cancelAllOrders api).2.foldl Exchange.accept ex
  | call => ex.accept call

def step (env : Env) (desk : LiveDesk) : LiveDeskEvent → LiveDesk
  | .move m getOrders =>
    let outcome := desk.trader.carryOut env m
    { trader := outcome.trader
      exchange := outcome.calls.foldl (carry { m.out.api with getOrders }) desk.exchange }
  | .execute nf => { desk with exchange := desk.exchange.execute nf }

end LiveDesk

end KalshiMm.Model
