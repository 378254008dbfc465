import KalshiMm.Model.Client

/-!
# The paper client (`paper.rs`)

Real market data, simulated orders: an order of the trader becomes a record of the client, which
nothing ever matches.  The reads of market data go to a live client, where there is one; the reads
of the account answer with nothing.

The trader's side of a call is an oracle's reply, so the client is a machine of its own: `carry` is
what a call does to it, and `Answers` says that the reply is the one it gives.
-/

namespace KalshiMm.Model

open KalshiMm.Lib

inductive PaperStatus where
  | resting
  | canceled
deriving DecidableEq

def PaperStatus.name : PaperStatus → String
  | .resting => "resting"
  | .canceled => "canceled"

/-- An order record. -/
structure PaperOrder where
  orderId : String
  marketTicker : String
  side : OrderSide
  priceCents : ℚ
  size : ℤ
  status : PaperStatus := .resting
deriving DecidableEq

namespace PaperOrder

def record (order : PaperOrder) : Value :=
  .object [("order_id", .string order.orderId), ("market_ticker", .string order.marketTicker),
    ("side", .string order.side.name), ("price_cents", .number order.priceCents),
    ("size", .number order.size), ("status", .string order.status.name)]

def cancel (order : PaperOrder) : PaperOrder := { order with status := .canceled }

end PaperOrder

/-- The client's orders, oldest first, and the number of the last one. -/
structure PaperClient where
  orders : List PaperOrder := []
  counter : ℕ := 0

def paperOrderId (n : ℕ) : String := "paper_order_" ++ n.repr

namespace PaperClient

/-! ## Orders -/

def placeLimitOrder (client : PaperClient) (request : OrderRequest) :
    PaperClient × Except String Value :=
  let n := client.counter + 1
  -- every order rests, an immediate-or-cancel one too
  ({ orders := client.orders ++
        [{ orderId := paperOrderId n, marketTicker := request.ticker, side := request.side,
           priceCents := request.priceCents, size := request.size }]
     counter := n },
   .ok (.object [("order_id", .string (paperOrderId n))]))

/-- An unknown id is answered like any other. -/
def cancelOrder (client : PaperClient) (orderId : String) : PaperClient × Except String Value :=
  ({ client with
      orders := client.orders.map fun order =>
        if order.orderId = orderId then order.cancel else order },
   .ok (.object [("order_id", .string orderId), ("status", .string "canceled")]))

def cancelAllOrders (client : PaperClient) : PaperClient × Except String ℕ :=
  ({ client with
      orders := client.orders.map fun order =>
        if order.status = .resting then order.cancel else order },
   .ok (client.orders.countP fun order => order.status = .resting))

/-! ## Reads -/

def getOrders (client : PaperClient) (status : Option String) : Except String Value :=
  .ok (.object [("orders", .array ((client.orders.filter fun order =>
    status.all fun status => order.status.name = status).map PaperOrder.record))])

/-- Paper orders never fill, so there are no positions. -/
def getPositions : Except String Value := .ok (.object [("positions", .array [])])

def getFills : Except String Value := .ok (.object [("fills", .array [])])

def getSettlements : Except String Value := .ok (.object [("settlements", .array [])])

/-- Market data without a live client: a wide-spread book, and no markets. -/
def offline : MarketApi :=
  let level (price : ℚ) : Value := .array [.number price, .number 100]
  { MarketApi.down with
    getMarkets := fun _ _ _ => .ok (.object [("markets", .array []), ("cursor", .null)])
    getMarket := fun _ => .ok (.object [("market", .object [])])
    getOrderbook := fun _ => .ok (.object [("orderbook", .object
      [("yes", .array [level (1 / 100), level (2 / 100)]),
       ("no", .array [level (99 / 100), level (98 / 100)])])]) }

/-- The reads of an API on paper: market data of a live client, nothing of the account. -/
structure Reads (real : Option MarketApi) (api : MarketApi) : Prop where
  markets : api.getMarkets = (real.getD offline).getMarkets
  market : api.getMarket = (real.getD offline).getMarket
  orderbook : api.getOrderbook = (real.getD offline).getOrderbook
  positions : api.getPositions = getPositions
  fills : ∀ page minTs cursor ticker, api.getFills page minTs cursor ticker = getFills
  settlements : api.getSettlements = getSettlements

/-! ## The trader's calls -/

/-- What a call of the trader does to the client. -/
def carry (client : PaperClient) : OrderCall → PaperClient
  | .place request _ => (client.placeLimitOrder request).1
  | .cancel orderId _ => (client.cancelOrder orderId).1
  | .cancelAll _ => client.cancelAllOrders.1

/-- The reply of the call is the client's. -/
def Answers (client : PaperClient) : OrderCall → Prop
  | .place request reply => reply = (client.placeLimitOrder request).2
  | .cancel orderId reply => reply = (client.cancelOrder orderId).2
  | .cancelAll reply => reply = client.cancelAllOrders.2

end PaperClient

/-! ## The trader on paper -/

/-- The trader and the client it trades with. -/
structure PaperDesk where
  trader : Trader
  client : PaperClient := {}

namespace PaperDesk

/-- After the startup sequence, whose sweep finds no resting order. -/
def start (env : Env) (cfg : Config) (out : Outside) : PaperDesk :=
  { trader := Trader.startup env cfg out }

def step (env : Env) (desk : PaperDesk) (m : Move) : PaperDesk :=
  let outcome := desk.trader.carryOut env m
  { trader := outcome.trader, client := outcome.calls.foldl PaperClient.carry desk.client }

end PaperDesk

end KalshiMm.Model
