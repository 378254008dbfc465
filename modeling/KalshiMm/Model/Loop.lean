import KalshiMm.Model.Trader

/-!
# The event loop

`event_loop` waits for the next of its sources and runs that source's handler to the end, so a
run of the bot is a list of arrivals, each with what its handler sees of the outside.  The polls
arrive piecemeal: the fills poll as one event for each fill it serves, the REST book poll as one
book event for each market it reads.  Turns end with a halt; the reads of a REST book poll that
is halted on its way do not, and runs that follow these are lists of moves.
-/

namespace KalshiMm.Model

open KalshiMm.Lib

/-- What the loop wakes up for. -/
inductive Event where
  | book (ticker : String) (msg : Value)
  | trade (ticker : String) (msg : Value)
  | spot (price : ℚ)
  | fill (raw : Value)
  | sync
  | exits
  | daily
  | refresh

/-- An event and the outside its handler runs against. -/
structure Arrival where
  event : Event
  out : Outside

/-- A turn of the loop, or the next market of a REST book poll. -/
inductive Move where
  | turn (arrival : Arrival)
  | poll (out : Outside) (ticker : String)

def Move.mono : Move → ℚ
  | .turn arrival => arrival.out.mono
  | .poll out _ => out.mono

/-! ## Startup -/

/-- With the one request that is made at startup only. -/
structure StartupApi extends MarketApi where
  getOrders : (status : Option String) → (limit : ℕ) → Except String Value

/-- Cancel resting orders that add to positions, keep profit-taking ones. -/
def optimizeStartupOrders (api : StartupApi) : List OrderCall :=
  match api.getPositions, api.getOrders (some "resting") 1000 with
  | .ok resp, .ok orders =>
    let positions := parsePositions resp
    let adding := (orders.getRows "orders").filterMap fun order =>
      if orderReducesPosition order ((positions.lookup (orderTicker order)).getD 0) then none
      else order.getStr "order_id"
    -- a cancel that fails is not tried again
    adding.map fun oid => .cancel oid (api.cancelOrder oid)
  | _, _ => []

/-! ## Turns -/

namespace Trader

def allEntries (tr : Trader) (out : Outside) : List (String × String) :=
  (out.hash.enumerate tr.activeTickers.keys).filterMap fun ticker =>
    (tr.activeTickers.lookup ticker).map fun category => (ticker, category)

/-- One pass through the loop's body. -/
def handle (env : Env) (tr : Trader) (arrival : Arrival) : Outcome :=
  match arrival.event with
  | .book ticker msg => tr.onBookUpdate env arrival.out ticker msg
  | .trade ticker msg => ⟨tr.onTrade arrival.out ticker msg, []⟩
  | .spot price => tr.onSpotTick env arrival.out price
  | .fill raw => ⟨tr.processFill arrival.out raw, []⟩
  | .sync => ⟨tr.syncPositions arrival.out, []⟩
  | .exits => tr.onExitTimer arrival.out
  | .daily => ⟨tr.maybeDailyReset env arrival.out, []⟩
  | .refresh => ⟨tr.refreshMarkets env arrival.out, []⟩

/-- The loop, which has ended once trading was halted. -/
def turn (env : Env) (tr : Trader) (arrival : Arrival) : Outcome :=
  if tr.running then tr.handle env arrival else ⟨tr, []⟩

def step (env : Env) (tr : Trader) (arrival : Arrival) : Trader := (tr.turn env arrival).trader

/-- One market of the REST book poll. -/
def pollMarket (env : Env) (out : Outside) (tr : Trader) (ticker : String) : Outcome :=
  match out.api.getOrderbook ticker with
  | .error _ => ⟨tr, []⟩
  -- the payload may be missing, and reads as an empty book then
  | .ok resp => tr.onBookUpdate env out ticker ((resp.get "orderbook").getD .null)

/-- Carry out one move; a poll does not look at `running` between the markets it reads. -/
def carryOut (env : Env) (tr : Trader) : Move → Outcome
  | .turn arrival => tr.turn env arrival
  | .poll out ticker => tr.pollMarket env out ticker

def move (env : Env) (tr : Trader) (m : Move) : Trader := (tr.carryOut env m).trader

/-- The startup sequence, up to the loop; its requests are answered by `out`.  The sweep of resting
    orders that comes first leaves the trader as it is. -/
def startup (env : Env) (cfg : Config) (out : Outside) : Trader :=
  let tr := (Trader.start cfg out.epoch).discoverMarkets env out
  let tr := fetchMarketDetails env out (tr.allEntries out) tr
  let tr := tr.syncPositions out
  let tr := { tr with ladders := Ladders.build (out.hash.enumerate tr.activeTickers.keys) }
  fetchInitialSnapshots out (tr.allEntries out) tr

end Trader

end KalshiMm.Model
