import KalshiMm.Model.Engine

/-!
# Order I/O (`executor.rs`)

The API is an oracle: a function from each request to the reply it gets.  Every function returns
the calls it made, with their replies, next to its result.
-/

namespace KalshiMm.Model

open KalshiMm.Lib

inductive TimeInForce where
  | goodTillCanceled
  | immediateOrCancel
deriving DecidableEq

structure OrderRequest where
  ticker : String
  side : OrderSide
  priceCents : ℚ
  size : ℤ
  postOnly : Bool
  timeInForce : TimeInForce
deriving DecidableEq

/-- Replies to order calls; an error carries the response body. -/
structure OrderApi where
  placeLimitOrder : OrderRequest → Except String Value
  cancelOrder : String → Except String Value

/-- One order call and what came back. -/
inductive OrderCall where
  | place (request : OrderRequest) (reply : Except String Value)
  | cancel (orderId : String) (reply : Except String Value)
  | cancelAll (reply : Except String ℕ)

inductive SendResult where
  | placed (orderId : Option String)
  | insufficientBalance
deriving DecidableEq

/-- `str::contains`. -/
def contains (body pattern : String) : Bool := decide (pattern.toList <:+: body.toList)

/-- The order id a successful placement reports. -/
def orderIdOf (reply : Except String Value) : Option String :=
  match reply with
  | .ok resp => resp.getStr "order_id"
  | .error _ => none

def sendResult (reply : Except String Value) : SendResult :=
  match reply with
  | .ok resp => .placed (resp.getStr "order_id")
  | .error body =>
    if contains body "insufficient_balance" then .insufficientBalance else .placed none

def sendOrder (api : OrderApi) (request : OrderRequest) : SendResult × OrderCall :=
  (sendResult (api.placeLimitOrder request), .place request (api.placeLimitOrder request))

def quoteRequest (ticker : String) (side : OrderSide) (priceCents : ℚ) (size : ℤ) : OrderRequest :=
  { ticker, side, priceCents, size, postOnly := true, timeInForce := .goodTillCanceled }

def sendQuoteSide (api : OrderApi) (placed : Bool) (request : OrderRequest) :
    Option SendResult × List OrderCall :=
  if placed then (some (sendOrder api request).1, [(sendOrder api request).2]) else (none, [])

def restingId : Option SendResult → Option String
  | some (.placed id) => id
  | _ => none

def applyQuotePlan (api : OrderApi) (mm : MmParams) (category ticker : String) (plan : QuotePlan)
    (state : TraderState) (nowMono : ℚ) : TraderState × List OrderCall :=
  -- the replies to the cancels are not looked at
  let cancels := (plan.cancelIds.take 2).map fun id => OrderCall.cancel id (api.cancelOrder id)
  let (bidRes, bidCalls) := sendQuoteSide api plan.placeBid
    (quoteRequest ticker .buy plan.bidCents plan.bidSize)
  let (askRes, askCalls) := sendQuoteSide api plan.placeAsk
    (quoteRequest ticker .sell plan.askCents plan.askSize)
  let insufficient := bidRes = some .insufficientBalance ∨ askRes = some .insufficientBalance
  let state :=
    if insufficient then { state with balanceBackoffUntil := nowMono + mm.balanceBackoffS }
    else state
  let state := { state with
    quotesSent := state.quotesSent + bidRes.toList.length + askRes.toList.length }
  let ts := state.tickerD ticker category
  (state.setTicker ticker
    { ts with
      -- both ids are overwritten, those of sides that were not placed with none
      bidOrderId := restingId bidRes
      askOrderId := restingId askRes
      quotedBid := some plan.quotedBid
      quotedAsk := some plan.quotedAsk
      everQuoted := true },
    cancels ++ bidCalls ++ askCalls)

def requoted (plan : QuotePlan) (bidRes askRes : Option SendResult) (ts : TickerState) :
    TickerState :=
  { ts with
    bidOrderId := restingId bidRes
    askOrderId := restingId askRes
    quotedBid := some plan.quotedBid
    quotedAsk := some plan.quotedAsk
    everQuoted := true }

theorem applyQuotePlan_tickers (api : OrderApi) (mm : MmParams) (category ticker : String)
    (plan : QuotePlan) (state : TraderState) (nowMono : ℚ) :
    (applyQuotePlan api mm category ticker plan state nowMono).1.tickers =
      state.tickers.insert ticker
        (requoted plan
          (sendQuoteSide api plan.placeBid (quoteRequest ticker .buy plan.bidCents plan.bidSize)).1
          (sendQuoteSide api plan.placeAsk (quoteRequest ticker .sell plan.askCents plan.askSize)).1
          (state.tickerD ticker category)) := by
  unfold applyQuotePlan
  dsimp only
  split_ifs <;> rfl

def exitRequest (ticker : String) (plan : ExitPlan) : OrderRequest :=
  { ticker, side := plan.side, priceCents := plan.priceCents, size := plan.size,
    postOnly := false, timeInForce := .immediateOrCancel }

def applyExitPlan (api : OrderApi) (ticker : String) (plan : ExitPlan) : List OrderCall :=
  -- the outcome is not looked at: the fills poll will tell
  [(sendOrder api (exitRequest ticker plan)).2]

end KalshiMm.Model
