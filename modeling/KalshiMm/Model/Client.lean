import KalshiMm.Model.Loop

/-!
# The REST client (`api.rs`)

How an order call becomes a request body, how the HTTP reply becomes the call's reply, and the one
operation that takes more than one request.  Signing and the transport itself are left out.
-/

namespace KalshiMm.Model

open KalshiMm.Lib

/-! ## Numbers on the wire -/

/-- `{:.places$}` of a number: half to even in the last place. -/
def formatFixed (places : ℕ) (x : ℚ) : String :=
  let scaled := (roundTiesEven (|x| * 10 ^ places)).natAbs
  let fraction := (scaled % 10 ^ places).repr
  let padded := String.ofList (List.replicate (places - fraction.length) '0') ++ fraction
  (if x < 0 then "-" else "") ++ (scaled / 10 ^ places).repr ++ "." ++ padded

/-- Three decimals for subpenny prices, two for whole cents. -/
def formatPrice (dollars : ℚ) : String :=
  let twoDp := roundDp dollars 2
  if dollars ≠ twoDp then formatFixed 3 dollars else formatFixed 2 dollars

/-! ## Orders -/

/-- The words the executor passes. -/
def OrderSide.name : OrderSide → String
  | .buy => "buy"
  | .sell => "sell"

def TimeInForce.name : TimeInForce → String
  | .goodTillCanceled => "good_till_canceled"
  | .immediateOrCancel => "immediate_or_cancel"

/-- The body of `place_limit_order`, sent at a time in milliseconds. -/
def orderBody (nowMs : ℕ) (request : OrderRequest) : Value :=
  .object
    [("ticker", .string request.ticker),
     ("side", .string (if request.side.name = "buy" then "bid" else "ask")),
     ("price", .string (formatPrice (request.priceCents / 100))),
     ("count", .string (formatFixed 2 request.size)),
     ("time_in_force", .string request.timeInForce.name),
     ("self_trade_prevention_type", .string "taker_at_cross"),
     ("post_only", .bool request.postOnly),
     ("client_order_id", .string ("mm_" ++ nowMs.repr))]

/-- V2 has no bulk cancel: fetch resting orders, cancel individually. -/
def cancelAllOrders (api : StartupApi) : Except String ℕ × List OrderCall :=
  match api.getOrders (some "resting") 1000 with
  | .error body => (.error body, [])
  | .ok resp =>
    let ids := (resp.getRows "orders").filterMap fun order => order.getStr "order_id"
    (.ok (ids.countP fun id => (api.cancelOrder id).isOk),
      ids.map fun id => .cancel id (api.cancelOrder id))

end KalshiMm.Model
