import Mathlib.Tactic.Common
import KalshiMm.Model.Book
import KalshiMm.Model.Config

/-!
# Trading state and fill accounting (`state.rs`)

Money is exact: every `f64` of the source is a rational here.  Timestamps are rationals too,
epoch seconds for wall-clock facts and monotonic seconds for intervals.
-/

namespace KalshiMm.Model

open KalshiMm.Lib

def fillIdCap : ℕ := 20000
def tradeLogCap : ℕ := 10000

/-- Maker or taker fee at the exchange's schedule. -/
def fillFee (rate : ℚ) (contracts : ℤ) (priceYes : ℚ) : ℚ := ceilCentFee rate contracts priceYes

/-! ## Fills -/

/-- One exchange fill in YES-equivalent terms. -/
structure NormalizedFill where
  fillId : String
  ticker : String
  longYes : Bool
  priceYes : ℚ
  size : ℤ
  isTaker : Bool
  orderId : Option String
deriving DecidableEq

/-- Signed contracts: what the fill adds to the position. -/
def NormalizedFill.signedSize (nf : NormalizedFill) : ℤ := if nf.longYes then nf.size else -nf.size

/-- The first key that holds a number or a string, read as a number. -/
def numField (fill : Value) : List String → Option F64
  | [] => none
  | key :: keys =>
    match fill.get key with
    | some (.number n) => some (.finite n)
    | some (.string s) => parseFloat s
    | _ => numField fill keys

/-- The first key that holds a string, unless that string is empty. -/
def strField (fill : Value) (keys : List String) : Option String :=
  (keys.findSome? fill.getStr).filter (· ≠ "")

/-- Fold a raw `/portfolio/fills` entry into YES-equivalent terms: `action` alone gives the
    direction, `side` selects the price field. -/
def normalizeFill (fill : Value) : Option NormalizedFill := do
  let ticker ← strField fill ["market_ticker", "ticker"]
  let action := (fill.getStr "action").getD ""
  let side := (fill.getStr "side").getD ""
  guard ((action = "buy" ∨ action = "sell") ∧ (side = "yes" ∨ side = "no"))
  -- a price that is not finite has no rational, and reads as a missing one
  let priceYes :=
    if side = "yes" then ((numField fill ["yes_price_dollars", "yes_price"]).bind F64.toRat).getD 0
    else 1 - ((numField fill ["no_price_dollars", "no_price"]).bind F64.toRat).getD 0
  let size := ((numField fill ["count_fp", "count"]).getD (.finite 1)).roundToI64
  guard (0 < size)
  let orderId := fill.getStr "order_id"
  let fillId :=
    match strField fill ["trade_id", "fill_id"] with
    | some id => id
    | none => orderId.getD "" ++ "-" ++ ((numField fill ["ts"]).getD (.finite 0)).display
  pure
    { fillId, ticker, longYes := action = "buy", priceYes, size,
      isTaker := ((fill.get "is_taker").bind Value.asBool).getD false, orderId }

def foldEntryPrice (oldInv newInv : ℤ) (entryBefore : Option ℚ) (size : ℤ) (price : ℚ) :
    Option ℚ :=
  if newInv = 0 then none
  else if oldInv = 0 ∨ (0 < oldInv ↔ ¬ 0 < newInv) then some price
  else if |oldInv| < |newInv| then
    some ((|oldInv| * entryBefore.getD price + size * price) / |newInv|)
  else entryBefore

/-- Reconstruct position and entry price by replaying a fill history, oldest first, from flat. -/
def replayEntryPrice (fills : List NormalizedFill) : ℤ × Option ℚ :=
  fills.foldl (fun (position, entryPrice) nf =>
    (position + nf.signedSize,
      foldEntryPrice position (position + nf.signedSize) entryPrice nf.size nf.priceYes)) (0, none)

/-! ## Settlements -/

/-- One `/portfolio/settlements` record reduced to what booking needs. -/
structure NormalizedSettlement where
  ticker : String
  resultYes : Option Bool
deriving DecidableEq

def normalizeSettlement (rec : Value) : Option NormalizedSettlement := do
  let ticker ← strField rec ["ticker", "market_ticker"]
  let resultYes :=
    match rec.getStr "market_result" with
    | some "yes" => some true
    | some "no" => some false
    | _ => none
  pure { ticker, resultYes }

/-! ## Per-market state -/

/-- Everything the bot tracks about one market. -/
structure TickerState where
  category : String
  book : Book := {}
  position : ℤ := 0
  entryPrice : Option ℚ := none
  fillsBuy : ℤ := 0
  fillsSell : ℤ := 0
  realizedPnl : ℚ := 0
  midHistory : List ℚ := []
  lastMidSample : ℚ := 0
  recentTrades : List TradePrint := []
  lastQuoteTime : ℚ := 0
  quotedBid : Option ℚ := none
  quotedAsk : Option ℚ := none
  bidOrderId : Option String := none
  askOrderId : Option String := none
  everQuoted : Bool := false
  closeTimeS : Option ℚ := none
  lastFillEpoch : ℚ := 0
  carried : Bool := false
  tick : ℚ := 1 / 100

namespace TickerState

def new (category : String) : TickerState := { category }

def orderIds (ts : TickerState) : List String := ts.bidOrderId.toList ++ ts.askOrderId.toList

def orderCount (ts : TickerState) : ℕ := ts.orderIds.length

/-- A consumed resting order releases its slot; a fill without an order id releases nothing. -/
def releaseSlot (slot orderId : Option String) : Option String :=
  match orderId with
  | some oid => if slot = some oid then none else slot
  | none => slot

/-- What a fill does to its market, the realized PnL apart. -/
def bookFill (ts : TickerState) (nf : NormalizedFill) (nowEpoch : ℚ) : TickerState :=
  let oldInv := ts.position
  let newInv := oldInv + nf.signedSize
  { ts with
    lastFillEpoch := nowEpoch
    position := newInv
    fillsBuy := if nf.longYes then ts.fillsBuy + nf.size else ts.fillsBuy
    fillsSell := if nf.longYes then ts.fillsSell else ts.fillsSell + nf.size
    carried :=
      -- flat or turned over: what was carried is closed
      if newInv = 0 ∨ (oldInv ≠ 0 ∧ (0 < oldInv ↔ ¬ 0 < newInv)) then false else ts.carried
    entryPrice := foldEntryPrice oldInv newInv ts.entryPrice nf.size nf.priceYes
    -- any fill of the order releases its slot, a partial one as well
    bidOrderId := releaseSlot ts.bidOrderId nf.orderId
    askOrderId := releaseSlot ts.askOrderId nf.orderId }

def realizedOn (ts : TickerState) (nf : NormalizedFill) : ℚ :=
  -- against an unknown basis a close realizes nothing
  let entryBefore := ts.entryPrice.getD nf.priceYes
  if nf.longYes = false ∧ 0 < ts.position then
    (min nf.size ts.position : ℤ) * (nf.priceYes - entryBefore)
  else if nf.longYes = true ∧ ts.position < 0 then
    (min nf.size |ts.position| : ℤ) * (entryBefore - nf.priceYes)
  else 0

def filled (ts : TickerState) (nf : NormalizedFill) (nowEpoch : ℚ) : TickerState :=
  { ts.bookFill nf nowEpoch with realizedPnl := ts.realizedPnl + ts.realizedOn nf }

/-- The market after a settlement: no position, and PnL where basis and result are known. -/
def settled (ts : TickerState) (resultYes : Option Bool) : TickerState :=
  { ts with
    position := 0
    entryPrice := none
    carried := false
    realizedPnl :=
      match ts.entryPrice, resultYes with
      | some entry, some resultYes =>
        ts.realizedPnl + ts.position * ((if resultYes then 1 else 0) - entry)
      | _, _ => ts.realizedPnl }

end TickerState

/-! ## Account state -/

structure TradeLogEntry where
  epoch : ℚ
  ticker : String
  longYes : Bool
  priceCents : ℚ
  size : ℤ
deriving DecidableEq

/-- Account-level state and the per-market map. -/
structure TraderState where
  tickers : Dict String TickerState := ∅
  dailyPnl : ℚ := 0
  cumulativePnl : ℚ := 0
  quotesSent : ℕ := 0
  fills : ℕ := 0
  wins : ℕ := 0
  losses : ℕ := 0
  takerFills : ℕ := 0
  makerFills : ℕ := 0
  feesPaid : ℚ := 0
  haltedCategories : Finset String := ∅
  consecutiveLosses : Dict String ℕ := ∅
  balanceBackoffUntil : ℚ := 0
  tradeLog : List TradeLogEntry := []
  lastReset : ℚ := 0
  fillIds : Finset String := ∅
  fillIdFifo : List String := []

namespace TraderState

def new (nowEpoch : ℚ) : TraderState := { lastReset := nowEpoch }

/-- The market's state, or a fresh one of the given category. -/
def tickerD (s : TraderState) (ticker category : String) : TickerState :=
  (s.tickers.lookup ticker).getD (TickerState.new category)

def setTicker (s : TraderState) (ticker : String) (ts : TickerState) : TraderState :=
  { s with tickers := s.tickers.insert ticker ts }

/-- Get-or-create: afterwards the market has a state, new ones of the given category. -/
def ticker (s : TraderState) (ticker category : String) : TraderState :=
  s.setTicker ticker (s.tickerD ticker category)

def recordedIds (s : TraderState) (ticker : String) : List String :=
  ((s.tickers.lookup ticker).map TickerState.orderIds).getD []

/-- Was this fill id already processed?  Records it otherwise, evicting the oldest over the cap. -/
def seenFill (s : TraderState) (fillId : String) : TraderState × Bool :=
  if fillId ∈ s.fillIds then (s, true)
  else
    let fillIds := insert fillId s.fillIds
    let fifo := s.fillIdFifo ++ [fillId]
    match fifo with
    | oldest :: rest =>
      if fillIdCap < fifo.length then
        ({ s with fillIds := fillIds.erase oldest, fillIdFifo := rest }, false)
      else ({ s with fillIds, fillIdFifo := fifo }, false)
    | [] => ({ s with fillIds, fillIdFifo := fifo }, false)

/-- Concurrent resting orders across all tickers. -/
def openOrderCount (s : TraderState) : ℕ := Dict.sumOf (fun _ ts => ts.orderCount) s.tickers

/-- Collateral locked in open positions, all of them or those of an active set. -/
def positionValue (s : TraderState) (active : Option (Finset String)) : ℚ :=
  Dict.sumOf (fun ticker ts =>
    if ts.position = 0 ∨ (active.any fun set => ticker ∉ set) then 0
    else
      -- an unknown basis counts as even odds
      let entry := ts.entryPrice.getD (1 / 2)
      let perContract := if 0 < ts.position then entry else 1 - entry
      |ts.position| * perContract) s.tickers

/-- Fold one realized close into the account counters; a scratch close is neither a win nor a
    loss, and an exempt one leaves the streak alone in both directions. -/
def bookRealizedClose (s : TraderState) (category : String) (realized : ℚ) (streakExempt : Bool) :
    TraderState :=
  if realized = 0 then s
  else
    let s := { s with
      dailyPnl := s.dailyPnl + realized
      cumulativePnl := s.cumulativePnl + realized }
    if 0 < realized then
      { s with
        wins := s.wins + 1
        consecutiveLosses :=
          if streakExempt then s.consecutiveLosses else s.consecutiveLosses.insert category 0 }
    else
      { s with
        losses := s.losses + 1
        consecutiveLosses :=
          if streakExempt then s.consecutiveLosses
          else s.consecutiveLosses.insert category
            ((s.consecutiveLosses.lookup category).getD 0 + 1) }

def bookFee (s : TraderState) (nf : NormalizedFill) (fee : ℚ) : TraderState :=
  { s with
    dailyPnl := s.dailyPnl - fee
    cumulativePnl := s.cumulativePnl - fee
    feesPaid := s.feesPaid + fee
    takerFills := if nf.isTaker then s.takerFills + 1 else s.takerFills
    makerFills := if nf.isTaker then s.makerFills else s.makerFills + 1 }

def logTrade (s : TraderState) (nf : NormalizedFill) (nowEpoch : ℚ) : TraderState :=
  let log := s.tradeLog ++
    [{ epoch := nowEpoch, ticker := nf.ticker, longYes := nf.longYes,
       priceCents := nf.priceYes * 100, size := nf.size }]
  { s with
    fills := s.fills + 1
    tradeLog := if tradeLogCap < log.length then log.tail else log }

/-- Book one exchange fill: fee, position, entry price, realized PnL, which is returned.
    `none` is the panic on a ticker without a state. -/
def applyFill (s : TraderState) (ticker : String) (nf : NormalizedFill) (fee nowEpoch : ℚ) :
    Option (TraderState × ℚ) :=
  let s := s.bookFee nf fee
  (s.tickers.lookup ticker).map fun ts =>
    let realized := ts.realizedOn nf
    let booked := ts.bookFill nf nowEpoch
    let s :=
      if realized ≠ 0 then
        (s.setTicker ticker { booked with realizedPnl := booked.realizedPnl + realized})
          |>.bookRealizedClose ts.category realized ts.carried
      else s.setTicker ticker booked
    (s.logTrade nf nowEpoch, realized)

/-- Book a market settlement for a still-open local position; the position is cleared in any
    case, and PnL is booked when the cost basis and a binary result are known. -/
def applySettlement (s : TraderState) (ticker : String) (resultYes : Option Bool) :
    TraderState × Option ℚ :=
  match s.tickers.lookup ticker with
  | none => (s, none)
  | some ts =>
    if ts.position = 0 then (s, none)
    else
      let cleared := { ts with position := 0, entryPrice := none, carried := false }
      match ts.entryPrice, resultYes with
      | some entry, some resultYes =>
        let settleValue : ℚ := if resultYes then 1 else 0
        let realized := ts.position * (settleValue - entry)
        let cleared := { cleared with realizedPnl := cleared.realizedPnl + realized }
        ((s.setTicker ticker cleared).bookRealizedClose ts.category realized true, some realized)
      | _, _ => (s.setTicker ticker cleared, none)

@[simp] theorem setTicker_tickers (s : TraderState) (ticker : String) (ts : TickerState) :
    (s.setTicker ticker ts).tickers = s.tickers.insert ticker ts := rfl

@[simp] theorem bookRealizedClose_tickers (s : TraderState) (category : String) (realized : ℚ)
    (streakExempt : Bool) :
    (s.bookRealizedClose category realized streakExempt).tickers = s.tickers := by
  unfold bookRealizedClose
  split_ifs <;> rfl

theorem applyFill_tickers {s : TraderState} {ticker : String} {ts : TickerState}
    (known : s.tickers.lookup ticker = some ts) (nf : NormalizedFill) (fee nowEpoch : ℚ) :
    ∃ s', s.applyFill ticker nf fee nowEpoch = some (s', ts.realizedOn nf) ∧
      s'.tickers = s.tickers.insert ticker (ts.filled nf nowEpoch) := by
  have known' : (s.bookFee nf fee).tickers.lookup ticker = some ts := known
  simp only [applyFill, known', Option.map_some]
  refine ⟨_, rfl, ?_⟩
  split
  · exact bookRealizedClose_tickers _ _ _ _
  next zero =>
    have zero : ts.realizedOn nf = 0 := not_not.mp zero
    simp [logTrade, bookFee, TickerState.filled, TickerState.bookFill, zero]

theorem applySettlement_tickers {s : TraderState} {ticker : String} {ts : TickerState}
    (known : s.tickers.lookup ticker = some ts) (held : ts.position ≠ 0)
    (resultYes : Option Bool) :
    (s.applySettlement ticker resultYes).1.tickers =
      s.tickers.insert ticker (ts.settled resultYes) := by
  simp only [applySettlement, known, if_neg held, TickerState.settled]
  split <;> simp

theorem applySettlement_of_flat {s : TraderState} {ticker : String} {ts : TickerState}
    (known : s.tickers.lookup ticker = some ts) (flat : ts.position = 0)
    (resultYes : Option Bool) : s.applySettlement ticker resultYes = (s, none) := by
  simp only [applySettlement, known, if_pos flat]

def resetDaily (s : TraderState) (nowEpoch : ℚ) : TraderState :=
  { s with
    dailyPnl := 0
    quotesSent := 0
    fills := 0
    haltedCategories := ∅
    consecutiveLosses := ∅
    lastReset := nowEpoch }

end TraderState

end KalshiMm.Model
