import Mathlib.Data.List.Sort
import Mathlib.Data.String.Basic
import KalshiMm.Model.Executor
import KalshiMm.Model.Features
import KalshiMm.Model.Ladder
import KalshiMm.Model.Spot

/-!
# The trader (`main.rs`)

One event loop owns all state, so every handler is a function of the trader and of what the
handler sees of the outside: the API's replies, the clocks, and the iteration order of the hash
maps it walks over.  A handler runs at one instant; logging and the WebSocket tasks are left out.
-/

namespace KalshiMm.Model

open KalshiMm.Lib

/-! ## What a handler sees of the outside -/

/-- The full API surface.  `page` counts the requests of one paginated sweep. -/
structure MarketApi extends OrderApi where
  getMarkets : (page : ℕ) → (series : String) → (cursor : Option String) → Except String Value
  getMarket : String → Except String Value
  getOrderbook : String → Except String Value
  getPositions : Except String Value
  getFills : (page : ℕ) → (minTs : ℤ) → (cursor ticker : Option String) → Except String Value
  getSettlements : Except String Value
  cancelAllOrders : Except String ℕ

/-- Iteration order of the hash maps: an enumeration of each key set. -/
structure HashOrder where
  enumerate : Finset String → List String
  nodup : ∀ keys, (enumerate keys).Nodup
  mem : ∀ keys key, key ∈ enumerate keys ↔ key ∈ keys

/-- Walking the keys in their own order. -/
def HashOrder.sorted : HashOrder where
  enumerate keys :=
    Quotient.lift (fun l : List String => l.insertionSort (· ≤ ·)) (fun a b (same : a.Perm b) =>
      List.Perm.eq_of_pairwise (fun _ _ _ _ => le_antisymm) (List.pairwise_insertionSort _ a)
        (List.pairwise_insertionSort _ b) ((List.perm_insertionSort _ a).trans
          (same.trans (List.perm_insertionSort _ b).symm))) keys.val
  nodup := fun ⟨keys, nodup⟩ => by
    induction keys using Quotient.inductionOn with
    | h l => exact (List.perm_insertionSort (· ≤ ·) l).nodup_iff.mpr nodup
  mem := fun ⟨keys, nodup⟩ key => by
    induction keys using Quotient.inductionOn with
    | h l => exact (List.perm_insertionSort (· ≤ ·) l).mem_iff

/-- An API that cannot be reached. -/
def MarketApi.down : MarketApi where
  placeLimitOrder _ := .error ""
  cancelOrder _ := .error ""
  getMarkets _ _ _ := .error ""
  getMarket _ := .error ""
  getOrderbook _ := .error ""
  getPositions := .error ""
  getFills _ _ _ _ := .error ""
  getSettlements := .error ""
  cancelAllOrders := .error ""

/-- Everything outside the trader that one handler call depends on. -/
structure Outside where
  api : MarketApi
  hash : HashOrder
  mono : ℚ
  epoch : ℚ

/-- What is fixed for the process: the loaded policies (`none` for a failed inference), the
    exponential, the close-time parser and the local calendar. -/
structure Env where
  policies : Dict String (Observation → Option Action)
  exp : ℚ → ℚ
  parseRfc3339 : String → Option ℚ
  localDay : ℚ → ℤ

/-! ## State -/

def maxSettlementChecks : ℕ := 4

/-- Per-ticker exit retry bookkeeping; no deadline reads as one in the infinite past. -/
structure ExitRetry where
  attempts : ℕ
  positionAtAttempt : ℤ
  nextAllowedMono : Option ℚ
deriving DecidableEq

structure Trader where
  cfg : Config
  cats : Dict String CategoryConfig
  state : TraderState
  activeTickers : Dict String String := ∅
  activeSet : Finset String := ∅
  running : Bool := true
  spot : SpotState ℚ
  ladders : Ladders := {}
  spotBound : Finset String
  spotGateOn : Bool := false
  spotUnwindNext : Dict String ℚ := ∅
  spotUnwindFiredUntil : Dict String ℚ := ∅
  settlementChecks : Dict String ℕ := ∅
  exitRetries : Dict String ExitRetry := ∅

/-- A handler's result: the trader afterwards and the order calls made, in order. -/
structure Outcome where
  trader : Trader
  calls : List OrderCall := []

namespace Outcome

def andThen (first : Outcome) (next : Trader → Outcome) : Outcome :=
  { trader := (next first.trader).trader, calls := first.calls ++ (next first.trader).calls }

end Outcome

def heldUntil (deadline : Option ℚ) (nowMono : ℚ) : Bool := deadline.any fun d => nowMono < d

/-- Visit a list of tickers in turn. -/
def visitAll (visit : String → Trader → Outcome) : List String → Trader → Outcome
  | [], tr => ⟨tr, []⟩
  | ticker :: rest, tr => (visit ticker tr).andThen (visitAll visit rest)

/-! ## Pagination -/

/-- Follow a pagination cursor for at most `fuel` pages: the pages read, and whether no request
    failed. -/
def readPages (request : ℕ → Option String → Except String Value) :
    ℕ → ℕ → Option String → List Value × Bool
  -- running out of pages is no failure
  | 0, _, _ => ([], true)
  | fuel + 1, page, cursor =>
    match request page cursor with
    | .error _ => ([], false)
    | .ok resp =>
      match resp.cursor with
      | none => ([resp], true)
      | some next =>
        let (pages, ok) := readPages request fuel (page + 1) (some next)
        (resp :: pages, ok)

def pageRows (pages : List Value) (key : String) : List Value := pages.flatMap (·.getRows key)

/-! ## Small parsers -/

def orderTicker (order : Value) : String :=
  (((order.get "ticker").or (order.get "market_ticker")).bind Value.asStr).getD ""

/-- Direction is the action alone; the order's size is not looked at. -/
def orderReducesPosition (order : Value) (position : ℤ) : Bool :=
  match order.getStr "action" with
  | some "sell" => 0 < position
  | some "buy" => position < 0
  | _ => false

def parsePositions (resp : Value) : Dict String ℤ :=
  let rows :=
    match resp.get "market_positions" with
    | some rows => (rows.asArray).getD []
    | none => resp.getRows "positions"
  rows.foldl (fun out pos =>
    match ((pos.get "ticker").or (pos.get "market_ticker")).bind Value.asStr with
    | none => out
    | some ticker =>
      out.insert ticker
        (toI64 (roundTiesEven ((jsonF64 ((pos.get "position_fp").or (pos.get "position"))).getD 0))))
    ∅

namespace Trader

def positionOf (tr : Trader) (ticker : String) : ℤ :=
  ((tr.state.tickers.lookup ticker).map TickerState.position).getD 0

def isActive (tr : Trader) (ticker : String) : Bool := ticker ∈ tr.activeTickers

def tickerKeys (tr : Trader) (out : Outside) : List String := out.hash.enumerate tr.state.tickers.keys

def heldTickers (tr : Trader) (out : Outside) : List String :=
  (tr.tickerKeys out).filter fun ticker => tr.positionOf ticker ≠ 0

/-! ## Discovery -/

/-- The open markets of one category; a failing page ends the category's walk. -/
def discoverCategory (out : Outside) (found : Dict String String) (category : String) :
    Dict String String :=
  let pages := (readPages (fun page cursor => out.api.getMarkets page category cursor) 50 0 none).1
  (pageRows pages "markets").foldl (fun found market =>
    match market.getStr "ticker" with
    | some ticker =>
      if category.toList <+: ticker.toList then found.insert ticker category else found
    | none => found) found

/-- Which markets are open right now, ticker to category. -/
def discoverUniverse (env : Env) (out : Outside) : Dict String String :=
  (out.hash.enumerate env.policies.keys).foldl (discoverCategory out) ∅

def discoverMarkets (env : Env) (out : Outside) (tr : Trader) : Trader :=
  let active := discoverUniverse env out
  { tr with activeTickers := active, activeSet := active.keys }

/-- Tick size and close time from a market's details. -/
def readDetails (env : Env) (ts : TickerState) (reply : Except String Value) : TickerState :=
  match reply with
  | .error _ => { ts with tick := 1 / 100 }
  | .ok resp =>
    let market := (resp.get "market").getD .null
    let steps := (market.getRows "price_ranges").filterMap fun r => jsonF64 (r.get "step")
    let close := ((market.get "close_time").or (market.get "expected_expiration_time")).bind
      Value.asStr
    { ts with
      tick := steps.min?.getD (1 / 100)
      closeTimeS := ((close.bind env.parseRfc3339).or ts.closeTimeS) }

def fetchDetails (env : Env) (out : Outside) (tr : Trader) (entry : String × String) : Trader :=
  let (ticker, category) := entry
  let ts := readDetails env (tr.state.tickerD ticker category) (out.api.getMarket ticker)
  { tr with state := tr.state.setTicker ticker ts }

def fetchMarketDetails (env : Env) (out : Outside) (entries : List (String × String)) (tr : Trader) :
    Trader :=
  entries.foldl (fetchDetails env out) tr

def fetchSnapshot (out : Outside) (tr : Trader) (entry : String × String) : Trader :=
  let (ticker, category) := entry
  match out.api.getOrderbook ticker with
  | .error _ => tr
  | .ok resp =>
    let ts := tr.state.tickerD ticker category
    let ts := { ts with book := ts.book.loadSnapshot ((resp.get "orderbook").getD resp) }
    { tr with state := tr.state.setTicker ticker ts }

def fetchInitialSnapshots (out : Outside) (entries : List (String × String)) (tr : Trader) : Trader :=
  entries.foldl (fetchSnapshot out) tr

/-- Gone from the open list and flat: the tickers a refresh drops. -/
def prunable (tr : Trader) (discovered : Dict String String) (ticker : String) : Bool :=
  ticker ∉ discovered && tr.positionOf ticker = 0

/-- The universe after a refresh: prunable tickers dropped, new ones added, the rest as before. -/
def rolledUniverse (tr : Trader) (discovered : Dict String String) : Dict String String :=
  Dict.retain (fun ticker => !tr.prunable discovered ticker) tr.activeTickers ∪ discovered

def addedEntries (tr : Trader) (out : Outside) (discovered : Dict String String) :
    List (String × String) :=
  ((out.hash.enumerate discovered.keys).filter fun ticker => ticker ∉ tr.activeTickers).filterMap
    fun ticker => (discovered.lookup ticker).map fun category => (ticker, category)

def refreshMarkets (env : Env) (out : Outside) (tr : Trader) : Trader :=
  let discovered := discoverUniverse env out
  -- an empty listing is taken for a failed one
  if discovered = ∅ then tr
  else
    let added := tr.addedEntries out discovered
    if added = [] ∧ ∀ ticker ∈ tr.activeTickers.keys, tr.prunable discovered ticker = false then tr
    else
      -- the states of pruned markets stay in the map
      let rolled := tr.rolledUniverse discovered
      let tr := { tr with activeTickers := rolled, activeSet := rolled.keys }
      let tr := fetchInitialSnapshots out added (fetchMarketDetails env out added tr)
      { tr with ladders := Ladders.build (out.hash.enumerate tr.activeTickers.keys) }

/-! ## Spot defense -/

/-- Must spot-bound categories not quote right now?  Evaluated fresh; the hysteresis band is
    keyed on the latched gate. -/
def spotGated (tr : Trader) (nowMono : ℚ) : Bool :=
  if tr.spot.isStale nowMono tr.cfg.spot.staleMaxS then true
  else
    match tr.spot.ret 60 nowMono with
    | some r => trendGated |r| tr.spotGateOn tr.cfg.spot.gateRet60s tr.cfg.spot.gateReleaseRatio
    -- no full window of ticks yet
    | none => true

def midOf (tr : Trader) (ticker : String) : Option ℚ :=
  (tr.state.tickers.lookup ticker).bind fun ts => ts.book.mid

def fvShiftFor (tr : Trader) (ticker category : String) : Option ℚ :=
  if category ∉ tr.spotBound then some 0
  else
    match tr.spot.latest, tr.spot.ema with
    | some spotNow, some ema =>
      let dist := spotNow - ema
      match tr.ladders.deltaFor ticker tr.cfg.spot.deltaMax tr.midOf with
      | some delta => some (clamp (delta * dist) (-tr.cfg.spot.fvShiftMax) tr.cfg.spot.fvShiftMax)
      -- whatever an orphan's delta is, up to here it shifts less than a tick
      | none => if tr.cfg.spot.deltaMax * |dist| < 1 / 100 then some 0 else none
    | _, _ => none

/-- `fvShiftFor` with the panic of its clamp, as an outer `none`. -/
def tryFvShiftFor (tr : Trader) (ticker category : String) : Option (Option ℚ) :=
  if category ∉ tr.spotBound then some (some 0)
  else
    match tr.spot.latest, tr.spot.ema with
    | some spotNow, some ema =>
      let dist := spotNow - ema
      match tr.ladders.deltaFor ticker tr.cfg.spot.deltaMax tr.midOf with
      | some delta =>
        (tryClamp (delta * dist) (-tr.cfg.spot.fvShiftMax) tr.cfg.spot.fvShiftMax).map some
      | none => some (if tr.cfg.spot.deltaMax * |dist| < 1 / 100 then some 0 else none)
    | _, _ => some none

/-- (allow bid, allow ask) under the per-ladder tail cap. -/
def ladderTailGate (tr : Trader) (ticker : String) : Bool × Bool :=
  let cap := tr.cfg.live.maxLadderTailLoss
  if cap ≤ 0 then (true, true)
  else
    match ladderPrefix ticker with
    | none => (true, true)
    | some event =>
      let entries := tr.state.tickers.entries.filterMap fun entry =>
        if entry.2.position = 0 ∨ ladderPrefix entry.1 ≠ some event then none
        else some (entry.2.position, (entry.2.book.mid.or entry.2.entryPrice).getD (1 / 2))
      let (upLoss, downLoss) := tailLosses entries
      (downLoss < cap, upLoss < cap)

/-- A market of a spot-bound category, by the category its state carries. -/
def isSpotBound (tr : Trader) (ticker : String) : Bool :=
  (tr.state.tickers.lookup ticker).any fun ts => ts.category ∈ tr.spotBound

def cancelSpotBoundQuotes (out : Outside) (tr : Trader) : Outcome :=
  let ids := ((tr.tickerKeys out).filter tr.isSpotBound).flatMap tr.state.recordedIds
  -- the ids are dropped, whatever the cancels answer
  let tickers := Dict.mapValues (fun _ ts =>
    if ts.category ∈ tr.spotBound then { ts with bidOrderId := none, askOrderId := none } else ts)
    tr.state.tickers
  { trader := { tr with state := { tr.state with tickers } }
    calls := ids.map fun id => .cancel id (out.api.cancelOrder id) }

/-- Evaluate the gate and fire the one-shot cancel on its rising edge. -/
def updateSpotGate (out : Outside) (tr : Trader) : Outcome :=
  if tr.spotBound = ∅ then ⟨tr, []⟩
  else
    let gated := tr.spotGated out.mono
    -- only the rising edge cancels
    let cancelled := if gated && !tr.spotGateOn then tr.cancelSpotBoundQuotes out else ⟨tr, []⟩
    { cancelled with trader := { cancelled.trader with spotGateOn := gated } }

def unwindRefireHoldoffS : ℚ := 10

/-- The unwind order a spot tick would send for a market, hold-offs apart. -/
def unwindPlan (tr : Trader) (ticker : String) : Option ExitPlan := do
  let ts ← tr.state.tickers.lookup ticker
  let shift ← tr.fvShiftFor ticker ts.category
  spotUnwindDecision ts shift tr.cfg.spot.unwindShift

def visitUnwind (out : Outside) (ticker : String) (tr : Trader) : Outcome :=
  -- the retry entries of the timer path are not consulted
  if heldUntil (tr.spotUnwindNext.lookup ticker) out.mono ∨
      heldUntil (tr.spotUnwindFiredUntil.lookup ticker) out.mono then ⟨tr, []⟩
  else
    let tr := { tr with spotUnwindNext := tr.spotUnwindNext.insert ticker (out.mono + 1) }
    match tr.unwindPlan ticker with
    | none => ⟨tr, []⟩
    | some plan =>
      { trader := { tr with spotUnwindFiredUntil :=
          tr.spotUnwindFiredUntil.insert ticker (out.mono + unwindRefireHoldoffS) }
        calls := applyExitPlan out.api.toOrderApi ticker plan }

/-- SPOT-ADVERSE exits, evaluated on spot ticks. -/
def checkSpotUnwind (out : Outside) (tr : Trader) : Outcome :=
  if tr.spot.isStale out.mono tr.cfg.spot.staleMaxS then ⟨tr, []⟩
  else visitAll (visitUnwind out) ((tr.heldTickers out).filter tr.isSpotBound) tr

def onSpotTick (env : Env) (out : Outside) (price : ℚ) (tr : Trader) : Outcome :=
  let (spot, accepted) := tr.spot.onTick env.exp price out.mono
  let tr := { tr with spot }
  if accepted then (tr.updateSpotGate out).andThen (checkSpotUnwind out) else ⟨tr, []⟩

/-! ## Quoting -/

def haltAllTrading (out : Outside) (tr : Trader) : Outcome :=
  { trader := { tr with running := false }, calls := [.cancelAll out.api.cancelAllOrders] }

/-- Fold a book message: a delta where it carries price and quantity, else a snapshot. -/
def foldBook (book : Book) (msg : Value) : Book :=
  if (msg.get "price_dollars").isSome ∧ (msg.get "delta_fp").isSome then
    book.applyDelta ((msg.getStr "side").getD "") ((jsonF64 (msg.get "price_dollars")).getD 0)
      ((jsonF64 (msg.get "delta_fp")).getD 0)
  else book.loadSnapshot msg

def quoteCycle (out : Outside) (category ticker : String) (action : Action) (fvShift : ℚ)
    (allow : Bool × Bool) (tr : Trader) : Outcome :=
  let maxInventory := ((tr.cats.lookup category).map CategoryConfig.maxInventory).getD 5
  let (ts, plan) := planQuotes action fvShift (tr.state.tickerD ticker category) tr.cfg.mm
    maxInventory tr.state.openOrderCount tr.state.balanceBackoffUntil out.mono
  let tr := { tr with state := tr.state.setTicker ticker ts }
  match plan with
  | none => ⟨tr, []⟩
  | some plan =>
    let plan := { plan with
      placeBid := plan.placeBid && allow.1
      placeAsk := plan.placeAsk && allow.2 }
    let (state, calls) :=
      applyQuotePlan out.api.toOrderApi tr.cfg.mm category ticker plan tr.state out.mono
    { trader := { tr with state }, calls }

/-- Shift of a quote: gates and shift for spot-bound categories, 0 for the others; `none` where
    the market must not quote. -/
def quoteShift (out : Outside) (ticker category : String) (tr : Trader) : Option ℚ :=
  if category ∈ tr.spotBound then
    if tr.spotGated out.mono then none else tr.fvShiftFor ticker category
  else some 0

def observeAndQuote (env : Env) (out : Outside) (ticker category : String) (fvShift : ℚ)
    (tr : Trader) : Outcome :=
  let allow := tr.ladderTailGate ticker
  let (ts, obs) := buildObservation (tr.state.tickerD ticker category) tr.cfg.mm out.epoch out.mono
  let tr := { tr with state := tr.state.setTicker ticker ts }
  match obs.bind fun obs => (env.policies.lookup category).bind fun policy => policy obs with
  | none => ⟨tr, []⟩
  | some action => tr.quoteCycle out category ticker action fvShift allow

/-- Hot path: fold the message into the book, then decide and quote. -/
def onBookUpdate (env : Env) (out : Outside) (ticker : String) (msg : Value) (tr : Trader) :
    Outcome :=
  match tr.activeTickers.lookup ticker with
  | none => ⟨tr, []⟩
  | some category =>
    let ts := tr.state.tickerD ticker category
    let ts := { ts with book := foldBook ts.book msg }
    let tr := { tr with state := tr.state.setTicker ticker ts }
    if ts.book.isValid = false ∨ out.mono - ts.lastQuoteTime < 1 ∨
        category ∈ tr.state.haltedCategories then ⟨tr, []⟩
    else
      match checkRiskLimits tr.state tr.cfg.live (some tr.activeSet) with
      | (_, some _) => tr.haltAllTrading out
      | (false, none) => ⟨tr, []⟩
      | (true, none) =>
        match tr.quoteShift out ticker category with
        | none => ⟨tr, []⟩
        | some fvShift => tr.observeAndQuote env out ticker category fvShift

def onTrade (out : Outside) (ticker : String) (msg : Value) (tr : Trader) : Trader :=
  let count := truncI64 ((jsonF64 ((msg.get "count_fp").or (msg.get "count"))).getD 1)
  let takerSide : Option TakerSide :=
    match msg.getStr "taker_side" with
    | some "yes" => some .yes
    | some "no" => some .no
    | _ => none
  match takerSide with
  | none => tr
  | some takerSide =>
    let ts := tr.state.tickerD ticker ((tr.activeTickers.lookup ticker).getD "")
    let trades := ts.recentTrades ++ [{ arrival := out.epoch, contracts := count, takerSide }]
    let ts := { ts with recentTrades := pruneTrades trades out.epoch }
    { tr with state := tr.state.setTicker ticker ts }

/-! ## Fills -/

def enforceCategoryHalt (category : String) (tr : Trader) : Trader :=
  let limit := tr.cfg.live.haltOnConsecutiveLosses
  if 0 < limit ∧ category ∉ tr.state.haltedCategories ∧
      limit ≤ (tr.state.consecutiveLosses.lookup category).getD 0 then
    let halted := insert category tr.state.haltedCategories
    { tr with state := { tr.state with haltedCategories := halted } }
  else tr

def fillCategory (tr : Trader) (ticker : String) : String :=
  (tr.activeTickers.lookup ticker).getD ((splitDash ticker).headD "")

def bookFill (out : Outside) (nf : NormalizedFill) (tr : Trader) : Trader :=
  let category := tr.fillCategory nf.ticker
  let rate := if nf.isTaker then tr.cfg.mm.takerFeeRate else tr.cfg.mm.makerFeeRate
  let fee := fillFee rate nf.size nf.priceYes
  match (tr.state.ticker nf.ticker category).applyFill nf.ticker nf fee out.epoch with
  | some (state, _) => enforceCategoryHalt category { tr with state }
  | none => tr

/-- Book one exchange-reported fill, unless it is malformed or already booked. -/
def processFill (out : Outside) (fill : Value) (tr : Trader) : Trader :=
  match normalizeFill fill with
  | none => tr
  | some nf =>
    let (state, seen) := tr.state.seenFill nf.fillId
    if seen then tr else bookFill out nf { tr with state }

def processFills (out : Outside) (fills : List Value) (tr : Trader) : Trader :=
  fills.foldl (fun tr fill => tr.processFill out fill) tr

/-- One sweep of the fills poll: the trader, and the watermark, which only a clean sweep
    advances. -/
def fillsSweep (out : Outside) (fillsLastTs : ℤ) (tr : Trader) : Trader × ℤ :=
  let (pages, ok) :=
    -- a minute of overlap; the dedupe drops what comes twice
    readPages (fun page cursor => out.api.getFills page (fillsLastTs - 60) cursor none) 25 0 none
  (tr.processFills out (pageRows pages "fills"), if ok then truncI64 out.epoch else fillsLastTs)

/-! ## Position sync -/

/-- Reconstruct a lost cost basis by replaying the market's fill history from flat. -/
def backfillEntryPrice (out : Outside) (ticker : String) (tr : Trader) : Trader :=
  let (pages, ok) :=
    readPages (fun page cursor => out.api.getFills page 0 cursor (some ticker)) 10 0 none
  if ok = false then tr
  else
    let ts (row : Value) : WithBot ℚ := jsonF64 (row.get "ts")
    -- the API serves newest first, the replay needs oldest first
    let rows := (pageRows pages "fills").insertionSort fun a b => ts a ≤ ts b
    match replayEntryPrice (rows.filterMap normalizeFill), tr.state.tickers.lookup ticker with
    | (replayed, some entry), some state =>
      if replayed = state.position then
        { tr with state := tr.state.setTicker ticker { state with entryPrice := some entry } }
      else tr
    | _, _ => tr

def settledResults (resp : Value) : Dict String (Option Bool) :=
  ((resp.getRows "settlements").filterMap normalizeSettlement).foldl
    (fun settled s => settled.insert s.ticker s.resultYes) ∅

/-- Resolve one vanished position against the settlements page. -/
def resolveVanished (settled : Dict String (Option Bool)) (tr : Trader) (ticker : String) : Trader :=
  if tr.positionOf ticker = 0 then
    { tr with settlementChecks := tr.settlementChecks.erase ticker }
  else
    match settled.lookup ticker with
    | none =>
      let checks := (tr.settlementChecks.lookup ticker).getD 0 + 1
      if maxSettlementChecks ≤ checks then
        match tr.state.tickers.lookup ticker with
        | some ts =>
          { tr with
            -- no settlement turned up: the position is written off without PnL
            state := tr.state.setTicker ticker { ts with position := 0, entryPrice := none }
            settlementChecks := tr.settlementChecks.erase ticker }
        | none => { tr with settlementChecks := tr.settlementChecks.erase ticker }
      else { tr with settlementChecks := tr.settlementChecks.insert ticker checks }
    | some resultYes =>
      let tr := { tr with settlementChecks := tr.settlementChecks.erase ticker }
      let (state, realized) := tr.state.applySettlement ticker resultYes
      let tr := { tr with state }
      if realized.isSome then
        tr.enforceCategoryHalt ((tr.activeTickers.lookup ticker).getD "")
      else tr

def resolveVanishedPositions (out : Outside) (tickers : List String) (tr : Trader) : Trader :=
  match out.api.getSettlements with
  | .error _ => tr
  | .ok resp => tickers.foldl (resolveVanished (settledResults resp)) tr

/-- The market has vanished from the exchange while held and active. -/
def vanishes (tr : Trader) (ticker : String) (remote : ℤ) : Bool :=
  tr.positionOf ticker ≠ remote && remote = 0 && tr.isActive ticker

/-- Drift correction of one market; vanished ones are left for the settlement lookup. -/
def syncTicker (out : Outside) (exchange : Dict String ℤ) (tr : Trader) (ticker : String) : Trader :=
  let remote := (exchange.lookup ticker).getD 0
  let ts := tr.state.tickerD ticker ((tr.activeTickers.lookup ticker).getD "")
  let tr := { tr with state := tr.state.setTicker ticker ts }
  if ts.position = remote then tr
  -- a vanished market goes through the settlement lookup instead
  else if remote = 0 ∧ tr.isActive ticker = true then tr
  -- snapshot and fills poll may be mid-race
  else if out.epoch - ts.lastFillEpoch < 10 then tr
  else
    let carried :=
      -- inventory of an earlier process
      if ts.position = 0 ∧ ts.lastFillEpoch = 0 ∧ remote ≠ 0 then true else ts.carried
    { tr with state := tr.state.setTicker ticker { ts with carried, position := remote } }

/-- Tickers of the snapshot and tickers held locally, in iteration order. -/
def syncKeys (tr : Trader) (out : Outside) (exchange : Dict String ℤ) : List String :=
  out.hash.enumerate
    (exchange.keys ∪ tr.state.tickers.keys.filter fun ticker => tr.positionOf ticker ≠ 0)

def needsBackfill (tr : Trader) (ticker : String) : Bool :=
  ((tr.state.tickers.lookup ticker).any fun ts => ts.position ≠ 0 ∧ ts.entryPrice = none) &&
    tr.isActive ticker

/-- Reconcile local inventory with the exchange's snapshot. -/
def syncPositions (out : Outside) (tr : Trader) : Trader :=
  match out.api.getPositions with
  | .error _ => tr
  | .ok resp =>
    let exchange := parsePositions resp
    let all := tr.syncKeys out exchange
    let vanished := all.filter fun ticker => tr.vanishes ticker ((exchange.lookup ticker).getD 0)
    let tr := all.foldl (syncTicker out exchange) tr
    let tr := if vanished = [] then tr else tr.resolveVanishedPositions out vanished
    ((tr.tickerKeys out).filter tr.needsBackfill).foldl
      (fun tr ticker => tr.backfillEntryPrice out ticker) tr

/-! ## Exits -/

/-- The retry entry an exit attempt starts from: a new one, one reset because the position
    moved, or the one on record. -/
def retryFor (tr : Trader) (ticker : String) (position : ℤ) : ExitRetry :=
  let fresh : ExitRetry := { attempts := 0, positionAtAttempt := position, nextAllowedMono := none }
  match tr.exitRetries.lookup ticker with
  | some retry => if retry.positionAtAttempt ≠ position then fresh else retry
  | none => fresh

def visitExit (out : Outside) (ticker : String) (tr : Trader) : Outcome :=
  -- the unwind path has an exit out whose fill may not be booked yet
  if heldUntil (tr.spotUnwindFiredUntil.lookup ticker) out.mono then ⟨tr, []⟩
  else
    match tr.state.tickers.lookup ticker with
    | none => ⟨tr, []⟩
    | some ts =>
      match exitDecision ts out.epoch with
      | none => ⟨tr, []⟩
      | some plan =>
        if marketClosed ts out.epoch then ⟨tr, []⟩
        else
          let retry := tr.retryFor ticker ts.position
          if heldUntil retry.nextAllowedMono out.mono then
            -- too early: the entry stays, and nothing is sent
            ⟨{ tr with exitRetries := tr.exitRetries.insert ticker retry }, []⟩
          else
            let attempts := retry.attempts + 1
            let retry : ExitRetry :=
              { attempts, positionAtAttempt := ts.position
                nextAllowedMono := some (out.mono + exitRetryDelayS attempts) }
            { trader := { tr with exitRetries := tr.exitRetries.insert ticker retry }
              calls := applyExitPlan out.api.toOrderApi ticker plan }

/-- Stop-loss and expiry exits; retry entries of flat markets are reaped first. -/
def checkExits (out : Outside) (tr : Trader) : Outcome :=
  let held := tr.heldTickers out
  let exitRetries := Dict.retain (fun ticker => tr.positionOf ticker ≠ 0) tr.exitRetries
  let tr := { tr with exitRetries }
  visitAll (visitExit out) held tr

/-- The exit timer: the gate first, then the exits. -/
def onExitTimer (out : Outside) (tr : Trader) : Outcome :=
  (tr.updateSpotGate out).andThen (checkExits out)

/-! ## Calendar -/

/-- Reset the daily counters when the local date has changed. -/
def maybeDailyReset (env : Env) (out : Outside) (tr : Trader) : Trader :=
  if env.localDay out.epoch ≠ env.localDay tr.state.lastReset then
    { tr with state := tr.state.resetDaily out.epoch }
  else tr

end Trader

/-! ## Startup -/

/-- The trader `run_trader` builds, before any request. -/
def Trader.start (cfg : Config) (epoch : ℚ) : Trader :=
  { cfg
    cats := cfg.categories.foldl (fun cats c => cats.insert c.name c) ∅
    state := TraderState.new epoch
    spot := { tauS := cfg.spot.fvEmaTauS }
    spotBound := ((cfg.categories.filter fun c => c.spotFeed.isSome).map CategoryConfig.name).toFinset }

end KalshiMm.Model
