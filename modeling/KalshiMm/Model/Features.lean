import KalshiMm.Model.State

/-!
# The observation (`features.rs`)

The twenty features, each before the source's last step: `ln (1 + tte)`, the square root of the
variance, the cast to `f32` and the clip are fixed functions of these numbers, applied on the
way into the policy, and the policy is a parameter of the trader.
-/

namespace KalshiMm.Model

structure Observation where
  midPrice : ℚ
  spread : ℚ
  bidDepth : List ℚ
  askDepth : List ℚ
  bookImbalance : ℚ
  tradeVolume : ℚ
  invNorm : ℚ
  unrealizedNorm : ℚ
  tteHours : ℚ
  momentum : ℚ
  realizedPnlNorm : ℚ
  fillsRatio : ℚ
  tradeFlow : ℚ
  velocity : ℚ
  fillToxicity : ℚ
  realizedVar : ℚ

/-- Bounds that every feature is clipped to. -/
def obsLow : List ℚ :=
  [1 / 100, 1 / 100, 0, 0, 0, 0, 0, 0, -1, 0, -1, -1, 0, -1 / 10, -1, 0, -1, -1 / 10, -1, 0]

def obsHigh : List ℚ :=
  [99 / 100, 1 / 2, 1, 1, 1, 1, 1, 1, 1, 1, 1, 1, 4, 1 / 10, 1, 1, 1, 1 / 10, 1, 1]

/-- Square of `realized_vol`: population variance of the last 20 mids, 0 below three samples. -/
def realizedVar (midHistory : List ℚ) : ℚ :=
  if midHistory.length < 3 then 0
  else
    let window := midHistory.drop (midHistory.length - 20)
    let n : ℚ := window.length
    let mean := window.sum / n
    (window.map fun x => (x - mean) ^ 2).sum / n

/-- `realized_vol > threshold`, squared. -/
def volExceeds (var threshold : ℚ) : Bool := threshold < 0 ∨ threshold ^ 2 < var

def depthAt (levels : List (ℚ × ℚ)) (i : ℕ) (default : ℚ) : ℚ :=
  match levels[i]? with
  | some (_, q) => min (q / 100) 1
  | none => default

def midBack (hist : List ℚ) (back : ℕ) : Option ℚ :=
  if back ≤ hist.length then hist[hist.length - back]? else none

def observe (ts : TickerState) (mm : MmParams) (bestBid bestAsk tradeVolume tradeFlow nowS : ℚ) :
    Observation :=
  let midPrice := (bestBid + bestAsk) / 2
  let bids := ts.book.bidLevels 3
  let asks := ts.book.askLevels 3
  let totalBid := (bids.map Prod.snd).sum
  let totalAsk := (asks.map Prod.snd).sum
  let maxInv : ℚ := (max mm.maxInventory 1 : ℤ)
  let unrealizedPnl :=
    if ts.position ≠ 0 then ts.position * (midPrice - ts.entryPrice.getD midPrice) else 0
  let totalFills := ts.fillsBuy + ts.fillsSell
  { midPrice
    spread := clamp (bestAsk - bestBid) (1 / 100) (1 / 2)
    bidDepth := [depthAt bids 0 (1 / 10), depthAt bids 1 (5 / 100), depthAt bids 2 (2 / 100)]
    askDepth := [depthAt asks 0 (1 / 10), depthAt asks 1 (5 / 100), depthAt asks 2 (2 / 100)]
    bookImbalance := (totalBid - totalAsk) / (totalBid + totalAsk + 1 / 100000000)
    tradeVolume
    invNorm := ts.position / maxInv
    unrealizedNorm := unrealizedPnl / max (maxInv * (1 / 2)) 1
    tteHours :=
      match ts.closeTimeS with
      | some closeS => clamp ((closeS - nowS) / 3600) 0 24
      | none => 24
    momentum :=
      match midBack ts.midHistory 5 with
      | some m => midPrice - m
      | none => 0
    realizedPnlNorm := ts.realizedPnl / 50
    fillsRatio := totalFills / max (mm.quoteSize : ℚ) 1
    tradeFlow
    velocity :=
      match midBack ts.midHistory 3 with
      | some m => (midPrice - m) / 3
      | none => 0
    fillToxicity := if 0 < totalFills then (ts.fillsBuy - ts.fillsSell) / totalFills else 0
    realizedVar := realizedVar ts.midHistory }

/-- Build the observation, maintaining mid history and trade prints on the way; `none` when the
    book is unusable, too wide, or its mid too volatile. -/
def buildObservation (ts : TickerState) (mm : MmParams) (nowS nowMono : ℚ) :
    TickerState × Option Observation :=
  match ts.book.isValid, ts.book.bestBid, ts.book.bestAsk with
  | true, some bestBid, some bestAsk =>
    if 1 / 2 < bestAsk - bestBid then (ts, none)
    else
      let (hist, sampled) :=
        sampleMid ts.midHistory ts.lastMidSample nowMono ((bestBid + bestAsk) / 2)
      let ts := { ts with midHistory := hist, lastMidSample := sampled }
      if volExceeds (realizedVar ts.midHistory) mm.volFilterThreshold then (ts, none)
      else
        let (trades, tradeVolume, tradeFlow) := tradeWindowFeatures ts.recentTrades nowS
        let ts := { ts with recentTrades := trades }
        (ts, some (observe ts mm bestBid bestAsk tradeVolume tradeFlow nowS))
  | _, _, _ => (ts, none)

end KalshiMm.Model
