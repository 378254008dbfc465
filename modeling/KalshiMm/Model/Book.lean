import Mathlib.Data.Finset.Max
import KalshiMm.Lib.FiniteMap
import KalshiMm.Model.Json

/-!
# The order book and the quote-safety helpers (`book.rs`)

Everything is in YES terms: the `yes` side holds bids for YES, the `no` side bids for NO, and a
NO bid at `p` sells YES at `1 - p`.  Levels are keyed by the price in millidollars.
-/

namespace KalshiMm.Model

open KalshiMm.Lib

/-- `$1.00` in millidollars. -/
def oneDollarMd : ℕ := 1000

def toMd (dollars : ℚ) : ℕ := toU32 (roundHalfAway (dollars * 1000))

def toDollars (md : ℕ) : ℚ := md / 1000

def round4 (x : ℚ) : ℚ := roundTo roundHalfAway 10000 x

def round6 (x : ℚ) : ℚ := roundTo roundHalfAway 1000000 x

/-- `f64::clamp`, for `lo ≤ hi`. -/
def clamp (x lo hi : ℚ) : ℚ := max lo (min hi x)

/-- `f64::clamp` on any bounds; `none` is its panic. -/
def tryClamp (x lo hi : ℚ) : Option ℚ := if lo ≤ hi then some (clamp x lo hi) else none

/-- Per-fill fee, rounded up to the next cent. -/
def ceilCentFee (rate contracts price : ℚ) : ℚ :=
  ⌈rate * contracts * price * (1 - price) * 100⌉ / 100

/-- Which side the taker of a public trade print was on. -/
inductive TakerSide where
  | yes
  | no
deriving DecidableEq

structure TradePrint where
  arrival : ℚ
  contracts : ℤ
  takerSide : TakerSide
deriving DecidableEq

abbrev Levels := Dict ℕ ℚ

/-- The order book of one market. -/
structure Book where
  yes : Levels := ∅
  no : Levels := ∅

namespace Levels

def lastKey (levels : Levels) : Option ℕ :=
  if nonempty : levels.keys.Nonempty then some (levels.keys.max' nonempty) else none

def top (levels : Levels) : ℕ → List (ℕ × ℚ)
  | 0 => []
  | n + 1 =>
    match levels.lastKey with
    | none => []
    | some key => (key, (levels.lookup key).getD 0) :: top (levels.erase key) n

end Levels

namespace Book

/-! ## Loading -/

/-- One row of a snapshot, `[price, qty]`; rows that do not read so are skipped. -/
def parseRow (row : Value) : Option (ℚ × ℚ) :=
  match row with
  | .array (price :: qty :: _) => do
    let price ← jsonF64 (some price)
    let qty ← jsonF64 (some qty)
    pure (price, qty)
  | _ => none

/-- Parse `[[price, qty], ...]` in any order, dropping empty levels. -/
def parseLevels (levels : Value) : Levels :=
  ((levels.asArray.getD []).filterMap parseRow).foldl
    -- a price listed twice keeps its last quantity
    (fun out (price, qty) => if 0 < qty then out.insert (toMd price) qty else out) ∅

def firstKey (payload : Value) (keys : List String) : Option Value :=
  keys.findSome? payload.get

/-- A REST or WebSocket snapshot replaces only the sides it carries. -/
def loadSnapshot (book : Book) (payload : Value) : Book where
  yes :=
    match firstKey payload ["yes_dollars_fp", "yes_dollars", "yes"] with
    | some levels => parseLevels levels
    | none => book.yes
  no :=
    match firstKey payload ["no_dollars_fp", "no_dollars", "no"] with
    | some levels => parseLevels levels
    | none => book.no

def bumpLevel (levels : Levels) (key : ℕ) (deltaQty : ℚ) : Levels :=
  let newQty := (levels.lookup key).getD 0 + deltaQty
  if 0 < newQty then levels.insert key newQty else levels.erase key

/-- A WebSocket delta; any side but `"yes"` is the NO side. -/
def applyDelta (book : Book) (side : String) (priceDollars deltaQty : ℚ) : Book :=
  if side = "yes" then { book with yes := bumpLevel book.yes (toMd priceDollars) deltaQty }
  else { book with no := bumpLevel book.no (toMd priceDollars) deltaQty }

/-! ## Reading -/

def bestBidMd (book : Book) : Option ℕ := book.yes.lastKey

/-- Lowest YES ask; the subtraction saturates, as for a NO bid above `$1.00`. -/
def bestAskMd (book : Book) : Option ℕ := book.no.lastKey.map fun p => oneDollarMd - p

/-- Both sides exist and the book is not crossed. -/
def isValid (book : Book) : Bool :=
  match book.bestBidMd, book.bestAskMd with
  | some bid, some ask => bid < ask
  | _, _ => false

def bestBid (book : Book) : Option ℚ := book.bestBidMd.map toDollars

def bestAsk (book : Book) : Option ℚ := book.bestAskMd.map toDollars

def mid (book : Book) : Option ℚ :=
  if book.isValid then do
    let bid ← book.bestBid
    let ask ← book.bestAsk
    pure ((bid + ask) / 2)
  else none

def bidLevels (book : Book) (n : ℕ) : List (ℚ × ℚ) :=
  (book.yes.top n).map fun (p, q) => (toDollars p, q)

/-- Top `n` YES ask levels in dollars, best first; sizes are NO-side sizes. -/
def askLevels (book : Book) (n : ℕ) : List (ℚ × ℚ) :=
  (book.no.top n).map fun (p, q) => (toDollars (oneDollarMd - p), q)

theorem isValid_iff {book : Book} : book.isValid = true ↔
    ∃ bid ask, book.bestBidMd = some bid ∧ book.bestAskMd = some ask ∧ bid < ask := by
  unfold isValid
  split
  next bid ask hasBid hasAsk => simp [hasBid, hasAsk]
  next missing =>
    constructor
    · intro contradiction; cases contradiction
    · rintro ⟨bid, ask, hasBid, hasAsk, _⟩
      exact absurd hasAsk (missing bid ask hasBid)

end Book

/-! ## Quote safety -/

/-- Force quotes to be passive; `none` when the clamped quotes would cross each other. -/
def clampQuotes (bid ask bestBid bestAsk tick : ℚ) : Option (ℚ × ℚ) :=
  -- each side stays a tick inside the opposite touch
  let bid := round4 (min bid (bestAsk - tick))
  let ask := round4 (max ask (bestBid + tick))
  if ask ≤ bid then none else some (bid, ask)

/-- The quoted spread beats round-trip ceil'd maker fees plus a minimum edge. -/
def quoteEdgeOk (bid ask feeRate : ℚ) (size : ℤ) (minEdge : ℚ) : Bool :=
  let feeBuy := ceilCentFee feeRate size bid
  let feeSell := ceilCentFee feeRate size ask
  let captured := round6 ((ask - bid) * size)
  round6 (feeBuy + feeSell + minEdge * size) < captured

/-! ## Sampling -/

/-- One mid per 60 s window, the last entry refreshed in place while the window is open. -/
def sampleMid (hist : List ℚ) (lastSampleTs nowTs mid : ℚ) : List ℚ × ℚ :=
  if hist = [] ∨ 60 ≤ nowTs - lastSampleTs then
    let hist := hist ++ [mid]
    (hist.drop (hist.length - 20), nowTs)
  else (hist.dropLast ++ [mid], lastSampleTs)

def tradeWindowS : ℚ := 60

def pruneTrades (trades : List TradePrint) (now : ℚ) : List TradePrint :=
  trades.dropWhile fun t => decide (t.arrival < now - tradeWindowS)

def tradeWindowFeatures (trades : List TradePrint) (now : ℚ) : List TradePrint × ℚ × ℚ :=
  let trades := pruneTrades trades now
  if trades = [] then (trades, 0, 0)
  else
    let volumeOf (side : TakerSide) : ℤ :=
      ((trades.filter fun t => t.takerSide = side).map TradePrint.contracts).sum
    let buyVol := volumeOf .no
    let sellVol := volumeOf .yes
    let volume1m : ℚ := min (trades.length / 50) 1
    let flow : ℚ := (buyVol - sellVol : ℤ) / (max (buyVol + sellVol) 1 : ℤ)
    (trades, volume1m, flow)

end KalshiMm.Model
