import Mathlib.Analysis.Complex.ExponentialBounds
import Mathlib.Analysis.SpecialFunctions.Log.Basic
import KalshiMm.Verified.Reconnects
import KalshiMm.Verified.SaneBooks
import KalshiMm.Verified.TradeWindow

/-!
# What the policies get to see

The features are clipped to the ranges of the training environment.  Over whole runs the clip is
idle on the features of the book, the printed volume, the time left, the fills' balance and the
volatility, and on the flow where prints count no negative contracts; what it can move are the mid,
its changes, and the account's own inventory, PnL and fills.
-/

namespace KalshiMm.Verified.Observations

open KalshiMm.Lib KalshiMm.Model Replication

/-! ## The vector -/

/-- The features in their order, with the logarithm and the square root taken. -/
noncomputable def raw (obs : Observation) : List ℝ :=
  [obs.midPrice, obs.spread, obs.bidDepth.getD 0 0, obs.askDepth.getD 0 0, obs.bidDepth.getD 1 0,
    obs.askDepth.getD 1 0, obs.bidDepth.getD 2 0, obs.askDepth.getD 2 0, obs.bookImbalance,
    obs.tradeVolume, obs.invNorm, obs.unrealizedNorm, Real.log (1 + obs.tteHours), obs.momentum,
    obs.realizedPnlNorm, obs.fillsRatio, obs.tradeFlow, obs.velocity, obs.fillToxicity,
    max 0 (min 1 (√obs.realizedVar / (5 / 100)))]

/-- The clip leaves a feature as it is. -/
def Unclipped (obs : Observation) (i : ℕ) : Prop :=
  (obsLow.getD i 0 : ℝ) ≤ (raw obs).getD i 0 ∧ (raw obs).getD i 0 ≤ (obsHigh.getD i 0 : ℝ)

/-- The features that are within their ranges whatever happens. -/
def steady : List ℕ := [1, 2, 3, 4, 5, 6, 7, 8, 9, 12, 18, 19]

/-- What is known of an observation of a market with these prints. -/
structure Seen (mm : MmParams) (prints : List TradePrint) (obs : Observation) : Prop where
  unclipped : ∀ i ∈ steady, Unclipped obs i
  flow : (∀ print ∈ prints, 0 ≤ print.contracts) → Unclipped obs 16
  mid : 0 < obs.midPrice ∧ obs.midPrice < 1
  momentum : |obs.momentum| < 1
  velocity : |obs.velocity| < 1 / 3
  fills : 0 ≤ obs.fillsRatio
  calm : √(obs.realizedVar : ℝ) ≤ mm.volFilterThreshold

/-! ## One market -/

/-- What a market has sensed and booked is in range. -/
structure InRange (ts : TickerState) : Prop where
  listed : Book.Listed ts.book
  mids : ∀ mid ∈ ts.midHistory, 0 < mid ∧ mid < 1
  bought : 0 ≤ ts.fillsBuy
  sold : 0 ≤ ts.fillsSell

theorem inRange_new (category : String) : InRange (TickerState.new category) where
  listed := ⟨SaneBooks.listed_empty, SaneBooks.listed_empty⟩
  mids := nofun
  bought := le_rfl
  sold := le_rfl

theorem inRange_foldBook {ts : TickerState} (ranges : InRange ts) (msg : Value) :
    Book.Listed (Trader.foldBook ts.book msg) := by
  unfold Trader.foldBook
  split_ifs
  · exact SaneBooks.listed_apply ranges.listed (.delta _ _ _)
  · exact SaneBooks.listed_apply ranges.listed (.snapshot msg)

/-! ## Features of the book -/

theorem qty_of_mem_top {levels : Levels} (listed : Levels.Listed levels) {n : ℕ} {level : ℕ × ℚ}
    (member : level ∈ levels.top n) : 0 < level.2 :=
  (listed _ _ (SaneBooks.lookup_of_mem_top member)).1

theorem depthAt_range {levels : List (ℚ × ℚ)} (positive : ∀ level ∈ levels, 0 < level.2) (i : ℕ)
    {default : ℚ} (some_ : 0 ≤ default) (whole : default ≤ 1) :
    0 ≤ depthAt levels i default ∧ depthAt levels i default ≤ 1 := by
  unfold depthAt
  split
  next price qty found =>
    have deep : 0 < qty := positive _ (List.mem_of_getElem? found)
    exact ⟨le_min (by positivity) zero_le_one, min_le_right _ _⟩
  · exact ⟨some_, whole⟩

theorem imbalance_range {bid ask : ℚ} (bids : 0 ≤ bid) (asks : 0 ≤ ask) :
    |(bid - ask) / (bid + ask + 1 / 100000000)| ≤ 1 := by
  have total : 0 < bid + ask + 1 / 100000000 := by positivity
  rw [abs_div, abs_of_pos total, div_le_one total, abs_le]
  constructor <;> linarith

theorem sum_qty_nonneg {levels : List (ℚ × ℚ)} (positive : ∀ level ∈ levels, 0 < level.2) :
    0 ≤ (levels.map Prod.snd).sum := by
  refine List.sum_nonneg fun qty member => ?_
  obtain ⟨level, listed, rfl⟩ := List.mem_map.mp member
  exact (positive level listed).le

/-! ## Features of prints, fills and time -/

theorem ratio_range {bought sold : ℤ} (buys : 0 ≤ bought) (sells : 0 ≤ sold) {total : ℤ}
    (covers : bought + sold ≤ total) (positive : 0 < total) :
    |(bought - sold : ℚ) / total| ≤ 1 := by
  have positive' : (0 : ℚ) < total := by exact_mod_cast positive
  rw [abs_div, abs_of_pos positive', div_le_one positive']
  have within : |bought - sold| ≤ total := by
    rw [abs_le]
    constructor <;> omega
  exact_mod_cast within

theorem volume_range (prints : List TradePrint) :
    0 ≤ (TradeWindow.featuresOf prints).1 ∧ (TradeWindow.featuresOf prints).1 ≤ 1 := by
  unfold TradeWindow.featuresOf
  dsimp only
  split_ifs
  · exact ⟨le_rfl, zero_le_one⟩
  · exact ⟨le_min (by positivity) zero_le_one, min_le_right _ _⟩

theorem flow_range {prints : List TradePrint} (counts : ∀ print ∈ prints, 0 ≤ print.contracts) :
    |(TradeWindow.featuresOf prints).2| ≤ 1 := by
  have side (taker : TakerSide) :
      0 ≤ ((prints.filter fun print => print.takerSide = taker).map TradePrint.contracts).sum := by
    refine List.sum_nonneg fun contracts member => ?_
    obtain ⟨print, kept, rfl⟩ := List.mem_map.mp member
    exact counts print (List.mem_of_mem_filter kept)
  unfold TradeWindow.featuresOf
  dsimp only
  split_ifs
  · rw [abs_zero]
    exact zero_le_one
  · rw [Int.cast_sub]
    exact ratio_range (side .no) (side .yes) (le_max_left _ _) (lt_max_of_lt_right zero_lt_one)

theorem log_tte_range {hours : ℚ} (some_ : 0 ≤ hours) (within : hours ≤ 24) :
    0 ≤ Real.log (1 + hours) ∧ Real.log (1 + hours) ≤ 4 := by
  have lower : (0 : ℝ) ≤ hours := by exact_mod_cast some_
  have upper : (hours : ℝ) ≤ 24 := by exact_mod_cast within
  refine ⟨Real.log_nonneg (by linarith), ?_⟩
  rw [Real.log_le_iff_le_exp (by linarith)]
  have e : (27 / 10 : ℝ) ^ 4 ≤ Real.exp 1 ^ 4 :=
    pow_le_pow_left₀ (by norm_num) (by linarith [Real.exp_one_gt_d9]) 4
  rw [← Real.exp_nat_mul] at e
  norm_num at e
  linarith

/-! ## One observation -/

theorem midBack_range {hist : List ℚ} {back : ℕ} {m : ℚ}
    (mids : ∀ mid ∈ hist, 0 < mid ∧ mid < 1) (found : midBack hist back = some m) : 0 < m ∧ m < 1 := by
  unfold midBack at found
  split_ifs at found
  exact mids m (List.mem_of_getElem? found)

theorem mem_sampleMid {hist : List ℚ} {lastSampleTs nowTs mid m : ℚ}
    (member : m ∈ (sampleMid hist lastSampleTs nowTs mid).1) : m ∈ hist ∨ m = mid := by
  unfold sampleMid at member
  split_ifs at member
  · have kept := List.mem_of_mem_drop member
    simpa using kept
  · obtain before | now := List.mem_append.mp member
    · exact Or.inl (List.mem_of_mem_dropLast before)
    · exact Or.inr (List.mem_singleton.mp now)

/-- How an observation ends: with nothing seen, on an unusable book or before or after sampling its
    mid; or with the features of the touch, the window and the samples. -/
inductive Built (ts : TickerState) (mm : MmParams) (nowS nowMono : ℚ) :
    TickerState × Option Observation → Prop where
  | unusable : Built ts mm nowS nowMono (ts, none)
  | sampled {hist : List ℚ} {at_ : ℚ} (mids : ∀ m ∈ hist, m ∈ ts.midHistory ∨ m ∈ ts.book.mid) :
      Built ts mm nowS nowMono ({ ts with midHistory := hist, lastMidSample := at_ }, none)
  | seen {hist : List ℚ} {at_ bestBid bestAsk : ℚ} (valid : ts.book.isValid = true)
      (hasBid : ts.book.bestBid = some bestBid) (hasAsk : ts.book.bestAsk = some bestAsk)
      (narrow : bestAsk - bestBid ≤ 1 / 2) (mids : ∀ m ∈ hist, m ∈ ts.midHistory ∨ m ∈ ts.book.mid)
      (calm : volExceeds (realizedVar hist) mm.volFilterThreshold = false) :
      Built ts mm nowS nowMono
        ({ ts with
            midHistory := hist
            lastMidSample := at_
            recentTrades := (tradeWindowFeatures ts.recentTrades nowS).1 },
          some (observe { ts with
              midHistory := hist
              lastMidSample := at_
              recentTrades := (tradeWindowFeatures ts.recentTrades nowS).1 } mm bestBid bestAsk
            (tradeWindowFeatures ts.recentTrades nowS).2.1
            (tradeWindowFeatures ts.recentTrades nowS).2.2 nowS))

theorem mid_of_touch {book : Book} {bestBid bestAsk : ℚ} (valid : book.isValid = true)
    (hasBid : book.bestBid = some bestBid) (hasAsk : book.bestAsk = some bestAsk) :
    book.mid = some ((bestBid + bestAsk) / 2) := by
  rw [Book.mid, if_pos valid, hasBid, hasAsk]
  rfl

theorem built_buildObservation (ts : TickerState) (mm : MmParams) (nowS nowMono : ℚ) :
    Built ts mm nowS nowMono (buildObservation ts mm nowS nowMono) := by
  unfold buildObservation
  split
  next bestBid bestAsk valid hasBid hasAsk =>
    have mids : ∀ m ∈ (sampleMid ts.midHistory ts.lastMidSample nowMono ((bestBid + bestAsk) / 2)).1,
        m ∈ ts.midHistory ∨ m ∈ ts.book.mid := by
      intro m member
      rw [mid_of_touch valid hasBid hasAsk, Option.mem_some]
      exact (mem_sampleMid member).imp id Eq.symm
    dsimp only
    split_ifs with wide rough
    · exact .unusable
    · exact .sampled mids
    · exact .seen valid hasBid hasAsk (not_lt.mp wide) mids (Bool.eq_false_iff.mpr rough)
  · exact .unusable

section Market

variable {ts : TickerState} {mm : MmParams} {nowS nowMono : ℚ}

theorem mid_range {mid : ℚ} (found : mid ∈ ts.book.mid) : 0 < mid ∧ mid < 1 := by
  have valid : ts.book.isValid = true := by
    by_contra crossed
    rw [Book.mid, if_neg crossed] at found
    cases found
  obtain ⟨_, mid', _, _, same, _, above, below, under, within⟩ := SaneBooks.inside_of_isValid valid
  cases same.symm.trans found
  exact ⟨above.trans_lt below, under.trans_le within⟩

theorem mids_range (ranges : InRange ts) {hist : List ℚ}
    (mids : ∀ m ∈ hist, m ∈ ts.midHistory ∨ m ∈ ts.book.mid) : ∀ m ∈ hist, 0 < m ∧ m < 1 :=
  fun m member => (mids m member).elim (ranges.mids m) mid_range

/-- An observation keeps what is sensed in range. -/
theorem inRange_buildObservation (ranges : InRange ts) :
    InRange (buildObservation ts mm nowS nowMono).1 := by
  have built := built_buildObservation ts mm nowS nowMono
  generalize buildObservation ts mm nowS nowMono = result at built
  cases built with
  | unusable => exact ranges
  | sampled mids => exact ⟨ranges.listed, mids_range ranges mids, ranges.bought, ranges.sold⟩
  | seen _ _ _ _ mids _ => exact ⟨ranges.listed, mids_range ranges mids, ranges.bought, ranges.sold⟩

theorem bids_positive (ranges : InRange ts) (n : ℕ) : ∀ level ∈ ts.book.bidLevels n, 0 < level.2 := by
  intro level member
  obtain ⟨row, top, rfl⟩ := List.mem_map.mp member
  exact qty_of_mem_top ranges.listed.1 top

theorem asks_positive (ranges : InRange ts) (n : ℕ) : ∀ level ∈ ts.book.askLevels n, 0 < level.2 := by
  intro level member
  obtain ⟨row, top, rfl⟩ := List.mem_map.mp member
  exact qty_of_mem_top ranges.listed.2 top

/-! ## What is seen -/

theorem unclipped_of_range {obs : Observation} {i : ℕ} {low high x : ℚ}
    (bounds : obsLow.getD i 0 = low ∧ obsHigh.getD i 0 = high) (feature : (raw obs).getD i 0 = x)
    (range : low ≤ x ∧ x ≤ high) : Unclipped obs i := by
  unfold Unclipped
  rw [bounds.1, bounds.2, feature]
  exact_mod_cast range

theorem clamp_range {x lo hi : ℚ} (ordered : lo ≤ hi) : lo ≤ clamp x lo hi ∧ clamp x lo hi ≤ hi :=
  ⟨le_max_left _ _, max_le ordered (min_le_left _ _)⟩

theorem sqrt_le_of_calm {variance threshold : ℚ} (calm : volExceeds variance threshold = false) :
    √(variance : ℝ) ≤ threshold := by
  unfold volExceeds at calm
  rw [decide_eq_false_iff_not, not_or, not_lt, not_lt] at calm
  obtain ⟨positive, within⟩ := calm
  exact Real.sqrt_le_iff.mpr ⟨by exact_mod_cast positive, by exact_mod_cast within⟩

theorem tteHours_range (bestBid bestAsk tradeVolume tradeFlow : ℚ) :
    0 ≤ (observe ts mm bestBid bestAsk tradeVolume tradeFlow nowS).tteHours ∧
      (observe ts mm bestBid bestAsk tradeVolume tradeFlow nowS).tteHours ≤ 24 := by
  unfold observe
  dsimp only
  split
  · exact clamp_range (by norm_num)
  · norm_num

theorem toxicity_range (ranges : InRange ts) :
    |if 0 < ts.fillsBuy + ts.fillsSell then
      ((ts.fillsBuy - ts.fillsSell : ℚ) / (ts.fillsBuy + ts.fillsSell : ℤ)) else 0| ≤ 1 := by
  split_ifs with filled
  · exact ratio_range ranges.bought ranges.sold le_rfl filled
  · rw [abs_zero]
    exact zero_le_one

/-- The change from a sample of a while ago, for each of a number of windows. -/
theorem change_range (ranges : InRange ts) {mid : ℚ} (now : 0 < mid ∧ mid < 1) (back : ℕ) {per : ℚ}
    (positive : 0 < per) :
    abs (match midBack ts.midHistory back with | some m => (mid - m) / per | none => 0) < 1 / per := by
  cases found : midBack ts.midHistory back with
  | none =>
    rw [abs_zero]
    positivity
  | some m =>
    obtain ⟨above, below⟩ := midBack_range ranges.mids found
    dsimp only
    rw [abs_div, abs_of_pos positive]
    refine div_lt_div_of_pos_right ?_ positive
    rw [abs_lt]
    constructor <;> linarith

theorem seen_observe {bestBid bestAsk : ℚ} (ranges : InRange ts) (valid : ts.book.isValid = true)
    (hasBid : ts.book.bestBid = some bestBid) (hasAsk : ts.book.bestAsk = some bestAsk)
    (calm : volExceeds (realizedVar ts.midHistory) mm.volFilterThreshold = false)
    (prints : List TradePrint) :
    Seen mm prints (observe ts mm bestBid bestAsk (TradeWindow.featuresOf prints).1
      (TradeWindow.featuresOf prints).2 nowS) := by
  have mid : 0 < (bestBid + bestAsk) / 2 ∧ (bestBid + bestAsk) / 2 < 1 :=
    mid_range (mid_of_touch valid hasBid hasAsk)
  have bids := bids_positive ranges 3
  have asks := asks_positive ranges 3
  have spread : 1 / 100 ≤ clamp (bestAsk - bestBid) (1 / 100) (1 / 2) ∧
      clamp (bestAsk - bestBid) (1 / 100) (1 / 2) ≤ 1 / 2 := clamp_range (by norm_num)
  have momentum := change_range ranges mid 5 zero_lt_one
  simp only [div_one] at momentum
  have total : (0 : ℚ) ≤ (ts.fillsBuy + ts.fillsSell : ℤ) :=
    Int.cast_nonneg (add_nonneg ranges.bought ranges.sold)
  refine ⟨fun i member => ?_, fun counts => ?_, mid, momentum, change_range ranges mid 3 (by norm_num),
    div_nonneg total (le_max_of_le_right zero_le_one), sqrt_le_of_calm calm⟩
  · simp only [steady, List.mem_cons, List.not_mem_nil, or_false] at member
    obtain rfl | rfl | rfl | rfl | rfl | rfl | rfl | rfl | rfl | rfl | rfl | rfl := member
    · exact unclipped_of_range ⟨rfl, rfl⟩ rfl spread
    · exact unclipped_of_range ⟨rfl, rfl⟩ rfl (depthAt_range bids 0 (by norm_num) (by norm_num))
    · exact unclipped_of_range ⟨rfl, rfl⟩ rfl (depthAt_range asks 0 (by norm_num) (by norm_num))
    · exact unclipped_of_range ⟨rfl, rfl⟩ rfl (depthAt_range bids 1 (by norm_num) (by norm_num))
    · exact unclipped_of_range ⟨rfl, rfl⟩ rfl (depthAt_range asks 1 (by norm_num) (by norm_num))
    · exact unclipped_of_range ⟨rfl, rfl⟩ rfl (depthAt_range bids 2 (by norm_num) (by norm_num))
    · exact unclipped_of_range ⟨rfl, rfl⟩ rfl (depthAt_range asks 2 (by norm_num) (by norm_num))
    · exact unclipped_of_range ⟨rfl, rfl⟩ rfl
        (abs_le.mp (imbalance_range (sum_qty_nonneg bids) (sum_qty_nonneg asks)))
    · exact unclipped_of_range ⟨rfl, rfl⟩ rfl (volume_range prints)
    · obtain ⟨some_, within⟩ := tteHours_range bestBid bestAsk _ _
      simpa [Unclipped, raw, obsLow, obsHigh] using log_tte_range some_ within
    · exact unclipped_of_range ⟨rfl, rfl⟩ rfl (abs_le.mp (toxicity_range ranges))
    · simp [Unclipped, raw, obsLow, obsHigh]
  · exact unclipped_of_range ⟨rfl, rfl⟩ rfl (abs_le.mp (flow_range counts))

/-- What an observation of a market in range shows is in range. -/
theorem seen_buildObservation (ranges : InRange ts) {obs : Observation}
    (shown : (buildObservation ts mm nowS nowMono).2 = some obs) :
    Seen mm (buildObservation ts mm nowS nowMono).1.recentTrades obs := by
  have built := built_buildObservation ts mm nowS nowMono
  generalize buildObservation ts mm nowS nowMono = result at built shown
  cases built with
  | unusable => cases shown
  | sampled _ => cases shown
  | @seen hist at_ bestBid bestAsk valid hasBid hasAsk _ mids calm =>
    cases shown
    rw [TradeWindow.tradeWindowFeatures_eq]
    have sampled : InRange { ts with
        midHistory := hist
        lastMidSample := at_
        recentTrades := pruneTrades ts.recentTrades nowS } :=
      ⟨ranges.listed, mids_range ranges mids, ranges.bought, ranges.sold⟩
    exact seen_observe sampled valid hasBid hasAsk calm _

end Market

/-! ## All markets -/

def AllInRange (tr : Trader) : Prop :=
  ∀ ticker ts, tr.state.tickers.lookup ticker = some ts → InRange ts

theorem AllInRange.tickerD {tr : Trader} (ranges : AllInRange tr) (ticker category : String) :
    InRange (tr.state.tickerD ticker category) := by
  unfold TraderState.tickerD
  cases known : tr.state.tickers.lookup ticker with
  | none => exact inRange_new category
  | some ts => exact ranges ticker ts known

/-- If all markets are in range in the first, they are in the second. -/
def Keeps (tr tr' : Trader) : Prop := AllInRange tr → AllInRange tr'

namespace Keeps

theorem refl (tr : Trader) : Keeps tr tr := id

theorem trans {a b c : Trader} (first : Keeps a b) (second : Keeps b c) : Keeps a c :=
  second ∘ first

theorem of_tickers {tr tr' : Trader} (same : tr'.state.tickers = tr.state.tickers) : Keeps tr tr' :=
  fun ranges ticker ts known => ranges ticker ts (same ▸ known)

theorem of_timers {tr tr' : Trader} (timers : Timers tr tr') : Keeps tr tr' :=
  of_tickers (congrArg TraderState.tickers timers.state)

/-- One market is rewritten, in range if it was. -/
theorem of_insert {tr tr' : Trader} {ticker : String} (category : String) {ts : TickerState}
    (written : tr'.state.tickers = tr.state.tickers.insert ticker ts)
    (kept : InRange (tr.state.tickerD ticker category) → InRange ts) : Keeps tr tr' := by
  intro ranges other ts' known
  rw [written, Dict.lookup_insert_eq_ite] at known
  split_ifs at known
  · cases known
    exact kept (ranges.tickerD ticker category)
  · exact ranges other ts' known

theorem of_known {tr tr' : Trader} {ticker : String} {before ts : TickerState}
    (known : tr.state.tickers.lookup ticker = some before)
    (written : tr'.state.tickers = tr.state.tickers.insert ticker ts)
    (kept : InRange before → InRange ts) : Keeps tr tr' :=
  of_insert "" written (by rw [TraderState.tickerD, known]; exact kept)

end Keeps

/-- Book, samples and fill counters stay. -/
theorem InRange.of_same {ts ts' : TickerState} (ranges : InRange ts) (book : ts'.book = ts.book)
    (mids : ts'.midHistory = ts.midHistory) (bought : ts'.fillsBuy = ts.fillsBuy)
    (sold : ts'.fillsSell = ts.fillsSell) : InRange ts' where
  listed := book ▸ ranges.listed
  mids := mids ▸ ranges.mids
  bought := bought ▸ ranges.bought
  sold := sold ▸ ranges.sold

theorem inRange_filled {ts : TickerState} (ranges : InRange ts) {nf : NormalizedFill}
    (positive : 0 < nf.size) (nowEpoch : ℚ) : InRange (ts.filled nf nowEpoch) where
  listed := ranges.listed
  mids := ranges.mids
  bought := by
    have bought := ranges.bought
    unfold TickerState.filled TickerState.bookFill
    dsimp only
    split_ifs <;> omega
  sold := by
    have sold := ranges.sold
    unfold TickerState.filled TickerState.bookFill
    dsimp only
    split_ifs <;> omega

section Handlers

variable (env : Env) (out : Outside) (tr : Trader)

theorem keeps_processFill (raw : Value) : Keeps tr (tr.processFill out raw) := by
  have ends := processFill_outcome out raw tr
  generalize tr.processFill out raw = tr' at ends
  cases ends with
  | ignored _ => exact .refl _
  | booked nf normal _ _ written =>
    exact .of_insert _ written fun ranges => inRange_filled ranges (normalizeFill_size normal) _

theorem keeps_resolveVanished (settled : Dict String (Option Bool)) (ticker : String) :
    Keeps tr (tr.resolveVanished settled ticker) := by
  have ends := resolveVanished_resolved settled tr ticker
  generalize tr.resolveVanished settled ticker = tr' at ends
  cases ends with
  | flat _ => exact .of_tickers rfl
  | writtenOff ts known _ _ _ => exact .of_known known rfl fun ranges => ranges.of_same rfl rfl rfl rfl
  | counted _ _ _ => exact .of_tickers rfl
  | settled resultYes held _ halts =>
    obtain ⟨ts, known, _, written⟩ := tickers_settledAt held halts
    exact .of_known known written fun ranges => ranges.of_same rfl rfl rfl rfl

theorem keeps_syncPositions : Keeps tr (tr.syncPositions out) := by
  refine syncPositions_related Keeps.refl (fun _ _ _ => .trans) (fun exchange tr ticker => ?_)
    (fun settled tr ticker => keeps_resolveVanished tr settled ticker) (fun tr ticker => ?_) tr
  · obtain ⟨_, _, only⟩ := syncTicker_only out exchange tr ticker
    rw [only]
    exact .of_insert _ rfl fun ranges => ranges.of_same rfl rfl rfl rfl
  · obtain same | ⟨_, _, _, known, _, written⟩ := backfillEntryPrice_cases out ticker tr
    · rw [same]
      exact .refl tr
    · rw [written]
      exact .of_known known rfl fun ranges => ranges.of_same rfl rfl rfl rfl

theorem keeps_onTrade (ticker : String) (msg : Value) : Keeps tr (tr.onTrade out ticker msg) := by
  unfold Trader.onTrade
  dsimp only
  split
  · exact .refl tr
  · exact .of_insert _ rfl fun ranges => ranges.of_same rfl rfl rfl rfl

theorem keeps_maybeDailyReset : Keeps tr (tr.maybeDailyReset env out) := by
  unfold Trader.maybeDailyReset
  split_ifs
  · exact .of_tickers rfl
  · exact .refl tr

theorem keeps_updateSpotGate : Keeps tr (tr.updateSpotGate out).trader := by
  intro ranges ticker ts known
  obtain ⟨clear, clears, cleared⟩ := lookup_updateSpotGate out tr
  rw [cleared] at known
  obtain ⟨before, found, rfl⟩ := Option.map_eq_some_iff.mp known
  obtain ⟨_, _, only⟩ := clears before
  rw [only]
  exact (ranges ticker before found).of_same rfl rfl rfl rfl

theorem keeps_onSpotTick (price : ℚ) : Keeps tr (tr.onSpotTick env out price).trader :=
  onSpotTick_related (R := Keeps) (fun _ _ _ => .trans) (fun _ _ => .of_tickers rfl)
    (keeps_updateSpotGate out) .of_timers env price tr

theorem keeps_quoteCycle (category ticker : String) (action : Action) (fvShift : ℚ)
    (allow : Bool × Bool) :
    Keeps tr (tr.quoteCycle out category ticker action fvShift allow).trader := by
  have written : ∃ ts, (tr.quoteCycle out category ticker action fvShift allow).trader.state.tickers =
      tr.state.tickers.insert ticker ts ∧ (InRange (tr.state.tickerD ticker category) → InRange ts) := by
    obtain ⟨clocked, _⟩ := planQuotes_clock action fvShift (tr.state.tickerD ticker category)
      tr.cfg.mm (((tr.cats.lookup category).map CategoryConfig.maxInventory).getD 5)
      tr.state.openOrderCount tr.state.balanceBackoffUntil out.mono
    unfold Trader.quoteCycle
    dsimp only
    split
    · refine ⟨_, rfl, fun ranges => ?_⟩
      obtain advanced | ⟨same, _⟩ := clocked
      · rw [advanced]
        exact ranges.of_same rfl rfl rfl rfl
      · rwa [same]
    next plan planned =>
      obtain advanced | ⟨_, unplanned⟩ := clocked
      · rw [advanced, applyQuotePlan_tickers, TraderState.setTicker_tickers, Finmap.insert_insert,
          tickerD_setTicker]
        exact ⟨_, rfl, fun ranges => ranges.of_same rfl rfl rfl rfl⟩
      · rw [planned] at unplanned
        cases unplanned
  obtain ⟨_, written, kept⟩ := written
  exact .of_insert category written kept

theorem keeps_observeAndQuote (ticker category : String) (fvShift : ℚ) :
    Keeps tr (tr.observeAndQuote env out ticker category fvShift).trader := by
  have observed : Keeps tr { tr with
      state := tr.state.setTicker ticker (buildObservation (tr.state.tickerD ticker category)
        tr.cfg.mm out.epoch out.mono).1 } :=
    .of_insert category rfl inRange_buildObservation
  unfold Trader.observeAndQuote
  dsimp only
  split
  · exact observed
  · exact observed.trans (keeps_quoteCycle out _ category ticker _ fvShift _)

theorem keeps_foldedIn (ticker category : String) (msg : Value) :
    Keeps tr (foldedIn ticker category msg tr) :=
  .of_insert category rfl fun ranges =>
    ⟨inRange_foldBook ranges msg, ranges.mids, ranges.bought, ranges.sold⟩

theorem keeps_onBookUpdate (ticker : String) (msg : Value) :
    Keeps tr (tr.onBookUpdate env out ticker msg).trader := by
  cases active : tr.activeTickers.lookup ticker with
  | none =>
    unfold Trader.onBookUpdate
    rw [active]
    exact .refl tr
  | some category =>
    have folds := keeps_foldedIn tr ticker category msg
    rw [onBookUpdate_of_active active]
    dsimp only
    split_ifs
    · split
      · exact folds.trans (.of_tickers rfl)
      · exact folds
      · split
        · exact folds
        · exact folds.trans (keeps_observeAndQuote env out _ ticker category _)
    · exact folds

theorem keeps_fetchDetails (entry : String × String) :
    Keeps tr (Trader.fetchDetails env out tr entry) := by
  refine .of_insert entry.2 rfl fun ranges => ?_
  unfold Trader.readDetails
  split
  · exact ranges.of_same rfl rfl rfl rfl
  · exact ranges.of_same rfl rfl rfl rfl

theorem keeps_fetchSnapshot (entry : String × String) :
    Keeps tr (Trader.fetchSnapshot out tr entry) := by
  unfold Trader.fetchSnapshot
  dsimp only
  split
  · exact .refl tr
  · exact .of_insert entry.2 rfl fun ranges =>
      ⟨SaneBooks.listed_apply ranges.listed (.snapshot _), ranges.mids, ranges.bought, ranges.sold⟩

theorem keeps_refreshMarkets : Keeps tr (tr.refreshMarkets env out) :=
  refreshMarkets_related Keeps.refl (fun _ _ _ => .trans) (fun _ _ _ _ => .of_tickers rfl)
    (keeps_fetchDetails env out) (keeps_fetchSnapshot out) tr

end Handlers

theorem keeps_move (env : Env) (tr : Trader) (m : Move) : Keeps tr (tr.move env m) := by
  cases m with
  | poll out ticker =>
    unfold Trader.move Trader.carryOut Trader.pollMarket
    dsimp only
    split
    · exact .refl tr
    · exact keeps_onBookUpdate env out tr ticker _
  | turn arrival =>
    obtain ⟨event, out⟩ := arrival
    unfold Trader.move Trader.carryOut Trader.turn
    dsimp only
    split_ifs
    · unfold Trader.handle
      cases event with
      | book ticker msg => exact keeps_onBookUpdate env out tr ticker msg
      | trade ticker msg => exact keeps_onTrade out tr ticker msg
      | spot price => exact keeps_onSpotTick env out tr price
      | fill raw => exact keeps_processFill out tr raw
      | sync => exact keeps_syncPositions out tr
      | exits => exact (keeps_updateSpotGate out tr).trans (.of_timers (timers_checkExits out _))
      | daily => exact keeps_maybeDailyReset env out tr
      | refresh => exact keeps_refreshMarkets env out tr
    · exact .refl tr

theorem allInRange_startup (env : Env) (cfg : Config) (out : Outside) :
    AllInRange (Trader.startup env cfg out) := by
  let listed := (Trader.start cfg out.epoch).discoverMarkets env out
  let fetched := Trader.fetchMarketDetails env out (listed.allEntries out) listed
  let synced := fetched.syncPositions out
  let built : Trader :=
    { synced with ladders := Ladders.build (out.hash.enumerate synced.activeTickers.keys) }
  have starts : AllInRange listed := fun ticker ts known => by
    rw [show listed.state.tickers = ∅ from rfl, Finmap.lookup_empty] at known
    cases known
  have fetches : Keeps listed fetched :=
    run_related Keeps.refl (fun _ _ _ => .trans) (keeps_fetchDetails env out) listed
      (listed.allEntries out)
  have builds : Keeps synced built := .of_tickers rfl
  have snapshots : Keeps built (Trader.startup env cfg out) :=
    run_related Keeps.refl (fun _ _ _ => .trans) (keeps_fetchSnapshot out) built
      (built.allEntries out)
  exact snapshots (builds (keeps_syncPositions out fetched (fetches starts)))

/-- In every run from startup, whatever is sent: a book message that makes a market observable shows
    the policy features that the clip leaves as they are, the mid, its changes and the account's own
    apart. -/
theorem observations_in_range (env : Env) (cfg : Config) (out : Outside) (moves : List Move) :
    Throughout (Trader.move env) (fun tr => ∀ ticker category msg nowS nowMono obs,
      let ts := (foldedIn ticker category msg tr).state.tickerD ticker category
      (buildObservation ts tr.cfg.mm nowS nowMono).2 = some obs →
        Seen tr.cfg.mm (buildObservation ts tr.cfg.mm nowS nowMono).1.recentTrades obs)
      (Trader.startup env cfg out) moves := by
  have kept : Throughout (Trader.move env) AllInRange (Trader.startup env cfg out) moves :=
    throughout_of_step (fun tr m ranges => keeps_move env tr m ranges) (allInRange_startup env cfg out)
  refine kept.imp fun tr ranges ticker category msg nowS nowMono obs shown => ?_
  exact seen_buildObservation ((keeps_foldedIn tr ticker category msg ranges).tickerD ticker category)
    shown

end KalshiMm.Verified.Observations
