import Mathlib.Tactic.Linarith
import Mathlib.Tactic.NormNum
import KalshiMm.Model.Engine

/-!
# Passive and legal quotes

The quotes of a plan are followed from the model's prices to the cents that are sent.  Up to the
last step they stay on the millidollar grid, where the intermediate roundings are exact; the
last one moves a penny-tick price by at most half a cent, which the safety layers leave room for.
-/

namespace KalshiMm.Verified.PassiveQuotes

open KalshiMm.Lib KalshiMm.Model

/-! ## The grids of the market -/

/-- Prices the exchange knows: whole millidollars. -/
abbrev OnMills (x : ℚ) : Prop := OnGrid 1000 x

theorem onMills_toDollars (md : ℕ) : OnMills (toDollars md) :=
  ⟨md, by rw [toDollars, Int.cast_natCast, div_mul_cancel₀ _ (by norm_num)]⟩

theorem onMills_clamp {x lo hi : ℚ} (grid : OnMills x) (gridLo : OnMills lo) (gridHi : OnMills hi) :
    OnMills (clamp x lo hi) := gridLo.max (gridHi.min grid)

theorem le_clamp (x lo hi : ℚ) : lo ≤ clamp x lo hi := le_max_left _ _

theorem clamp_le {x lo hi : ℚ} (ordered : lo ≤ hi) : clamp x lo hi ≤ hi :=
  max_le ordered (min_le_left _ _)

def LegalTick (tick : ℚ) : Prop := tick = 1 / 100 ∨ tick = 1 / 1000

theorem LegalTick.onMills {tick : ℚ} (legal : LegalTick tick) : OnMills tick := by
  obtain rfl | rfl := legal
  · exact ⟨10, by norm_num⟩
  · exact ⟨1, by norm_num⟩

theorem onMills_roundDp (x : ℚ) (tick : ℚ) :
    OnMills (roundDp x (if supportsSubpenny tick then 3 else 2)) := by
  unfold roundDp
  split_ifs
  · have grid := OnGrid.roundTo roundTiesEven (show (1000 : ℚ) ≠ 0 by norm_num) x
    norm_num at grid ⊢
    exact grid
  · have grid := (OnGrid.roundTo roundTiesEven (show (100 : ℚ) ≠ 0 by norm_num) x).finer 10
    norm_num at grid ⊢
    exact grid

/-- The model's quotes are whole millidollars between one cent and ninety-nine. -/
theorem modelQuotes_legal (action : Action) (fvShift mid tick : ℚ) (subpennyEnabled : Bool) :
    let quotes := modelQuotes action fvShift mid tick subpennyEnabled
    OnMills quotes.1 ∧ OnMills quotes.2 ∧ 1 / 100 ≤ quotes.1 ∧ quotes.2 ≤ 99 / 100 := by
  have low : OnMills (1 / 100) := ⟨10, by norm_num⟩
  have high : OnMills (99 / 100) := ⟨990, by norm_num⟩
  refine ⟨?_, ?_, le_clamp _ _ _, clamp_le (by norm_num)⟩
  · exact onMills_clamp (onMills_roundDp _ _) low high
  · exact onMills_clamp (onMills_roundDp _ _) low high

/-! ## The touch -/

theorem round4_of_onMills {x : ℚ} (grid : OnMills x) : round4 x = x := by
  have fine := grid.finer 10
  norm_num at fine
  exact roundTo_of_grid roundHalfAway_isNearest (by norm_num) fine

/-- Clamped quotes stay on the grid, one tick inside the opposite touch, and do not cross. -/
theorem clampQuotes_some {bid ask bestBid bestAsk tick : ℚ} {quotes : ℚ × ℚ}
    (gridBid : OnMills bid) (gridAsk : OnMills ask) (gridBestBid : OnMills bestBid)
    (gridBestAsk : OnMills bestAsk) (gridTick : OnMills tick)
    (clamped : clampQuotes bid ask bestBid bestAsk tick = some quotes) :
    quotes = (min bid (bestAsk - tick), max ask (bestBid + tick)) ∧ OnMills quotes.1 ∧
      OnMills quotes.2 ∧ quotes.1 < quotes.2 := by
  have gridLow : OnMills (min bid (bestAsk - tick)) := gridBid.min (gridBestAsk.sub gridTick)
  have gridHigh : OnMills (max ask (bestBid + tick)) := gridAsk.max (gridBestBid.add gridTick)
  -- on the grid the rounding of the clamp does nothing
  simp only [clampQuotes, round4_of_onMills gridLow, round4_of_onMills gridHigh] at clamped
  split at clamped
  · cases clamped
  next uncrossed =>
    cases clamped
    exact ⟨rfl, gridLow, gridHigh, lt_of_not_ge uncrossed⟩

/-! ## The edge -/

theorem ceilCentFee_nonneg {rate contracts price : ℚ} (rateNonneg : 0 ≤ rate)
    (contractsNonneg : 0 ≤ contracts) (low : 0 ≤ price) (high : price ≤ 1) :
    0 ≤ ceilCentFee rate contracts price := by
  have raw : 0 ≤ rate * contracts * price * (1 - price) * 100 := by
    have : 0 ≤ 1 - price := by linarith
    positivity
  have ceiled : (0 : ℚ) ≤ ⌈rate * contracts * price * (1 - price) * 100⌉ := by
    exact_mod_cast Int.ceil_nonneg raw
  unfold ceilCentFee
  positivity

theorem wider_of_edgeOk {bid ask feeRate minEdge : ℚ} (gridBid : OnMills bid)
    (gridAsk : OnMills ask) (bidNonneg : 0 ≤ bid) (bidLe : bid ≤ 1) (askNonneg : 0 ≤ ask)
    (askLe : ask ≤ 1) (feeNonneg : 0 ≤ feeRate) (edge : 1 / 100 ≤ minEdge)
    (passed : quoteEdgeOk bid ask feeRate 1 minEdge = true) : 1 / 100 < ask - bid := by
  -- the check compares values rounded to six decimals, and the spread is one already
  have gridSpread : OnGrid 1000000 (ask - bid) := by
    have fine := (gridAsk.sub gridBid).finer 1000
    norm_num at fine
    exact fine
  have spread : round6 (ask - bid) = ask - bid :=
    roundTo_of_grid roundHalfAway_isNearest (by norm_num) gridSpread
  have feeBuy := ceilCentFee_nonneg feeNonneg zero_le_one bidNonneg bidLe
  have feeSell := ceilCentFee_nonneg feeNonneg zero_le_one askNonneg askLe
  have required : 1 / 100 ≤ round6 (ceilCentFee feeRate 1 bid + ceilCentFee feeRate 1 ask + minEdge) :=
    le_roundTo roundHalfAway_isNearest (by norm_num) ⟨10000, by norm_num⟩ (by linarith)
  simp only [quoteEdgeOk, Int.cast_one, mul_one, spread, decide_eq_true_eq] at passed
  exact lt_of_le_of_lt required passed

theorem mill_above_cent {x : ℚ} (grid : OnMills x) (wide : 1 / 100 < x) : 11 / 1000 ≤ x := by
  obtain ⟨n, grid⟩ := grid
  -- more than ten whole mills are eleven
  have scaled : (10 : ℚ) < n := by linarith
  have : 11 ≤ n := by exact_mod_cast scaled
  have : (11 : ℚ) ≤ n := by exact_mod_cast this
  linarith

/-! ## Dollars to cents -/

/-- Sub-penny prices are sent as they are, penny-tick prices within half a cent. -/
theorem toCents_close (tick : ℚ) {dollars : ℚ} (grid : OnMills dollars) :
    |dollars * 100 - toCents tick dollars| ≤ if supportsSubpenny tick then 0 else 1 / 2 := by
  unfold toCents
  split_ifs
  · have exact_ : roundDp (dollars * 100) 1 = dollars * 100 := by
      refine roundTo_of_grid roundTiesEven_isNearest (by norm_num) (OnGrid.scaled ?_)
      norm_num
      exact grid
    rw [exact_, sub_self, abs_zero]
  · exact roundHalfAway_isNearest _

theorem le_toCents {tick dollars : ℚ} (low : 1 / 100 ≤ dollars) :
    1 ≤ toCents tick dollars := by
  unfold toCents
  split_ifs
  · exact le_roundTo roundTiesEven_isNearest (by norm_num) ⟨10, by norm_num⟩ (by linarith)
  · exact_mod_cast roundHalfAway_isNearest.le_of_le (n := 1) (by push_cast; linarith)

theorem toCents_le {tick dollars : ℚ} (grid : OnMills dollars) (high : dollars ≤ 99 / 100) :
    toCents tick dollars ≤ 99 := by
  have close := abs_le.mp (toCents_close tick grid)
  unfold toCents at close ⊢
  split_ifs at close ⊢
  · linarith [close.1]
  · exact_mod_cast roundHalfAway_isNearest.ge_of_ge (n := 99) (by push_cast; linarith)

theorem toCents_lt_toCents {tick bid ask : ℚ} (gridBid : OnMills bid) (gridAsk : OnMills ask)
    (wide : 11 / 1000 ≤ ask - bid) : toCents tick bid < toCents tick ask := by
  have closeBid := abs_le.mp (toCents_close tick gridBid)
  have closeAsk := abs_le.mp (toCents_close tick gridAsk)
  -- two half cents of rounding do not close eleven mills
  split_ifs at closeBid closeAsk
  · linarith [closeBid.1, closeAsk.2]
  · linarith [closeBid.1, closeAsk.2]

/-- A bid a tick below a price is below it in cents, too. -/
theorem toCents_lt {tick bid bound : ℚ} (legal : LegalTick tick) (grid : OnMills bid)
    (inside : bid ≤ bound - tick) : toCents tick bid / 100 < bound := by
  -- half a cent of rounding stays inside a penny tick
  have close := (abs_le.mp (toCents_close tick grid)).1
  obtain rfl | rfl := legal
  · norm_num [supportsSubpenny] at close
    linarith
  · norm_num [supportsSubpenny] at close
    linarith

theorem lt_toCents {tick ask bound : ℚ} (legal : LegalTick tick) (grid : OnMills ask)
    (inside : bound + tick ≤ ask) : bound < toCents tick ask / 100 := by
  have close := (abs_le.mp (toCents_close tick grid)).2
  obtain rfl | rfl := legal
  · norm_num [supportsSubpenny] at close
    linarith
  · norm_num [supportsSubpenny] at close
    linarith

/-! ## What a plan went through -/

theorem touch_of_isValid {book : Book} {bestBid bestAsk : ℚ} (valid : book.isValid = true)
    (hasBid : book.bestBid = some bestBid) (hasAsk : book.bestAsk = some bestAsk) :
    OnMills bestBid ∧ OnMills bestAsk ∧ bestBid < bestAsk := by
  obtain ⟨bid, ask, bidMd, askMd, uncrossed⟩ := Book.isValid_iff.mp valid
  simp only [Book.bestBid, bidMd, Option.map_some, Option.some.injEq] at hasBid
  simp only [Book.bestAsk, askMd, Option.map_some, Option.some.injEq] at hasAsk
  subst hasBid hasAsk
  refine ⟨onMills_toDollars bid, onMills_toDollars ask, ?_⟩
  have : (bid : ℚ) < ask := by exact_mod_cast uncrossed
  unfold toDollars
  linarith

/-- The prices of a plan: the model's quotes, clamped a tick inside the touch, past band and fee
    gate. -/
structure PricedAt (action : Action) (fvShift : ℚ) (ts : TickerState) (mm : MmParams)
    (bestBid bestAsk : ℚ) (quotes : ℚ × ℚ) : Prop where
  valid : ts.book.isValid = true
  hasBid : ts.book.bestBid = some bestBid
  hasAsk : ts.book.bestAsk = some bestAsk
  band : mm.quoteBandLo ≤ (bestBid + bestAsk) / 2 ∧ (bestBid + bestAsk) / 2 ≤ mm.quoteBandHi
  prices : quotes =
    (min (modelQuotes action fvShift ((bestBid + bestAsk) / 2) ts.tick mm.subpennyEnabled).1
        (bestAsk - ts.tick),
      max (modelQuotes action fvShift ((bestBid + bestAsk) / 2) ts.tick mm.subpennyEnabled).2
        (bestBid + ts.tick))
  gridBid : OnMills quotes.1
  gridAsk : OnMills quotes.2
  uncrossed : quotes.1 < quotes.2
  edge : quoteEdgeOk quotes.1 quotes.2 mm.makerFeeRate 1 mm.minQuoteEdge = true

theorem pricedAt_of_planQuotes {action : Action} {fvShift : ℚ} {ts : TickerState} {mm : MmParams}
    {maxInventory : ℤ} {openOrderCount : ℕ} {balanceBackoffUntil nowMono : ℚ} {plan : QuotePlan}
    (legal : LegalTick ts.tick)
    (planned : (planQuotes action fvShift ts mm maxInventory openOrderCount balanceBackoffUntil
      nowMono).2 = some plan) :
    ∃ bestBid bestAsk quotes, PricedAt action fvShift ts mm bestBid bestAsk quotes ∧
      plan = sizedPlan { ts with lastQuoteTime := nowMono } mm maxInventory quotes.1 quotes.2 := by
  obtain ⟨bestBid, bestAsk, quotes, valid, hasBid, hasAsk, bandLo, bandHi, _, clamped, edge, _,
    made⟩ := decideQuotes_some (planQuotes_some planned)
  obtain ⟨touchBid, touchAsk, _⟩ := touch_of_isValid valid hasBid hasAsk
  obtain ⟨gridModelBid, gridModelAsk, _⟩ :=
    modelQuotes_legal action fvShift ((bestBid + bestAsk) / 2) ts.tick mm.subpennyEnabled
  obtain ⟨prices, gridBid, gridAsk, uncrossed⟩ :=
    clampQuotes_some gridModelBid gridModelAsk touchBid touchAsk legal.onMills clamped
  exact ⟨bestBid, bestAsk, quotes,
    ⟨valid, hasBid, hasAsk, ⟨bandLo, bandHi⟩, prices, gridBid, gridAsk, uncrossed, edge⟩, made⟩

/-! ## The quotes that are sent -/

/-- The parameters a deployment may choose. -/
structure SoundParams (mm : MmParams) : Prop where
  bandLo : 2 / 100 ≤ mm.quoteBandLo
  ordered : mm.quoteBandLo ≤ mm.quoteBandHi
  bandHi : mm.quoteBandHi ≤ 98 / 100
  edge : 1 / 100 ≤ mm.minQuoteEdge
  fee : 0 ≤ mm.makerFeeRate

/-- Prices that passed the safety layers are passive and legal in the cents they are sent in. -/
theorem cents_passive {bid ask bestBid bestAsk tick : ℚ} (legal : LegalTick tick)
    (gridBid : OnMills bid) (gridAsk : OnMills ask) (bidLow : 1 / 100 ≤ bid)
    (askHigh : ask ≤ 99 / 100) (wide : 1 / 100 < ask - bid) (bidInside : bid ≤ bestAsk - tick)
    (askInside : bestBid + tick ≤ ask) :
    1 ≤ toCents tick bid ∧ toCents tick bid < toCents tick ask ∧ toCents tick ask ≤ 99 ∧
      toCents tick bid / 100 < bestAsk ∧ bestBid < toCents tick ask / 100 :=
  ⟨le_toCents bidLow, toCents_lt_toCents gridBid gridAsk (mill_above_cent (gridAsk.sub gridBid) wide),
    toCents_le gridAsk askHigh, toCents_lt legal gridBid bidInside,
    lt_toCents legal gridAsk askInside⟩

/-- Every plan quotes passively and legally in the cents it sends. -/
theorem planQuotes_passive {action : Action} {fvShift : ℚ} {ts ts' : TickerState} {mm : MmParams}
    {maxInventory : ℤ} {openOrderCount : ℕ} {balanceBackoffUntil nowMono : ℚ} {plan : QuotePlan}
    (legal : LegalTick ts.tick) (params : SoundParams mm)
    (planned : planQuotes action fvShift ts mm maxInventory openOrderCount balanceBackoffUntil
      nowMono = (ts', some plan)) :
    ∃ bestBid bestAsk, ts.book.bestBid = some bestBid ∧ ts.book.bestAsk = some bestAsk ∧
      1 ≤ plan.bidCents ∧ plan.bidCents < plan.askCents ∧ plan.askCents ≤ 99 ∧
      plan.bidCents / 100 < bestAsk ∧ bestBid < plan.askCents / 100 := by
  obtain ⟨bestBid, bestAsk, quotes, priced, rfl⟩ :=
    pricedAt_of_planQuotes legal (congrArg Prod.snd planned)
  obtain ⟨_, _, uncrossed⟩ := touch_of_isValid priced.valid priced.hasBid priced.hasAsk
  obtain ⟨_, _, modelLow, modelHigh⟩ :=
    modelQuotes_legal action fvShift ((bestBid + bestAsk) / 2) ts.tick mm.subpennyEnabled
  obtain ⟨bandLo, bandHi⟩ := priced.band
  have crossing := priced.uncrossed
  -- the band keeps the touch a tick away from the legal range's ends
  have tickSmall : ts.tick ≤ 1 / 100 := by
    obtain tick | tick := legal <;> norm_num [tick]
  have bestAskHigh : 2 / 100 < bestAsk := by linarith [params.bandLo]
  have bestBidLow : bestBid < 98 / 100 := by linarith [params.bandHi]
  have bidLow : 1 / 100 ≤ quotes.1 := by
    rw [priced.prices]
    exact le_min modelLow (by linarith)
  have askHigh : quotes.2 ≤ 99 / 100 := by
    rw [priced.prices]
    exact max_le modelHigh (by linarith)
  have bidInside : quotes.1 ≤ bestAsk - ts.tick := by
    rw [priced.prices]
    exact min_le_right _ _
  have askInside : bestBid + ts.tick ≤ quotes.2 := by
    rw [priced.prices]
    exact le_max_right _ _
  have wide : 1 / 100 < quotes.2 - quotes.1 :=
    wider_of_edgeOk priced.gridBid priced.gridAsk (by linarith) (by linarith) (by linarith) (by linarith)
      params.fee params.edge priced.edge
  exact ⟨bestBid, bestAsk, priced.hasBid, priced.hasAsk, cents_passive legal priced.gridBid
    priced.gridAsk bidLow askHigh wide bidInside askInside⟩

theorem planQuotes_passive_penny :
    let ts := { TickerState.new "KXBTCD" with
      book := { yes := Finmap.singleton 400 10, no := Finmap.singleton 500 10 } }
    ∃ plan, (planQuotes ⟨-9 / 10, 0⟩ 0 ts {} 5 0 0 10).2 = some plan ∧ 1 ≤ plan.bidCents ∧
      plan.bidCents < plan.askCents ∧ plan.askCents ≤ 99 := by
  intro ts
  have quotes : (planQuotes ⟨-9 / 10, 0⟩ 0 ts {} 5 0 0 10).2.isSome = true := by decide +kernel
  obtain ⟨plan, planned⟩ := Option.isSome_iff_exists.mp quotes
  have params : SoundParams {} := by constructor <;> norm_num
  obtain ⟨_, _, _, _, low, uncrossed, high, _⟩ :=
    planQuotes_passive (Or.inl rfl) params (Prod.ext rfl planned)
  exact ⟨plan, planned, low, uncrossed, high⟩

end KalshiMm.Verified.PassiveQuotes
