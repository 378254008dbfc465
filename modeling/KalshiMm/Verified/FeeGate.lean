import KalshiMm.Verified.PassiveQuotes

/-!
# The fee gate at every size

The gate compares the spread with the fees of one contract on each side.  On a book that keeps to
its tick the prices sent are the prices gated, and a fill of many contracts costs no more than as
many fills of one, so what the gate grants one contract it grants every contract of a round trip,
however the fills split it.
-/

namespace KalshiMm.Verified.FeeGate

open KalshiMm.Lib KalshiMm.Model KalshiMm.Verified.PassiveQuotes

/-- Every level of the book is a multiple of the tick. -/
def OnTick (tick : ℚ) (book : Book) : Prop :=
  ∀ md, md ∈ book.yes.keys ∨ md ∈ book.no.keys → ∃ n : ℤ, toDollars md = n * tick

/-- The fees of a list of fills at one price. -/
def feesOf (rate price : ℚ) (fills : List ℤ) : ℚ := (fills.map fun n => fillFee rate n price).sum

/-! ## Splits -/

theorem fillFee_le {n : ℤ} (nonneg : 0 ≤ n) (rate price : ℚ) :
    fillFee rate n price ≤ n * fillFee rate 1 price := by
  have each := Int.le_ceil (rate * (1 : ℤ) * price * (1 - price) * 100)
  have scaled : rate * n * price * (1 - price) * 100 ≤
      ((n * ⌈rate * (1 : ℤ) * price * (1 - price) * 100⌉ : ℤ) : ℚ) := by
    push_cast at each ⊢
    calc rate * n * price * (1 - price) * 100 = n * (rate * 1 * price * (1 - price) * 100) := by ring
      _ ≤ _ := mul_le_mul_of_nonneg_left each (by exact_mod_cast nonneg)
  have ceiled : ((⌈rate * n * price * (1 - price) * 100⌉ : ℤ) : ℚ) ≤
      ((n * ⌈rate * (1 : ℤ) * price * (1 - price) * 100⌉ : ℤ) : ℚ) := by
    exact_mod_cast Int.ceil_le.mpr scaled
  unfold fillFee ceilCentFee
  rw [← mul_div_assoc]
  exact div_le_div_of_nonneg_right (by push_cast at ceiled ⊢; exact ceiled) (by norm_num)

theorem feesOf_le {fills : List ℤ} (nonneg : ∀ n ∈ fills, 0 ≤ n) (rate price : ℚ) :
    feesOf rate price fills ≤ fills.sum * fillFee rate 1 price := by
  induction fills with
  | nil => simp [feesOf]
  | cons n fills inductionHypothesis =>
    obtain ⟨head, tail⟩ := List.forall_mem_cons.mp nonneg
    have first := fillFee_le head rate price
    have rest := inductionHypothesis tail
    unfold feesOf at rest ⊢
    rw [List.map_cons, List.sum_cons, List.sum_cons, Int.cast_add]
    linarith

/-! ## The prices sent are the prices gated -/

/-- Multiples of a legal tick are the grid its cents are sent on. -/
theorem onGrid_of_multiple {tick x : ℚ} (legal : LegalTick tick) {n : ℤ} (multiple : x = n * tick) :
    OnGrid (1 / tick) x := by
  refine ⟨n, ?_⟩
  obtain rfl | rfl := legal <;> rw [multiple] <;> ring

theorem onGrid_cents {tick x : ℚ} (legal : LegalTick tick) (cents : ℤ) (whole : x = cents / 100) :
    OnGrid (1 / tick) x := by
  subst whole
  obtain rfl | rfl := legal
  · exact ⟨cents, by ring⟩
  · exact ⟨cents * 10, by push_cast; ring⟩

theorem onGrid_roundDp {tick : ℚ} (legal : LegalTick tick) (x : ℚ) :
    OnGrid (1 / tick) (roundDp x (if supportsSubpenny tick then 3 else 2)) := by
  obtain rfl | rfl := legal
  · have grid := OnGrid.roundTo roundTiesEven (show (100 : ℚ) ≠ 0 by norm_num) x
    norm_num [supportsSubpenny, roundDp] at grid ⊢
    exact grid
  · have grid := OnGrid.roundTo roundTiesEven (show (1000 : ℚ) ≠ 0 by norm_num) x
    norm_num [supportsSubpenny, roundDp] at grid ⊢
    exact grid

theorem toCents_of_onGrid {tick dollars : ℚ} (legal : LegalTick tick)
    (grid : OnGrid (1 / tick) dollars) : toCents tick dollars / 100 = dollars := by
  obtain rfl | rfl := legal
  · obtain ⟨n, grid⟩ := grid
    have whole : dollars * 100 = n := by rw [← grid]; ring
    norm_num [toCents, supportsSubpenny]
    rw [whole, roundHalfAway_isNearest.intCast, ← whole]
    ring
  · have close := toCents_close (1 / 1000) (show OnMills dollars by
      obtain ⟨n, grid⟩ := grid
      exact ⟨n, by rw [← grid]; ring⟩)
    norm_num [supportsSubpenny] at close
    linarith

theorem modelQuotes_onGrid {tick : ℚ} (legal : LegalTick tick) (action : Action)
    (fvShift mid : ℚ) (subpennyEnabled : Bool) :
    OnGrid (1 / tick) (modelQuotes action fvShift mid tick subpennyEnabled).1 ∧
      OnGrid (1 / tick) (modelQuotes action fvShift mid tick subpennyEnabled).2 := by
  have low : OnGrid (1 / tick) (1 / 100) := onGrid_cents legal 1 (by norm_num)
  have high : OnGrid (1 / tick) (99 / 100) := onGrid_cents legal 99 (by norm_num)
  exact ⟨low.max (high.min (onGrid_roundDp legal _)), low.max (high.min (onGrid_roundDp legal _))⟩

theorem lastKey_mem {levels : Levels} {md : ℕ} (best : levels.lastKey = some md) :
    md ∈ levels.keys := by
  unfold Levels.lastKey at best
  split_ifs at best with nonempty
  cases best
  exact levels.keys.max'_mem nonempty

/-- The touch of a book that keeps to its tick is on the tick's grid. -/
theorem touch_onGrid {tick bestBid bestAsk : ℚ} {book : Book} (legal : LegalTick tick)
    (onTick : OnTick tick book) (valid : book.isValid = true)
    (hasBid : book.bestBid = some bestBid) (hasAsk : book.bestAsk = some bestAsk) :
    OnGrid (1 / tick) bestBid ∧ OnGrid (1 / tick) bestAsk := by
  obtain ⟨bid, ask, bidMd, askMd, uncrossed⟩ := Book.isValid_iff.mp valid
  simp only [Book.bestBid, bidMd, Option.map_some, Option.some.injEq] at hasBid
  simp only [Book.bestAsk, askMd, Option.map_some, Option.some.injEq] at hasAsk
  subst hasBid hasAsk
  obtain ⟨n, multiple⟩ := onTick bid (Or.inl (lastKey_mem bidMd))
  refine ⟨onGrid_of_multiple legal multiple, ?_⟩
  obtain ⟨noBid, noBidMd, rfl⟩ := Option.map_eq_some_iff.mp askMd
  obtain ⟨m, multiple'⟩ := onTick noBid (Or.inr (lastKey_mem noBidMd))
  -- a valid book's best NO bid is below a dollar, so the subtraction is exact
  have below : noBid ≤ oneDollarMd := by
    have := Nat.sub_pos_iff_lt.mp (Nat.zero_lt_of_lt uncrossed)
    exact this.le
  have complement : toDollars (oneDollarMd - noBid) = 1 - toDollars noBid := by
    rw [toDollars, toDollars, Nat.cast_sub below]
    norm_num [oneDollarMd]
    ring
  rw [complement]
  exact (onGrid_cents legal 100 (by norm_num)).sub (onGrid_of_multiple legal multiple')

/-! ## The gate -/

theorem lt_of_round6_lt {x y : ℚ} (grid : OnGrid 1000000 y) (less : round6 x < round6 y) : x < y := by
  by_contra notLess
  have kept : y ≤ round6 x := le_roundTo roundHalfAway_isNearest (by norm_num) grid (not_lt.mp notLess)
  have exact_ : round6 y = y := roundTo_of_grid roundHalfAway_isNearest (by norm_num) grid
  rw [exact_] at less
  exact absurd less kept.not_gt

theorem spread_of_edgeOk {bid ask feeRate minEdge : ℚ} (gridBid : OnMills bid)
    (gridAsk : OnMills ask) (passed : quoteEdgeOk bid ask feeRate 1 minEdge = true) :
    fillFee feeRate 1 bid + fillFee feeRate 1 ask + minEdge < ask - bid := by
  have gridSpread : OnGrid 1000000 (ask - bid) := by
    have fine := (gridAsk.sub gridBid).finer 1000
    norm_num at fine
    exact fine
  simp only [quoteEdgeOk, Int.cast_one, mul_one, decide_eq_true_eq] at passed
  have gated := lt_of_round6_lt gridSpread passed
  simpa [fillFee] using gated

/-- A round trip at the prices sent earns more than the minimum edge on each contract, at every
    size and however its fills split it. -/
theorem planQuotes_roundTrip {action : Action} {fvShift : ℚ} {ts ts' : TickerState} {mm : MmParams}
    {maxInventory : ℤ} {openOrderCount : ℕ} {balanceBackoffUntil nowMono : ℚ} {plan : QuotePlan}
    (legal : LegalTick ts.tick) (onTick : OnTick ts.tick ts.book)
    (planned : planQuotes action fvShift ts mm maxInventory openOrderCount balanceBackoffUntil
      nowMono = (ts', some plan))
    {k : ℤ} (traded : 1 ≤ k) {bidFills askFills : List ℤ} (bidSizes : ∀ n ∈ bidFills, 1 ≤ n)
    (askSizes : ∀ n ∈ askFills, 1 ≤ n) (bought : bidFills.sum = k) (sold : askFills.sum = k) :
    k * mm.minQuoteEdge < k * (plan.askCents / 100 - plan.bidCents / 100) -
      (feesOf mm.makerFeeRate (plan.bidCents / 100) bidFills +
        feesOf mm.makerFeeRate (plan.askCents / 100) askFills) := by
  obtain ⟨bestBid, bestAsk, quotes, priced, rfl⟩ :=
    pricedAt_of_planQuotes legal (congrArg Prod.snd planned)
  -- one contract each way, at the prices gated
  have single := spread_of_edgeOk priced.gridBid priced.gridAsk priced.edge
  -- the prices sent are these
  obtain ⟨tickBid, tickAsk⟩ := touch_onGrid legal onTick priced.valid priced.hasBid priced.hasAsk
  obtain ⟨tickModelBid, tickModelAsk⟩ :=
    modelQuotes_onGrid legal action fvShift ((bestBid + bestAsk) / 2) mm.subpennyEnabled
  have oneTick : OnGrid (1 / ts.tick) ts.tick := onGrid_of_multiple legal (n := 1) (by norm_num)
  have sentBid : toCents ts.tick quotes.1 / 100 = quotes.1 := by
    apply toCents_of_onGrid legal
    rw [priced.prices]
    exact tickModelBid.min (tickAsk.sub oneTick)
  have sentAsk : toCents ts.tick quotes.2 / 100 = quotes.2 := by
    apply toCents_of_onGrid legal
    rw [priced.prices]
    exact tickModelAsk.max (tickBid.add oneTick)
  simp only [sizedPlan, sentBid, sentAsk]
  -- the fills cost no more than contract by contract
  have feesBid := feesOf_le (fun n member => zero_le_one.trans (bidSizes n member))
    mm.makerFeeRate quotes.1
  have feesAsk := feesOf_le (fun n member => zero_le_one.trans (askSizes n member))
    mm.makerFeeRate quotes.2
  rw [bought] at feesBid
  rw [sold] at feesAsk
  have scaled := mul_lt_mul_of_pos_left single (show (0 : ℚ) < k by exact_mod_cast traded)
  linarith

theorem planQuotes_roundTrip_three :
    let ts := { TickerState.new "KXBTCD" with
      book := { yes := Finmap.singleton 400 10, no := Finmap.singleton 500 10 } }
    ∃ plan, (planQuotes ⟨-9 / 10, 0⟩ 0 ts {} 5 0 0 10).2 = some plan ∧
      3 * (1 / 100) < 3 * (plan.askCents / 100 - plan.bidCents / 100) -
        (feesOf (175 / 10000) (plan.bidCents / 100) [1, 2] +
          feesOf (175 / 10000) (plan.askCents / 100) [3]) := by
  intro ts
  have quotes : (planQuotes ⟨-9 / 10, 0⟩ 0 ts {} 5 0 0 10).2.isSome = true := by decide +kernel
  obtain ⟨plan, planned⟩ := Option.isSome_iff_exists.mp quotes
  have onTick : OnTick ts.tick ts.book := by
    rintro md (bid | noBid)
    · obtain rfl : md = 400 := by simpa [ts] using bid
      exact ⟨40, by norm_num [toDollars, ts, TickerState.new]⟩
    · obtain rfl : md = 500 := by simpa [ts] using noBid
      exact ⟨50, by norm_num [toDollars, ts, TickerState.new]⟩
  have bidSizes : ∀ n ∈ [(1 : ℤ), 2], 1 ≤ n := by simp
  have askSizes : ∀ n ∈ [(3 : ℤ)], 1 ≤ n := by simp
  have earned := planQuotes_roundTrip (Or.inl rfl) onTick (Prod.ext rfl planned) (k := 3)
    (by norm_num) bidSizes askSizes rfl rfl
  exact ⟨plan, planned, by exact_mod_cast earned⟩

end KalshiMm.Verified.FeeGate
