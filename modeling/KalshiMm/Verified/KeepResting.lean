import KalshiMm.Verified.RestingCaps

/-!
# Planning again with nothing changed

A plan that was carried out is kept only where both of its sides rest.  With one of them held back
by the inventory cap its order id stays empty, and the next cycle cancels the other side and places
it again at the same price.
-/

namespace KalshiMm.Verified.KeepResting

open KalshiMm.Lib KalshiMm.Model RestingCaps

/-- The exchange reports an order id for every side that the plan allows. -/
structure PlacesAllowed (api : OrderApi) (ticker : String) (plan : QuotePlan) : Prop where
  bid : plan.placeBid = true → (orderIdOf (api.placeLimitOrder
    (quoteRequest ticker .buy plan.bidCents plan.bidSize))).isSome
  ask : plan.placeAsk = true → (orderIdOf (api.placeLimitOrder
    (quoteRequest ticker .sell plan.askCents plan.askSize))).isSome

/-- The inventory cap has room for a bid and for an ask, of the sizes that go with the prices. -/
def RoomForBoth (ts : TickerState) (mm : MmParams) (maxInventory : ℤ) (quotes : ℚ × ℚ) : Prop :=
  |ts.position + bidSize mm quotes.1| ≤ maxInventory ∧
    |ts.position - askSize mm quotes.2| ≤ maxInventory

/-! ## What the executor writes back -/

theorem sendQuoteSide_placed {api : OrderApi} {allowed : Bool} {request : OrderRequest}
    (placed : allowed = true → (orderIdOf (api.placeLimitOrder request)).isSome) :
    (restingId (sendQuoteSide api allowed request).1).isSome = allowed ∧
      (sendQuoteSide api allowed request).1 ≠ some .insufficientBalance := by
  cases allowed with
  | false => exact ⟨rfl, nofun⟩
  | true =>
    have reported := placed rfl
    unfold orderIdOf at reported
    simp only [sendQuoteSide, if_true, sendOrder, sendResult]
    split at reported
    next resp replied =>
      exact ⟨reported, nofun⟩
    next replied => cases reported

/-- Sides that are placed do not pause the quoting. -/
theorem backoff_applyQuotePlan {api : OrderApi} {ticker : String} {plan : QuotePlan}
    (placed : PlacesAllowed api ticker plan) (mm : MmParams) (category : String)
    (state : TraderState) (nowMono : ℚ) :
    (applyQuotePlan api mm category ticker plan state nowMono).1.balanceBackoffUntil =
      state.balanceBackoffUntil := by
  have bid := (sendQuoteSide_placed placed.bid).2
  have ask := (sendQuoteSide_placed placed.ask).2
  simp only [applyQuotePlan]
  rw [if_neg (not_or.mpr ⟨bid, ask⟩)]
  rfl

/-- Every side that the plan allows rests, and no other. -/
theorem requoted_of_placed {api : OrderApi} {ticker : String} {plan : QuotePlan}
    (placed : PlacesAllowed api ticker plan) (mm : MmParams) (category : String)
    {state : TraderState} {ts : TickerState} (known : state.tickers.lookup ticker = some ts)
    (nowMono : ℚ) :
    ∃ bidRes askRes, (applyQuotePlan api mm category ticker plan state nowMono).1.tickers.lookup
        ticker = some (requoted plan bidRes askRes ts) ∧
      (restingId bidRes).isSome = plan.placeBid ∧ (restingId askRes).isSome = plan.placeAsk := by
  refine ⟨_, _, ?_, (sendQuoteSide_placed placed.bid).1, (sendQuoteSide_placed placed.ask).1⟩
  rw [applyQuotePlan_tickers, Finmap.lookup_insert, TraderState.tickerD, known, Option.getD_some]

/-! ## The second plan -/

/-- A market that has quoted prices its quotes as before, whatever else rests. -/
theorem pricedQuotes_again {action : Action} {fvShift : ℚ} {ts ts' : TickerState} {mm : MmParams}
    {openOrderCount : ℕ} {quotes : ℚ × ℚ}
    (priced : pricedQuotes action fvShift ts mm openOrderCount = some quotes)
    (book : ts'.book = ts.book) (tick : ts'.tick = ts.tick) (quoted : ts'.everQuoted = true)
    (openOrderCount' : ℕ) : pricedQuotes action fvShift ts' mm openOrderCount' = some quotes := by
  unfold pricedQuotes at priced ⊢
  rw [book, tick, quoted]
  simp only [Option.bind_eq_bind, Option.bind_eq_some_iff, Option.guard_eq_some',
    exists_const] at priced ⊢
  obtain ⟨valid, bestBid, hasBid, bestAsk, hasAsk, band, _, rest⟩ := priced
  exact ⟨valid, bestBid, hasBid, bestAsk, hasAsk, band, by simp, rest⟩

theorem decideQuotes_priced {action : Action} {fvShift : ℚ} {ts : TickerState} {mm : MmParams}
    {maxInventory : ℤ} {openOrderCount : ℕ} {plan : QuotePlan}
    (decided : decideQuotes action fvShift ts mm maxInventory openOrderCount = some plan) :
    ∃ quotes, pricedQuotes action fvShift ts mm openOrderCount = some quotes ∧
      plan = sizedPlan ts mm maxInventory quotes.1 quotes.2 := by
  rw [decideQuotes_eq, Option.bind_eq_some_iff] at decided
  obtain ⟨quotes, priced, made⟩ := decided
  split_ifs at made
  cases made
  exact ⟨quotes, priced, rfl⟩

/-- Behind the price gates, only what rests can end a cycle. -/
theorem decideQuotes_none_iff {action : Action} {fvShift : ℚ} {ts : TickerState} {mm : MmParams}
    {maxInventory : ℤ} {openOrderCount : ℕ} {quotes : ℚ × ℚ}
    (priced : pricedQuotes action fvShift ts mm openOrderCount = some quotes) :
    decideQuotes action fvShift ts mm maxInventory openOrderCount = none ↔
      keepsResting ts quotes.1 quotes.2 = true := by
  rw [decideQuotes_eq, priced, Option.bind_some]
  split_ifs with keeps
  · exact iff_of_true rfl keeps
  · exact iff_of_false nofun keeps

/-- Two resting orders at exactly the prices wanted are kept, on any positive tick. -/
theorem keepsResting_requoted (ts : TickerState) (plan : QuotePlan) (bidRes askRes : Option SendResult) :
    keepsResting (requoted plan bidRes askRes ts) plan.quotedBid plan.quotedAsk = true ↔
      0 < ts.tick ∧ (restingId bidRes).isSome ∧ (restingId askRes).isSome := by
  have positive : (0 : ℚ) < ts.tick * (999 / 1000) ↔ 0 < ts.tick :=
    mul_pos_iff_of_pos_right (by norm_num)
  simp only [keepsResting, requoted, sub_self, abs_zero, positive, Bool.and_eq_true,
    decide_eq_true_eq]
  tauto

/-- An unthrottled cycle outside the backoff decides. -/
theorem planQuotes_of_free {action : Action} {fvShift : ℚ} {ts : TickerState} {mm : MmParams}
    {maxInventory : ℤ} {openOrderCount : ℕ} {balanceBackoffUntil nowMono : ℚ}
    (waited : ts.lastQuoteTime + 1 ≤ nowMono) (free : balanceBackoffUntil ≤ nowMono) :
    planQuotes action fvShift ts mm maxInventory openOrderCount balanceBackoffUntil nowMono =
      ({ ts with lastQuoteTime := nowMono }, decideQuotes action fvShift
        { ts with lastQuoteTime := nowMono } mm maxInventory openOrderCount) := by
  unfold planQuotes
  rw [if_neg (by linarith), if_neg (not_lt.mpr free)]

theorem free_of_planQuotes {action : Action} {fvShift : ℚ} {ts : TickerState} {mm : MmParams}
    {maxInventory : ℤ} {openOrderCount : ℕ} {balanceBackoffUntil nowMono : ℚ} {plan : QuotePlan}
    (planned : (planQuotes action fvShift ts mm maxInventory openOrderCount balanceBackoffUntil
      nowMono).2 = some plan) :
    ts.lastQuoteTime + 1 ≤ nowMono ∧ balanceBackoffUntil ≤ nowMono := by
  unfold planQuotes at planned
  split_ifs at planned with throttled backedOff
  exact ⟨by linarith, not_lt.mp backedOff⟩

/-- A plan was made and every side it allows was placed.  With nothing changed, a cycle a second
    later or more leaves the orders alone exactly if the cap has room for both sides. -/
theorem replan_none_iff {s : TraderState} {ticker category : String} {ts : TickerState}
    {action : Action} {fvShift : ℚ} {mm : MmParams} {maxInventory : ℤ} {openOrderCount : ℕ}
    {nowMono : ℚ} {plan : QuotePlan} {api : OrderApi}
    (planned : (planQuotes action fvShift ts mm maxInventory openOrderCount s.balanceBackoffUntil
      nowMono).2 = some plan)
    (placed : PlacesAllowed api ticker plan) (openOrderCount' : ℕ) {later : ℚ}
    (waited : nowMono + 1 ≤ later) :
    let planning := (planQuotes action fvShift ts mm maxInventory openOrderCount
      s.balanceBackoffUntil nowMono).1
    let quoted := (applyQuotePlan api mm category ticker plan (s.setTicker ticker planning) nowMono).1
    ∃ ts', quoted.tickers.lookup ticker = some ts' ∧
      ((planQuotes action fvShift ts' mm maxInventory openOrderCount' quoted.balanceBackoffUntil
          later).2 = none ↔
        0 < ts.tick ∧ ∃ quotes ∈ pricedQuotes action fvShift ts mm openOrderCount,
          RoomForBoth ts mm maxInventory quotes) := by
  obtain ⟨unthrottled, free⟩ := free_of_planQuotes planned
  rw [planQuotes_of_free unthrottled free] at planned ⊢
  intro planning quoted
  obtain ⟨quotes, priced, rfl⟩ := decideQuotes_priced planned
  have priced : pricedQuotes action fvShift ts mm openOrderCount = some quotes := priced
  -- what rests after the first plan
  have here : (s.setTicker ticker planning).tickers.lookup ticker = some planning :=
    Finmap.lookup_insert s.tickers
  obtain ⟨bidRes, askRes, rests, bid, ask⟩ := requoted_of_placed placed mm category here nowMono
  refine ⟨_, rests, ?_⟩
  -- the second cycle gets to the same prices
  have paused : quoted.balanceBackoffUntil ≤ later := by
    have kept : quoted.balanceBackoffUntil = s.balanceBackoffUntil :=
      backoff_applyQuotePlan placed mm category _ nowMono
    linarith
  rw [planQuotes_of_free waited paused]
  have again : pricedQuotes action fvShift { requoted (sizedPlan planning mm maxInventory quotes.1
      quotes.2) bidRes askRes planning with lastQuoteTime := later } mm openOrderCount' =
      some quotes := by
    refine pricedQuotes_again priced ?_ ?_ ?_ _
    · rfl
    · rfl
    · rfl
  have kept := keepsResting_requoted planning (sizedPlan planning mm maxInventory quotes.1 quotes.2)
    bidRes askRes
  rw [bid, ask] at kept
  have room : RoomForBoth ts mm maxInventory quotes ↔
      (sizedPlan planning mm maxInventory quotes.1 quotes.2).placeBid = true ∧
        (sizedPlan planning mm maxInventory quotes.1 quotes.2).placeAsk = true :=
    (and_congr decide_eq_true_iff decide_eq_true_iff).symm
  refine (decideQuotes_none_iff again).trans (kept.trans ?_)
  rw [priced, ← room]
  simp [planning]

/-! ## A market quoted twice -/

/-- Bid at forty cents and asked at fifty. -/
def quotable (position : ℤ) : TickerState :=
  { category := "KXBTCD", position
    book := { yes := Finmap.insert 400 10 ∅, no := Finmap.insert 500 10 ∅ } }

def exchange : OrderApi := (answering "b1" "a1" 10).api.toOrderApi

theorem placesAllowed_exchange (ticker : String) (plan : QuotePlan) :
    PlacesAllowed exchange ticker plan := ⟨fun _ => rfl, fun _ => rfl⟩

/-- What the market plans at ten seconds, and the account once that is carried out. -/
def firstCycle (position : ℤ) : TickerState × Option QuotePlan :=
  planQuotes narrow 0 (quotable position) {} 5 0 0 10

def quotedOnce (position : ℤ) (plan : QuotePlan) : TraderState :=
  (applyQuotePlan exchange {} "KXBTCD" "KXBTCD-25JUL2417-T100" plan
    ((TraderState.new 0).setTicker "KXBTCD-25JUL2417-T100" (firstCycle position).1) 10).1

theorem replan_none_of_flat :
    ∃ plan ts, (firstCycle 0).2 = some plan ∧
      (quotedOnce 0 plan).tickers.lookup "KXBTCD-25JUL2417-T100" = some ts ∧
      (planQuotes narrow 0 ts {} 5 0 (quotedOnce 0 plan).balanceBackoffUntil 11).2 = none := by
  obtain ⟨plan, planned⟩ : ∃ plan, (firstCycle 0).2 = some plan :=
    Option.isSome_iff_exists.mp (by decide +kernel)
  have priced : pricedQuotes narrow 0 (quotable 0) {} 0 = some (21 / 50, 12 / 25) := by
    decide +kernel
  have waited : (10 : ℚ) + 1 ≤ 11 := by norm_num
  have again : ∃ ts, (quotedOnce 0 plan).tickers.lookup "KXBTCD-25JUL2417-T100" = some ts ∧
      ((planQuotes narrow 0 ts {} 5 0 (quotedOnce 0 plan).balanceBackoffUntil 11).2 = none ↔ _) :=
    replan_none_iff (s := TraderState.new 0) planned (placesAllowed_exchange _ plan) 0 waited
  obtain ⟨ts, found, keeps⟩ := again
  refine ⟨plan, ts, planned, found, keeps.mpr ⟨by decide +kernel, _, priced, ?_⟩⟩
  exact ⟨by decide +kernel, by decide +kernel⟩

/-- At a long cap of five the bid is held back, and the ask at 48 cents, which has not moved, is
    cancelled and placed again. -/
theorem ask_replaced_at_the_cap :
    (firstCycle 5).2.map (fun plan => ((plan.placeBid, plan.placeAsk, plan.askCents),
      ((quotedOnce 5 plan).tickers.lookup "KXBTCD-25JUL2417-T100").bind fun ts =>
        (planQuotes narrow 0 ts {} 5 0 (quotedOnce 5 plan).balanceBackoffUntil 11).2.map
          fun plan => (plan.cancelIds, plan.placeAsk, plan.askCents))) =
      some ((false, true, 48), some (["a1"], true, 48)) ∧
    ∀ plan, PlacesAllowed exchange "KXBTCD-25JUL2417-T100" plan :=
  ⟨by decide +kernel, placesAllowed_exchange _⟩

end KalshiMm.Verified.KeepResting
