import KalshiMm.Verified.FeeGate
import KalshiMm.Verified.Handlers

/-!
# The prices sent and the prices checked

The model's quotes are snapped to the tick, and the clamp then puts a tick between a quote and the
touch on the other side, wherever that touch stands.  On a penny tick a touch between two cents
leaves the quote between two cents, and the cents that are sent are rounded after every check.
-/

namespace KalshiMm.Verified.SentPrices

open KalshiMm.Lib KalshiMm.Model KalshiMm.Verified.PassiveQuotes KalshiMm.Verified.FeeGate

/-- The cents of a plan are the prices that were clamped and gated. -/
structure SentAsChecked (plan : QuotePlan) : Prop where
  bid : plan.bidCents = 100 * plan.quotedBid
  ask : plan.askCents = 100 * plan.quotedAsk

/-- Where the clamp moves one of the model's quotes, the touch it is held against is on the tick. -/
structure ClampsOnTick (tick : ℚ) (model : ℚ × ℚ) (bestBid bestAsk : ℚ) : Prop where
  bid : bestAsk - tick < model.1 → OnGrid (1 / tick) bestAsk
  ask : model.2 < bestBid + tick → OnGrid (1 / tick) bestBid

theorem toCents_eq_iff {tick dollars : ℚ} (legal : LegalTick tick) :
    toCents tick dollars = 100 * dollars ↔ OnGrid (1 / tick) dollars := by
  constructor
  · intro sent
    obtain rfl | rfl := legal
    · -- whole cents
      refine ⟨roundHalfAway (dollars * 100), ?_⟩
      norm_num [toCents, supportsSubpenny] at sent
      norm_num
      rw [sent, mul_comm]
    · -- tenths of a cent
      have grid := OnGrid.roundTo roundTiesEven (show (10 : ℚ) ≠ 0 by norm_num) (dollars * 100)
      norm_num [toCents, supportsSubpenny, roundDp] at sent
      rw [sent] at grid
      obtain ⟨n, grid⟩ := grid
      exact ⟨n, by rw [← grid]; ring⟩
  · intro grid
    have sent := toCents_of_onGrid legal grid
    linarith

theorem sentAsChecked_sizedPlan (ts : TickerState) (legal : LegalTick ts.tick) (mm : MmParams)
    (maxInventory : ℤ) {model : ℚ × ℚ} {bestBid bestAsk : ℚ} (modelBid : OnGrid (1 / ts.tick) model.1)
    (modelAsk : OnGrid (1 / ts.tick) model.2) :
    SentAsChecked (sizedPlan ts mm maxInventory (min model.1 (bestAsk - ts.tick))
        (max model.2 (bestBid + ts.tick))) ↔ ClampsOnTick ts.tick model bestBid bestAsk := by
  have oneTick : OnGrid (1 / ts.tick) ts.tick := onGrid_of_multiple legal (n := 1) (by norm_num)
  have bid : toCents ts.tick (min model.1 (bestAsk - ts.tick)) =
      100 * min model.1 (bestAsk - ts.tick) ↔
        (bestAsk - ts.tick < model.1 → OnGrid (1 / ts.tick) bestAsk) := by
    rw [toCents_eq_iff legal, modelBid.min_iff, oneTick.sub_right_iff]
  have ask : toCents ts.tick (max model.2 (bestBid + ts.tick)) =
      100 * max model.2 (bestBid + ts.tick) ↔
        (model.2 < bestBid + ts.tick → OnGrid (1 / ts.tick) bestBid) := by
    rw [toCents_eq_iff legal, modelAsk.max_iff, oneTick.add_right_iff]
  exact ⟨fun sent => ⟨bid.mp sent.bid, ask.mp sent.ask⟩,
    fun clamps => ⟨bid.mpr clamps.bid, ask.mpr clamps.ask⟩⟩

/-- A sub-penny tick leaves no touch between two ticks. -/
theorem clampsOnTick_of_subpenny {bestBid bestAsk : ℚ} (touchBid : OnMills bestBid)
    (touchAsk : OnMills bestAsk) (model : ℚ × ℚ) :
    ClampsOnTick (1 / 1000) model bestBid bestAsk := by
  constructor
  · rw [one_div_one_div]
    exact fun _ => touchAsk
  · rw [one_div_one_div]
    exact fun _ => touchBid

theorem sentAsChecked_of_pricedAt {action : Action} {fvShift : ℚ} {ts : TickerState} {mm : MmParams}
    {bestBid bestAsk : ℚ} {quotes : ℚ × ℚ} (legal : LegalTick ts.tick)
    (priced : PricedAt action fvShift ts mm bestBid bestAsk quotes) (maxInventory : ℤ)
    (nowMono : ℚ) :
    SentAsChecked (sizedPlan { ts with lastQuoteTime := nowMono } mm maxInventory quotes.1 quotes.2) ↔
      ClampsOnTick ts.tick
        (modelQuotes action fvShift ((bestBid + bestAsk) / 2) ts.tick mm.subpennyEnabled)
        bestBid bestAsk := by
  obtain ⟨tickModelBid, tickModelAsk⟩ :=
    modelQuotes_onGrid legal action fvShift ((bestBid + bestAsk) / 2) mm.subpennyEnabled
  rw [priced.prices]
  exact sentAsChecked_sizedPlan { ts with lastQuoteTime := nowMono } legal mm maxInventory
    tickModelBid tickModelAsk

section Plans

variable {action : Action} {fvShift : ℚ} {ts : TickerState} {mm : MmParams} {maxInventory : ℤ}
  {openOrderCount : ℕ} {balanceBackoffUntil nowMono : ℚ} {plan : QuotePlan}

/-- A book that keeps to its tick is quoted at the prices that were checked. -/
theorem checked_prices_on_tick (legal : LegalTick ts.tick) (onTick : OnTick ts.tick ts.book)
    (planned : (planQuotes action fvShift ts mm maxInventory openOrderCount balanceBackoffUntil
      nowMono).2 = some plan) : SentAsChecked plan := by
  obtain ⟨bestBid, bestAsk, quotes, priced, rfl⟩ := pricedAt_of_planQuotes legal planned
  obtain ⟨tickBid, tickAsk⟩ :=
    touch_onGrid legal onTick priced.valid priced.hasBid priced.hasAsk
  refine (sentAsChecked_of_pricedAt legal priced maxInventory nowMono).mpr ?_
  exact ⟨fun _ => tickAsk, fun _ => tickBid⟩

/-- A plan is sent at the prices that were checked exactly where every touch that its quotes are
    clamped against is on the tick. -/
theorem sent_as_checked_iff (legal : LegalTick ts.tick)
    (planned : (planQuotes action fvShift ts mm maxInventory openOrderCount balanceBackoffUntil
      nowMono).2 = some plan) :
    SentAsChecked plan ↔ ∃ bestBid ∈ ts.book.bestBid, ∃ bestAsk ∈ ts.book.bestAsk,
      ClampsOnTick ts.tick
        (modelQuotes action fvShift ((bestBid + bestAsk) / 2) ts.tick mm.subpennyEnabled)
        bestBid bestAsk := by
  obtain ⟨bestBid, bestAsk, quotes, priced, rfl⟩ := pricedAt_of_planQuotes legal planned
  refine (sentAsChecked_of_pricedAt legal priced maxInventory nowMono).trans
    ⟨fun clamps => ⟨bestBid, priced.hasBid, bestAsk, priced.hasAsk, clamps⟩, ?_⟩
  rintro ⟨_, foundBid, _, foundAsk, clamps⟩
  cases priced.hasBid.symm.trans foundBid
  cases priced.hasAsk.symm.trans foundAsk
  exact clamps

end Plans

/-! ## A book with levels between two cents -/

/-- A market whose details could not be fetched, with a snapshot of its book. -/
def unfetched (yes no : ℚ) : TickerState :=
  let fetched := Trader.fetchDetails (marketEnv none) (answering "" "" 0)
    (Trader.start (marketCfg none) 0) ("KXBTCD-1", "KXBTCD")
  let ts := fetched.state.tickerD "KXBTCD-1" "KXBTCD"
  { ts with book := ts.book.loadSnapshot (snapshot yes no) }

/-- This policy quotes a cent and a half to each side. -/
def tight : Action := ⟨-49 / 50, 0⟩

/-- With 41.5 cents asked and a tick of a tenth of a cent, a bid that is clamped is sent as it is. -/
theorem sent_as_checked_subpenny :
    let ts := { unfetched (2 / 5) (117 / 200) with tick := 1 / 1000 }
    ∃ plan, (planQuotes narrow (1 / 20) ts {} 5 0 0 10).2 = some plan ∧ SentAsChecked plan := by
  intro ts
  obtain ⟨plan, planned⟩ : ∃ plan, (planQuotes narrow (1 / 20) ts {} 5 0 0 10).2 = some plan :=
    Option.isSome_iff_exists.mp (by decide +kernel)
  have hasBid : ts.book.bestBid = some (2 / 5) := by decide +kernel
  have hasAsk : ts.book.bestAsk = some (83 / 200) := by decide +kernel
  refine ⟨plan, planned,
    (sent_as_checked_iff (Or.inr rfl) planned).mpr ⟨_, hasBid, _, hasAsk, ?_⟩⟩
  exact clampsOnTick_of_subpenny ⟨400, by norm_num⟩ ⟨415, by norm_num⟩ _

/-- With the same book and the penny tick that is left when the details cannot be fetched, the
    quote of 40.5 cents is gated and 41 cents are sent, at which the gate refuses. -/
theorem sent_not_as_checked :
    (unfetched (2 / 5) (117 / 200)).tick = 1 / 100 ∧
      (planQuotes tight (7 / 400) (unfetched (2 / 5) (117 / 200)) {} 5 0 0 10).2.map
        (fun plan => ((plan.quotedBid, plan.bidCents), (plan.quotedAsk, plan.askCents),
          quoteEdgeOk (plan.bidCents / 100) (plan.askCents / 100) (175 / 10000) 1 (1 / 100))) =
        some ((81 / 200, 41), (11 / 25, 44), false) ∧
      ¬ ∀ plan ∈ (planQuotes tight (7 / 400) (unfetched (2 / 5) (117 / 200)) {} 5 0 0 10).2,
        SentAsChecked plan := by
  have sent : (planQuotes tight (7 / 400) (unfetched (2 / 5) (117 / 200)) {} 5 0 0 10).2.map
      (fun plan => ((plan.quotedBid, plan.bidCents), (plan.quotedAsk, plan.askCents),
        quoteEdgeOk (plan.bidCents / 100) (plan.askCents / 100) (175 / 10000) 1 (1 / 100))) =
      some ((81 / 200, 41), (11 / 25, 44), false) := by
    decide +kernel
  refine ⟨by decide +kernel, sent, fun asChecked => ?_⟩
  obtain ⟨plan, planned, prices⟩ := Option.map_eq_some_iff.mp sent
  obtain ⟨quoted, cents⟩ := Prod.mk.inj (Prod.mk.inj prices).1
  have bid := (asChecked plan planned).bid
  rw [quoted, cents] at bid
  norm_num at bid

end KalshiMm.Verified.SentPrices
