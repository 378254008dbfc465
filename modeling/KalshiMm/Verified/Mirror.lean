import Mathlib.Algebra.Order.Group.MinMax
import KalshiMm.Verified.FeeGate
import KalshiMm.Verified.RestingCaps

/-!
# The mirror of YES and NO

Selling YES at `p` is buying NO at `1 - p`.  Mirrored are the book, the inventory, the orders and
the views of the model; each layer of the quoting commutes with the mirror, roundings included,
since ties to even are symmetric about one dollar and the prices of the touch are on the grid.
-/

namespace KalshiMm.Verified.Mirror

open KalshiMm.Lib KalshiMm.Model PassiveQuotes FeeGate RestingCaps

def mirrorBook (book : Book) : Book where
  yes := book.no
  no := book.yes

def mirrorAction (action : Action) : Action := { action with skew := -action.skew }

def mirrorState (ts : TickerState) : TickerState :=
  { ts with
    book := mirrorBook ts.book
    position := -ts.position
    quotedBid := ts.quotedAsk.map fun ask => 1 - ask
    quotedAsk := ts.quotedBid.map fun bid => 1 - bid
    bidOrderId := ts.askOrderId
    askOrderId := ts.bidOrderId }

/-- A pair of a bid and an ask. -/
def mirrorQuotes (quotes : ℚ × ℚ) : ℚ × ℚ := (1 - quotes.2, 1 - quotes.1)

def mirrorPlan (plan : QuotePlan) : QuotePlan where
  bidCents := 100 - plan.askCents
  askCents := 100 - plan.bidCents
  placeBid := plan.placeAsk
  placeAsk := plan.placeBid
  bidSize := plan.askSize
  askSize := plan.bidSize
  cancelIds := plan.cancelIds.reverse
  quotedBid := 1 - plan.quotedAsk
  quotedAsk := 1 - plan.quotedBid

/-- Every level of the book is priced within a dollar. -/
def WithinDollar (book : Book) : Prop :=
  ∀ md, md ∈ book.yes.keys ∨ md ∈ book.no.keys → md ≤ oneDollarMd

/-! ## The book -/

section Book

variable {book : Book} (within : WithinDollar book)
include within

theorem toDollars_sub {md : ℕ} (member : md ∈ book.yes.keys ∨ md ∈ book.no.keys) :
    toDollars (oneDollarMd - md) = 1 - toDollars md := by
  unfold toDollars
  rw [Nat.cast_sub (within md member), oneDollarMd]
  push_cast
  ring

theorem bestAsk_eq : book.bestAsk = book.no.lastKey.map fun md => 1 - toDollars md := by
  unfold Book.bestAsk Book.bestAskMd
  cases best : book.no.lastKey with
  | none => rfl
  | some md => exact congrArg some (toDollars_sub within (Or.inr (lastKey_mem best)))

theorem withinDollar_mirror : WithinDollar (mirrorBook book) :=
  fun md member => within md member.symm

theorem bestBid_mirror : (mirrorBook book).bestBid = book.bestAsk.map fun ask => 1 - ask := by
  rw [bestAsk_eq within, Option.map_map]
  exact Option.map_congr fun md _ => (sub_sub_cancel _ _).symm

theorem bestAsk_mirror : (mirrorBook book).bestAsk = book.bestBid.map fun bid => 1 - bid := by
  rw [bestAsk_eq (withinDollar_mirror within), Book.bestBid, Option.map_map]
  rfl

theorem isValid_mirror : (mirrorBook book).isValid = book.isValid := by
  unfold Book.isValid Book.bestBidMd Book.bestAskMd mirrorBook
  cases yes : book.yes.lastKey with
  | none => cases book.no.lastKey <;> rfl
  | some bid =>
    cases no : book.no.lastKey with
    | none => rfl
    | some sale =>
      have bidWithin := within bid (Or.inl (lastKey_mem yes))
      have saleWithin := within sale (Or.inr (lastKey_mem no))
      simp only [Option.map_some, decide_eq_decide]
      omega

end Book

/-! ## The prices -/

theorem clamp_sub {lo hi : ℚ} (ordered : lo ≤ hi) (c x : ℚ) :
    clamp (c - x) (c - hi) (c - lo) = c - clamp x lo hi := by
  unfold clamp
  rw [min_sub_sub_left, max_sub_sub_left, max_min_distrib_left, max_eq_right ordered]

theorem roundDp_neg (x : ℚ) (dp : ℕ) : roundDp (-x) dp = -roundDp x dp := by
  unfold roundDp roundTo
  rw [neg_mul, roundTiesEven_neg, Int.cast_neg, neg_div]

/-- A power of ten is even, so ties a dollar apart go to mirrored sides. -/
theorem roundDp_one_sub (x : ℚ) (dp : ℕ) : roundDp (1 - x) (dp + 1) = 1 - roundDp x (dp + 1) := by
  have even : (10 : ℚ) ^ (dp + 1) = 2 * ((5 * 10 ^ dp : ℤ) : ℚ) := by
    push_cast
    ring
  have positive : (10 : ℚ) ^ (dp + 1) ≠ 0 := by positivity
  unfold roundDp roundTo
  rw [sub_mul, one_mul, div_eq_iff positive, sub_mul, one_mul, div_mul_cancel₀ _ positive, even,
    roundTiesEven_even_sub]
  push_cast
  ring

theorem scaleAction_mirror (action : Action) :
    scaleAction (mirrorAction action) = ((scaleAction action).1, -(scaleAction action).2) := by
  have odd : clamp (-action.skew) (-1) 1 = -clamp action.skew (-1) 1 := by
    have turned := clamp_sub (by norm_num : (-1 : ℚ) ≤ 1) 0 action.skew
    norm_num at turned
    exact turned
  unfold scaleAction mirrorAction
  dsimp only
  rw [odd, neg_mul, roundDp_neg]

theorem modelQuotes_mirror (action : Action) (fvShift mid tick : ℚ) (subpennyEnabled : Bool) :
    modelQuotes (mirrorAction action) (-fvShift) (1 - mid) tick subpennyEnabled =
      mirrorQuotes (modelQuotes action fvShift mid tick subpennyEnabled) := by
  have snapped (x : ℚ) : clamp (roundDp (1 - x) (if supportsSubpenny tick then 3 else 2))
      (1 / 100) (99 / 100) =
      1 - clamp (roundDp x (if supportsSubpenny tick then 3 else 2)) (1 / 100) (99 / 100) := by
    rw [← clamp_sub (by norm_num)]
    split_ifs
    · rw [roundDp_one_sub]
      norm_num
    · rw [roundDp_one_sub]
      norm_num
  unfold modelQuotes mirrorQuotes
  rw [scaleAction_mirror]
  dsimp only
  rw [← snapped, ← snapped]
  congr 3 <;> ring

/-- On the grid the clamp is two comparisons. -/
theorem clampQuotes_onMills {bid ask bestBid bestAsk tick : ℚ} (gridBid : OnMills bid)
    (gridAsk : OnMills ask) (gridBestBid : OnMills bestBid) (gridBestAsk : OnMills bestAsk)
    (gridTick : OnMills tick) : clampQuotes bid ask bestBid bestAsk tick =
      if max ask (bestBid + tick) ≤ min bid (bestAsk - tick) then none
      else some (min bid (bestAsk - tick), max ask (bestBid + tick)) := by
  unfold clampQuotes
  rw [round4_of_onMills (gridBid.min (gridBestAsk.sub gridTick)),
    round4_of_onMills (gridAsk.max (gridBestBid.add gridTick))]

theorem onMills_one_sub {x : ℚ} (grid : OnMills x) : OnMills (1 - x) :=
  OnGrid.sub ⟨1000, by norm_num⟩ grid

theorem clampQuotes_mirror {bid ask bestBid bestAsk tick : ℚ} (gridBid : OnMills bid)
    (gridAsk : OnMills ask) (gridBestBid : OnMills bestBid) (gridBestAsk : OnMills bestAsk)
    (gridTick : OnMills tick) :
    clampQuotes (1 - ask) (1 - bid) (1 - bestAsk) (1 - bestBid) tick =
      (clampQuotes bid ask bestBid bestAsk tick).map mirrorQuotes := by
  rw [clampQuotes_onMills gridBid gridAsk gridBestBid gridBestAsk gridTick,
    clampQuotes_onMills (onMills_one_sub gridAsk) (onMills_one_sub gridBid)
      (onMills_one_sub gridBestAsk) (onMills_one_sub gridBestBid) gridTick,
    sub_sub, sub_add, min_sub_sub_left, max_sub_sub_left]
  simp only [sub_le_sub_iff_left]
  split_ifs
  · rfl
  · rfl

theorem quoteEdgeOk_mirror (bid ask feeRate : ℚ) (size : ℤ) (minEdge : ℚ) :
    quoteEdgeOk (1 - ask) (1 - bid) feeRate size minEdge =
      quoteEdgeOk bid ask feeRate size minEdge := by
  have fee (price : ℚ) : ceilCentFee feeRate size (1 - price) = ceilCentFee feeRate size price := by
    unfold ceilCentFee
    congr 3
    ring
  unfold quoteEdgeOk
  dsimp only
  rw [fee, fee, sub_sub_sub_cancel_left, add_comm (ceilCentFee feeRate size ask)]

/-- The price gates, of a book with a touch. -/
theorem pricedQuotes_of_touch {ts : TickerState} {bestBid bestAsk : ℚ}
    (hasBid : ts.book.bestBid = some bestBid) (hasAsk : ts.book.bestAsk = some bestAsk)
    (action : Action) (fvShift : ℚ) (mm : MmParams) (openOrderCount : ℕ) :
    let mid := (bestBid + bestAsk) / 2
    let model := modelQuotes action fvShift mid ts.tick mm.subpennyEnabled
    pricedQuotes action fvShift ts mm openOrderCount =
      if ts.book.isValid = true ∧ (mm.quoteBandLo ≤ mid ∧ mid ≤ mm.quoteBandHi) ∧
        ¬ (mm.maxOpenOrders ≤ openOrderCount ∧ ts.everQuoted = false) ∧ ¬ model.2 ≤ model.1 then
        (clampQuotes model.1 model.2 bestBid bestAsk ts.tick).filter fun quotes =>
          quoteEdgeOk quotes.1 quotes.2 mm.makerFeeRate 1 mm.minQuoteEdge
      else none := by
  intro mid model
  unfold pricedQuotes
  rw [hasBid, hasAsk]
  refine Option.ext fun quotes => ?_
  simp only [Option.bind_eq_bind, Option.bind_some, Option.bind_eq_some_iff, Option.guard_eq_some',
    exists_const, Option.pure_def, Option.some.injEq, Option.ite_none_right_eq_some,
    Option.filter_eq_some_iff]
  constructor
  · rintro ⟨valid, band, budget, uncrossed, found, clamped, edge, rfl⟩
    exact ⟨⟨valid, band, budget, uncrossed⟩, clamped, edge⟩
  · rintro ⟨⟨valid, band, budget, uncrossed⟩, clamped, edge⟩
    exact ⟨valid, band, budget, uncrossed, quotes, clamped, edge, rfl⟩

theorem pricedQuotes_of_missing {ts : TickerState}
    (missing : ts.book.bestBid = none ∨ ts.book.bestAsk = none) (action : Action) (fvShift : ℚ)
    (mm : MmParams) (openOrderCount : ℕ) :
    pricedQuotes action fvShift ts mm openOrderCount = none := by
  cases priced : pricedQuotes action fvShift ts mm openOrderCount with
  | none => rfl
  | some quotes =>
    simp only [pricedQuotes, Option.bind_eq_bind, Option.bind_eq_some_iff] at priced
    obtain ⟨_, _, bestBid, hasBid, bestAsk, hasAsk, _⟩ := priced
    obtain none_ | none_ := missing
    · rw [none_] at hasBid
      cases hasBid
    · rw [none_] at hasAsk
      cases hasAsk

theorem onMills_bestBid {book : Book} {bestBid : ℚ} (hasBid : book.bestBid = some bestBid) :
    OnMills bestBid := by
  obtain ⟨md, _, rfl⟩ := Option.map_eq_some_iff.mp hasBid
  exact onMills_toDollars md

theorem onMills_bestAsk {book : Book} {bestAsk : ℚ} (hasAsk : book.bestAsk = some bestAsk) :
    OnMills bestAsk := by
  obtain ⟨md, _, rfl⟩ := Option.map_eq_some_iff.mp hasAsk
  exact onMills_toDollars md

theorem inBand_mirror {mm : MmParams} (band : mm.quoteBandHi = 1 - mm.quoteBandLo) (x : ℚ) :
    (mm.quoteBandLo ≤ 1 - x ∧ 1 - x ≤ mm.quoteBandHi) ↔
      (mm.quoteBandLo ≤ x ∧ x ≤ mm.quoteBandHi) := by
  rw [band, sub_le_sub_iff_left, le_sub_comm, and_comm]

/-- Prices, band, budget, clamp and fee edge pass in the mirror as they do. -/
theorem pricedQuotes_mirror {ts : TickerState} (within : WithinDollar ts.book)
    (legal : LegalTick ts.tick) {mm : MmParams} (band : mm.quoteBandHi = 1 - mm.quoteBandLo)
    (action : Action) (fvShift : ℚ) (openOrderCount : ℕ) :
    pricedQuotes (mirrorAction action) (-fvShift) (mirrorState ts) mm openOrderCount =
      (pricedQuotes action fvShift ts mm openOrderCount).map mirrorQuotes := by
  have mirroredBid : (mirrorState ts).book.bestBid = ts.book.bestAsk.map fun ask => 1 - ask :=
    bestBid_mirror within
  have mirroredAsk : (mirrorState ts).book.bestAsk = ts.book.bestBid.map fun bid => 1 - bid :=
    bestAsk_mirror within
  cases hasBid : ts.book.bestBid with
  | none =>
    rw [pricedQuotes_of_missing (Or.inl hasBid), pricedQuotes_of_missing (Or.inr ?_)]
    · rfl
    · exact mirroredAsk.trans (by rw [hasBid, Option.map_none])
  | some bestBid =>
    cases hasAsk : ts.book.bestAsk with
    | none =>
      rw [pricedQuotes_of_missing (Or.inr hasAsk), pricedQuotes_of_missing (Or.inl ?_)]
      · rfl
      · exact mirroredBid.trans (by rw [hasAsk, Option.map_none])
    | some bestAsk =>
      rw [hasAsk, Option.map_some] at mirroredBid
      rw [hasBid, Option.map_some] at mirroredAsk
      rw [pricedQuotes_of_touch hasBid hasAsk, pricedQuotes_of_touch mirroredBid mirroredAsk]
      have mid : (1 - bestAsk + (1 - bestBid)) / 2 = 1 - (bestBid + bestAsk) / 2 := by ring
      have tick : (mirrorState ts).tick = ts.tick := rfl
      have quoted : (mirrorState ts).everQuoted = ts.everQuoted := rfl
      obtain ⟨gridBid, gridAsk, _⟩ := modelQuotes_legal action fvShift ((bestBid + bestAsk) / 2)
        ts.tick mm.subpennyEnabled
      rw [mid, tick, quoted, modelQuotes_mirror]
      generalize modelQuotes action fvShift _ ts.tick mm.subpennyEnabled = model at gridBid gridAsk ⊢
      have valid : (mirrorState ts).book.isValid = ts.book.isValid := isValid_mirror within
      have collapsed : (mirrorQuotes model).2 ≤ (mirrorQuotes model).1 ↔ model.2 ≤ model.1 :=
        sub_le_sub_iff_left 1
      have clamped : clampQuotes (mirrorQuotes model).1 (mirrorQuotes model).2 (1 - bestAsk)
          (1 - bestBid) ts.tick =
          (clampQuotes model.1 model.2 bestBid bestAsk ts.tick).map mirrorQuotes :=
        clampQuotes_mirror gridBid gridAsk (onMills_bestBid hasBid) (onMills_bestAsk hasAsk)
          legal.onMills
      have edge : (fun quotes : ℚ × ℚ => quoteEdgeOk quotes.1 quotes.2 mm.makerFeeRate 1
          mm.minQuoteEdge) ∘ mirrorQuotes =
          fun quotes => quoteEdgeOk quotes.1 quotes.2 mm.makerFeeRate 1 mm.minQuoteEdge :=
        funext fun quotes => quoteEdgeOk_mirror quotes.1 quotes.2 _ 1 _
      rw [valid, clamped, Option.filter_map, edge]
      simp only [inBand_mirror band, collapsed]
      split_ifs
      · rfl
      · rfl

/-! ## Keeping and sizing -/

theorem keepsResting_mirror (ts : TickerState) (ourBid ourAsk : ℚ) :
    keepsResting (mirrorState ts) (1 - ourAsk) (1 - ourBid) = keepsResting ts ourBid ourAsk := by
  unfold keepsResting mirrorState
  cases ts.quotedBid with
  | none => cases ts.quotedAsk <;> rfl
  | some bid =>
    cases ts.quotedAsk with
    | none => rfl
    | some ask =>
      have bidMoved : |1 - ask - (1 - ourAsk)| = |ask - ourAsk| := by
        rw [sub_sub_sub_cancel_left, abs_sub_comm]
      have askMoved : |1 - bid - (1 - ourBid)| = |bid - ourBid| := by
        rw [sub_sub_sub_cancel_left, abs_sub_comm]
      simp only [Option.map_some, bidMoved, askMoved]
      rw [Bool.and_comm (ts.askOrderId.isSome), Bool.and_assoc, Bool.and_comm (decide _),
        ← Bool.and_assoc]

theorem toCents_one_sub {tick dollars : ℚ} (legal : LegalTick tick)
    (grid : OnGrid (1 / tick) dollars) : toCents tick (1 - dollars) = 100 - toCents tick dollars := by
  have turned : OnGrid (1 / tick) (1 - dollars) :=
    OnGrid.sub (onGrid_cents legal 100 (by norm_num)) grid
  have sent := toCents_of_onGrid legal grid
  have sentTurned := toCents_of_onGrid legal turned
  linarith

theorem sizedPlan_mirror {ts : TickerState} (legal : LegalTick ts.tick) (mm : MmParams)
    (maxInventory : ℤ) {ourBid ourAsk : ℚ} (gridBid : OnGrid (1 / ts.tick) ourBid)
    (gridAsk : OnGrid (1 / ts.tick) ourAsk) :
    sizedPlan (mirrorState ts) mm maxInventory (1 - ourAsk) (1 - ourBid) =
      mirrorPlan (sizedPlan ts mm maxInventory ourBid ourAsk) := by
  have bidSized : 1 - mm.extremeBand ≤ 1 - ourAsk ↔ ourAsk ≤ mm.extremeBand :=
    sub_le_sub_iff_left 1
  have askSized : 1 - ourBid ≤ mm.extremeBand ↔ 1 - mm.extremeBand ≤ ourBid := sub_le_comm
  have bidRoom (size : ℤ) : |-ts.position + size| = |ts.position - size| := by
    rw [neg_add_eq_sub, abs_sub_comm]
  have askRoom (size : ℤ) : |-ts.position - size| = |ts.position + size| := by
    rw [← neg_add', abs_neg]
  have cancels : (mirrorState ts).orderIds = ts.orderIds.reverse := by
    unfold TickerState.orderIds mirrorState
    cases ts.bidOrderId <;> cases ts.askOrderId <;> rfl
  unfold sizedPlan mirrorPlan
  rw [cancels]
  simp only [mirrorState, bidSized, askSized, bidRoom, askRoom, toCents_one_sub legal gridBid,
    toCents_one_sub legal gridAsk]

/-! ## The plan -/

/-- On a book that keeps to its tick, so do the quotes that pass. -/
theorem pricedQuotes_onGrid {action : Action} {fvShift : ℚ} {ts : TickerState} {mm : MmParams}
    {openOrderCount : ℕ} {quotes : ℚ × ℚ} (legal : LegalTick ts.tick)
    (onTick : OnTick ts.tick ts.book)
    (priced : pricedQuotes action fvShift ts mm openOrderCount = some quotes) :
    OnGrid (1 / ts.tick) quotes.1 ∧ OnGrid (1 / ts.tick) quotes.2 := by
  simp only [pricedQuotes, Option.bind_eq_bind, Option.bind_eq_some_iff, Option.guard_eq_some',
    exists_const, Option.pure_def, Option.some.injEq] at priced
  obtain ⟨valid, bestBid, hasBid, bestAsk, hasAsk, _, _, _, _, clamped, _, rfl⟩ := priced
  obtain ⟨gridBestBid, gridBestAsk⟩ := touch_onGrid legal onTick valid hasBid hasAsk
  obtain ⟨gridBid, gridAsk⟩ := modelQuotes_onGrid legal action fvShift
    ((bestBid + bestAsk) / 2) mm.subpennyEnabled
  obtain ⟨millsBid, millsAsk, _⟩ := modelQuotes_legal action fvShift ((bestBid + bestAsk) / 2)
    ts.tick mm.subpennyEnabled
  have gridTick : OnGrid (1 / ts.tick) ts.tick := onGrid_of_multiple legal (n := 1) (by simp)
  rw [clampQuotes_onMills millsBid millsAsk (onMills_bestBid hasBid) (onMills_bestAsk hasAsk)
    legal.onMills] at clamped
  split_ifs at clamped
  cases clamped
  exact ⟨gridBid.min (gridBestAsk.sub gridTick), gridAsk.max (gridBestBid.add gridTick)⟩

section Plan

variable {ts : TickerState} (legal : LegalTick ts.tick) (onTick : OnTick ts.tick ts.book)
  (within : WithinDollar ts.book) {mm : MmParams} (band : mm.quoteBandHi = 1 - mm.quoteBandLo)
include legal onTick within band

theorem decideQuotes_mirror (action : Action) (fvShift : ℚ) (maxInventory : ℤ)
    (openOrderCount : ℕ) :
    decideQuotes (mirrorAction action) (-fvShift) (mirrorState ts) mm maxInventory openOrderCount =
      (decideQuotes action fvShift ts mm maxInventory openOrderCount).map mirrorPlan := by
  rw [decideQuotes_eq, decideQuotes_eq, pricedQuotes_mirror within legal band]
  cases priced : pricedQuotes action fvShift ts mm openOrderCount with
  | none => rfl
  | some quotes =>
    obtain ⟨gridBid, gridAsk⟩ := pricedQuotes_onGrid legal onTick priced
    rw [Option.map_some, Option.bind_some, Option.bind_some, mirrorQuotes, keepsResting_mirror,
      sizedPlan_mirror legal mm maxInventory gridBid gridAsk]
    split_ifs
    · rfl
    · rfl

/-- The mirror of a market is quoted by the mirror of its plan, and not quoted where it is not. -/
theorem planQuotes_mirror (action : Action) (fvShift : ℚ) (maxInventory : ℤ)
    (openOrderCount : ℕ) (balanceBackoffUntil nowMono : ℚ) :
    planQuotes (mirrorAction action) (-fvShift) (mirrorState ts) mm maxInventory openOrderCount
        balanceBackoffUntil nowMono =
      let planned := planQuotes action fvShift ts mm maxInventory openOrderCount
        balanceBackoffUntil nowMono
      (mirrorState planned.1, planned.2.map mirrorPlan) := by
  have decided : decideQuotes (mirrorAction action) (-fvShift)
      (mirrorState { ts with lastQuoteTime := nowMono }) mm maxInventory openOrderCount =
        (decideQuotes action fvShift { ts with lastQuoteTime := nowMono } mm maxInventory
          openOrderCount).map mirrorPlan :=
    decideQuotes_mirror legal onTick within band action fvShift maxInventory openOrderCount
  unfold planQuotes
  have throttle : (mirrorState ts).lastQuoteTime = ts.lastQuoteTime := rfl
  rw [throttle]
  split_ifs
  · rfl
  · rfl
  · exact congrArg _ decided

end Plan

/-- A long of two on a wide book, quoted off its mid. -/
theorem planQuotes_mirror_long :
    let ts : TickerState := { TickerState.new "KXBTCD" with
      position := 2
      book := { yes := Finmap.singleton 300 10, no := Finmap.singleton 500 10 } }
    let action : Action := ⟨-9 / 10, 1 / 2⟩
    let sent (plan : QuotePlan) : ℚ × ℚ := (plan.bidCents, plan.askCents)
    (planQuotes action (1 / 50) ts {} 5 0 0 10).2.map sent = some (41, 48) ∧
      (planQuotes (mirrorAction action) (-(1 / 50)) (mirrorState ts) {} 5 0 0 10).2.map sent =
        some (52, 59) := by
  intro ts action sent
  have planned : (planQuotes action (1 / 50) ts {} 5 0 0 10).2.map sent = some (41, 48) := by
    decide +kernel
  have onTick : OnTick ts.tick ts.book := by
    rintro md (bid | noBid)
    · obtain rfl : md = 300 := by simpa [ts] using bid
      exact ⟨30, by norm_num [toDollars, ts, TickerState.new]⟩
    · obtain rfl : md = 500 := by simpa [ts] using noBid
      exact ⟨50, by norm_num [toDollars, ts, TickerState.new]⟩
  have within : WithinDollar ts.book := by
    rintro md (bid | noBid)
    · obtain rfl : md = 300 := by simpa [ts] using bid
      decide
    · obtain rfl : md = 500 := by simpa [ts] using noBid
      decide
  have band : ({} : MmParams).quoteBandHi = 1 - ({} : MmParams).quoteBandLo := by norm_num
  obtain ⟨plan, made, cents⟩ := Option.map_eq_some_iff.mp planned
  refine ⟨planned, ?_⟩
  rw [planQuotes_mirror (Or.inl rfl) onTick within band action (1 / 50) 5 0 0 10]
  dsimp only
  obtain ⟨bid, ask⟩ := Prod.mk.inj cents
  rw [made, Option.map_some, Option.map_some, Option.some.injEq]
  exact Prod.ext (by norm_num [sent, mirrorPlan, ask]) (by norm_num [sent, mirrorPlan, bid])

end KalshiMm.Verified.Mirror
