import KalshiMm.Verified.FlatIsClean
import KalshiMm.Verified.QuoteStage

/-!
# The throttle clocks and the backoff

Every market has a throttle clock, and the account has one balance backoff.  `SameClocks` compares
two traders that agree on all of them; every handler but the quote cycle stays within it, and the
quote cycle sets them from the present (`Paced`).
-/

namespace KalshiMm.Verified

open KalshiMm.Lib KalshiMm.Model

/-! ## The clocks -/

/-- When a market last started to quote. -/
def quotedAt (s : TraderState) (ticker : String) : ℚ :=
  ((s.tickers.lookup ticker).map TickerState.lastQuoteTime).getD 0

theorem quotedAt_eq (s : TraderState) (ticker category : String) :
    quotedAt s ticker = (s.tickerD ticker category).lastQuoteTime :=
  Option.getD_map TickerState.lastQuoteTime (TickerState.new category) (s.tickers.lookup ticker)

theorem quotedAt_of_insert {s s' : TraderState} {ticker : String} {ts : TickerState}
    (written : s'.tickers = s.tickers.insert ticker ts) (other : String) :
    quotedAt s' other = if other = ticker then ts.lastQuoteTime else quotedAt s other := by
  unfold quotedAt
  rw [written, Dict.getD_map_insert]

/-- Parameters, backoff and all throttle clocks are the same. -/
structure SameClocks (tr tr' : Trader) : Prop where
  cfg : tr'.cfg = tr.cfg
  backoff : tr'.state.balanceBackoffUntil = tr.state.balanceBackoffUntil
  quotedAt : ∀ ticker, quotedAt tr'.state ticker = quotedAt tr.state ticker

namespace SameClocks

theorem refl (tr : Trader) : SameClocks tr tr := ⟨rfl, rfl, fun _ => rfl⟩

theorem trans {a b c : Trader} (first : SameClocks a b) (second : SameClocks b c) :
    SameClocks a c where
  cfg := second.cfg.trans first.cfg
  backoff := second.backoff.trans first.backoff
  quotedAt ticker := (second.quotedAt ticker).trans (first.quotedAt ticker)

theorem of_tickers {tr tr' : Trader} (cfg : tr'.cfg = tr.cfg)
    (backoff : tr'.state.balanceBackoffUntil = tr.state.balanceBackoffUntil)
    (same : tr'.state.tickers = tr.state.tickers) : SameClocks tr tr' :=
  ⟨cfg, backoff, fun ticker => by rw [Verified.quotedAt, Verified.quotedAt, same]⟩

theorem of_insert {tr tr' : Trader} {ticker : String} {ts : TickerState} (category : String)
    (cfg : tr'.cfg = tr.cfg)
    (backoff : tr'.state.balanceBackoffUntil = tr.state.balanceBackoffUntil)
    (written : tr'.state.tickers = tr.state.tickers.insert ticker ts)
    (kept : ts.lastQuoteTime = (tr.state.tickerD ticker category).lastQuoteTime) :
    SameClocks tr tr' where
  cfg := cfg
  backoff := backoff
  quotedAt other := by
    rw [quotedAt_of_insert written]
    split_ifs with same
    · rw [kept, same, quotedAt_eq]
    · rfl

theorem of_known {tr tr' : Trader} {ticker : String} {ts ts' : TickerState}
    (known : tr.state.tickers.lookup ticker = some ts) (cfg : tr'.cfg = tr.cfg)
    (backoff : tr'.state.balanceBackoffUntil = tr.state.balanceBackoffUntil)
    (written : tr'.state.tickers = tr.state.tickers.insert ticker ts')
    (kept : ts'.lastQuoteTime = ts.lastQuoteTime) : SameClocks tr tr' := by
  refine of_insert "" cfg backoff written ?_
  rw [TraderState.tickerD, known, Option.getD_some, kept]

theorem of_sensed {ticker category : String} {tr tr' : Trader}
    (sensed : Sensed ticker category tr tr') : SameClocks tr tr' := by
  obtain ⟨_, _, _, _, rfl⟩ := sensed
  exact of_insert category rfl rfl rfl rfl

theorem of_timers {tr tr' : Trader} (timers : Timers tr tr') : SameClocks tr tr' := by
  obtain ⟨_, _, _, rfl⟩ := timers
  exact of_tickers rfl rfl rfl

end SameClocks

/-! ## Handlers that leave the clocks alone -/

theorem backoff_bookRealizedClose (s : TraderState) (category : String) (realized : ℚ)
    (streakExempt : Bool) :
    (s.bookRealizedClose category realized streakExempt).balanceBackoffUntil =
      s.balanceBackoffUntil := by
  obtain ⟨_, _, _, _, _, only⟩ := bookRealizedClose_only s category realized streakExempt
  rw [only]

theorem backoff_applyFill {s s' : TraderState} {ticker : String} {nf : NormalizedFill}
    {fee nowEpoch realized : ℚ} (applied : s.applyFill ticker nf fee nowEpoch = some (s', realized)) :
    s'.balanceBackoffUntil = s.balanceBackoffUntil := by
  obtain ⟨ts, _, booked⟩ := Option.map_eq_some_iff.mp applied
  cases booked
  split_ifs
  · exact backoff_bookRealizedClose ..
  · rfl

theorem backoff_applySettlement (s : TraderState) (ticker : String) (resultYes : Option Bool) :
    (s.applySettlement ticker resultYes).1.balanceBackoffUntil = s.balanceBackoffUntil := by
  unfold TraderState.applySettlement
  split
  · rfl
  · split_ifs
    · rfl
    · dsimp only
      split
      · exact backoff_bookRealizedClose ..
      · rfl

theorem backoff_enforceCategoryHalt (category : String) (tr : Trader) :
    (tr.enforceCategoryHalt category).state.balanceBackoffUntil =
      tr.state.balanceBackoffUntil := by
  obtain ⟨_, only⟩ := enforceCategoryHalt_only category tr
  rw [only]

theorem backoff_seenFill (s : TraderState) (fillId : String) :
    (s.seenFill fillId).1.balanceBackoffUntil = s.balanceBackoffUntil := by
  obtain ⟨_, _, only⟩ := seenFill_only s fillId
  rw [only]

theorem backoff_bookFill (out : Outside) (nf : NormalizedFill) (tr : Trader) :
    (tr.bookFill out nf).state.balanceBackoffUntil = tr.state.balanceBackoffUntil := by
  unfold Trader.bookFill
  dsimp only
  split
  next state _ applied =>
    have booked := backoff_applyFill applied
    rw [backoff_enforceCategoryHalt]
    exact booked
  · rfl

theorem backoff_processFill (out : Outside) (raw : Value) (tr : Trader) :
    (tr.processFill out raw).state.balanceBackoffUntil = tr.state.balanceBackoffUntil := by
  unfold Trader.processFill
  split
  · rfl
  · dsimp only
    split_ifs
    · rfl
    · rw [backoff_bookFill, backoff_seenFill]

theorem sameClocks_processFill (out : Outside) (raw : Value) (tr : Trader) :
    SameClocks tr (tr.processFill out raw) := by
  have backoff := backoff_processFill out raw tr
  have ends := processFill_outcome out raw tr
  generalize tr.processFill out raw = tr' at backoff ends
  cases ends with
  | ignored _ => exact .refl _
  | booked nf _ _ only written =>
    obtain ⟨_, rfl⟩ := only
    exact .of_insert _ rfl backoff written rfl

theorem sameClocks_applySettlement {tr tr' : Trader} {ticker : String} {resultYes : Option Bool}
    (cfg : tr'.cfg = tr.cfg)
    (backoff : tr'.state.balanceBackoffUntil = tr.state.balanceBackoffUntil)
    (settles : tr'.state.tickers = (tr.state.applySettlement ticker resultYes).1.tickers) :
    SameClocks tr tr' := by
  cases known : tr.state.tickers.lookup ticker with
  | none =>
    refine .of_tickers cfg backoff (settles.trans ?_)
    rw [TraderState.applySettlement, known]
  | some ts =>
    by_cases flat : ts.position = 0
    · refine .of_tickers cfg backoff (settles.trans ?_)
      rw [TraderState.applySettlement_of_flat known flat]
    · exact .of_known known cfg backoff
        (settles.trans (TraderState.applySettlement_tickers known flat resultYes)) rfl

theorem sameClocks_resolveVanished (settled : Dict String (Option Bool)) (tr : Trader)
    (ticker : String) : SameClocks tr (tr.resolveVanished settled ticker) := by
  have ends := resolveVanished_resolved settled tr ticker
  generalize tr.resolveVanished settled ticker = tr' at ends
  cases ends with
  | flat _ => exact .of_tickers rfl rfl rfl
  | writtenOff ts known _ _ _ => exact .of_known known rfl rfl rfl rfl
  | counted _ _ _ => exact .of_tickers rfl rfl rfl
  | settled resultYes _ _ halts =>
    obtain ⟨_, rfl⟩ := settledAt_only halts
    exact sameClocks_applySettlement rfl (backoff_applySettlement ..) rfl

theorem sameClocks_syncTicker (out : Outside) (exchange : Dict String ℤ) (tr : Trader)
    (ticker : String) : SameClocks tr (tr.syncTicker out exchange ticker) := by
  obtain ⟨_, _, only⟩ := syncTicker_only out exchange tr ticker
  rw [only]
  exact .of_insert _ rfl rfl rfl rfl

theorem sameClocks_backfillEntryPrice (out : Outside) (ticker : String) (tr : Trader) :
    SameClocks tr (tr.backfillEntryPrice out ticker) := by
  obtain same | ⟨_, _, _, known, _, written⟩ := backfillEntryPrice_cases out ticker tr
  · rw [same]
    exact .refl tr
  · rw [written]
    exact .of_known known rfl rfl rfl rfl

/-- No operation on the positions touches a clock. -/
theorem sameClocks_operate (tr : Trader) (op : Flat.Op) : SameClocks tr (Flat.operate tr op) := by
  cases op with
  | fill ticker category nf fee nowEpoch =>
    unfold Flat.operate
    dsimp only
    split
    next state _ applied =>
      have booked := backoff_applyFill applied
      obtain ⟨_, applied', written⟩ := TraderState.applyFill_tickers
        (s := tr.state.ticker ticker category) (Finmap.lookup_insert _) nf fee nowEpoch
      rw [applied] at applied'
      cases applied'
      have written : state.tickers = tr.state.tickers.insert ticker
          ((tr.state.tickerD ticker category).filled nf nowEpoch) := by
        rw [written, TraderState.ticker, TraderState.setTicker_tickers, Finmap.insert_insert]
      exact .of_insert category rfl booked written rfl
    · exact .refl tr
  | settle ticker resultYes =>
    exact sameClocks_applySettlement rfl (backoff_applySettlement ..) rfl
  | correct out exchange ticker => exact sameClocks_syncTicker out exchange tr ticker
  | resolve settled ticker => exact sameClocks_resolveVanished settled tr ticker
  | backfill out ticker => exact sameClocks_backfillEntryPrice out ticker tr

theorem sameClocks_syncPositions (out : Outside) (tr : Trader) :
    SameClocks tr (tr.syncPositions out) := by
  obtain ⟨ops, sync⟩ := Flat.operated_syncPositions out tr
  rw [sync]
  exact run_related SameClocks.refl (fun _ _ _ => SameClocks.trans) sameClocks_operate tr ops

theorem sameClocks_onTrade (out : Outside) (ticker : String) (msg : Value) (tr : Trader) :
    SameClocks tr (tr.onTrade out ticker msg) := by
  unfold Trader.onTrade
  dsimp only
  split
  · exact .refl tr
  · exact .of_insert _ rfl rfl rfl rfl

theorem sameClocks_maybeDailyReset (env : Env) (out : Outside) (tr : Trader) :
    SameClocks tr (tr.maybeDailyReset env out) := by
  unfold Trader.maybeDailyReset
  split_ifs
  · exact .of_tickers rfl rfl rfl
  · exact .refl tr

theorem sameClocks_refreshMarkets (env : Env) (out : Outside) (tr : Trader) :
    SameClocks tr (tr.refreshMarkets env out) := by
  refine refreshMarkets_related SameClocks.refl (fun _ _ _ => SameClocks.trans)
    (fun _ _ _ _ => .of_tickers rfl rfl rfl) (fun tr entry => ?_) (fun tr entry => ?_) tr
  · refine .of_insert entry.2 rfl rfl rfl ?_
    unfold Trader.readDetails
    split <;> rfl
  · unfold Trader.fetchSnapshot
    dsimp only
    split
    · exact .refl tr
    · exact .of_insert _ rfl rfl rfl rfl

theorem sameClocks_updateSpotGate (out : Outside) (tr : Trader) :
    SameClocks tr (tr.updateSpotGate out).trader := by
  have backoff : (tr.updateSpotGate out).trader.state.balanceBackoffUntil =
      tr.state.balanceBackoffUntil := by
    obtain ⟨_, same⟩ | ⟨_, _, rises⟩ | ⟨_, stays⟩ := updateSpotGate_cases out tr
    · rw [same]
    · rw [rises]; rfl
    · rw [stays]
  obtain ⟨_, _, only⟩ := updateSpotGate_only out tr
  exact ⟨by rw [only], backoff, fun ticker => congrArg (Option.getD · 0)
    (map_lookup_updateSpotGate TickerState.lastQuoteTime (fun _ _ _ => rfl) out tr ticker)⟩

theorem sameClocks_onSpotTick (env : Env) (out : Outside) (price : ℚ) (tr : Trader) :
    SameClocks tr (tr.onSpotTick env out price).trader :=
  onSpotTick_related (R := SameClocks) (fun _ _ _ => .trans) (fun _ _ => .of_tickers rfl rfl rfl)
    (sameClocks_updateSpotGate out) .of_timers env price tr

/-! ## Quote cycles -/

/-- No clock is rewound: a throttle clock and the backoff stay, or are set from the present. -/
structure Paced (mono : ℚ) (tr tr' : Trader) : Prop where
  cfg : tr'.cfg = tr.cfg
  backoff : tr'.state.balanceBackoffUntil = tr.state.balanceBackoffUntil ∨
    tr'.state.balanceBackoffUntil = mono + tr.cfg.mm.balanceBackoffS
  quotedAt : ∀ ticker, quotedAt tr'.state ticker = quotedAt tr.state ticker ∨
    quotedAt tr'.state ticker = mono

theorem SameClocks.paced {tr tr' : Trader} (same : SameClocks tr tr') (mono : ℚ) :
    Paced mono tr tr' :=
  ⟨same.cfg, Or.inl same.backoff, fun ticker => Or.inl (same.quotedAt ticker)⟩

theorem Paced.after {mono : ℚ} {a b c : Trader} (paced : Paced mono b c) (same : SameClocks a b) :
    Paced mono a c where
  cfg := paced.cfg.trans same.cfg
  backoff := by rw [← same.backoff, ← same.cfg]; exact paced.backoff
  quotedAt ticker := by rw [← same.quotedAt]; exact paced.quotedAt ticker

theorem planQuotes_clock (action : Action) (fvShift : ℚ) (ts : TickerState) (mm : MmParams)
    (maxInventory : ℤ) (openOrderCount : ℕ) (balanceBackoffUntil nowMono : ℚ) :
    let planned := planQuotes action fvShift ts mm maxInventory openOrderCount balanceBackoffUntil
      nowMono
    (planned.1 = { ts with lastQuoteTime := nowMono } ∨ planned.1 = ts ∧ planned.2 = none) ∧
      (planned.2.isSome = true → balanceBackoffUntil ≤ nowMono) := by
  unfold planQuotes
  split_ifs with throttled backedOff
  · exact ⟨Or.inr ⟨rfl, rfl⟩, nofun⟩
  · exact ⟨Or.inl rfl, nofun⟩
  · exact ⟨Or.inl rfl, fun _ => not_lt.mp backedOff⟩

theorem applyQuotePlan_backoff (api : OrderApi) (mm : MmParams) (category ticker : String)
    (plan : QuotePlan) (state : TraderState) (nowMono : ℚ) :
    let bid := (sendQuoteSide api plan.placeBid
      (quoteRequest ticker .buy plan.bidCents plan.bidSize)).1
    let ask := (sendQuoteSide api plan.placeAsk
      (quoteRequest ticker .sell plan.askCents plan.askSize)).1
    (applyQuotePlan api mm category ticker plan state nowMono).1.balanceBackoffUntil =
      if bid = some .insufficientBalance ∨ ask = some .insufficientBalance then
        nowMono + mm.balanceBackoffS
      else state.balanceBackoffUntil := by
  intro bid ask
  unfold applyQuotePlan
  dsimp only
  split_ifs <;> rfl

/-- A plan is made behind the backoff. -/
theorem planOf_clocks {out : Outside} {category ticker : String} {action : Action} {fvShift : ℚ}
    {tr : Trader} {plan : QuotePlan}
    (planned : planOf out category ticker action fvShift tr = some plan) :
    tr.state.balanceBackoffUntil ≤ out.mono :=
  (planQuotes_clock ..).2 (Option.isSome_iff_exists.mpr ⟨plan, planned⟩)

section QuoteCycle

variable (out : Outside) (category ticker : String) (action : Action) (fvShift : ℚ)
  (allow : Bool × Bool) (tr : Trader)

/-- What a quote cycle writes: one market, whose clock it advances unless it makes no plan. -/
theorem quoteCycle_written : ∃ ts,
    (tr.quoteCycle out category ticker action fvShift allow).trader.state.tickers =
      tr.state.tickers.insert ticker ts ∧
    (ts.lastQuoteTime = out.mono ∨
      ts.lastQuoteTime = (tr.state.tickerD ticker category).lastQuoteTime ∧
        planOf out category ticker action fvShift tr = none) ∧
    ts.book = (tr.state.tickerD ticker category).book ∧
    ts.position = (tr.state.tickerD ticker category).position ∧
    ts.entryPrice = (tr.state.tickerD ticker category).entryPrice := by
  obtain ⟨clocked, _⟩ := planQuotes_clock action fvShift (tr.state.tickerD ticker category) tr.cfg.mm
    (((tr.cats.lookup category).map CategoryConfig.maxInventory).getD 5) tr.state.openOrderCount
    tr.state.balanceBackoffUntil out.mono
  unfold Trader.quoteCycle planOf
  dsimp only
  split
  next unplanned =>
    refine ⟨_, rfl, ?_⟩
    rw [unplanned]
    obtain advanced | ⟨same, _⟩ := clocked
    · rw [advanced]
      exact ⟨Or.inl rfl, rfl, rfl, rfl⟩
    · rw [same]
      exact ⟨Or.inr ⟨rfl, rfl⟩, rfl, rfl, rfl⟩
  next plan planned =>
    obtain advanced | ⟨_, none_⟩ := clocked
    · rw [advanced, applyQuotePlan_tickers, TraderState.setTicker_tickers, Finmap.insert_insert,
        tickerD_setTicker]
      exact ⟨_, rfl, Or.inl rfl, rfl, rfl, rfl⟩
    · rw [planned] at none_
      cases none_

theorem ladderEntries_quoteCycle (event : String) :
    ladderEntries (tr.quoteCycle out category ticker action fvShift allow).trader event =
      ladderEntries tr event := by
  obtain ⟨ts, written, _, book, position, entryPrice⟩ :=
    quoteCycle_written out category ticker action fvShift allow tr
  refine ladderEntries_of_insert category written ?_
  unfold ladderShare
  rw [book, position, entryPrice]

theorem ladderTailGate_quoteCycle (other : String) :
    (tr.quoteCycle out category ticker action fvShift allow).trader.ladderTailGate other =
      tr.ladderTailGate other := by
  obtain ⟨_, only⟩ := quoteCycle_only out category ticker action fvShift allow tr
  exact ladderTailGate_of_entries (by rw [only]) fun event _ =>
    ladderEntries_quoteCycle out category ticker action fvShift allow tr event

theorem positionOf_quoteCycle (other : String) :
    (tr.quoteCycle out category ticker action fvShift allow).trader.positionOf other =
      tr.positionOf other := by
  obtain ⟨ts, written, _, _, position, _⟩ :=
    quoteCycle_written out category ticker action fvShift allow tr
  exact positionOf_of_kept written position other

theorem quoteCycle_backoff {plan : QuotePlan}
    (planned : planOf out category ticker action fvShift tr = some plan) :
    (tr.quoteCycle out category ticker action fvShift allow).trader.state.balanceBackoffUntil =
      if (bidSide out ticker allow plan).1 = some .insufficientBalance ∨
          (askSide out ticker allow plan).1 = some .insufficientBalance then
        out.mono + tr.cfg.mm.balanceBackoffS
      else tr.state.balanceBackoffUntil := by
  unfold planOf at planned
  unfold Trader.quoteCycle
  dsimp only
  rw [planned]
  exact applyQuotePlan_backoff ..

theorem quoteCycle_paced :
    Paced out.mono tr (tr.quoteCycle out category ticker action fvShift allow).trader := by
  obtain ⟨ts, written, clocked, _⟩ := quoteCycle_written out category ticker action fvShift allow tr
  obtain ⟨_, only⟩ := quoteCycle_only out category ticker action fvShift allow tr
  refine ⟨by rw [only], ?_, fun other => ?_⟩
  · cases planned : planOf out category ticker action fvShift tr with
    | none =>
      obtain ⟨_, _, idle⟩ := quoteCycle_of_none allow planned
      rw [idle]
      exact Or.inl rfl
    | some plan =>
      rw [quoteCycle_backoff out category ticker action fvShift allow tr planned]
      split_ifs
      · exact Or.inr rfl
      · exact Or.inl rfl
  · rw [quotedAt_of_insert written]
    split_ifs with same
    · rw [same, quotedAt_eq _ ticker category]
      exact clocked.symm.imp_left And.left
    · exact Or.inl rfl

/-- A cycle that executes a plan has advanced its market's clock to the present. -/
theorem quotedAt_quoteCycle {plan : QuotePlan}
    (planned : planOf out category ticker action fvShift tr = some plan) :
    quotedAt (tr.quoteCycle out category ticker action fvShift allow).trader.state ticker =
      out.mono := by
  obtain ⟨ts, written, advanced | ⟨_, unplanned⟩, _⟩ :=
    quoteCycle_written out category ticker action fvShift allow tr
  · rw [quotedAt_of_insert written, if_pos rfl, advanced]
  · rw [planned] at unplanned
    cases unplanned

end QuoteCycle

end KalshiMm.Verified
