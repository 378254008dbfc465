import KalshiMm.Verified.Ladders
import KalshiMm.Verified.OrderFlow

/-!
# The spot shift on the live universe

Ladders and active set are kept beside the universe they are built from.  They agree with it in
every run, across refreshes too, so a quote behind the spot gate is planned around a shift read off
the nearest strikes that are active when it is sent.
-/

namespace KalshiMm.Verified.LadderShifts

open KalshiMm.Lib KalshiMm.Model

/-! ## What is kept beside the universe -/

/-- The active set and the ladders are those of the universe. -/
structure Derived (tr : Trader) : Prop where
  activeSet : tr.activeSet = tr.activeTickers.keys
  ladders : ∃ tickers : List String, tickers.Nodup ∧
    (∀ ticker, ticker ∈ tickers ↔ ticker ∈ tr.activeTickers) ∧ tr.ladders = Ladders.build tickers

/-- The universe is the same, and so is what is kept beside it. -/
structure SameUniverse (tr tr' : Trader) : Prop where
  active : tr'.activeTickers = tr.activeTickers
  activeSet : tr'.activeSet = tr.activeSet
  ladders : tr'.ladders = tr.ladders

namespace SameUniverse

theorem refl (tr : Trader) : SameUniverse tr tr := ⟨rfl, rfl, rfl⟩

theorem trans {a b c : Trader} (first : SameUniverse a b) (second : SameUniverse b c) :
    SameUniverse a c where
  active := second.active.trans first.active
  activeSet := second.activeSet.trans first.activeSet
  ladders := second.ladders.trans first.ladders

theorem of_bookkeeping {tr tr' : Trader} (books : Bookkeeping tr tr') : SameUniverse tr tr' := by
  obtain ⟨⟨_, _, rfl⟩, _⟩ := books
  exact ⟨rfl, rfl, rfl⟩

theorem of_timers {tr tr' : Trader} (timers : Timers tr tr') : SameUniverse tr tr' := by
  obtain ⟨_, _, _, rfl⟩ := timers
  exact ⟨rfl, rfl, rfl⟩

theorem derived {tr tr' : Trader} (same : SameUniverse tr tr') (derived : Derived tr) :
    Derived tr' where
  activeSet := by rw [same.activeSet, same.active, derived.activeSet]
  ladders := by
    rw [same.ladders, same.active]
    exact derived.ladders

end SameUniverse

theorem sameUniverse_updateSpotGate (out : Outside) (tr : Trader) :
    SameUniverse tr (tr.updateSpotGate out).trader := by
  unfold Trader.updateSpotGate
  dsimp only
  split_ifs <;> exact ⟨rfl, rfl, rfl⟩

theorem sameUniverse_onBookUpdate (env : Env) (out : Outside) (ticker : String) (msg : Value)
    (tr : Trader) : SameUniverse tr (tr.onBookUpdate env out ticker msg).trader := by
  have ends := onBookUpdate_outcome env out ticker msg tr
  generalize tr.onBookUpdate env out ticker msg = outcome at ends
  cases ends with
  | kept books => exact .of_bookkeeping books
  | halted books => exact (SameUniverse.of_bookkeeping books).trans ⟨rfl, rfl, rfl⟩
  | @quoted tr' category action fvShift allow _ books _ _ _ =>
    obtain ⟨_, only⟩ := quoteCycle_only out category ticker action fvShift allow tr'
    rw [only]
    exact (SameUniverse.of_bookkeeping books).trans ⟨rfl, rfl, rfl⟩

theorem sameUniverse_onSpotTick (env : Env) (out : Outside) (price : ℚ) (tr : Trader) :
    SameUniverse tr (tr.onSpotTick env out price).trader := by
  unfold Trader.onSpotTick
  dsimp only
  split_ifs
  · have ticked : SameUniverse tr { tr with spot := (tr.spot.onTick env.exp price out.mono).1 } :=
      ⟨rfl, rfl, rfl⟩
    exact (ticked.trans (sameUniverse_updateSpotGate out _)).trans
      (.of_timers (timers_checkSpotUnwind out _))
  · exact ⟨rfl, rfl, rfl⟩

/-- A refresh that rolls the universe over builds both again. -/
theorem derived_refreshMarkets (env : Env) (out : Outside) {tr : Trader} (derived : Derived tr) :
    Derived (tr.refreshMarkets env out) := by
  unfold Trader.refreshMarkets
  dsimp only
  split_ifs
  · exact derived
  · exact derived
  · let discovered := Trader.discoverUniverse env out
    let added := tr.addedEntries out discovered
    have fetched : SameUniverse (rolledOver tr discovered) (fetchAdded env out tr discovered) :=
      .of_bookkeeping ((refetch_fetchMarketDetails env out added _).trans
        (refetch_fetchInitialSnapshots out added _)).books
    refine ⟨fetched.activeSet.trans ?_, ?_⟩
    · exact congrArg Finmap.keys fetched.active.symm
    · exact ⟨_, out.hash.nodup _, fun ticker => (out.hash.mem _ _).trans Finmap.mem_keys, rfl⟩

theorem derived_move (env : Env) {tr : Trader} (derived : Derived tr) (m : Move) :
    Derived (tr.move env m) := by
  cases m with
  | poll out ticker =>
    unfold Trader.move Trader.carryOut Trader.pollMarket
    dsimp only
    split
    · exact derived
    · exact (sameUniverse_onBookUpdate ..).derived derived
  | turn arrival =>
    obtain ⟨event, out⟩ := arrival
    unfold Trader.move Trader.carryOut Trader.turn
    dsimp only
    split_ifs
    · unfold Trader.handle
      cases event with
      | book ticker msg => exact (sameUniverse_onBookUpdate ..).derived derived
      | trade ticker msg => exact (SameUniverse.of_bookkeeping (bookkeeping_onTrade ..)).derived derived
      | spot price => exact (sameUniverse_onSpotTick ..).derived derived
      | fill raw => exact (SameUniverse.of_bookkeeping (bookkeeping_processFill ..)).derived derived
      | sync => exact (SameUniverse.of_bookkeeping (bookkeeping_syncPositions ..)).derived derived
      | exits =>
        exact ((sameUniverse_updateSpotGate out tr).trans
          (.of_timers (timers_checkExits out _))).derived derived
      | daily =>
        exact (SameUniverse.of_bookkeeping (bookkeeping_maybeDailyReset ..)).derived derived
      | refresh => exact derived_refreshMarkets env out derived
    · exact derived

theorem derived_startup (env : Env) (cfg : Config) (out : Outside) :
    Derived (Trader.startup env cfg out) := by
  let listed := (Trader.start cfg out.epoch).discoverMarkets env out
  let fetched := Trader.fetchMarketDetails env out (listed.allEntries out) listed
  let synced := fetched.syncPositions out
  let built : Trader :=
    { synced with ladders := Ladders.build (out.hash.enumerate synced.activeTickers.keys) }
  have before : SameUniverse listed synced :=
    (SameUniverse.of_bookkeeping
      (refetch_fetchMarketDetails env out (listed.allEntries out) listed).books).trans
      (.of_bookkeeping (bookkeeping_syncPositions out fetched))
  have builds : Derived built :=
    { activeSet := before.activeSet.trans (congrArg Finmap.keys before.active.symm)
      ladders := ⟨_, out.hash.nodup _, fun ticker => (out.hash.mem _ _).trans Finmap.mem_keys, rfl⟩ }
  exact (SameUniverse.of_bookkeeping
    (refetch_fetchInitialSnapshots out (built.allEntries out) built).books).derived builds

/-! ## The slope of a ladder -/

/-- An active market, as a rung of its expiry's ladder. -/
def Listed (active : Dict String String) (ticker group : String) (strike : ℚ) : Prop :=
  ticker ∈ active ∧ parseStrike ticker = some (group, strike)

/-- The active strikes of one expiry. -/
def Strikes (active : Dict String String) (group : String) : Set (ℚ × String) :=
  {rung | Listed active rung.2 group rung.1}

/-- No two active markets of one expiry share a strike. -/
def DistinctStrikes (active : Dict String String) : Prop :=
  ∀ group first second strike, Listed active first group strike → Listed active second group strike →
    first = second

/-- How much the mids fall for a unit of strike, between the nearest active strikes around a market
    (the market itself at an end of its ladder). -/
inductive Slopes (tr : Trader) (ticker : String) : ℚ → Prop where
  | between {group : String} {strike midLo midHi : ℚ} {lo hi : ℚ × String}
      (listed : Listed tr.activeTickers ticker group strike)
      (lower : LowerEnd Prod.fst (Strikes tr.activeTickers group) (strike, ticker) lo)
      (upper : UpperEnd Prod.fst (Strikes tr.activeTickers group) (strike, ticker) hi)
      (apart : lo.1 < hi.1) (low : tr.midOf lo.2 = some midLo) (high : tr.midOf hi.2 = some midHi)
      (falls : midHi ≤ midLo) : Slopes tr ticker ((midLo - midHi) / (hi.1 - lo.1))

section Slopes

variable {tr : Trader} {tickers : List String} {ticker group : String} {strike : ℚ}

theorem member_iff (covers : ∀ ticker, ticker ∈ tickers ↔ ticker ∈ tr.activeTickers) :
    Ladders.Member tickers ticker group strike ↔ Listed tr.activeTickers ticker group strike :=
  and_congr_left' (covers ticker)

theorem rungs_eq (covers : ∀ ticker, ticker ∈ tickers ↔ ticker ∈ tr.activeTickers) :
    Ladders.Rungs tickers group = Strikes tr.activeTickers group :=
  Set.ext fun _ => member_iff covers

/-- The delta is the capped slope of the active strikes, and there is none where these have no slope
    at the market. -/
theorem deltaFor_derived (derived : Derived tr) (distinct : DistinctStrikes tr.activeTickers)
    (ticker : String) (deltaMax : ℚ) :
    (∃ density, Slopes tr ticker density ∧
      tr.ladders.deltaFor ticker deltaMax tr.midOf = some (min deltaMax density)) ∨
    (tr.ladders.deltaFor ticker deltaMax tr.midOf = none ∧ ∀ density, ¬ Slopes tr ticker density) := by
  obtain ⟨tickers, nodup, covers, built⟩ := derived.ladders
  rw [built]
  by_cases known : ∃ group strike, Listed tr.activeTickers ticker group strike
  · obtain ⟨group, strike, listed⟩ := known
    have apart : Ladders.DistinctStrikes tickers group := fun first second strike one two =>
      distinct group first second strike ((member_iff covers).mp one) ((member_iff covers).mp two)
    have separate := Ladders.rungs_injOn apart
    obtain ⟨lo, hi, lower, upper, computed⟩ := Ladders.deltaFor_member nodup apart
      ((member_iff covers).mpr listed) deltaMax tr.midOf
    rw [rungs_eq covers] at lower upper separate
    -- the ends are unique, so a slope is one between these
    have same {density : ℚ} (slopes : Slopes tr ticker density) : ∃ midLo midHi, lo.1 < hi.1 ∧
        tr.midOf lo.2 = some midLo ∧ tr.midOf hi.2 = some midHi ∧ midHi ≤ midLo := by
      obtain ⟨listed', lower', upper', below, low, high, falls⟩ := slopes
      obtain ⟨rfl, rfl⟩ : group = _ ∧ strike = _ := by simpa [listed.2] using listed'.2
      obtain rfl := lower.unique separate lower'
      obtain rfl := upper.unique separate upper'
      exact ⟨_, _, below, low, high, falls⟩
    rw [computed]
    split_ifs with lone
    · refine Or.inr ⟨rfl, fun density slopes => ?_⟩
      obtain ⟨_, _, below, _⟩ := same slopes
      rw [lone.1, lone.2] at below
      exact lt_irrefl _ below
    · cases sloped : Ladders.slope deltaMax tr.midOf lo hi with
      | some delta =>
        obtain ⟨midLo, midHi, low, high, below, density, rfl⟩ := Ladders.slope_eq_some sloped
        have falls : midHi ≤ midLo := by
          rwa [le_div_iff₀ (sub_pos.mpr below), zero_mul, sub_nonneg] at density
        exact Or.inl ⟨_, .between listed lower upper below low high falls, rfl⟩
      | none =>
        refine Or.inr ⟨rfl, fun density slopes => ?_⟩
        obtain ⟨midLo, midHi, below, low, high, falls⟩ := same slopes
        obtain missing | missing | ⟨_, _, low', high', rises⟩ :=
          (Ladders.slope_eq_none_iff below).mp sloped
        · cases low.symm.trans missing
        · cases high.symm.trans missing
        · cases low.symm.trans low'
          cases high.symm.trans high'
          exact absurd rises falls.not_gt
  · refine Or.inr ⟨Ladders.deltaFor_of_not_member fun group strike member =>
      known ⟨group, strike, (member_iff covers).mp member⟩, fun density slopes => ?_⟩
    obtain ⟨listed, _⟩ := slopes
    exact known ⟨_, _, listed⟩

end Slopes

/-! ## Shifts of quotes -/

/-- What a quote of a spot-bound market is shifted by: the way the spot price is off its average,
    times the slope, each capped; or nothing, where the slope is unknown and could not make a tick. -/
inductive ShiftOf (tr : Trader) (ticker : String) : ℚ → Prop where
  | sloped {spotNow ema density : ℚ} (latest : tr.spot.latest = some spotNow)
      (average : tr.spot.ema = some ema) (slopes : Slopes tr ticker density) :
      ShiftOf tr ticker (clamp (min tr.cfg.spot.deltaMax density * (spotNow - ema))
        (-tr.cfg.spot.fvShiftMax) tr.cfg.spot.fvShiftMax)
  | negligible {spotNow ema : ℚ} (latest : tr.spot.latest = some spotNow)
      (average : tr.spot.ema = some ema) (unknown : ∀ density, ¬ Slopes tr ticker density)
      (small : tr.cfg.spot.deltaMax * |spotNow - ema| < 1 / 100) : ShiftOf tr ticker 0

theorem shiftOf_fvShiftFor {tr : Trader} {ticker category : String} {shift : ℚ}
    (derived : Derived tr) (distinct : DistinctStrikes tr.activeTickers)
    (bound : category ∈ tr.spotBound) (shifted : tr.fvShiftFor ticker category = some shift) :
    ShiftOf tr ticker shift := by
  unfold Trader.fvShiftFor at shifted
  rw [if_neg (not_not.mpr bound)] at shifted
  split at shifted
  next spotNow ema latest average =>
    obtain ⟨density, slopes, found⟩ | ⟨missing, unknown⟩ :=
      deltaFor_derived derived distinct ticker tr.cfg.spot.deltaMax
    · rw [found] at shifted
      cases shifted
      exact .sloped latest average slopes
    · rw [missing] at shifted
      dsimp only at shifted
      split_ifs at shifted with small
      cases shifted
      exact .negligible latest average unknown small
  · cases shifted

/-- A stage behind the spot gate is planned around the shift of the market with its message folded
    in. -/
theorem shiftOf_quoteStage {env : Env} {out : Outside} {ticker : String} {msg : Value} {tr : Trader}
    {stage : Stage} (derived : Derived tr) (distinct : DistinctStrikes tr.activeTickers)
    (reached : quoteStage env out ticker msg tr = some stage)
    (bound : stage.category ∈ tr.spotBound) :
    ShiftOf (foldedIn ticker stage.category msg tr) ticker stage.fvShift := by
  have active := (staged_of_quoteStage reached).active
  rw [quoteStage_of_active active] at reached
  dsimp only at reached
  split_ifs at reached
  split at reached
  · cases reached
  next fvShift shifted =>
    obtain ⟨action, _, same⟩ := Option.map_eq_some_iff.mp reached
    have folded : SameUniverse tr (foldedIn ticker stage.category msg tr) := ⟨rfl, rfl, rfl⟩
    unfold Trader.quoteShift at shifted
    rw [if_pos (show stage.category ∈ (foldedIn ticker stage.category msg tr).spotBound from bound)]
      at shifted
    split_ifs at shifted
    rw [← congrArg Stage.fvShift same]
    exact shiftOf_fvShiftFor (folded.derived derived) distinct bound shifted

/-- A quote that a move sends for a spot-bound market, where no active strikes coincide, is a side of
    the plan around the market's shift, once the book message of this move is folded in. -/
def QuotesShifted (env : Env) (tr : Trader) (m : Move) : Prop :=
  ∀ request reply category, OrderCall.place request reply ∈ (tr.carryOut env m).calls →
    request.timeInForce = .goodTillCanceled →
    tr.activeTickers.lookup request.ticker = some category → category ∈ tr.spotBound →
    DistinctStrikes tr.activeTickers →
    ∃ out msg stage plan side,
      QuoteSafety.bookUpdate tr m = some (out, request.ticker, msg) ∧
      quoteStage env out request.ticker msg tr = some stage ∧
      ShiftOf (foldedIn request.ticker category msg tr) request.ticker stage.fvShift ∧
      planOf out category request.ticker stage.action stage.fvShift stage.trader = some plan ∧
      request = sideRequest request.ticker plan side

theorem quotesShifted_of_derived {env : Env} {tr : Trader} {m : Move} (derived : Derived tr) :
    QuotesShifted env tr m := by
  intro request reply category sent rests active bound distinct
  obtain ⟨out, ticker, msg, stage, plan, side, updates, reached, planned, rfl⟩ :=
    side_of_quote sent rests
  rw [sideRequest_ticker] at active ⊢
  obtain rfl : stage.category = category :=
    Option.some.inj ((staged_of_quoteStage reached).active.symm.trans active)
  exact ⟨out, msg, stage, plan, side, updates, reached, shiftOf_quoteStage derived distinct reached bound,
    planned, rfl⟩

/-- In every run from startup the ladders are those of the active markets, and every quote of a
    spot-bound market is planned around the shift that the strikes active at that moment give, with
    the mids and the average of that moment. -/
theorem quotes_shifted_by_slope (env : Env) (cfg : Config) (out : Outside) (moves : List Move) :
    Throughout (Trader.move env) Derived (Trader.startup env cfg out) moves ∧
      Along (Trader.move env) (QuotesShifted env) (Trader.startup env cfg out) moves := by
  have kept : Throughout (Trader.move env) Derived (Trader.startup env cfg out) moves :=
    throughout_of_step (fun _ m derived => derived_move env derived m) (derived_startup env cfg out)
  exact ⟨kept, kept.along.imp fun _ _ => quotesShifted_of_derived⟩

end KalshiMm.Verified.LadderShifts
