import KalshiMm.Model.Loop
import KalshiMm.Verified.Ladders

/-!
# What an accepted configuration leaves open

`validate` checks the parameters of the trend gate.  The spot path also rests on a positive time
constant, which `SpotState::new` asserts, on a shift cap that is no negative number, since the
clamp panics on inverted bounds, and on a delta cap that is none; these three it lets through.
-/

namespace KalshiMm.Verified.SpotConfig

open KalshiMm.Lib KalshiMm.Model

/-- A configuration that loads, with a category bound to a spot feed. -/
structure Accepted (cfg : Config) : Prop where
  valid : cfg.validate = .ok ()
  bound : ∃ c ∈ cfg.categories, c.spotFeed.isSome = true

/-- The spot path neither panics nor reads a delta out of its range under this configuration. -/
structure SpotPathSafe (cfg : Config) : Prop where
  starts : SpotState.new cfg.spot.fvEmaTauS ≠ none
  clamps : ∀ (tr : Trader) ticker category, tr.cfg = cfg → tr.tryFvShiftFor ticker category ≠ none
  deltas : ∀ (ladders : Ladders) ticker midOf delta,
    ladders.deltaFor ticker cfg.spot.deltaMax midOf = some delta →
    0 ≤ delta ∧ delta ≤ cfg.spot.deltaMax

/-! ## The three parameters -/

theorem new_start {cfg : Config} (positive : 0 < cfg.spot.fvEmaTauS) (epoch : ℚ) :
    SpotState.new cfg.spot.fvEmaTauS = some (Trader.start cfg epoch).spot :=
  if_pos positive

theorem tryFvShiftFor_eq {tr : Trader} (ordered : 0 ≤ tr.cfg.spot.fvShiftMax)
    (ticker category : String) :
    tr.tryFvShiftFor ticker category = some (tr.fvShiftFor ticker category) := by
  have bounds : -tr.cfg.spot.fvShiftMax ≤ tr.cfg.spot.fvShiftMax := by linarith
  unfold Trader.tryFvShiftFor Trader.fvShiftFor
  split_ifs with bound
  · cases tr.spot.latest with
    | none => rfl
    | some spotNow =>
      cases tr.spot.ema with
      | none => rfl
      | some ema =>
        cases tr.ladders.deltaFor ticker tr.cfg.spot.deltaMax tr.midOf with
        | none => rfl
        | some delta => simp only [tryClamp, if_pos bounds, Option.map_some]
  · rfl

/-- Where there is a delta, the shift is what the clamp makes of it. -/
theorem tryFvShiftFor_of_delta {tr : Trader} {ticker category : String} {spotNow ema delta : ℚ}
    (bound : category ∈ tr.spotBound) (latest : tr.spot.latest = some spotNow)
    (average : tr.spot.ema = some ema)
    (found : tr.ladders.deltaFor ticker tr.cfg.spot.deltaMax tr.midOf = some delta) :
    tr.tryFvShiftFor ticker category = (tryClamp (delta * (spotNow - ema))
      (-tr.cfg.spot.fvShiftMax) tr.cfg.spot.fvShiftMax).map some := by
  unfold Trader.tryFvShiftFor
  rw [if_neg (not_not.mpr bound)]
  simp only [latest, average, found]

theorem deltaFor_range {ladders : Ladders} {ticker : String} {deltaMax delta : ℚ}
    {midOf : String → Option ℚ} (capped : 0 ≤ deltaMax)
    (found : ladders.deltaFor ticker deltaMax midOf = some delta) :
    0 ≤ delta ∧ delta ≤ deltaMax := by
  simp only [Ladders.deltaFor, Option.bind_eq_bind, Option.bind_eq_some_iff,
    Option.guard_eq_some', Option.pure_def, Option.some.injEq, exists_const] at found
  obtain ⟨_, _, _, _, _, _, _, _, _, _, _, _, _, density, rfl⟩ := found
  exact ⟨le_min density capped, min_le_right _ _⟩

/-! ## Where the path breaks -/

/-- Two markets of one ladder with the same valid book. -/
def pairState : TraderState :=
  let ts := { TickerState.new "KXBTCD" with
    book := { yes := Finmap.singleton 400 10, no := Finmap.singleton 500 10 } }
  ((TraderState.new 0).setTicker "KXBTCD-26JUL1517-T64000" ts).setTicker
    "KXBTCD-26JUL1517-T64250" ts

/-- The trader of a configuration after a first tick, with two markets of one ladder. -/
def pairTrader (cfg : Config) : Trader :=
  { Trader.start cfg 0 with
    state := pairState
    spot := { ticks := [(0, 64100)], ema := some 64100, tauS := cfg.spot.fvEmaTauS }
    ladders := Ladders.build ["KXBTCD-26JUL1517-T64000", "KXBTCD-26JUL1517-T64250"] }

theorem deltaFor_pairTrader (cfg : Config) : (pairTrader cfg).ladders.deltaFor
    "KXBTCD-26JUL1517-T64000" cfg.spot.deltaMax (pairTrader cfg).midOf =
      some (min 0 cfg.spot.deltaMax) := by
  have mid : ∀ ticker ∈ ["KXBTCD-26JUL1517-T64000", "KXBTCD-26JUL1517-T64250"],
      ((pairState.tickers.lookup ticker).bind fun ts => ts.book.mid) = some (9 / 20) := by
    decide +kernel
  have parsed : parseStrike "KXBTCD-26JUL1517-T64000" = some ("26JUL1517", 64000) := by
    decide +kernel
  have parsed' : parseStrike "KXBTCD-26JUL1517-T64250" = some ("26JUL1517", 64250) := by
    decide +kernel
  exact Ladders.deltaFor_pair (by norm_num) parsed parsed' (mid _ (by simp)) (mid _ (by simp))

theorem tryFvShiftFor_pairTrader {cfg : Config} {c : CategoryConfig} (listed : c ∈ cfg.categories)
    (bound : c.spotFeed.isSome = true) (inverted : cfg.spot.fvShiftMax < 0) :
    (pairTrader cfg).tryFvShiftFor "KXBTCD-26JUL1517-T64000" c.name = none := by
  have spotBound : c.name ∈ (pairTrader cfg).spotBound := by
    refine List.mem_toFinset.mpr (List.mem_map_of_mem ?_)
    exact List.mem_filter.mpr ⟨listed, bound⟩
  have bounds : ¬ -cfg.spot.fvShiftMax ≤ cfg.spot.fvShiftMax := by linarith
  rw [tryFvShiftFor_of_delta spotBound rfl rfl (deltaFor_pairTrader cfg)]
  exact congrArg (Option.map some) (if_neg bounds)

/-- An accepted configuration is safe on the spot path exactly where the three parameters that
    go unchecked have their signs. -/
theorem spotPathSafe_iff {cfg : Config} (accepted : Accepted cfg) : SpotPathSafe cfg ↔
    0 < cfg.spot.fvEmaTauS ∧ 0 ≤ cfg.spot.fvShiftMax ∧ 0 ≤ cfg.spot.deltaMax := by
  constructor
  · intro safe
    obtain ⟨c, listed, bound⟩ := accepted.bound
    refine ⟨?_, ?_, ?_⟩
    · by_contra tau
      exact safe.starts (if_neg tau)
    · by_contra shift
      exact safe.clamps (pairTrader cfg) _ _ rfl
        (tryFvShiftFor_pairTrader listed bound (not_le.mp shift))
    · obtain ⟨nonneg, _⟩ := safe.deltas _ _ _ _ (deltaFor_pairTrader cfg)
      exact (le_min_iff.mp nonneg).2
  · rintro ⟨tau, shift, delta⟩
    constructor
    · rw [new_start tau 0]
      exact Option.some_ne_none _
    · rintro tr ticker category rfl
      rw [tryFvShiftFor_eq shift]
      exact Option.some_ne_none _
    · intro ladders ticker midOf delta_ found
      exact deltaFor_range delta found

/-- The deployment's limits, with a time constant to choose. -/
def sampleConfig (fvEmaTauS : ℚ) : Config where
  live := { maxDailyLoss := 5, maxPositionValue := 40, stopLossThreshold := -10 }
  spot := { fvEmaTauS }
  categories := [{ name := "KXBTCD", spotFeed := some "BTC-USD" }]

/-- No time constant is refused. -/
theorem accepted_sample (fvEmaTauS : ℚ) : Accepted (sampleConfig fvEmaTauS) where
  valid := by norm_num [Config.validate, Config.anySpotFeed, sampleConfig]
  bound := ⟨_, List.mem_singleton.mpr rfl, rfl⟩

theorem spotPathSafe_sample : SpotPathSafe (sampleConfig 60) := by
  refine (spotPathSafe_iff (accepted_sample 60)).mpr ⟨?_, ?_, ?_⟩
  · norm_num [sampleConfig]
  · norm_num [sampleConfig]
  · norm_num [sampleConfig]

/-- A time constant of zero loads, and the trader dies building its spot state. -/
theorem zero_tau_accepted : Accepted (sampleConfig 0) ∧
    SpotState.new (sampleConfig 0).spot.fvEmaTauS = none ∧ ¬ SpotPathSafe (sampleConfig 0) := by
  have crash : SpotState.new (sampleConfig 0).spot.fvEmaTauS = none := if_neg (lt_irrefl 0)
  refine ⟨accepted_sample 0, crash, ?_⟩
  intro safe
  exact safe.starts crash

end KalshiMm.Verified.SpotConfig
