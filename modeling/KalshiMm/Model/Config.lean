import KalshiMm.Model.Json

/-!
# Deployment configuration (`config.rs`)

The parameters that drive the trader, with the source's defaults.  Fields nothing reads
(`capital`, `checkpoint_prefix`, `max_contracts`, `capital_allocation`, `vol_3mo`) are left out.
-/

namespace KalshiMm.Model

/-- Strategy hyperparameters, `[mm]`. -/
structure MmParams where
  maxInventory : ℤ := 20
  quoteSize : ℤ := 1
  makerFeeRate : ℚ := 175 / 10000
  takerFeeRate : ℚ := 7 / 100
  subpennyEnabled : Bool := true
  volFilterThreshold : ℚ := 5 / 100
  minQuoteEdge : ℚ := 1 / 100
  maxOpenOrders : ℕ := 60
  balanceBackoffS : ℚ := 60
  quoteBandLo : ℚ := 5 / 100
  quoteBandHi : ℚ := 95 / 100
  extremeQuoteSize : ℤ := 2
  extremeBand : ℚ := 10 / 100

/-- Spot-feed defense parameters, `[spot]`. -/
structure SpotParams where
  staleMaxS : ℚ := 10
  gateRet60s : ℚ := 15 / 10000
  gateReleaseRatio : ℚ := 7 / 10
  fvEmaTauS : ℚ := 60
  fvShiftMax : ℚ := 10 / 100
  unwindShift : ℚ := 4 / 100
  deltaMax : ℚ := 5 / 1000

/-- Per-category settings, `[[categories]]`. -/
structure CategoryConfig where
  name : String
  maxInventory : ℤ := 5
  spotFeed : Option String := none

/-- Account-level risk limits, `[live]`. -/
structure LiveConfig where
  maxDailyLoss : ℚ
  maxPositionValue : ℚ
  stopLossThreshold : ℚ
  haltOnConsecutiveLosses : ℕ := 0
  maxLadderTailLoss : ℚ := 5

/-- One deployment config file. -/
structure Config where
  live : LiveConfig
  mm : MmParams := {}
  spot : SpotParams := {}
  categories : List CategoryConfig

namespace Config

def anySpotFeed (cfg : Config) : Bool := cfg.categories.any fun c => c.spotFeed.isSome

/-- Checks beyond the file's shape; the spot gate's are made only where a category binds a feed. -/
def validate (cfg : Config) : Except String Unit :=
  if cfg.categories = [] then .error "no [[categories]]"
  else if cfg.anySpotFeed = true ∧ (cfg.spot.gateRet60s ≤ 0 ∨ cfg.spot.staleMaxS ≤ 0 ∨
      ¬ (0 < cfg.spot.gateReleaseRatio ∧ cfg.spot.gateReleaseRatio ≤ 1)) then
    .error ("spot gate params invalid (gate_ret_60s=" ++ displayF64 cfg.spot.gateRet60s ++
      ", stale_max_s=" ++ displayF64 cfg.spot.staleMaxS ++
      ", gate_release_ratio=" ++ displayF64 cfg.spot.gateReleaseRatio ++ ")")
  else if cfg.live.maxLadderTailLoss < 0 then
    .error ("max_ladder_tail_loss must be >= 0 (0 disables), got " ++
      displayF64 cfg.live.maxLadderTailLoss)
  else .ok ()

end Config

end KalshiMm.Model
