import KalshiMm.Verified.SpotMoves

/-!
# The latch of the trend gate

At each evaluation the gate sees a level: the size of the one-minute return, or more than any return
while the feed is stale or has no minute of history.  Over a run the latch is a switch with
hysteresis on these levels: it does not flap, so the quotes of the spot-bound markets are not pulled
twice without a calm evaluation in between.
-/

namespace KalshiMm.Verified.GateLatch

open KalshiMm.Lib KalshiMm.Model SpotMoves

/-- What an evaluation of the gate sees. -/
def level (params : SpotParams) (probe : SpotState ℚ × ℚ) : WithTop ℚ :=
  if probe.1.isStale probe.2 params.staleMaxS then ⊤
  else
    match probe.1.ret 60 probe.2 with
    | some r => ((|r| : ℚ) : WithTop ℚ)
    | none => ⊤

/-- The levels that a run's evaluations of the gate see, in order. -/
def levels (env : Env) (tr : Trader) (moves : List Move) : List (WithTop ℚ) :=
  (outputs (Trader.move env) (evaluated env) tr moves).map (level tr.cfg.spot)

/-- The gate's two thresholds. -/
def gateBand (params : SpotParams) (positive : 0 ≤ params.gateRet60s)
    (fraction : params.gateReleaseRatio ≤ 1) : Band (WithTop ℚ) where
  trip := (params.gateRet60s : ℚ)
  release := (params.gateRet60s * params.gateReleaseRatio : ℚ)
  ordered := WithTop.coe_le_coe.mpr (mul_le_of_le_one_right positive fraction)

section Band

variable {params : SpotParams} (positive : 0 ≤ params.gateRet60s)
  (fraction : params.gateReleaseRatio ≤ 1)

theorem threshold_gateBand (latched : Bool) : (gateBand params positive fraction).threshold latched =
    ((if latched then params.gateRet60s * params.gateReleaseRatio else params.gateRet60s : ℚ) :
      WithTop ℚ) := by
  unfold Band.threshold gateBand
  split_ifs <;> rfl

theorem gatedBy_eq (latched : Bool) (probe : SpotState ℚ × ℚ) : gatedBy params latched probe =
    (gateBand params positive fraction).next latched (level params probe) := by
  have closed : (gateBand params positive fraction).next latched ⊤ = true := by
    rw [Band.next, threshold_gateBand]
    exact decide_eq_true (WithTop.coe_lt_top _)
  unfold gatedBy level
  split_ifs
  · exact closed.symm
  · cases probe.1.ret 60 probe.2 with
    | none => exact closed.symm
    | some r =>
      rw [Band.next, threshold_gateBand]
      simp only [trendGated, WithTop.coe_lt_coe]

theorem run_gatedBy (latched : Bool) (probes : List (SpotState ℚ × ℚ)) :
    run (gatedBy params) latched probes =
      run (gateBand params positive fraction).next latched (probes.map (level params)) := by
  induction probes generalizing latched with
  | nil => rfl
  | cons probe probes inductionHypothesis =>
    rw [run_cons, List.map_cons, run_cons, inductionHypothesis, gatedBy_eq positive fraction]

end Band

/-! ## Runs -/

/-- Without a spot-bound category the gate is never evaluated. -/
theorem evaluated_unbound {env : Env} {tr : Trader} (unbound : tr.spotBound = ∅) (m : Move) :
    evaluated env tr m = [] := by
  unfold evaluated
  split
  · exact if_neg fun all => all.1 unbound
  · exact if_neg fun both => both.1 unbound
  · rfl

theorem unevaluated_unbound {env : Env} {tr : Trader} (unbound : tr.spotBound = ∅)
    (moves : List Move) : outputs (Trader.move env) (evaluated env) tr moves = [] := by
  induction moves generalizing tr with
  | nil => rfl
  | cons m moves inductionHypothesis =>
    rw [outputs, evaluated_unbound unbound, List.nil_append]
    exact inductionHypothesis ((moves_move env tr m).bound.trans unbound)

theorem levels_unbound {env : Env} {tr : Trader} (unbound : tr.spotBound = ∅) (moves : List Move) :
    levels env tr moves = [] := by
  rw [levels, unevaluated_unbound unbound, List.map_nil]

theorem latched_unbound {env : Env} {tr : Trader} (unbound : tr.spotBound = ∅)
    (moves : List Move) : (run (Trader.move env) tr moves).spotGateOn = tr.spotGateOn := by
  rw [latched_run, unevaluated_unbound unbound, run_nil]

/-- The latch of the gate rises in a move; the quotes of the spot-bound markets are pulled. -/
def Pulls (env : Env) (tr : Trader) (m : Move) : Prop :=
  tr.spotGateOn = false ∧ (tr.move env m).spotGateOn = true

instance (env : Env) (tr : Trader) (m : Move) : Decidable (Pulls env tr m) :=
  inferInstanceAs (Decidable (_ ∧ _))

theorem spotBound_eq_empty {cfg : Config} (unfed : cfg.anySpotFeed = false) (epoch : ℚ) :
    (Trader.start cfg epoch).spotBound = ∅ := by
  have none : cfg.categories.filter (fun c => c.spotFeed.isSome) = [] :=
    List.filter_eq_nil_iff.mpr fun c member fed =>
      absurd (List.any_eq_true.mpr ⟨c, member, fed⟩) (Bool.eq_false_iff.mp unfed)
  unfold Trader.start
  dsimp only
  rw [none]
  rfl

/-- A configuration that is accepted has the gate's thresholds in order, if it has a spot feed. -/
theorem thresholds_of_accepted {cfg : Config} (accepted : cfg.validate = .ok ())
    (fed : cfg.anySpotFeed = true) : 0 ≤ cfg.spot.gateRet60s ∧ cfg.spot.gateReleaseRatio ≤ 1 := by
  unfold Config.validate at accepted
  split_ifs at accepted with _ invalid
  have sound := not_or.mp fun wrong => invalid ⟨fed, wrong⟩
  have fraction := (not_or.mp sound.2).2
  exact ⟨(not_le.mp sound.1).le, (not_not.mp fraction).2⟩

section Accepted

variable {env : Env} {cfg : Config} {tr : Trader}

/-- With a spot feed the latch is a switch on the levels. -/
theorem latched_eq (accepted : cfg.validate = .ok ()) (fed : cfg.anySpotFeed = true)
    (fixed : tr.cfg = cfg) (moves : List Move) : (run (Trader.move env) tr moves).spotGateOn =
      run (gateBand cfg.spot (thresholds_of_accepted accepted fed).1
        (thresholds_of_accepted accepted fed).2).next tr.spotGateOn (levels env tr moves) := by
  rw [latched_run, fixed, run_gatedBy, levels, fixed]

/-- Where the latch is closed first and open then, a level has let go of it. -/
theorem released_between (accepted : cfg.validate = .ok ()) (fixed : tr.cfg = cfg)
    (bound : tr.spotBound = (Trader.start cfg 0).spotBound) (closed : tr.spotGateOn = true)
    {moves : List Move} (opened : (run (Trader.move env) tr moves).spotGateOn = false) :
    ∃ level ∈ levels env tr moves,
      level ≤ ((cfg.spot.gateRet60s * cfg.spot.gateReleaseRatio : ℚ) : WithTop ℚ) := by
  cases fed : cfg.anySpotFeed with
  | false =>
    rw [latched_unbound (bound.trans (spotBound_eq_empty fed 0)), closed] at opened
    cases opened
  | true =>
    rw [latched_eq accepted fed fixed, closed] at opened
    exact Band.released_of_off opened

end Accepted

/-- In every run from startup under an accepted configuration: the latch is closed exactly if some
    evaluation saw a level above the trip threshold and none since saw one at the release threshold
    or below; and between two moves that pull the quotes, one did. -/
theorem latch_has_hysteresis {env : Env} {cfg : Config} (accepted : cfg.validate = .ok ())
    (out : Outside) (moves : List Move) :
    let start := Trader.startup env cfg out
    let trip : WithTop ℚ := (cfg.spot.gateRet60s : ℚ)
    let release : WithTop ℚ := (cfg.spot.gateRet60s * cfg.spot.gateReleaseRatio : ℚ)
    ((run (Trader.move env) start moves).spotGateOn = true ↔
      ∃ before level after, levels env start moves = before ++ level :: after ∧ trip < level ∧
        ∀ later ∈ after, release < later) ∧
    ∀ before first between second after,
      moves = before ++ first :: (between ++ second :: after) →
      Pulls env (run (Trader.move env) start before) first →
      Pulls env (run (Trader.move env) start (before ++ first :: between)) second →
      ∃ level ∈ levels env (run (Trader.move env) start (before ++ [first])) between,
        level ≤ release := by
  intro start trip release
  have started := moves_startup env cfg out
  constructor
  · cases fed : cfg.anySpotFeed with
    | false =>
      have unbound : start.spotBound = ∅ := started.bound.trans (spotBound_eq_empty fed _)
      rw [latched_unbound unbound, levels_unbound unbound, started.latched]
      refine iff_of_false Bool.false_ne_true ?_
      rintro ⟨before, level, after, split, _⟩
      exact absurd split.symm (List.append_ne_nil_of_right_ne_nil _ (List.cons_ne_nil _ _))
    | true =>
      rw [latched_eq accepted fed started.cfg, started.latched]
      exact Band.run_next_iff _
  · intro before first between second after _ pulled pulledAgain
    obtain ⟨cfgFixed, boundFixed⟩ := run_fixed env start (before ++ [first])
    refine released_between accepted (cfgFixed.trans started.cfg) (boundFixed.trans started.bound)
      ?_ ?_
    · rw [run_concat]
      exact pulled.2
    · rw [← run_append, List.append_assoc, List.singleton_append]
      exact pulledAgain.1

/-! ## Pulled twice -/

def tickAt (price mono : ℚ) : Move := .turn ⟨.spot price, listing ["KXBTCD-1"] mono⟩

/-- The first tick has no history behind it, the second a calm minute, the third a jump. -/
def tickMoves : List Move := [tickAt 100 0, tickAt 100 61, tickAt (1005 / 10) 62]

theorem latch_has_hysteresis_ticks :
    let env := marketEnv (some narrow)
    let cfg := marketCfg (some "BTC-USD")
    let start := Trader.startup env cfg (listing ["KXBTCD-1"] 0)
    (run (Trader.move env) start tickMoves).spotGateOn = true ∧
    (∃ before level after, levels env start tickMoves = before ++ level :: after ∧
      ((cfg.spot.gateRet60s : ℚ) : WithTop ℚ) < level) ∧
    ∃ level ∈ levels env (run (Trader.move env) start [tickAt 100 0]) [tickAt 100 61],
      level ≤ ((cfg.spot.gateRet60s * cfg.spot.gateReleaseRatio : ℚ) : WithTop ℚ) := by
  intro env cfg start
  have accepted : cfg.validate = .ok () := by decide +kernel
  have closed : (run (Trader.move env) start tickMoves).spotGateOn = true := by decide +kernel
  obtain ⟨latch, between⟩ := @latch_has_hysteresis env _ accepted (listing ["KXBTCD-1"] 0)
    tickMoves
  obtain ⟨before, level, after, split, trips, _⟩ := latch.mp closed
  refine ⟨closed, ⟨before, level, after, split, trips⟩, ?_⟩
  exact between [] (tickAt 100 0) [tickAt 100 61] (tickAt (1005 / 10) 62) [] rfl
    (by decide +kernel) (by decide +kernel)

end KalshiMm.Verified.GateLatch
