import KalshiMm.Lib.Hysteresis
import KalshiMm.Verified.Handlers

/-!
# What moves do to the spot path

Accepted ticks move the price state.  They and the exit timer evaluate the gate and latch what they
find.  Every other move leaves both as they are.
-/

namespace KalshiMm.Verified.SpotMoves

open KalshiMm.Lib KalshiMm.Model

/-- The tick that a move folds into the price state, if it is one that is accepted. -/
def ticked (env : Env) (tr : Trader) : Move → List (ℚ × ℚ)
  | .turn ⟨.spot price, out⟩ =>
    if tr.running ∧ (tr.spot.onTick env.exp price out.mono).2 then [(out.mono, price)] else []
  | _ => []

/-- The price state after a move. -/
def spotAfter (env : Env) (tr : Trader) : Move → SpotState ℚ
  | .turn ⟨.spot price, out⟩ =>
    if tr.running then (tr.spot.onTick env.exp price out.mono).1 else tr.spot
  | _ => tr.spot

/-- The price state and the time at which a move evaluates the gate, if it does. -/
def evaluated (env : Env) (tr : Trader) : Move → List (SpotState ℚ × ℚ)
  | .turn ⟨.spot price, out⟩ =>
    if tr.spotBound ≠ ∅ ∧ tr.running ∧ (tr.spot.onTick env.exp price out.mono).2 then
      [((tr.spot.onTick env.exp price out.mono).1, out.mono)]
    else []
  | .turn ⟨.exits, out⟩ => if tr.spotBound ≠ ∅ ∧ tr.running then [(tr.spot, out.mono)] else []
  | _ => []

/-- The gate for a price state, latched open or closed. -/
def gatedBy (params : SpotParams) (latched : Bool) (probe : SpotState ℚ × ℚ) : Bool :=
  if probe.1.isStale probe.2 params.staleMaxS then true
  else
    match probe.1.ret 60 probe.2 with
    | some r => trendGated |r| latched params.gateRet60s params.gateReleaseRatio
    | none => true

theorem spotGated_eq (tr : Trader) (nowMono : ℚ) :
    tr.spotGated nowMono = gatedBy tr.cfg.spot tr.spotGateOn (tr.spot, nowMono) := rfl

/-- The configuration stays, the price state and the latch become these. -/
structure Moves (tr tr' : Trader) (spot : SpotState ℚ) (latched : Bool) : Prop where
  cfg : tr'.cfg = tr.cfg
  bound : tr'.spotBound = tr.spotBound
  spot : tr'.spot = spot
  latched : tr'.spotGateOn = latched

namespace Moves

theorem refl (tr : Trader) : Moves tr tr tr.spot tr.spotGateOn := ⟨rfl, rfl, rfl, rfl⟩

theorem of_bookkeeping {tr tr' : Trader} (books : Bookkeeping tr tr') :
    Moves tr tr' tr.spot tr.spotGateOn := by
  obtain ⟨⟨_, _, rfl⟩, _⟩ := books
  exact ⟨rfl, rfl, rfl, rfl⟩

theorem of_timers {tr a b : Trader} {spot : SpotState ℚ} {latched : Bool}
    (moves : Moves tr a spot latched) (timers : Timers a b) : Moves tr b spot latched := by
  obtain ⟨_, _, _, rfl⟩ := timers
  exact ⟨moves.cfg, moves.bound, moves.spot, moves.latched⟩

end Moves

theorem moves_onBookUpdate (env : Env) (out : Outside) (ticker : String) (msg : Value)
    (tr : Trader) :
    Moves tr (tr.onBookUpdate env out ticker msg).trader tr.spot tr.spotGateOn := by
  have ends := onBookUpdate_outcome env out ticker msg tr
  generalize tr.onBookUpdate env out ticker msg = outcome at ends
  cases ends with
  | kept books => exact .of_bookkeeping books
  | halted books =>
    have kept := Moves.of_bookkeeping books
    exact ⟨kept.cfg, kept.bound, kept.spot, kept.latched⟩
  | @quoted tr' category action fvShift allow _ books _ _ _ =>
    have kept := Moves.of_bookkeeping books
    obtain ⟨_, only⟩ := quoteCycle_only out category ticker action fvShift allow tr'
    rw [only]
    exact ⟨kept.cfg, kept.bound, kept.spot, kept.latched⟩

/-- An evaluation latches what it finds. -/
theorem moves_updateSpotGate (out : Outside) {tr : Trader} (bound : tr.spotBound ≠ ∅) :
    Moves tr (tr.updateSpotGate out).trader tr.spot (tr.spotGated out.mono) := by
  unfold Trader.updateSpotGate
  rw [if_neg bound]
  dsimp only
  split_ifs <;> exact ⟨rfl, rfl, rfl, rfl⟩

theorem updateSpotGate_unbound (out : Outside) {tr : Trader} (unbound : tr.spotBound = ∅) :
    tr.updateSpotGate out = ⟨tr, []⟩ := if_pos unbound

/-- A tick that is dropped leaves the price state as it is. -/
theorem onTick_dropped {exp : ℚ → ℚ} {s : SpotState ℚ} {price nowMono : ℚ}
    (dropped : (s.onTick exp price nowMono).2 = false) : (s.onTick exp price nowMono).1 = s := by
  unfold SpotState.onTick at dropped ⊢
  split_ifs at dropped ⊢
  · rfl
  · split at dropped
    · split_ifs at dropped ⊢
      · rfl
    · cases dropped

/-- A move folds its tick, and latches what its evaluations of the gate find. -/
theorem moves_move (env : Env) (tr : Trader) (m : Move) :
    Moves tr (tr.move env m) (spotAfter env tr m)
      (run (gatedBy tr.cfg.spot) tr.spotGateOn (evaluated env tr m)) := by
  cases m with
  | poll out ticker =>
    unfold Trader.move Trader.carryOut Trader.pollMarket
    dsimp only
    split
    · exact .refl tr
    · exact moves_onBookUpdate ..
  | turn arrival =>
    obtain ⟨event, out⟩ := arrival
    unfold Trader.move Trader.carryOut Trader.turn
    dsimp only
    split_ifs with running
    · unfold Trader.handle
      cases event with
      | book ticker msg => exact moves_onBookUpdate ..
      | trade ticker msg => exact .of_bookkeeping (bookkeeping_onTrade ..)
      | fill raw => exact .of_bookkeeping (bookkeeping_processFill ..)
      | sync => exact .of_bookkeeping (bookkeeping_syncPositions ..)
      | daily => exact .of_bookkeeping (bookkeeping_maybeDailyReset ..)
      | refresh =>
        obtain ⟨same, _⟩ | ⟨_, rolled, _⟩ := refreshMarkets_cases env out tr
        · dsimp only
          rw [same]
          exact .refl tr
        · obtain ⟨_, _, _, _, _, only⟩ := rolled.only
          dsimp only
          rw [only]
          exact ⟨rfl, rfl, rfl, rfl⟩
      | exits =>
        refine Moves.of_timers ?_ (timers_checkExits out _)
        unfold spotAfter evaluated
        dsimp only
        by_cases bound : tr.spotBound = ∅
        · rw [updateSpotGate_unbound out bound, if_neg fun both => both.1 bound]
          exact .refl tr
        · rw [if_pos ⟨bound, running⟩]
          exact moves_updateSpotGate out bound
      | spot price =>
        unfold spotAfter evaluated Trader.onSpotTick
        dsimp only
        rw [if_pos running]
        cases accepted : (tr.spot.onTick env.exp price out.mono).2 with
        | false =>
          rw [if_neg Bool.false_ne_true, if_neg fun all => Bool.false_ne_true all.2.2]
          exact ⟨rfl, rfl, rfl, rfl⟩
        | true =>
          let ticked : Trader := { tr with spot := (tr.spot.onTick env.exp price out.mono).1 }
          refine Moves.of_timers (a := (ticked.updateSpotGate out).trader) ?_
            (timers_checkSpotUnwind out _)
          by_cases bound : tr.spotBound = ∅
          · have still : ticked.updateSpotGate out = ⟨ticked, []⟩ := updateSpotGate_unbound out bound
            rw [still, if_neg fun all => all.1 bound]
            exact ⟨rfl, rfl, rfl, rfl⟩
          · rw [if_pos ⟨bound, running, rfl⟩]
            have moves : Moves ticked (ticked.updateSpotGate out).trader ticked.spot
                (ticked.spotGated out.mono) := moves_updateSpotGate out bound
            exact ⟨moves.cfg, moves.bound, moves.spot, moves.latched⟩
    · have silent : spotAfter env tr (.turn ⟨event, out⟩) = tr.spot ∧
          evaluated env tr (.turn ⟨event, out⟩) = [] := by
        unfold spotAfter evaluated
        cases event <;> simp [running]
      rw [silent.1, silent.2]
      exact .refl tr

/-! ## Runs -/

theorem Moves.trans {a b c : Trader} {spot : SpotState ℚ} {latched : Bool}
    (first : Moves a b spot latched) (second : Moves b c b.spot b.spotGateOn) :
    Moves a c spot latched where
  cfg := second.cfg.trans first.cfg
  bound := second.bound.trans first.bound
  spot := second.spot.trans first.spot
  latched := second.latched.trans first.latched

/-- The startup leaves the spot path as it is built. -/
theorem moves_startup (env : Env) (cfg : Config) (out : Outside) :
    Moves (Trader.start cfg out.epoch) (Trader.startup env cfg out)
      { tauS := cfg.spot.fvEmaTauS } false := by
  let listed := (Trader.start cfg out.epoch).discoverMarkets env out
  let fetched := Trader.fetchMarketDetails env out (listed.allEntries out) listed
  let synced := fetched.syncPositions out
  let built : Trader :=
    { synced with ladders := Ladders.build (out.hash.enumerate synced.activeTickers.keys) }
  have lists : Moves (Trader.start cfg out.epoch) listed { tauS := cfg.spot.fvEmaTauS } false :=
    ⟨rfl, rfl, rfl, rfl⟩
  have fetches : Moves listed fetched listed.spot listed.spotGateOn :=
    .of_bookkeeping (refetch_fetchMarketDetails env out (listed.allEntries out) listed).books
  have syncs : Moves fetched synced fetched.spot fetched.spotGateOn :=
    .of_bookkeeping (bookkeeping_syncPositions out fetched)
  have builds : Moves synced built synced.spot synced.spotGateOn := ⟨rfl, rfl, rfl, rfl⟩
  exact (((lists.trans fetches).trans syncs).trans builds).trans
    (.of_bookkeeping (refetch_fetchInitialSnapshots out (built.allEntries out) built).books)

/-- The configuration is fixed for a run. -/
theorem run_fixed (env : Env) (tr : Trader) (moves : List Move) :
    (run (Trader.move env) tr moves).cfg = tr.cfg ∧
      (run (Trader.move env) tr moves).spotBound = tr.spotBound :=
  run_related (R := fun a b : Trader => b.cfg = a.cfg ∧ b.spotBound = a.spotBound)
    (fun _ => ⟨rfl, rfl⟩) (fun _ _ _ first second =>
      ⟨second.1.trans first.1, second.2.trans first.2⟩)
    (fun tr m => ⟨(moves_move env tr m).cfg, (moves_move env tr m).bound⟩) tr moves

/-- The latch after a run is what the evaluations of the gate on the way make of it. -/
theorem latched_run (env : Env) (tr : Trader) (moves : List Move) :
    (run (Trader.move env) tr moves).spotGateOn =
      run (gatedBy tr.cfg.spot) tr.spotGateOn
        (outputs (Trader.move env) (evaluated env) tr moves) := by
  induction moves generalizing tr with
  | nil => rfl
  | cons m moves inductionHypothesis =>
    have first := moves_move env tr m
    rw [run_cons, inductionHypothesis, outputs, run_append, first.cfg, first.latched]

end KalshiMm.Verified.SpotMoves
