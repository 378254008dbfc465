import KalshiMm.Verified.Clocks

/-!
# Moves that book nothing

Fills, position syncs and the daily reset are what moves positions, streaks, category halts and the
settlement counters.  Every other move of the loop is upkeep: it leaves all of these as they are.
-/

namespace KalshiMm.Verified

open KalshiMm.Lib KalshiMm.Model

/-- Positions, streaks, category halts and settlement counters are the same. -/
structure Upkeep (tr tr' : Trader) : Prop where
  cfg : tr'.cfg = tr.cfg
  checks : tr'.settlementChecks = tr.settlementChecks
  streaks : tr'.state.consecutiveLosses = tr.state.consecutiveLosses
  halted : tr'.state.haltedCategories = tr.state.haltedCategories
  positionOf : ∀ ticker, tr'.positionOf ticker = tr.positionOf ticker

namespace Upkeep

theorem refl (tr : Trader) : Upkeep tr tr := ⟨rfl, rfl, rfl, rfl, fun _ => rfl⟩

theorem trans {a b c : Trader} (first : Upkeep a b) (second : Upkeep b c) : Upkeep a c where
  cfg := second.cfg.trans first.cfg
  checks := second.checks.trans first.checks
  streaks := second.streaks.trans first.streaks
  halted := second.halted.trans first.halted
  positionOf ticker := (second.positionOf ticker).trans (first.positionOf ticker)

theorem foldl {α : Type} {f : Trader → α → Trader} (each : ∀ tr a, Upkeep tr (f tr a))
    (tr : Trader) (items : List α) : Upkeep tr (items.foldl f tr) :=
  run_related refl (fun _ _ _ => trans) each tr items

/-- A market is rewritten with the position it has. -/
theorem setTicker (tr : Trader) {ticker : String} (category : String) {ts : TickerState}
    (kept : ts.position = (tr.state.tickerD ticker category).position) :
    Upkeep tr { tr with state := tr.state.setTicker ticker ts } :=
  ⟨rfl, rfl, rfl, rfl, positionOf_of_kept rfl kept⟩

theorem of_sensed {ticker category : String} {tr tr' : Trader}
    (sensed : Sensed ticker category tr tr') : Upkeep tr tr' := by
  obtain ⟨_, _, _, _, rfl⟩ := sensed
  exact setTicker tr category rfl

theorem of_timers {tr tr' : Trader} (timers : Timers tr tr') : Upkeep tr tr' := by
  obtain ⟨_, _, _, rfl⟩ := timers
  exact ⟨rfl, rfl, rfl, rfl, fun _ => rfl⟩

end Upkeep

/-! ## Handlers -/

theorem upkeep_quoteCycle (out : Outside) (category ticker : String) (action : Action)
    (fvShift : ℚ) (allow : Bool × Bool) (tr : Trader) :
    Upkeep tr (tr.quoteCycle out category ticker action fvShift allow).trader := by
  have position := positionOf_quoteCycle out category ticker action fvShift allow tr
  obtain ⟨_, only⟩ := quoteCycle_only out category ticker action fvShift allow tr
  refine ⟨by rw [only], by rw [only], ?_, ?_, position⟩
  all_goals
    unfold Trader.quoteCycle applyQuotePlan
    dsimp only
    split
    · rfl
    · split_ifs <;> rfl

theorem upkeep_onBookUpdate (env : Env) (out : Outside) (ticker : String) (msg : Value)
    (tr : Trader) : Upkeep tr (tr.onBookUpdate env out ticker msg).trader := by
  have ends := onBookUpdate_updated env out ticker msg tr
  generalize tr.onBookUpdate env out ticker msg = outcome at ends
  cases ends with
  | inactive _ _ => exact .refl tr
  | stopped _ _ sensed _ => exact .of_sensed sensed
  | halted _ _ sensed _ _ =>
    have halts := Upkeep.of_sensed sensed
    exact ⟨halts.cfg, halts.checks, halts.streaks, halts.halted, halts.positionOf⟩
  | quoted stage reached =>
    exact (Upkeep.of_sensed (staged_of_quoteStage reached).sensed).trans (upkeep_quoteCycle ..)

theorem upkeep_onTrade (out : Outside) (ticker : String) (msg : Value) (tr : Trader) :
    Upkeep tr (tr.onTrade out ticker msg) := by
  unfold Trader.onTrade
  dsimp only
  split
  · exact .refl tr
  · exact .setTicker tr _ rfl

theorem upkeep_updateSpotGate (out : Outside) (tr : Trader) :
    Upkeep tr (tr.updateSpotGate out).trader := by
  obtain ⟨state, _, only⟩ := updateSpotGate_only out tr
  have same : (tr.updateSpotGate out).trader.state.consecutiveLosses = tr.state.consecutiveLosses ∧
      (tr.updateSpotGate out).trader.state.haltedCategories = tr.state.haltedCategories := by
    obtain ⟨_, same⟩ | ⟨_, _, rises⟩ | ⟨_, stays⟩ := updateSpotGate_cases out tr
    · rw [same]; exact ⟨rfl, rfl⟩
    · rw [rises]; exact ⟨rfl, rfl⟩
    · rw [stays]; exact ⟨rfl, rfl⟩
  exact ⟨by rw [only], by rw [only], same.1, same.2, positionOf_updateSpotGate out tr⟩

theorem upkeep_onSpotTick (env : Env) (out : Outside) (price : ℚ) (tr : Trader) :
    Upkeep tr (tr.onSpotTick env out price).trader :=
  onSpotTick_related (R := Upkeep) (fun _ _ _ => .trans)
    (fun _ _ => ⟨rfl, rfl, rfl, rfl, fun _ => rfl⟩)
    (upkeep_updateSpotGate out) .of_timers env price tr

theorem upkeep_fetchDetails (env : Env) (out : Outside) (tr : Trader) (entry : String × String) :
    Upkeep tr (Trader.fetchDetails env out tr entry) := by
  refine .setTicker tr entry.2 ?_
  unfold Trader.readDetails
  split <;> rfl

theorem upkeep_fetchSnapshot (out : Outside) (tr : Trader) (entry : String × String) :
    Upkeep tr (Trader.fetchSnapshot out tr entry) := by
  unfold Trader.fetchSnapshot
  dsimp only
  split
  · exact .refl tr
  · exact .setTicker tr _ rfl

theorem upkeep_fetchMarketDetails (env : Env) (out : Outside) (entries : List (String × String))
    (tr : Trader) : Upkeep tr (Trader.fetchMarketDetails env out entries tr) :=
  .foldl (upkeep_fetchDetails env out) tr entries

theorem upkeep_fetchInitialSnapshots (out : Outside) (entries : List (String × String))
    (tr : Trader) : Upkeep tr (Trader.fetchInitialSnapshots out entries tr) :=
  .foldl (upkeep_fetchSnapshot out) tr entries

theorem upkeep_refreshMarkets (env : Env) (out : Outside) (tr : Trader) :
    Upkeep tr (tr.refreshMarkets env out) :=
  refreshMarkets_related Upkeep.refl (fun _ _ _ => Upkeep.trans)
    (fun _ _ _ _ => ⟨rfl, rfl, rfl, rfl, fun _ => rfl⟩) (upkeep_fetchDetails env out)
    (upkeep_fetchSnapshot out) tr

/-- A startup is one sync, between the listing of the markets and the snapshots of their books. -/
theorem startup_syncs (env : Env) (cfg : Config) (out : Outside) : ∃ fetched,
    Upkeep (Trader.start cfg out.epoch) fetched ∧
      Upkeep (fetched.syncPositions out) (Trader.startup env cfg out) := by
  let listed := (Trader.start cfg out.epoch).discoverMarkets env out
  let fetched := Trader.fetchMarketDetails env out (listed.allEntries out) listed
  let synced := fetched.syncPositions out
  let built : Trader :=
    { synced with ladders := Ladders.build (out.hash.enumerate synced.activeTickers.keys) }
  have lists : Upkeep (Trader.start cfg out.epoch) listed := ⟨rfl, rfl, rfl, rfl, fun _ => rfl⟩
  have builds : Upkeep synced built := ⟨rfl, rfl, rfl, rfl, fun _ => rfl⟩
  refine ⟨fetched, lists.trans ?_, builds.trans ?_⟩
  · exact upkeep_fetchMarketDetails env out (listed.allEntries out) listed
  · exact upkeep_fetchInitialSnapshots out (built.allEntries out) built

/-! ## Moves -/

/-- The turn of the running loop a move is, if it is one. -/
def turnOf (tr : Trader) : Move → Option Arrival
  | .turn arrival => if tr.running then some arrival else none
  | .poll _ _ => none

def Books : Event → Prop
  | .fill _ | .sync | .daily => True
  | _ => False

/-- How a move ends for what is booked. -/
inductive Booked (env : Env) (tr : Trader) (m : Move) : Prop where
  | fill (raw : Value) (out : Outside) (turn : turnOf tr m = some ⟨.fill raw, out⟩)
      (moves : tr.move env m = tr.processFill out raw)
  | sync (out : Outside) (turn : turnOf tr m = some ⟨.sync, out⟩)
      (moves : tr.move env m = tr.syncPositions out)
  | daily (out : Outside) (turn : turnOf tr m = some ⟨.daily, out⟩)
      (moves : tr.move env m = tr.maybeDailyReset env out)
  | nothing (quiet : ∀ arrival ∈ turnOf tr m, ¬ Books arrival.event)
      (upkeep : Upkeep tr (tr.move env m))

theorem booked_move (env : Env) (tr : Trader) (m : Move) : Booked env tr m := by
  cases m with
  | poll out ticker =>
    refine .nothing (fun _ taken => by cases taken) ?_
    unfold Trader.move Trader.carryOut Trader.pollMarket
    dsimp only
    split
    · exact .refl tr
    · exact upkeep_onBookUpdate ..
  | turn arrival =>
    by_cases running : tr.running = true
    swap
    · have idle : turnOf tr (.turn arrival) = none := if_neg running
      have stays : tr.move env (.turn arrival) = tr := congrArg Outcome.trader (if_neg running)
      refine .nothing (fun _ taken => ?_) (stays.symm ▸ .refl tr)
      rw [idle] at taken
      cases taken
    obtain ⟨event, out⟩ := arrival
    have turn : turnOf tr (.turn ⟨event, out⟩) = some ⟨event, out⟩ := if_pos running
    have moves : tr.move env (.turn ⟨event, out⟩) = (tr.handle env ⟨event, out⟩).trader :=
      congrArg Outcome.trader (if_pos running)
    have nothing (quiet : ¬ Books event) (upkeep : Upkeep tr (tr.handle env ⟨event, out⟩).trader) :
        Booked env tr (.turn ⟨event, out⟩) := by
      refine .nothing (fun arrival taken => ?_) (moves ▸ upkeep)
      rw [turn] at taken
      cases taken
      exact quiet
    cases event with
    | book ticker msg => exact nothing not_false (upkeep_onBookUpdate env out ticker msg tr)
    | trade ticker msg => exact nothing not_false (upkeep_onTrade out ticker msg tr)
    | spot price => exact nothing not_false (upkeep_onSpotTick env out price tr)
    | fill raw => exact .fill raw out turn moves
    | sync => exact .sync out turn moves
    | exits =>
      exact nothing not_false ((upkeep_updateSpotGate out tr).trans
        (.of_timers (timers_checkExits out _)))
    | daily => exact .daily out turn moves
    | refresh => exact nothing not_false (upkeep_refreshMarkets env out tr)

end KalshiMm.Verified
