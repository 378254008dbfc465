import KalshiMm.Verified.ClosedMarkets
import KalshiMm.Verified.QuoteSafety

/-!
# Where orders come from

Every order that a move sends is a side of the plan its book update reached, or the crossing exit of
a market that the trader holds.
-/

namespace KalshiMm.Verified

open KalshiMm.Lib KalshiMm.Model

/-- The request is a crossing exit of a market held with this state. -/
structure ExitOf (ts : TickerState) (ticker : String) (request : OrderRequest) : Prop where
  held : ts.position ≠ 0
  crosses : ∃ reason plan, crossingExit ts reason = some plan ∧ request = exitRequest ticker plan

/-- The orders a trader has cause to send. -/
inductive Ordered (env : Env) (out : Outside) (tr : Trader) : OrderRequest → Prop where
  | quote {ticker : String} {msg : Value} {stage : Stage} {plan : QuotePlan}
      (reached : quoteStage env out ticker msg tr = some stage)
      (planned : planOf out stage.category ticker stage.action stage.fvShift stage.trader = some plan)
      (side : OrderSide) (allowed : sideAllowed plan stage.allow side = true) :
      Ordered env out tr (sideRequest ticker plan side)
  | exit {ticker : String} {ts : TickerState} {request : OrderRequest}
      (known : tr.state.tickers.lookup ticker = some ts) (exits : ExitOf ts ticker request) :
      Ordered env out tr request

/-! ## Exits -/

section Exits

variable {out : Outside} {ticker : String} {tr : Trader} {request : OrderRequest}
  {reply : Except String Value}

theorem exitOf_of_exitDecision {ts : TickerState} {nowS : ℚ} {plan : ExitPlan}
    (decided : exitDecision ts nowS = some plan) : ExitOf ts ticker (exitRequest ticker plan) := by
  unfold exitDecision at decided
  split_ifs at decided with flat
  · exact ⟨flat, _, plan, decided, rfl⟩
  · exact ⟨flat, _, plan, decided, rfl⟩

theorem exitOf_of_spotUnwindDecision {ts : TickerState} {fvShift unwindShift : ℚ} {plan : ExitPlan}
    (decided : spotUnwindDecision ts fvShift unwindShift = some plan) :
    ExitOf ts ticker (exitRequest ticker plan) := by
  unfold spotUnwindDecision at decided
  split_ifs at decided with idle
  split at decided
  · exact ⟨fun flat => idle (Or.inl flat), _, plan, decided, rfl⟩
  · cases decided

theorem place_of_applyExitPlan {api : OrderApi} {plan : ExitPlan}
    (member : OrderCall.place request reply ∈ applyExitPlan api ticker plan) :
    request = exitRequest ticker plan :=
  (OrderCall.place.inj (List.mem_singleton.mp member)).1

theorem exitOf_visitExit
    (member : OrderCall.place request reply ∈ (tr.visitExit out ticker).calls) :
    ∃ ts, tr.state.tickers.lookup ticker = some ts ∧ ExitOf ts ticker request := by
  unfold Trader.visitExit at member
  split_ifs at member
  · cases member
  · split at member
    · cases member
    next ts known =>
      split at member
      · cases member
      next plan decided =>
        dsimp only at member
        split_ifs at member
        · cases member
        · cases member
        · rw [place_of_applyExitPlan member]
          exact ⟨ts, known, exitOf_of_exitDecision decided⟩

theorem exitOf_visitUnwind
    (member : OrderCall.place request reply ∈ (tr.visitUnwind out ticker).calls) :
    ∃ ts, tr.state.tickers.lookup ticker = some ts ∧ ExitOf ts ticker request := by
  unfold Trader.visitUnwind at member
  split_ifs at member
  · cases member
  · dsimp only at member
    split at member
    · cases member
    next plan planned =>
      obtain ⟨ts, known, rest⟩ := Option.bind_eq_some_iff.mp planned
      obtain ⟨_, _, decided⟩ := Option.bind_eq_some_iff.mp rest
      rw [place_of_applyExitPlan member]
      exact ⟨ts, known, exitOf_of_spotUnwindDecision decided⟩

/-- A walk of exits over the markets, which moves exit timers alone, sends exits of what is held. -/
theorem exitOf_visitAll {visit : String → Trader → Outcome} {start : Trader} {tickers : List String}
    (times : ∀ ticker tr, Timers tr (visit ticker tr).trader)
    (exits : ∀ {ticker tr request reply}, OrderCall.place request reply ∈ (visit ticker tr).calls →
      ∃ ts, tr.state.tickers.lookup ticker = some ts ∧ ExitOf ts ticker request)
    (timed : Timers start tr)
    (member : OrderCall.place request reply ∈ (visitAll visit tickers tr).calls) :
    ∃ ticker ts, start.state.tickers.lookup ticker = some ts ∧ ExitOf ts ticker request := by
  obtain ⟨visited, _, tr', timers, sent⟩ := ClosedMarkets.mem_visitAll (J := Timers start)
    (fun ticker _ timers => timers.trans (times ticker _)) timed member
  obtain ⟨ts, known, exit⟩ := exits sent
  exact ⟨visited, ts, timers.state ▸ known, exit⟩

/-- The gate, which is evaluated before the exits, takes a market's ids and no more. -/
theorem exitOf_of_updateSpotGate {ts : TickerState}
    (known : (tr.updateSpotGate out).trader.state.tickers.lookup ticker = some ts)
    (exits : ExitOf ts ticker request) :
    ∃ ts, tr.state.tickers.lookup ticker = some ts ∧ ExitOf ts ticker request := by
  obtain ⟨clear, clears, cleared⟩ := lookup_updateSpotGate out tr
  rw [cleared] at known
  obtain ⟨before, found, rfl⟩ := Option.map_eq_some_iff.mp known
  obtain ⟨_, _, only⟩ := clears before
  rw [only] at exits
  exact ⟨before, found, exits.held, exits.crosses⟩

theorem place_updateSpotGate :
    OrderCall.place request reply ∉ (tr.updateSpotGate out).calls := by
  intro member
  obtain ⟨_, _, contradiction⟩ := calls_updateSpotGate member
  cases contradiction

theorem exitOf_checkExits
    (member : OrderCall.place request reply ∈ (tr.checkExits out).calls) :
    ∃ ticker ts, tr.state.tickers.lookup ticker = some ts ∧ ExitOf ts ticker request :=
  exitOf_visitAll (timers_visitExit out) exitOf_visitExit ⟨_, _, _, rfl⟩ member

theorem exitOf_onExitTimer
    (member : OrderCall.place request reply ∈ (tr.onExitTimer out).calls) :
    ∃ ticker ts, tr.state.tickers.lookup ticker = some ts ∧ ExitOf ts ticker request := by
  obtain gate | sent := List.mem_append.mp member
  · exact absurd gate place_updateSpotGate
  · obtain ⟨ticker, ts, known, exits⟩ := exitOf_checkExits sent
    exact ⟨ticker, exitOf_of_updateSpotGate known exits⟩

theorem exitOf_checkSpotUnwind
    (member : OrderCall.place request reply ∈ (tr.checkSpotUnwind out).calls) :
    ∃ ticker ts, tr.state.tickers.lookup ticker = some ts ∧ ExitOf ts ticker request := by
  unfold Trader.checkSpotUnwind at member
  split_ifs at member
  · cases member
  · exact exitOf_visitAll (timers_visitUnwind out) exitOf_visitUnwind (Timers.refl tr) member

theorem exitOf_onSpotTick {env : Env} {price : ℚ}
    (member : OrderCall.place request reply ∈ (tr.onSpotTick env out price).calls) :
    ∃ ticker ts, tr.state.tickers.lookup ticker = some ts ∧ ExitOf ts ticker request := by
  unfold Trader.onSpotTick at member
  dsimp only at member
  -- the markets are those from before the tick
  have same : ({ tr with spot := (tr.spot.onTick env.exp price out.mono).1 } : Trader).state =
    tr.state := rfl
  generalize ({ tr with spot := (tr.spot.onTick env.exp price out.mono).1 } : Trader) = ticked
    at member same
  rw [← same]
  split_ifs at member
  · obtain gate | sent := List.mem_append.mp member
    · exact absurd gate place_updateSpotGate
    · obtain ⟨ticker, ts, known, exits⟩ := exitOf_checkSpotUnwind sent
      exact ⟨ticker, exitOf_of_updateSpotGate known exits⟩
  · cases member

end Exits

/-! ## Moves -/

theorem ordered_onBookUpdate {env : Env} {out : Outside} {ticker : String} {msg : Value}
    {tr : Trader} {request : OrderRequest} {reply : Except String Value}
    (member : OrderCall.place request reply ∈ (tr.onBookUpdate env out ticker msg).calls) :
    Ordered env out tr request := by
  have ends := onBookUpdate_updated env out ticker msg tr
  generalize tr.onBookUpdate env out ticker msg = outcome at ends member
  cases ends with
  | inactive _ _ => cases member
  | stopped _ _ _ _ => cases member
  | halted _ _ _ _ _ => cases List.mem_singleton.mp member
  | quoted stage reached =>
    obtain ⟨plan, side, planned, allowed, rfl⟩ := place_quoteCycle _ member
    exact .quote reached planned side allowed

/-- A quote that a move sends is a side of the plan that its own book message led to. -/
theorem side_of_quote {env : Env} {tr : Trader} {m : Move} {request : OrderRequest}
    {reply : Except String Value}
    (member : OrderCall.place request reply ∈ (tr.carryOut env m).calls)
    (rests : request.timeInForce = .goodTillCanceled) :
    ∃ out ticker msg stage plan side, QuoteSafety.bookUpdate tr m = some (out, ticker, msg) ∧
      quoteStage env out ticker msg tr = some stage ∧
      planOf out stage.category ticker stage.action stage.fvShift stage.trader = some plan ∧
      request = sideRequest ticker plan side := by
  obtain ⟨out, ticker, msg, stage, updates, reached, _, cycle⟩ :=
    QuoteSafety.cycle_of_quote member rests
  rw [cycle] at member
  obtain ⟨plan, side, planned, _, same⟩ := place_quoteCycle _ member
  exact ⟨out, ticker, msg, stage, plan, side, updates, reached, planned, same⟩

/-- Every order that a move sends is one the trader has cause to send. -/
theorem ordered_of_sent {env : Env} {tr : Trader} {m : Move} {request : OrderRequest}
    {reply : Except String Value}
    (member : OrderCall.place request reply ∈ (tr.carryOut env m).calls) :
    Ordered env (ClosedMarkets.outsideOf m) tr request := by
  cases m with
  | poll out polled =>
    unfold Trader.carryOut Trader.pollMarket at member
    dsimp only at member
    split at member
    · cases member
    · exact ordered_onBookUpdate member
  | turn arrival =>
    obtain ⟨event, out⟩ := arrival
    unfold Trader.carryOut Trader.turn at member
    dsimp only at member
    split_ifs at member with running
    · cases event with
      | book ticker msg => exact ordered_onBookUpdate member
      | spot price =>
        obtain ⟨_, _, known, exits⟩ := exitOf_onSpotTick member
        exact .exit known exits
      | exits =>
        obtain ⟨_, _, known, exits⟩ := exitOf_onExitTimer member
        exact .exit known exits
      | trade | fill | sync | daily | refresh => cases member
    · cases member

end KalshiMm.Verified
