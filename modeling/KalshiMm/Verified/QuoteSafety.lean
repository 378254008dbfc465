import KalshiMm.Verified.Clocks

/-!
# What every quote that is sent has passed

The throttle clock of a market and the balance backoff are written by quote cycles alone, and only
with the present; a halt leaves behind account limits that no further book update passes.  So what
one quote cycle writes is still in force at every later one, and the gates in front of a quote speak
of all of the run before it.
-/

namespace KalshiMm.Verified.QuoteSafety

open KalshiMm.Lib KalshiMm.Model

/-! ## Moves -/

/-- The book update a move makes, if it makes one. -/
def bookUpdate (tr : Trader) : Move → Option (Outside × String × Value)
  | .turn arrival =>
    match arrival.event with
    | .book ticker msg => if tr.running then some (arrival.out, ticker, msg) else none
    | _ => none
  | .poll out ticker =>
    match out.api.getOrderbook ticker with
    | .error _ => none
    | .ok resp => some (out, ticker, (resp.get "orderbook").getD .null)

/-- The plan a book update executes, if it executes one. -/
def executedPlan (env : Env) (out : Outside) (ticker : String) (msg : Value) (tr : Trader) :
    Option QuotePlan :=
  (quoteStage env out ticker msg tr).bind fun stage =>
    planOf out stage.category ticker stage.action stage.fvShift stage.trader

/-- The move executes a quote plan for the market. -/
def executes (env : Env) (ticker : String) (tr : Trader) (m : Move) : Bool :=
  (bookUpdate tr m).any fun (out, updated, msg) =>
    updated = ticker && (executedPlan env out ticker msg tr).isSome

/-- A quote was rejected for lack of balance. -/
def RejectsQuote (calls : List OrderCall) : Prop :=
  ∃ request body, OrderCall.place request (.error body) ∈ calls ∧
    request.timeInForce = .goodTillCanceled ∧ contains body "insufficient_balance" = true

/-- A quote was sent for the market. -/
def SendsQuote (ticker : String) (calls : List OrderCall) : Prop :=
  ∃ request reply, OrderCall.place request reply ∈ calls ∧ request.ticker = ticker ∧
    request.timeInForce = .goodTillCanceled

/-- All orders were pulled, which only `halt_all_trading` does. -/
def HaltsTrading (calls : List OrderCall) : Prop := ∃ reply, OrderCall.cancelAll reply ∈ calls

/-! ## Rejections -/

theorem sendQuoteSide_rejected {api : OrderApi} {placed : Bool} {sent request : OrderRequest}
    {body : String}
    (member : OrderCall.place request (.error body) ∈ (sendQuoteSide api placed sent).2)
    (insufficient : contains body "insufficient_balance" = true) :
    (sendQuoteSide api placed sent).1 = some .insufficientBalance := by
  unfold sendQuoteSide at member ⊢
  split_ifs at member ⊢
  · obtain ⟨_, replied⟩ := OrderCall.place.inj (List.mem_singleton.mp member)
    rw [sendOrder, ← replied, sendResult, if_pos insufficient]
  · cases member

/-- A cycle in which a quote is rejected backs all quoting off. -/
theorem backoff_of_rejected (out : Outside) (category ticker : String) (action : Action)
    (fvShift : ℚ) (allow : Bool × Bool) (tr : Trader)
    (rejected : RejectsQuote (tr.quoteCycle out category ticker action fvShift allow).calls) :
    (tr.quoteCycle out category ticker action fvShift allow).trader.state.balanceBackoffUntil =
      out.mono + tr.cfg.mm.balanceBackoffS := by
  obtain ⟨request, body, member, _, insufficient⟩ := rejected
  obtain ⟨plan, planned, cancels | bids | asks⟩ := mem_quoteCycle_calls allow member
  · obtain ⟨_, _, contradiction⟩ := cancels
    cases contradiction
  · rw [quoteCycle_backoff out category ticker action fvShift allow tr planned]
    exact if_pos (Or.inl (sendQuoteSide_rejected bids insufficient))
  · rw [quoteCycle_backoff out category ticker action fvShift allow tr planned]
    exact if_pos (Or.inr (sendQuoteSide_rejected asks insufficient))

/-! ## Calls -/

/-- A call that neither sends a quote nor pulls all orders. -/
def Harmless : OrderCall → Prop
  | .place request _ => request.timeInForce = .immediateOrCancel
  | .cancel .. => True
  | .cancelAll _ => False

theorem visitAll_calls {P : OrderCall → Prop} {visit : String → Trader → Outcome}
    (each : ∀ ticker tr, ∀ call ∈ (visit ticker tr).calls, P call) (tickers : List String)
    (tr : Trader) : ∀ call ∈ (visitAll visit tickers tr).calls, P call := by
  induction tickers generalizing tr with
  | nil => exact List.forall_mem_nil _
  | cons ticker tickers inductionHypothesis =>
    exact List.forall_mem_append.mpr ⟨each ticker tr, inductionHypothesis (visit ticker tr).trader⟩

theorem harmless_applyExitPlan (api : OrderApi) (ticker : String) (plan : ExitPlan) :
    ∀ call ∈ applyExitPlan api ticker plan, Harmless call :=
  List.forall_mem_singleton.mpr rfl

theorem harmless_visitUnwind (out : Outside) (ticker : String) (tr : Trader) :
    ∀ call ∈ (tr.visitUnwind out ticker).calls, Harmless call := by
  unfold Trader.visitUnwind
  split_ifs
  · exact List.forall_mem_nil _
  · dsimp only
    split
    · exact List.forall_mem_nil _
    · exact harmless_applyExitPlan _ _ _

theorem harmless_visitExit (out : Outside) (ticker : String) (tr : Trader) :
    ∀ call ∈ (tr.visitExit out ticker).calls, Harmless call := by
  unfold Trader.visitExit
  split_ifs
  · exact List.forall_mem_nil _
  · split
    · exact List.forall_mem_nil _
    · split
      · exact List.forall_mem_nil _
      · dsimp only
        split_ifs
        · exact List.forall_mem_nil _
        · exact List.forall_mem_nil _
        · exact harmless_applyExitPlan _ _ _

theorem harmless_updateSpotGate (out : Outside) (tr : Trader) :
    ∀ call ∈ (tr.updateSpotGate out).calls, Harmless call := by
  intro call member
  obtain ⟨_, _, rfl⟩ := calls_updateSpotGate member
  exact trivial

theorem harmless_onSpotTick (env : Env) (out : Outside) (price : ℚ) (tr : Trader) :
    ∀ call ∈ (tr.onSpotTick env out price).calls, Harmless call := by
  unfold Trader.onSpotTick
  dsimp only
  split_ifs
  · refine List.forall_mem_append.mpr ⟨harmless_updateSpotGate out _, ?_⟩
    unfold Trader.checkSpotUnwind
    split_ifs
    · exact List.forall_mem_nil _
    · exact visitAll_calls (harmless_visitUnwind out) _ _
  · exact List.forall_mem_nil _

theorem harmless_onExitTimer (out : Outside) (tr : Trader) :
    ∀ call ∈ (tr.onExitTimer out).calls, Harmless call :=
  List.forall_mem_append.mpr ⟨harmless_updateSpotGate out tr,
    visitAll_calls (harmless_visitExit out) _ _⟩

/-! ## One move -/

section Move

variable {env : Env} {tr : Trader} {m : Move}

theorem carryOut_of_update (env : Env) {out : Outside} {ticker : String} {msg : Value}
    (updates : bookUpdate tr m = some (out, ticker, msg)) :
    tr.carryOut env m = tr.onBookUpdate env out ticker msg ∧ m.mono = out.mono := by
  cases m with
  | turn arrival =>
    obtain ⟨event, outside⟩ := arrival
    cases event with
    | book updated payload =>
      simp only [bookUpdate] at updates
      split_ifs at updates with running
      cases updates
      exact ⟨if_pos running, rfl⟩
    | _ => cases updates
  | poll outside polled =>
    simp only [bookUpdate] at updates
    unfold Trader.carryOut Trader.pollMarket
    split at updates
    · cases updates
    next replied =>
      cases updates
      refine ⟨?_, rfl⟩
      simp only [replied]

/-- A move without a book update moves no clock and makes harmless calls only. -/
theorem carryOut_of_none (env : Env) (other : bookUpdate tr m = none) :
    SameClocks tr (tr.carryOut env m).trader ∧ ∀ call ∈ (tr.carryOut env m).calls, Harmless call := by
  cases m with
  | turn arrival =>
    obtain ⟨event, out⟩ := arrival
    unfold Trader.carryOut Trader.turn
    dsimp only
    split_ifs with running
    · cases event with
      | book ticker msg =>
        simp only [bookUpdate, if_pos running] at other
        cases other
      | trade ticker msg => exact ⟨sameClocks_onTrade .., List.forall_mem_nil _⟩
      | spot price => exact ⟨sameClocks_onSpotTick .., harmless_onSpotTick env out price tr⟩
      | fill raw => exact ⟨sameClocks_processFill .., List.forall_mem_nil _⟩
      | sync => exact ⟨sameClocks_syncPositions .., List.forall_mem_nil _⟩
      | exits =>
        exact ⟨(sameClocks_updateSpotGate out tr).trans (.of_timers (timers_checkExits ..)),
          harmless_onExitTimer out tr⟩
      | daily => exact ⟨sameClocks_maybeDailyReset .., List.forall_mem_nil _⟩
      | refresh => exact ⟨sameClocks_refreshMarkets .., List.forall_mem_nil _⟩
    · exact ⟨.refl tr, List.forall_mem_nil _⟩
  | poll out ticker =>
    simp only [bookUpdate] at other
    unfold Trader.carryOut Trader.pollMarket
    split at other
    next failed =>
      simp only [failed]
      exact ⟨.refl tr, List.forall_mem_nil _⟩
    · cases other

theorem sameClocks_halted {ticker category : String} {tr tr' : Trader}
    (sensed : Sensed ticker category tr tr') (out : Outside) :
    SameClocks tr (tr'.haltAllTrading out).trader :=
  (SameClocks.of_sensed sensed).trans (.of_tickers rfl rfl rfl)

/-- Every move takes the clocks forward. -/
theorem paced_move (env : Env) (tr : Trader) (m : Move) :
    Paced m.mono tr (tr.move env m) := by
  unfold Trader.move
  cases updates : bookUpdate tr m with
  | none => exact (carryOut_of_none env updates).1.paced _
  | some update =>
    obtain ⟨out, ticker, msg⟩ := update
    obtain ⟨carried, mono⟩ := carryOut_of_update env updates
    rw [carried, mono]
    have ends := onBookUpdate_updated env out ticker msg tr
    generalize tr.onBookUpdate env out ticker msg = outcome at ends
    cases ends with
    | inactive _ _ => exact (SameClocks.refl tr).paced _
    | stopped _ _ sensed _ => exact (SameClocks.of_sensed sensed).paced _
    | halted _ _ sensed _ _ => exact (sameClocks_halted sensed out).paced _
    | quoted stage reached =>
      exact (quoteCycle_paced ..).after (.of_sensed (staged_of_quoteStage reached).sensed)

/-- A move that executes a plan leaves its market's clock at the present. -/
theorem quotedAt_of_executes {ticker : String} (executed : executes env ticker tr m = true) :
    quotedAt (tr.move env m).state ticker = m.mono := by
  obtain ⟨⟨out, updated, msg⟩, updates, plans⟩ := (Option.any_eq_true _ _).mp executed
  simp only [Bool.and_eq_true, decide_eq_true_eq, Option.isSome_iff_exists] at plans
  obtain ⟨rfl, plan, planned⟩ := plans
  obtain ⟨stage, reached, planned⟩ := Option.bind_eq_some_iff.mp planned
  obtain ⟨carried, mono⟩ := carryOut_of_update env updates
  rw [Trader.move, carried, mono, onBookUpdate_of_stage reached]
  exact quotedAt_quoteCycle _ _ _ _ _ _ _ planned

/-- A move that sends calls a harmless one cannot make is a book update in its quote cycle, or one
    that halts trading. -/
theorem quotes_or_halts {call : OrderCall} (member : call ∈ (tr.carryOut env m).calls)
    (harmful : ¬ Harmless call) :
    (∃ out ticker msg stage, bookUpdate tr m = some (out, ticker, msg) ∧
      quoteStage env out ticker msg tr = some stage ∧ m.mono = out.mono ∧
      tr.carryOut env m = stage.trader.quoteCycle out stage.category ticker stage.action
        stage.fvShift stage.allow) ∨
    (∃ out ticker category tr', Sensed ticker category tr tr' ∧
      (checkRiskLimits tr.state tr.cfg.live (some tr.activeSet)).2.isSome = true ∧
      tr.carryOut env m = tr'.haltAllTrading out) := by
  cases updates : bookUpdate tr m with
  | none => exact absurd ((carryOut_of_none env updates).2 call member) harmful
  | some update =>
    obtain ⟨out, ticker, msg⟩ := update
    obtain ⟨carried, mono⟩ := carryOut_of_update env updates
    rw [carried] at member ⊢
    have ends := onBookUpdate_updated env out ticker msg tr
    generalize tr.onBookUpdate env out ticker msg = outcome at ends member
    cases ends with
    | inactive _ _ => cases member
    | stopped _ _ _ _ => cases member
    | halted category _ sensed limit _ =>
      exact Or.inr ⟨out, ticker, category, _, sensed, limit, rfl⟩
    | quoted stage reached => exact Or.inl ⟨out, ticker, msg, stage, rfl, reached, mono, rfl⟩

/-- A move that sends a quote is a book update in its quote cycle. -/
theorem cycle_of_quote {request : OrderRequest} {reply : Except String Value}
    (member : OrderCall.place request reply ∈ (tr.carryOut env m).calls)
    (resting : request.timeInForce = .goodTillCanceled) :
    ∃ out ticker msg stage, bookUpdate tr m = some (out, ticker, msg) ∧
      quoteStage env out ticker msg tr = some stage ∧ m.mono = out.mono ∧
      tr.carryOut env m = stage.trader.quoteCycle out stage.category ticker stage.action
        stage.fvShift stage.allow := by
  have harmful : ¬ Harmless (.place request reply) := fun harmless =>
    nomatch resting.symm.trans harmless
  obtain quotes | ⟨_, _, _, _, _, _, halts⟩ := quotes_or_halts member harmful
  · exact quotes
  · rw [halts] at member
    cases List.mem_singleton.mp member

theorem backoff_of_rejects (rejected : RejectsQuote (tr.carryOut env m).calls) :
    (tr.move env m).state.balanceBackoffUntil = m.mono + tr.cfg.mm.balanceBackoffS := by
  have ⟨_, _, member, resting, _⟩ := rejected
  obtain ⟨out, ticker, msg, stage, _, reached, mono, cycle⟩ := cycle_of_quote member resting
  rw [cycle] at rejected
  rw [Trader.move, cycle, mono, backoff_of_rejected _ _ _ _ _ _ _ rejected,
    (SameClocks.of_sensed (staged_of_quoteStage reached).sensed).cfg]

/-- Trading is halted, and the account limits that halted it are exceeded still. -/
def Stopped (tr : Trader) : Prop :=
  tr.running = false ∧ (checkRiskLimits tr.state tr.cfg.live (some tr.activeSet)).2.isSome = true

theorem stopped_of_sensed {ticker category : String} {tr tr' : Trader}
    (sensed : Sensed ticker category tr tr')
    (limit : (checkRiskLimits tr.state tr.cfg.live (some tr.activeSet)).2.isSome = true)
    (out : Outside) : Stopped (tr'.haltAllTrading out).trader :=
  ⟨rfl, by rw [← checkRiskLimits_sensed sensed] at limit; exact limit⟩

/-- A move that halts trading pulls all orders, sends none, and leaves trading stopped. -/
theorem stopped_of_halts (halts : HaltsTrading (tr.carryOut env m).calls) :
    Stopped (tr.move env m) ∧
      ∀ request reply, OrderCall.place request reply ∉ (tr.carryOut env m).calls := by
  obtain ⟨reply, member⟩ := halts
  obtain ⟨out, ticker, _, stage, _, _, _, cycle⟩ | ⟨out, _, _, _, sensed, limit, halts⟩ :=
    quotes_or_halts member not_false
  · -- a quote cycle cancels and places, and pulls nothing else
    rw [cycle] at member
    obtain ⟨_, _, contradiction⟩ | ⟨_, _, contradiction, _⟩ := quoteCycle_calls _ _ member
    · cases contradiction
    · cases contradiction
  · rw [Trader.move, halts]
    refine ⟨stopped_of_sensed sensed limit out, fun request reply placed => ?_⟩
    cases List.mem_singleton.mp placed

/-- Once trading is stopped, moves send no orders and leave it stopped. -/
theorem stopped_move (env : Env) (m : Move) (stopped : Stopped tr) :
    Stopped (tr.move env m) ∧
      ∀ request reply, OrderCall.place request reply ∉ (tr.carryOut env m).calls := by
  obtain ⟨halted, limit⟩ := stopped
  have updated (out : Outside) (ticker : String) (msg : Value) :
      Stopped (tr.onBookUpdate env out ticker msg).trader ∧ ∀ request reply,
        OrderCall.place request reply ∉ (tr.onBookUpdate env out ticker msg).calls := by
    have ends := onBookUpdate_updated env out ticker msg tr
    generalize tr.onBookUpdate env out ticker msg = outcome at ends
    cases ends with
    | inactive _ _ => exact ⟨⟨halted, limit⟩, fun _ _ => List.not_mem_nil⟩
    | stopped category _ sensed _ =>
      have still := checkRiskLimits_sensed sensed
      obtain ⟨_, _, _, _, rfl⟩ := sensed
      exact ⟨⟨halted, by rw [still]; exact limit⟩, fun _ _ => List.not_mem_nil⟩
    | halted category _ sensed limit _ =>
      refine ⟨stopped_of_sensed sensed limit out, fun request reply placed => ?_⟩
      cases List.mem_singleton.mp placed
    | quoted stage reached =>
      -- a stage lies behind the limits
      rw [(staged_of_quoteStage reached).limits] at limit
      cases limit
  unfold Trader.move
  cases m with
  | turn arrival =>
    unfold Trader.carryOut Trader.turn
    dsimp only
    rw [if_neg (Bool.not_eq_true _ ▸ halted)]
    exact ⟨⟨halted, limit⟩, fun _ _ => List.not_mem_nil⟩
  | poll out ticker =>
    unfold Trader.carryOut Trader.pollMarket
    dsimp only
    split
    · exact ⟨⟨halted, limit⟩, fun _ _ => List.not_mem_nil⟩
    · exact updated ..

end Move

/-! ## The gates in front of a quote -/

/-- The market's category may quote: it is not halted, the account is within its limits, and a
    spot-bound category has a fresh feed with a 60 s return that is known and under the gate. -/
structure MayQuote (tr : Trader) (category : String) (mono : ℚ) : Prop where
  unhalted : category ∉ tr.state.haltedCategories
  dailyPnl : -tr.cfg.live.maxDailyLoss < tr.state.dailyPnl
  cumulativePnl : tr.cfg.live.stopLossThreshold < tr.state.cumulativePnl
  positionValue : tr.state.positionValue (some tr.activeSet) < tr.cfg.live.maxPositionValue
  spot : category ∈ tr.spotBound → tr.spot.isStale mono tr.cfg.spot.staleMaxS = false ∧
    ∃ ret, tr.spot.ret 60 mono = some ret ∧ |ret| ≤
      if tr.spotGateOn then tr.cfg.spot.gateRet60s * tr.cfg.spot.gateReleaseRatio
      else tr.cfg.spot.gateRet60s

theorem limits_of_passed {state : TraderState} {live : LiveConfig}
    {active : Option (Finset String)} (passed : checkRiskLimits state live active = (true, none)) :
    -live.maxDailyLoss < state.dailyPnl ∧ live.stopLossThreshold < state.cumulativePnl ∧
      state.positionValue active < live.maxPositionValue := by
  unfold checkRiskLimits at passed
  split_ifs at passed with daily cumulative value
  · cases passed
  · cases passed
  · cases passed
  · exact ⟨not_le.mp daily, not_le.mp cumulative, not_le.mp value⟩

theorem spot_of_ungated {tr : Trader} {mono : ℚ} (ungated : tr.spotGated mono = false) :
    tr.spot.isStale mono tr.cfg.spot.staleMaxS = false ∧
      ∃ ret, tr.spot.ret 60 mono = some ret ∧ |ret| ≤
        if tr.spotGateOn then tr.cfg.spot.gateRet60s * tr.cfg.spot.gateReleaseRatio
        else tr.cfg.spot.gateRet60s := by
  unfold Trader.spotGated at ungated
  split_ifs at ungated with stale
  refine ⟨Bool.eq_false_iff.mpr stale, ?_⟩
  split at ungated
  next ret known =>
    have under := of_decide_eq_false ungated
    exact ⟨ret, known, not_lt.mp under⟩
  · cases ungated

theorem mayQuote_of_staged {out : Outside} {ticker : String} {msg : Value} {tr : Trader}
    {stage : Stage} (staged : Staged out ticker msg tr stage) :
    MayQuote tr stage.category out.mono := by
  obtain ⟨daily, cumulative, value⟩ := limits_of_passed staged.limits
  exact ⟨staged.passes.2.2, daily, cumulative, value, fun bound =>
    spot_of_ungated (staged.ungated bound)⟩

/-- A move that sends a quote for a market: the throttle clock and the backoff lie behind it, and
    the market's category may quote. -/
theorem gates_of_quote {env : Env} {tr : Trader} {m : Move} {ticker : String}
    (sends : SendsQuote ticker (tr.carryOut env m).calls) :
    1 ≤ m.mono - quotedAt tr.state ticker ∧ tr.state.balanceBackoffUntil ≤ m.mono ∧
      ∃ category, tr.activeTickers.lookup ticker = some category ∧
        MayQuote tr category m.mono := by
  obtain ⟨request, reply, member, isFor, resting⟩ := sends
  obtain ⟨out, updated, msg, stage, _, reached, mono, cycle⟩ := cycle_of_quote member resting
  rw [cycle] at member
  obtain ⟨plan, side, planned, _, rfl⟩ := place_quoteCycle _ member
  rw [sideRequest_ticker] at isFor
  subst isFor
  have staged := staged_of_quoteStage reached
  rw [mono]
  refine ⟨?_, ?_, stage.category, staged.active, mayQuote_of_staged staged⟩
  · rw [quotedAt_eq _ _ stage.category]
    exact staged.passes.2.1
  · rw [← (SameClocks.of_sensed staged.sensed).backoff]
    exact planOf_clocks planned

/-! ## Runs -/

/-- What holds of the trader that sends a quote for a market and of the moves before: no plan was
    executed for the market within a second, no quote was rejected within the backoff, and the
    market's category may quote. -/
structure Cleared (env : Env) (earlier : List (Trader × Move)) (tr : Trader) (m : Move)
    (ticker : String) : Prop where
  spaced : ∀ taken ∈ earlier, executes env ticker taken.1 taken.2 = true →
    1 ≤ m.mono - taken.2.mono
  backedOff : ∀ taken ∈ earlier, RejectsQuote (taken.1.carryOut env taken.2).calls →
    tr.cfg.mm.balanceBackoffS ≤ m.mono - taken.2.mono
  mayQuote : ∃ category, tr.activeTickers.lookup ticker = some category ∧
    MayQuote tr category m.mono

theorem executed_spaced {env : Env} {start : Trader} {before after : List Move} {e : Move}
    {ticker : String} (executed : executes env ticker (run (Trader.move env) start before) e = true)
    (later : ∀ m ∈ after, e.mono ≤ m.mono) :
    e.mono ≤ quotedAt (run (Trader.move env) start (before ++ e :: after)).state ticker := by
  refine holds_after (I := fun tr : Trader => e.mono ≤ quotedAt tr.state ticker)
    (P := fun m : Move => e.mono ≤ m.mono) (fun tr m covered le => ?_)
    (quotedAt_of_executes executed).ge later
  rcases (paced_move env tr m).quotedAt ticker with stays | advances
  · exact stays ▸ covered
  · exact advances ▸ le

theorem rejected_backedOff {env : Env} {start : Trader} {before after : List Move} {e : Move}
    (rejected : RejectsQuote ((run (Trader.move env) start before).carryOut env e).calls)
    (later : ∀ m ∈ after, e.mono ≤ m.mono) :
    let tr := run (Trader.move env) start (before ++ e :: after)
    e.mono + tr.cfg.mm.balanceBackoffS ≤ tr.state.balanceBackoffUntil := by
  refine holds_after
    (I := fun tr : Trader => e.mono + tr.cfg.mm.balanceBackoffS ≤ tr.state.balanceBackoffUntil)
    (P := fun m : Move => e.mono ≤ m.mono) (fun tr m covered le => ?_) ?_ later
  · obtain ⟨cfg, backoff, _⟩ := paced_move env tr m
    rw [cfg]
    rcases backoff with stays | advances
    · rw [stays]
      exact covered
    · rw [advances]
      linarith
  · rw [backoff_of_rejects rejected, (paced_move env _ e).cfg]

theorem stopped_after {env : Env} {start : Trader} {before : List Move} {e : Move}
    (halts : HaltsTrading ((run (Trader.move env) start before).carryOut env e).calls)
    (after : List Move) :
    Stopped (run (Trader.move env) start (before ++ e :: after)) := by
  have keeps (tr : Trader) (m : Move) (stopped : Stopped tr) (_ : True) :
      Stopped (tr.move env m) := (stopped_move env m stopped).1
  exact holds_after keeps (stopped_of_halts halts).1 fun _ _ => trivial

/-- In every run whose clock does not go back, from whatever trader it starts, every quote sent is
    cleared, and once trading has been halted no order is sent. -/
theorem quotes_cleared {env : Env} {start : Trader} {earlier : List Move} {m : Move}
    (clock : (earlier ++ [m]).Pairwise fun first second => first.mono ≤ second.mono) :
    let tr := run (Trader.move env) start earlier
    (∀ ticker, SendsQuote ticker (tr.carryOut env m).calls →
      Cleared env (steps (Trader.move env) start earlier) tr m ticker) ∧
    ((∃ taken ∈ steps (Trader.move env) start (earlier ++ [m]),
      HaltsTrading (taken.1.carryOut env taken.2).calls) →
        ∀ request reply, OrderCall.place request reply ∉ (tr.carryOut env m).calls) := by
  intro tr
  constructor
  · intro ticker sends
    obtain ⟨throttled, backedOff, mayQuote⟩ := gates_of_quote sends
    refine ⟨fun taken member executed => ?_, fun taken member rejected => ?_, mayQuote⟩
    -- what the earlier move wrote is in force still, and the gates speak of it
    · obtain ⟨before, after, rfl, reached⟩ := mem_steps member
      rw [List.append_assoc, List.cons_append, List.pairwise_append, List.pairwise_cons] at clock
      have later := clock.2.1.1
      rw [reached] at executed
      have covered := executed_spaced executed fun m' among => later m' (List.mem_append_left _ among)
      linarith
    · obtain ⟨before, after, rfl, reached⟩ := mem_steps member
      rw [List.append_assoc, List.cons_append, List.pairwise_append, List.pairwise_cons] at clock
      have later := clock.2.1.1
      rw [reached] at rejected
      have covered := rejected_backedOff rejected fun m' among =>
        later m' (List.mem_append_left _ among)
      linarith
  · rintro ⟨taken, member, halts⟩
    rw [steps, outputs_append] at member
    rcases List.mem_append.mp member with before | last
    · obtain ⟨before, after, split_, reached⟩ := mem_steps before
      rw [reached] at halts
      have stopped : Stopped tr := by
        have after_ := stopped_after halts after
        rwa [← split_] at after_
      exact (stopped_move env m stopped).2
    · -- the move that halts sends none itself
      rw [List.mem_singleton.mp last] at halts
      exact (stopped_of_halts halts).2

/-! ## A market that is quoted twice -/

def quotingEnv : Env := marketEnv (some narrow)

def quotingStart : Trader := Trader.startup quotingEnv (marketCfg none) (listing ["KXBTCD-1"] 0)

def quotedBook (yes no mono : ℚ) : Move :=
  .turn ⟨.book "KXBTCD-1" (snapshot yes no), listing ["KXBTCD-1"] mono⟩

/-- The second plan replaces the quotes of the first, a second later. -/
theorem quotes_cleared_requote :
    let first := quotedBook (2 / 5) (1 / 2) 61
    let second := quotedBook (3 / 10) (3 / 5) 62
    let tr := quotingStart.move quotingEnv first
    executes quotingEnv "KXBTCD-1" quotingStart first = true ∧
      SendsQuote "KXBTCD-1" (tr.carryOut quotingEnv second).calls ∧
      Cleared quotingEnv [(quotingStart, first)] tr second "KXBTCD-1" := by
  intro first second tr
  have executed : executes quotingEnv "KXBTCD-1" quotingStart first = true := by decide +kernel
  have quoted : ((tr.carryOut quotingEnv second).calls.any fun call =>
      match call with
      | .place request _ =>
        request.ticker = "KXBTCD-1" ∧ request.timeInForce = .goodTillCanceled
      | .cancel .. => false
      | .cancelAll _ => false) = true := by decide +kernel
  have sends : SendsQuote "KXBTCD-1" (tr.carryOut quotingEnv second).calls := by
    obtain ⟨call, member, quote⟩ := List.any_eq_true.mp quoted
    cases call with
    | place request reply => exact ⟨request, reply, member, of_decide_eq_true quote⟩
    | cancel _ _ => cases quote
    | cancelAll _ => cases quote
  have clock : ([first] ++ [second]).Pairwise fun a b => a.mono ≤ b.mono := by decide +kernel
  exact ⟨executed, sends, (quotes_cleared clock).1 "KXBTCD-1" sends⟩

end KalshiMm.Verified.QuoteSafety
