import KalshiMm.Verified.DeskSteps
import KalshiMm.Verified.OrderFlow
import KalshiMm.Verified.PaperBook
import KalshiMm.Verified.Upkeep

/-!
# Trading on paper

A run of the whole loop against the paper client.  No fill, position or settlement is ever served, so
nothing is ever held and no exit is sent; and the orders that rest with the client are, as long as
trading has not been halted, exactly those on record for their markets.
-/

namespace KalshiMm.Verified.PaperTrading

open KalshiMm.Lib KalshiMm.Model KalshiMm.Verified.PaperBook

/-! ## The paper client at a move -/

/-- The move runs against the paper client: its reads are the client's, its calls are answered by
    it in turn, and a fill that is reported was on a page it served. -/
structure OnPaper (env : Env) (desk : PaperDesk) (m : Move) : Prop where
  reads : ∃ real, PaperClient.Reads real (ClosedMarkets.outsideOf m).api
  answers : Along PaperClient.carry PaperClient.Answers desk.client
    (desk.trader.carryOut env m).calls
  served : ∀ raw out, m = .turn ⟨.fill raw, out⟩ → ∃ page minTs cursor resp,
    out.api.getFills page minTs cursor none = .ok resp ∧ raw ∈ resp.getRows "fills"

/-! ## Nothing is held -/

def AllFlat (tr : Trader) : Prop := ∀ ticker, tr.positionOf ticker = 0

theorem heldTickers_of_flat {tr : Trader} (flat : AllFlat tr) (out : Outside) :
    tr.heldTickers out = [] :=
  List.filter_eq_nil_iff.mpr fun ticker _ => by simp [flat ticker]

theorem enumerate_empty (hash : HashOrder) : hash.enumerate ∅ = [] := by
  refine List.eq_nil_iff_forall_not_mem.mpr fun key member => ?_
  exact absurd ((hash.mem ∅ key).mp member) (Finset.notMem_empty key)

/-- With nothing held here or there, a sync has nothing to do. -/
theorem syncPositions_of_flat {out : Outside} {tr : Trader} (flat : AllFlat tr)
    (reads : out.api.getPositions = PaperClient.getPositions) : tr.syncPositions out = tr := by
  have keys : tr.syncKeys out ∅ = [] := by
    unfold Trader.syncKeys
    rw [Finset.filter_false_of_mem fun ticker _ => by simp [flat ticker], Finmap.keys_empty,
      Finset.empty_union, enumerate_empty]
  have rebuilt : (tr.tickerKeys out).filter tr.needsBackfill = [] := by
    refine List.filter_eq_nil_iff.mpr fun ticker _ => ?_
    have position := flat ticker
    unfold Trader.positionOf at position
    unfold Trader.needsBackfill
    cases known : tr.state.tickers.lookup ticker with
    | none => simp
    | some ts =>
      rw [known] at position
      have zero : ts.position = 0 := position
      simp [zero]
  have parsed : parsePositions (.object [("positions", .array [])]) = ∅ := rfl
  unfold Trader.syncPositions
  rw [reads, PaperClient.getPositions]
  dsimp only
  rw [parsed, keys]
  simp only [List.filter_nil, List.foldl_nil, if_true, rebuilt]

theorem checkSpotUnwind_of_flat {out : Outside} {tr : Trader} (flat : AllFlat tr) :
    tr.checkSpotUnwind out = ⟨tr, []⟩ := by
  unfold Trader.checkSpotUnwind
  split_ifs
  · rfl
  · rw [heldTickers_of_flat flat]
    rfl

theorem checkExits_of_flat {tr : Trader} (flat : AllFlat tr) (out : Outside) :
    ∃ exitRetries, tr.checkExits out = ⟨{ tr with exitRetries }, []⟩ := by
  unfold Trader.checkExits
  dsimp only
  rw [heldTickers_of_flat flat]
  exact ⟨_, rfl⟩

/-- No page of fills has a row, so none is reported. -/
theorem not_fill {env : Env} {desk : PaperDesk} {raw : Value} {out : Outside}
    (paper : OnPaper env desk (.turn ⟨.fill raw, out⟩)) : False := by
  obtain ⟨page, minTs, cursor, resp, served, listed⟩ := paper.served raw out rfl
  obtain ⟨_, reads⟩ := paper.reads
  have nothing := (reads.fills page minTs cursor none).symm.trans served
  cases nothing
  cases listed

theorem flat_move {env : Env} {desk : PaperDesk} {m : Move} (flat : AllFlat desk.trader)
    (paper : OnPaper env desk m) : AllFlat (desk.trader.move env m) := by
  cases booked_move env desk.trader m with
  | fill raw out turn moves =>
    cases m with
    | poll _ _ => cases turn
    | turn arrival =>
      simp only [turnOf] at turn
      split_ifs at turn
      cases turn
      exact (not_fill paper).elim
  | sync out turn moves =>
    cases m with
    | poll _ _ => cases turn
    | turn arrival =>
      simp only [turnOf] at turn
      split_ifs at turn
      cases turn
      obtain ⟨_, reads⟩ := paper.reads
      have syncs : desk.trader.syncPositions out = desk.trader :=
        syncPositions_of_flat flat reads.positions
      rw [moves, syncs]
      exact flat
  | daily out turn moves =>
    rw [moves]
    unfold Trader.maybeDailyReset
    split_ifs
    · exact flat
    · exact flat
  | nothing _ upkeep => exact fun ticker => (upkeep.positionOf ticker).trans (flat ticker)

/-! ## What a move does to ids and orders -/

/-- No recorded id changes, and the loop goes on as it did. -/
structure SameIds (tr tr' : Trader) : Prop where
  running : tr'.running = tr.running
  ids : ∀ ticker, tr'.state.recordedIds ticker = tr.state.recordedIds ticker

namespace SameIds

theorem refl (tr : Trader) : SameIds tr tr := ⟨rfl, fun _ => rfl⟩

theorem trans {a b c : Trader} (first : SameIds a b) (second : SameIds b c) : SameIds a c :=
  ⟨second.running.trans first.running, fun ticker => (second.ids ticker).trans (first.ids ticker)⟩

theorem of_refetch {tr tr' : Trader} (refetch : Refetch tr tr') : SameIds tr tr' := by
  obtain ⟨⟨⟨_, _, rfl⟩, _⟩, ids⟩ := refetch
  exact ⟨rfl, ids⟩

theorem of_sensed {ticker category : String} {tr tr' : Trader}
    (sensed : Sensed ticker category tr tr') : SameIds tr tr' := by
  obtain ⟨_, _, _, _, rfl⟩ := sensed
  exact of_refetch (Refetch.setTicker rfl rfl)

end SameIds

/-- How a move of a flat trader ends: nothing is called; the gate pulls the quotes of the spot-bound
    markets; a quote cycle replaces the quotes of one market; trading is halted. -/
inductive Flow (tr : Trader) : Outcome → Prop where
  | quiet {tr' : Trader} (same : SameIds tr tr') : Flow tr ⟨tr', []⟩
  | pulled {tr' : Trader} (out : Outside) (running : tr'.running = tr.running)
      (ids : ∀ ticker, tr'.state.recordedIds ticker =
        if tr.isSpotBound ticker then [] else tr.state.recordedIds ticker) :
      Flow tr ⟨tr', (((tr.tickerKeys out).filter tr.isSpotBound).flatMap tr.state.recordedIds).map
        fun id => .cancel id (out.api.cancelOrder id)⟩
  | replaced {tr' : Trader} (out : Outside) (ticker : String) (allow : Bool × Bool)
      (plan : QuotePlan) (running : tr'.running = tr.running)
      (ids : ∀ other, tr'.state.recordedIds other =
        if other = ticker then
          (restingId (bidSide out ticker allow plan).1).toList ++
            (restingId (askSide out ticker allow plan).1).toList
        else tr.state.recordedIds other) :
      Flow tr ⟨tr', ((tr.state.recordedIds ticker).map fun id =>
        .cancel id (out.api.cancelOrder id)) ++ (bidSide out ticker allow plan).2 ++
          (askSide out ticker allow plan).2⟩
  | halted {tr' : Trader} (reply : Except String ℕ) (stopped : QuoteSafety.Stopped tr') :
      Flow tr ⟨tr', [.cancelAll reply]⟩

theorem flow_quoteCycle {start tr : Trader} (same : SameIds start tr) (out : Outside)
    (category ticker : String) (action : Action) (fvShift : ℚ) (allow : Bool × Bool) :
    Flow start (tr.quoteCycle out category ticker action fvShift allow) := by
  generalize executed : tr.quoteCycle out category ticker action fvShift allow = outcome
  obtain ⟨tr', calls⟩ := outcome
  cases planned : planOf out category ticker action fvShift tr with
  | none =>
    have refetch := refetch_of_unplanned allow planned
    have silent := (quoteCycle_of_none allow planned).1
    rw [executed] at refetch silent
    cases silent
    exact .quiet (same.trans (.of_refetch refetch))
  | some plan =>
    obtain ⟨sends, state, ts, trades, tickers, _, _, bid, ask, _⟩ := quoteCycle_of_some allow planned
    obtain ⟨listed, _⟩ := planOf_some planned
    -- a market records two ids at most, so the plan's two cancels reach them all
    have few : plan.cancelIds.take 2 = start.state.recordedIds ticker := by
      rw [listed, ← same.ids, List.take_of_length_le]
      rw [recordedIds_eq _ ticker category, TickerState.orderIds, List.length_append]
      exact Nat.add_le_add Option.length_toList_le Option.length_toList_le
    rw [executed] at sends trades
    rw [few] at sends
    cases sends
    cases trades
    refine .replaced out ticker allow plan same.running fun other => ?_
    rw [recordedIds_of_insert tickers, TickerState.orderIds, bid, ask, same.ids]

theorem flow_onBookUpdate (env : Env) (out : Outside) (ticker : String) (msg : Value) (tr : Trader) :
    Flow tr (tr.onBookUpdate env out ticker msg) := by
  have ends := onBookUpdate_updated env out ticker msg tr
  generalize tr.onBookUpdate env out ticker msg = outcome at ends ⊢
  cases ends with
  | inactive _ _ => exact .quiet (.refl tr)
  | stopped _ _ sensed _ => exact .quiet (.of_sensed sensed)
  | halted _ _ sensed limit _ => exact .halted _ (QuoteSafety.stopped_of_sensed sensed limit out)
  | quoted stage reached =>
    exact flow_quoteCycle (.of_sensed (staged_of_quoteStage reached).sensed) ..

theorem flow_updateSpotGate (out : Outside) (tr : Trader) : Flow tr (tr.updateSpotGate out) := by
  obtain ⟨_, same⟩ | ⟨_, _, rises⟩ | ⟨_, stays⟩ := updateSpotGate_cases out tr
  · rw [same]
    exact .quiet (.refl tr)
  · rw [rises]
    exact .pulled out rfl (recordedIds_cancelSpotBoundQuotes out tr)
  · rw [stays]
    exact .quiet ⟨rfl, fun _ => rfl⟩

/-- Folding a tick moves nothing a flow speaks of. -/
theorem Flow.of_spot {tr : Trader} {spot : SpotState ℚ} {outcome : Outcome}
    (flow : Flow { tr with spot } outcome) : Flow tr outcome := by
  cases flow with
  | quiet same => exact .quiet ⟨same.running, same.ids⟩
  | pulled out running ids => exact .pulled out running ids
  | replaced out ticker allow plan running ids => exact .replaced out ticker allow plan running ids
  | halted reply stopped => exact .halted reply stopped

/-- Neither do the retry entries. -/
theorem Flow.withRetries {tr tr' : Trader} {calls : List OrderCall} (flow : Flow tr ⟨tr', calls⟩)
    (exitRetries : Dict String ExitRetry) : Flow tr ⟨{ tr' with exitRetries }, calls⟩ := by
  cases flow with
  | quiet same => exact .quiet ⟨same.running, same.ids⟩
  | pulled out running ids => exact .pulled out running ids
  | replaced out ticker allow plan running ids => exact .replaced out ticker allow plan running ids
  | halted reply stopped => exact .halted reply stopped

theorem andThen_of_idle {first : Outcome} {next : Trader → Outcome}
    (idle : next first.trader = ⟨first.trader, []⟩) : first.andThen next = first := by
  rw [Outcome.andThen, idle, List.append_nil]

theorem flow_onSpotTick {tr : Trader} (flat : AllFlat tr) (env : Env) (out : Outside) (price : ℚ) :
    Flow tr (tr.onSpotTick env out price) := by
  let ticked : Trader := { tr with spot := (tr.spot.onTick env.exp price out.mono).1 }
  have gated : AllFlat (ticked.updateSpotGate out).trader := fun ticker =>
    (positionOf_updateSpotGate out ticked ticker).trans (flat ticker)
  have folds : tr.onSpotTick env out price = if (tr.spot.onTick env.exp price out.mono).2 then
      (ticked.updateSpotGate out).andThen (Trader.checkSpotUnwind out) else ⟨ticked, []⟩ := rfl
  rw [folds]
  split_ifs
  · rw [andThen_of_idle (checkSpotUnwind_of_flat gated)]
    exact (flow_updateSpotGate out ticked).of_spot
  · exact .quiet ⟨rfl, fun _ => rfl⟩

theorem flow_onExitTimer {tr : Trader} (flat : AllFlat tr) (out : Outside) :
    Flow tr (tr.onExitTimer out) := by
  have gated : AllFlat (tr.updateSpotGate out).trader := fun ticker =>
    (positionOf_updateSpotGate out tr ticker).trans (flat ticker)
  obtain ⟨exitRetries, reaped⟩ := checkExits_of_flat gated out
  unfold Trader.onExitTimer Outcome.andThen
  rw [reaped, List.append_nil]
  exact (flow_updateSpotGate out tr).withRetries exitRetries

theorem sameIds_refreshMarkets (env : Env) (out : Outside) (tr : Trader) :
    SameIds tr (tr.refreshMarkets env out) := by
  obtain ⟨same, _⟩ | ⟨_, rolled, _⟩ := refreshMarkets_cases env out tr
  · rw [same]
    exact .refl tr
  · obtain ⟨_, _, _, _, _, only⟩ := rolled.only
    exact ⟨by rw [only], rolled.ids⟩

theorem sameIds_onTrade (out : Outside) (ticker : String) (msg : Value) (tr : Trader) :
    SameIds tr (tr.onTrade out ticker msg) := by
  unfold Trader.onTrade
  dsimp only
  split
  · exact .refl tr
  · exact .of_refetch (Refetch.setTicker rfl rfl)

theorem sameIds_maybeDailyReset (env : Env) (out : Outside) (tr : Trader) :
    SameIds tr (tr.maybeDailyReset env out) := by
  unfold Trader.maybeDailyReset
  split_ifs
  · exact ⟨rfl, fun _ => rfl⟩
  · exact .refl tr

theorem flow_move {env : Env} {desk : PaperDesk} {m : Move} (flat : AllFlat desk.trader)
    (paper : OnPaper env desk m) : Flow desk.trader (desk.trader.carryOut env m) := by
  cases m with
  | poll out ticker =>
    unfold Trader.carryOut Trader.pollMarket
    dsimp only
    split
    · exact .quiet (.refl _)
    · exact flow_onBookUpdate ..
  | turn arrival =>
    obtain ⟨event, out⟩ := arrival
    unfold Trader.carryOut Trader.turn
    dsimp only
    split_ifs
    · cases event with
      | book ticker msg => exact flow_onBookUpdate ..
      | trade ticker msg => exact .quiet (sameIds_onTrade ..)
      | spot price => exact flow_onSpotTick flat env out price
      | fill raw => exact (not_fill paper).elim
      | sync =>
        obtain ⟨_, reads⟩ := paper.reads
        have syncs : desk.trader.syncPositions out = desk.trader :=
          syncPositions_of_flat flat reads.positions
        refine .quiet ?_
        rw [syncs]
        exact .refl _
      | exits => exact flow_onExitTimer flat out
      | daily => exact .quiet (sameIds_maybeDailyReset ..)
      | refresh => exact .quiet (sameIds_refreshMarkets ..)
    · exact .quiet (.refl _)

/-! ## Orders and records -/

/-- What rests with the client is what is on record, until trading is halted and nothing rests. -/
structure Matched (desk : PaperDesk) : Prop where
  numbered : Numbered desk.client
  recorded : desk.trader.running = true → ∀ ticker id,
    id ∈ desk.trader.state.recordedIds ticker ↔ Resting desk.client ticker id
  halted : desk.trader.running = false →
    QuoteSafety.Stopped desk.trader ∧ ∀ ticker id, ¬ Resting desk.client ticker id

section Replaced

variable {desk : PaperDesk} {out : Outside} {ticker : String} {allow : Bool × Bool}
  {plan : QuotePlan}

/-- After a cycle's calls: the market's old orders no longer rest, its new ones do. -/
theorem resting_replaced (numbered : Numbered desk.client)
    (recorded : ∀ ticker id, id ∈ desk.trader.state.recordedIds ticker ↔
      Resting desk.client ticker id)
    (answers : Along PaperClient.carry PaperClient.Answers desk.client
      (((desk.trader.state.recordedIds ticker).map fun id =>
        OrderCall.cancel id (out.api.cancelOrder id)) ++ (bidSide out ticker allow plan).2 ++
          (askSide out ticker allow plan).2)) (other id : String) :
    Resting ((((desk.trader.state.recordedIds ticker).map fun id =>
        OrderCall.cancel id (out.api.cancelOrder id)) ++ (bidSide out ticker allow plan).2 ++
          (askSide out ticker allow plan).2).foldl PaperClient.carry desk.client) other id ↔
      if other = ticker then
        restingId (bidSide out ticker allow plan).1 = some id ∨
          restingId (askSide out ticker allow plan).1 = some id
      else id ∈ desk.trader.state.recordedIds other := by
  obtain ⟨earlier, asks⟩ := along_append.mp answers
  obtain ⟨_, bids⟩ := along_append.mp earlier
  rw [run, List.foldl_append] at asks
  rw [run] at bids
  rw [List.foldl_append, List.foldl_append]
  unfold bidSide askSide at *
  rw [resting_sendQuoteSide asks, resting_sendQuoteSide bids, resting_cancels]
  have owned (rests : Resting desk.client other id)
      (kept : id ∉ desk.trader.state.recordedIds ticker) : other ≠ ticker := fun same =>
    kept ((recorded ticker id).mpr (same ▸ rests))
  have apart (rests : Resting desk.client other id) (differs : other ≠ ticker) :
      id ∉ desk.trader.state.recordedIds ticker := fun member =>
    differs (numbered.ticker_unique rests ((recorded ticker id).mp member))
  simp only [quoteRequest]
  split_ifs with same
  · subst same
    constructor
    · rintro ((⟨rests, kept⟩ | ⟨bidden, _⟩) | ⟨asked, _⟩)
      · exact absurd rfl (owned rests kept)
      · exact Or.inl bidden
      · exact Or.inr asked
    · rintro (bidden | asked)
      · exact Or.inl (Or.inr ⟨bidden, rfl⟩)
      · exact Or.inr ⟨asked, rfl⟩
  · constructor
    · rintro ((⟨rests, _⟩ | ⟨_, here⟩) | ⟨_, here⟩)
      · exact (recorded other id).mpr rests
      · exact absurd here.symm same
      · exact absurd here.symm same
    · intro member
      have rests := (recorded other id).mp member
      exact Or.inl (Or.inl ⟨rests, apart rests same⟩)

end Replaced

theorem not_resting_move {desk : PaperDesk} (matched : Matched desk) {env : Env} {m : Move}
    (halts : desk.trader.running = false) : Matched (desk.step env m) := by
  obtain ⟨stopped, idle⟩ := matched.halted halts
  obtain ⟨stays, unsent⟩ := QuoteSafety.stopped_move env m stopped
  refine ⟨numbered_calls matched.numbered _, fun running => ?_, fun _ =>
    ⟨stays, not_resting_calls unsent idle⟩⟩
  exact absurd running (Bool.eq_false_iff.mp stays.1)

/-- While the loop runs, a move keeps records and resting orders the same, or halts trading and
    leaves nothing resting. -/
theorem matched_step {env : Env} {desk : PaperDesk} {m : Move} (flat : AllFlat desk.trader)
    (matched : Matched desk) (paper : OnPaper env desk m) : Matched (desk.step env m) := by
  cases halts : desk.trader.running with
  | false => exact not_resting_move matched halts
  | true =>
    have recorded := matched.recorded halts
    have numbered := numbered_calls matched.numbered (desk.trader.carryOut env m).calls
    have flow := flow_move flat paper
    have answers := paper.answers
    unfold PaperDesk.step
    dsimp only
    generalize desk.trader.carryOut env m = outcome at flow answers numbered ⊢
    cases flow with
    | quiet same =>
      refine ⟨numbered, fun _ ticker id => ?_, fun stopped => ?_⟩
      · rw [same.ids]
        exact recorded ticker id
      · cases (same.running.trans halts).symm.trans stopped
    | pulled out running ids =>
      refine ⟨numbered, fun _ ticker id => ?_, fun stopped => ?_⟩
      · rw [ids, resting_cancels, mem_cancelledIds]
        split_ifs with bound
        · refine iff_of_false List.not_mem_nil fun kept => kept.2 ⟨ticker, bound, ?_⟩
          exact (recorded ticker id).mpr kept.1
        · rw [recorded]
          refine ⟨fun rests => ⟨rests, ?_⟩, And.left⟩
          rintro ⟨other, gone, member⟩
          exact bound (matched.numbered.ticker_unique rests ((recorded other id).mp member) ▸ gone)
      · cases (running.trans halts).symm.trans stopped
    | replaced out ticker allow plan running ids =>
      refine ⟨numbered, fun _ other id => ?_, fun stopped => ?_⟩
      · rw [ids, resting_replaced matched.numbered recorded answers]
        split_ifs
        · simp only [List.mem_append, Option.mem_toList]
        · exact Iff.rfl
      · cases (running.trans halts).symm.trans stopped
    | halted reply stopped =>
      refine ⟨numbered, fun running => absurd running (Bool.eq_false_iff.mp stopped.1), fun _ =>
        ⟨stopped, not_resting_cancelAll desk.client reply⟩⟩

/-! ## Runs -/

theorem flat_startup {real : Option MarketApi} (env : Env) (cfg : Config) {out : Outside}
    (reads : PaperClient.Reads real out.api) : AllFlat (Trader.startup env cfg out) := by
  obtain ⟨fetched, before, after⟩ := startup_syncs env cfg out
  have flat : AllFlat fetched := fun ticker => (before.positionOf ticker).trans rfl
  rw [syncPositions_of_flat flat reads.positions] at after
  exact fun ticker => (after.positionOf ticker).trans (flat ticker)

theorem matched_start (env : Env) (cfg : Config) (out : Outside) :
    Matched (PaperDesk.start env cfg out) where
  numbered := rfl
  recorded _ ticker id := by
    refine iff_of_false ?_ fun rests => ?_
    · rw [PaperDesk.start, recordedIds_startup]
      exact List.not_mem_nil
    · obtain ⟨_, member, _⟩ := rests
      cases member
  halted stopped := by cases (running_startup env cfg out).symm.trans stopped

/-- The orders of a market that rest with the client. -/
def restingOrders (client : PaperClient) (ticker : String) : List PaperOrder :=
  client.orders.filter fun order => order.marketTicker = ticker ∧ order.status = .resting

theorem mem_restingOrders {client : PaperClient} {ticker id : String} :
    id ∈ (restingOrders client ticker).map PaperOrder.orderId ↔ Resting client ticker id := by
  unfold restingOrders Resting
  simp only [List.mem_map, List.mem_filter, decide_eq_true_eq]
  constructor
  · rintro ⟨order, ⟨member, same, rests⟩, rfl⟩
    exact ⟨order, member, rfl, same, rests⟩
  · rintro ⟨order, member, rfl, same, rests⟩
    exact ⟨order, ⟨member, same, rests⟩, rfl⟩

theorem Matched.nothingRests {desk : PaperDesk} (matched : Matched desk)
    (stopped : desk.trader.running = false) (ticker : String) :
    restingOrders desk.client ticker = [] := by
  refine List.eq_nil_iff_forall_not_mem.mpr fun order member => ?_
  exact (matched.halted stopped).2 ticker _ (mem_restingOrders.mp (List.mem_map_of_mem member))

theorem Matched.atMostTwo {desk : PaperDesk} (matched : Matched desk) (ticker : String) :
    (restingOrders desk.client ticker).length ≤ 2 := by
  have nodup : ((restingOrders desk.client ticker).map PaperOrder.orderId).Nodup :=
    matched.numbered.nodup.sublist (List.filter_sublist.map _)
  cases running : desk.trader.running with
  | true =>
    have listed : (restingOrders desk.client ticker).map PaperOrder.orderId ⊆
        desk.trader.state.recordedIds ticker := fun id member =>
      (matched.recorded running ticker id).mpr (mem_restingOrders.mp member)
    have few := (nodup.subperm listed).length_le
    rw [List.length_map, recordedIds_eq _ ticker "", TickerState.orderIds, List.length_append]
      at few
    exact few.trans (Nat.add_le_add Option.length_toList_le Option.length_toList_le)
  | false =>
    rw [matched.nothingRests running ticker]
    exact Nat.zero_le 2

/-- What holds of a desk that trades on paper. -/
structure Sound (desk : PaperDesk) : Prop where
  flat : AllFlat desk.trader
  atMostTwo : ∀ ticker, (restingOrders desk.client ticker).length ≤ 2
  recorded : desk.trader.running = true → ∀ ticker id,
    id ∈ desk.trader.state.recordedIds ticker ↔
      id ∈ (restingOrders desk.client ticker).map PaperOrder.orderId
  pulled : desk.trader.running = false → ∀ ticker, restingOrders desk.client ticker = []

theorem sound_of_matched {desk : PaperDesk} (flat : AllFlat desk.trader) (matched : Matched desk) :
    Sound desk where
  flat := flat
  atMostTwo := matched.atMostTwo
  recorded running ticker id := (matched.recorded running ticker id).trans mem_restingOrders.symm
  pulled stopped ticker := matched.nothingRests stopped ticker

/-- With nothing held, every order that is sent is a passive quote. -/
theorem passive_of_flat {env : Env} {out : Outside} {tr : Trader} (flat : AllFlat tr)
    {request : OrderRequest} (ordered : Ordered env out tr request) :
    request.postOnly = true ∧ request.timeInForce = .goodTillCanceled := by
  cases ordered with
  | quote _ _ side _ => cases side <;> exact ⟨rfl, rfl⟩
  | @exit ticker ts _ known exits =>
    have position := flat ticker
    rw [Trader.positionOf, known] at position
    exact absurd position exits.held

/-- In every run on paper nothing is ever held, every order sent is a passive quote, no market has
    more than two orders resting, and these are the ones on record, until a halt pulls them all. -/
theorem paper_run_sound (real : Option MarketApi) (env : Env) (cfg : Config) {out : Outside}
    (reads : PaperClient.Reads real out.api) {moves : List Move}
    (paper : Along (PaperDesk.step env) (OnPaper env) (PaperDesk.start env cfg out) moves) :
    Throughout (PaperDesk.step env) Sound (PaperDesk.start env cfg out) moves ∧
      Along (PaperDesk.step env) (fun desk m => ∀ request reply,
        OrderCall.place request reply ∈ (desk.trader.carryOut env m).calls →
          request.postOnly = true ∧ request.timeInForce = .goodTillCanceled)
        (PaperDesk.start env cfg out) moves := by
  let Kept (desk : PaperDesk) : Prop := AllFlat desk.trader ∧ Matched desk
  have starts : Kept (PaperDesk.start env cfg out) :=
    ⟨flat_startup env cfg reads, matched_start env cfg out⟩
  have keeps (desk : PaperDesk) (m : Move) (kept : Kept desk) (paper : OnPaper env desk m) :
      Kept (desk.step env m) := ⟨flat_move kept.1 paper, matched_step kept.1 kept.2 paper⟩
  constructor
  · exact (throughout_of_along keeps starts paper).imp fun desk kept =>
      sound_of_matched kept.1 kept.2
  · exact along_of_along keeps (fun desk m kept _ request reply sent =>
      passive_of_flat kept.1 (ordered_of_sent sent)) starts paper

/-! ## A quote that is replaced -/

/-- A reply, read as the client would give it. -/
def repliesAs (client : PaperClient) : OrderCall → Bool
  | .place _ (.ok (.object [("order_id", .string id)])) => id = paperOrderId (client.counter + 1)
  | .cancel orderId (.ok (.object [("order_id", .string id), ("status", .string "canceled")])) =>
    id = orderId
  | .cancelAll (.ok count) => count = client.orders.countP fun order => order.status = .resting
  | _ => false

theorem answers_of_repliesAs {client : PaperClient} {call : OrderCall}
    (replies : repliesAs client call = true) : PaperClient.Answers client call := by
  unfold repliesAs at replies
  split at replies
  · rw [of_decide_eq_true replies]; rfl
  · rw [of_decide_eq_true replies]; rfl
  · rw [of_decide_eq_true replies]; rfl
  · cases replies

/-- The paper client's replies when its last order has this number. -/
def paperOut (last : ℕ) (mono : ℚ) : Outside :=
  let live := listing ["KXBTCD-1"] mono
  { live with
    api :=
      { live.api with
        getPositions := PaperClient.getPositions
        getFills := fun _ _ _ _ => PaperClient.getFills
        getSettlements := PaperClient.getSettlements
        placeLimitOrder := fun request => .ok (.object [("order_id",
          .string (paperOrderId (if request.side = .buy then last + 1 else last + 2)))])
        cancelOrder := fun id =>
          .ok (.object [("order_id", .string id), ("status", .string "canceled")]) } }

def paperMoves : List Move :=
  [.turn ⟨.book "KXBTCD-1" (snapshot (2 / 5) (1 / 2)), paperOut 0 10⟩,
    .turn ⟨.book "KXBTCD-1" (snapshot (3 / 10) (3 / 5)), paperOut 2 20⟩]

theorem reads_paperOut (last : ℕ) (mono : ℚ) :
    PaperClient.Reads (some (listing ["KXBTCD-1"] mono).api) (paperOut last mono).api :=
  ⟨rfl, rfl, rfl, rfl, fun _ _ _ _ => rfl, rfl⟩

theorem onPaper_of_book {env : Env} {desk : PaperDesk} {ticker : String} {msg : Value} {last : ℕ}
    {mono : ℚ}
    (replies : Along PaperClient.carry (fun client call => repliesAs client call = true) desk.client
      (desk.trader.carryOut env (.turn ⟨.book ticker msg, paperOut last mono⟩)).calls) :
    OnPaper env desk (.turn ⟨.book ticker msg, paperOut last mono⟩) where
  reads := ⟨_, reads_paperOut last mono⟩
  answers := replies.imp fun _ _ => answers_of_repliesAs
  served := by
    intro raw out same
    cases same

/-- Two quotes rest, and are replaced by two others. -/
theorem paper_run_sound_quotes :
    let env := marketEnv (some narrow)
    let start := PaperDesk.start env (marketCfg none) (paperOut 0 0)
    ((restingOrders (run (PaperDesk.step env) start paperMoves).client "KXBTCD-1").map
      fun order => (order.orderId, order.priceCents)) =
        [("paper_order_3", 32), ("paper_order_4", 38)] ∧
    Throughout (PaperDesk.step env) Sound start paperMoves ∧
      Along (PaperDesk.step env) (fun desk m => ∀ request reply,
        OrderCall.place request reply ∈ (desk.trader.carryOut env m).calls →
          request.postOnly = true ∧ request.timeInForce = .goodTillCanceled) start paperMoves :=
  ⟨by decide +kernel, paper_run_sound _ _ _ (reads_paperOut 0 0)
    ⟨onPaper_of_book (by decide +kernel), onPaper_of_book (by decide +kernel), trivial⟩⟩

end KalshiMm.Verified.PaperTrading
