import KalshiMm.Model.Desk
import KalshiMm.Verified.Bookings

/-!
# What the desk's steps do to ids and orders

For each step: which ids a market records afterwards, and which orders rest.
-/

namespace KalshiMm.Verified

open KalshiMm.Lib KalshiMm.Model

/-! ## The exchange under calls -/

def restOption (ex : Exchange) (id : Option String) (order : RestingOrder) : Exchange :=
  id.elim ex fun id => ex.rest id order

theorem accept_sendQuoteSide (ex : Exchange) (api : OrderApi) (placed : Bool) (ticker : String)
    (side : OrderSide) (priceCents : ℚ) (size : ℤ) :
    (sendQuoteSide api placed (quoteRequest ticker side priceCents size)).2.foldl Exchange.accept ex =
      restOption ex (restingId (sendQuoteSide api placed (quoteRequest ticker side priceCents size)).1)
        { ticker, side, remaining := size } := by
  unfold sendQuoteSide
  split_ifs
  · simp only [sendOrder, List.foldl_cons, List.foldl_nil, Exchange.accept, sendResult, restingId]
    cases api.placeLimitOrder (quoteRequest ticker side priceCents size) with
    | ok resp => simp only [orderIdOf]; cases resp.getStr "order_id" <;> rfl
    | error body => simp only [orderIdOf]; split_ifs <;> rfl
  · rfl

theorem placed_of_restingId {api : OrderApi} {placed : Bool} {request : OrderRequest} {id : String}
    (left : restingId (sendQuoteSide api placed request).1 = some id) :
    placed = true ∧ ∃ resp, api.placeLimitOrder request = .ok resp ∧ resp.getStr "order_id" = some id := by
  unfold sendQuoteSide at left
  split_ifs at left with sends
  · refine ⟨sends, ?_⟩
    simp only [sendOrder, sendResult] at left
    cases reply : api.placeLimitOrder request with
    | ok resp =>
      rw [reply] at left
      exact ⟨resp, rfl, left⟩
    | error body =>
      rw [reply] at left
      dsimp only at left
      split_ifs at left <;> cases left
  · cases left

/-- The exchange gives every successful placement an id of its own. -/
structure Issues (api : OrderApi) (issued : Finset String) : Prop where
  reports : ∀ request resp, api.placeLimitOrder request = .ok resp →
    ∃ id, resp.getStr "order_id" = some id ∧ id ∉ issued
  distinct : ∀ (buy sell : OrderRequest) bought sold, buy.side = .buy → sell.side = .sell →
    api.placeLimitOrder buy = .ok bought → api.placeLimitOrder sell = .ok sold →
    bought.getStr "order_id" ≠ sold.getStr "order_id"

theorem Issues.fresh {api : OrderApi} {issued : Finset String} (issues : Issues api issued)
    {placed : Bool} {request : OrderRequest} {id : String}
    (left : restingId (sendQuoteSide api placed request).1 = some id) : id ∉ issued := by
  obtain ⟨_, resp, reply, reported⟩ := placed_of_restingId left
  obtain ⟨id', reported', fresh⟩ := issues.reports request resp reply
  rw [reported] at reported'
  cases reported'
  exact fresh

@[simp] theorem lookup_restOption (ex : Exchange) (id : Option String) (order : RestingOrder)
    (other : String) : (restOption ex id order).resting.lookup other =
      if id = some other then some order else ex.resting.lookup other := by
  cases id with
  | none => simp [restOption]
  | some id =>
    rw [restOption, Option.elim_some, Exchange.rest, Dict.lookup_insert_eq_ite]
    simp only [Option.some.injEq, eq_comm]

@[simp] theorem mem_issued_restOption (ex : Exchange) (id : Option String) (order : RestingOrder)
    (other : String) :
    other ∈ (restOption ex id order).issued ↔ id = some other ∨ other ∈ ex.issued := by
  cases id with
  | none => simp [restOption]
  | some id => simp [restOption, Exchange.rest, eq_comm]

def cancelled (api : OrderApi) (id : String) : Bool := (api.cancelOrder id).isOk

theorem accept_cancels (ex : Exchange) (api : OrderApi) (ids : List String) :
    let after := (ids.map fun id => OrderCall.cancel id (api.cancelOrder id)).foldl Exchange.accept ex
    after.issued = ex.issued ∧ ∀ id, after.resting.lookup id =
      if id ∈ ids ∧ cancelled api id = true then none else ex.resting.lookup id := by
  induction ids generalizing ex with
  | nil => exact ⟨rfl, fun id => by simp⟩
  | cons first ids inductionHypothesis =>
    rw [List.map_cons, List.foldl_cons]
    obtain ⟨issued, resting⟩ := inductionHypothesis (ex.accept (.cancel first (api.cancelOrder first)))
    have one : (ex.accept (.cancel first (api.cancelOrder first))).issued = ex.issued ∧
        ∀ id, (ex.accept (.cancel first (api.cancelOrder first))).resting.lookup id =
          if id = first ∧ cancelled api id = true then none else ex.resting.lookup id := by
      cases reply : api.cancelOrder first with
      | ok v =>
        refine ⟨rfl, fun id => ?_⟩
        rw [Exchange.accept, Dict.lookup_erase_eq_ite]
        by_cases same : id = first
        · subst same
          simp [cancelled, reply, Except.isOk, Except.toBool]
        · simp [same]
      | error e =>
        refine ⟨rfl, fun id => ?_⟩
        by_cases same : id = first
        · subst same
          simp [Exchange.accept, cancelled, reply, Except.isOk, Except.toBool]
        · simp [Exchange.accept, same]
    refine ⟨issued.trans one.1, fun id => ?_⟩
    rw [resting, one.2]
    by_cases later : id ∈ ids ∧ cancelled api id = true
    · rw [if_pos later, if_pos ⟨List.mem_cons_of_mem _ later.1, later.2⟩]
    · rw [if_neg later]
      by_cases now : id = first ∧ cancelled api id = true
      · rw [if_pos now, if_pos ⟨now.1 ▸ List.mem_cons_self, now.2⟩]
      · rw [if_neg now, if_neg]
        rintro ⟨member, done⟩
        rcases List.mem_cons.mp member with same | rest
        · exact now ⟨same, done⟩
        · exact later ⟨rest, done⟩

/-! ## Quote cycles -/

section Quote

variable {out : Outside} {category ticker : String} {action : Action} {fvShift : ℚ} {w : World}
  (allow : Bool × Bool)

/-- The orders an executed plan puts to rest, if their placements report an id. -/
def bidOrder (ticker : String) (plan : QuotePlan) : RestingOrder :=
  { ticker, side := .buy, remaining := plan.bidSize }

def askOrder (ticker : String) (plan : QuotePlan) : RestingOrder :=
  { ticker, side := .sell, remaining := plan.askSize }

@[simp] theorem bidOrder_ticker (ticker : String) (plan : QuotePlan) :
    (bidOrder ticker plan).ticker = ticker := rfl

@[simp] theorem askOrder_ticker (ticker : String) (plan : QuotePlan) :
    (askOrder ticker plan).ticker = ticker := rfl

def bidId (out : Outside) (ticker : String) (allow : Bool × Bool) (plan : QuotePlan) :
    Option String := restingId (bidSide out ticker allow plan).1

def askId (out : Outside) (ticker : String) (allow : Bool × Bool) (plan : QuotePlan) :
    Option String := restingId (askSide out ticker allow plan).1

theorem recordedIds_quote {plan : QuotePlan}
    (planned : planOf out category ticker action fvShift w.trader = some plan) (other : String) :
    (w.step (.quote out category ticker action fvShift allow)).trader.state.recordedIds other =
      if other = ticker then (bidId out ticker allow plan).toList ++ (askId out ticker allow plan).toList
      else w.trader.state.recordedIds other := by
  obtain ⟨_, state, ts, executed, tickers, _, _, bid, ask, _⟩ := quoteCycle_of_some allow planned
  rw [World.step, World.settleCalls, executed, recordedIds_of_insert tickers, TickerState.orderIds,
    bid, ask, bidId, askId]

/-- The exchange after a step that executed a plan: the recorded orders whose cancels succeeded
    are gone, and the new ones rest under the ids recorded for them. -/
theorem exchange_quote {plan : QuotePlan}
    (planned : planOf out category ticker action fvShift w.trader = some plan) :
    ∃ cancelledEx : Exchange, cancelledEx.issued = w.exchange.issued ∧
      (∀ id, cancelledEx.resting.lookup id =
        if id ∈ w.trader.state.recordedIds ticker ∧ cancelled out.api.toOrderApi id = true then none
        else w.exchange.resting.lookup id) ∧
      (w.step (.quote out category ticker action fvShift allow)).exchange =
        restOption (restOption cancelledEx (bidId out ticker allow plan) (bidOrder ticker plan))
          (askId out ticker allow plan) (askOrder ticker plan) := by
  obtain ⟨calls, _⟩ := quoteCycle_of_some allow planned
  obtain ⟨listed, _⟩ := planOf_some planned
  -- a market records two ids at most, so the plan's two cancels reach them all
  have few : (plan.cancelIds.take 2) = w.trader.state.recordedIds ticker := by
    rw [listed, List.take_of_length_le]
    rw [recordedIds_eq _ ticker category, TickerState.orderIds, List.length_append]
    exact Nat.add_le_add Option.length_toList_le Option.length_toList_le
  obtain ⟨issued, resting⟩ := accept_cancels w.exchange out.api.toOrderApi
    (w.trader.state.recordedIds ticker)
  refine ⟨_, issued, resting, ?_⟩
  rw [World.step, World.settleCalls, calls, few, List.foldl_append, List.foldl_append, bidSide,
    accept_sendQuoteSide, askSide, accept_sendQuoteSide]
  rfl

/-- What the exchange has given out covers what rests on it. -/
def RestingIssued (ex : Exchange) : Prop :=
  ∀ id order, ex.resting.lookup id = some order → id ∈ ex.issued

/-- What rests after a step that executed a plan: the new orders, and those that were not
    cancelled. -/
theorem lookup_quote {plan : QuotePlan} (issues : Issues out.api.toOrderApi w.exchange.issued)
    (covered : RestingIssued w.exchange)
    (planned : planOf out category ticker action fvShift w.trader = some plan) (id : String)
    (order : RestingOrder) :
    (w.step (.quote out category ticker action fvShift allow)).exchange.resting.lookup id =
        some order ↔
      (bidId out ticker allow plan = some id ∧ bidOrder ticker plan = order) ∨
      (askId out ticker allow plan = some id ∧ askOrder ticker plan = order) ∨
      (w.exchange.resting.lookup id = some order ∧
        ¬ (id ∈ w.trader.state.recordedIds ticker ∧ cancelled out.api.toOrderApi id = true)) := by
  obtain ⟨cancelledEx, _, resting, after⟩ := exchange_quote allow planned
  rw [after, lookup_restOption, lookup_restOption, resting]
  have bidFresh (left : bidId out ticker allow plan = some id) : id ∉ w.exchange.issued :=
    issues.fresh left
  have askFresh (left : askId out ticker allow plan = some id) : id ∉ w.exchange.issued :=
    issues.fresh left
  -- one id cannot be both sides': the exchange gives each placement its own
  have apart (asked : askId out ticker allow plan = some id) :
      bidId out ticker allow plan ≠ some id := by
    intro bidden
    obtain ⟨_, sold, sells, sale⟩ := placed_of_restingId asked
    obtain ⟨_, bought, buys, purchase⟩ := placed_of_restingId bidden
    exact issues.distinct _ _ bought sold rfl rfl buys sells (purchase.trans sale.symm)
  have known := covered id order
  by_cases asked : askId out ticker allow plan = some id
  · have unknown : w.exchange.resting.lookup id ≠ some order :=
      fun found => askFresh asked (known found)
    simp [asked, apart asked, unknown]
  · by_cases bidden : bidId out ticker allow plan = some id
    · have unknown : w.exchange.resting.lookup id ≠ some order :=
        fun found => bidFresh bidden (known found)
      simp [asked, bidden, unknown]
    · rw [if_neg asked, if_neg bidden]
      by_cases gone : id ∈ w.trader.state.recordedIds ticker ∧
          cancelled out.api.toOrderApi id = true
      · simp [asked, bidden, gone]
      · simp only [asked, bidden, gone, false_and, false_or, if_false, not_false_eq_true,
          and_true]

theorem mem_issued_quote {plan : QuotePlan}
    (planned : planOf out category ticker action fvShift w.trader = some plan) (id : String) :
    id ∈ (w.step (.quote out category ticker action fvShift allow)).exchange.issued ↔
      askId out ticker allow plan = some id ∨ bidId out ticker allow plan = some id ∨
        id ∈ w.exchange.issued := by
  obtain ⟨cancelledEx, issued, _, after⟩ := exchange_quote allow planned
  rw [after, mem_issued_restOption, mem_issued_restOption, issued]

theorem restingIssued_quote {plan : QuotePlan}
    (issues : Issues out.api.toOrderApi w.exchange.issued) (covered : RestingIssued w.exchange)
    (planned : planOf out category ticker action fvShift w.trader = some plan) :
    RestingIssued (w.step (.quote out category ticker action fvShift allow)).exchange := by
  intro id order found
  rw [mem_issued_quote allow planned]
  obtain ⟨bidden, _⟩ | ⟨asked, _⟩ | ⟨old, _⟩ :=
    (lookup_quote allow issues covered planned id order).mp found
  · exact Or.inr (Or.inl bidden)
  · exact Or.inl asked
  · exact Or.inr (Or.inr (covered id order old))

theorem positionOf_quote (other : String) :
    (w.step (.quote out category ticker action fvShift allow)).trader.positionOf other =
      w.trader.positionOf other := by
  rw [World.step, World.settleCalls]
  cases planned : planOf out category ticker action fvShift w.trader with
  | none =>
    obtain ⟨_, lastQuoteTime, only⟩ := quoteCycle_of_none allow planned
    have written : (w.trader.quoteCycle out category ticker action fvShift allow).trader.state.tickers =
        w.trader.state.tickers.insert ticker
          { w.trader.state.tickerD ticker category with lastQuoteTime } := by rw [only]; rfl
    exact positionOf_of_kept written rfl other
  | some plan =>
    obtain ⟨_, _, _, executed, tickers, _, position, _⟩ := quoteCycle_of_some allow planned
    rw [executed]
    exact positionOf_of_kept tickers position other

theorem unplanned_quote (unplanned : planOf out category ticker action fvShift w.trader = none) :
    (w.step (.quote out category ticker action fvShift allow)).exchange = w.exchange ∧
      ∀ other, (w.step (.quote out category ticker action fvShift allow)).trader.state.recordedIds
        other = w.trader.state.recordedIds other := by
  refine ⟨?_, (refetch_of_unplanned allow unplanned).ids⟩
  rw [World.step, World.settleCalls, (quoteCycle_of_none allow unplanned).1]
  rfl

end Quote

/-! ## Market data -/

theorem recordedIds_data (w : World) (ticker category : String) (book : Book) (tick : ℚ)
    (other : String) :
    (w.step (.data ticker category book tick)).trader.state.recordedIds other =
      w.trader.state.recordedIds other := by
  rw [World.step, recordedIds_of_insert (TraderState.setTicker_tickers _ _ _)]
  split_ifs with same
  · rw [same, recordedIds_eq _ ticker category]
    rfl
  · rfl

/-! ## Spot-gate cancels -/

theorem mem_cancelledIds (out : Outside) {tr : Trader} {id : String} :
    id ∈ ((tr.tickerKeys out).filter tr.isSpotBound).flatMap tr.state.recordedIds ↔
      ∃ ticker, tr.isSpotBound ticker = true ∧ id ∈ tr.state.recordedIds ticker := by
  constructor
  · intro member
    obtain ⟨ticker, visited, recorded⟩ := List.mem_flatMap.mp member
    exact ⟨ticker, (List.mem_filter.mp visited).2, recorded⟩
  · rintro ⟨ticker, bound, recorded⟩
    refine List.mem_flatMap.mpr ⟨ticker, List.mem_filter.mpr ⟨?_, bound⟩, recorded⟩
    -- a market with ids has a state, so the walk visits it
    rw [Trader.tickerKeys, out.hash.mem, Finmap.mem_keys, ← Finmap.lookup_isSome]
    cases known : tr.state.tickers.lookup ticker with
    | none =>
      rw [Trader.isSpotBound, known] at bound
      cases bound
    | some ts => rfl

theorem exchange_spotCancel (w : World) (out : Outside) :
    (w.step (.spotCancel out)).exchange.issued = w.exchange.issued ∧
      ∀ id order, (w.step (.spotCancel out)).exchange.resting.lookup id = some order ↔
        w.exchange.resting.lookup id = some order ∧
          ((∃ ticker, w.trader.isSpotBound ticker = true ∧ id ∈ w.trader.state.recordedIds ticker) →
            cancelled out.api.toOrderApi id = false) := by
  obtain ⟨issued, resting⟩ := accept_cancels w.exchange out.api.toOrderApi
    (((w.trader.tickerKeys out).filter w.trader.isSpotBound).flatMap w.trader.state.recordedIds)
  refine ⟨issued, fun id order => ?_⟩
  rw [← mem_cancelledIds out, World.step, World.settleCalls]
  refine (congrArg (· = some order) (resting id)).to_iff.trans ?_
  split_ifs with gone
  · simp [gone.1, gone.2]
  · simp only [not_and, Bool.not_eq_true] at gone
    exact ⟨fun found => ⟨found, gone⟩, And.left⟩

/-! ## Executions -/

/-- An execution leaves of each order at most what rested of it, on the same market and side. -/
theorem lookup_execute {ex : Exchange} {nf : NormalizedFill} {id : String} {order : RestingOrder}
    (rests : (ex.execute nf).resting.lookup id = some order) :
    ∃ before, ex.resting.lookup id = some before ∧ order.ticker = before.ticker ∧
      order.side = before.side ∧ (0 ≤ nf.size → order.remaining ≤ before.remaining) := by
  unfold Exchange.execute at rests
  split at rests
  · exact ⟨order, rests, rfl, rfl, fun _ => le_rfl⟩
  next named =>
    split at rests
    · exact ⟨order, rests, rfl, rfl, fun _ => le_rfl⟩
    next filled found =>
      split_ifs at rests
      · rw [Dict.lookup_erase_eq_ite] at rests
        split_ifs at rests
        exact ⟨order, rests, rfl, rfl, fun _ => le_rfl⟩
      · rw [Dict.lookup_insert_eq_ite] at rests
        split_ifs at rests with same
        · cases rests
          exact ⟨filled, same ▸ found, rfl, rfl, fun positive => Int.sub_le_self _ positive⟩
        · exact ⟨order, rests, rfl, rfl, fun _ => le_rfl⟩

theorem issued_execute (ex : Exchange) (nf : NormalizedFill) : (ex.execute nf).issued = ex.issued := by
  unfold Exchange.execute
  split
  · rfl
  · split
    · rfl
    · split_ifs <;> rfl

/-! ## What no step changes -/

theorem params_step (w : World) (event : DeskEvent) :
    (w.step event).trader.cfg = w.trader.cfg ∧ (w.step event).trader.cats = w.trader.cats := by
  cases event with
  | data ticker category book tick => exact ⟨rfl, rfl⟩
  | quote out category ticker action fvShift allow =>
    obtain ⟨_, only⟩ := quoteCycle_only out category ticker action fvShift allow w.trader
    rw [World.step, World.settleCalls, only]
    exact ⟨rfl, rfl⟩
  | spotCancel out => exact ⟨rfl, rfl⟩
  | execute nf => exact ⟨rfl, rfl⟩
  | deliver out raw =>
    obtain ⟨⟨_, _, only⟩, _⟩ := bookkeeping_processFill out raw w.trader
    rw [World.step, only]
    exact ⟨rfl, rfl⟩

/-! ## A desk to run on -/

/-- One category, quoting two contracts a side with a cap of three. -/
def deskCfg : Config :=
  { marketCfg none with
    mm := { quoteSize := 2 }
    categories := [{ name := "KXBTCD", maxInventory := 3 }] }

def desk : World where
  trader := Trader.start deskCfg 0

theorem issues_answering {bid ask : String} {mono : ℚ} {issued : Finset String} (apart : bid ≠ ask)
    (newBid : bid ∉ issued) (newAsk : ask ∉ issued) :
    Issues (answering bid ask mono).api.toOrderApi issued where
  reports request resp placed := by
    cases placed
    refine ⟨_, rfl, ?_⟩
    split_ifs
    · exact newBid
    · exact newAsk
  distinct buy sell bought sold buys sells first second := by
    cases first
    cases second
    rw [buys, sells]
    intro same
    exact apart (Option.some.inj same)

/-- Market data at 40 to 50 cents. -/
def listed (ticker : String) : DeskEvent :=
  .data ticker "KXBTCD" ({ yes := ∅, no := ∅ : Book }.loadSnapshot (snapshot (2 / 5) (1 / 2)))
    (1 / 100)

def quoted (ticker : String) (out : Outside) : DeskEvent :=
  .quote out "KXBTCD" ticker narrow 0 (true, true)

def quotes : List DeskEvent := [listed "KXBTCD-1", quoted "KXBTCD-1" (answering "b1" "a1" 10)]

def fills (nf : NormalizedFill) : List DeskEvent :=
  [.execute nf, .deliver (answering "" "" 20) (report nf)]

end KalshiMm.Verified
