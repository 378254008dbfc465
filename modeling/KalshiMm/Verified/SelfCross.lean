import KalshiMm.Verified.Orphans
import KalshiMm.Verified.PassiveQuotes

/-!
# The trader does not quote against itself

A plan's bid is below its ask, and a plan replaces both sides.  Where the orders that it replaces are
gone or cancelled, all that rests of a market comes from one plan: a bid and an ask at most, and they
do not cross.  What rests at which price is told by the placements that the exchange has seen.
-/

namespace KalshiMm.Verified.SelfCross

open KalshiMm.Lib KalshiMm.Model PassiveQuotes Orphans

/-! ## Prices of a plan -/

/-- A plan's bid is below its ask in the cents that are sent. -/
theorem cents_uncrossed {action : Action} {fvShift : ℚ} {ts : TickerState} {mm : MmParams}
    {maxInventory : ℤ} {openOrderCount : ℕ} {balanceBackoffUntil nowMono : ℚ} {plan : QuotePlan}
    (legal : LegalTick ts.tick) (params : SoundParams mm)
    (planned : (planQuotes action fvShift ts mm maxInventory openOrderCount balanceBackoffUntil
      nowMono).2 = some plan) : plan.bidCents < plan.askCents := by
  obtain ⟨bestBid, bestAsk, quotes, priced, rfl⟩ := pricedAt_of_planQuotes legal planned
  obtain ⟨_, _, uncrossed⟩ := touch_of_isValid priced.valid priced.hasBid priced.hasAsk
  obtain ⟨_, _, modelLow, modelHigh⟩ :=
    modelQuotes_legal action fvShift ((bestBid + bestAsk) / 2) ts.tick mm.subpennyEnabled
  obtain ⟨bandLo, bandHi⟩ := priced.band
  have crossing := priced.uncrossed
  have small : ts.tick ≤ 1 / 100 := by
    obtain tick | tick := legal <;> norm_num [tick]
  have bidLow : 0 ≤ quotes.1 := by
    rw [priced.prices]
    exact le_min (by linarith) (by linarith [params.bandLo])
  have askHigh : quotes.2 ≤ 1 := by
    rw [priced.prices]
    exact max_le (by linarith) (by linarith [params.bandHi])
  have wide : 1 / 100 < quotes.2 - quotes.1 :=
    wider_of_edgeOk priced.gridBid priced.gridAsk bidLow (by linarith) (by linarith) askHigh
      params.fee params.edge priced.edge
  exact toCents_lt_toCents priced.gridBid priced.gridAsk
    (mill_above_cent (priced.gridAsk.sub priced.gridBid) wide)

/-! ## What was placed at which price -/

/-- The prices in cents of the ids that placements were answered with. -/
def tape (prices : Dict String ℚ) : OrderCall → Dict String ℚ
  | .place request reply =>
    match orderIdOf reply with
    | some id => prices.insert id request.priceCents
    | none => prices
  | .cancel _ _ => prices
  | .cancelAll _ => prices

/-- The calls of a step. -/
def callsOf (w : World) : DeskEvent → List OrderCall
  | .quote out category ticker action fvShift allow =>
    (w.trader.quoteCycle out category ticker action fvShift allow).calls
  | .spotCancel out => (w.trader.cancelSpotBoundQuotes out).calls
  | _ => []

def placedAt (w : World) (prices : Dict String ℚ) (event : DeskEvent) : Dict String ℚ :=
  (callsOf w event).foldl tape prices

def noteOption (prices : Dict String ℚ) (id : Option String) (price : ℚ) : Dict String ℚ :=
  id.elim prices fun id => prices.insert id price

theorem lookup_noteOption (prices : Dict String ℚ) (id : Option String) (price : ℚ)
    (other : String) : (noteOption prices id price).lookup other =
      if id = some other then some price else prices.lookup other := by
  cases id with
  | none => simp [noteOption]
  | some id =>
    rw [noteOption, Option.elim_some, Dict.lookup_insert_eq_ite]
    simp only [Option.some.injEq, eq_comm]

theorem tape_cancels (prices : Dict String ℚ) (ids : List String)
    (reply : String → Except String Value) :
    (ids.map fun id => OrderCall.cancel id (reply id)).foldl tape prices = prices := by
  induction ids with
  | nil => rfl
  | cons _ _ inductionHypothesis => exact inductionHypothesis

theorem tape_sendQuoteSide (prices : Dict String ℚ) (api : OrderApi) (placed : Bool)
    (request : OrderRequest) : (sendQuoteSide api placed request).2.foldl tape prices =
      noteOption prices (restingId (sendQuoteSide api placed request).1) request.priceCents := by
  unfold sendQuoteSide
  split_ifs
  · simp only [sendOrder, List.foldl_cons, List.foldl_nil, tape, sendResult, restingId]
    cases api.placeLimitOrder request with
    | ok resp => simp only [orderIdOf]; cases resp.getStr "order_id" <;> rfl
    | error body => simp only [orderIdOf]; split_ifs <;> rfl
  · rfl

section Steps

variable {w : World} {prices : Dict String ℚ} {out : Outside} {category ticker : String}
  {action : Action} {fvShift : ℚ} {allow : Bool × Bool}

theorem placedAt_of_some {plan : QuotePlan}
    (planned : planOf out category ticker action fvShift w.trader = some plan) :
    placedAt w prices (.quote out category ticker action fvShift allow) =
      noteOption (noteOption prices (bidId out ticker allow plan) plan.bidCents)
        (askId out ticker allow plan) plan.askCents := by
  obtain ⟨calls, _⟩ := quoteCycle_of_some allow planned
  rw [placedAt, callsOf, calls, List.foldl_append, List.foldl_append, tape_cancels, bidSide,
    tape_sendQuoteSide, askSide, tape_sendQuoteSide]
  rfl

theorem placedAt_of_none (unplanned : planOf out category ticker action fvShift w.trader = none) :
    placedAt w prices (.quote out category ticker action fvShift allow) = prices := by
  rw [placedAt, callsOf, (quoteCycle_of_none allow unplanned).1]
  rfl

theorem placedAt_spotCancel : placedAt w prices (.spotCancel out) = prices := tape_cancels _ _ _

end Steps

/-! ## What rests of a market -/

def Rests (w : World) (id : String) (order : RestingOrder) : Prop :=
  w.exchange.resting.lookup id = some order

/-- A market has one order a side that rests at most, and its bid was placed below its ask. -/
structure Paired (s : World × Dict String ℚ) : Prop where
  single : ∀ id id' order order', Rests s.1 id order → Rests s.1 id' order' →
    order.ticker = order'.ticker → order.side = order'.side → id = id'
  uncrossed : ∀ bid ask buys sells, Rests s.1 bid buys → Rests s.1 ask sells →
    buys.ticker = sells.ticker → buys.side = .buy → sells.side = .sell →
    ∃ low high, s.2.lookup bid = some low ∧ s.2.lookup ask = some high ∧ low < high

/-- A step that lets fewer orders rest, on their markets and sides, and places none. -/
theorem Paired.of_fewer {s s' : World × Dict String ℚ} (paired : Paired s)
    (fewer : ∀ id order, Rests s'.1 id order →
      ∃ before, Rests s.1 id before ∧ order.ticker = before.ticker ∧ order.side = before.side)
    (same : s'.2 = s.2) : Paired s' := by
  constructor
  · intro id id' order order' rests rests' market side
    obtain ⟨before, rested, ticker, was⟩ := fewer id order rests
    obtain ⟨before', rested', ticker', was'⟩ := fewer id' order' rests'
    exact paired.single id id' before before' rested rested' (ticker ▸ ticker' ▸ market)
      (was ▸ was' ▸ side)
  · intro bid ask buys sells bids asks market buying selling
    obtain ⟨before, rested, ticker, was⟩ := fewer bid buys bids
    obtain ⟨before', rested', ticker', was'⟩ := fewer ask sells asks
    rw [same]
    exact paired.uncrossed bid ask before before' rested rested' (ticker ▸ ticker' ▸ market)
      (was ▸ buying) (was' ▸ selling)

section Quote

variable {w : World} {prices : Dict String ℚ} {out : Outside} {category ticker : String}
  {action : Action} {fvShift : ℚ} {allow : Bool × Bool} {plan : QuotePlan}

/-- What rests once a plan has replaced what the market had: its two sides, and what rests of other
    markets. -/
inductive Replaced (w : World) (out : Outside) (ticker : String) (allow : Bool × Bool)
    (plan : QuotePlan) : String → RestingOrder → Prop where
  | bid {id : String} (new : bidId out ticker allow plan = some id) :
      Replaced w out ticker allow plan id (bidOrder ticker plan)
  | ask {id : String} (new : askId out ticker allow plan = some id) :
      Replaced w out ticker allow plan id (askOrder ticker plan)
  | old {id : String} {order : RestingOrder} (rests : Rests w id order)
      (elsewhere : order.ticker ≠ ticker) : Replaced w out ticker allow plan id order

theorem replaced_of_rests (tracked : Tracked w) (known : OrphanFree w)
    (issues : Issues out.api.toOrderApi w.exchange.issued)
    (planned : planOf out category ticker action fvShift w.trader = some plan)
    (dead : DropsDead w (.quote out category ticker action fvShift allow)) {id : String}
    {order : RestingOrder}
    (rests : Rests (w.step (.quote out category ticker action fvShift allow)) id order) :
    Replaced w out ticker allow plan id order := by
  obtain ⟨new, rfl⟩ | ⟨new, rfl⟩ | ⟨old, kept⟩ :=
    (lookup_quote allow issues tracked.resting planned id order).mp rests
  · exact .bid new
  · exact .ask new
  · refine .old old ?_
    rintro rfl
    have recorded := known id order old
    exact kept ⟨recorded, dead (by rw [planned]; rfl) id recorded (Finmap.mem_iff.mpr ⟨order, old⟩)⟩

theorem paired_quote (tracked : Tracked w) (known : OrphanFree w)
    (issues : Issues out.api.toOrderApi w.exchange.issued)
    (planned : planOf out category ticker action fvShift w.trader = some plan)
    (dead : DropsDead w (.quote out category ticker action fvShift allow))
    (uncrossed : plan.bidCents < plan.askCents) (paired : Paired (w, prices)) :
    Paired (w.step (.quote out category ticker action fvShift allow),
      placedAt w prices (.quote out category ticker action fvShift allow)) := by
  have replaced {id : String} {order : RestingOrder}
      (rests : Rests (w.step (.quote out category ticker action fvShift allow)) id order) :
      Replaced w out ticker allow plan id order :=
    replaced_of_rests tracked known issues planned dead rests
  have told (id : String) := lookup_noteOption
    (noteOption prices (bidId out ticker allow plan) plan.bidCents) (askId out ticker allow plan)
    plan.askCents id
  rw [placedAt_of_some planned]
  constructor
  · intro id id' order order' rests rests' market side
    cases replaced rests with
    | bid new =>
      cases replaced rests' with
      | bid new' => exact Option.some.inj (new.symm.trans new')
      | ask new' => cases side
      | old rests' elsewhere => exact absurd market.symm elsewhere
    | ask new =>
      cases replaced rests' with
      | bid new' => cases side
      | ask new' => exact Option.some.inj (new.symm.trans new')
      | old rests' elsewhere => exact absurd market.symm elsewhere
    | old rests elsewhere =>
      cases replaced rests' with
      | bid new' => exact absurd market elsewhere
      | ask new' => exact absurd market elsewhere
      | old rests' elsewhere' => exact paired.single id id' order order' rests rests' market side
  · intro bid ask buys sells bids asks market buying selling
    cases replaced bids with
    | ask new => cases buying
    | bid new =>
      cases replaced asks with
      | bid new' => cases selling
      | old rests' elsewhere => exact absurd market.symm elsewhere
      | ask new' =>
        have apart : askId out ticker allow plan ≠ some bid := by
          intro same
          have other := (lookup_quote allow issues tracked.resting planned bid _).mpr
            (Or.inr (Or.inl ⟨same, rfl⟩))
          rw [Rests, other] at bids
          cases bids
        refine ⟨plan.bidCents, plan.askCents, ?_, ?_, uncrossed⟩
        · rw [told, if_neg apart, lookup_noteOption, if_pos new]
        · rw [told, if_pos new']
    | old rests elsewhere =>
      cases replaced asks with
      | bid new' => cases selling
      | ask new' => exact absurd market elsewhere
      | old rests' elsewhere' =>
        have kept {id : String} {order : RestingOrder} (rests : Rests w id order) :
            (noteOption (noteOption prices (bidId out ticker allow plan) plan.bidCents)
              (askId out ticker allow plan) plan.askCents).lookup id = prices.lookup id := by
          have issued := tracked.resting id order rests
          have notAsk : askId out ticker allow plan ≠ some id := fun new => issues.fresh new issued
          have notBid : bidId out ticker allow plan ≠ some id := fun new => issues.fresh new issued
          rw [told, if_neg notAsk, lookup_noteOption, if_neg notBid]
        rw [kept rests, kept rests']
        exact paired.uncrossed bid ask buys sells rests rests' market buying selling

end Quote

/-! ## Runs -/

/-- Placements are answered with new ids, what is dropped is gone or cancelled, and a market is quoted
    on one of the two ticks. -/
structure Careful (w : World) (event : DeskEvent) : Prop where
  answered : Answered w event
  dead : DropsDead w event
  tick : ∀ out category ticker action fvShift allow,
    event = .quote out category ticker action fvShift allow →
      LegalTick (w.trader.state.tickerD ticker category).tick

/-- What a run keeps. -/
structure Kept (s : World × Dict String ℚ) : Prop where
  tracked : Tracked s.1
  known : OrphanFree s.1
  params : SoundParams s.1.trader.cfg.mm
  paired : Paired s

theorem kept_step {s : World × Dict String ℚ} {event : DeskEvent} (kept : Kept s)
    (careful : Careful s.1 event) : Kept (withGhost World.step placedAt s event) := by
  obtain ⟨w, prices⟩ := s
  obtain ⟨answered, dead, tick⟩ := careful
  refine ⟨tracked_step kept.tracked answered,
    (orphanFree_step_iff kept.tracked answered kept.known).mpr dead, ?_, ?_⟩
  · rw [withGhost, (params_step w event).1]
    exact kept.params
  · cases event with
    | data ticker category book tick =>
      exact kept.paired.of_fewer (fun id order rests => ⟨order, rests, rfl, rfl⟩) rfl
    | deliver out raw =>
      exact kept.paired.of_fewer (fun id order rests => ⟨order, rests, rfl, rfl⟩) rfl
    | spotCancel out =>
      obtain ⟨_, rests⟩ := exchange_spotCancel w out
      exact kept.paired.of_fewer
        (fun id order now => ⟨order, ((rests id order).mp now).1, rfl, rfl⟩) placedAt_spotCancel
    | execute nf =>
      refine kept.paired.of_fewer (fun id order rests => ?_) rfl
      obtain ⟨before, rested, market, side, _⟩ := lookup_execute rests
      exact ⟨before, rested, market, side⟩
    | quote out category ticker action fvShift allow =>
      cases planned : planOf out category ticker action fvShift w.trader with
      | none =>
        obtain ⟨exchange, _⟩ := unplanned_quote allow planned
        refine kept.paired.of_fewer (fun id order rests => ⟨order, ?_, rfl, rfl⟩)
          (placedAt_of_none planned)
        rw [Rests, ← exchange]
        exact rests
      | some plan =>
        exact paired_quote kept.tracked kept.known answered planned dead
          (cents_uncrossed (tick _ _ _ _ _ _ rfl) kept.params planned) kept.paired

/-- In every run from a desk without orders: of each market at most one bid and one ask rest at any
    time, and the bid was placed below the ask. -/
theorem quotes_never_cross {w : World} (params : SoundParams w.trader.cfg.mm)
    (idle : ∀ ticker, w.trader.state.recordedIds ticker = []) (empty : w.exchange.resting = ∅)
    {events : List DeskEvent} (careful : Along World.step Careful w events) :
    Throughout (withGhost World.step placedAt) Paired (w, ∅) events := by
  have nothing (id : String) (order : RestingOrder) : ¬ Rests w id order := by
    rw [Rests, empty, Finmap.lookup_empty]
    exact nofun
  have starts : Kept (w, ∅) :=
    { tracked :=
        { resting := fun id order rests => absurd rests (nothing id order)
          recorded := fun ticker id recorded => by
            rw [idle] at recorded
            cases recorded
          owner := fun _ id order _ rests => absurd rests (nothing id order) }
      known := fun id order rests => absurd rests (nothing id order)
      params
      paired := ⟨fun id _ order _ rests => absurd rests (nothing id order),
        fun id _ order _ rests => absurd rests (nothing id order)⟩ }
  exact (throughout_of_along (fun _ _ => kept_step) starts (along_withGhost _ careful)).imp
    fun _ kept => kept.paired

/-- The book falls by ten cents, and the market is quoted again: what rests is the second plan's. -/
def requotes : List DeskEvent :=
  quotes ++ [.data "KXBTCD-1" "KXBTCD"
      ({ yes := ∅, no := ∅ : Book }.loadSnapshot (snapshot (3 / 10) (3 / 5))) (1 / 100),
    quoted "KXBTCD-1" (answering "b2" "a2" 20)]

theorem quotes_never_cross_requoted :
    (run World.step desk requotes).exchange.resting.keys = {"b2", "a2"} ∧
      Throughout (withGhost World.step placedAt) Paired (desk, ∅) requotes := by
  have params : SoundParams desk.trader.cfg.mm := by constructor <;> decide +kernel
  refine ⟨by decide +kernel, quotes_never_cross params (fun _ => rfl) rfl
    ⟨⟨trivial, trivial, nofun⟩, ⟨?_, by decide +kernel, ?_⟩, ⟨trivial, trivial, nofun⟩,
      ⟨?_, by decide +kernel, ?_⟩, trivial⟩⟩
  · exact issues_answering (by decide) (by decide) (by decide)
  · rintro _ _ _ _ _ _ ⟨⟩
    exact Or.inl (by decide +kernel)
  · exact issues_answering (by decide) (by decide +kernel) (by decide +kernel)
  · rintro _ _ _ _ _ _ ⟨⟩
    exact Or.inl (by decide +kernel)

end KalshiMm.Verified.SelfCross
