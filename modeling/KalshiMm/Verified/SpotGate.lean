import KalshiMm.Verified.Handlers

/-!
# Resting quotes behind the spot gate

The gate is latched by `update_spot_gate`, which cancels on the latch's rising edge only, while a
book update evaluates it afresh.  As long as no book update of a spot-bound market finds the
fresh gate open under a closed latch, no spot-bound market records an id under a closed latch.
-/

namespace KalshiMm.Verified.SpotGate

open KalshiMm.Lib KalshiMm.Model

/-- No market of a spot-bound category records a bid or an ask. -/
def SpotQuotesGone (tr : Trader) : Prop :=
  ∀ ticker ts, tr.state.tickers.lookup ticker = some ts → ts.category ∈ tr.spotBound →
    ts.bidOrderId = none ∧ ts.askOrderId = none

/-- Active markets carry the category the universe lists them under. -/
def CategoriesRecorded (tr : Trader) : Prop :=
  ∀ ticker ∈ tr.activeTickers.keys, ∀ ts ∈ tr.state.tickers.lookup ticker,
    tr.activeTickers.lookup ticker = some ts.category

instance : DecidablePred CategoriesRecorded := fun tr =>
  inferInstanceAs (Decidable (∀ ticker ∈ tr.activeTickers.keys, ∀ ts ∈ tr.state.tickers.lookup ticker,
    tr.activeTickers.lookup ticker = some ts.category))

/-- Under a closed latch no spot-bound market records an id. -/
def Latched (tr : Trader) : Prop := tr.spotGateOn = true → SpotQuotesGone tr

/-- The trader as `update_spot_gate` returns within a turn of the loop, if the turn calls it. -/
def gateReturn (env : Env) (tr : Trader) (arrival : Arrival) : Option Trader :=
  if tr.running then
    match arrival.event with
    | .spot price =>
      let (spot, accepted) := tr.spot.onTick env.exp price arrival.out.mono
      if accepted then some (({ tr with spot } : Trader).updateSpotGate arrival.out).trader else none
    | .exits => some (tr.updateSpotGate arrival.out).trader
    | _ => none
  else none

/-- Whenever the gate is evaluated to closed, the spot-bound quotes are gone. -/
def GateShuts (env : Env) (tr : Trader) (arrival : Arrival) : Prop :=
  ∀ returned, gateReturn env tr arrival = some returned → returned.spotGateOn = true →
    SpotQuotesGone returned

/-- A book update that gets as far as the gate of a spot-bound market under a closed latch finds
    the fresh gate closed, too. -/
def FreshAgrees (tr : Trader) (arrival : Arrival) : Prop :=
  match arrival.event with
  | .book ticker msg => tr.running = true → tr.spotGateOn = true →
      ∀ category ∈ tr.activeTickers.lookup ticker, category ∈ tr.spotBound →
        PassesChecks arrival.out ticker category msg tr → tr.spotGated arrival.out.mono = true
  | _ => True

instance (tr : Trader) (arrival : Arrival) : Decidable (FreshAgrees tr arrival) := by
  unfold FreshAgrees
  split <;> infer_instance

theorem orderIds_eq_nil {ts : TickerState} :
    ts.orderIds = [] ↔ ts.bidOrderId = none ∧ ts.askOrderId = none := by
  cases bid : ts.bidOrderId <;> cases ask : ts.askOrderId <;> simp [TickerState.orderIds, bid, ask]

/-! ## Quiet changes keep the quotes gone -/

theorem SpotQuotesGone.of_quiet {tr tr' : Trader} (gone : SpotQuotesGone tr)
    (quiet : Quiet tr.state tr'.state) (bound : tr'.spotBound = tr.spotBound) :
    SpotQuotesGone tr' := by
  intro ticker ts' found spotBound
  have nothing : tr.state.recordedIds ticker = [] := by
    cases known : tr.state.tickers.lookup ticker with
    | none => rw [TraderState.recordedIds, known]; rfl
    | some ts =>
      obtain ⟨kept, found', same⟩ := quiet.categories ticker ts known
      rw [found] at found'
      cases found'
      have empty := orderIds_eq_nil.mpr (gone ticker ts known (same ▸ bound ▸ spotBound))
      rw [TraderState.recordedIds, known, Option.map_some, Option.getD_some, empty]
  have nothing' := quiet.ids_nil nothing
  rw [TraderState.recordedIds, found] at nothing'
  exact orderIds_eq_nil.mp nothing'

theorem Latched.of_quiet {tr tr' : Trader} (latched : Latched tr)
    (quiet : Quiet tr.state tr'.state) (bound : tr'.spotBound = tr.spotBound)
    (gate : tr'.spotGateOn = tr.spotGateOn) : Latched tr' :=
  fun closed => (latched (gate ▸ closed)).of_quiet quiet bound

theorem Latched.of_bookkeeping {tr tr' : Trader} (latched : Latched tr)
    (books : Bookkeeping tr tr') : Latched tr' := by
  obtain ⟨⟨_, _, rfl⟩, quiet⟩ := books
  exact latched.of_quiet quiet rfl rfl

theorem Latched.of_timers {tr tr' : Trader} (latched : Latched tr) (timers : Timers tr tr') :
    Latched tr' := by
  obtain ⟨_, _, _, rfl⟩ := timers
  exact latched.of_quiet (Quiet.refl _) rfl rfl

/-! ## The gate -/

theorem gone_cancelSpotBoundQuotes (out : Outside) (tr : Trader) :
    SpotQuotesGone (tr.cancelSpotBoundQuotes out).trader := by
  intro ticker ts found bound
  rw [lookup_cancelSpotBoundQuotes] at found
  obtain ⟨before, known, rfl⟩ := Option.map_eq_some_iff.mp found
  by_cases spotBound : before.category ∈ tr.spotBound
  · rw [if_pos spotBound]
    exact ⟨rfl, rfl⟩
  · rw [if_neg spotBound] at bound
    exact absurd bound spotBound

/-- Evaluating the gate re-establishes what the latch promises. -/
theorem Latched.updateSpotGate {tr : Trader} (latched : Latched tr) (out : Outside) :
    Latched (tr.updateSpotGate out).trader := by
  obtain ⟨_, same⟩ | ⟨_, _, rises⟩ | ⟨kept, stays⟩ := updateSpotGate_cases out tr
  · rwa [same]
  · rw [rises]
    exact fun _ => gone_cancelSpotBoundQuotes out tr
  -- no rising edge: a gate that is closed now was latched closed before
  · rw [stays]
    exact fun closed => latched (kept closed)

/-! ## Quotes -/

theorem category_tickerD {tr : Trader} (recorded : CategoriesRecorded tr) {ticker category : String}
    (active : tr.activeTickers.lookup ticker = some category) :
    (tr.state.tickerD ticker category).category = category := by
  unfold TraderState.tickerD
  cases known : tr.state.tickers.lookup ticker with
  | none => rfl
  | some ts =>
    have listed := recorded ticker (Finmap.mem_keys.mpr (Finmap.mem_iff.mpr ⟨category, active⟩)) ts known
    rw [active] at listed
    exact (Option.some.inj listed).symm

theorem SpotQuotesGone.quoteCycle {tr : Trader} (gone : SpotQuotesGone tr) (out : Outside)
    {category ticker : String} (action : Action) (fvShift : ℚ) (allow : Bool × Bool)
    (carried : (tr.state.tickerD ticker category).category = category)
    (free : category ∉ tr.spotBound) :
    SpotQuotesGone (tr.quoteCycle out category ticker action fvShift allow).trader := by
  cases planned : planOf out category ticker action fvShift tr with
  | none =>
    obtain ⟨⟨_, _, only⟩, quiet⟩ := (refetch_of_unplanned allow planned).books
    exact gone.of_quiet quiet (by rw [only])
  | some plan =>
    obtain ⟨_, state, ts, executed, tickers, sameCategory, _⟩ :=
      quoteCycle_of_some allow planned
    rw [executed]
    intro other found known bound
    rw [tickers, Dict.lookup_insert_eq_ite] at known
    -- the only market rewritten is not spot-bound
    split_ifs at known with same
    · cases known
      rw [sameCategory, carried] at bound
      exact absurd bound free
    · exact gone other found known bound

theorem Latched.bookOutcome {tr : Trader} (latched : Latched tr) (recorded : CategoriesRecorded tr)
    {out : Outside} {ticker : String} {msg : Value} {outcome : Outcome}
    (agrees : tr.spotGateOn = true → ∀ category ∈ tr.activeTickers.lookup ticker,
      category ∈ tr.spotBound → PassesChecks out ticker category msg tr →
        tr.spotGated out.mono = true)
    (ends : BookOutcome out ticker msg tr outcome) : Latched outcome.trader := by
  cases ends with
  | kept books => exact latched.of_bookkeeping books
  | halted books =>
    have kept := latched.of_bookkeeping books
    exact kept
  | @quoted tr' category action fvShift allow active books passes sameCategory ungated =>
    intro closed
    obtain ⟨_, only⟩ := quoteCycle_only out category ticker action fvShift allow tr'
    have gone := latched.of_bookkeeping books (by rw [only] at closed; exact closed)
    rw [only, show tr'.spotGateOn = tr.spotGateOn from books.spotGateOn] at closed
    obtain ⟨⟨_, _, rfl⟩, _⟩ := books
    refine gone.quoteCycle out action fvShift allow
      (sameCategory.trans (category_tickerD recorded active)) fun bound => ?_
    -- the fresh gate was open, so the latch cannot have been closed
    have shut := agrees closed category active bound passes
    rw [ungated bound] at shut
    cases shut

/-! ## Runs -/

theorem Latched.refresh {tr : Trader} (latched : Latched tr) (env : Env) (out : Outside) :
    Latched (tr.refreshMarkets env out) := by
  obtain ⟨same, _⟩ | ⟨_, rolled, _⟩ := refreshMarkets_cases env out tr
  · rwa [same]
  · obtain ⟨⟨_, _, _, _, _, only⟩, quiet, _⟩ := rolled
    exact latched.of_quiet quiet (by rw [only]) (by rw [only])

theorem Latched.step {env : Env} {tr : Trader} {arrival : Arrival} (latched : Latched tr)
    (recorded : CategoriesRecorded tr) (agrees : FreshAgrees tr arrival) :
    Latched (tr.step env arrival) := by
  unfold Trader.step Trader.turn
  split_ifs with running
  · unfold Trader.handle
    split
    next ticker msg book =>
      simp only [FreshAgrees, book] at agrees
      exact latched.bookOutcome recorded (agrees running) (onBookUpdate_outcome env _ ticker msg tr)
    · exact latched.of_bookkeeping (bookkeeping_onTrade _ _ _ tr)
    next price _ =>
      exact onSpotTick_related (R := fun tr tr' => Latched tr → Latched tr')
        (fun _ _ _ first second latched => second (first latched)) (fun _ _ latched => latched)
        (fun _ latched => latched.updateSpotGate _) (fun timers latched => latched.of_timers timers)
        env price tr latched
    · exact latched.of_bookkeeping (bookkeeping_processFill _ _ tr)
    · exact latched.of_bookkeeping (bookkeeping_syncPositions _ tr)
    · exact (latched.updateSpotGate _).of_timers (timers_checkExits _ _)
    · exact latched.of_bookkeeping (bookkeeping_maybeDailyReset env _ tr)
    · exact latched.refresh env _
  · exact latched

/-- What the latch promises, every evaluation of the gate delivers. -/
theorem gateShuts_of_latched {env : Env} {tr : Trader} (latched : Latched tr) (arrival : Arrival) :
    GateShuts env tr arrival := by
  intro returned returns closed
  unfold gateReturn at returns
  split_ifs at returns
  split at returns
  next price _ =>
    dsimp only at returns
    split_ifs at returns
    cases returns
    have ticked : Latched { tr with spot := (tr.spot.onTick env.exp price arrival.out.mono).1 } :=
      latched
    exact ticked.updateSpotGate arrival.out closed
  · cases returns
    exact latched.updateSpotGate arrival.out closed
  · cases returns

/-- In every run from startup in which the fresh gate agrees with a closed latch at the book
    updates of spot-bound markets, every evaluation that closes the gate finds their quotes gone. -/
theorem gateShuts_along {env : Env} {cfg : Config} {out : Outside} {arrivals : List Arrival}
    (recorded : Throughout (Trader.step env) CategoriesRecorded (Trader.startup env cfg out) arrivals)
    (agrees : Along (Trader.step env) FreshAgrees (Trader.startup env cfg out) arrivals) :
    Along (Trader.step env) (GateShuts env) (Trader.startup env cfg out) arrivals := by
  have starts : Latched (Trader.startup env cfg out) := fun closed => by
    rw [spotGateOn_startup] at closed
    cases closed
  exact along_of_along (fun _ _ latched condition => latched.step condition.1 condition.2)
    (fun _ arrival latched _ => gateShuts_of_latched latched arrival) starts
    (recorded.along.and agrees)

/-! ## Quotes slipped under a closed latch -/

def spotEnv : Env := marketEnv (some narrow)

def accepting (mono : ℚ) : Outside := listing ["KXBTCD-1"] mono

def spotTick (price mono : ℚ) : Arrival := ⟨.spot price, accepting mono⟩

def bookUpdate (mono : ℚ) : Arrival :=
  ⟨.book "KXBTCD-1" (snapshot (2 / 5) (1 / 2)), accepting mono⟩

def spotStart : Trader := Trader.startup spotEnv (marketCfg (some "BTC-USD")) (accepting 0)

theorem gateShuts_along_jump :
    Along (Trader.step spotEnv) (GateShuts spotEnv) spotStart
      [spotTick 100 0, spotTick 100 61, bookUpdate 62, spotTick 101 63] :=
  gateShuts_along (by decide +kernel) (by decide +kernel)

/-- Closed at 60 s, the gate reads open at 61 s, where the market quotes, and closed again at
    62 s: the latch never opened, so nothing pulls the quotes. -/
theorem latched_gate_leaves_quotes :
    let tr := run (Trader.step spotEnv) spotStart
      [spotTick 100 0, spotTick (1002 / 10) 1, spotTick 100 2, spotTick (1002 / 10) 60,
        bookUpdate 61]
    ¬ GateShuts spotEnv tr ⟨.exits, accepting 62⟩ ∧
      (tr.updateSpotGate (accepting 62)).trader.spotGateOn = true ∧
      (tr.updateSpotGate (accepting 62)).trader.state.recordedIds "KXBTCD-1" = ["b1", "a1"] := by
  intro tr
  have running : tr.running = true := by decide +kernel
  have closed : (tr.updateSpotGate (accepting 62)).trader.spotGateOn = true := by decide +kernel
  have resting : (tr.updateSpotGate (accepting 62)).trader.state.recordedIds "KXBTCD-1" =
      ["b1", "a1"] := by decide +kernel
  have bound : ((tr.updateSpotGate (accepting 62)).trader.state.tickers.lookup "KXBTCD-1").any
      (fun ts => ts.category ∈ (tr.updateSpotGate (accepting 62)).trader.spotBound &&
        ts.bidOrderId = some "b1") = true := by decide +kernel
  refine ⟨fun shuts => ?_, closed, resting⟩
  have returned : gateReturn spotEnv tr ⟨.exits, accepting 62⟩ =
      some (tr.updateSpotGate (accepting 62)).trader := if_pos running
  obtain ⟨ts, known, quoted⟩ := (Option.any_eq_true _ _).mp bound
  simp only [Bool.and_eq_true, decide_eq_true_eq] at quoted
  have gone := shuts _ returned closed "KXBTCD-1" ts known quoted.1
  rw [gone.1] at quoted
  cases quoted.2

end KalshiMm.Verified.SpotGate
