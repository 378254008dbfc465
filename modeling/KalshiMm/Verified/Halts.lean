import KalshiMm.Model.LiveDesk
import KalshiMm.Verified.DeskSteps
import KalshiMm.Verified.QuoteSafety

/-!
# What a halt leaves on the exchange

A halt asks for the orders that rest, a thousand at most, and cancels them one by one; a cancel that
fails is not tried again, and nothing is sent afterwards.  So nothing rests from a halt on exactly if
every order that rests at the halt is listed, and its cancel goes through.
-/

namespace KalshiMm.Verified.Halts

open KalshiMm.Lib KalshiMm.Model QuoteSafety

/-! ## Pulling all orders -/

/-- The orders that the client is told of. -/
def listedIds (api : StartupApi) : List String :=
  match api.getOrders (some "resting") 1000 with
  | .error _ => []
  | .ok resp => (resp.getRows "orders").filterMap fun order => order.getStr "order_id"

/-- Every order that rests is listed, and its cancel goes through. -/
def Pulls (api : StartupApi) (ex : Exchange) : Prop :=
  ∀ id ∈ ex.resting.keys, id ∈ listedIds api ∧ cancelled api.toOrderApi id = true

instance (api : StartupApi) (ex : Exchange) : Decidable (Pulls api ex) :=
  inferInstanceAs (Decidable (∀ id ∈ ex.resting.keys, _))

theorem calls_cancelAll (api : StartupApi) : (cancelAllOrders api).2 =
    (listedIds api).map fun id => .cancel id (api.cancelOrder id) := by
  unfold cancelAllOrders listedIds
  cases api.getOrders (some "resting") 1000 with
  | error body => rfl
  | ok resp => rfl

theorem lookup_cancelAll (api : StartupApi) (ex : Exchange) (id : String) :
    ((cancelAllOrders api).2.foldl Exchange.accept ex).resting.lookup id =
      if id ∈ listedIds api ∧ cancelled api.toOrderApi id = true then none
      else ex.resting.lookup id := by
  rw [calls_cancelAll]
  exact (accept_cancels ex api.toOrderApi _).2 id

theorem resting_eq_empty {ex : Exchange} : ex.resting = ∅ ↔ ∀ id, ex.resting.lookup id = none :=
  ⟨fun empty id => by rw [empty, Finmap.lookup_empty], fun absent =>
    Finmap.ext_lookup fun id => by rw [absent, Finmap.lookup_empty]⟩

/-- Nothing rests after the cancels exactly if they reach every order. -/
theorem cleared_cancelAll (api : StartupApi) (ex : Exchange) :
    ((cancelAllOrders api).2.foldl Exchange.accept ex).resting = ∅ ↔ Pulls api ex := by
  rw [resting_eq_empty]
  simp only [lookup_cancelAll]
  refine forall_congr' fun id => ?_
  rw [Finmap.mem_keys, ← Finmap.lookup_isSome]
  split_ifs with reached
  · exact iff_of_true rfl fun _ => reached
  · rw [← Option.not_isSome_iff_eq_none]
    exact ⟨fun absent rests => absurd rests absent, fun pulls rests => reached (pulls rests)⟩

/-! ## How a move leaves the loop -/

def SameRunning (tr tr' : Trader) : Prop := tr'.running = tr.running

theorem SameRunning.of_timers {tr tr' : Trader} (timers : Timers tr tr') : SameRunning tr tr' := by
  obtain ⟨_, _, _, rfl⟩ := timers
  rfl

theorem sameRunning_updateSpotGate (out : Outside) (tr : Trader) :
    SameRunning tr (tr.updateSpotGate out).trader := by
  obtain ⟨_, _, only⟩ := updateSpotGate_only out tr
  rw [only]
  rfl

theorem sameRunning_onSpotTick (env : Env) (out : Outside) (price : ℚ) (tr : Trader) :
    SameRunning tr (tr.onSpotTick env out price).trader :=
  onSpotTick_related (R := SameRunning) (fun _ _ _ first second => second.trans first)
    (fun _ _ => rfl) (sameRunning_updateSpotGate out) .of_timers env price tr

theorem sameRunning_refreshMarkets (env : Env) (out : Outside) (tr : Trader) :
    SameRunning tr (tr.refreshMarkets env out) := by
  obtain ⟨same, _⟩ | ⟨_, rolled, _⟩ := refreshMarkets_cases env out tr
  · rw [same]
    rfl
  · obtain ⟨_, _, _, _, _, only⟩ := rolled.only
    rw [only]
    rfl

section Move

variable {env : Env} {tr : Trader} {m : Move}

/-- A move other than a book update leaves the loop as it is. -/
theorem sameRunning_of_none (other : bookUpdate tr m = none) : SameRunning tr (tr.move env m) := by
  unfold Trader.move
  cases m with
  | turn arrival =>
    obtain ⟨event, out⟩ := arrival
    unfold Trader.carryOut Trader.turn
    dsimp only
    split_ifs with running
    · cases event with
      | book ticker msg =>
        simp only [bookUpdate, if_pos running] at other
        cases other
      | trade ticker msg =>
        unfold Trader.handle Trader.onTrade
        dsimp only
        split <;> rfl
      | spot price => exact sameRunning_onSpotTick env out price tr
      | fill raw => exact (bookkeeping_processFill out raw tr).running
      | sync => exact (bookkeeping_syncPositions out tr).running
      | exits =>
        exact (SameRunning.of_timers (timers_checkExits out _)).trans
          (sameRunning_updateSpotGate out tr)
      | daily =>
        unfold Trader.handle Trader.maybeDailyReset
        dsimp only
        split_ifs <;> rfl
      | refresh => exact sameRunning_refreshMarkets env out tr
    · rfl
  | poll out ticker =>
    simp only [bookUpdate] at other
    unfold Trader.carryOut Trader.pollMarket
    split at other
    next failed =>
      simp only [failed]
      rfl
    · cases other

/-- A move leaves the loop as it is, or halts it, and then it pulls all orders and no more. -/
theorem runs_or_halts (env : Env) (tr : Trader) (m : Move) : SameRunning tr (tr.move env m) ∨
    Stopped (tr.move env m) ∧ ∃ reply, (tr.carryOut env m).calls = [.cancelAll reply] := by
  cases updates : bookUpdate tr m with
  | none => exact Or.inl (sameRunning_of_none updates)
  | some update =>
    obtain ⟨out, ticker, msg⟩ := update
    unfold Trader.move
    rw [(carryOut_of_update env updates).1]
    have ends := onBookUpdate_updated env out ticker msg tr
    generalize tr.onBookUpdate env out ticker msg = outcome at ends
    cases ends with
    | inactive _ _ => exact Or.inl rfl
    | stopped _ _ sensed _ =>
      obtain ⟨_, _, _, _, rfl⟩ := sensed
      exact Or.inl rfl
    | halted _ _ sensed limit _ =>
      exact Or.inr ⟨stopped_of_sensed sensed limit out, _, rfl⟩
    | quoted stage reached =>
      obtain ⟨_, only⟩ := quoteCycle_only out stage.category ticker stage.action stage.fvShift
        stage.allow stage.trader
      obtain ⟨_, _, _, _, sensed⟩ := (staged_of_quoteStage reached).sensed
      refine Or.inl ?_
      rw [only, sensed]
      rfl

/-- Once trading is stopped, a move calls for nothing or for all orders to be pulled. -/
theorem calls_of_stopped (env : Env) (m : Move) (stopped : Stopped tr) : (tr.carryOut env m).calls = [] ∨
    ∃ reply, (tr.carryOut env m).calls = [.cancelAll reply] := by
  cases m with
  | turn arrival =>
    unfold Trader.carryOut Trader.turn
    dsimp only
    rw [if_neg (Bool.not_eq_true _ ▸ stopped.1)]
    exact Or.inl rfl
  | poll out ticker =>
    unfold Trader.carryOut Trader.pollMarket
    dsimp only
    split
    · exact Or.inl rfl
    next resp replied =>
      have ends := onBookUpdate_updated env out ticker ((resp.get "orderbook").getD .null) tr
      generalize tr.onBookUpdate env out ticker ((resp.get "orderbook").getD .null) = outcome at ends
      cases ends with
      | inactive _ _ => exact Or.inl rfl
      | stopped _ _ _ _ => exact Or.inl rfl
      | halted _ _ _ _ _ => exact Or.inr ⟨_, rfl⟩
      | quoted stage reached =>
        -- a stage lies behind the limits
        have limit := stopped.2
        rw [(staged_of_quoteStage reached).limits] at limit
        cases limit

end Move

/-! ## Runs -/

/-- Once trading is halted, nothing rests. -/
def Cleared (desk : LiveDesk) : Prop :=
  desk.trader.running = false → desk.exchange.resting = ∅

/-- If the event halts trading, the orders that rest are all listed, and their cancels go through. -/
def HaltPulls (env : Env) (desk : LiveDesk) : LiveDeskEvent → Prop
  | .move m getOrders =>
    desk.trader.running = true → (desk.trader.move env m).running = false →
      Pulls { m.out.api with getOrders } desk.exchange
  | .execute _ => True

instance (env : Env) (desk : LiveDesk) : DecidablePred (HaltPulls env desk)
  | .move _ _ => inferInstanceAs (Decidable (_ → _ → _))
  | .execute _ => isTrue trivial

/-- The loop runs, or it was halted by limits that are exceeded still. -/
def Standing (desk : LiveDesk) : Prop := desk.trader.running = true ∨ Stopped desk.trader

section Steps

variable {env : Env} {desk : LiveDesk}

theorem exchange_move (m : Move)
    (getOrders : (status : Option String) → (limit : ℕ) → Except String Value) :
    (desk.step env (.move m getOrders)).exchange =
      (desk.trader.carryOut env m).calls.foldl (LiveDesk.carry { m.out.api with getOrders })
        desk.exchange := rfl

theorem standing_step (event : LiveDeskEvent) (standing : Standing desk) :
    Standing (desk.step env event) := by
  cases event with
  | execute nf => exact standing
  | move m getOrders =>
    obtain running | stopped := standing
    · obtain same | ⟨stopped, _⟩ := runs_or_halts env desk.trader m
      · exact Or.inl (same.trans running)
      · exact Or.inr stopped
    · exact Or.inr (stopped_move env m stopped).1

theorem execute_of_empty {ex : Exchange} (empty : ex.resting = ∅) (nf : NormalizedFill) :
    (ex.execute nf).resting = ∅ := by
  unfold Exchange.execute
  split
  · exact empty
  · rw [empty, Finmap.lookup_empty]
    exact empty

/-- One step of a desk keeps it cleared exactly if a halt in it pulls every order. -/
theorem cleared_step (event : LiveDeskEvent) (standing : Standing desk) (cleared : Cleared desk) :
    Cleared (desk.step env event) ↔ HaltPulls env desk event := by
  cases event with
  | execute nf => exact iff_of_true (fun halted => execute_of_empty (cleared halted) nf) trivial
  | move m getOrders =>
    obtain running | stopped := standing
    · obtain same | ⟨stopped, reply, pulls⟩ := runs_or_halts env desk.trader m
      · have stays : (desk.trader.move env m).running = true := same.trans running
        refine iff_of_true (fun halted => ?_) fun _ halted => ?_
        · cases stays.symm.trans halted
        · cases stays.symm.trans halted
      · have after : (desk.step env (.move m getOrders)).exchange =
            (cancelAllOrders { m.out.api with getOrders }).2.foldl Exchange.accept
              desk.exchange := by
          rw [exchange_move, pulls]
          rfl
        have empties := cleared_cancelAll { m.out.api with getOrders } desk.exchange
        rw [← after] at empties
        exact ⟨fun clear _ _ => empties.mp (clear stopped.1),
          fun pulled _ => empties.mpr (pulled running stopped.1)⟩
    · -- a desk that is halted has nothing left to cancel
      have empty := cleared stopped.1
      refine iff_of_true (fun _ => ?_) fun running => by cases stopped.1.symm.trans running
      rw [exchange_move]
      obtain silent | ⟨reply, pulls⟩ := calls_of_stopped env m stopped
      · rw [silent]
        exact empty
      · rw [pulls]
        exact (cleared_cancelAll _ _).mpr fun id rests => by
          rw [empty] at rests
          cases rests

end Steps

/-- In every run of a desk whose loop runs at first, over every interleaving with executions: nothing
    rests from the halt on exactly if, at the halt, every order that rests is listed and its cancel
    goes through. -/
theorem halts_clear_iff (env : Env) {desk : LiveDesk} (running : desk.trader.running = true)
    (events : List LiveDeskEvent) :
    Throughout (LiveDesk.step env) Cleared desk events ↔
      Along (LiveDesk.step env) (HaltPulls env) desk events := by
  have starts : Cleared desk := fun halted => by cases running.symm.trans halted
  exact throughout_iff_along (Q := fun _ _ => True)
    (fun _ event standing _ => standing_step event standing)
    (fun _ event standing _ cleared => cleared_step event standing cleared) (Or.inl running) starts
    (along_true _ _)

/-- An account that has lost what it may lose in a day, with a bid that rests. -/
def losingDesk : LiveDesk :=
  let trader := Trader.startup (marketEnv none) (marketCfg none) (listing ["KXBTCD-1"] 0)
  { trader := { trader with state := { trader.state with dailyPnl := -100 } }
    exchange := Exchange.rest {} "b1" { ticker := "KXBTCD-1", side := .buy, remaining := 2 } }

/-- One contract of the bid fills, and the next book update halts. -/
def lastUpdate : List LiveDeskEvent :=
  [.execute (makerFill "f1" "b1" "KXBTCD-1" true 1 (42 / 100)),
    .move (.turn ⟨.book "KXBTCD-1" (snapshot (2 / 5) (1 / 2)), answering "" "" 10⟩) fun _ _ =>
      .ok (.object [("orders", .array [.object [("order_id", .string "b1")]])])]

theorem halts_clear_iff_losing :
    (run (LiveDesk.step (marketEnv none)) losingDesk (lastUpdate.take 1)).exchange.resting.keys =
        {"b1"} ∧
      (run (LiveDesk.step (marketEnv none)) losingDesk lastUpdate).trader.running = false ∧
      Throughout (LiveDesk.step (marketEnv none)) Cleared losingDesk lastUpdate :=
  ⟨by decide +kernel, by decide +kernel,
    (halts_clear_iff _ (by decide +kernel) _).mpr (by decide +kernel)⟩

end KalshiMm.Verified.Halts
