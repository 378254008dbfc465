import KalshiMm.Verified.Handlers

/-!
# Order slots of expired markets

The order budget counts the ids recorded on every market the state has ever held, while the
universe of active markets rolls.  Every handler but the refresh keeps the ids inside the
universe; a refresh does exactly when the markets it prunes record none.
-/

namespace KalshiMm.Verified.OrderSlots

open KalshiMm.Lib KalshiMm.Model

/-- `open_order_count` counts only order ids of active tickers. -/
def CountsActive (tr : Trader) : Prop :=
  tr.state.openOrderCount =
    Dict.sumOf (fun ticker ts => if ticker ∈ tr.activeTickers then ts.orderCount else 0)
      tr.state.tickers

/-- No market outside the universe records an id. -/
def IdsActive (tr : Trader) : Prop :=
  ∀ ticker, ticker ∉ tr.activeTickers → tr.state.recordedIds ticker = []

theorem orderIds_of_lookup {s : TraderState} {ticker : String} {ts : TickerState}
    (known : s.tickers.lookup ticker = some ts) : s.recordedIds ticker = ts.orderIds := by
  rw [TraderState.recordedIds, known]
  rfl

theorem countsActive_iff {tr : Trader} : CountsActive tr ↔ IdsActive tr := by
  constructor
  · intro counts ticker inactive
    cases known : tr.state.tickers.lookup ticker with
    | none => rw [TraderState.recordedIds, known]; rfl
    | some ts =>
      -- the totals agree, so they agree market by market
      have share := Dict.eq_of_sumOf_eq (fun other ts' _ => by split_ifs <;> simp) counts.symm known
      rw [if_neg inactive] at share
      rw [orderIds_of_lookup known]
      exact List.length_eq_zero_iff.mp share.symm
  · intro idle
    refine Dict.sumOf_congr fun ticker ts known => ?_
    split_ifs with active
    · rfl
    · rw [TickerState.orderCount, ← orderIds_of_lookup known, idle ticker active, List.length_nil]

/-! ## All handlers but one stay within the universe -/

/-- The universe is the same, and outside it nothing is recorded anew. -/
structure Within (tr tr' : Trader) : Prop where
  active : tr'.activeTickers = tr.activeTickers
  ids : ∀ ticker, ticker ∉ tr.activeTickers →
    (tr'.state.recordedIds ticker).Sublist (tr.state.recordedIds ticker)

namespace Within

theorem refl (tr : Trader) : Within tr tr := ⟨rfl, fun _ _ => List.Sublist.refl _⟩

theorem trans {a b c : Trader} (first : Within a b) (second : Within b c) : Within a c where
  active := second.active.trans first.active
  ids ticker inactive :=
    (second.ids ticker (first.active ▸ inactive)).trans (first.ids ticker inactive)

theorem idsActive {tr tr' : Trader} (within : Within tr tr') (idle : IdsActive tr) :
    IdsActive tr' := by
  intro ticker inactive
  rw [within.active] at inactive
  exact List.sublist_nil.mp (idle ticker inactive ▸ within.ids ticker inactive)

end Within

theorem within_of_bookkeeping {tr tr' : Trader} (books : Bookkeeping tr tr') : Within tr tr' := by
  obtain ⟨⟨_, _, rfl⟩, quiet⟩ := books
  exact ⟨rfl, fun ticker _ => quiet.ids ticker⟩

theorem within_of_timers {tr tr' : Trader} (timers : Timers tr tr') : Within tr tr' := by
  obtain ⟨_, _, _, rfl⟩ := timers
  exact ⟨rfl, fun _ _ => List.Sublist.refl _⟩

theorem within_updateSpotGate (out : Outside) (tr : Trader) :
    Within tr (tr.updateSpotGate out).trader := by
  obtain ⟨_, same⟩ | ⟨_, _, rises⟩ | ⟨_, latched⟩ := updateSpotGate_cases out tr
  · rw [same]
    exact Within.refl tr
  · rw [rises]
    have cancelled := within_of_bookkeeping (bookkeeping_cancelSpotBoundQuotes out tr)
    exact ⟨cancelled.active, cancelled.ids⟩
  · rw [latched]
    exact ⟨rfl, fun _ _ => List.Sublist.refl _⟩

theorem within_onSpotTick (env : Env) (out : Outside) (price : ℚ) (tr : Trader) :
    Within tr (tr.onSpotTick env out price).trader :=
  onSpotTick_related (R := Within) (fun _ _ _ => Within.trans)
    (fun _ _ => ⟨rfl, fun _ _ => List.Sublist.refl _⟩) (within_updateSpotGate out)
    within_of_timers env price tr

theorem within_onExitTimer (out : Outside) (tr : Trader) : Within tr (tr.onExitTimer out).trader :=
  (within_updateSpotGate out tr).trans (within_of_timers (timers_checkExits out _))

theorem within_quoteCycle (out : Outside) (category ticker : String) (action : Action)
    (fvShift : ℚ) (allow : Bool × Bool) {tr : Trader} (active : ticker ∈ tr.activeTickers) :
    Within tr (tr.quoteCycle out category ticker action fvShift allow).trader := by
  cases planned : planOf out category ticker action fvShift tr with
  | none => exact within_of_bookkeeping (refetch_of_unplanned allow planned).books
  | some plan =>
    obtain ⟨_, state, ts, executed, tickers, _⟩ := quoteCycle_of_some allow planned
    rw [executed]
    refine ⟨rfl, fun other inactive => ?_⟩
    -- a quote records ids on its own market, which is active
    have elsewhere : other ≠ ticker := fun same => inactive (same ▸ active)
    unfold TraderState.recordedIds
    rw [tickers, Finmap.lookup_insert_of_ne _ elsewhere]

theorem within_of_bookOutcome {out : Outside} {ticker : String} {msg : Value} {tr : Trader}
    {outcome : Outcome} (ends : BookOutcome out ticker msg tr outcome) : Within tr outcome.trader := by
  cases ends with
  | kept books => exact within_of_bookkeeping books
  | halted books =>
    have within := within_of_bookkeeping books
    exact ⟨within.active, within.ids⟩
  | quoted action fvShift allow active books _ _ _ =>
    have within := within_of_bookkeeping books
    refine within.trans (within_quoteCycle out _ ticker action fvShift allow ?_)
    rw [within.active]
    exact Finmap.mem_iff.mpr ⟨_, active⟩

/-! ## The refresh -/

/-- The markets a refresh is about to prune record no order id. -/
def PrunesIdle (env : Env) (tr : Trader) (arrival : Arrival) : Prop :=
  tr.running = true → arrival.event = .refresh →
    Trader.discoverUniverse env arrival.out ≠ ∅ → ∀ ticker ∈ tr.activeTickers,
      tr.prunable (Trader.discoverUniverse env arrival.out) ticker = true →
        tr.state.recordedIds ticker = []

theorem notMem_rolledUniverse {tr : Trader} {discovered : Dict String String} {ticker : String} :
    ticker ∉ tr.rolledUniverse discovered ↔ ticker ∉ discovered ∧
      (ticker ∉ tr.activeTickers ∨ tr.prunable discovered ticker = true) := by
  unfold Trader.rolledUniverse
  rw [Finmap.mem_union, ← Finmap.lookup_isSome, Dict.lookup_retain]
  by_cases pruned : tr.prunable discovered ticker = true
  · simp [pruned]
  · simp [pruned, Finmap.lookup_isSome, and_comm]

theorem not_listed_of_prunable {tr : Trader} {discovered : Dict String String} {ticker : String}
    (pruned : tr.prunable discovered ticker = true) : ticker ∉ discovered := by
  simp only [Trader.prunable, Bool.and_eq_true, decide_eq_true_eq] at pruned
  exact pruned.1

/-- A refresh keeps the ids inside the universe exactly when what it prunes records none. -/
theorem idsActive_refresh_iff {env : Env} {out : Outside} {tr : Trader} (idle : IdsActive tr) :
    IdsActive (tr.refreshMarkets env out) ↔
      (Trader.discoverUniverse env out ≠ ∅ → ∀ ticker ∈ tr.activeTickers,
        tr.prunable (Trader.discoverUniverse env out) ticker = true →
          tr.state.recordedIds ticker = []) := by
  obtain ⟨same, nothing⟩ | ⟨listed, rolled, rolls⟩ := refreshMarkets_cases env out tr
  · rw [same]
    refine iff_of_true idle fun listed ticker active pruned => ?_
    -- nothing listed, or nothing to prune: the refresh left the trader alone
    have kept := nothing.resolve_left listed ticker (Finmap.mem_keys.mpr active)
    rw [pruned] at kept
    cases kept
  · constructor
    · intro after _ ticker active pruned
      rw [← rolled.ids ticker]
      refine after ticker ?_
      rw [rolls]
      exact notMem_rolledUniverse.mpr ⟨not_listed_of_prunable pruned, Or.inr pruned⟩
    · intro pruned ticker inactive
      rw [rolls] at inactive
      rw [rolled.ids ticker]
      obtain ⟨_, outside | gone⟩ := notMem_rolledUniverse.mp inactive
      · exact idle ticker outside
      · by_cases active : ticker ∈ tr.activeTickers
        · exact pruned listed ticker active gone
        · exact idle ticker active

/-! ## Runs -/

theorem within_step {env : Env} {tr : Trader} {arrival : Arrival}
    (other : arrival.event ≠ .refresh) : Within tr (tr.step env arrival) := by
  unfold Trader.step Trader.turn
  split_ifs
  · unfold Trader.handle
    split
    · exact within_of_bookOutcome (onBookUpdate_outcome env _ _ _ tr)
    · exact within_of_bookkeeping (bookkeeping_onTrade _ _ _ tr)
    · exact within_onSpotTick env _ _ tr
    · exact within_of_bookkeeping (bookkeeping_processFill _ _ tr)
    · exact within_of_bookkeeping (bookkeeping_syncPositions _ tr)
    · exact within_onExitTimer _ tr
    · exact within_of_bookkeeping (bookkeeping_maybeDailyReset env _ tr)
    next refresh => exact absurd refresh other
  · exact Within.refl tr

/-- One turn of the loop keeps the count to the universe exactly when what it prunes is idle. -/
theorem countsActive_step_iff {env : Env} {tr : Trader} {arrival : Arrival}
    (counts : CountsActive tr) :
    CountsActive (tr.step env arrival) ↔ PrunesIdle env tr arrival := by
  rw [countsActive_iff] at counts ⊢
  by_cases refresh : arrival.event = .refresh
  · unfold Trader.step Trader.turn PrunesIdle
    split_ifs with running
    · rw [Trader.handle, refresh]
      simp only [running, forall_const]
      exact idsActive_refresh_iff counts
    · exact iff_of_true counts fun alive => absurd alive running
  · exact iff_of_true ((within_step refresh).idsActive counts)
      fun _ refreshes => absurd refreshes refresh

/-- In every run from startup, the order count is confined to the universe in every state exactly
    when every refresh prunes idle markets only. -/
theorem countsActive_throughout_iff (env : Env) (cfg : Config) (out : Outside)
    (arrivals : List Arrival) :
    Throughout (Trader.step env) CountsActive (Trader.startup env cfg out) arrivals ↔
      Along (Trader.step env) (PrunesIdle env) (Trader.startup env cfg out) arrivals := by
  have starts : CountsActive (Trader.startup env cfg out) :=
    countsActive_iff.mpr fun ticker _ => recordedIds_startup env cfg out ticker
  exact throughout_iff_along (J := fun _ => True) (Q := fun _ _ => True) (fun _ _ _ _ => trivial)
    (fun _ _ _ _ counts => countsActive_step_iff counts) trivial starts
    (along_true _ _)

/-! ## An hourly market that expires with its quotes out -/

/-- The market quotes, expires flat, and its two ids are counted ever after. -/
theorem pruned_market_keeps_its_slots :
    let env := marketEnv (some narrow)
    let tr := run (Trader.step env) (Trader.startup env (marketCfg none) (listing ["KXBTCD-1"] 0))
      [⟨.book "KXBTCD-1" (snapshot (2 / 5) (1 / 2)), listing ["KXBTCD-1"] 10⟩,
        ⟨.refresh, listing ["KXBTCD-2"] 900⟩]
    ¬ CountsActive tr ∧ tr.state.openOrderCount = 2 ∧ "KXBTCD-1" ∉ tr.activeTickers ∧
      tr.state.recordedIds "KXBTCD-1" = ["b1", "a1"] := by
  intro env tr
  have counted : tr.state.openOrderCount = 2 := by decide +kernel
  have gone : "KXBTCD-1" ∉ tr.activeTickers := by decide +kernel
  have kept : tr.state.recordedIds "KXBTCD-1" = ["b1", "a1"] := by decide +kernel
  refine ⟨fun counts => ?_, counted, gone, kept⟩
  have idle := countsActive_iff.mp counts "KXBTCD-1" gone
  rw [kept] at idle
  cases idle

end KalshiMm.Verified.OrderSlots
