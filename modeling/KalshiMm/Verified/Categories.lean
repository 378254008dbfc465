import KalshiMm.Verified.SpotGate

/-!
# Which category a market carries

A market's state is created once, with the category at hand, and keeps it; the universe lists a
market under the category it was discovered in.  Markets that become active get a state at once,
so the two can differ only where a refresh adds a market that already has a state.
-/

namespace KalshiMm.Verified.Categories

open KalshiMm.Lib KalshiMm.Model
open SpotGate (CategoriesRecorded)

/-- Every active market has a state. -/
def Known (tr : Trader) : Prop := ∀ ticker ∈ tr.activeTickers.keys, ticker ∈ tr.state.tickers

/-- A refresh that runs finds every market it adds without a state, or with one of the category
    it is listed under. -/
def RefreshAgrees (env : Env) (tr : Trader) (arrival : Arrival) : Prop :=
  match arrival.event with
  | .refresh => tr.running = true → ∀ ticker category,
      (Trader.discoverUniverse env arrival.out).lookup ticker = some category →
      ticker ∉ tr.activeTickers → ∀ ts ∈ tr.state.tickers.lookup ticker, ts.category = category
  | _ => True

/-! ## Handlers that keep both -/

/-- The universe is the same, and every market that had a state still has its category. -/
structure SameLabels (tr tr' : Trader) : Prop where
  active : tr'.activeTickers = tr.activeTickers
  categories : ∀ ticker ts, tr.state.tickers.lookup ticker = some ts →
    ∃ ts', tr'.state.tickers.lookup ticker = some ts' ∧ ts'.category = ts.category

namespace SameLabels

theorem refl (tr : Trader) : SameLabels tr tr := ⟨rfl, fun _ ts known => ⟨ts, known, rfl⟩⟩

theorem trans {a b c : Trader} (first : SameLabels a b) (second : SameLabels b c) :
    SameLabels a c where
  active := second.active.trans first.active
  categories ticker ts known := by
    obtain ⟨middle, found, same⟩ := first.categories ticker ts known
    obtain ⟨last, found', same'⟩ := second.categories ticker middle found
    exact ⟨last, found', same'.trans same⟩

theorem of_bookkeeping {tr tr' : Trader} (books : Bookkeeping tr tr') : SameLabels tr tr' := by
  obtain ⟨⟨_, _, rfl⟩, quiet⟩ := books
  exact ⟨rfl, quiet.categories⟩

theorem of_timers {tr tr' : Trader} (timers : Timers tr tr') : SameLabels tr tr' := by
  obtain ⟨_, _, _, rfl⟩ := timers
  exact ⟨rfl, (refl tr).categories⟩

theorem updateSpotGate (out : Outside) (tr : Trader) :
    SameLabels tr (tr.updateSpotGate out).trader := by
  obtain ⟨_, same⟩ | ⟨_, _, rises⟩ | ⟨_, stays⟩ := updateSpotGate_cases out tr
  · rw [same]; exact refl tr
  · rw [rises]
    obtain ⟨active, categories⟩ := of_bookkeeping (bookkeeping_cancelSpotBoundQuotes out tr)
    exact ⟨active, categories⟩
  · rw [stays]; exact ⟨rfl, (refl tr).categories⟩

theorem quoteCycle (out : Outside) (category ticker : String) (action : Action) (fvShift : ℚ)
    (allow : Bool × Bool) (tr : Trader) :
    SameLabels tr (tr.quoteCycle out category ticker action fvShift allow).trader := by
  cases planned : planOf out category ticker action fvShift tr with
  | none => exact of_bookkeeping (refetch_of_unplanned allow planned).books
  | some plan =>
    obtain ⟨_, state, ts, executed, tickers, sameCategory, _⟩ := quoteCycle_of_some allow planned
    rw [executed]
    refine ⟨rfl, fun other before known => ?_⟩
    rw [tickers, Dict.lookup_insert_eq_ite]
    split_ifs with same
    · subst same
      rw [TraderState.tickerD, known, Option.getD_some] at sameCategory
      exact ⟨ts, rfl, sameCategory⟩
    · exact ⟨before, known, rfl⟩

theorem bookOutcome {out : Outside} {ticker : String} {msg : Value} {tr : Trader}
    {outcome : Outcome} (ends : BookOutcome out ticker msg tr outcome) :
    SameLabels tr outcome.trader := by
  cases ends with
  | kept books => exact of_bookkeeping books
  | halted books =>
    obtain ⟨active, categories⟩ := of_bookkeeping books
    exact ⟨active, categories⟩
  | quoted action fvShift allow _ books _ _ _ =>
    exact (of_bookkeeping books).trans (quoteCycle ..)

theorem onSpotTick (env : Env) (out : Outside) (price : ℚ) (tr : Trader) :
    SameLabels tr (tr.onSpotTick env out price).trader :=
  onSpotTick_related (R := SameLabels) (fun _ _ _ => trans) (fun tr _ => ⟨rfl, (refl tr).categories⟩)
    (updateSpotGate out) of_timers env price tr

end SameLabels

/-- Only a refresh moves the universe. -/
theorem step_sameLabels {env : Env} {tr : Trader} {arrival : Arrival}
    (other : arrival.event ≠ .refresh) : SameLabels tr (tr.step env arrival) := by
  unfold Trader.step Trader.turn
  split_ifs
  · unfold Trader.handle
    split
    · exact .bookOutcome (onBookUpdate_outcome ..)
    · exact .of_bookkeeping (bookkeeping_onTrade ..)
    · exact SameLabels.onSpotTick ..
    · exact .of_bookkeeping (bookkeeping_processFill ..)
    · exact .of_bookkeeping (bookkeeping_syncPositions ..)
    · exact (SameLabels.updateSpotGate ..).trans (.of_timers (timers_checkExits ..))
    · exact .of_bookkeeping (bookkeeping_maybeDailyReset ..)
    next refresh => exact absurd refresh other
  · exact .refl tr

theorem SameLabels.mem {tr tr' : Trader} (same : SameLabels tr tr') {ticker : String}
    (known : ticker ∈ tr.state.tickers) : ticker ∈ tr'.state.tickers := by
  obtain ⟨ts, found⟩ := Finmap.mem_iff.mp known
  obtain ⟨ts', found', _⟩ := same.categories ticker ts found
  exact Finmap.mem_iff.mpr ⟨ts', found'⟩

theorem SameLabels.known {tr tr' : Trader} (same : SameLabels tr tr') (known : Known tr) :
    Known tr' := by
  intro ticker active
  rw [same.active] at active
  exact same.mem (known ticker active)

theorem recorded_iff {tr : Trader} : CategoriesRecorded tr ↔ ∀ ticker category,
    tr.activeTickers.lookup ticker = some category →
      (tr.state.tickerD ticker category).category = category := by
  constructor
  · intro recorded ticker category active
    exact SpotGate.category_tickerD recorded active
  · intro carried ticker active ts known
    obtain ⟨category, listed⟩ := Finmap.mem_iff.mp (Finmap.mem_keys.mp active)
    have same := carried ticker category listed
    rw [TraderState.tickerD, known, Option.getD_some] at same
    rw [listed, same]

theorem SameLabels.recorded {tr tr' : Trader} (same : SameLabels tr tr') (known : Known tr)
    (recorded : CategoriesRecorded tr) : CategoriesRecorded tr' := by
  rw [recorded_iff] at recorded ⊢
  intro ticker category active
  rw [same.active] at active
  -- an active market had a state, so nothing was created for it
  obtain ⟨ts, found⟩ := Finmap.mem_iff.mp
    (known ticker (Finmap.mem_keys.mpr (Finmap.mem_iff.mpr ⟨category, active⟩)))
  obtain ⟨ts', found', sameCategory⟩ := same.categories ticker ts found
  have before := recorded ticker category active
  rw [TraderState.tickerD, found, Option.getD_some] at before
  rw [TraderState.tickerD, found', Option.getD_some, sameCategory, before]

/-! ## Markets that are fetched -/

/-- Every listed market carries the same category before and after, where one that has no state
    counts as carrying its listed one. -/
def SameUnder (listed : Dict String String) (s s' : TraderState) : Prop :=
  ∀ ticker category, listed.lookup ticker = some category →
    (s'.tickerD ticker category).category = (s.tickerD ticker category).category

namespace SameUnder

variable {listed : Dict String String}

theorem refl (s : TraderState) : SameUnder listed s s := fun _ _ _ => rfl

theorem trans {a b c : TraderState} (first : SameUnder listed a b) (second : SameUnder listed b c) :
    SameUnder listed a c := fun ticker category isListed =>
  (second ticker category isListed).trans (first ticker category isListed)

theorem setTicker {s : TraderState} {ticker category : String} {ts : TickerState}
    (isListed : listed.lookup ticker = some category)
    (same : ts.category = (s.tickerD ticker category).category) :
    SameUnder listed s (s.setTicker ticker ts) := by
  intro other category' isListed'
  by_cases this_ : other = ticker
  · subst this_
    rw [isListed] at isListed'
    cases isListed'
    rw [tickerD_setTicker, same]
  · rw [TraderState.tickerD, TraderState.setTicker_tickers, Finmap.lookup_insert_of_ne _ this_,
      TraderState.tickerD]

theorem foldl {f : Trader → String × String → Trader}
    (each : ∀ tr entry, listed.lookup entry.1 = some entry.2 →
      SameUnder listed tr.state (f tr entry).state)
    {entries : List (String × String)}
    (fromListing : ∀ entry ∈ entries, listed.lookup entry.1 = some entry.2) (tr : Trader) :
    SameUnder listed tr.state (entries.foldl f tr).state := by
  induction entries generalizing tr with
  | nil => exact refl _
  | cons entry entries inductionHypothesis =>
    obtain ⟨first, rest⟩ := List.forall_mem_cons.mp fromListing
    exact (each tr entry first).trans (inductionHypothesis rest (f tr entry))

end SameUnder

section Fetch

variable {listed : Dict String String} {entries : List (String × String)}
  (fromListing : ∀ entry ∈ entries, listed.lookup entry.1 = some entry.2)

include fromListing

theorem sameUnder_details (env : Env) (out : Outside) (tr : Trader) :
    SameUnder listed tr.state (Trader.fetchMarketDetails env out entries tr).state :=
  SameUnder.foldl (fun _ _ isListed =>
    SameUnder.setTicker isListed (readDetails_orderIds env _ _).2) fromListing tr

theorem sameUnder_snapshots (out : Outside) (tr : Trader) :
    SameUnder listed tr.state (Trader.fetchInitialSnapshots out entries tr).state := by
  refine SameUnder.foldl (fun tr entry isListed => ?_) fromListing tr
  unfold Trader.fetchSnapshot
  dsimp only
  split
  · exact SameUnder.refl _
  · exact SameUnder.setTicker isListed rfl

end Fetch

/-- Details are fetched into a state, created where there was none. -/
theorem known_details (env : Env) (out : Outside) {entries : List (String × String)}
    {entry : String × String} (member : entry ∈ entries) (tr : Trader) :
    entry.1 ∈ (Trader.fetchMarketDetails env out entries tr).state.tickers := by
  induction entries generalizing tr with
  | nil => cases member
  | cons first rest inductionHypothesis =>
    cases member with
    | head =>
      -- the first fetch creates it, and the others keep it
      have created : (Trader.fetchDetails env out tr entry).state.tickers.lookup entry.1 =
          some (Trader.readDetails env (tr.state.tickerD entry.1 entry.2)
            (out.api.getMarket entry.1)) := Finmap.lookup_insert _
      obtain ⟨ts, found, _⟩ := (refetch_fetchMarketDetails env out rest
        (Trader.fetchDetails env out tr entry)).books.quiet.categories _ _ created
      exact Finmap.mem_iff.mpr ⟨ts, found⟩
    | tail _ later => exact inductionHypothesis later _

/-- Details and then snapshots: every market fetched has a state, and carries what it carried. -/
theorem fetched_labels (env : Env) (out : Outside) {listed : Dict String String}
    {entries : List (String × String)}
    (fromListing : ∀ entry ∈ entries, listed.lookup entry.1 = some entry.2) (tr : Trader) :
    let fetched := Trader.fetchInitialSnapshots out entries
      (Trader.fetchMarketDetails env out entries tr)
    SameLabels tr fetched ∧ SameUnder listed tr.state fetched.state ∧
      ∀ entry ∈ entries, entry.1 ∈ fetched.state.tickers := by
  intro fetched
  have details := SameLabels.of_bookkeeping (refetch_fetchMarketDetails env out entries tr).books
  have snapshots := SameLabels.of_bookkeeping (refetch_fetchInitialSnapshots out entries
    (Trader.fetchMarketDetails env out entries tr)).books
  exact ⟨details.trans snapshots,
    SameUnder.trans (sameUnder_details fromListing env out tr)
      (sameUnder_snapshots fromListing out _),
    fun entry member => snapshots.mem (known_details env out member tr)⟩

/-! ## Refresh and startup -/

theorem mem_allEntries (tr : Trader) (out : Outside) (entry : String × String) :
    entry ∈ tr.allEntries out ↔ tr.activeTickers.lookup entry.1 = some entry.2 := by
  obtain ⟨ticker, category⟩ := entry
  simp only [Trader.allEntries, List.mem_filterMap, out.hash.mem, Finmap.mem_keys,
    Option.map_eq_some_iff, Prod.mk.injEq]
  constructor
  · rintro ⟨_, _, _, listed, rfl, rfl⟩
    exact listed
  · intro listed
    exact ⟨ticker, Finmap.mem_iff.mpr ⟨category, listed⟩, category, listed, rfl, rfl⟩

theorem mem_addedEntries (tr : Trader) (out : Outside) (discovered : Dict String String)
    (entry : String × String) : entry ∈ tr.addedEntries out discovered ↔
      discovered.lookup entry.1 = some entry.2 ∧ entry.1 ∉ tr.activeTickers := by
  obtain ⟨ticker, category⟩ := entry
  simp only [Trader.addedEntries, List.mem_filterMap, List.mem_filter, out.hash.mem,
    Finmap.mem_keys, Option.map_eq_some_iff, Prod.mk.injEq, decide_eq_true_eq]
  constructor
  · rintro ⟨_, ⟨_, absent⟩, _, listed, rfl, rfl⟩
    exact ⟨listed, absent⟩
  · rintro ⟨listed, absent⟩
    exact ⟨ticker, ⟨Finmap.mem_iff.mpr ⟨category, listed⟩, absent⟩, category, listed, rfl, rfl⟩

/-- Where a rolled universe lists a market: where the old one did, or, if that did not, where the
    market was discovered. -/
theorem lookup_rolledUniverse {tr : Trader} {discovered : Dict String String}
    {ticker category : String} :
    (tr.rolledUniverse discovered).lookup ticker = some category ↔
      (tr.activeTickers.lookup ticker = some category ∧ tr.prunable discovered ticker = false) ∨
      (ticker ∉ tr.activeTickers ∧ discovered.lookup ticker = some category) := by
  unfold Trader.rolledUniverse
  rw [← Option.mem_def, Finmap.mem_lookup_union, Option.mem_def, Option.mem_def,
    ← Finmap.lookup_eq_none, Dict.lookup_retain, ← Finmap.lookup_eq_none]
  cases prunes : tr.prunable discovered ticker with
  | false => simp
  | true =>
    -- what is pruned is not discovered
    have unlisted : discovered.lookup ticker = none := by
      rw [Finmap.lookup_eq_none]
      simp only [Trader.prunable, Bool.and_eq_true, decide_eq_true_eq] at prunes
      exact prunes.1
    simp [unlisted]

/-- What a refresh leaves of what it finds: all of it, with nothing to add, or the rolled universe,
    whose markets all have states and carry what they carried, listed ones what they are listed as. -/
theorem refreshMarkets_labels (env : Env) (out : Outside) {tr : Trader} (known : Known tr) :
    let discovered := Trader.discoverUniverse env out
    (tr.refreshMarkets env out = tr ∧
      ∀ ticker category, discovered.lookup ticker = some category → ticker ∈ tr.activeTickers) ∨
    ((tr.refreshMarkets env out).activeTickers = tr.rolledUniverse discovered ∧
      Known (tr.refreshMarkets env out) ∧
      SameUnder (tr.rolledUniverse discovered) tr.state (tr.refreshMarkets env out).state) := by
  intro discovered
  have ends := refreshMarkets_refreshed env out tr
  generalize tr.refreshMarkets env out = tr' at ends ⊢
  cases ends with
  | unfound nothing =>
    refine Or.inl ⟨rfl, fun ticker category listed => ?_⟩
    have none_ : discovered.lookup ticker = none := by
      rw [show discovered = ∅ from nothing, Finmap.lookup_empty]
    rw [none_] at listed
    cases listed
  | unchanged noneAdded _ =>
    refine Or.inl ⟨rfl, fun ticker category listed => ?_⟩
    by_contra absent
    have added := (mem_addedEntries tr out discovered (ticker, category)).mpr ⟨listed, absent⟩
    rw [noneAdded] at added
    cases added
  | rolled _ ladders =>
    refine Or.inr ?_
    have fromListing : ∀ entry ∈ tr.addedEntries out discovered,
        (tr.rolledUniverse discovered).lookup entry.1 = some entry.2 := fun entry member =>
      lookup_rolledUniverse.mpr (Or.inr ((mem_addedEntries ..).mp member).symm)
    obtain ⟨labels, carries, created⟩ :=
      fetched_labels env out fromListing (rolledOver tr discovered)
    refine ⟨labels.active, fun ticker active => ?_, carries⟩
    have swapped : (fetchAdded env out tr discovered).activeTickers =
        tr.rolledUniverse discovered := labels.active
    have active : ticker ∈ (fetchAdded env out tr discovered).activeTickers.keys := active
    rw [swapped] at active
    obtain ⟨category, listed⟩ := Finmap.mem_iff.mp (Finmap.mem_keys.mp active)
    obtain ⟨kept, _⟩ | ⟨absent, found⟩ := lookup_rolledUniverse.mp listed
    · exact labels.mem (known ticker (Finmap.mem_keys.mpr (Finmap.mem_iff.mpr ⟨category, kept⟩)))
    · exact created (ticker, category) ((mem_addedEntries ..).mpr ⟨found, absent⟩)

theorem known_refreshMarkets (env : Env) (out : Outside) {tr : Trader} (known : Known tr) :
    Known (tr.refreshMarkets env out) := by
  obtain ⟨same, _⟩ | ⟨_, known', _⟩ := refreshMarkets_labels env out known
  · rwa [same]
  · exact known'

/-- A refresh keeps the categories in agreement exactly when it adds no market with another one. -/
theorem recorded_refreshMarkets {env : Env} {out : Outside} {tr : Trader} (known : Known tr)
    (recorded : CategoriesRecorded tr) : CategoriesRecorded (tr.refreshMarkets env out) ↔
      ∀ ticker category, (Trader.discoverUniverse env out).lookup ticker = some category →
        ticker ∉ tr.activeTickers → ∀ ts ∈ tr.state.tickers.lookup ticker, ts.category = category := by
  obtain ⟨same, nothingNew⟩ | ⟨active, _, carries⟩ := refreshMarkets_labels env out known
  · rw [same]
    exact iff_of_true recorded fun ticker category listed absent =>
      absurd (nothingNew ticker category listed) absent
  · rw [recorded_iff, active]
    constructor
    · intro carried ticker category listed absent ts before
      have isListed := lookup_rolledUniverse.mpr (Or.inr ⟨absent, listed⟩)
      have same := carries ticker category isListed
      rw [carried ticker category isListed, TraderState.tickerD, before, Option.getD_some] at same
      exact same.symm
    · intro agrees ticker category isListed
      rw [carries ticker category isListed]
      obtain ⟨kept, _⟩ | ⟨absent, listed⟩ := lookup_rolledUniverse.mp isListed
      · exact recorded_iff.mp recorded ticker category kept
      · unfold TraderState.tickerD
        cases before : tr.state.tickers.lookup ticker with
        | none => rfl
        | some ts => exact agrees ticker category listed absent ts before

/-- At startup every market discovered gets its state first, with the category it was found in. -/
theorem startup_recorded (env : Env) (cfg : Config) (out : Outside) :
    Known (Trader.startup env cfg out) ∧ CategoriesRecorded (Trader.startup env cfg out) := by
  let listed := (Trader.start cfg out.epoch).discoverMarkets env out
  let detailed := Trader.fetchMarketDetails env out (listed.allEntries out) listed
  have fromListing : ∀ entry ∈ listed.allEntries out,
      listed.activeTickers.lookup entry.1 = some entry.2 := fun entry =>
    (mem_allEntries listed out entry).mp
  have labels : SameLabels listed detailed :=
    .of_bookkeeping (refetch_fetchMarketDetails env out (listed.allEntries out) listed).books
  have known : Known detailed := by
    intro ticker active
    rw [labels.active] at active
    obtain ⟨category, isListed⟩ := Finmap.mem_iff.mp (Finmap.mem_keys.mp active)
    exact known_details env out ((mem_allEntries listed out (ticker, category)).mpr isListed) listed
  have recorded : CategoriesRecorded detailed := by
    rw [recorded_iff, labels.active]
    intro ticker category isListed
    -- no market has a state yet
    exact sameUnder_details fromListing env out listed ticker category isListed
  -- the sync and the snapshots keep what is there
  have rest : SameLabels detailed (Trader.startup env cfg out) :=
    (SameLabels.of_bookkeeping (bookkeeping_syncPositions out detailed)).trans (by
      let synced : Trader := { detailed.syncPositions out with
        ladders := Ladders.build (out.hash.enumerate (detailed.syncPositions out).activeTickers.keys) }
      have same : SameLabels (detailed.syncPositions out) synced := ⟨rfl, (SameLabels.refl _).categories⟩
      exact same.trans (.of_bookkeeping (refetch_fetchInitialSnapshots out
        (synced.allEntries out) synced).books))
  exact ⟨rest.known known, rest.recorded known recorded⟩

/-! ## Agreement along runs -/

/-- One turn keeps the categories in agreement exactly when it is no refresh that breaks them. -/
theorem recorded_step {env : Env} {tr : Trader} (known : Known tr)
    (recorded : CategoriesRecorded tr) (arrival : Arrival) :
    CategoriesRecorded (tr.step env arrival) ↔ RefreshAgrees env tr arrival := by
  by_cases refresh : arrival.event = .refresh
  · simp only [RefreshAgrees, refresh]
    unfold Trader.step Trader.turn
    split_ifs with running
    · simp only [Trader.handle, refresh, running, true_imp_iff]
      exact recorded_refreshMarkets known recorded
    · exact iff_of_true recorded fun contradiction => absurd contradiction running
  · refine iff_of_true ((step_sameLabels refresh).recorded known recorded) ?_
    unfold RefreshAgrees
    split
    next same => exact absurd same refresh
    · trivial

theorem known_step {env : Env} {tr : Trader} (known : Known tr) (arrival : Arrival) :
    Known (tr.step env arrival) := by
  by_cases refresh : arrival.event = .refresh
  · unfold Trader.step Trader.turn
    split_ifs
    · simp only [Trader.handle, refresh]
      exact known_refreshMarkets env arrival.out known
    · exact known
  · exact (step_sameLabels refresh).known known

/-- In a run of the bot every active market carries the category it is listed under, throughout,
    exactly when no refresh adds a market whose state carries another one. -/
theorem categories_agree_iff (env : Env) (cfg : Config) (out : Outside) (arrivals : List Arrival) :
    Throughout (Trader.step env) CategoriesRecorded (Trader.startup env cfg out) arrivals ↔
      Along (Trader.step env) (RefreshAgrees env) (Trader.startup env cfg out) arrivals := by
  obtain ⟨known, recorded⟩ := startup_recorded env cfg out
  exact throughout_iff_along (fun _ arrival known _ => known_step known arrival)
    (fun _ arrival known _ recorded => recorded_step known recorded arrival) known recorded
    (along_true _ _)

/-! ## A market held before it is listed -/

/-- Nothing can be listed, but three contracts are held. -/
def holding (mono : ℚ) : Outside :=
  { answering "b1" "a1" mono with
    api :=
      { (answering "b1" "a1" mono).api with
        getMarkets := fun _ _ _ => .error "503"
        getPositions := .ok (.object [("market_positions", .array
          [.object [("ticker", .string "KXBTCD-1"), ("position", .number 3)]])]) } }

/-- Discovery fails at startup and the sync finds a position: the market's state is created without
    a category, under which the next refresh finds the market. -/
theorem synced_category_is_empty :
    let tr := run (Trader.step (marketEnv none))
      (Trader.startup (marketEnv none) (marketCfg (some "BTC-USD")) (holding 100))
      [⟨.refresh, listing ["KXBTCD-1"] 400⟩]
    tr.activeTickers.lookup "KXBTCD-1" = some "KXBTCD" ∧
      (tr.state.tickers.lookup "KXBTCD-1").map TickerState.category = some "" ∧
      ¬ CategoriesRecorded tr := by
  decide +kernel

end KalshiMm.Verified.Categories
