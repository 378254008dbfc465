import KalshiMm.Lib.Run
import KalshiMm.Model.Loop

/-!
# What each handler may change

`Quiet` compares two account states: nothing has been recorded as resting that was not recorded
before, and every market keeps its category.  `Bookkeeping` compares two traders that differ in
the account state alone, quietly.  All handlers are bookkeeping but those of quotes, gates, exits
and the universe, and what these do is said once, here.
-/

namespace KalshiMm.Verified

open KalshiMm.Lib KalshiMm.Model

/-! ## Quiet changes of the account state -/

/-- No order id is recorded anew, and every market keeps its category. -/
structure Quiet (s s' : TraderState) : Prop where
  ids : ∀ ticker, (s'.recordedIds ticker).Sublist (s.recordedIds ticker)
  categories : ∀ ticker ts, s.tickers.lookup ticker = some ts →
    ∃ ts', s'.tickers.lookup ticker = some ts' ∧ ts'.category = ts.category

theorem recordedIds_of_insert {s s' : TraderState} {ticker : String} {ts : TickerState}
    (written : s'.tickers = s.tickers.insert ticker ts) (other : String) :
    s'.recordedIds other = if other = ticker then ts.orderIds else s.recordedIds other := by
  unfold TraderState.recordedIds
  rw [written, Dict.getD_map_insert]

theorem recordedIds_eq (s : TraderState) (ticker category : String) :
    s.recordedIds ticker = (s.tickerD ticker category).orderIds :=
  Option.getD_map TickerState.orderIds (TickerState.new category) (s.tickers.lookup ticker)

namespace Quiet

theorem refl (s : TraderState) : Quiet s s where
  ids _ := List.Sublist.refl _
  categories _ ts known := ⟨ts, known, rfl⟩

theorem trans {a b c : TraderState} (first : Quiet a b) (second : Quiet b c) : Quiet a c where
  ids ticker := (second.ids ticker).trans (first.ids ticker)
  categories ticker ts known := by
    obtain ⟨middle, found, same⟩ := first.categories ticker ts known
    obtain ⟨last, found', same'⟩ := second.categories ticker middle found
    exact ⟨last, found', same'.trans same⟩

theorem of_tickers {s s' : TraderState} (same : s'.tickers = s.tickers) : Quiet s s' where
  ids ticker := by rw [TraderState.recordedIds, TraderState.recordedIds, same]
  categories ticker ts known := ⟨ts, same ▸ known, rfl⟩

theorem setTicker {s : TraderState} {ticker category : String} {ts : TickerState}
    (sameCategory : ts.category = (s.tickerD ticker category).category)
    (ids : ts.orderIds.Sublist (s.tickerD ticker category).orderIds) :
    Quiet s (s.setTicker ticker ts) where
  ids other := by
    rw [recordedIds_of_insert (TraderState.setTicker_tickers s ticker ts)]
    split_ifs with same
    · rw [same, recordedIds_eq s ticker category]
      exact ids
    · exact List.Sublist.refl _
  categories other known found := by
    rw [TraderState.setTicker_tickers, Dict.lookup_insert_eq_ite]
    split_ifs with same
    · subst same
      refine ⟨ts, rfl, ?_⟩
      rw [sameCategory, TraderState.tickerD, found, Option.getD_some]
    · exact ⟨known, found, rfl⟩

theorem ticker (s : TraderState) (ticker category : String) : Quiet s (s.ticker ticker category) :=
  setTicker rfl (List.Sublist.refl _)

theorem of_insert {s s' : TraderState} {ticker : String} {ts ts' : TickerState}
    (known : s.tickers.lookup ticker = some ts) (written : s'.tickers = s.tickers.insert ticker ts')
    (sameCategory : ts'.category = ts.category) (ids : ts'.orderIds.Sublist ts.orderIds) :
    Quiet s s' := by
  have found : s.tickerD ticker ts.category = ts := by
    rw [TraderState.tickerD, known, Option.getD_some]
  have wrote : Quiet s (s.setTicker ticker ts') :=
    setTicker (by rw [found, sameCategory]) (by rwa [found])
  exact wrote.trans (of_tickers written)

theorem ids_nil {s s' : TraderState} (quiet : Quiet s s') {ticker : String}
    (none : s.recordedIds ticker = []) : s'.recordedIds ticker = [] :=
  List.sublist_nil.mp (none ▸ quiet.ids ticker)

end Quiet

theorem positionOf_of_insert {tr tr' : Trader} {ticker : String} {ts : TickerState}
    (written : tr'.state.tickers = tr.state.tickers.insert ticker ts) (other : String) :
    tr'.positionOf other = if other = ticker then ts.position else tr.positionOf other := by
  unfold Trader.positionOf
  rw [written, Dict.getD_map_insert]

theorem positionOf_eq (tr : Trader) (ticker category : String) :
    tr.positionOf ticker = (tr.state.tickerD ticker category).position :=
  Option.getD_map TickerState.position (TickerState.new category) (tr.state.tickers.lookup ticker)

theorem positionOf_of_kept {tr tr' : Trader} {ticker category : String} {ts : TickerState}
    (written : tr'.state.tickers = tr.state.tickers.insert ticker ts)
    (kept : ts.position = (tr.state.tickerD ticker category).position) (other : String) :
    tr'.positionOf other = tr.positionOf other := by
  rw [positionOf_of_insert written]
  split_ifs with same
  · rw [kept, same, positionOf_eq tr ticker category]
  · rfl

/-! ## Bookings -/

theorem releaseSlot_sublist (slot orderId : Option String) :
    (TickerState.releaseSlot slot orderId).toList.Sublist slot.toList := by
  unfold TickerState.releaseSlot
  split
  · split_ifs
    · exact List.nil_sublist _
    · exact List.Sublist.refl _
  · exact List.Sublist.refl _

theorem orderIds_filled (ts : TickerState) (nf : NormalizedFill) (nowEpoch : ℚ) :
    (ts.filled nf nowEpoch).orderIds.Sublist ts.orderIds :=
  (releaseSlot_sublist _ _).append (releaseSlot_sublist _ _)

theorem bookRealizedClose_only (s : TraderState) (category : String) (realized : ℚ)
    (streakExempt : Bool) : ∃ dailyPnl cumulativePnl wins losses consecutiveLosses,
      s.bookRealizedClose category realized streakExempt =
        { s with dailyPnl, cumulativePnl, wins, losses, consecutiveLosses } := by
  unfold TraderState.bookRealizedClose
  split_ifs <;> exact ⟨_, _, _, _, _, rfl⟩

theorem seenFill_only (s : TraderState) (fillId : String) : ∃ fillIds fillIdFifo,
    (s.seenFill fillId).1 = { s with fillIds, fillIdFifo } := by
  unfold TraderState.seenFill
  split_ifs
  · exact ⟨_, _, rfl⟩
  · dsimp only
    split
    · split_ifs <;> exact ⟨_, _, rfl⟩
    · exact ⟨_, _, rfl⟩

theorem seenFill_tickers (s : TraderState) (fillId : String) :
    (s.seenFill fillId).1.tickers = s.tickers := by
  obtain ⟨_, _, only⟩ := seenFill_only s fillId
  rw [only]

theorem Quiet.applyFill {s s' : TraderState} {ticker : String} {nf : NormalizedFill}
    {fee nowEpoch realized : ℚ} (applied : s.applyFill ticker nf fee nowEpoch = some (s', realized)) :
    Quiet s s' := by
  cases known : s.tickers.lookup ticker with
  | none =>
    -- an unknown market is the source's panic, so nothing was applied
    have absent : (s.bookFee nf fee).tickers.lookup ticker = none := known
    rw [TraderState.applyFill, absent] at applied
    cases applied
  | some ts =>
    obtain ⟨booked, applied', tickers⟩ := TraderState.applyFill_tickers known nf fee nowEpoch
    rw [applied'] at applied
    cases applied
    exact Quiet.of_insert known tickers rfl (orderIds_filled ts nf nowEpoch)

theorem Quiet.applySettlement (s : TraderState) (ticker : String) (resultYes : Option Bool) :
    Quiet s (s.applySettlement ticker resultYes).1 := by
  cases known : s.tickers.lookup ticker with
  | none => rw [TraderState.applySettlement, known]; exact Quiet.refl s
  | some ts =>
    by_cases flat : ts.position = 0
    · rw [TraderState.applySettlement_of_flat known flat]; exact Quiet.refl s
    · exact Quiet.of_insert known (TraderState.applySettlement_tickers known flat resultYes) rfl
        (List.Sublist.refl _)

/-! ## Bookkeeping of the trader -/

/-- The traders differ in the account state alone (and the settlement counters), quietly. -/
structure Bookkeeping (tr tr' : Trader) : Prop where
  only : ∃ state settlementChecks, tr' = { tr with state, settlementChecks }
  quiet : Quiet tr.state tr'.state

namespace Bookkeeping

theorem refl (tr : Trader) : Bookkeeping tr tr := ⟨⟨_, _, rfl⟩, Quiet.refl _⟩

theorem trans {a b c : Trader} (first : Bookkeeping a b) (second : Bookkeeping b c) :
    Bookkeeping a c := by
  obtain ⟨⟨_, _, rfl⟩, quiet⟩ := first
  obtain ⟨⟨_, _, rfl⟩, quiet'⟩ := second
  exact ⟨⟨_, _, rfl⟩, quiet.trans quiet'⟩

theorem withState {tr : Trader} {state : TraderState} (quiet : Quiet tr.state state) :
    Bookkeeping tr { tr with state } := ⟨⟨_, _, rfl⟩, quiet⟩

theorem withChecks {tr : Trader} {state : TraderState} {settlementChecks : Dict String ℕ}
    (quiet : Quiet tr.state state) : Bookkeeping tr { tr with state, settlementChecks } :=
  ⟨⟨_, _, rfl⟩, quiet⟩

theorem spotGateOn {tr tr' : Trader} (books : Bookkeeping tr tr') :
    tr'.spotGateOn = tr.spotGateOn := by
  obtain ⟨_, _, rfl⟩ := books.only
  rfl

theorem running {tr tr' : Trader} (books : Bookkeeping tr tr') : tr'.running = tr.running := by
  obtain ⟨_, _, rfl⟩ := books.only
  rfl

theorem spotBound {tr tr' : Trader} (books : Bookkeeping tr tr') :
    tr'.spotBound = tr.spotBound := by
  obtain ⟨_, _, rfl⟩ := books.only
  rfl

theorem spotGated {tr tr' : Trader} (books : Bookkeeping tr tr') (nowMono : ℚ) :
    tr'.spotGated nowMono = tr.spotGated nowMono := by
  obtain ⟨_, _, rfl⟩ := books.only
  rfl

end Bookkeeping

theorem enforceCategoryHalt_only (category : String) (tr : Trader) : ∃ haltedCategories,
    tr.enforceCategoryHalt category =
      { tr with state := { tr.state with haltedCategories } } := by
  unfold Trader.enforceCategoryHalt
  dsimp only
  split_ifs <;> exact ⟨_, rfl⟩

theorem bookkeeping_enforceCategoryHalt (category : String) (tr : Trader) :
    Bookkeeping tr (tr.enforceCategoryHalt category) := by
  obtain ⟨_, only⟩ := enforceCategoryHalt_only category tr
  rw [only]
  exact Bookkeeping.withState (Quiet.of_tickers rfl)

theorem bookkeeping_bookFill (out : Outside) (nf : NormalizedFill) (tr : Trader) :
    Bookkeeping tr (tr.bookFill out nf) := by
  unfold Trader.bookFill
  dsimp only
  split
  next state realized applied =>
    have booked := (Quiet.ticker tr.state nf.ticker (tr.fillCategory nf.ticker)).trans
      (Quiet.applyFill applied)
    exact (Bookkeeping.withState booked).trans (bookkeeping_enforceCategoryHalt _ _)
  · exact Bookkeeping.refl tr

theorem bookkeeping_processFill (out : Outside) (raw : Value) (tr : Trader) :
    Bookkeeping tr (tr.processFill out raw) := by
  unfold Trader.processFill
  split
  · exact Bookkeeping.refl tr
  next nf _ =>
    dsimp only
    split_ifs
    · exact Bookkeeping.refl tr
    · exact (Bookkeeping.withState (Quiet.of_tickers (seenFill_tickers tr.state nf.fillId))).trans
        (bookkeeping_bookFill out nf _)

theorem bookkeeping_onTrade (out : Outside) (ticker : String) (msg : Value) (tr : Trader) :
    Bookkeeping tr (tr.onTrade out ticker msg) := by
  unfold Trader.onTrade
  dsimp only
  split
  · exact Bookkeeping.refl tr
  · exact Bookkeeping.withState (Quiet.setTicker rfl (List.Sublist.refl _))

theorem bookkeeping_maybeDailyReset (env : Env) (out : Outside) (tr : Trader) :
    Bookkeeping tr (tr.maybeDailyReset env out) := by
  unfold Trader.maybeDailyReset
  split_ifs
  · exact Bookkeeping.withState (Quiet.of_tickers rfl)
  · exact Bookkeeping.refl tr

/-! ## Position sync -/

theorem setTicker_setTicker (s : TraderState) (ticker : String) (ts ts' : TickerState) :
    (s.setTicker ticker ts).setTicker ticker ts' = s.setTicker ticker ts' := by
  unfold TraderState.setTicker
  rw [Finmap.insert_insert]

/-- A drift correction rewrites its market, in the position and the carried flag. -/
theorem syncTicker_only (out : Outside) (exchange : Dict String ℤ) (tr : Trader)
    (ticker : String) : ∃ carried position, Trader.syncTicker out exchange tr ticker =
      { tr with
        state := tr.state.setTicker ticker
          { tr.state.tickerD ticker ((tr.activeTickers.lookup ticker).getD "") with
            carried, position } } := by
  unfold Trader.syncTicker
  dsimp only
  simp only [setTicker_setTicker]
  split_ifs <;> exact ⟨_, _, rfl⟩

theorem bookkeeping_syncTicker (out : Outside) (exchange : Dict String ℤ) (tr : Trader)
    (ticker : String) : Bookkeeping tr (Trader.syncTicker out exchange tr ticker) := by
  obtain ⟨_, _, only⟩ := syncTicker_only out exchange tr ticker
  rw [only]
  exact Bookkeeping.withState (Quiet.setTicker rfl (List.Sublist.refl _))

/-- A settled market is booked out, and its misses are forgotten. -/
def settledAt (tr : Trader) (ticker : String) (resultYes : Option Bool) : Trader :=
  { tr with
    state := (tr.state.applySettlement ticker resultYes).1
    settlementChecks := tr.settlementChecks.erase ticker }

/-- How the lookup of a vanished market ends: nothing is held, its misses are used up and the position
    is written off, one more miss is counted, or it is settled and its category's halt looked at. -/
inductive Resolved (settled : Dict String (Option Bool)) (tr : Trader) (ticker : String) :
    Trader → Prop where
  | flat (flat : tr.positionOf ticker = 0) :
      Resolved settled tr ticker { tr with settlementChecks := tr.settlementChecks.erase ticker }
  | writtenOff (ts : TickerState) (known : tr.state.tickers.lookup ticker = some ts)
      (held : ts.position ≠ 0) (missing : settled.lookup ticker = none)
      (exhausted : maxSettlementChecks ≤ (tr.settlementChecks.lookup ticker).getD 0 + 1) :
      Resolved settled tr ticker
        { tr with
          state := tr.state.setTicker ticker { ts with position := 0, entryPrice := none }
          settlementChecks := tr.settlementChecks.erase ticker }
  | counted (held : tr.positionOf ticker ≠ 0) (missing : settled.lookup ticker = none)
      (left : (tr.settlementChecks.lookup ticker).getD 0 + 1 < maxSettlementChecks) :
      Resolved settled tr ticker
        { tr with
          settlementChecks := tr.settlementChecks.insert ticker
            ((tr.settlementChecks.lookup ticker).getD 0 + 1) }
  | settled {tr' : Trader} (resultYes : Option Bool) (held : tr.positionOf ticker ≠ 0)
      (found : settled.lookup ticker = some resultYes)
      (halts : tr' = settledAt tr ticker resultYes ∨
        ∃ category, tr' = (settledAt tr ticker resultYes).enforceCategoryHalt category) :
      Resolved settled tr ticker tr'

theorem resolveVanished_resolved (settled : Dict String (Option Bool)) (tr : Trader)
    (ticker : String) : Resolved settled tr ticker (tr.resolveVanished settled ticker) := by
  unfold Trader.resolveVanished
  split_ifs with flat
  · exact .flat flat
  · split
    next missing =>
      dsimp only
      split_ifs with exhausted
      · cases known : tr.state.tickers.lookup ticker with
        | none =>
          rw [Trader.positionOf, known] at flat
          exact absurd rfl flat
        | some ts =>
          rw [Trader.positionOf, known] at flat
          exact .writtenOff ts known flat missing exhausted
      · exact .counted flat missing (not_le.mp exhausted)
    next resultYes found =>
      dsimp only
      split_ifs
      · exact .settled resultYes flat found (Or.inr ⟨_, rfl⟩)
      · exact .settled resultYes flat found (Or.inl rfl)

/-- Looking at the halt moves no more than the halted categories. -/
theorem settledAt_only {tr tr' : Trader} {ticker : String} {resultYes : Option Bool}
    (halts : tr' = settledAt tr ticker resultYes ∨
      ∃ category, tr' = (settledAt tr ticker resultYes).enforceCategoryHalt category) :
    ∃ haltedCategories, tr' =
      { tr with
        state := { (tr.state.applySettlement ticker resultYes).1 with haltedCategories }
        settlementChecks := tr.settlementChecks.erase ticker } := by
  obtain rfl | ⟨category, rfl⟩ := halts
  · exact ⟨_, rfl⟩
  · exact enforceCategoryHalt_only category (settledAt tr ticker resultYes)

/-- A settlement clears the position that was held. -/
theorem tickers_settledAt {tr tr' : Trader} {ticker : String} {resultYes : Option Bool}
    (held : tr.positionOf ticker ≠ 0) (halts : tr' = settledAt tr ticker resultYes ∨
      ∃ category, tr' = (settledAt tr ticker resultYes).enforceCategoryHalt category) :
    ∃ ts, tr.state.tickers.lookup ticker = some ts ∧ ts.position ≠ 0 ∧
      tr'.state.tickers = tr.state.tickers.insert ticker (ts.settled resultYes) := by
  obtain ⟨_, rfl⟩ := settledAt_only halts
  cases known : tr.state.tickers.lookup ticker with
  | none =>
    rw [Trader.positionOf, known] at held
    exact absurd rfl held
  | some ts =>
    rw [Trader.positionOf, known] at held
    exact ⟨ts, rfl, held, TraderState.applySettlement_tickers known held resultYes⟩

theorem bookkeeping_resolveVanished (settled : Dict String (Option Bool)) (tr : Trader)
    (ticker : String) : Bookkeeping tr (Trader.resolveVanished settled tr ticker) := by
  have ends := resolveVanished_resolved settled tr ticker
  generalize tr.resolveVanished settled ticker = tr' at ends
  cases ends with
  | flat _ => exact .withChecks (.refl _)
  | writtenOff ts known _ _ _ => exact .withChecks (.of_insert known rfl rfl (List.Sublist.refl _))
  | counted _ _ _ => exact .withChecks (.refl _)
  | settled resultYes _ _ halts =>
    obtain ⟨_, rfl⟩ := settledAt_only halts
    exact .withChecks ((Quiet.applySettlement tr.state ticker resultYes).trans (.of_tickers rfl))

/-- A backfill does nothing, or gives its market the basis of a replay that ends at its position. -/
theorem backfillEntryPrice_cases (out : Outside) (ticker : String) (tr : Trader) :
    tr.backfillEntryPrice out ticker = tr ∨
    ∃ ts entry fills, tr.state.tickers.lookup ticker = some ts ∧
      replayEntryPrice fills = (ts.position, some entry) ∧
      tr.backfillEntryPrice out ticker =
        { tr with state := tr.state.setTicker ticker { ts with entryPrice := some entry } } := by
  unfold Trader.backfillEntryPrice
  dsimp only
  split_ifs
  · exact Or.inl rfl
  · split
    next replayed entry ts replays known =>
      split_ifs with same
      · exact Or.inr ⟨ts, entry, _, known, same ▸ replays, rfl⟩
      · exact Or.inl rfl
    · exact Or.inl rfl

theorem bookkeeping_backfillEntryPrice (out : Outside) (ticker : String) (tr : Trader) :
    Bookkeeping tr (tr.backfillEntryPrice out ticker) := by
  obtain same | ⟨_, _, _, known, _, written⟩ := backfillEntryPrice_cases out ticker tr
  · rw [same]
    exact Bookkeeping.refl tr
  · rw [written]
    exact Bookkeeping.withState (Quiet.of_insert known rfl rfl (List.Sublist.refl _))

theorem resolveVanishedPositions_related {R : Trader → Trader → Prop} (refl : ∀ tr, R tr tr)
    (trans : ∀ a b c, R a b → R b c → R a c)
    (resolves : ∀ settled tr ticker, R tr (Trader.resolveVanished settled tr ticker))
    (out : Outside) (tickers : List String) (tr : Trader) :
    R tr (tr.resolveVanishedPositions out tickers) := by
  unfold Trader.resolveVanishedPositions
  split
  · exact refl tr
  · exact run_related refl trans (resolves _) tr tickers

theorem bookkeeping_resolveVanishedPositions (out : Outside) (tickers : List String)
    (tr : Trader) : Bookkeeping tr (tr.resolveVanishedPositions out tickers) :=
  resolveVanishedPositions_related Bookkeeping.refl (fun _ _ _ => Bookkeeping.trans)
    bookkeeping_resolveVanished out tickers tr

/-- A sync stays within a preorder that each of its corrections, lookups and backfills stays within. -/
theorem syncPositions_related {R : Trader → Trader → Prop} (refl : ∀ tr, R tr tr)
    (trans : ∀ a b c, R a b → R b c → R a c) {out : Outside}
    (corrects : ∀ exchange tr ticker, R tr (Trader.syncTicker out exchange tr ticker))
    (resolves : ∀ settled tr ticker, R tr (Trader.resolveVanished settled tr ticker))
    (backfills : ∀ tr ticker, R tr (Trader.backfillEntryPrice out ticker tr)) (tr : Trader) :
    R tr (tr.syncPositions out) := by
  unfold Trader.syncPositions
  split
  · exact refl tr
  next resp _ =>
    dsimp only
    have corrected : R tr _ := run_related refl trans (corrects (parsePositions resp)) tr
      (tr.syncKeys out (parsePositions resp))
    refine trans _ _ _ ?_ (run_related refl trans backfills _ _)
    split_ifs
    · exact corrected
    · exact trans _ _ _ corrected (resolveVanishedPositions_related refl trans resolves out _ _)

theorem bookkeeping_syncPositions (out : Outside) (tr : Trader) :
    Bookkeeping tr (tr.syncPositions out) :=
  syncPositions_related Bookkeeping.refl (fun _ _ _ => Bookkeeping.trans)
    (bookkeeping_syncTicker out) bookkeeping_resolveVanished
    (fun tr ticker => bookkeeping_backfillEntryPrice out ticker tr) tr

/-! ## Universe -/

/-- The traders differ in the account state and in the universe; no recorded id changes. -/
structure Rolled (tr tr' : Trader) : Prop where
  only : ∃ state settlementChecks activeTickers activeSet ladders,
    tr' = { tr with state, settlementChecks, activeTickers, activeSet, ladders }
  quiet : Quiet tr.state tr'.state
  ids : ∀ ticker, tr'.state.recordedIds ticker = tr.state.recordedIds ticker

/-- Bookkeeping that leaves every recorded id where it is. -/
structure Refetch (tr tr' : Trader) : Prop where
  books : Bookkeeping tr tr'
  ids : ∀ ticker, tr'.state.recordedIds ticker = tr.state.recordedIds ticker

namespace Refetch

theorem refl (tr : Trader) : Refetch tr tr := ⟨Bookkeeping.refl tr, fun _ => rfl⟩

theorem trans {a b c : Trader} (first : Refetch a b) (second : Refetch b c) : Refetch a c :=
  ⟨first.books.trans second.books, fun ticker => (second.ids ticker).trans (first.ids ticker)⟩

theorem setTicker {tr : Trader} {ticker category : String} {ts : TickerState}
    (sameCategory : ts.category = (tr.state.tickerD ticker category).category)
    (sameIds : ts.orderIds = (tr.state.tickerD ticker category).orderIds) :
    Refetch tr { tr with state := tr.state.setTicker ticker ts } where
  books := Bookkeeping.withState (Quiet.setTicker sameCategory (sameIds ▸ List.Sublist.refl _))
  ids other := by
    rw [recordedIds_of_insert (TraderState.setTicker_tickers _ _ _)]
    split_ifs with same
    · rw [same, sameIds, recordedIds_eq]
    · rfl

end Refetch

theorem readDetails_orderIds (env : Env) (ts : TickerState) (reply : Except String Value) :
    (Trader.readDetails env ts reply).orderIds = ts.orderIds ∧
      (Trader.readDetails env ts reply).category = ts.category := by
  unfold Trader.readDetails
  split <;> exact ⟨rfl, rfl⟩

theorem refetch_fetchMarketDetails (env : Env) (out : Outside)
    (entries : List (String × String)) (tr : Trader) :
    Refetch tr (Trader.fetchMarketDetails env out entries tr) := by
  refine run_related Refetch.refl (fun _ _ _ => Refetch.trans) (fun tr entry => ?_) tr entries
  obtain ⟨ids, category⟩ := readDetails_orderIds env (tr.state.tickerD entry.1 entry.2)
    (out.api.getMarket entry.1)
  exact Refetch.setTicker category ids

theorem refetch_fetchInitialSnapshots (out : Outside) (entries : List (String × String))
    (tr : Trader) : Refetch tr (Trader.fetchInitialSnapshots out entries tr) := by
  refine run_related Refetch.refl (fun _ _ _ => Refetch.trans) (fun tr entry => ?_) tr entries
  unfold Trader.fetchSnapshot
  dsimp only
  split
  · exact Refetch.refl tr
  · exact Refetch.setTicker rfl rfl

/-- The universe is rolled over first. -/
def rolledOver (tr : Trader) (discovered : Dict String String) : Trader :=
  let rolled := tr.rolledUniverse discovered
  { tr with activeTickers := rolled, activeSet := rolled.keys }

/-- Then details and snapshots are fetched of what was added. -/
def fetchAdded (env : Env) (out : Outside) (tr : Trader) (discovered : Dict String String) : Trader :=
  let added := tr.addedEntries out discovered
  Trader.fetchInitialSnapshots out added
    (Trader.fetchMarketDetails env out added (rolledOver tr discovered))

/-- How a refresh ends: with nothing found, with nothing to add or drop, or with the universe rolled
    over and the ladders built again. -/
inductive Refreshed (env : Env) (out : Outside) (tr : Trader) : Trader → Prop where
  | unfound (nothing : Trader.discoverUniverse env out = ∅) : Refreshed env out tr tr
  | unchanged (noneAdded : tr.addedEntries out (Trader.discoverUniverse env out) = [])
      (noneDropped : ∀ ticker ∈ tr.activeTickers.keys,
        tr.prunable (Trader.discoverUniverse env out) ticker = false) : Refreshed env out tr tr
  | rolled (something : Trader.discoverUniverse env out ≠ ∅) (ladders : Ladders) :
      Refreshed env out tr
        { fetchAdded env out tr (Trader.discoverUniverse env out) with ladders }

theorem refreshMarkets_refreshed (env : Env) (out : Outside) (tr : Trader) :
    Refreshed env out tr (tr.refreshMarkets env out) := by
  unfold Trader.refreshMarkets
  dsimp only
  split_ifs with nothing same
  · exact .unfound nothing
  · exact .unchanged same.1 same.2
  · exact .rolled nothing _

/-- A refresh stays within a preorder that listing markets anew stays within, and reading the details
    and the snapshot of one market. -/
theorem refreshMarkets_related {R : Trader → Trader → Prop} (refl : ∀ tr, R tr tr)
    (trans : ∀ a b c, R a b → R b c → R a c) {env : Env} {out : Outside}
    (lists : ∀ (tr : Trader) activeTickers activeSet ladders,
      R tr { tr with activeTickers, activeSet, ladders })
    (details : ∀ tr entry, R tr (Trader.fetchDetails env out tr entry))
    (snapshots : ∀ tr entry, R tr (Trader.fetchSnapshot out tr entry)) (tr : Trader) :
    R tr (tr.refreshMarkets env out) := by
  have ends := refreshMarkets_refreshed env out tr
  generalize tr.refreshMarkets env out = tr' at ends ⊢
  cases ends with
  | unfound _ => exact refl tr
  | unchanged _ _ => exact refl tr
  | rolled _ ladders =>
    let discovered := Trader.discoverUniverse env out
    have swapped : R tr (rolledOver tr discovered) := lists tr _ _ tr.ladders
    have detailed := run_related refl trans details (rolledOver tr discovered)
      (tr.addedEntries out discovered)
    have fetched : R _ (fetchAdded env out tr discovered) :=
      run_related refl trans snapshots _ (tr.addedEntries out discovered)
    exact trans _ _ _ (trans _ _ _ (trans _ _ _ swapped detailed) fetched) (lists _ _ _ ladders)

theorem refreshMarkets_cases (env : Env) (out : Outside) (tr : Trader) :
    let discovered := Trader.discoverUniverse env out
    (tr.refreshMarkets env out = tr ∧ (discovered = ∅ ∨
      ∀ ticker ∈ tr.activeTickers.keys, tr.prunable discovered ticker = false)) ∨
    (discovered ≠ ∅ ∧ Rolled tr (tr.refreshMarkets env out) ∧
      (tr.refreshMarkets env out).activeTickers = tr.rolledUniverse discovered) := by
  intro discovered
  have ends := refreshMarkets_refreshed env out tr
  generalize tr.refreshMarkets env out = tr' at ends ⊢
  cases ends with
  | unfound nothing => exact Or.inl ⟨rfl, Or.inl nothing⟩
  | unchanged _ kept => exact Or.inl ⟨rfl, Or.inr kept⟩
  | rolled something ladders =>
    refine Or.inr ⟨something, ?_⟩
    have rolls := (refetch_fetchMarketDetails env out (tr.addedEntries out discovered)
      (rolledOver tr discovered)).trans
      (refetch_fetchInitialSnapshots out (tr.addedEntries out discovered) _)
    unfold fetchAdded
    obtain ⟨⟨⟨state, checks, only⟩, quiet⟩, ids⟩ := rolls
    rw [only] at quiet ids ⊢
    exact ⟨⟨⟨_, _, _, _, _, rfl⟩, quiet, ids⟩, rfl⟩

theorem recordedIds_startup (env : Env) (cfg : Config) (out : Outside) (ticker : String) :
    (Trader.startup env cfg out).state.recordedIds ticker = [] := by
  let listed := (Trader.start cfg out.epoch).discoverMarkets env out
  -- market details, position sync, snapshots: none of them records an id
  have fetched := (refetch_fetchMarketDetails env out (listed.allEntries out) listed).ids ticker
  have synced := (bookkeeping_syncPositions out _).quiet.ids_nil (fetched.trans rfl)
  exact ((refetch_fetchInitialSnapshots out _ _).ids ticker).trans synced

theorem spotGateOn_startup (env : Env) (cfg : Config) (out : Outside) :
    (Trader.startup env cfg out).spotGateOn = false := by
  let listed := (Trader.start cfg out.epoch).discoverMarkets env out
  have fetched := (refetch_fetchMarketDetails env out (listed.allEntries out) listed).books.spotGateOn
  have synced := (bookkeeping_syncPositions out _).spotGateOn.trans (fetched.trans rfl)
  exact (refetch_fetchInitialSnapshots out _ _).books.spotGateOn.trans synced

theorem running_startup (env : Env) (cfg : Config) (out : Outside) :
    (Trader.startup env cfg out).running = true := by
  let listed := (Trader.start cfg out.epoch).discoverMarkets env out
  have fetched := (refetch_fetchMarketDetails env out (listed.allEntries out) listed).books.running
  have synced := (bookkeeping_syncPositions out _).running.trans (fetched.trans rfl)
  exact (refetch_fetchInitialSnapshots out _ _).books.running.trans synced

/-! ## Exits and unwinds -/

/-- The traders differ in the exit timers alone. -/
def Timers (tr tr' : Trader) : Prop :=
  ∃ spotUnwindNext spotUnwindFiredUntil exitRetries,
    tr' = { tr with spotUnwindNext, spotUnwindFiredUntil, exitRetries }

namespace Timers

theorem refl (tr : Trader) : Timers tr tr := ⟨_, _, _, rfl⟩

theorem trans {a b c : Trader} (first : Timers a b) (second : Timers b c) : Timers a c := by
  obtain ⟨_, _, _, rfl⟩ := first
  obtain ⟨_, _, _, rfl⟩ := second
  exact ⟨_, _, _, rfl⟩

theorem state {tr tr' : Trader} (timers : Timers tr tr') : tr'.state = tr.state := by
  obtain ⟨_, _, _, rfl⟩ := timers
  rfl

end Timers

theorem visitAll_related {R : Trader → Trader → Prop} (refl : ∀ tr, R tr tr)
    (trans : ∀ a b c, R a b → R b c → R a c) {visit : String → Trader → Outcome}
    (each : ∀ ticker tr, R tr (visit ticker tr).trader) (tickers : List String) (tr : Trader) :
    R tr (visitAll visit tickers tr).trader := by
  induction tickers generalizing tr with
  | nil => exact refl tr
  | cons ticker tickers inductionHypothesis =>
    exact trans _ _ _ (each ticker tr) (inductionHypothesis (visit ticker tr).trader)

theorem timers_visitUnwind (out : Outside) (ticker : String) (tr : Trader) :
    Timers tr (tr.visitUnwind out ticker).trader := by
  unfold Trader.visitUnwind
  split_ifs
  · exact Timers.refl tr
  · dsimp only
    split
    · exact ⟨_, _, _, rfl⟩
    · exact ⟨_, _, _, rfl⟩

theorem timers_checkSpotUnwind (out : Outside) (tr : Trader) :
    Timers tr (tr.checkSpotUnwind out).trader := by
  unfold Trader.checkSpotUnwind
  split_ifs
  · exact Timers.refl tr
  · exact visitAll_related Timers.refl (fun _ _ _ => Timers.trans) (timers_visitUnwind out) _ tr

theorem timers_visitExit (out : Outside) (ticker : String) (tr : Trader) :
    Timers tr (tr.visitExit out ticker).trader := by
  unfold Trader.visitExit
  split_ifs
  · exact Timers.refl tr
  · split
    · exact Timers.refl tr
    · split
      · exact Timers.refl tr
      · dsimp only
        split_ifs
        · exact Timers.refl tr
        · exact ⟨_, _, _, rfl⟩
        · exact ⟨_, _, _, rfl⟩

theorem timers_checkExits (out : Outside) (tr : Trader) :
    Timers tr (tr.checkExits out).trader :=
  Timers.trans ⟨_, _, _, rfl⟩
    (visitAll_related Timers.refl (fun _ _ _ => Timers.trans) (timers_visitExit out) _ _)

/-! ## The spot gate -/

theorem lookup_cancelSpotBoundQuotes (out : Outside) (tr : Trader) (ticker : String) :
    (tr.cancelSpotBoundQuotes out).trader.state.tickers.lookup ticker =
      (tr.state.tickers.lookup ticker).map fun ts =>
        if ts.category ∈ tr.spotBound then { ts with bidOrderId := none, askOrderId := none }
        else ts := Dict.lookup_mapValues _ _ _

theorem recordedIds_cancelSpotBoundQuotes (out : Outside) (tr : Trader) (ticker : String) :
    (tr.cancelSpotBoundQuotes out).trader.state.recordedIds ticker =
      if tr.isSpotBound ticker then [] else tr.state.recordedIds ticker := by
  unfold TraderState.recordedIds Trader.isSpotBound
  rw [lookup_cancelSpotBoundQuotes]
  cases tr.state.tickers.lookup ticker with
  | none => simp
  | some ts => by_cases bound : ts.category ∈ tr.spotBound <;> simp [bound, TickerState.orderIds]

theorem bookkeeping_cancelSpotBoundQuotes (out : Outside) (tr : Trader) :
    Bookkeeping tr (tr.cancelSpotBoundQuotes out).trader where
  only := ⟨_, _, rfl⟩
  quiet :=
    { ids := fun ticker => by
        rw [recordedIds_cancelSpotBoundQuotes]
        split_ifs
        · exact List.nil_sublist _
        · exact List.Sublist.refl _
      categories := fun ticker ts known => by
        rw [lookup_cancelSpotBoundQuotes, known]
        refine ⟨_, rfl, ?_⟩
        dsimp only
        split_ifs <;> rfl }

/-- Evaluating the gate: with a spot-bound category, the latch takes the fresh value, and on its
    rising edge the quotes are cancelled. -/
theorem updateSpotGate_cases (out : Outside) (tr : Trader) :
    (tr.spotBound = ∅ ∧ tr.updateSpotGate out = ⟨tr, []⟩) ∨
    (tr.spotGated out.mono = true ∧ tr.spotGateOn = false ∧
      tr.updateSpotGate out =
        { tr.cancelSpotBoundQuotes out with
          trader := { (tr.cancelSpotBoundQuotes out).trader with spotGateOn := true } }) ∨
    ((tr.spotGated out.mono = true → tr.spotGateOn = true) ∧
      tr.updateSpotGate out =
        ⟨{ tr with spotGateOn := tr.spotGated out.mono }, []⟩) := by
  unfold Trader.updateSpotGate
  split_ifs with unbound
  · exact Or.inl ⟨unbound, rfl⟩
  · refine Or.inr ?_
    -- two closed values differ from the rising edge by the latch alone
    cases gated : tr.spotGated out.mono <;> cases latched : tr.spotGateOn <;> simp

/-- The gate touches no market but for its recorded ids. -/
theorem lookup_updateSpotGate (out : Outside) (tr : Trader) : ∃ clear : TickerState → TickerState,
    (∀ ts, ∃ bidOrderId askOrderId, clear ts = { ts with bidOrderId, askOrderId }) ∧
    ∀ ticker, (tr.updateSpotGate out).trader.state.tickers.lookup ticker =
      (tr.state.tickers.lookup ticker).map clear := by
  obtain ⟨_, same⟩ | ⟨_, _, rises⟩ | ⟨_, stays⟩ := updateSpotGate_cases out tr
  · rw [same]
    exact ⟨id, fun _ => ⟨_, _, rfl⟩, fun _ => (congrFun Option.map_id _).symm⟩
  · rw [rises]
    refine ⟨_, fun ts => ?_, lookup_cancelSpotBoundQuotes out tr⟩
    split_ifs
    · exact ⟨_, _, rfl⟩
    · exact ⟨_, _, rfl⟩
  · rw [stays]
    exact ⟨id, fun _ => ⟨_, _, rfl⟩, fun _ => (congrFun Option.map_id _).symm⟩

/-- So a market has what it had besides its recorded ids. -/
theorem map_lookup_updateSpotGate {β : Type} (field : TickerState → β)
    (kept : ∀ ts bidOrderId askOrderId, field { ts with bidOrderId, askOrderId } = field ts)
    (out : Outside) (tr : Trader) (ticker : String) :
    ((tr.updateSpotGate out).trader.state.tickers.lookup ticker).map field =
      (tr.state.tickers.lookup ticker).map field := by
  obtain ⟨clear, clears, cleared⟩ := lookup_updateSpotGate out tr
  rw [cleared, Option.map_map]
  congr 1
  funext ts
  obtain ⟨_, _, cleared⟩ := clears ts
  rw [Function.comp_apply, cleared, kept]

theorem positionOf_updateSpotGate (out : Outside) (tr : Trader) (ticker : String) :
    (tr.updateSpotGate out).trader.positionOf ticker = tr.positionOf ticker :=
  congrArg (Option.getD · 0)
    (map_lookup_updateSpotGate TickerState.position (fun _ _ _ => rfl) out tr ticker)

theorem updateSpotGate_only (out : Outside) (tr : Trader) : ∃ state spotGateOn,
    (tr.updateSpotGate out).trader = { tr with state, spotGateOn } := by
  obtain ⟨_, same⟩ | ⟨_, _, rises⟩ | ⟨_, stays⟩ := updateSpotGate_cases out tr
  · exact ⟨_, _, by rw [same]⟩
  · exact ⟨_, _, by rw [rises]; rfl⟩
  · exact ⟨_, _, by rw [stays]⟩

theorem calls_updateSpotGate {out : Outside} {tr : Trader} {call : OrderCall}
    (member : call ∈ (tr.updateSpotGate out).calls) : ∃ id reply, call = .cancel id reply := by
  obtain ⟨_, same⟩ | ⟨_, _, rises⟩ | ⟨_, stays⟩ := updateSpotGate_cases out tr
  · rw [same] at member
    cases member
  · rw [rises] at member
    obtain ⟨id, _, rfl⟩ := List.mem_map.mp member
    exact ⟨_, _, rfl⟩
  · rw [stays] at member
    cases member

/-- A spot tick stays within a preorder that moving the feed, the gate and the exit timers stay
    within. -/
theorem onSpotTick_related {R : Trader → Trader → Prop}
    (trans : ∀ a b c, R a b → R b c → R a c) (moves : ∀ (tr : Trader) spot, R tr { tr with spot })
    {out : Outside} (gates : ∀ tr, R tr (tr.updateSpotGate out).trader)
    (times : ∀ {tr tr'}, Timers tr tr' → R tr tr') (env : Env) (price : ℚ) (tr : Trader) :
    R tr (tr.onSpotTick env out price).trader := by
  unfold Trader.onSpotTick
  dsimp only
  split_ifs
  · have gated := trans _ _ _ (moves tr (tr.spot.onTick env.exp price out.mono).1) (gates _)
    exact trans _ _ _ gated (times (timers_checkSpotUnwind out _))
  · exact moves tr _

/-! ## Book updates -/

/-- A book update gets past its first checks: the folded book is valid, the market is not
    throttled and its category not halted. -/
def PassesChecks (out : Outside) (ticker category : String) (msg : Value) (tr : Trader) : Prop :=
  (Trader.foldBook (tr.state.tickerD ticker category).book msg).isValid = true ∧
    1 ≤ out.mono - (tr.state.tickerD ticker category).lastQuoteTime ∧
    category ∉ tr.state.haltedCategories

instance (out : Outside) (ticker category : String) (msg : Value) (tr : Trader) :
    Decidable (PassesChecks out ticker category msg tr) :=
  inferInstanceAs (Decidable (_ ∧ _ ∧ _))

/-- How a book update ends: with the market data folded in, with trading halted, or with a quote
    cycle of an active market whose gate is open. -/
inductive BookOutcome (out : Outside) (ticker : String) (msg : Value) (tr : Trader) :
    Outcome → Prop where
  | kept {tr' : Trader} (books : Bookkeeping tr tr') : BookOutcome out ticker msg tr ⟨tr', []⟩
  | halted {tr' : Trader} (books : Bookkeeping tr tr') :
      BookOutcome out ticker msg tr (tr'.haltAllTrading out)
  | quoted {tr' : Trader} {category : String} (action : Action) (fvShift : ℚ) (allow : Bool × Bool)
      (active : tr.activeTickers.lookup ticker = some category) (books : Bookkeeping tr tr')
      (passes : PassesChecks out ticker category msg tr)
      (sameCategory : (tr'.state.tickerD ticker category).category =
        (tr.state.tickerD ticker category).category)
      (ungated : category ∈ tr.spotBound → tr.spotGated out.mono = false) :
      BookOutcome out ticker msg tr (tr'.quoteCycle out category ticker action fvShift allow)

theorem tickerD_setTicker (s : TraderState) (ticker category : String) (ts : TickerState) :
    (s.setTicker ticker ts).tickerD ticker category = ts := by
  rw [TraderState.tickerD, TraderState.setTicker_tickers, Finmap.lookup_insert, Option.getD_some]

theorem buildObservation_orderIds (ts : TickerState) (mm : MmParams) (nowS nowMono : ℚ) :
    (buildObservation ts mm nowS nowMono).1.orderIds = ts.orderIds ∧
      (buildObservation ts mm nowS nowMono).1.category = ts.category := by
  unfold buildObservation
  split
  · dsimp only
    split_ifs <;> exact ⟨rfl, rfl⟩
  · exact ⟨rfl, rfl⟩

theorem observeAndQuote_outcome (env : Env) (out : Outside) (ticker category : String)
    {msg : Value} (fvShift : ℚ) {tr tr' : Trader} (active : tr.activeTickers.lookup ticker = some category)
    (books : Bookkeeping tr tr') (passes : PassesChecks out ticker category msg tr)
    (sameCategory : (tr'.state.tickerD ticker category).category =
      (tr.state.tickerD ticker category).category)
    (ungated : category ∈ tr.spotBound → tr.spotGated out.mono = false) :
    BookOutcome out ticker msg tr (tr'.observeAndQuote env out ticker category fvShift) := by
  unfold Trader.observeAndQuote
  dsimp only
  obtain ⟨ids, observedCategory⟩ := buildObservation_orderIds (tr'.state.tickerD ticker category)
    tr'.cfg.mm out.epoch out.mono
  have observed := books.trans
    (Bookkeeping.withState (Quiet.setTicker observedCategory (ids ▸ List.Sublist.refl _)))
  split
  · exact .kept observed
  next action _ =>
    refine .quoted action fvShift _ active observed passes ?_ ungated
    rw [tickerD_setTicker, observedCategory, sameCategory]

theorem onBookUpdate_outcome (env : Env) (out : Outside) (ticker : String) (msg : Value)
    (tr : Trader) : BookOutcome out ticker msg tr (tr.onBookUpdate env out ticker msg) := by
  unfold Trader.onBookUpdate
  split
  · exact .kept (Bookkeeping.refl tr)
  next category active =>
    dsimp only
    have folded : Bookkeeping tr
        { tr with
          state := tr.state.setTicker ticker
            { tr.state.tickerD ticker category with
              book := Trader.foldBook (tr.state.tickerD ticker category).book msg } } :=
      Bookkeeping.withState (Quiet.setTicker rfl (List.Sublist.refl _))
    split_ifs with stops
    · exact .kept folded
    · obtain ⟨valid, unthrottled, unhalted⟩ := not_or.mp stops |>.imp_right not_or.mp
      have passes : PassesChecks out ticker category msg tr :=
        ⟨Bool.eq_true_of_not_eq_false valid, not_lt.mp unthrottled, unhalted⟩
      split
      · exact .halted folded
      · exact .kept folded
      · split
        · exact .kept folded
        next fvShift shifted =>
          -- the gate is read after the book was folded, which does not move it
          refine observeAndQuote_outcome env out ticker category fvShift active folded passes ?_ ?_
          · rw [tickerD_setTicker]
          intro bound
          rw [← folded.spotGated]
          unfold Trader.quoteShift at shifted
          rw [if_pos (folded.spotBound ▸ bound)] at shifted
          split_ifs at shifted with gated
          exact Bool.eq_false_iff.mpr gated

/-! ## Quote cycles -/

/-- The plan a quote cycle executes, if any. -/
def planOf (out : Outside) (category ticker : String) (action : Action) (fvShift : ℚ)
    (tr : Trader) : Option QuotePlan :=
  (planQuotes action fvShift (tr.state.tickerD ticker category) tr.cfg.mm
    (((tr.cats.lookup category).map CategoryConfig.maxInventory).getD 5) tr.state.openOrderCount
    tr.state.balanceBackoffUntil out.mono).2

theorem quoteCycle_only (out : Outside) (category ticker : String) (action : Action) (fvShift : ℚ)
    (allow : Bool × Bool) (tr : Trader) : ∃ state,
      (tr.quoteCycle out category ticker action fvShift allow).trader = { tr with state } := by
  unfold Trader.quoteCycle
  dsimp only
  split <;> exact ⟨_, rfl⟩

theorem sendQuoteSide_calls {api : OrderApi} {placed : Bool} {ticker : String} {side : OrderSide}
    {priceCents : ℚ} {size : ℤ} {call : OrderCall}
    (member : call ∈ (sendQuoteSide api placed (quoteRequest ticker side priceCents size)).2) :
    ∃ request reply, call = .place request reply ∧ request.timeInForce = .goodTillCanceled := by
  unfold sendQuoteSide at member
  split_ifs at member
  · rw [List.mem_singleton] at member
    exact ⟨_, _, member, rfl⟩
  · cases member

section QuoteCycle

variable {out : Outside} {category ticker : String} {action : Action} {fvShift : ℚ} {tr : Trader}
  (allow : Bool × Bool)

theorem quoteCycle_of_none (unplanned : planOf out category ticker action fvShift tr = none) :
    (tr.quoteCycle out category ticker action fvShift allow).calls = [] ∧
      ∃ lastQuoteTime, (tr.quoteCycle out category ticker action fvShift allow).trader =
        { tr with
          state := tr.state.setTicker ticker
            { tr.state.tickerD ticker category with lastQuoteTime } } := by
  obtain ⟨lastQuoteTime, clocked⟩ := planQuotes_fst action fvShift
    (tr.state.tickerD ticker category) tr.cfg.mm
    (((tr.cats.lookup category).map CategoryConfig.maxInventory).getD 5) tr.state.openOrderCount
    tr.state.balanceBackoffUntil out.mono
  unfold planOf at unplanned
  unfold Trader.quoteCycle
  dsimp only
  rw [unplanned, clocked]
  exact ⟨rfl, lastQuoteTime, rfl⟩

theorem refetch_of_unplanned (unplanned : planOf out category ticker action fvShift tr = none) :
    Refetch tr (tr.quoteCycle out category ticker action fvShift allow).trader := by
  obtain ⟨_, _, only⟩ := quoteCycle_of_none allow unplanned
  rw [only]
  exact Refetch.setTicker rfl rfl

def bidSide (out : Outside) (ticker : String) (allow : Bool × Bool) (plan : QuotePlan) :
    Option SendResult × List OrderCall :=
  sendQuoteSide out.api.toOrderApi (plan.placeBid && allow.1)
    (quoteRequest ticker .buy plan.bidCents plan.bidSize)

def askSide (out : Outside) (ticker : String) (allow : Bool × Bool) (plan : QuotePlan) :
    Option SendResult × List OrderCall :=
  sendQuoteSide out.api.toOrderApi (plan.placeAsk && allow.2)
    (quoteRequest ticker .sell plan.askCents plan.askSize)

/-- An executed plan cancels what it lists, places its sides, and records what they left. -/
theorem quoteCycle_of_some {plan : QuotePlan}
    (planned : planOf out category ticker action fvShift tr = some plan) :
    (tr.quoteCycle out category ticker action fvShift allow).calls =
      ((plan.cancelIds.take 2).map fun id => OrderCall.cancel id (out.api.cancelOrder id)) ++
        (bidSide out ticker allow plan).2 ++ (askSide out ticker allow plan).2 ∧
    ∃ state ts, (tr.quoteCycle out category ticker action fvShift allow).trader =
        { tr with state } ∧
      state.tickers = tr.state.tickers.insert ticker ts ∧
      ts.category = (tr.state.tickerD ticker category).category ∧
      ts.position = (tr.state.tickerD ticker category).position ∧
      ts.bidOrderId = restingId (bidSide out ticker allow plan).1 ∧
      ts.askOrderId = restingId (askSide out ticker allow plan).1 ∧ ts.everQuoted = true := by
  obtain ⟨lastQuoteTime, clocked⟩ := planQuotes_fst action fvShift
    (tr.state.tickerD ticker category) tr.cfg.mm
    (((tr.cats.lookup category).map CategoryConfig.maxInventory).getD 5) tr.state.openOrderCount
    tr.state.balanceBackoffUntil out.mono
  unfold planOf at planned
  unfold Trader.quoteCycle
  dsimp only
  rw [planned, clocked]
  refine ⟨rfl, _, requoted plan (bidSide out ticker allow plan).1 (askSide out ticker allow plan).1
    { tr.state.tickerD ticker category with lastQuoteTime }, rfl, ?_, rfl, rfl, rfl, rfl, rfl⟩
  rw [applyQuotePlan_tickers, TraderState.setTicker_tickers, Finmap.insert_insert,
    TraderState.tickerD, TraderState.setTicker_tickers, Finmap.lookup_insert]
  rfl

theorem planOf_some {plan : QuotePlan}
    (planned : planOf out category ticker action fvShift tr = some plan) :
    plan.cancelIds = tr.state.recordedIds ticker ∧
      ∃ bid ask lastQuoteTime, plan = sizedPlan
        { tr.state.tickerD ticker category with lastQuoteTime } tr.cfg.mm
        (((tr.cats.lookup category).map CategoryConfig.maxInventory).getD 5) bid ask := by
  obtain ⟨_, _, quotes, _, _, _, _, _, _, _, _, _, sized⟩ :=
    decideQuotes_some (planQuotes_some planned)
  refine ⟨?_, quotes.1, quotes.2, out.mono, sized⟩
  rw [sized, recordedIds_eq _ ticker category]
  rfl

theorem planOf_budget {plan : QuotePlan}
    (planned : planOf out category ticker action fvShift tr = some plan) :
    tr.state.openOrderCount < tr.cfg.mm.maxOpenOrders ∨
      (tr.state.tickerD ticker category).everQuoted = true := by
  obtain ⟨_, _, _, _, _, _, _, _, budget, _⟩ := decideQuotes_some (planQuotes_some planned)
  by_cases within : tr.state.openOrderCount < tr.cfg.mm.maxOpenOrders
  · exact Or.inl within
  · exact Or.inr (Bool.eq_true_of_not_eq_false fun never =>
      budget ⟨Nat.le_of_not_lt within, never⟩)

/-- The calls of a quote cycle are those of its plan: the cancels, and its two sides. -/
theorem mem_quoteCycle_calls {call : OrderCall}
    (member : call ∈ (tr.quoteCycle out category ticker action fvShift allow).calls) :
    ∃ plan, planOf out category ticker action fvShift tr = some plan ∧
      ((∃ id reply, call = .cancel id reply) ∨ call ∈ (bidSide out ticker allow plan).2 ∨
        call ∈ (askSide out ticker allow plan).2) := by
  cases planned : planOf out category ticker action fvShift tr with
  | none =>
    rw [(quoteCycle_of_none allow planned).1] at member
    cases member
  | some plan =>
    rw [(quoteCycle_of_some allow planned).1] at member
    refine ⟨plan, rfl, ?_⟩
    rcases List.mem_append.mp member with earlier | asks
    · rcases List.mem_append.mp earlier with cancels | bids
      · obtain ⟨id, _, rfl⟩ := List.mem_map.mp cancels
        exact Or.inl ⟨_, _, rfl⟩
      · exact Or.inr (Or.inl bids)
    · exact Or.inr (Or.inr asks)

/-- One side of a plan, and whether it is to be placed. -/
def sideRequest (ticker : String) (plan : QuotePlan) : OrderSide → OrderRequest
  | .buy => quoteRequest ticker .buy plan.bidCents plan.bidSize
  | .sell => quoteRequest ticker .sell plan.askCents plan.askSize

def sideAllowed (plan : QuotePlan) (allow : Bool × Bool) : OrderSide → Bool
  | .buy => plan.placeBid && allow.1
  | .sell => plan.placeAsk && allow.2

@[simp] theorem sideRequest_ticker (ticker : String) (plan : QuotePlan) (side : OrderSide) :
    (sideRequest ticker plan side).ticker = ticker := by
  cases side <;> rfl

theorem place_sendQuoteSide {api : OrderApi} {placed : Bool} {sent request : OrderRequest}
    {reply : Except String Value}
    (member : OrderCall.place request reply ∈ (sendQuoteSide api placed sent).2) :
    placed = true ∧ request = sent := by
  unfold sendQuoteSide at member
  split_ifs at member with places
  · exact ⟨places, (OrderCall.place.inj (List.mem_singleton.mp member)).1⟩
  · cases member

/-- An order that a quote cycle places is a side of its plan. -/
theorem place_quoteCycle {request : OrderRequest} {reply : Except String Value}
    (member : OrderCall.place request reply ∈
      (tr.quoteCycle out category ticker action fvShift allow).calls) :
    ∃ plan side, planOf out category ticker action fvShift tr = some plan ∧
      sideAllowed plan allow side = true ∧ request = sideRequest ticker plan side := by
  obtain ⟨plan, planned, cancels | bids | asks⟩ := mem_quoteCycle_calls allow member
  · obtain ⟨_, _, contradiction⟩ := cancels
    cases contradiction
  · obtain ⟨allowed, rfl⟩ := place_sendQuoteSide bids
    exact ⟨plan, .buy, planned, allowed, rfl⟩
  · obtain ⟨allowed, rfl⟩ := place_sendQuoteSide asks
    exact ⟨plan, .sell, planned, allowed, rfl⟩

theorem quoteCycle_calls : ∀ call ∈ (tr.quoteCycle out category ticker action fvShift allow).calls,
    (∃ id reply, call = .cancel id reply) ∨
      ∃ request reply, call = .place request reply ∧ request.timeInForce = .goodTillCanceled := by
  intro call member
  obtain ⟨plan, _, cancels | bids | asks⟩ := mem_quoteCycle_calls allow member
  · exact Or.inl cancels
  · exact Or.inr (sendQuoteSide_calls bids)
  · exact Or.inr (sendQuoteSide_calls asks)

end QuoteCycle

/-! ## A market to run on -/

/-- The exponential series to its ninth term. -/
def expSeries (x : ℚ) : ℚ := ((List.range 9).map fun n => x ^ n / (n.factorial : ℚ)).sum

def marketEnv (policy : Option Action) : Env where
  policies := Finmap.singleton "KXBTCD" fun _ => policy
  exp := expSeries
  parseRfc3339 _ := none
  localDay _ := 0

/-- This policy quotes 42 to 48 cents around a mid of 45. -/
def narrow : Action := ⟨-9 / 10, 0⟩

def marketCfg (spotFeed : Option String) : Config where
  live := { maxDailyLoss := 100, maxPositionValue := 100, stopLossThreshold := -100 }
  categories := [{ name := "KXBTCD", spotFeed }]

def snapshot (yes no : ℚ) : Value :=
  .object [("yes", .array [.array [.number yes, .number 10]]),
    ("no", .array [.array [.number no, .number 10]])]

/-- An exchange that answers placements with the given ids, and every cancel with a success. -/
def answering (bid ask : String) (mono : ℚ) : Outside where
  api :=
    { MarketApi.down with
      placeLimitOrder := fun request =>
        .ok (.object [("order_id", .string (if request.side = .buy then bid else ask))])
      cancelOrder := fun _ => .ok .null }
  hash := HashOrder.sorted
  mono
  epoch := mono

/-- The same, with markets to discover. -/
def listing (tickers : List String) (mono : ℚ) : Outside :=
  { answering "b1" "a1" mono with
    api :=
      { (answering "b1" "a1" mono).api with
        getMarkets := fun _ _ _ => .ok (.object [("markets",
          .array (tickers.map fun ticker => .object [("ticker", .string ticker)]))]) } }

end KalshiMm.Verified
