import KalshiMm.Verified.Backfill
import KalshiMm.Verified.ExactlyOnce
import KalshiMm.Verified.SyncConfluence

/-!
# Restarts

Position and cost basis live in memory alone.  A restart reads the positions from the exchange and
replays the fills of each market that it holds; where that gives back what the fills of all earlier
processes came to, the bot goes on as if it had never been stopped.
-/

namespace KalshiMm.Verified.Restarts

open KalshiMm.Lib KalshiMm.Model
open Replay (foldFill replayEntryPrice_eq run_foldFill_fst)
open Backfill (Serves Chronological marksOf fillsOf replayed entryOf)
open Once (Delivery deliver fillIdOf Deduped)
open SyncConfluence (Ledger ledgerOf ledgerOf_eq ledgerOf_of_insert Agrees)

/-- The ledger of a market that this process has not traded yet. -/
def restored (basis : ℤ × Option ℚ) : Ledger := { position := basis.1, entryPrice := basis.2 }

/-! ## A sync of an untraded market -/

section Sync

variable {out : Outside} {ticker : String} {tr : Trader}

theorem ledgerOf_syncTicker {exchange : Dict String ℤ} (untraded : ledgerOf tr.state ticker = {})
    (late : 10 ≤ out.epoch) : ledgerOf (Trader.syncTicker out exchange tr ticker).state ticker =
      restored ((exchange.lookup ticker).getD 0, none) := by
  rw [ledgerOf_eq tr.state ticker ((tr.activeTickers.lookup ticker).getD "")] at untraded
  unfold Trader.syncTicker
  dsimp only
  generalize tr.state.tickerD ticker ((tr.activeTickers.lookup ticker).getD "") = ts at untraded
  simp only [SyncConfluence.ledger, Ledger.mk.injEq] at untraded
  obtain ⟨flat, unknown, nothing, unfilled⟩ := untraded
  rw [setTicker_setTicker, flat, unfilled]
  split_ifs with level vanished early
  · rw [← level, ledgerOf_of_insert rfl, if_pos rfl, SyncConfluence.ledger, flat, unknown, nothing,
      unfilled]
    rfl
  · exact absurd vanished.1.symm level
  · exact absurd early (by linarith)
  all_goals
    rw [ledgerOf_of_insert rfl, if_pos rfl]
    simp only [SyncConfluence.ledger, restored, unknown, nothing]

/-- A backfill that replays the market's history to its position restores the entry price. -/
theorem ledgerOf_backfillEntryPrice {basis : ℤ × Option ℚ} {history : List Value}
    (held : basis.1 ≠ 0) (known : basis.2.isSome ↔ basis.1 ≠ 0)
    (synced : ledgerOf tr.state ticker = restored (basis.1, none))
    (served : Serves out ticker history) (replays : replayEntryPrice (replayed history) = basis) :
    ledgerOf (tr.backfillEntryPrice out ticker).state ticker = restored basis := by
  obtain ⟨position, entryPrice⟩ := basis
  obtain ⟨entry, rfl⟩ := Option.isSome_iff_exists.mp (known.mpr held)
  cases found : tr.state.tickers.lookup ticker with
  | none =>
    rw [ledgerOf, found] at synced
    exact absurd (congrArg Ledger.position synced).symm held
  | some ts =>
    rw [ledgerOf, found] at synced
    simp only [Option.map_some, Option.getD_some, SyncConfluence.ledger, restored,
      Ledger.mk.injEq] at synced
    obtain ⟨rfl, unknown, nothing, unfilled⟩ := synced
    have rebuilt := Backfill.entryOf_backfill_of_replay served found replays
    obtain same | ⟨ts', entry', _, found', _, written⟩ := backfillEntryPrice_cases out ticker tr
    · rw [same, entryOf, found, Option.bind_some, unknown] at rebuilt
      cases rebuilt
    · cases found.symm.trans found'
      rw [written] at rebuilt ⊢
      rw [entryOf, TraderState.setTicker_tickers, Finmap.lookup_insert] at rebuilt
      rw [ledgerOf_of_insert rfl, if_pos rfl]
      simp only [SyncConfluence.ledger, restored, nothing, unfilled]
      exact congrArg (fun price => ({ position := ts.position, entryPrice := price } : Ledger))
        rebuilt

/-- A walk over tickers that meets the market at most once, as this market sees it. -/
theorem ledgerOf_visits {visit : Trader → String → Trader}
    (elsewhere : ∀ s other, other ≠ ticker →
      ledgerOf (visit s other).state ticker = ledgerOf s.state ticker)
    {tickers : List String} (nodup : tickers.Nodup) (tr : Trader) :
    (ticker ∉ tickers →
      ledgerOf (tickers.foldl visit tr).state ticker = ledgerOf tr.state ticker) ∧
    (ticker ∈ tickers → ∃ reached : Trader,
      ledgerOf reached.state ticker = ledgerOf tr.state ticker ∧
        ledgerOf (tickers.foldl visit tr).state ticker =
          ledgerOf (visit reached ticker).state ticker) := by
  have trans (a b c : Trader) (first : ledgerOf b.state ticker = ledgerOf a.state ticker)
      (second : ledgerOf c.state ticker = ledgerOf b.state ticker) :
      ledgerOf c.state ticker = ledgerOf a.state ticker := second.trans first
  exact ⟨fun absent => run_unvisited (R := fun a b : Trader =>
      ledgerOf b.state ticker = ledgerOf a.state ticker) (fun _ => rfl) trans elsewhere absent tr,
    fun member => run_visited (R := fun a b : Trader =>
      ledgerOf b.state ticker = ledgerOf a.state ticker) (fun _ => rfl) trans elsewhere nodup
      member tr⟩

/-- The fold of the source over the tickers of a sync, as this market sees it. -/
theorem ledgerOf_syncTickers {exchange : Dict String ℤ} {all : List String} (nodup : all.Nodup)
    (covers : (exchange.lookup ticker).getD 0 ≠ 0 → ticker ∈ all)
    (untraded : ledgerOf tr.state ticker = {}) (late : 10 ≤ out.epoch) :
    ledgerOf (all.foldl (Trader.syncTicker out exchange) tr).state ticker =
        restored ((exchange.lookup ticker).getD 0, none) := by
  obtain ⟨unlisted, visited⟩ := ledgerOf_visits (fun s other differs => by
    have agrees : Agrees {ticker} s.state (Trader.syncTicker out exchange s other).state :=
      (SyncConfluence.agrees_syncTicker exchange s other fun same => absurd same differs).1
    exact agrees.ledgers ticker rfl) nodup tr
  by_cases listed : ticker ∈ all
  · obtain ⟨reached, before, after⟩ := visited listed
    exact after.trans (ledgerOf_syncTicker (before.trans untraded) late)
  · have flat : (exchange.lookup ticker).getD 0 = 0 := not_not.mp (mt covers listed)
    rw [flat]
    exact (unlisted listed).trans untraded

theorem ledgerOf_resolveVanishedPositions {vanished : List String} (nodup : vanished.Nodup)
    (stays : ticker ∉ vanished) (tr : Trader) :
    ledgerOf (tr.resolveVanishedPositions out vanished).state ticker =
      ledgerOf tr.state ticker := by
  unfold Trader.resolveVanishedPositions
  split
  · rfl
  next resp _ =>
    have agrees : Agrees {ticker} tr.state
        (vanished.foldl (Trader.resolveVanished (Trader.settledResults resp)) tr).state := by
      refine SyncConfluence.agrees_resolveAll nodup tr ?_
      rintro other member rfl
      exact absurd member stays
    exact agrees.ledgers ticker rfl

/-- The backfills of a sync, as this market sees them. -/
theorem ledgerOf_backfills {basis : ℤ × Option ℚ} {needs : List String} (nodup : needs.Nodup)
    (needed : ticker ∈ needs ↔ basis.1 ≠ 0) (known : basis.2.isSome ↔ basis.1 ≠ 0)
    (synced : ledgerOf tr.state ticker = restored (basis.1, none))
    (rebuilds : basis.1 ≠ 0 →
      ∃ history, Serves out ticker history ∧ replayEntryPrice (replayed history) = basis) :
    ledgerOf (needs.foldl (fun tr ticker => tr.backfillEntryPrice out ticker) tr).state ticker =
      restored basis := by
  obtain ⟨unlisted, visited⟩ := ledgerOf_visits (fun s other differs => by
    have outside : other ∉ ({ticker} : Set String) := differs
    have agrees : Agrees {ticker} s.state (s.backfillEntryPrice out other).state :=
      SyncConfluence.agrees_backfillEntryPrice outside s
    exact agrees.ledgers ticker rfl) nodup tr
  by_cases held : basis.1 = 0
  · have unset : basis.2 = none := by
      rw [← Option.not_isSome_iff_eq_none, known]
      exact fun open_ => open_ held
    rw [restored, unset]
    exact (unlisted fun member => needed.mp member held).trans synced
  · obtain ⟨history, served, replays⟩ := rebuilds held
    obtain ⟨reached, before, after⟩ := visited (needed.mpr held)
    exact after.trans
      (ledgerOf_backfillEntryPrice held known (before.trans synced) served replays)

/-- A sync gives an untraded market the exchange's position, and its cost basis where the history
    of the market's fills comes to that position. -/
theorem ledgerOf_syncPositions {basis : ℤ × Option ℚ} {resp : Value}
    (untraded : ledgerOf tr.state ticker = {}) (late : 10 ≤ out.epoch)
    (served : out.api.getPositions = .ok resp)
    (holds : ((parsePositions resp).lookup ticker).getD 0 = basis.1)
    (known : basis.2.isSome ↔ basis.1 ≠ 0)
    (rebuilds : basis.1 ≠ 0 → tr.isActive ticker = true ∧
      ∃ history, Serves out ticker history ∧ replayEntryPrice (replayed history) = basis) :
    ledgerOf (tr.syncPositions out).state ticker = restored basis := by
  have flat : tr.positionOf ticker = 0 := by
    rw [SyncConfluence.positionOf_eq_ledger, untraded]
  unfold Trader.syncPositions
  rw [served]
  dsimp only
  generalize listing : tr.syncKeys out (parsePositions resp) = all
  have nodup : all.Nodup := listing ▸ out.hash.nodup _
  have covers : ((parsePositions resp).lookup ticker).getD 0 ≠ 0 → ticker ∈ all := by
    intro held
    rw [← listing]
    refine (out.hash.mem _ _).mpr (Finset.mem_union_left _ (Finmap.mem_keys.mpr ?_))
    by_contra absent
    rw [Finmap.lookup_eq_none.mpr absent] at held
    exact held rfl
  -- a market that is not held cannot have vanished
  have stays : ticker ∉ all.filter fun ticker =>
      tr.vanishes ticker (((parsePositions resp).lookup ticker).getD 0) := by
    intro member
    have vanishes := (List.mem_filter.mp member).2
    simp only [Trader.vanishes, flat, Bool.and_eq_true, decide_eq_true_eq] at vanishes
    exact vanishes.1.1 vanishes.1.2.symm
  have corrected := ledgerOf_syncTickers nodup covers untraded late
  rw [holds] at corrected
  have books : Bookkeeping tr (all.foldl (Trader.syncTicker out (parsePositions resp)) tr) :=
    run_related Bookkeeping.refl (fun _ _ _ => Bookkeeping.trans)
      (bookkeeping_syncTicker out (parsePositions resp)) tr all
  generalize all.foldl (Trader.syncTicker out (parsePositions resp)) tr = synced
    at corrected books ⊢
  have unrepeated := nodup.filter fun ticker =>
    tr.vanishes ticker (((parsePositions resp).lookup ticker).getD 0)
  generalize all.filter _ = vanished at stays unrepeated ⊢
  have resolved : ledgerOf (if vanished = [] then synced
      else synced.resolveVanishedPositions out vanished).state ticker =
        restored (basis.1, none) := by
    split_ifs
    · exact corrected
    · exact (ledgerOf_resolveVanishedPositions unrepeated stays synced).trans corrected
  have books' : Bookkeeping tr (if vanished = [] then synced
      else synced.resolveVanishedPositions out vanished) := by
    split_ifs
    · exact books
    · exact books.trans (bookkeeping_resolveVanishedPositions out vanished synced)
  generalize (if vanished = [] then synced else synced.resolveVanishedPositions out vanished) =
    looked at resolved books' ⊢
  refine ledgerOf_backfills ((out.hash.nodup _).filter _) ?_ known resolved
    fun held => (rebuilds held).2
  have needs : looked.needsBackfill ticker = (decide (basis.1 ≠ 0) && tr.isActive ticker) := by
    obtain ⟨_, _, only⟩ := books'.only
    rw [SyncConfluence.needsBackfill_eq, resolved, only]
    simp only [restored, and_true, Trader.isActive]
  rw [List.mem_filter, needs, Bool.and_eq_true, decide_eq_true_eq]
  refine ⟨fun needed => needed.2.1, fun held => ⟨?_, held, (rebuilds held).1⟩⟩
  refine (out.hash.mem _ _).mpr (Finmap.mem_keys.mpr ?_)
  by_contra unknown
  rw [ledgerOf, Finmap.lookup_eq_none.mpr unknown] at resolved
  exact held (congrArg Ledger.position resolved).symm

end Sync

/-! ## Startup -/

theorem agrees_fetchDetails (env : Env) (out : Outside) (tr : Trader) (entry : String × String) :
    Agrees Set.univ tr.state (Trader.fetchDetails env out tr entry).state := by
  refine Agrees.of_kept (TraderState.setTicker_tickers _ _ _) ?_ ⟨rfl, rfl⟩ ⟨rfl, rfl⟩
  rw [ledgerOf_eq _ _ entry.2]
  unfold Trader.readDetails
  split <;> rfl

theorem agrees_fetchSnapshot (out : Outside) (tr : Trader) (entry : String × String) :
    Agrees Set.univ tr.state (Trader.fetchSnapshot out tr entry).state := by
  unfold Trader.fetchSnapshot
  dsimp only
  split
  · exact Agrees.refl _
  · refine Agrees.of_kept (TraderState.setTicker_tickers _ _ _) ?_ ⟨rfl, rfl⟩ ⟨rfl, rfl⟩
    rw [ledgerOf_eq _ _ entry.2]
    rfl

/-- Fetching details and snapshots reaches no ledger and no fill seen. -/
theorem agrees_fetched {fetch : Trader → String × String → Trader}
    (each : ∀ tr entry, Agrees Set.univ tr.state (fetch tr entry).state)
    (entries : List (String × String)) (tr : Trader) :
    Agrees Set.univ tr.state (entries.foldl fetch tr).state :=
  run_related (R := fun a b : Trader => Agrees Set.univ a.state b.state) (fun _ => Agrees.refl _)
    (fun _ _ _ => Agrees.trans) each tr entries

/-- A startup's only changes to ledgers and fills seen are those of its sync, which finds no market
    traded, and the listed ones active. -/
theorem startup_synced (env : Env) (cfg : Config) (out : Outside) : ∃ fetched : Trader,
    Agrees Set.univ (TraderState.new out.epoch) fetched.state ∧
      fetched.activeTickers = Trader.discoverUniverse env out ∧
      Agrees Set.univ (fetched.syncPositions out).state (Trader.startup env cfg out).state := by
  let listed := (Trader.start cfg out.epoch).discoverMarkets env out
  let fetched := Trader.fetchMarketDetails env out (listed.allEntries out) listed
  obtain ⟨_, _, only⟩ :=
    (refetch_fetchMarketDetails env out (listed.allEntries out) listed).books.only
  let synced := fetched.syncPositions out
  let built : Trader :=
    { synced with ladders := Ladders.build (out.hash.enumerate synced.activeTickers.keys) }
  refine ⟨fetched, agrees_fetched (agrees_fetchDetails env out) _ listed,
    (congrArg Trader.activeTickers only).trans rfl, ?_⟩
  exact agrees_fetched (agrees_fetchSnapshot out) (built.allEntries out) built

theorem ledgerOf_startup {env : Env} {out : Outside} {ticker : String} {basis : ℤ × Option ℚ}
    {resp : Value} (cfg : Config) (late : 10 ≤ out.epoch) (served : out.api.getPositions = .ok resp)
    (holds : ((parsePositions resp).lookup ticker).getD 0 = basis.1)
    (known : basis.2.isSome ↔ basis.1 ≠ 0)
    (rebuilds : basis.1 ≠ 0 → ticker ∈ Trader.discoverUniverse env out ∧
      ∃ history, Serves out ticker history ∧ replayEntryPrice (replayed history) = basis) :
    ledgerOf (Trader.startup env cfg out).state ticker = restored basis := by
  obtain ⟨fetched, before, active, after⟩ := startup_synced env cfg out
  rw [after.ledgers ticker trivial]
  refine ledgerOf_syncPositions (before.ledgers ticker trivial) late served holds known
    fun held => ?_
  obtain ⟨listed, history⟩ := rebuilds held
  refine ⟨?_, history⟩
  rw [Trader.isActive, active]
  exact decide_eq_true listed

/-- Nothing is remembered of the fills that earlier processes booked. -/
theorem seen_startup (env : Env) (cfg : Config) {out : Outside} {resp : Value}
    (served : out.api.getPositions = .ok resp) :
    (Trader.startup env cfg out).state.fillIds = ∅ ∧
      (Trader.startup env cfg out).state.fillIdFifo = [] := by
  obtain ⟨fetched, before, _, after⟩ := startup_synced env cfg out
  have synced : Agrees ∅ fetched.state (fetched.syncPositions out).state :=
    SyncConfluence.agrees_syncPositions served fun _ member => absurd member (Set.notMem_empty _)
  exact ⟨after.seen.1.trans (synced.seen.1.trans before.seen.1),
    after.seen.2.trans (synced.seen.2.trans before.seen.2)⟩

theorem deduped_of_empty {s : TraderState} (noIds : s.fillIds = ∅) (noQueue : s.fillIdFifo = []) :
    Deduped s := ⟨by rw [noIds, noQueue]; rfl, by rw [noQueue]; exact List.nodup_nil⟩

/-! ## What the fills of a market come to -/

/-- The rows of one market's fills. -/
def historyOf (ticker : String) (rows : List Value) : List Value :=
  rows.filter fun row => (normalizeFill row).any fun nf => nf.ticker = ticker

/-- Position and cost basis after a market's fills, from flat. -/
def basisAfter (ticker : String) (rows : List Value) : ℤ × Option ℚ :=
  replayEntryPrice (fillsOf (historyOf ticker rows))

theorem basisAfter_known (ticker : String) (rows : List Value) :
    (basisAfter ticker rows).2.isSome ↔ (basisAfter ticker rows).1 ≠ 0 := by
  rw [basisAfter, replayEntryPrice_eq]
  refine run_induct (I := fun basis : ℤ × Option ℚ => basis.2.isSome ↔ basis.1 ≠ 0)
    (fun basis nf known => ?_) (by simp)
  exact Pnl.foldEntryPrice_isSome known nf.size nf.priceYes

theorem basisAfter_concat (ticker : String) {row : Value} {nf : NormalizedFill}
    (normal : normalizeFill row = some nf) (rows : List Value) :
    basisAfter ticker (rows ++ [row]) =
      if nf.ticker = ticker then foldFill (basisAfter ticker rows) nf
      else basisAfter ticker rows := by
  simp only [basisAfter, replayEntryPrice_eq, historyOf, fillsOf, List.filter_append,
    List.filterMap_append]
  split_ifs with own
  · rw [List.filter_cons_of_pos (by rw [normal]; exact decide_eq_true own), List.filter_nil,
      List.filterMap_cons_some normal, List.filterMap_nil, run_concat]
  · rw [List.filter_cons_of_neg (by rw [normal]; simpa using own), List.filter_nil,
      List.filterMap_nil, List.append_nil]

def fillIdsOf (rows : List Value) : List String := (fillsOf rows).map NormalizedFill.fillId

/-- Position and cost basis as the account has them. -/
def basisIn (s : TraderState) (ticker : String) : ℤ × Option ℚ :=
  ((ledgerOf s ticker).position, (ledgerOf s ticker).entryPrice)

/-- What a fill realizes against a basis. -/
def gainOn (basis : ℤ × Option ℚ) (nf : NormalizedFill) : ℚ :=
  ({ category := "", position := basis.1, entryPrice := basis.2 } : TickerState).realizedOn nf

section Booked

variable {tr : Trader} {delivery : Delivery} {nf : NormalizedFill}
  (normal : normalizeFill delivery.2 = some nf) (fresh : nf.fillId ∉ tr.state.fillIds)
include normal fresh

theorem deliver_written : ∃ category,
    (deliver tr delivery).state.tickers = tr.state.tickers.insert nf.ticker
      ((tr.state.tickerD nf.ticker category).filled nf delivery.1.epoch) := by
  have ends := processFill_outcome delivery.1 delivery.2 tr
  unfold deliver
  generalize tr.processFill delivery.1 delivery.2 = tr' at ends ⊢
  cases ends with
  | ignored stale => exact absurd (stale nf normal) fresh
  | booked nf' normal' _ _ written =>
    cases normal.symm.trans normal'
    exact ⟨_, written⟩

theorem basisIn_deliver (ticker : String) : basisIn (deliver tr delivery).state ticker =
    if nf.ticker = ticker then foldFill (basisIn tr.state ticker) nf
    else basisIn tr.state ticker := by
  obtain ⟨category, written⟩ := deliver_written normal fresh
  unfold basisIn
  rw [ledgerOf_of_insert written]
  by_cases own : nf.ticker = ticker
  · rw [if_pos own, if_pos own.symm, ← own, ledgerOf_eq tr.state nf.ticker category]
    rfl
  · rw [if_neg own, if_neg (Ne.symm own)]

theorem realizedPnl_deliver (ticker : String) :
    (ledgerOf (deliver tr delivery).state ticker).realizedPnl =
      (ledgerOf tr.state ticker).realizedPnl +
        if nf.ticker = ticker then gainOn (basisIn tr.state ticker) nf else 0 := by
  obtain ⟨category, written⟩ := deliver_written normal fresh
  rw [ledgerOf_of_insert written]
  by_cases own : nf.ticker = ticker
  · rw [if_pos own, if_pos own.symm, ← own, basisIn, ledgerOf_eq tr.state nf.ticker category]
    rfl
  · rw [if_neg own, if_neg (Ne.symm own), add_zero]

end Booked

/-! ## The life of a bot -/

/-- What happens to the bot: a fill is reported to it, it syncs its positions, or it is stopped and
    started again. -/
inductive Moment where
  | fill (delivery : Delivery)
  | sync (out : Outside)
  | restart (env : Env) (cfg : Config) (out : Outside)

def Moment.isFill : Moment → Bool
  | .fill _ => true
  | _ => false

/-- The process that runs, the fills booked so far by it and by the ones before it, and what the
    ones before it realized on each market. -/
structure Life where
  trader : Trader
  rows : List Value := []
  realized : String → ℚ := fun _ => 0

/-- The row of a report that the process has not seen. -/
def bookedRow (tr : Trader) (delivery : Delivery) : List Value :=
  if (normalizeFill delivery.2).any fun nf => nf.fillId ∉ tr.state.fillIds then [delivery.2] else []

def Life.step (life : Life) : Moment → Life
  | .fill delivery =>
    { life with
      trader := deliver life.trader delivery
      rows := life.rows ++ bookedRow life.trader delivery }
  | .sync out => { life with trader := life.trader.syncPositions out }
  | .restart env cfg out =>
    { life with
      trader := Trader.startup env cfg out
      realized := fun ticker =>
        life.realized ticker + (ledgerOf life.trader.state ticker).realizedPnl }

/-- What a market realized over all processes. -/
def Life.realizedOn (life : Life) (ticker : String) : ℚ :=
  life.realized ticker + (ledgerOf life.trader.state ticker).realizedPnl

/-- The exchange shows a market as the fills booked so far left it, and where it is held, it is
    listed as open and its history is served, oldest fills apart, with distinct timestamps. -/
structure Shows (env : Env) (out : Outside) (resp : Value) (rows : List Value) (ticker : String) :
    Prop where
  position : ((parsePositions resp).lookup ticker).getD 0 = (basisAfter ticker rows).1
  listed : (basisAfter ticker rows).1 ≠ 0 → ticker ∈ Trader.discoverUniverse env out
  served : (basisAfter ticker rows).1 ≠ 0 → Serves out ticker (historyOf ticker rows)
  chronological : (basisAfter ticker rows).1 ≠ 0 → Chronological (historyOf ticker rows)
  apart : (basisAfter ticker rows).1 ≠ 0 →
    ((marksOf (historyOf ticker rows)).map Prod.snd).tail.Pairwise (· < ·)

theorem Shows.ledgerOf_startup {env : Env} {out : Outside} {resp : Value} {rows : List Value}
    {ticker : String} (shows' : Shows env out resp rows ticker) (cfg : Config)
    (late : 10 ≤ out.epoch) (served : out.api.getPositions = .ok resp) :
    ledgerOf (Trader.startup env cfg out).state ticker = restored (basisAfter ticker rows) := by
  refine Restarts.ledgerOf_startup cfg late served shows'.position (basisAfter_known _ _)
    fun held => ⟨shows'.listed held, _, shows'.served held, ?_⟩
  exact Backfill.replay_of_apart (shows'.chronological held) (shows'.apart held)

/-- A report is of a fill that this process remembers or that none has booked; a sync leaves the
    given markets alone; a restart finds all that was booked at the exchange, and nothing else. -/
def Sound (markets : Set String) (life : Life) : Moment → Prop
  | .fill delivery => ∀ nf, normalizeFill delivery.2 = some nf →
      nf.fillId ∉ life.trader.state.fillIds →
        nf.fillId ∉ fillIdsOf life.rows
  | .sync out => ∀ resp, out.api.getPositions = .ok resp → ∀ ticker ∈ markets,
      SyncConfluence.SyncKeeps out (((parsePositions resp).lookup ticker).getD 0) life.trader ticker
  | .restart env _ out => 10 ≤ out.epoch ∧ ∃ resp, out.api.getPositions = .ok resp ∧
      ∀ ticker ∈ markets, Shows env out resp life.rows ticker

/-- What a process does not remember of the fills of the never-stopped one, its predecessors have
    booked. -/
structure Remembers (life plain : Life) : Prop where
  deduped : Deduped life.trader.state
  deduped' : Deduped plain.trader.state
  suffix : life.trader.state.fillIdFifo <:+ plain.trader.state.fillIdFifo
  booked : ∀ fillId ∈ plain.trader.state.fillIdFifo,
    fillId ∈ fillIdsOf life.rows

/-- The bot's books are those of the never-stopped one, and both are those of the fills. -/
structure Resumes (markets : Set String) (life plain : Life) : Prop where
  basis : ∀ ticker ∈ markets, basisIn life.trader.state ticker = basisAfter ticker life.rows
  plainBasis : ∀ ticker ∈ markets, basisIn plain.trader.state ticker = basisAfter ticker life.rows
  realized : ∀ ticker ∈ markets, life.realizedOn ticker = plain.realizedOn ticker
  remembers : Remembers life plain

section Life

variable {markets : Set String} {life plain : Life}

theorem Resumes.restart (resumes : Resumes markets life plain) {env : Env} {cfg : Config}
    {out : Outside} (sound : Sound markets life (.restart env cfg out)) :
    Resumes markets (life.step (.restart env cfg out)) plain := by
  obtain ⟨late, resp, served, shows'⟩ := sound
  have ledgers (ticker : String) (member : ticker ∈ markets) :=
    (shows' ticker member).ledgerOf_startup cfg late served
  obtain ⟨noIds, noQueue⟩ := seen_startup env cfg served
  exact
    { basis := fun ticker member => by
        unfold basisIn Life.step
        rw [ledgers ticker member]
        rfl
      plainBasis := resumes.plainBasis
      realized := fun ticker member => by
        rw [← resumes.realized ticker member]
        unfold Life.realizedOn Life.step
        dsimp only
        rw [ledgers ticker member]
        exact add_zero _
      remembers :=
        { deduped := deduped_of_empty noIds noQueue
          deduped' := resumes.remembers.deduped'
          suffix := by rw [Life.step, noQueue]; exact List.nil_suffix
          booked := resumes.remembers.booked } }

theorem Resumes.sync (resumes : Resumes markets life plain) {out : Outside}
    (sound : Sound markets life (.sync out)) :
    Resumes markets (life.step (.sync out)) plain := by
  have agrees : Agrees markets life.trader.state (life.trader.syncPositions out).state := by
    cases reply : out.api.getPositions with
    | error e =>
      unfold Trader.syncPositions
      rw [reply]
      exact Agrees.refl _
    | ok resp => exact SyncConfluence.agrees_syncPositions reply (sound resp reply)
  obtain ⟨same, same'⟩ := agrees.seen
  exact
    { basis := fun ticker member => by
        unfold Life.step basisIn
        dsimp only
        rw [agrees.ledgers ticker member]
        exact resumes.basis ticker member
      plainBasis := resumes.plainBasis
      realized := fun ticker member => by
        rw [← resumes.realized ticker member, Life.realizedOn, Life.realizedOn, Life.step,
          agrees.ledgers ticker member]
      remembers :=
        { deduped := ⟨by rw [Life.step, same, same']; exact resumes.remembers.deduped.same, by
            rw [Life.step, same']; exact resumes.remembers.deduped.nodup⟩
          deduped' := resumes.remembers.deduped'
          suffix := by rw [Life.step, same']; exact resumes.remembers.suffix
          booked := resumes.remembers.booked } }

theorem step_of_stale {delivery : Delivery} (stale : ∀ nf, normalizeFill delivery.2 = some nf →
    nf.fillId ∈ life.trader.state.fillIds) : life.step (.fill delivery) = life := by
  have unseen : bookedRow life.trader delivery = [] := by
    unfold bookedRow
    cases normal : normalizeFill delivery.2 with
    | none => rfl
    | some nf => exact if_neg (by simpa using stale nf normal)
  have same : deliver life.trader delivery = life.trader := by
    have ends := processFill_outcome delivery.1 delivery.2 life.trader
    unfold deliver
    generalize life.trader.processFill delivery.1 delivery.2 = tr' at ends ⊢
    cases ends with
    | ignored _ => rfl
    | booked nf normal fresh _ _ => exact absurd (stale nf normal) fresh
  rw [Life.step, unseen, same, List.append_nil]

theorem step_of_fresh {delivery : Delivery} {nf : NormalizedFill}
    (normal : normalizeFill delivery.2 = some nf) (fresh : nf.fillId ∉ life.trader.state.fillIds) :
    life.step (.fill delivery) =
      { life with trader := deliver life.trader delivery, rows := life.rows ++ [delivery.2] } := by
  have booked : bookedRow life.trader delivery = [delivery.2] := by
    unfold bookedRow
    rw [normal]
    exact if_pos (decide_eq_true fresh)
  rw [Life.step, booked]

/-- A fill that neither has seen is remembered by both. -/
theorem Remembers.fill (remembers : Remembers life plain) {delivery : Delivery}
    {nf : NormalizedFill} (normal : normalizeFill delivery.2 = some nf)
    (fresh : nf.fillId ∉ life.trader.state.fillIds)
    (plainFresh : nf.fillId ∉ plain.trader.state.fillIds) :
    Remembers (life.step (.fill delivery)) (plain.step (.fill delivery)) := by
  have named : fillIdOf delivery = some nf.fillId := by rw [fillIdOf, normal, Option.map_some]
  obtain ⟨deduped, fifo⟩ := Once.deliver_remembers remembers.deduped named
  obtain ⟨deduped', fifo'⟩ := Once.deliver_remembers remembers.deduped' named
  rw [step_of_fresh normal fresh, step_of_fresh normal plainFresh]
  refine ⟨deduped, deduped', ?_, ?_⟩
  · dsimp only
    rw [fifo, fifo']
    exact remember_suffix remembers.suffix
      (mt (Once.mem_fillIds remembers.deduped' _).mpr plainFresh)
  · intro fillId member
    dsimp only at member ⊢
    rw [fifo'] at member
    rw [fillIdsOf, fillsOf, List.filterMap_append, List.map_append, List.mem_append]
    obtain earlier | rfl := mem_remember member
    · exact Or.inl (remembers.booked fillId earlier)
    · rw [List.filterMap_cons_some normal]
      exact Or.inr List.mem_cons_self

theorem Resumes.fill (resumes : Resumes markets life plain) {delivery : Delivery}
    (sound : Sound markets life (.fill delivery)) :
    Resumes markets (life.step (.fill delivery)) (plain.step (.fill delivery)) := by
  have remembers := resumes.remembers
  have seen (fillId : String) (member : fillId ∈ life.trader.state.fillIds) :
      fillId ∈ plain.trader.state.fillIds := by
    rw [Once.mem_fillIds remembers.deduped] at member
    rw [Once.mem_fillIds remembers.deduped']
    exact remembers.suffix.mem member
  by_cases stale : ∀ nf, normalizeFill delivery.2 = some nf → nf.fillId ∈ life.trader.state.fillIds
  · rw [step_of_stale stale, step_of_stale fun nf normal => seen _ (stale nf normal)]
    exact resumes
  · push Not at stale
    obtain ⟨nf, normal, fresh⟩ := stale
    have plainFresh : nf.fillId ∉ plain.trader.state.fillIds := by
      rw [Once.mem_fillIds remembers.deduped']
      exact fun member => sound nf normal fresh (remembers.booked _ member)
    have next := remembers.fill normal fresh plainFresh
    rw [step_of_fresh normal fresh, step_of_fresh normal plainFresh] at next ⊢
    refine ⟨fun ticker member => ?_, fun ticker member => ?_, fun ticker member => ?_, next⟩
    · rw [basisIn_deliver normal fresh, basisAfter_concat ticker normal,
        resumes.basis ticker member]
    · rw [basisIn_deliver normal plainFresh, basisAfter_concat ticker normal,
        resumes.plainBasis ticker member]
    · have before := resumes.realized ticker member
      unfold Life.realizedOn at before ⊢
      rw [realizedPnl_deliver normal fresh, realizedPnl_deliver normal plainFresh,
        resumes.basis ticker member, resumes.plainBasis ticker member, ← add_assoc, ← add_assoc,
        before]

/-- A bot that has traded nothing on the given markets. -/
structure Fresh (markets : Set String) (tr : Trader) : Prop where
  untraded : ∀ ticker ∈ markets, ledgerOf tr.state ticker = {}
  noIds : tr.state.fillIds = ∅
  noQueue : tr.state.fillIdFifo = []

theorem Fresh.resumes {tr : Trader} (fresh : Fresh markets tr) :
    Resumes markets { trader := tr } { trader := tr } := by
  have flat (ticker : String) (member : ticker ∈ markets) :
      basisIn tr.state ticker = basisAfter ticker [] := by
    rw [basisIn, fresh.untraded ticker member]
    rfl
  have deduped := deduped_of_empty fresh.noIds fresh.noQueue
  exact ⟨flat, flat, fun _ _ => rfl, deduped, deduped, List.suffix_rfl, fun fillId member => by
    rw [fresh.noQueue] at member
    cases member⟩

/-- What the processes are told, one after the other. -/
def reportsOf (moments : List Moment) : List Delivery :=
  moments.filterMap fun
    | .fill delivery => some delivery
    | _ => none

theorem run_fills (life : Life) (moments : List Moment) :
    (run Life.step life (moments.filter Moment.isFill)).trader =
        run deliver life.trader (reportsOf moments) ∧
      (run Life.step life (moments.filter Moment.isFill)).realized = life.realized := by
  induction moments generalizing life with
  | nil => exact ⟨rfl, rfl⟩
  | cons moment moments inductionHypothesis =>
    cases moment with
    | fill delivery => exact inductionHypothesis (life.step (.fill delivery))
    | sync out => exact inductionHypothesis life
    | restart env cfg out => exact inductionHypothesis life

/-- However often the bot is stopped and started again, every market stands as if one process had
    been told of all fills and had never synced: the same position at the same entry price, and
    over all processes the same realized PnL. -/
theorem restarts_leave_no_trace {tr : Trader} (fresh : Fresh markets tr) {moments : List Moment}
    (sound : Along Life.step (Sound markets) { trader := tr } moments) :
    let life := run Life.step { trader := tr } moments
    let unstopped := run deliver tr (reportsOf moments)
    ∀ ticker ∈ markets, basisIn life.trader.state ticker = basisIn unstopped.state ticker ∧
      life.realizedOn ticker = (ledgerOf unstopped.state ticker).realizedPnl := by
  intro life unstopped ticker member
  have resumes : Resumes markets life
      (run Life.step { trader := tr } (moments.filter Moment.isFill)) := run_filter_related
    (fun s t moment resumes sound fill => by
      cases moment with
      | fill delivery => exact resumes.fill sound
      | sync out => cases fill
      | restart env cfg out => cases fill)
    (fun s t moment resumes sound hidden => by
      cases moment with
      | fill delivery => cases hidden
      | sync out => exact resumes.sync sound
      | restart env cfg out => exact resumes.restart sound)
    fresh.resumes sound
  obtain ⟨same, unrealized⟩ := run_fills { trader := tr } moments
  have realized := resumes.realized ticker member
  rw [Life.realizedOn, Life.realizedOn, same, unrealized, zero_add] at realized
  refine ⟨?_, realized⟩
  rw [resumes.basis ticker member, ← resumes.plainBasis ticker member, same]

end Life

/-! ## A position carried over a restart -/

def ticker64 : String := "KXBTCD-26JUL1517-T64000"

def bought : Value := Backfill.stamped (1 : ℚ) (Backfill.trade "a" true 2 (2 / 5))
def sold : Value := Backfill.stamped (2 : ℚ) (Backfill.trade "b" false 1 (3 / 5))

theorem normalizeFill_bought :
    normalizeFill bought = some (Backfill.trade "a" true 2 (2 / 5)) :=
  Backfill.normalizeFill_stamped (by decide) (by norm_num) (by norm_num)

theorem historyOf_bought : historyOf ticker64 [bought] = [bought] :=
  List.filter_cons_of_pos (by rw [normalizeFill_bought]; rfl)

/-- The exchange after the first fill. -/
def holding : Outside :=
  { listing [ticker64] 20 with
    api :=
      { (listing [ticker64] 20).api with
        getPositions := .ok (.object [("market_positions", .array [.object
          [("ticker", .string ticker64), ("position", .number 2)]])])
        getFills := fun _ _ _ _ => .ok (.object [("fills", .array [bought])]) } }

/-- Two contracts are bought, the bot is restarted, and one of them is sold. -/
def carriedOver : List Moment :=
  [.fill (holding, bought), .restart (marketEnv none) (marketCfg none) holding,
    .fill (holding, sold)]

theorem shows_holding {rows : List Value} (own : historyOf ticker64 rows = [bought]) :
    ∀ resp, holding.api.getPositions = .ok resp →
      Shows (marketEnv none) holding resp rows ticker64 := by
  intro resp served
  cases served
  have basis : basisAfter ticker64 rows = (2, some (2 / 5)) := by
    rw [basisAfter, own]
    decide +kernel
  constructor
  · rw [basis]
    decide +kernel
  · intro _
    decide +kernel
  · intro _
    rw [own]
    exact ⟨[.object [("fills", .array [bought])]], rfl, rfl⟩
  · intro _
    rw [own]
    exact List.pairwise_singleton _ _
  · intro _
    rw [own]
    decide +kernel

theorem restarts_leave_no_trace_carriedOver :
    let life := run Life.step { trader := Trader.start (marketCfg none) 0 } carriedOver
    basisIn life.trader.state ticker64 = (1, some (2 / 5)) ∧ life.realizedOn ticker64 = 1 / 5 := by
  intro life
  have fresh : Fresh {ticker64} (Trader.start (marketCfg none) 0) := ⟨fun _ _ => rfl, rfl, rfl⟩
  have sound : Along Life.step (Sound {ticker64}) { trader := Trader.start (marketCfg none) 0 }
      carriedOver := by
    have closes : normalizeFill sold = some (Backfill.trade "b" false 1 (3 / 5)) :=
      Backfill.normalizeFill_stamped (by decide) (by norm_num) (by norm_num)
    refine ⟨?_, ⟨by decide +kernel, _, rfl, ?_⟩, ?_, trivial⟩
    · intro nf _ _ member
      cases member
    · rintro ticker rfl
      refine shows_holding ?_ _ rfl
      rw [step_of_fresh normalizeFill_bought (Finset.notMem_empty _)]
      exact historyOf_bought
    · intro nf normal _
      cases closes.symm.trans normal
      decide +kernel
  obtain ⟨basis, realized⟩ := restarts_leave_no_trace fresh sound ticker64 rfl
  exact ⟨basis.trans (by decide +kernel), realized.trans (by decide +kernel)⟩

/-! ## The first sweep after a restart -/

/-- The rows of fills that are among the given ids, or that are not. -/
def rowsAmong (known : Bool) (ids : List String) (rows : List Value) : List Value :=
  rows.filter fun row => (normalizeFill row).any fun nf => decide (nf.fillId ∈ ids) == known

/-- Contracts that a market's fills add up to. -/
def netOf (ticker : String) (rows : List Value) : ℤ :=
  ((fillsOf (historyOf ticker rows)).map NormalizedFill.signedSize).sum

theorem netOf_append (ticker : String) (first second : List Value) :
    netOf ticker (first ++ second) = netOf ticker first + netOf ticker second := by
  simp only [netOf, historyOf, fillsOf, List.filter_append, List.filterMap_append, List.map_append,
    List.sum_append]

theorem basisAfter_fst (ticker : String) (rows : List Value) :
    (basisAfter ticker rows).1 = netOf ticker rows := by
  rw [basisAfter, replayEntryPrice_eq, run_foldFill_fst]
  exact zero_add _

theorem netOf_among (ticker : String) (ids : List String) (rows : List Value) :
    netOf ticker rows =
      netOf ticker (rowsAmong false ids rows) + netOf ticker (rowsAmong true ids rows) := by
  induction rows with
  | nil => rfl
  | cons row rows inductionHypothesis =>
    rw [← List.singleton_append, netOf_append, inductionHypothesis]
    have split (known : Bool) : netOf ticker (rowsAmong known ids ([row] ++ rows)) =
        netOf ticker (rowsAmong known ids [row]) + netOf ticker (rowsAmong known ids rows) := by
      rw [rowsAmong, List.filter_append, netOf_append]
      rfl
    have one : netOf ticker [row] = netOf ticker (rowsAmong false ids [row]) +
        netOf ticker (rowsAmong true ids [row]) := by
      unfold rowsAmong
      cases normal : normalizeFill row with
      | none => simp [netOf, historyOf, fillsOf, normal]
      | some nf =>
        by_cases known : nf.fillId ∈ ids <;> simp [normal, known, netOf, historyOf, fillsOf]
    rw [split, split, one]
    ring

/-- Reports of distinct fills that the process has not seen are all booked. -/
theorem basisIn_run {tr : Trader} (deduped : Deduped tr.state) {reports : List Delivery}
    (once : (reports.filterMap fillIdOf).Nodup)
    (unseen : ∀ fillId ∈ reports.filterMap fillIdOf, fillId ∉ tr.state.fillIds) {ticker : String}
    {rows : List Value} (basis : basisIn tr.state ticker = basisAfter ticker rows) :
    basisIn (run deliver tr reports).state ticker =
      basisAfter ticker (rows ++ reports.map Prod.snd) := by
  induction reports generalizing tr rows with
  | nil => rw [List.map_nil, List.append_nil]; exact basis
  | cons delivery reports inductionHypothesis =>
    rw [run_cons, List.map_cons, List.append_cons]
    cases normal : normalizeFill delivery.2 with
    | none =>
      have unnamed : fillIdOf delivery = none := by rw [fillIdOf, normal, Option.map_none]
      rw [List.filterMap_cons_none unnamed] at once unseen
      rw [Once.deliver_malformed unnamed]
      refine inductionHypothesis deduped once unseen (basis.trans ?_)
      simp [basisAfter, historyOf, normal]
    | some nf =>
      have named : fillIdOf delivery = some nf.fillId := by rw [fillIdOf, normal, Option.map_some]
      rw [List.filterMap_cons_some named] at once unseen
      obtain ⟨notAgain, once⟩ := List.nodup_cons.mp once
      have fresh := unseen nf.fillId List.mem_cons_self
      obtain ⟨deduped', fifo⟩ := Once.deliver_remembers deduped named
      refine inductionHypothesis deduped' once (fun fillId later seen => ?_) ?_
      · rw [Once.mem_fillIds deduped', fifo] at seen
        obtain earlier | rfl := mem_remember seen
        · exact unseen fillId (List.mem_cons_of_mem _ later)
            ((Once.mem_fillIds deduped _).mpr earlier)
        · exact notAgain later
      · rw [basisIn_deliver normal fresh, basisAfter_concat ticker normal, basis]

/-- The rows that the first sweep reads: it asks from two minutes before the start. -/
def firstSwept (started : ℚ) (sweep : Outside) : List Value :=
  pageRows (readPages (fun page cursor =>
    sweep.api.getFills page (truncI64 started - 60 - 60) cursor none) 25 0 none).1 "fills"

/-- The first sweep after a restart books again what it reads of the fills that earlier processes
    have booked: position and entry price are those of the history with these fills twice, and the
    position is off by what they add up to. -/
theorem first_sweep_recounts {env : Env} (cfg : Config) {out : Outside} (sweep : Outside)
    {resp : Value} {rows : List Value} {ticker : String} (late : 10 ≤ out.epoch)
    (served : out.api.getPositions = .ok resp) (shows' : Shows env out resp rows ticker)
    (once : (fillIdsOf (firstSwept out.epoch sweep)).Nodup) :
    let swept := firstSwept out.epoch sweep
    let after := ((Trader.startup env cfg out).fillsSweep sweep (truncI64 out.epoch - 60)).1
    basisIn after.state ticker = basisAfter ticker (rows ++ swept) ∧
      after.positionOf ticker = netOf ticker (rows ++ rowsAmong false (fillIdsOf rows) swept) +
        netOf ticker (rowsAmong true (fillIdsOf rows) swept) := by
  intro swept after
  obtain ⟨noIds, noQueue⟩ := seen_startup env cfg served
  have started : basisIn (Trader.startup env cfg out).state ticker = basisAfter ticker rows := by
    rw [basisIn, shows'.ledgerOf_startup cfg late served]
    rfl
  have ran : after =
      run deliver (Trader.startup env cfg out) (swept.map fun row => (sweep, row)) := by
    rw [run, List.foldl_map]
    rfl
  have ids : (swept.map fun row => (sweep, row)).filterMap fillIdOf = fillIdsOf swept := by
    rw [fillIdsOf, fillsOf, List.filterMap_map, List.map_filterMap]
    rfl
  have basis : basisIn after.state ticker = basisAfter ticker (rows ++ swept) := by
    rw [ran, basisIn_run (deduped_of_empty noIds noQueue) (by rw [ids]; exact once)
      (fun fillId _ => by rw [noIds]; exact Finset.notMem_empty _) started, List.map_map]
    exact congrArg (fun more => basisAfter ticker (rows ++ more)) (List.map_id _)
  refine ⟨basis, ?_⟩
  have position : after.positionOf ticker = (basisIn after.state ticker).1 :=
    SyncConfluence.positionOf_eq_ledger after ticker
  rw [position, basis, basisAfter_fst, netOf_append, netOf_append,
    netOf_among ticker (fillIdsOf rows) swept, add_assoc]

/-- Two contracts are held, and the first sweep serves the fill that bought them. -/
theorem first_sweep_recounts_bought :
    ((Trader.startup (marketEnv none) (marketCfg none) holding).fillsSweep holding
      (truncI64 holding.epoch - 60)).1.positionOf ticker64 = 4 := by
  have late : 10 ≤ holding.epoch := by decide +kernel
  have counted := first_sweep_recounts (marketCfg none) holding late rfl
    (shows_holding historyOf_bought _ rfl) (by decide +kernel)
  exact counted.2.trans (by decide +kernel)

end KalshiMm.Verified.Restarts
