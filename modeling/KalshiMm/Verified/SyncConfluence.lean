import KalshiMm.Model.Clearing
import KalshiMm.Verified.DeskSteps

/-!
# Position sync and fill booking

A sync overwrites a position with the exchange's, which may hold fills that are still to be
booked.  `Agrees` compares an account with the one that books the same fills and never syncs:
a sync keeps the two in agreement on every market it leaves alone, and on those markets what is
held locally plus what waits to be booked is what the exchange holds.
-/

namespace KalshiMm.Verified.SyncConfluence

open KalshiMm.Lib KalshiMm.Model

/-! ## The ledger of a market -/

/-- What fills and syncs account for on one market. -/
structure Ledger where
  position : ℤ := 0
  entryPrice : Option ℚ := none
  realizedPnl : ℚ := 0
  lastFillEpoch : ℚ := 0

def ledger (ts : TickerState) : Ledger :=
  { position := ts.position, entryPrice := ts.entryPrice, realizedPnl := ts.realizedPnl,
    lastFillEpoch := ts.lastFillEpoch }

def ledgerOf (s : TraderState) (ticker : String) : Ledger :=
  ((s.tickers.lookup ticker).map ledger).getD {}

theorem ledgerOf_of_insert {s s' : TraderState} {name : String} {ts : TickerState}
    (written : s'.tickers = s.tickers.insert name ts) (ticker : String) :
    ledgerOf s' ticker = if ticker = name then ledger ts else ledgerOf s ticker := by
  unfold ledgerOf
  rw [written, Dict.getD_map_insert]

theorem ledgerOf_eq (s : TraderState) (ticker category : String) :
    ledgerOf s ticker = ledger (s.tickerD ticker category) :=
  Option.getD_map ledger (TickerState.new category) (s.tickers.lookup ticker)

theorem ledgerOf_of_tickers {s s' : TraderState} (same : s'.tickers = s.tickers) (ticker : String) :
    ledgerOf s' ticker = ledgerOf s ticker := by rw [ledgerOf, ledgerOf, same]

theorem positionOf_eq_ledger (tr : Trader) (ticker : String) :
    tr.positionOf ticker = (ledgerOf tr.state ticker).position := by
  unfold Trader.positionOf ledgerOf
  cases tr.state.tickers.lookup ticker with
  | none => rfl
  | some ts => rfl

theorem needsBackfill_eq (tr : Trader) (ticker : String) :
    tr.needsBackfill ticker = (decide ((ledgerOf tr.state ticker).position ≠ 0 ∧
      (ledgerOf tr.state ticker).entryPrice = none) && tr.isActive ticker) := by
  unfold Trader.needsBackfill ledgerOf
  cases tr.state.tickers.lookup ticker with
  | none => rfl
  | some ts => rfl

theorem ledger_filled {ts ts' : TickerState} (same : ledger ts = ledger ts') (nf : NormalizedFill)
    (nowEpoch : ℚ) : ledger (ts.filled nf nowEpoch) = ledger (ts'.filled nf nowEpoch) ∧
      ts.realizedOn nf = ts'.realizedOn nf := by
  simp only [ledger, Ledger.mk.injEq] at same
  obtain ⟨position, entryPrice, realizedPnl, _⟩ := same
  have realized : ts.realizedOn nf = ts'.realizedOn nf := by
    simp only [TickerState.realizedOn, position, entryPrice]
  refine ⟨?_, realized⟩
  simp only [ledger, TickerState.filled, TickerState.bookFill, realized, position, entryPrice,
    realizedPnl]

/-! ## Agreement -/

/-- The accounts agree: on the ledgers of the given markets, on wins and losses if these are all
    markets, and on the fills seen. -/
structure Agrees (markets : Set String) (s s' : TraderState) : Prop where
  ledgers : ∀ ticker ∈ markets, ledgerOf s' ticker = ledgerOf s ticker
  score : (∀ ticker, ticker ∈ markets) → s'.wins = s.wins ∧ s'.losses = s.losses
  seen : s'.fillIds = s.fillIds ∧ s'.fillIdFifo = s.fillIdFifo

namespace Agrees

variable {markets : Set String}

theorem refl (s : TraderState) : Agrees markets s s := ⟨fun _ _ => rfl, fun _ => ⟨rfl, rfl⟩, rfl, rfl⟩

theorem trans {a b c : TraderState} (first : Agrees markets a b) (second : Agrees markets b c) :
    Agrees markets a c where
  ledgers ticker member := (second.ledgers ticker member).trans (first.ledgers ticker member)
  score all := ⟨(second.score all).1.trans (first.score all).1,
    (second.score all).2.trans (first.score all).2⟩
  seen := ⟨second.seen.1.trans first.seen.1, second.seen.2.trans first.seen.2⟩

theorem of_outside {s s' : TraderState} {name : String} {ts : TickerState}
    (outside : name ∉ markets) (written : s'.tickers = s.tickers.insert name ts)
    (seen : s'.fillIds = s.fillIds ∧ s'.fillIdFifo = s.fillIdFifo) : Agrees markets s s' where
  ledgers ticker member := by
    rw [ledgerOf_of_insert written, if_neg]
    rintro rfl
    exact outside member
  score all := absurd (all name) outside
  seen := seen

theorem of_kept {s s' : TraderState} {name : String} {ts : TickerState}
    (written : s'.tickers = s.tickers.insert name ts) (kept : ledger ts = ledgerOf s name)
    (score : s'.wins = s.wins ∧ s'.losses = s.losses)
    (seen : s'.fillIds = s.fillIds ∧ s'.fillIdFifo = s.fillIdFifo) : Agrees markets s s' where
  ledgers ticker _ := by
    rw [ledgerOf_of_insert written]
    split_ifs with same
    · rw [kept, same]
    · rfl
  score _ := score
  seen := seen

end Agrees

/-! ## Syncs -/

/-- A snapshot that reports `remote` leaves the market's position alone: it agrees with it, or
    it was taken within ten seconds of a booking, or the market is left for a settlement lookup
    that finds nothing and has not run out of retries. -/
def KeepsPosition (out : Outside) (remote : ℤ) (tr : Trader) (ticker : String) : Prop :=
  tr.positionOf ticker = remote ∨
  ((remote = 0 ∧ tr.isActive ticker = true) ∧ ∀ resp, out.api.getSettlements = .ok resp →
    (Trader.settledResults resp).lookup ticker = none ∧
      (tr.settlementChecks.lookup ticker).getD 0 + 1 < maxSettlementChecks) ∨
  (¬ (remote = 0 ∧ tr.isActive ticker = true) ∧
    out.epoch - (ledgerOf tr.state ticker).lastFillEpoch < 10)

/-- A sync leaves the market alone: its position, and its cost basis, which it does not look for. -/
def SyncKeeps (out : Outside) (remote : ℤ) (tr : Trader) (ticker : String) : Prop :=
  KeepsPosition out remote tr ticker ∧ tr.needsBackfill ticker = false

section Sync

variable {markets : Set String} {out : Outside} {tr : Trader}

theorem agrees_syncTicker (exchange : Dict String ℤ) (tr : Trader) (ticker : String)
    (keeps : ticker ∈ markets → KeepsPosition out ((exchange.lookup ticker).getD 0) tr ticker) :
    Agrees markets tr.state (Trader.syncTicker out exchange tr ticker).state ∧
      ∃ state, Trader.syncTicker out exchange tr ticker = { tr with state } := by
  unfold Trader.syncTicker
  dsimp only
  -- the source creates the market's state before it compares; a fresh one has the empty ledger
  have created : Agrees markets tr.state (tr.state.setTicker ticker
      (tr.state.tickerD ticker ((tr.activeTickers.lookup ticker).getD ""))) :=
    Agrees.of_kept (TraderState.setTicker_tickers _ _ _) (ledgerOf_eq _ _ _).symm ⟨rfl, rfl⟩
      ⟨rfl, rfl⟩
  split_ifs with level vanishes guarded
  · exact ⟨created, _, rfl⟩
  · exact ⟨created, _, rfl⟩
  · exact ⟨created, _, rfl⟩
  -- what is left adopts the remote position, which `KeepsPosition` rules out for the given markets
  all_goals
    refine ⟨?_, _, rfl⟩
    by_cases member : ticker ∈ markets
    · have position := positionOf_eq tr ticker ((tr.activeTickers.lookup ticker).getD "")
      have booked : (ledgerOf tr.state ticker).lastFillEpoch =
          (tr.state.tickerD ticker ((tr.activeTickers.lookup ticker).getD "")).lastFillEpoch := by
        rw [ledgerOf_eq tr.state ticker ((tr.activeTickers.lookup ticker).getD "")]
        rfl
      obtain same | ⟨gone, _⟩ | ⟨_, recent⟩ := keeps member
      · exact absurd (position.symm.trans same) level
      · exact absurd gone vanishes
      · exact absurd (booked ▸ recent) guarded
    · exact created.trans (Agrees.of_outside member (TraderState.setTicker_tickers _ _ _) ⟨rfl, rfl⟩)

/-- The conditions of a sync depend on the ledgers and on what bookkeeping leaves alone. -/
theorem KeepsPosition.of_agrees {remote : ℤ} {ticker : String}
    (keeps : KeepsPosition out remote tr ticker) (member : ticker ∈ markets)
    {state : TraderState} (agrees : Agrees markets tr.state state) :
    KeepsPosition out remote { tr with state } ticker := by
  unfold KeepsPosition at keeps ⊢
  rw [positionOf_eq_ledger] at keeps ⊢
  rw [agrees.ledgers ticker member]
  exact keeps

theorem agrees_syncTickers {exchange : Dict String ℤ}
    (keeps : ∀ ticker ∈ markets, KeepsPosition out ((exchange.lookup ticker).getD 0) tr ticker)
    (tickers : List String) :
    Agrees markets tr.state (tickers.foldl (Trader.syncTicker out exchange) tr).state ∧
      ∃ state, tickers.foldl (Trader.syncTicker out exchange) tr = { tr with state } := by
  refine run_induct (I := fun tr' => Agrees markets tr.state tr'.state ∧
    ∃ state, tr' = { tr with state }) (fun tr' ticker ⟨agrees, state, only⟩ => ?_)
    ⟨Agrees.refl _, _, rfl⟩
  subst only
  obtain ⟨one, state', only⟩ := agrees_syncTicker exchange { tr with state } ticker
    fun member => (keeps ticker member).of_agrees member agrees
  exact ⟨agrees.trans one, state', only⟩

/-! ### Vanished positions -/

theorem agrees_applySettlement {s : TraderState} {ticker : String} (outside : ticker ∉ markets)
    (resultYes : Option Bool) : Agrees markets s (s.applySettlement ticker resultYes).1 := by
  cases known : s.tickers.lookup ticker with
  | none => rw [TraderState.applySettlement, known]; exact Agrees.refl s
  | some ts =>
    by_cases flat : ts.position = 0
    · rw [TraderState.applySettlement_of_flat known flat]; exact Agrees.refl s
    · refine Agrees.of_outside outside (TraderState.applySettlement_tickers known flat resultYes) ?_
      simp only [TraderState.applySettlement, known, if_neg flat]
      split
      · exact seen_bookRealizedClose _ _ _ _
      · exact ⟨rfl, rfl⟩

/-- Resolving one vanished market leaves the others' retries alone, and an agreed market that the
    settlements do not list and that has retries left. -/
theorem agrees_resolveVanished {settled : Dict String (Option Bool)} (tr : Trader) {ticker : String}
    (harmless : ticker ∈ markets → settled.lookup ticker = none ∧
      (tr.settlementChecks.lookup ticker).getD 0 + 1 < maxSettlementChecks) :
    Agrees markets tr.state (Trader.resolveVanished settled tr ticker).state ∧
      ∀ other, other ≠ ticker →
        (Trader.resolveVanished settled tr ticker).settlementChecks.lookup other =
          tr.settlementChecks.lookup other := by
  have erased (other : String) (differs : other ≠ ticker) :
      (tr.settlementChecks.erase ticker).lookup other = tr.settlementChecks.lookup other :=
    Finmap.lookup_erase_ne differs
  have ends := resolveVanished_resolved settled tr ticker
  generalize tr.resolveVanished settled ticker = tr' at ends
  cases ends with
  | flat _ => exact ⟨Agrees.refl _, erased⟩
  -- the misses are used up: the source books the market flat without a result
  | writtenOff ts known _ _ exhausted =>
    have outside : ticker ∉ markets := fun member =>
      absurd (harmless member).2 (not_lt.mpr exhausted)
    exact ⟨Agrees.of_outside outside (TraderState.setTicker_tickers _ _ _) ⟨rfl, rfl⟩, erased⟩
  | counted _ _ _ => exact ⟨Agrees.refl _, fun other differs => Finmap.lookup_insert_of_ne _ differs⟩
  | settled resultYes _ found halts =>
    have outside : ticker ∉ markets := fun member => by
      rw [(harmless member).1] at found
      cases found
    obtain ⟨ledgers, score, seen⟩ := agrees_applySettlement (s := tr.state) outside resultYes
    obtain ⟨_, rfl⟩ := settledAt_only halts
    exact ⟨⟨ledgers, score, seen⟩, erased⟩

theorem agrees_resolveAll {settled : Dict String (Option Bool)} {tickers : List String}
    (nodup : tickers.Nodup) (tr : Trader)
    (harmless : ∀ ticker ∈ tickers, ticker ∈ markets → settled.lookup ticker = none ∧
      (tr.settlementChecks.lookup ticker).getD 0 + 1 < maxSettlementChecks) :
    Agrees markets tr.state (tickers.foldl (Trader.resolveVanished settled) tr).state := by
  induction tickers generalizing tr with
  | nil => exact Agrees.refl _
  | cons ticker tickers inductionHypothesis =>
    obtain ⟨fresh, nodup⟩ := List.nodup_cons.mp nodup
    obtain ⟨one, checks⟩ := agrees_resolveVanished tr (harmless ticker List.mem_cons_self)
    refine one.trans (inductionHypothesis nodup _ fun other later member => ?_)
    -- each market is visited once, so its retries are still those before the first visit
    have differs : other ≠ ticker := fun same => fresh (same ▸ later)
    rw [checks other differs]
    exact harmless other (List.mem_cons_of_mem _ later) member

/-! ### Cost bases -/

theorem agrees_backfillEntryPrice {ticker : String} (outside : ticker ∉ markets) (tr : Trader) :
    Agrees markets tr.state (tr.backfillEntryPrice out ticker).state := by
  obtain same | ⟨_, _, _, _, _, written⟩ := backfillEntryPrice_cases out ticker tr
  · rw [same]
    exact Agrees.refl _
  · rw [written]
    exact Agrees.of_outside outside (TraderState.setTicker_tickers _ _ _) ⟨rfl, rfl⟩

theorem agrees_backfillAll {tickers : List String} (outside : ∀ ticker ∈ tickers, ticker ∉ markets)
    (tr : Trader) : Agrees markets tr.state
      (tickers.foldl (fun tr ticker => tr.backfillEntryPrice out ticker) tr).state := by
  induction tickers generalizing tr with
  | nil => exact Agrees.refl _
  | cons ticker tickers inductionHypothesis =>
    exact (agrees_backfillEntryPrice (outside ticker List.mem_cons_self) tr).trans
      (inductionHypothesis (fun other later => outside other (List.mem_cons_of_mem _ later)) _)

/-- A sync keeps the account in agreement on every market it leaves alone. -/
theorem agrees_syncPositions {resp : Value} (served : out.api.getPositions = .ok resp)
    (keeps : ∀ ticker ∈ markets,
      SyncKeeps out (((parsePositions resp).lookup ticker).getD 0) tr ticker) :
    Agrees markets tr.state (tr.syncPositions out).state := by
  unfold Trader.syncPositions
  rw [served]
  dsimp only
  obtain ⟨synced, state, only⟩ := agrees_syncTickers (fun ticker member => (keeps ticker member).1)
    (tr.syncKeys out (parsePositions resp))
  rw [only] at synced ⊢
  have resolved : Agrees markets tr.state
      (if (tr.syncKeys out (parsePositions resp)).filter (fun ticker =>
          tr.vanishes ticker (((parsePositions resp).lookup ticker).getD 0)) = [] then
        ({ tr with state } : Trader)
      else ({ tr with state } : Trader).resolveVanishedPositions out
        ((tr.syncKeys out (parsePositions resp)).filter fun ticker =>
          tr.vanishes ticker (((parsePositions resp).lookup ticker).getD 0))).state := by
    split_ifs
    · exact synced
    · unfold Trader.resolveVanishedPositions
      split
      · exact synced
      next settlements found =>
        refine synced.trans (agrees_resolveAll ((out.hash.nodup _).filter _) _ ?_)
        intro ticker member agreed
        have vanishes := (List.mem_filter.mp member).2
        simp only [Trader.vanishes, Bool.and_eq_true, decide_eq_true_eq] at vanishes
        obtain ⟨⟨differs, gone⟩, active⟩ := vanishes
        obtain level | ⟨_, harmless⟩ | ⟨stays, _⟩ := (keeps ticker agreed).1
        · exact absurd level differs
        · exact harmless settlements found
        · exact absurd ⟨gone, active⟩ stays
  refine resolved.trans (agrees_backfillAll ?_ _)
  intro ticker needs member
  have backfills := (List.mem_filter.mp needs).2
  have idle := (keeps ticker member).2
  -- the backfill reads the state after the settlements, where the given markets have the ledgers
  -- they had
  have active : ∀ tr', Bookkeeping { tr with state } tr' → tr'.isActive ticker = tr.isActive ticker := by
    intro tr' books
    obtain ⟨_, _, rfl⟩ := books.only
    rfl
  rw [needsBackfill_eq, resolved.ledgers ticker member, active] at backfills
  · rw [needsBackfill_eq, backfills] at idle
    cases idle
  · split_ifs
    · exact Bookkeeping.refl _
    · exact bookkeeping_resolveVanishedPositions out _ _

end Sync

/-! ## Bookings -/

section Bookings

variable {markets : Set String} {tr : Trader}

theorem agrees_seenFill {s s' : TraderState} (agrees : Agrees markets s s') (fillId : String) :
    Agrees markets (s.seenFill fillId).1 (s'.seenFill fillId).1 ∧
      (s'.seenFill fillId).2 = (s.seenFill fillId).2 := by
  obtain ⟨ids, fifo⟩ := agrees.seen
  refine ⟨⟨fun ticker member => ?_, fun all => ?_, ?_⟩, ?_⟩
  · rw [ledgerOf_of_tickers (seenFill_tickers s' fillId), ledgerOf_of_tickers (seenFill_tickers s fillId)]
    exact agrees.ledgers ticker member
  · rw [seenFill_fst ids fifo, seenFill_fst (s := s) (t := s) rfl rfl]
    exact agrees.score all
  · rw [seenFill_fst ids fifo]
    exact ⟨rfl, rfl⟩
  · rw [seenFill_snd, seenFill_snd, ids]

theorem agrees_bookFill {checks : Dict String ℕ} {state : TraderState} (tr : Trader) (out : Outside)
    (nf : NormalizedFill) (agrees : Agrees markets tr.state state) :
    Agrees markets (tr.bookFill out nf).state
      (({ tr with state, settlementChecks := checks } : Trader).bookFill out nf).state := by
  obtain ⟨score, seen⟩ := scored_bookFill out nf tr
  obtain ⟨score', seen'⟩ := scored_bookFill out nf { tr with state, settlementChecks := checks }
  obtain ⟨_, only, written⟩ := bookFill_written out nf tr
  obtain ⟨_, only', written'⟩ := bookFill_written out nf { tr with state, settlementChecks := checks }
  have before (member : nf.ticker ∈ markets) : ledger (state.tickerD nf.ticker
      (tr.fillCategory nf.ticker)) = ledger (tr.state.tickerD nf.ticker (tr.fillCategory nf.ticker)) := by
    rw [← ledgerOf_eq, ← ledgerOf_eq]
    exact agrees.ledgers nf.ticker member
  refine ⟨fun ticker member => ?_, fun all => ?_, ?_⟩
  · rw [only, only', ledgerOf_of_insert written, ledgerOf_of_insert written']
    split_ifs with same
    · exact (ledger_filled (before (same ▸ member)) nf out.epoch).1
    · exact agrees.ledgers ticker member
  · have realized := (ledger_filled (before (all nf.ticker)) nf out.epoch).2
    obtain ⟨wins, losses⟩ := agrees.score all
    have sameCategory : ({ tr with state, settlementChecks := checks } : Trader).fillCategory nf.ticker =
        tr.fillCategory nf.ticker := rfl
    rw [sameCategory, realized] at score'
    exact ⟨score'.wins.trans (by rw [wins, score.wins]),
      score'.losses.trans (by rw [losses, score.losses])⟩
  · exact ⟨seen'.1.trans (agrees.seen.1.trans seen.1.symm),
      seen'.2.trans (agrees.seen.2.trans seen.2.symm)⟩

theorem agrees_processFill {checks : Dict String ℕ} {state : TraderState} (out : Outside)
    (raw : Value) (agrees : Agrees markets tr.state state) :
    Agrees markets (tr.processFill out raw).state
      (({ tr with state, settlementChecks := checks } : Trader).processFill out raw).state := by
  unfold Trader.processFill
  split
  · exact agrees
  next nf _ =>
    dsimp only
    obtain ⟨seen, same⟩ := agrees_seenFill agrees nf.fillId
    rw [same]
    split_ifs
    · exact agrees
    · exact agrees_bookFill { tr with state := (tr.state.seenFill nf.fillId).1 } out nf seen

end Bookings

/-! ## Runs -/

/-- Signed contracts of the market that executed and wait to be booked. -/
def waiting (ticker : String) (pending : List NormalizedFill) : ℤ :=
  (pending.map fun nf => if nf.ticker = ticker then nf.signedSize else 0).sum

/-- What is held locally and what waits to be booked is what the exchange holds. -/
def Level (markets : Set String) (c : Clearing) : Prop :=
  ∀ ticker ∈ markets, c.trader.positionOf ticker + waiting ticker c.pending = c.held ticker

/-- Snapshots report what the exchange holds, and what is booked has executed. -/
def Cleared (c : Clearing) : ClearingEvent → Prop
  | .sync out => ∀ resp, out.api.getPositions = .ok resp →
    ∀ ticker, ((parsePositions resp).lookup ticker).getD 0 = c.held ticker
  | .book _ raw => ∀ nf ∈ normalizeFill raw, nf.fillId ∉ c.trader.state.fillIds → nf ∈ c.pending
  | .execute _ => True

/-- A sync that gets its snapshot leaves the given markets alone. -/
def SyncsKeep (markets : Set String) (c : Clearing) : ClearingEvent → Prop
  | .sync out => out.api.getPositions.isOk = true →
    ∀ ticker ∈ markets, SyncKeeps out (c.held ticker) c.trader ticker
  | _ => True

section Runs

variable {markets : Set String} {c plain : Clearing}

theorem agrees_sync {out : Outside} (cleared : Cleared c (.sync out))
    (keeps : SyncsKeep markets c (.sync out)) :
    Agrees markets c.trader.state (c.trader.syncPositions out).state := by
  cases reply : out.api.getPositions with
  | error e =>
    unfold Trader.syncPositions
    rw [reply]
    exact Agrees.refl _
  | ok resp =>
    refine agrees_syncPositions reply fun ticker member => ?_
    rw [cleared resp reply ticker]
    exact keeps (by rw [reply]; rfl) ticker member

theorem level_execute (level : Level markets c) (nf : NormalizedFill) :
    Level markets (c.step (.execute nf)) := by
  intro ticker member
  have before := level ticker member
  simp only [Clearing.step, waiting, List.map_append, List.sum_append, List.map_cons, List.map_nil,
    List.sum_cons, List.sum_nil, Function.update_apply] at before ⊢
  by_cases same : ticker = nf.ticker
  · rw [if_pos same.symm, if_pos same, ← same]
    omega
  · rw [if_neg (Ne.symm same), if_neg same]
    omega

theorem level_book (level : Level markets c) {out : Outside} {raw : Value}
    (cleared : Cleared c (.book out raw)) : Level markets (c.step (.book out raw)) := by
  intro ticker member
  have before := level ticker member
  have ends := processFill_outcome out raw c.trader
  unfold Clearing.step
  dsimp only
  generalize c.trader.processFill out raw = tr' at ends
  cases ends with
  | ignored stale =>
    rw [stillPending_of_stale stale]
    exact before
  | booked nf normal fresh _ written =>
    rw [stillPending_of_fresh normal fresh, positionOf_of_insert written]
    have split := List.sum_map_erase
      (fun (waits : NormalizedFill) => if waits.ticker = ticker then waits.signedSize else 0)
      (cleared nf normal fresh)
    unfold waiting at before ⊢
    by_cases same : ticker = nf.ticker
    · have position : ((c.trader.state.tickerD nf.ticker (c.trader.fillCategory nf.ticker)).filled nf
          out.epoch).position = c.trader.positionOf ticker + nf.signedSize := by
        rw [same, positionOf_eq c.trader nf.ticker (c.trader.fillCategory nf.ticker)]
        rfl
      rw [if_pos same.symm] at split
      rw [if_pos same, position]
      omega
    · rw [if_neg (Ne.symm same)] at split
      rw [if_neg same]
      omega

/-- The clearing is level, and beside one that differs by the effects of syncs on other markets. -/
structure Beside (markets : Set String) (c plain : Clearing) : Prop where
  level : Level markets c
  held : c.held = plain.held
  pending : c.pending = plain.pending
  only : ∃ state settlementChecks, c.trader = { plain.trader with state, settlementChecks }
  agrees : Agrees markets plain.trader.state c.trader.state

theorem Beside.hidden (beside : Beside markets c plain) {out : Outside}
    (cleared : Cleared c (.sync out)) (keeps : SyncsKeep markets c (.sync out)) :
    Beside markets (c.step (.sync out)) plain := by
  have synced := agrees_sync cleared keeps
  obtain ⟨_, _, only⟩ := beside.only
  obtain ⟨_, _, syncs⟩ := (bookkeeping_syncPositions out c.trader).only
  exact
    { level := fun ticker member => by
        have before := beside.level ticker member
        rw [positionOf_eq_ledger] at before ⊢
        unfold Clearing.step
        dsimp only
        rw [synced.ledgers ticker member]
        exact before
      held := beside.held
      pending := beside.pending
      only := by
        unfold Clearing.step
        dsimp only
        rw [syncs, only]
        exact ⟨_, _, rfl⟩
      agrees := beside.agrees.trans synced }

theorem Beside.matched (beside : Beside markets c plain) {event : ClearingEvent}
    (fill : event.isFill = true) (cleared : Cleared c event) :
    Beside markets (c.step event) (plain.step event) := by
  obtain ⟨trader, held, pending⟩ := c
  obtain ⟨level, rfl, rfl, ⟨state, settlementChecks, only⟩, agrees⟩ := beside
  dsimp only at only agrees
  subst only
  cases event with
  | execute nf => exact ⟨level_execute level nf, rfl, rfl, ⟨_, _, rfl⟩, agrees⟩
  | sync out => cases fill
  | book out raw =>
    obtain ⟨_, _, books⟩ := (bookkeeping_processFill out raw plain.trader).only
    obtain ⟨_, _, books'⟩ := (bookkeeping_processFill out raw
      { plain.trader with state, settlementChecks }).only
    refine ⟨level_book level cleared, rfl, ?_, ?_, agrees_processFill out raw agrees⟩
    -- both dedupe by the same fills seen, so both book or both skip the report
    · have ids : state.fillIds = plain.trader.state.fillIds := agrees.seen.1
      unfold Clearing.step Trader.stillPending
      dsimp only
      rw [ids]
    · unfold Clearing.step
      dsimp only
      rw [books, books']
      exact ⟨_, _, rfl⟩

/-- In every run whose syncs leave the markets alone, these markets book what they book without
    syncs, wins and losses included if they are all markets; and each holds what the exchange
    holds whenever nothing of it waits to be booked. -/
theorem sync_confluent (level : Level markets c) {events : List ClearingEvent}
    (cleared : Along Clearing.step Cleared c events)
    (keeps : Along Clearing.step (SyncsKeep markets) c events) :
    let synced := run Clearing.step c events
    let unsynced := run Clearing.step c (events.filter ClearingEvent.isFill)
    (∀ ticker ∈ markets,
      ledgerOf synced.trader.state ticker = ledgerOf unsynced.trader.state ticker ∧
      ((∀ nf ∈ synced.pending, nf.ticker ≠ ticker) →
        synced.trader.positionOf ticker = synced.held ticker)) ∧
    ((∀ ticker, ticker ∈ markets) → synced.trader.state.wins = unsynced.trader.state.wins ∧
      synced.trader.state.losses = unsynced.trader.state.losses) := by
  intro synced unsynced
  have beside : Beside markets synced unsynced := run_filter_related
    (fun s t event beside condition fill => beside.matched fill condition.1)
    (fun s t event beside condition hidden => by
      cases event with
      | execute nf => cases hidden
      | sync out => exact beside.hidden condition.1 condition.2
      | book out raw => cases hidden)
    ⟨level, rfl, rfl, ⟨_, _, rfl⟩, Agrees.refl _⟩ (cleared.and keeps)
  refine ⟨fun ticker member => ⟨beside.agrees.ledgers ticker member, fun booked => ?_⟩,
    beside.agrees.score⟩
  have none : waiting ticker synced.pending = 0 := by
    refine List.sum_eq_zero fun size waits => ?_
    obtain ⟨nf, listed, rfl⟩ := List.mem_map.mp waits
    exact if_neg (booked nf listed)
  have total := beside.level ticker member
  rw [none, add_zero] at total
  exact total

end Runs

/-! ## A snapshot between execution and booking -/

def freshDesk : Clearing where
  trader := { Trader.start deskCfg 0 with activeTickers := Finmap.singleton "KXBTCD-1" "KXBTCD" }

def snapshotAt (position : ℤ) (epoch : ℚ) : Outside where
  api :=
    { MarketApi.down with
      getPositions := .ok (.object [("market_positions", .array [.object
        [("ticker", .string "KXBTCD-1"), ("position", .number position)]])]) }
  hash := HashOrder.sorted
  mono := epoch
  epoch

def bought (fillId : String) : NormalizedFill := makerFill fillId "b1" "KXBTCD-1" true 1 (42 / 100)

def booked (fillId : String) (epoch : ℚ) : ClearingEvent :=
  .book { answering "" "" epoch with epoch } (report (bought fillId))

theorem cleared_sync {c : Clearing} {position : ℤ} {epoch : ℚ}
    (parsed : parsePositions (.object [("market_positions", .array [.object
      [("ticker", .string "KXBTCD-1"), ("position", .number position)]])]) =
        Finmap.singleton "KXBTCD-1" position)
    (holds : c.held = Function.update (fun _ => 0) "KXBTCD-1" position) :
    Cleared c (.sync (snapshotAt position epoch)) := by
  intro resp served ticker
  cases served
  rw [parsed, holds, Function.update_apply]
  split_ifs with same
  · rw [same, Finmap.lookup_singleton_eq, Option.getD_some]
  · have absent : (Finmap.singleton "KXBTCD-1" position : Dict String ℤ).lookup ticker = none :=
      Finmap.lookup_eq_none.mpr fun member => same ((Finmap.mem_singleton _ _ _).mp member)
    rw [absent, Option.getD_none]

theorem cleared_booked {c : Clearing} {fillId : String} {epoch : ℚ}
    (normal : normalizeFill (report (bought fillId)) = some (bought fillId))
    (waits : bought fillId ∈ c.pending) : Cleared c (booked fillId epoch) := by
  intro nf reported _
  rw [normal] at reported
  cases reported
  exact waits

/-- A fill is booked, the next one executes and a sync sees it, held off by the booking; then it
    is booked, too. -/
def heldOff : List ClearingEvent :=
  [.execute (bought "f1"), booked "f1" 20, .execute (bought "f2"), .sync (snapshotAt 2 25),
    booked "f2" 26]

theorem sync_confluent_heldOff :
    (run Clearing.step freshDesk heldOff).trader.positionOf "KXBTCD-1" =
      (run Clearing.step freshDesk heldOff).held "KXBTCD-1" := by
  have level : Level {"KXBTCD-1"} freshDesk := by
    rintro ticker rfl
    rfl
  have cleared : Along Clearing.step Cleared freshDesk heldOff := by
    refine ⟨trivial, cleared_booked (by decide +kernel) (by decide +kernel), trivial,
      cleared_sync (by decide +kernel) ?_, cleared_booked (by decide +kernel) (by decide +kernel),
      trivial⟩
    exact Function.update_idem _ _ _
  have keeps : Along Clearing.step (SyncsKeep {"KXBTCD-1"}) freshDesk heldOff := by
    refine ⟨trivial, trivial, trivial, ?_, trivial, trivial⟩
    rintro _ ticker rfl
    exact ⟨Or.inr (Or.inr ⟨by decide +kernel, by decide +kernel⟩), by decide +kernel⟩
  exact ((sync_confluent level cleared keeps).1 "KXBTCD-1" rfl).2 (by decide +kernel)

/-- A fill executes on a market that never booked one, a sync sees it before the fills poll does,
    and the booking counts it a second time. -/
theorem snapshot_before_booking :
    let c := run Clearing.step freshDesk
      [.execute (bought "f1"), .sync (snapshotAt 1 30), booked "f1" 31]
    Along Clearing.step Cleared freshDesk
        [.execute (bought "f1"), .sync (snapshotAt 1 30), booked "f1" 31] ∧
      freshDesk.trader.positionOf "KXBTCD-1" = freshDesk.held "KXBTCD-1" ∧ c.pending = [] ∧
      c.trader.positionOf "KXBTCD-1" = 2 ∧ c.held "KXBTCD-1" = 1 := by
  intro c
  refine ⟨⟨trivial, cleared_sync (by decide +kernel) rfl,
    cleared_booked (by decide +kernel) (by decide +kernel), trivial⟩, rfl, ?_, ?_, ?_⟩
  · decide +kernel
  · decide +kernel
  · decide +kernel

end KalshiMm.Verified.SyncConfluence
