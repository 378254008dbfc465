import KalshiMm.Verified.Bookings
import KalshiMm.Verified.Replay

/-!
# Flat markets carry nothing over

A position comes with a cost basis and with a flag that says whether it was carried over a restart.
Fills and settlements restore both; a drift correction writes the position alone, and giving up on
a vanished market clears the position and the basis but not the flag.
-/

namespace KalshiMm.Verified.Flat

open KalshiMm.Lib KalshiMm.Model

/-- One operation on the positions: a fill of a market, created if it is new, a settlement, one
    drift correction of a sync, the lookup of one vanished market, and a basis backfill. -/
inductive Op where
  | fill (ticker category : String) (nf : NormalizedFill) (fee nowEpoch : ℚ)
  | settle (ticker : String) (resultYes : Option Bool)
  | correct (out : Outside) (exchange : Dict String ℤ) (ticker : String)
  | resolve (settled : Dict String (Option Bool)) (ticker : String)
  | backfill (out : Outside) (ticker : String)

def operate (tr : Trader) : Op → Trader
  | .fill ticker category nf fee nowEpoch =>
    match (tr.state.ticker ticker category).applyFill ticker nf fee nowEpoch with
    | some (state, _) => { tr with state }
    | none => tr
  | .settle ticker resultYes => { tr with state := (tr.state.applySettlement ticker resultYes).1 }
  | .correct out exchange ticker => tr.syncTicker out exchange ticker
  | .resolve settled ticker => tr.resolveVanished settled ticker
  | .backfill out ticker => tr.backfillEntryPrice out ticker

/-! ## The law -/

def MarketClean (ts : TickerState) : Prop :=
  ts.position = 0 → ts.entryPrice = none ∧ ts.carried = false

/-- Flat markets have no cost basis and are not marked as carried. -/
def Clean (tr : Trader) : Prop :=
  ∀ ticker ts, tr.state.tickers.lookup ticker = some ts → MarketClean ts

/-- The position has changed sign. -/
def Flips (oldInv newInv : ℤ) : Prop := (0 < oldInv ∧ newInv < 0) ∨ (oldInv < 0 ∧ 0 < newInv)

instance (oldInv newInv : ℤ) : Decidable (Flips oldInv newInv) :=
  inferInstanceAs (Decidable (_ ∨ _))

/-- A market whose position changed sign has the basis that came with the operation, and is not
    marked as carried. -/
def FreshSide (basis : Option ℚ) (ts ts' : TickerState) : Prop :=
  Flips ts.position ts'.position → ts'.entryPrice = basis ∧ ts'.carried = false

/-- The basis an operation brings: the price of a fill. -/
def Op.basis : Op → Option ℚ
  | .fill _ _ nf _ _ => some nf.priceYes
  | _ => none

/-- The operation leaves no market's new side with what belonged to the old one. -/
def NoCarryOver (tr : Trader) (op : Op) : Prop :=
  ∀ ticker ts ts', tr.state.tickers.lookup ticker = some ts →
    (operate tr op).state.tickers.lookup ticker = some ts' → FreshSide op.basis ts ts'

/-- The position a drift correction would write over another one, where it corrects at all. -/
def correction (out : Outside) (exchange : Dict String ℤ) (tr : Trader) (ticker : String) :
    Option ℤ :=
  let remote := (exchange.lookup ticker).getD 0
  let ts := tr.state.tickerD ticker ((tr.activeTickers.lookup ticker).getD "")
  if ts.position = remote ∨ (remote = 0 ∧ tr.isActive ticker = true) ∨
    out.epoch - ts.lastFillEpoch < 10 then none else some remote

/-- The lookup of a vanished market gives up on it. -/
def givesUp (settled : Dict String (Option Bool)) (tr : Trader) (ticker : String) : Bool :=
  tr.positionOf ticker ≠ 0 ∧ settled.lookup ticker = none ∧
    maxSettlementChecks ≤ (tr.settlementChecks.lookup ticker).getD 0 + 1

/-- A correction to zero or across it finds neither basis nor flag, and no market that is given up
    on is marked as carried. -/
def Restores (tr : Trader) : Op → Prop
  | .correct out exchange ticker =>
    let ts := tr.state.tickerD ticker ((tr.activeTickers.lookup ticker).getD "")
    ∀ remote ∈ correction out exchange tr ticker, remote = 0 ∨ Flips ts.position remote →
      ts.entryPrice = none ∧ ts.carried = false
  | .resolve settled ticker => givesUp settled tr ticker = true →
      ∀ ts ∈ tr.state.tickers.lookup ticker, ts.carried = false
  | _ => True

/-! ## One market written -/

theorem not_flips_self (position : ℤ) : ¬ Flips position position := by
  unfold Flips
  omega

/-- An operation that writes one market keeps the law exactly when that market keeps it. -/
theorem kept_of_insert {tr tr' : Trader} {ticker : String} {ts' : TickerState} (category : String)
    (clean : Clean tr) (written : tr'.state.tickers = tr.state.tickers.insert ticker ts')
    (basis : Option ℚ) :
    (Clean tr' ∧ ∀ other ts ts', tr.state.tickers.lookup other = some ts →
      tr'.state.tickers.lookup other = some ts' → FreshSide basis ts ts') ↔
    MarketClean ts' ∧ FreshSide basis (tr.state.tickerD ticker category) ts' := by
  have here : tr'.state.tickers.lookup ticker = some ts' := by
    rw [written, Finmap.lookup_insert]
  constructor
  · rintro ⟨clean', fresh⟩
    refine ⟨clean' ticker ts' here, fun flips => ?_⟩
    unfold TraderState.tickerD at flips
    cases known : tr.state.tickers.lookup ticker with
    | none =>
      -- a market that was created has turned nothing over
      rw [known] at flips
      exact absurd flips (by simp [Flips, TickerState.new])
    | some ts =>
      rw [known] at flips
      exact fresh ticker ts ts' known here flips
  · rintro ⟨marketClean, fresh⟩
    refine ⟨fun other ts found => ?_, fun other ts ts'' known found => ?_⟩
    · rw [written, Dict.lookup_insert_eq_ite] at found
      split_ifs at found with same
      · cases found
        exact marketClean
      · exact clean other ts found
    · rw [written, Dict.lookup_insert_eq_ite] at found
      split_ifs at found with same
      · cases found
        subst same
        rw [TraderState.tickerD, known] at fresh
        exact fresh
      · rw [known] at found
        cases found
        exact fun flips => absurd flips (not_flips_self _)

theorem kept_of_same {tr tr' : Trader} (clean : Clean tr)
    (same : tr'.state.tickers = tr.state.tickers) (basis : Option ℚ) :
    Clean tr' ∧ ∀ other ts ts', tr.state.tickers.lookup other = some ts →
      tr'.state.tickers.lookup other = some ts' → FreshSide basis ts ts' := by
  refine ⟨fun other ts found => clean other ts (same ▸ found), fun other ts ts' known found => ?_⟩
  rw [same, known] at found
  cases found
  exact fun flips => absurd flips (not_flips_self _)

/-! ## The operations -/

/-- A fill that flattens a market or turns it over restores both companions. -/
theorem filled_clean (ts : TickerState) (nf : NormalizedFill)
    (nowEpoch : ℚ) : MarketClean (ts.filled nf nowEpoch) ∧
      FreshSide (some nf.priceYes) ts (ts.filled nf nowEpoch) := by
  constructor
  · intro flat
    have flat : ts.position + nf.signedSize = 0 := flat
    simp [TickerState.filled, TickerState.bookFill, flat, foldEntryPrice]
  · intro flips
    have flips : Flips ts.position (ts.position + nf.signedSize) := flips
    have open_ : ts.position ≠ 0 := by unfold Flips at flips; omega
    have held : ts.position + nf.signedSize ≠ 0 := by unfold Flips at flips; omega
    have crossed : 0 < ts.position ↔ ¬ 0 < ts.position + nf.signedSize := by
      unfold Flips at flips
      omega
    constructor
    · simp only [TickerState.filled, TickerState.bookFill, foldEntryPrice]
      rw [if_neg held, if_pos (Or.inr crossed)]
    · simp only [TickerState.filled, TickerState.bookFill]
      rw [if_pos (Or.inr ⟨open_, crossed⟩)]

theorem replayEntryPrice_open {fills : List NormalizedFill} {position : ℤ} {entry : ℚ}
    (replayed : replayEntryPrice fills = (position, some entry)) : position ≠ 0 := by
  rintro rfl
  have priced : (run Replay.foldFill (0, none) fills).2 = some entry := congrArg Prod.snd replayed
  -- at every fill of a replay, a flat position has no entry
  have flat := Replay.run_foldFill_flat (fun _ => rfl) fills (congrArg Prod.fst replayed)
  rw [priced] at flat
  cases flat

/-- What is kept of the law by an operation. -/
def Keeps (tr : Trader) (op : Op) : Prop := Clean (operate tr op) ∧ NoCarryOver tr op

theorem keeps_fill {tr : Trader} (clean : Clean tr) (ticker category : String)
    (nf : NormalizedFill) (fee nowEpoch : ℚ) :
    Keeps tr (.fill ticker category nf fee nowEpoch) := by
  have known : (tr.state.ticker ticker category).tickers.lookup ticker =
      some (tr.state.tickerD ticker category) := Finmap.lookup_insert _
  obtain ⟨state, applied, tickers⟩ := TraderState.applyFill_tickers known nf fee nowEpoch
  have written : (operate tr (.fill ticker category nf fee nowEpoch)).state.tickers =
      tr.state.tickers.insert ticker ((tr.state.tickerD ticker category).filled nf nowEpoch) := by
    rw [operate, applied]
    refine tickers.trans ?_
    rw [TraderState.ticker, TraderState.setTicker_tickers, Finmap.insert_insert]
  exact (kept_of_insert category clean written _).mpr (filled_clean _ nf nowEpoch)

theorem settled_clean (ts : TickerState) (resultYes : Option Bool) (basis : Option ℚ) :
    MarketClean (ts.settled resultYes) ∧ FreshSide basis ts (ts.settled resultYes) := by
  refine ⟨fun _ => ⟨rfl, rfl⟩, fun flips => ?_⟩
  have flips : Flips ts.position 0 := flips
  unfold Flips at flips
  omega

theorem kept_applySettlement {tr tr' : Trader} (clean : Clean tr) {ticker : String}
    {resultYes : Option Bool}
    (settles : tr'.state.tickers = (tr.state.applySettlement ticker resultYes).1.tickers) :
    Clean tr' ∧ ∀ other ts ts', tr.state.tickers.lookup other = some ts →
      tr'.state.tickers.lookup other = some ts' → FreshSide none ts ts' := by
  cases known : tr.state.tickers.lookup ticker with
  | none =>
    refine kept_of_same clean (settles.trans ?_) none
    rw [TraderState.applySettlement, known]
  | some ts =>
    by_cases flat : ts.position = 0
    · refine kept_of_same clean (settles.trans ?_) none
      rw [TraderState.applySettlement_of_flat known flat]
    · refine (kept_of_insert "" clean
        (settles.trans (TraderState.applySettlement_tickers known flat resultYes)) none).mpr ?_
      rw [TraderState.tickerD, known]
      exact settled_clean ts resultYes none

/-- A backfill leaves every market as it is, or gives a basis to one that holds a position. -/
theorem backfill_written (out : Outside) (ticker : String) (tr : Trader) :
    (tr.backfillEntryPrice out ticker).state.tickers = tr.state.tickers ∨
    ∃ ts entry, tr.state.tickers.lookup ticker = some ts ∧ ts.position ≠ 0 ∧
      (tr.backfillEntryPrice out ticker).state.tickers =
        tr.state.tickers.insert ticker { ts with entryPrice := some entry } := by
  obtain same | ⟨ts, entry, _, known, replays, written⟩ := backfillEntryPrice_cases out ticker tr
  · rw [same]
    exact Or.inl rfl
  -- a replay that ends with a basis ends with a position
  · rw [written]
    exact Or.inr ⟨ts, entry, known, replayEntryPrice_open replays, rfl⟩

theorem keeps_backfill {tr : Trader} (clean : Clean tr) (out : Outside) (ticker : String) :
    Keeps tr (.backfill out ticker) := by
  obtain same | ⟨ts, entry, known, held, written⟩ := backfill_written out ticker tr
  · exact kept_of_same clean same _
  · refine (kept_of_insert "" clean written _).mpr ⟨fun flat => absurd flat held, ?_⟩
    rw [TraderState.tickerD, known]
    exact fun flips => absurd flips (not_flips_self _)

/-! ## Corrections -/

/-- A market after its drift correction, where there is one. -/
def corrected (ts : TickerState) : Option ℤ → TickerState
  | none => ts
  | some remote =>
    { ts with
      carried := if ts.position = 0 ∧ ts.lastFillEpoch = 0 ∧ remote ≠ 0 then true else ts.carried
      position := remote }

theorem syncTicker_written (out : Outside) (exchange : Dict String ℤ) (tr : Trader)
    (ticker : String) :
    (Trader.syncTicker out exchange tr ticker).state.tickers = tr.state.tickers.insert ticker
      (corrected (tr.state.tickerD ticker ((tr.activeTickers.lookup ticker).getD ""))
        (correction out exchange tr ticker)) := by
  unfold Trader.syncTicker correction
  dsimp only
  by_cases idle : (tr.state.tickerD ticker ((tr.activeTickers.lookup ticker).getD "")).position =
      (exchange.lookup ticker).getD 0 ∨
    ((exchange.lookup ticker).getD 0 = 0 ∧ tr.isActive ticker = true) ∨
    out.epoch - (tr.state.tickerD ticker ((tr.activeTickers.lookup ticker).getD "")).lastFillEpoch <
      10
  · rw [if_pos idle]
    split_ifs with agree vanished race
    · rfl
    · rfl
    · rfl
    all_goals exact absurd idle (not_or.mpr ⟨agree, not_or.mpr ⟨vanished, race⟩⟩)
  · rw [if_neg idle]
    obtain ⟨differ, present, settled⟩ := not_or.mp idle |>.imp_right not_or.mp
    split_ifs with vanished carries
    · exact absurd vanished present
    · simp only [corrected, if_pos carries]
      exact Finmap.insert_insert _
    · simp only [corrected, if_neg carries]
      exact Finmap.insert_insert _

theorem correction_differs {out : Outside} {exchange : Dict String ℤ} {tr : Trader}
    {ticker : String} {remote : ℤ} (corrects : correction out exchange tr ticker = some remote) :
    (tr.state.tickerD ticker ((tr.activeTickers.lookup ticker).getD "")).position ≠ remote := by
  unfold correction at corrects
  dsimp only at corrects
  split_ifs at corrects with idle
  cases corrects
  exact fun same => idle (Or.inl same)

/-- A drift correction keeps the law exactly when it leaves nothing behind. -/
theorem keeps_correct {tr : Trader} (clean : Clean tr) (out : Outside)
    (exchange : Dict String ℤ) (ticker : String) :
    Keeps tr (.correct out exchange ticker) ↔ Restores tr (.correct out exchange ticker) := by
  have law := kept_of_insert ((tr.activeTickers.lookup ticker).getD "") clean
    (syncTicker_written out exchange tr ticker) none
  -- the market's state is created if need be, so it is as clean as the rest
  have marketClean : MarketClean
      (tr.state.tickerD ticker ((tr.activeTickers.lookup ticker).getD "")) := by
    unfold TraderState.tickerD
    cases known : tr.state.tickers.lookup ticker with
    | none => exact fun _ => ⟨rfl, rfl⟩
    | some ts => exact clean ticker ts known
  refine law.trans ?_
  unfold Restores
  dsimp only
  cases corrects : correction out exchange tr ticker with
  | none =>
    refine iff_of_true ⟨marketClean, fun flips => absurd flips (not_flips_self _)⟩ ?_
    intro _ contradiction
    cases contradiction
  | some remote =>
    have differs := correction_differs corrects
    generalize tr.state.tickerD ticker ((tr.activeTickers.lookup ticker).getD "") = ts at *
    simp only [MarketClean, FreshSide, corrected, Option.mem_def, Option.some.injEq, forall_eq']
    by_cases opens : ts.position = 0
    · -- an opening correction turns nothing over
      have other : remote ≠ 0 := fun zero => differs (opens.trans zero.symm)
      have stays : ¬ Flips ts.position remote := by unfold Flips; omega
      exact iff_of_true ⟨fun zero => absurd zero other, fun flips => absurd flips stays⟩
        fun stale => absurd stale (not_or.mpr ⟨other, stays⟩)
    · rw [if_neg fun carries => opens carries.1]
      exact or_imp.symm

/-! ## Vanished markets -/

/-- A lookup settles the market, gives up on it, or leaves every market as it is. -/
theorem resolveVanished_written (settled : Dict String (Option Bool)) (tr : Trader)
    (ticker : String) :
    (∃ resultYes, (tr.resolveVanished settled ticker).state.tickers =
      (tr.state.applySettlement ticker resultYes).1.tickers ∧ givesUp settled tr ticker = false) ∨
    (∃ ts, tr.state.tickers.lookup ticker = some ts ∧ ts.position ≠ 0 ∧
      givesUp settled tr ticker = true ∧
      (tr.resolveVanished settled ticker).state.tickers =
        tr.state.tickers.insert ticker { ts with position := 0, entryPrice := none }) ∨
    ((tr.resolveVanished settled ticker).state.tickers = tr.state.tickers ∧
      givesUp settled tr ticker = false) := by
  have ends := resolveVanished_resolved settled tr ticker
  generalize tr.resolveVanished settled ticker = tr' at ends
  unfold givesUp
  cases ends with
  | flat flat => exact Or.inr (Or.inr ⟨rfl, by simp [flat]⟩)
  | writtenOff ts known held missing exhausted =>
    refine Or.inr (Or.inl ⟨ts, known, held, ?_, rfl⟩)
    simp [Trader.positionOf, known, held, missing, exhausted]
  | counted _ _ left => exact Or.inr (Or.inr ⟨rfl, by simp [left]⟩)
  | settled resultYes _ found halts =>
    obtain ⟨_, rfl⟩ := settledAt_only halts
    exact Or.inl ⟨resultYes, rfl, by simp [found]⟩

/-- The lookup of a vanished market keeps the law exactly when it gives up on no carried one. -/
theorem keeps_resolve {tr : Trader} (clean : Clean tr) (settled : Dict String (Option Bool))
    (ticker : String) :
    Keeps tr (.resolve settled ticker) ↔ Restores tr (.resolve settled ticker) := by
  obtain ⟨resultYes, settles, goesOn⟩ | ⟨ts, known, held, gaveUp, written⟩ | ⟨same, goesOn⟩ :=
    resolveVanished_written settled tr ticker
  · exact iff_of_true (kept_applySettlement clean settles) fun gaveUp => by
      rw [goesOn] at gaveUp
      cases gaveUp
  · refine (kept_of_insert "" clean written none).trans ?_
    simp only [Restores, gaveUp, known, Option.mem_def, Option.some.injEq, forall_eq', MarketClean,
      true_imp_iff]
    constructor
    · exact fun law => law.1.2
    · intro uncarried
      refine ⟨⟨trivial, uncarried⟩, fun flips => ?_⟩
      rw [TraderState.tickerD, known] at flips
      unfold Flips at flips
      dsimp only at flips
      omega
  · exact iff_of_true (kept_of_same clean same none) fun gaveUp => by
      rw [goesOn] at gaveUp
      cases gaveUp

/-! ## Runs -/

theorem keeps_iff {tr : Trader} (clean : Clean tr) (op : Op) : Keeps tr op ↔ Restores tr op := by
  cases op with
  | fill ticker category nf fee nowEpoch =>
    exact iff_of_true (keeps_fill clean ticker category nf fee nowEpoch) trivial
  | settle ticker resultYes => exact iff_of_true (kept_applySettlement clean rfl) trivial
  | correct out exchange ticker => exact keeps_correct clean out exchange ticker
  | resolve settled ticker => exact keeps_resolve clean settled ticker
  | backfill out ticker => exact iff_of_true (keeps_backfill clean out ticker) trivial

/-- Flat markets stay clean and no operation carries anything over a change of side, throughout a
    run from the first state, exactly when every correction and every giving up leaves nothing. -/
theorem flat_is_clean_iff (cfg : Config) (nowEpoch : ℚ) (ops : List Op) :
    (Throughout operate Clean (Trader.start cfg nowEpoch) ops ∧
      Along operate NoCarryOver (Trader.start cfg nowEpoch) ops) ↔
    Along operate Restores (Trader.start cfg nowEpoch) ops := by
  have starts : Clean (Trader.start cfg nowEpoch) := by
    intro ticker ts known
    cases known
  exact throughout_and_along_iff (fun tr op clean => keeps_iff clean op) starts

/-- The second trader is what some operations make of the first. -/
def Operated (tr tr' : Trader) : Prop := ∃ ops, tr' = run operate tr ops

theorem Operated.refl (tr : Trader) : Operated tr tr := ⟨[], rfl⟩

theorem Operated.trans {a b c : Trader} (first : Operated a b) (second : Operated b c) :
    Operated a c := by
  obtain ⟨earlier, rfl⟩ := first
  obtain ⟨later, rfl⟩ := second
  exact ⟨earlier ++ later, (run_append operate a earlier later).symm⟩

theorem Operated.foldl {α : Type} (op : α → Op) (items : List α) (tr : Trader) :
    Operated tr (items.foldl (fun tr item => operate tr (op item)) tr) :=
  ⟨items.map op, List.foldl_map.symm⟩

/-- A position sync is a run of operations: its corrections, lookups and backfills. -/
theorem operated_syncPositions (out : Outside) (tr : Trader) : Operated tr (tr.syncPositions out) := by
  unfold Trader.syncPositions
  split
  · exact Operated.refl tr
  next resp _ =>
    dsimp only
    refine Operated.trans ?_ (Operated.foldl (.backfill out) _ _)
    split_ifs
    · exact Operated.foldl (.correct out (parsePositions resp)) _ tr
    · refine (Operated.foldl (.correct out (parsePositions resp))
        (tr.syncKeys out (parsePositions resp)) tr).trans ?_
      unfold Trader.resolveVanishedPositions
      split
      · exact Operated.refl _
      · exact Operated.foldl (.resolve _) _ _

/-! ## What corrections and giving up leave behind -/

def marketOf (tr : Trader) (ticker : String) : TickerState := tr.state.tickerD ticker ""

/-- Two contracts bought at 25 cents; the exchange then reports none, or three sold. -/
theorem correction_leaves_basis :
    let tr := operate (Trader.start (marketCfg none) 0)
      (.fill "KXBTCD-1" "KXBTCD" (makerFill "f1" "b1" "KXBTCD-1" true 2 (1 / 4)) 0 0)
    let reported (remote : ℤ) : Op :=
      .correct (answering "b1" "a1" 60) (Finmap.singleton "KXBTCD-1" remote) "KXBTCD-1"
    (marketOf (operate tr (reported 0)) "KXBTCD-1").position = 0 ∧
      (marketOf (operate tr (reported 0)) "KXBTCD-1").entryPrice = some (1 / 4) ∧
      (marketOf (operate tr (reported (-3))) "KXBTCD-1").position = -3 ∧
      (marketOf (operate tr (reported (-3))) "KXBTCD-1").entryPrice = some (1 / 4) ∧
      ¬ Clean (operate tr (reported 0)) := by
  intro tr reported
  have left : ((operate tr (reported 0)).state.tickers.lookup "KXBTCD-1").any
      (fun ts => ts.position = 0 && ts.entryPrice = some (1 / 4)) = true := by decide +kernel
  refine ⟨by decide +kernel, by decide +kernel, by decide +kernel, by decide +kernel, ?_⟩
  intro clean
  obtain ⟨ts, known, stale⟩ := (Option.any_eq_true _ _).mp left
  simp only [Bool.and_eq_true, decide_eq_true_eq] at stale
  have unpriced := (clean "KXBTCD-1" ts known stale.1).1
  rw [stale.2] at unpriced
  cases unpriced

end KalshiMm.Verified.Flat
