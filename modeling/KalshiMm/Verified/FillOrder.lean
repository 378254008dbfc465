import KalshiMm.Verified.DeskSteps
import KalshiMm.Verified.FillTally

/-!
# The order fills are booked in

The fills endpoint serves newest first, and a sweep books as it reads: it folds the new fills into
the market's tally in the order served.
-/

namespace KalshiMm.Verified.FillOrder

open KalshiMm.Lib KalshiMm.Model

/-! ## The tally of a market -/

/-- The tally of a market; one without a state has a fresh one of the given category. -/
def tallyOf (s : TraderState) (ticker category : String) : Tally :=
  let ts := s.tickerD ticker category
  { position := ts.position, entryPrice := ts.entryPrice, realizedPnl := ts.realizedPnl,
    carried := ts.carried, wins := s.wins, losses := s.losses, streak := streakOf s ts.category }

theorem tallyOf_booked {s s' : TraderState} {ticker category : String} {nf : NormalizedFill}
    (nowEpoch : ℚ) (written : s'.tickers =
      s.tickers.insert ticker ((s.tickerD ticker category).filled nf nowEpoch))
    (scored : Scored s s' (s.tickerD ticker category).category
      ((s.tickerD ticker category).realizedOn nf) (s.tickerD ticker category).carried) :
    tallyOf s' ticker category = (tallyOf s ticker category).book nf := by
  have after : s'.tickerD ticker category = (s.tickerD ticker category).filled nf nowEpoch := by
    rw [TraderState.tickerD, written, Finmap.lookup_insert, Option.getD_some]
  simp only [tallyOf, after, scored.wins, scored.losses]
  rw [show ((s.tickerD ticker category).filled nf nowEpoch).category =
    (s.tickerD ticker category).category from rfl, scored.streak]
  rfl

theorem tallyOf_seenFill (s : TraderState) (fillId ticker category : String) :
    tallyOf (s.seenFill fillId).1 ticker category = tallyOf s ticker category := by
  rw [seenFill_fst (s := s) (t := s) rfl rfl]
  rfl

/-! ## Bookings of the source -/

/-- `apply_fill` on a list of fills of live markets, in the list's order. -/
def applyFills (out : Outside) (tr : Trader) (fills : List NormalizedFill) : TraderState :=
  fills.foldl (fun s nf =>
    let rate := if nf.isTaker then tr.cfg.mm.takerFeeRate else tr.cfg.mm.makerFeeRate
    (((s.ticker nf.ticker (tr.fillCategory nf.ticker)).applyFill nf.ticker nf
      (fillFee rate nf.size nf.priceYes) out.epoch).map Prod.fst).getD s) tr.state

/-- The new fills among the rows of a reply, in the order served: those the dedupe lets through. -/
def newFills (s : TraderState) : List Value → List NormalizedFill
  | [] => []
  | row :: rows =>
    match normalizeFill row with
    | none => newFills s rows
    | some nf =>
      if nf.fillId ∈ s.fillIds then newFills s rows
      else nf :: newFills (s.seenFill nf.fillId).1 rows

theorem newFills_congr {s s' : TraderState} (ids : s'.fillIds = s.fillIds)
    (fifo : s'.fillIdFifo = s.fillIdFifo) (rows : List Value) : newFills s' rows = newFills s rows := by
  induction rows generalizing s s' with
  | nil => rfl
  | cons row rows inductionHypothesis =>
    unfold newFills
    rw [ids]
    split
    · exact inductionHypothesis ids fifo
    · split_ifs
      · exact inductionHypothesis ids fifo
      · congr 1
        refine inductionHypothesis ?_ ?_
        · rw [seenFill_fst ids fifo]
        · rw [seenFill_fst ids fifo]

section Source

variable {out : Outside} {tr : Trader} {ticker : String}

theorem tallyOf_applyFills {fills : List NormalizedFill} (own : ∀ nf ∈ fills, nf.ticker = ticker) :
    tallyOf (applyFills out tr fills) ticker (tr.fillCategory ticker) =
      run Tally.book (tallyOf tr.state ticker (tr.fillCategory ticker)) fills := by
  unfold applyFills
  generalize tr.state = s
  induction fills generalizing s with
  | nil => rfl
  | cons nf fills inductionHypothesis =>
    rw [List.foldl_cons, run_cons,
      inductionHypothesis (fun later member => own later (List.mem_cons_of_mem _ member))]
    congr 1
    have here : nf.ticker = ticker := own nf List.mem_cons_self
    subst here
    have known : (s.ticker nf.ticker (tr.fillCategory nf.ticker)).tickers.lookup nf.ticker =
        some (s.tickerD nf.ticker (tr.fillCategory nf.ticker)) := Finmap.lookup_insert _
    obtain ⟨booked, applied, tickers⟩ := TraderState.applyFill_tickers known nf
      (fillFee (if nf.isTaker = true then tr.cfg.mm.takerFeeRate else tr.cfg.mm.makerFeeRate)
        nf.size nf.priceYes) out.epoch
    obtain ⟨⟨wins, losses, streak⟩, _⟩ := scored_applyFill known applied
    dsimp only
    rw [applied]
    refine tallyOf_booked out.epoch ?_ ⟨wins, losses, streak⟩
    rw [Option.map_some, Option.getD_some, tickers, TraderState.ticker,
      TraderState.setTicker_tickers, Finmap.insert_insert]

theorem tallyOf_processFills {rows : List Value}
    (own : ∀ nf ∈ newFills tr.state rows, nf.ticker = ticker) :
    tallyOf (tr.processFills out rows).state ticker (tr.fillCategory ticker) =
      run Tally.book (tallyOf tr.state ticker (tr.fillCategory ticker)) (newFills tr.state rows) := by
  induction rows generalizing tr with
  | nil => rfl
  | cons row rows inductionHypothesis =>
    have sameCategory : (tr.processFill out row).fillCategory ticker = tr.fillCategory ticker := by
      obtain ⟨_, _, only⟩ := (bookkeeping_processFill out row tr).only
      rw [only]
      rfl
    have later : tr.processFills out (row :: rows) = (tr.processFill out row).processFills out rows :=
      rfl
    rw [later]
    cases normal : normalizeFill row with
    | none =>
      have skipped : tr.processFill out row = tr := by rw [Trader.processFill, normal]
      rw [newFills, normal] at own ⊢
      rw [skipped]
      exact inductionHypothesis own
    | some nf =>
      rw [newFills, normal] at own ⊢
      dsimp only at own ⊢
      by_cases seen : nf.fillId ∈ tr.state.fillIds
      · have skipped : tr.processFill out row = tr := by
          rw [Trader.processFill, normal]
          dsimp only
          rw [seenFill_snd, if_pos (decide_eq_true seen)]
        rw [if_pos seen] at own ⊢
        rw [skipped]
        exact inductionHypothesis own
      · have books : tr.processFill out row =
            Trader.bookFill out nf { tr with state := (tr.state.seenFill nf.fillId).1 } := by
          rw [Trader.processFill, normal]
          dsimp only
          rw [seenFill_snd, if_neg (by simpa using seen)]
        rw [if_neg seen] at own ⊢
        have here : nf.ticker = ticker := own nf List.mem_cons_self
        subst here
        obtain ⟨scored, ids, fifo⟩ := scored_bookFill out nf
          { tr with state := (tr.state.seenFill nf.fillId).1 }
        obtain ⟨_, only, written⟩ := bookFill_written out nf
          { tr with state := (tr.state.seenFill nf.fillId).1 }
        have booked : tallyOf (tr.processFill out row).state nf.ticker (tr.fillCategory nf.ticker) =
            (tallyOf tr.state nf.ticker (tr.fillCategory nf.ticker)).book nf := by
          rw [← tallyOf_seenFill tr.state nf.fillId, books]
          exact tallyOf_booked out.epoch (only ▸ written) scored
        -- booking leaves the dedupe as it is, so the same rows are new to both
        have rest : newFills (tr.processFill out row).state rows =
            newFills (tr.state.seenFill nf.fillId).1 rows := by
          rw [books]
          exact newFills_congr ids fifo rows
        rw [run_cons, ← booked, ← rest, ← sameCategory]
        exact inductionHypothesis (rest ▸ fun later member => own later (List.mem_cons_of_mem _ member))

end Source

/-! ## Pages -/

/-- The endpoint serves these pages along its cursor, the last one without a further one. -/
def Serves (request : ℕ → Option String → Except String Value) :
    ℕ → Option String → List Value → Prop
  | _, _, [] => False
  | page, cursor, [resp] => request page cursor = .ok resp ∧ resp.cursor = none
  | page, cursor, resp :: next :: rest =>
    request page cursor = .ok resp ∧
      ∃ later, resp.cursor = some later ∧ Serves request (page + 1) (some later) (next :: rest)

theorem Serves.pos {request : ℕ → Option String → Except String Value} {page : ℕ}
    {cursor : Option String} {pages : List Value} (served : Serves request page cursor pages) :
    1 ≤ pages.length := by
  cases pages with
  | nil => exact served.elim
  | cons resp rest => exact Nat.succ_pos _

/-- What a bounded walk along the cursor reads: the first pages, without an error. -/
theorem readPages_of_serves {request : ℕ → Option String → Except String Value} {pages : List Value}
    {page : ℕ} {cursor : Option String} (served : Serves request page cursor pages) (fuel : ℕ) :
    readPages request fuel page cursor = (pages.take fuel, true) := by
  induction fuel generalizing page cursor pages with
  | zero => rfl
  | succ fuel inductionHypothesis =>
    match pages with
    | [resp] =>
      obtain ⟨reply, last⟩ := served
      rw [readPages, reply]
      dsimp only
      rw [last, List.take_succ_cons, List.take_nil]
    | resp :: next :: rest =>
      obtain ⟨reply, later, more, served⟩ := served
      rw [readPages, reply]
      dsimp only
      rw [more]
      dsimp only
      rw [inductionHypothesis served]
      rfl

theorem pageRows_take_drop (pages : List Value) (count : ℕ) :
    pageRows (pages.take count) "fills" ++ pageRows (pages.drop count) "fills" =
      pageRows pages "fills" := by
  unfold pageRows
  rw [← List.flatMap_append, List.take_append_drop]

theorem newFills_head (s : TraderState) (first second : List Value) :
    newFills s first <+: newFills s (first ++ second) := by
  induction first generalizing s with
  | nil => exact List.nil_prefix
  | cons row first inductionHypothesis =>
    rw [List.cons_append, newFills, newFills]
    split
    · exact inductionHypothesis s
    · split_ifs
      · exact inductionHypothesis s
      · exact List.cons_prefix_cons.mpr ⟨rfl, inductionHypothesis _⟩

/-! ## Sweeps -/

theorem size_pos_of_newFills {s : TraderState} {rows : List Value} :
    ∀ nf ∈ newFills s rows, 0 < nf.size := by
  induction rows generalizing s with
  | nil => exact nofun
  | cons row rows inductionHypothesis =>
    unfold newFills
    split
    · exact inductionHypothesis
    next nf normal =>
      split_ifs
      · exact inductionHypothesis
      · intro other member
        obtain rfl | later := List.mem_cons.mp member
        · exact normalizeFill_size normal
        · exact inductionHypothesis other later

/-- The endpoint serves these pages to a sweep, and their new fills are this batch, all of one
    market. -/
structure Batch (out : Outside) (lastTs : ℤ) (tr : Trader) (ticker : String) (pages : List Value)
    (batch : List NormalizedFill) : Prop where
  served : Serves (fun page cursor => out.api.getFills page (lastTs - 60) cursor none) 0 none pages
  new : newFills tr.state (pageRows pages "fills") = batch
  own : ∀ nf ∈ batch, nf.ticker = ticker

/-- The sweep leaves the market's figures as `apply_fill` does on the batch oldest first. -/
def BookedInOrder (out : Outside) (lastTs : ℤ) (tr : Trader) (ticker : String)
    (batch : List NormalizedFill) : Prop :=
  (tallyOf (tr.fillsSweep out lastTs).1.state ticker (tr.fillCategory ticker)).figures =
    (tallyOf (applyFills out tr batch.reverse) ticker (tr.fillCategory ticker)).figures

section Sweeps

variable {out : Outside} {lastTs : ℤ} {tr : Trader} {ticker : String} {pages : List Value}
  {batch : List NormalizedFill}

theorem tallyOf_fillsSweep (served : Batch out lastTs tr ticker pages batch) :
    tallyOf (tr.fillsSweep out lastTs).1.state ticker (tr.fillCategory ticker) =
      run Tally.book (tallyOf tr.state ticker (tr.fillCategory ticker))
        (newFills tr.state (pageRows (pages.take 25) "fills")) := by
  have reads := readPages_of_serves served.served 25
  have sweep : (tr.fillsSweep out lastTs).1 =
      tr.processFills out (pageRows (pages.take 25) "fills") := by
    unfold Trader.fillsSweep
    rw [reads]
  rw [sweep]
  refine tallyOf_processFills fun nf member => served.own nf ?_
  -- what the sweep reads is the head of what is served, so it is of this market, too
  rw [← served.new, ← pageRows_take_drop pages 25]
  exact (newFills_head tr.state _ _).subset member

theorem bookedInOrder_iff_run (served : Batch out lastTs tr ticker pages batch)
    (read : newFills tr.state (pageRows (pages.take 25) "fills") = batch) :
    BookedInOrder out lastTs tr ticker batch ↔
      (run Tally.book (tallyOf tr.state ticker (tr.fillCategory ticker)) batch).figures =
        (run Tally.book (tallyOf tr.state ticker (tr.fillCategory ticker)) batch.reverse).figures := by
  unfold BookedInOrder
  rw [tallyOf_fillsSweep served, read, tallyOf_applyFills fun nf member => served.own nf (List.mem_reverse.mp member)]

end Sweeps

/-! ## Batches of every size -/

theorem newFills_reports {s : TraderState} {fills : List NormalizedFill}
    (reads : ∀ nf ∈ fills, normalizeFill (report nf) = some nf)
    (fresh : ∀ nf ∈ fills, nf.fillId ∉ s.fillIds)
    (distinct : (fills.map NormalizedFill.fillId).Nodup) :
    newFills s (fills.map report) = fills := by
  induction fills generalizing s with
  | nil => rfl
  | cons nf fills inductionHypothesis =>
    rw [List.map_cons, newFills, reads nf List.mem_cons_self]
    dsimp only
    rw [if_neg (fresh nf List.mem_cons_self)]
    obtain ⟨apart, distinct⟩ := List.nodup_cons.mp distinct
    congr 1
    refine inductionHypothesis (fun later member => reads later (List.mem_cons_of_mem _ member))
      (fun later member seen => ?_) distinct
    obtain same | old := mem_seenFill seen
    · exact apart (same ▸ List.mem_map_of_mem member)
    · exact fresh later (List.mem_cons_of_mem _ member) old

def pageOf (rows : List Value) (place count page : ℕ) : Value :=
  .object [("fills", .array (if page = place then rows else [])),
    ("cursor", .string (if page + 1 < count then "next" else ""))]

def serving (rows : List Value) (place count : ℕ) : Outside where
  api := { MarketApi.down with getFills := fun page _ _ _ => .ok (pageOf rows place count page) }
  hash := HashOrder.sorted
  mono := 20
  epoch := 20

section Reply

variable (rows : List Value) (place count : ℕ)

theorem cursor_pageOf (page : ℕ) :
    (pageOf rows place count page).cursor = if page + 1 < count then some "next" else none := by
  have text : (pageOf rows place count page).getStr "cursor" =
    some (if page + 1 < count then "next" else "") := rfl
  unfold Value.cursor
  rw [text]
  split_ifs <;> rfl

theorem serves_pageOf {length : ℕ} (page : ℕ) (cursor : Option String) (served : 0 < length)
    (rest : page + length = count) :
    Serves (fun page _ => .ok (pageOf rows place count page)) page cursor
      ((List.range' page length).map (pageOf rows place count)) := by
  induction length generalizing page cursor with
  | zero => exact absurd served (lt_irrefl 0)
  | succ length inductionHypothesis =>
    cases length with
    | zero => exact ⟨rfl, by rw [cursor_pageOf, if_neg (by omega)]⟩
    | succ length =>
      exact ⟨rfl, "next", by rw [cursor_pageOf, if_pos (by omega)],
        inductionHypothesis (page + 1) _ (Nat.succ_pos _) (by omega)⟩

theorem pageRows_pageOf (page length : ℕ) :
    pageRows ((List.range' page length).map (pageOf rows place count)) "fills" =
      if page ≤ place ∧ place < page + length then rows else [] := by
  induction length generalizing page with
  | zero => rw [if_neg (by omega)]; rfl
  | succ length inductionHypothesis =>
    have here : (pageOf rows place count page).getRows "fills" = if page = place then rows else [] :=
      rfl
    have later := inductionHypothesis (page + 1)
    unfold pageRows at later ⊢
    rw [List.range'_succ, List.map_cons, List.flatMap_cons, later, here]
    by_cases same : page = place
    · rw [if_pos same, if_neg (by omega), if_pos (by omega), List.append_nil]
    · rw [if_neg same, List.nil_append]
      congr 1
      simp only [eq_iff_iff]
      omega

end Reply

def sold (number : ℕ) (priceYes : ℚ) : NormalizedFill :=
  makerFill (String.ofList (List.replicate (number + 1) 'f')) "a1" "KXBTCD-1" false 1 priceYes

/-- Served newest first: gains, and the loss before them. -/
def closings : ℕ → List NormalizedFill
  | 0 => [sold 0 (2 / 5)]
  | number + 1 => sold (number + 1) (3 / 5) :: closings number

def holding (position : ℤ) : Trader :=
  { Trader.start deskCfg 0 with
    state :=
      { TraderState.new 0 with
        tickers := Finmap.singleton "KXBTCD-1"
          { TickerState.new "KXBTCD" with position, entryPrice := some (1 / 2) } } }

theorem tallyOf_holding (position : ℤ) :
    tallyOf (holding position).state "KXBTCD-1" ((holding position).fillCategory "KXBTCD-1") =
      { position, entryPrice := some (1 / 2), realizedPnl := 0, carried := false, wins := 0,
        losses := 0, streak := 0 } := by
  have known : (holding position).state.tickerD "KXBTCD-1"
      ((holding position).fillCategory "KXBTCD-1") =
        { TickerState.new "KXBTCD" with position, entryPrice := some (1 / 2) } := by
    rw [TraderState.tickerD]
    exact congrArg (Option.getD · _) Finmap.lookup_singleton_eq
  unfold tallyOf
  rw [known]
  rfl

theorem mem_closings {number : ℕ} {nf : NormalizedFill} (member : nf ∈ closings number) :
    ∃ other ≤ number, ∃ priceYes, nf = sold other priceYes := by
  induction number with
  | zero => exact ⟨0, le_rfl, _, List.mem_singleton.mp member⟩
  | succ number inductionHypothesis =>
    obtain rfl | later := List.mem_cons.mp member
    · exact ⟨number + 1, le_rfl, _, rfl⟩
    · obtain ⟨other, smaller, priceYes, same⟩ := inductionHypothesis later
      exact ⟨other, by omega, priceYes, same⟩

theorem length_closings (number : ℕ) : (closings number).length = number + 1 := by
  induction number with
  | zero => rfl
  | succ number inductionHypothesis => rw [closings, List.length_cons, inductionHypothesis]

theorem sold_fillId_inj {first second : ℕ} {price other : ℚ}
    (same : (sold first price).fillId = (sold second other).fillId) : first = second := by
  have lengths := congrArg (fun id => id.toList.length) same
  simpa [sold, makerFill] using lengths

theorem nodup_closings (number : ℕ) : ((closings number).map NormalizedFill.fillId).Nodup := by
  induction number with
  | zero => exact List.nodup_singleton _
  | succ number inductionHypothesis =>
    refine List.nodup_cons.mpr ⟨fun member => ?_, inductionHypothesis⟩
    obtain ⟨nf, listed, same⟩ := List.mem_map.mp member
    obtain ⟨other, smaller, priceYes, rfl⟩ := mem_closings listed
    have := sold_fillId_inj same
    omega

theorem closes_closings {number : ℕ} {position : ℤ} (enough : number + 1 ≤ position) :
    Closes (tallyOf (holding position).state "KXBTCD-1"
      ((holding position).fillCategory "KXBTCD-1")) (closings number) := by
  rw [tallyOf_holding]
  refine ⟨fun nf member => ?_, ?_⟩
  · obtain ⟨_, _, _, rfl⟩ := mem_closings member
    refine ⟨Int.one_pos, ?_⟩
    dsimp only
    constructor
    · exact nofun
    · intro down
      omega
  · have sizes : (closings number).map NormalizedFill.size =
        List.replicate (number + 1) 1 := by
      rw [List.eq_replicate_iff, List.length_map, length_closings]
      refine ⟨rfl, fun size member => ?_⟩
      obtain ⟨nf, listed, rfl⟩ := List.mem_map.mp member
      obtain ⟨_, _, _, rfl⟩ := mem_closings listed
      rfl
    rw [sizes, List.sum_replicate]
    dsimp only
    rw [abs_of_nonneg (by omega), nsmul_one]
    exact_mod_cast enough

theorem closings_unbalanced (number : ℕ) {position : ℤ} (long : 0 < position) :
    ¬ Balanced (tallyOf (holding position).state "KXBTCD-1"
      ((holding position).fillCategory "KXBTCD-1")) (closings (number + 1)) := by
  rw [tallyOf_holding]
  generalize held : Tally.mk position (some (1 / 2)) 0 false 0 0 0 = t
  have gain (other : ℕ) (priceYes : ℚ) : unitGain t (sold other priceYes) = priceYes - 1 / 2 := by
    rw [← held]
    exact if_pos long
  have ends : ∃ served, (closings number).map (unitGain t) = served ++ [2 / 5 - 1 / 2] := by
    clear held
    induction number with
    | zero => exact ⟨[], by rw [closings, List.map_cons, gain]; rfl⟩
    | succ number inductionHypothesis =>
      obtain ⟨served, same⟩ := inductionHypothesis
      exact ⟨unitGain t (sold (number + 1) (3 / 5)) :: served, by
        rw [closings, List.map_cons, same, List.cons_append]⟩
  obtain ⟨served, same⟩ := ends
  unfold Balanced
  rw [closings, List.map_cons, same, gain, List.reverse_cons, List.reverse_append]
  norm_num [lossesBeforeGain]

theorem newFills_closings (number : ℕ) (position : ℤ) :
    newFills (holding position).state ((closings number).map report) = closings number := by
  refine newFills_reports (fun nf member => ?_) (fun nf _ => Finset.notMem_empty _)
    (nodup_closings number)
  obtain ⟨_, _, _, rfl⟩ := mem_closings member
  exact normalizeFill_report (by simp [sold, makerFill]) (by simp [sold, makerFill]) rfl rfl
    Int.one_pos (by norm_num [sold, makerFill])

theorem batch_closings (number : ℕ) (position : ℤ) {place count : ℕ} (within : place < count) :
    Batch (serving ((closings number).map report) place count) 0 (holding position) "KXBTCD-1"
      ((List.range' 0 count).map (pageOf ((closings number).map report) place count))
      (closings number) where
  served := serves_pageOf _ _ _ 0 none (by omega) (by omega)
  new := by
    rw [pageRows_pageOf, if_pos (by omega)]
    exact newFills_closings number position
  own nf member := by
    obtain ⟨_, _, _, rfl⟩ := mem_closings member
    rfl

theorem tallyOf_sweptClosings (number : ℕ) (position : ℤ) {place count : ℕ} (within : place < count) :
    tallyOf ((holding position).fillsSweep
        (serving ((closings number).map report) place count) 0).1.state "KXBTCD-1"
        ((holding position).fillCategory "KXBTCD-1") =
      run Tally.book (tallyOf (holding position).state "KXBTCD-1"
        ((holding position).fillCategory "KXBTCD-1")) (if place < 25 then closings number else []) := by
  rw [tallyOf_fillsSweep (batch_closings number position within), ← List.map_take]
  have rows : pageRows (((List.range' 0 count).take 25).map
      (pageOf ((closings number).map report) place count)) "fills" =
        if place < 25 then (closings number).map report else [] := by
    -- the fills stand on one page: it is read if it is among the first 25
    obtain short | long := le_total count 25
    · rw [List.take_range'_of_length_le short, pageRows_pageOf, if_pos (by omega), if_pos (by omega)]
    · rw [List.take_range'_of_length_ge long, pageRows_pageOf]
      simp
  rw [rows]
  split_ifs
  · rw [newFills_closings]
  · rfl

/-- A loss and then gains, sold within one sweep, count as gains and then a loss. -/
theorem closings_out_of_order (number : ℕ) {count : ℕ} (pages : 1 ≤ count) :
    ¬ BookedInOrder (serving ((closings (number + 1)).map report) 0 count) 0
      (holding (number + 2)) "KXBTCD-1" (closings (number + 1)) := by
  have first : 0 < count := pages
  have batch := batch_closings (number + 1) (number + 2) first
  unfold BookedInOrder
  rw [tallyOf_sweptClosings (number + 1) _ first, if_pos (by omega),
    tallyOf_applyFills fun nf member => batch.own nf (List.mem_reverse.mp member),
    figures_closes (closes_closings (by push_cast; omega))]
  rintro (carried | balanced)
  · rw [tallyOf_holding] at carried
    cases carried
  · exact closings_unbalanced number (by omega) balanced

/-- A fill on the page behind the bound is not booked. -/
theorem page_unread {count : ℕ} (pages : 25 < count) :
    ¬ BookedInOrder (serving ((closings 0).map report) 25 count) 0 (holding 1) "KXBTCD-1"
      (closings 0) := by
  have batch := batch_closings 0 1 pages
  unfold BookedInOrder
  rw [tallyOf_sweptClosings 0 _ pages, if_neg (by omega),
    tallyOf_applyFills fun nf member => batch.own nf (List.mem_reverse.mp member), tallyOf_holding]
  decide +kernel

/-! ## The order of a sweep -/

section Order

variable {out : Outside} {lastTs : ℤ} {tr : Trader} {ticker : String} {pages : List Value}
  {batch : List NormalizedFill}

theorem bookedInOrder_of_orderFree (served : Batch out lastTs tr ticker pages batch)
    (read : newFills tr.state (pageRows (pages.take 25) "fills") = batch)
    (free : OrderFree (tallyOf tr.state ticker (tr.fillCategory ticker)) batch) :
    BookedInOrder out lastTs tr ticker batch := by
  refine (bookedInOrder_iff_run served read).mpr (figures_orderFree ?_ free)
  rw [← read]
  exact size_pos_of_newFills

theorem bookedInOrder_of_small (served : Batch out lastTs tr ticker pages batch)
    (small : batch.length = 0 ∨ (batch.length = 1 ∧ pages.length ≤ 25)) :
    BookedInOrder out lastTs tr ticker batch := by
  have palindromic : Palindromic batch := by
    match batch, small with
    | [], _ => rfl
    | [nf], _ => rfl
  refine bookedInOrder_of_orderFree served ?_ (Or.inl palindromic)
  obtain none | ⟨_, short⟩ := small
  · have empty : batch = [] := List.eq_nil_of_length_eq_zero none
    have head : newFills tr.state (pageRows (pages.take 25) "fills") <+: batch := by
      rw [← served.new, ← pageRows_take_drop pages 25]
      exact newFills_head tr.state _ _
    rw [empty] at head ⊢
    exact List.prefix_nil.mp head
  · rw [List.take_of_length_le short, served.new]

/-- Served this many fills on this many pages, a sweep books them in order. -/
def SizeInOrder (fills count : ℕ) : Prop :=
  ∀ out lastTs tr ticker pages batch, Batch out lastTs tr ticker pages batch →
    batch.length = fills → pages.length = count → BookedInOrder out lastTs tr ticker batch

theorem sizeInOrder_iff {fills count : ℕ} (pages : 1 ≤ count) :
    SizeInOrder fills count ↔ fills = 0 ∨ (fills = 1 ∧ count ≤ 25) := by
  constructor
  · intro always
    match fills with
    | 0 => exact Or.inl rfl
    | 1 =>
      refine Or.inr ⟨rfl, not_lt.mp fun more => page_unread more ?_⟩
      exact always _ _ _ _ _ _ (batch_closings 0 1 more) rfl (by simp)
    | number + 2 =>
      have first : 0 < count := pages
      -- two fills or more: the loss served last is to be booked first
      exact absurd (always _ _ _ _ _ _ (batch_closings (number + 1) (number + 2) first)
        (length_closings (number + 1)) (by simp)) (closings_out_of_order number pages)
  · rintro small out lastTs tr ticker pages batch served rfl rfl
    exact bookedInOrder_of_small served small

/-- A sweep that reads all of a batch books it as if oldest first where the batch is order-free,
    and no others so of the batches that close a position or add to one of unknown basis.  The size
    of a batch and the pages it is served on make it safe for a single fill within the pages read,
    and no more. -/
theorem sweep_bookedInOrder (served : Batch out lastTs tr ticker pages batch) :
    (newFills tr.state (pageRows (pages.take 25) "fills") = batch →
      (OrderFree (tallyOf tr.state ticker (tr.fillCategory ticker)) batch →
        BookedInOrder out lastTs tr ticker batch) ∧
      (Closes (tallyOf tr.state ticker (tr.fillCategory ticker)) batch →
        (BookedInOrder out lastTs tr ticker batch ↔
          (tallyOf tr.state ticker (tr.fillCategory ticker)).carried = true ∨
            Balanced (tallyOf tr.state ticker (tr.fillCategory ticker)) batch)) ∧
      (∀ long, AddsBlind long (tallyOf tr.state ticker (tr.fillCategory ticker)) batch →
        (BookedInOrder out lastTs tr ticker batch ↔ EndsAlike batch))) ∧
    (SizeInOrder batch.length pages.length ↔
      batch.length = 0 ∨ (batch.length = 1 ∧ pages.length ≤ 25)) := by
  refine ⟨fun read => ?_, sizeInOrder_iff served.served.pos⟩
  have exactly := bookedInOrder_iff_run served read
  exact ⟨bookedInOrder_of_orderFree served read,
    fun closes => exactly.trans (figures_closes closes),
    fun _ blind => exactly.trans (figures_blind blind)⟩

end Order

def bought : List NormalizedFill :=
  [makerFill "f2" "b1" "KXBTCD-1" true 1 (3 / 5), makerFill "f1" "b1" "KXBTCD-1" true 1 (2 / 5)]

theorem sweep_bookedInOrder_bought :
    BookedInOrder (serving (bought.map report) 0 1) 0 (holding 1) "KXBTCD-1" bought := by
  have batch : Batch (serving (bought.map report) 0 1) 0 (holding 1) "KXBTCD-1"
      [pageOf (bought.map report) 0 1 0] bought :=
    ⟨serves_pageOf _ 0 1 0 none Nat.one_pos rfl, by decide +kernel, by decide +kernel⟩
  refine ((sweep_bookedInOrder batch).1 (by decide +kernel)).1 (Or.inr (Or.inr (Or.inl ?_)))
  rw [tallyOf_holding]
  exact ⟨true, Or.inr ⟨by decide +kernel, rfl⟩, by decide +kernel⟩

/-- Two buys and then a sell: newest first, the first buy closes a short that never was. -/
def mixed : List NormalizedFill :=
  [makerFill "f3" "a1" "KXBTCD-1" false 1 (3 / 5), makerFill "f2" "b2" "KXBTCD-1" true 1 (1 / 2),
    makerFill "f1" "b1" "KXBTCD-1" true 1 (2 / 5)]

theorem mixed_out_of_order :
    let out := serving (mixed.map report) 0 1
    let tr := Trader.start deskCfg 0
    let swept := tallyOf (tr.fillsSweep out 0).1.state "KXBTCD-1" "KXBTCD"
    let oldestFirst := tallyOf (applyFills out tr mixed.reverse) "KXBTCD-1" "KXBTCD"
    Batch out 0 tr "KXBTCD-1" [pageOf (mixed.map report) 0 1 0] mixed ∧
      tr.fillCategory "KXBTCD-1" = "KXBTCD" ∧ ¬ BookedInOrder out 0 tr "KXBTCD-1" mixed ∧
      (swept.position, swept.entryPrice, swept.realizedPnl) = (1, some (2 / 5), 1 / 10) ∧
      (oldestFirst.position, oldestFirst.entryPrice, oldestFirst.realizedPnl) =
        (1, some (9 / 20), 3 / 20) := by
  refine ⟨⟨serves_pageOf _ 0 1 0 none Nat.one_pos rfl, by decide +kernel, by decide +kernel⟩, ?_, ?_,
    ?_, ?_⟩
  · decide +kernel
  · unfold BookedInOrder
    decide +kernel
  · decide +kernel
  · decide +kernel

end KalshiMm.Verified.FillOrder
