import KalshiMm.Model.Desk
import KalshiMm.Verified.Handlers

/-!
# What a booking does

A report is ignored as malformed or seen, or its fill is booked on its market: that market is
rewritten, the counters score what the fill realizes, and the fill's id is remembered.
-/

namespace KalshiMm.Verified

open KalshiMm.Lib KalshiMm.Model

/-! ## Fills seen -/

theorem seenFill_snd (s : TraderState) (fillId : String) :
    (s.seenFill fillId).2 = decide (fillId ∈ s.fillIds) := by
  unfold TraderState.seenFill
  split_ifs with seen
  · simp [seen]
  · dsimp only
    split
    · split_ifs <;> simp [seen]
    · simp [seen]

theorem seenFill_fst {s t : TraderState} (ids : t.fillIds = s.fillIds)
    (fifo : t.fillIdFifo = s.fillIdFifo) (fillId : String) :
    (t.seenFill fillId).1 =
      { t with
        fillIds := (s.seenFill fillId).1.fillIds
        fillIdFifo := (s.seenFill fillId).1.fillIdFifo } := by
  unfold TraderState.seenFill
  rw [ids, fifo]
  generalize s.fillIdFifo ++ [fillId] = queue
  by_cases seen : fillId ∈ s.fillIds
  · rw [if_pos seen, if_pos seen, ← ids, ← fifo]
  · rw [if_neg seen, if_neg seen]
    cases queue with
    | nil => rfl
    | cons oldest rest => dsimp only; split_ifs <;> rfl

theorem mem_seenFill {s : TraderState} {fillId id : String}
    (member : id ∈ (s.seenFill fillId).1.fillIds) : id = fillId ∨ id ∈ s.fillIds := by
  unfold TraderState.seenFill at member
  -- over the capacity the oldest id is forgotten, which only removes
  generalize s.fillIdFifo ++ [fillId] = queue at member
  split_ifs at member
  · exact Or.inr member
  · cases queue with
    | nil => exact Finset.mem_insert.mp member
    | cons oldest rest =>
      dsimp only at member
      split_ifs at member
      · exact Finset.mem_insert.mp (Finset.mem_of_mem_erase member)
      · exact Finset.mem_insert.mp member

/-! ## The market -/

theorem bookFill_written (out : Outside) (nf : NormalizedFill) (tr : Trader) :
    ∃ state, tr.bookFill out nf = { tr with state } ∧
      state.tickers = tr.state.tickers.insert nf.ticker
        ((tr.state.tickerD nf.ticker (tr.fillCategory nf.ticker)).filled nf out.epoch) := by
  have known : (tr.state.ticker nf.ticker (tr.fillCategory nf.ticker)).tickers.lookup nf.ticker =
      some (tr.state.tickerD nf.ticker (tr.fillCategory nf.ticker)) := Finmap.lookup_insert _
  unfold Trader.bookFill
  dsimp only
  obtain ⟨booked, applied, tickers⟩ := TraderState.applyFill_tickers known nf
    (fillFee (if nf.isTaker = true then tr.cfg.mm.takerFeeRate else tr.cfg.mm.makerFeeRate)
      nf.size nf.priceYes) out.epoch
  rw [applied]
  dsimp only
  obtain ⟨_, halts⟩ := enforceCategoryHalt_only (tr.fillCategory nf.ticker)
    { tr with state := booked }
  refine ⟨_, halts, ?_⟩
  rw [tickers, TraderState.ticker, TraderState.setTicker_tickers, Finmap.insert_insert]

/-! ## The counters -/

theorem seen_bookRealizedClose (s : TraderState) (category : String) (realized : ℚ)
    (streakExempt : Bool) :
    (s.bookRealizedClose category realized streakExempt).fillIds = s.fillIds ∧
      (s.bookRealizedClose category realized streakExempt).fillIdFifo = s.fillIdFifo := by
  obtain ⟨_, _, _, _, _, only⟩ := bookRealizedClose_only s category realized streakExempt
  rw [only]
  exact ⟨rfl, rfl⟩

/-- A gain ends a losing streak, a loss extends it. -/
def nextStreak (realized : ℚ) (streak : ℕ) : ℕ :=
  if 0 < realized then 0 else if realized < 0 then streak + 1 else streak

def streakOf (s : TraderState) (category : String) : ℕ :=
  (s.consecutiveLosses.lookup category).getD 0

theorem streakOf_insert {s s' : TraderState} {category : String} {streak : ℕ}
    (written : s'.consecutiveLosses = s.consecutiveLosses.insert category streak) (other : String) :
    streakOf s' other = if other = category then streak else streakOf s other := by
  unfold streakOf
  rw [written, Dict.lookup_insert_eq_ite]
  split_ifs <;> rfl

theorem streaks_of_exempt (s : TraderState) (category : String) (realized : ℚ) :
    (s.bookRealizedClose category realized true).consecutiveLosses = s.consecutiveLosses := by
  simp only [TraderState.bookRealizedClose, if_true]
  split_ifs <;> rfl

/-- A close touches the streak of its own category alone, and none where it is exempt. -/
theorem streakOf_bookRealizedClose (s : TraderState) (category : String) (realized : ℚ)
    (exempt : Bool) (other : String) :
    streakOf (s.bookRealizedClose category realized exempt) other =
      if other = category ∧ exempt = false then nextStreak realized (streakOf s other)
      else streakOf s other := by
  cases exempt with
  | true =>
    rw [if_neg fun counted => Bool.noConfusion counted.2, streakOf, streaks_of_exempt]
    rfl
  | false =>
    simp only [and_true]
    unfold TraderState.bookRealizedClose
    -- the three branches of the source: a loss, nothing realized, a gain
    obtain loss | zero | gain := lt_trichotomy realized 0
    · rw [if_neg loss.ne, if_neg loss.asymm, streakOf_insert rfl]
      unfold nextStreak
      rw [if_neg loss.asymm, if_pos loss]
      split_ifs with same
      · rw [same]; rfl
      · rfl
    · rw [if_pos zero, zero]
      simp [nextStreak]
    · rw [if_neg gain.ne', if_pos gain, streakOf_insert rfl]
      unfold nextStreak
      rw [if_pos gain]
      rfl

/-- One more win for a gain, one more loss for a loss, and the category's streak goes on unless
    the close is exempt. -/
structure Scored (s s' : TraderState) (category : String) (realized : ℚ) (exempt : Bool) : Prop where
  wins : s'.wins = s.wins + if 0 < realized then 1 else 0
  losses : s'.losses = s.losses + if realized < 0 then 1 else 0
  streak : streakOf s' category =
    if exempt then streakOf s category else nextStreak realized (streakOf s category)

theorem scored_bookRealizedClose (s : TraderState) (category : String) (realized : ℚ)
    (exempt : Bool) :
    Scored s (s.bookRealizedClose category realized exempt) category realized exempt where
  wins := by
    unfold TraderState.bookRealizedClose
    obtain loss | rfl | gain := lt_trichotomy realized 0
    · rw [if_neg loss.ne, if_neg loss.asymm, if_neg loss.asymm]; rfl
    · rfl
    · rw [if_neg gain.ne', if_pos gain, if_pos gain]
  losses := by
    unfold TraderState.bookRealizedClose
    obtain loss | rfl | gain := lt_trichotomy realized 0
    · rw [if_neg loss.ne, if_neg loss.asymm, if_pos loss]
    · rfl
    · rw [if_neg gain.ne', if_pos gain, if_neg gain.asymm]; rfl
  streak := by
    rw [streakOf_bookRealizedClose]
    cases exempt <;> simp

theorem scored_applyFill {s s' : TraderState} {ticker : String} {ts : TickerState}
    {nf : NormalizedFill} {fee nowEpoch realized : ℚ} (known : s.tickers.lookup ticker = some ts)
    (applied : s.applyFill ticker nf fee nowEpoch = some (s', realized)) :
    Scored s s' ts.category (ts.realizedOn nf) ts.carried ∧ s'.fillIds = s.fillIds ∧
      s'.fillIdFifo = s.fillIdFifo := by
  have known' : (s.bookFee nf fee).tickers.lookup ticker = some ts := known
  simp only [TraderState.applyFill, known', Option.map_some, Option.some.injEq] at applied
  cases applied
  split_ifs with closes
  · obtain ⟨wins, losses, streak⟩ := scored_bookRealizedClose
      ((s.bookFee nf fee).setTicker ticker
        { ts.bookFill nf nowEpoch with
          realizedPnl := (ts.bookFill nf nowEpoch).realizedPnl + ts.realizedOn nf })
      ts.category (ts.realizedOn nf) ts.carried
    exact ⟨⟨wins, losses, streak⟩, seen_bookRealizedClose _ _ _ _⟩
  · have zero : ts.realizedOn nf = 0 := not_not.mp closes
    rw [zero]
    refine ⟨⟨rfl, rfl, ?_⟩, rfl, rfl⟩
    cases ts.carried <;> rfl

theorem scored_bookFill (out : Outside) (nf : NormalizedFill) (tr : Trader) :
    Scored tr.state (tr.bookFill out nf).state
        (tr.state.tickerD nf.ticker (tr.fillCategory nf.ticker)).category
        ((tr.state.tickerD nf.ticker (tr.fillCategory nf.ticker)).realizedOn nf)
        (tr.state.tickerD nf.ticker (tr.fillCategory nf.ticker)).carried ∧
      (tr.bookFill out nf).state.fillIds = tr.state.fillIds ∧
      (tr.bookFill out nf).state.fillIdFifo = tr.state.fillIdFifo := by
  have known : (tr.state.ticker nf.ticker (tr.fillCategory nf.ticker)).tickers.lookup nf.ticker =
      some (tr.state.tickerD nf.ticker (tr.fillCategory nf.ticker)) := Finmap.lookup_insert _
  unfold Trader.bookFill
  dsimp only
  obtain ⟨booked, applied, _⟩ := TraderState.applyFill_tickers known nf
    (fillFee (if nf.isTaker = true then tr.cfg.mm.takerFeeRate else tr.cfg.mm.makerFeeRate)
      nf.size nf.priceYes) out.epoch
  rw [applied]
  dsimp only
  obtain ⟨⟨wins, losses, streak⟩, seen⟩ := scored_applyFill known applied
  obtain ⟨_, halts⟩ := enforceCategoryHalt_only (tr.fillCategory nf.ticker)
    { tr with state := booked }
  rw [halts]
  exact ⟨⟨wins, losses, streak⟩, seen⟩

/-! ## Reports -/

theorem normalizeFill_size {row : Value} {nf : NormalizedFill}
    (normal : normalizeFill row = some nf) : 0 < nf.size := by
  unfold normalizeFill at normal
  obtain ⟨_, _, normal⟩ := Option.bind_eq_some_iff.mp normal
  obtain ⟨_, _, normal⟩ := Option.bind_eq_some_iff.mp normal
  obtain ⟨_, positive, normal⟩ := Option.bind_eq_some_iff.mp normal
  cases normal
  by_contra nothing
  rw [guard, if_neg nothing] at positive
  cases positive

/-- How the processing of a report ends: ignored as malformed or seen, or booked on its market. -/
inductive FillOutcome (out : Outside) (raw : Value) (tr : Trader) : Trader → Prop where
  | ignored (stale : ∀ nf, normalizeFill raw = some nf → nf.fillId ∈ tr.state.fillIds) :
      FillOutcome out raw tr tr
  | booked {tr' : Trader} (nf : NormalizedFill) (normal : normalizeFill raw = some nf)
      (fresh : nf.fillId ∉ tr.state.fillIds)
      (only : ∃ state, tr' = { tr with state })
      (written : tr'.state.tickers = tr.state.tickers.insert nf.ticker
        ((tr.state.tickerD nf.ticker (tr.fillCategory nf.ticker)).filled nf out.epoch)) :
      FillOutcome out raw tr tr'

theorem processFill_outcome (out : Outside) (raw : Value) (tr : Trader) :
    FillOutcome out raw tr (tr.processFill out raw) := by
  unfold Trader.processFill
  split
  next malformed =>
    refine .ignored fun nf normal => ?_
    rw [malformed] at normal
    cases normal
  next nf normal =>
    dsimp only
    rw [seenFill_snd]
    split_ifs with seen
    · refine .ignored fun nf' normal' => ?_
      rw [normal] at normal'
      cases normal'
      exact of_decide_eq_true seen
    · obtain ⟨state, books, written⟩ := bookFill_written out nf
        { tr with state := (tr.state.seenFill nf.fillId).1 }
      have same : (tr.state.seenFill nf.fillId).1.tickerD nf.ticker (tr.fillCategory nf.ticker) =
          tr.state.tickerD nf.ticker (tr.fillCategory nf.ticker) := by
        rw [TraderState.tickerD, TraderState.tickerD, seenFill_tickers]
      refine .booked nf normal (fun member => seen (decide_eq_true member)) ⟨state, books⟩ ?_
      rw [books]
      refine written.trans ?_
      rw [seenFill_tickers]
      exact congrArg (fun ts => tr.state.tickers.insert nf.ticker (ts.filled nf out.epoch)) same

theorem stillPending_of_stale {tr : Trader} {raw : Value}
    (stale : ∀ nf, normalizeFill raw = some nf → nf.fillId ∈ tr.state.fillIds)
    (pending : List NormalizedFill) : tr.stillPending pending raw = pending := by
  unfold Trader.stillPending
  split
  · rfl
  next nf normal => rw [if_pos (stale nf normal)]

theorem stillPending_of_fresh {tr : Trader} {raw : Value} {nf : NormalizedFill}
    (normal : normalizeFill raw = some nf) (fresh : nf.fillId ∉ tr.state.fillIds)
    (pending : List NormalizedFill) : tr.stillPending pending raw = pending.erase nf := by
  rw [Trader.stillPending, normal]
  exact if_neg fresh

/-- A booked fill releases the recorded id it names, on its own market. -/
theorem mem_recordedIds_filled {tr tr' : Trader} {nf : NormalizedFill} {category : String}
    {nowEpoch : ℚ} (written : tr'.state.tickers = tr.state.tickers.insert nf.ticker
      ((tr.state.tickerD nf.ticker category).filled nf nowEpoch)) (other id : String) :
    id ∈ tr'.state.recordedIds other ↔
      id ∈ tr.state.recordedIds other ∧ ¬ (other = nf.ticker ∧ nf.orderId = some id) := by
  have slot (held orderId : Option String) :
      id ∈ (TickerState.releaseSlot held orderId).toList ↔ id ∈ held.toList ∧ orderId ≠ some id := by
    unfold TickerState.releaseSlot
    split
    · split_ifs with released
      · subst released; simp [eq_comm]
      · simp only [Option.mem_toList, ne_eq, Option.some.injEq]
        constructor
        · rintro rfl
          exact ⟨rfl, fun same => released (congrArg some same.symm)⟩
        · exact And.left
    · simp
  rw [recordedIds_of_insert written]
  split_ifs with same
  · rw [same, recordedIds_eq tr.state nf.ticker category]
    simp only [TickerState.orderIds, TickerState.filled, TickerState.bookFill, List.mem_append,
      slot]
    tauto
  · simp [same]

/-! ## Reports to book -/

def makerFill (fillId orderId ticker : String) (longYes : Bool) (size : ℤ) (priceYes : ℚ) :
    NormalizedFill :=
  { fillId, ticker, longYes, priceYes, size, isTaker := false, orderId := some orderId }

/-- How the fills endpoint reports it. -/
def report (nf : NormalizedFill) : Value :=
  .object [("trade_id", .string nf.fillId), ("order_id", .string (nf.orderId.getD "")),
    ("ticker", .string nf.ticker), ("action", .string (if nf.longYes then "buy" else "sell")),
    ("side", .string "yes"), ("yes_price_dollars", .number nf.priceYes), ("count", .number nf.size)]

/-- What the endpoint reports of a maker fill reads back as that fill. -/
theorem normalizeFill_report {nf : NormalizedFill} (id : nf.fillId ≠ "") (market : nf.ticker ≠ "")
    (maker : nf.isTaker = false) (order : nf.orderId.isSome = true) (positive : 0 < nf.size)
    (small : nf.size < 2 ^ 63) : normalizeFill (report nf) = some nf := by
  obtain ⟨fillId, ticker, longYes, priceYes, size, isTaker, orderId⟩ := nf
  obtain ⟨orderId, rfl⟩ := Option.isSome_iff_exists.mp order
  dsimp only at id market maker positive small
  subst maker
  -- the count comes as a float; a whole number below 2^63 survives the rounding and the cast
  have count : toI64 (roundTiesEven (size : ℚ)) = size := by
    rw [roundTiesEven_isNearest.intCast]
    unfold toI64
    omega
  have named : (some ticker).filter (· ≠ "") = some ticker := by simp [market]
  have traded : (some fillId).filter (· ≠ "") = some fillId := by simp [id]
  unfold normalizeFill report
  simp only [strField, Value.getStr, Value.get, numField, List.findSome?, List.lookup_cons,
    List.lookup_nil, Value.asStr, String.reduceBEq, Option.bind_some, Option.bind_none,
    F64.toRat_finite, named, traded]
  cases longYes <;> simp [count, positive, guard]

end KalshiMm.Verified
