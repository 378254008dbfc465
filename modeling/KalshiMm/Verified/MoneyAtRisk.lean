import KalshiMm.Verified.Clocks
import KalshiMm.Verified.InventoryCap
import KalshiMm.Verified.RiskBudget

/-!
# How far the money at risk overshoots its cap

The risk check compares what the active positions lock with a cap, but orders that rest may fill
after it, and fills that have executed may still wait to be booked.  What the positions lock, together
with a dollar for each such contract, grows at no step but a quote cycle that executes a plan, and
such a cycle is only reached below the cap.
-/

namespace KalshiMm.Verified.MoneyAtRisk

open KalshiMm.Lib KalshiMm.Model InventoryCap Pnl RiskBudget

/-! ## Collateral -/

/-- What a market's position locks. -/
def collateral (ts : TickerState) : ℚ :=
  if ts.position = 0 then 0
  else |ts.position| * if 0 < ts.position then ts.entryPrice.getD (1 / 2)
    else 1 - ts.entryPrice.getD (1 / 2)

theorem collateral_of_flat {ts : TickerState} (flat : ts.position = 0) : collateral ts = 0 :=
  if_pos flat

/-- A long locks its cost, a short its cost and a dollar a contract. -/
theorem collateral_eq {ts : TickerState} (basis : HasBasis ts) :
    collateral ts = cost ts.position ts.entryPrice + max 0 (-ts.position : ℤ) := by
  unfold collateral cost
  by_cases flat : ts.position = 0
  · simp [flat]
  · obtain ⟨entry, known⟩ := Option.isSome_iff_exists.mp (basis.mpr flat)
    rw [if_neg flat, known, Option.getD_some, Option.getD_some]
    split_ifs with long
    · rw [abs_of_pos (by exact_mod_cast long), max_eq_left (by omega)]
      simp
    · rw [abs_of_nonpos (by exact_mod_cast not_lt.mp long), max_eq_right (by omega)]
      push_cast
      ring

/-- What a fill realizes and pays, with the dollars of the short it leaves, is at most a dollar for
    each of its contracts above the dollars of the short it met. -/
theorem realizedOn_le {ts : TickerState} {nf : NormalizedFill} (within : WithinDollar ts)
    (low : 0 ≤ nf.priceYes) (high : nf.priceYes ≤ 1) (sized : 0 ≤ nf.size) :
    ts.realizedOn nf + nf.signedSize * nf.priceYes + (max 0 (-(ts.position + nf.signedSize)) : ℤ) ≤
      nf.size + (max 0 (-ts.position) : ℤ) := by
  have contracts : (0 : ℚ) ≤ nf.size := by exact_mod_cast sized
  have paid := mul_le_mul_of_nonneg_left high contracts
  have gets := mul_nonneg contracts low
  cases buys : nf.longYes with
  | true =>
    have signed : nf.signedSize = nf.size := by simp [NormalizedFill.signedSize, buys]
    rw [signed]
    by_cases long : 0 ≤ ts.position
    · rw [realizedOn_of_adding (Or.inl ⟨long, buys⟩), max_eq_left (by omega), max_eq_left (by omega)]
      push_cast
      linarith
    · -- the part that covers gives back the dollars of the short, less what the short was sold for
      obtain ⟨entry, known⟩ := Option.isSome_iff_exists.mp (within.basis.mpr (by omega))
      rw [realizedOn_of_cover (by omega) buys within.basis, known, Option.getD_some]
      obtain ⟨covered, isCovered⟩ : ∃ covered, covered = min nf.size (-ts.position) := ⟨_, rfl⟩
      have left : max 0 (-(ts.position + nf.size)) = -ts.position - covered := by omega
      have whole : max 0 (-ts.position) = -ts.position := by omega
      have some_ : (0 : ℚ) ≤ covered := by exact_mod_cast (by omega : 0 ≤ covered)
      have most : (0 : ℚ) ≤ nf.size - covered := by
        exact_mod_cast (by omega : 0 ≤ nf.size - covered)
      rw [← isCovered, left, whole]
      have sold := mul_nonneg some_ (sub_nonneg.mpr (within.high entry known))
      have opened := mul_nonneg most (sub_nonneg.mpr high)
      push_cast
      linarith
  | false =>
    have signed : nf.signedSize = -nf.size := by simp [NormalizedFill.signedSize, buys]
    rw [signed]
    by_cases short : ts.position ≤ 0
    · rw [realizedOn_of_adding (Or.inr ⟨short, buys⟩), max_eq_right (by omega),
        max_eq_right (by omega)]
      push_cast
      linarith
    · obtain ⟨entry, known⟩ := Option.isSome_iff_exists.mp (within.basis.mpr (by omega))
      rw [realizedOn_of_sale (by omega) buys within.basis, known, Option.getD_some]
      obtain ⟨closed, isClosed⟩ : ∃ closed, closed = min nf.size ts.position := ⟨_, rfl⟩
      have left : max 0 (-(ts.position + -nf.size)) = nf.size - closed := by omega
      have whole : max 0 (-ts.position) = 0 := by omega
      have some_ : (0 : ℚ) ≤ closed := by exact_mod_cast (by omega : 0 ≤ closed)
      have most : (0 : ℚ) ≤ nf.size - closed := by
        exact_mod_cast (by omega : 0 ≤ nf.size - closed)
      rw [← isClosed, left, whole]
      have bought := mul_nonneg some_ (within.low entry known)
      have opened := mul_nonneg most low
      push_cast
      linarith

/-- A fill locks at most a dollar for each of its contracts. -/
theorem collateral_filled_le {ts : TickerState} {nf : NormalizedFill} (within : WithinDollar ts)
    (low : 0 ≤ nf.priceYes) (high : nf.priceYes ≤ 1) (positive : 1 ≤ nf.size) (nowEpoch : ℚ) :
    collateral (ts.filled nf nowEpoch) ≤ collateral ts + nf.size := by
  have balance := realized_sub_cost within.basis positive
  have locks := realizedOn_le within low high (by omega)
  have position : (ts.filled nf nowEpoch).position = ts.position + nf.signedSize := rfl
  have entry : (ts.filled nf nowEpoch).entryPrice = foldEntryPrice ts.position
      (ts.position + nf.signedSize) ts.entryPrice nf.size nf.priceYes := rfl
  rw [collateral_eq within.basis, collateral_eq (hasBasis_filled within.basis nowEpoch), position,
    entry]
  dsimp only at balance
  linarith

/-! ## All active markets -/

theorem positionValue_eq (s : TraderState) (active : Finset String) :
    s.positionValue (some active) = Dict.sumOf
      (fun ticker ts => if ticker ∈ active then collateral ts else 0) s.tickers := by
  refine Dict.sumOf_congr fun ticker ts _ => ?_
  unfold collateral
  by_cases quoted : ticker ∈ active <;> simp [quoted]

/-- A market that is rewritten moves the total by what it locks more than before. -/
theorem positionValue_insert {s s' : TraderState} {ticker : String} {ts : TickerState}
    (category : String) (written : s'.tickers = s.tickers.insert ticker ts)
    (active : Finset String) :
    s'.positionValue (some active) = s.positionValue (some active) +
      if ticker ∈ active then collateral ts - collateral (s.tickerD ticker category) else 0 := by
  rw [positionValue_eq, positionValue_eq, written]
  unfold TraderState.tickerD
  cases known : s.tickers.lookup ticker with
  | none =>
    have nothing : collateral (TickerState.new category) = 0 := collateral_of_flat rfl
    rw [Dict.sumOf_insert_of_notMem _ _ (Finmap.lookup_eq_none.mp known), Option.getD_none, nothing]
    split_ifs <;> ring
  | some before =>
    rw [Dict.sumOf_insert, Dict.sumOf_of_lookup _ known, Option.getD_some]
    split_ifs <;> ring

theorem withinDollar_tickerD {s : TraderState} (all : AllWithinDollar s) (ticker category : String) :
    WithinDollar (s.tickerD ticker category) := by
  unfold TraderState.tickerD
  cases known : s.tickers.lookup ticker with
  | none => exact withinDollar_flat rfl rfl
  | some ts => exact all ticker ts known

/-! ## At stake -/

/-- Contracts of the active markets that may still be filled, or are and wait to be booked. -/
def outstanding (w : World) : ℤ :=
  (w.pending.map fun nf => if nf.ticker ∈ w.trader.activeSet then nf.size else 0).sum +
    Dict.sumOf (fun _ order => if order.ticker ∈ w.trader.activeSet then order.remaining else 0)
      w.exchange.resting

/-- What the active positions lock, and a dollar for each contract outstanding. -/
def atStake (w : World) : ℚ :=
  w.trader.state.positionValue (some w.trader.activeSet) + outstanding w

/-- Prices are within a dollar and sizes positive, where they count. -/
structure Sound (w : World) : Prop where
  within : AllWithinDollar w.trader.state
  sizes : 1 ≤ w.trader.cfg.mm.quoteSize ∧ 1 ≤ w.trader.cfg.mm.extremeQuoteSize
  resting : ∀ id order, w.exchange.resting.lookup id = some order → 0 < order.remaining
  pending : ∀ nf ∈ w.pending, 0 < nf.size ∧ 0 ≤ nf.priceYes ∧ nf.priceYes ≤ 1

/-- A plan is executed below the cap alone, as the risk check demands; an order is filled within a
    dollar, for no more than is left of it; what is booked has executed. -/
def Gated (w : World) : DeskEvent → Prop
  | .quote out category ticker action fvShift _ =>
    (planOf out category ticker action fvShift w.trader).isSome = true →
      w.trader.state.positionValue (some w.trader.activeSet) < w.trader.cfg.live.maxPositionValue
  | .execute nf => Executes w.exchange nf ∧ 0 ≤ nf.priceYes ∧ nf.priceYes ≤ 1
  | .deliver _ raw => ∀ nf ∈ normalizeFill raw, nf.fillId ∉ w.trader.state.fillIds → nf ∈ w.pending
  | .data .. => True
  | .spotCancel _ => True

/-- The cap, with what was outstanding right after the plan that was executed last. -/
def ceiling (w : World) (limit : ℚ) : DeskEvent → ℚ
  | .quote out category ticker action fvShift allow =>
    if (planOf out category ticker action fvShift w.trader).isSome then
      w.trader.cfg.live.maxPositionValue +
        outstanding (w.step (.quote out category ticker action fvShift allow))
    else limit
  | _ => limit

/-- What the active positions lock is within the ceiling by what is outstanding. -/
def BelowCeiling (s : World × ℚ) : Prop := 0 ≤ outstanding s.1 ∧ atStake s.1 ≤ s.2

section Steps

variable {w : World}

theorem pending_nonneg (sound : Sound w) {nf : NormalizedFill} (waits : nf ∈ w.pending) :
    0 ≤ if nf.ticker ∈ w.trader.activeSet then nf.size else 0 := by
  have positive := (sound.pending nf waits).1
  split_ifs <;> omega

theorem resting_nonneg (sound : Sound w) (id : String) :
    0 ≤ (w.exchange.resting.lookup id).elim 0 fun order =>
      if order.ticker ∈ w.trader.activeSet then order.remaining else 0 := by
  cases found : w.exchange.resting.lookup id with
  | none => exact le_rfl
  | some order =>
    have positive := sound.resting id order found
    rw [Option.elim_some]
    split_ifs <;> omega

theorem outstanding_nonneg (sound : Sound w) : 0 ≤ outstanding w := by
  refine add_nonneg (List.sum_nonneg fun size member => ?_) ?_
  · obtain ⟨nf, waits, rfl⟩ := List.mem_map.mp member
    exact pending_nonneg sound waits
  · rw [← Dict.sumOf_empty (fun (_ : String) (_ : RestingOrder) => (0 : ℤ))]
    exact Dict.sumOf_le_of_share fun id => resting_nonneg sound id

theorem activeSet_step (w : World) (event : DeskEvent) :
    (w.step event).trader.activeSet = w.trader.activeSet := by
  cases event with
  | data ticker category book tick => rfl
  | quote out category ticker action fvShift allow =>
    obtain ⟨_, only⟩ := quoteCycle_only out category ticker action fvShift allow w.trader
    rw [World.step, World.settleCalls, only]
  | spotCancel out => rfl
  | execute nf => rfl
  | deliver out raw =>
    obtain ⟨⟨_, _, only⟩, _⟩ := bookkeeping_processFill out raw w.trader
    rw [World.step, only]

/-- A market that keeps its position and entry price keeps what it locks. -/
theorem positionValue_of_kept {s s' : TraderState} {ticker : String} {ts : TickerState}
    (category : String) (written : s'.tickers = s.tickers.insert ticker ts)
    (position : ts.position = (s.tickerD ticker category).position)
    (entryPrice : ts.entryPrice = (s.tickerD ticker category).entryPrice)
    (active : Finset String) : s'.positionValue (some active) = s.positionValue (some active) := by
  have same : collateral ts = collateral (s.tickerD ticker category) := by
    unfold collateral
    rw [position, entryPrice]
  rw [positionValue_insert category written, same, sub_self, ite_self, add_zero]

theorem within_of_kept {s s' : TraderState} {ticker : String} {ts : TickerState}
    (category : String) (all : AllWithinDollar s) (written : s'.tickers = s.tickers.insert ticker ts)
    (position : ts.position = (s.tickerD ticker category).position)
    (entryPrice : ts.entryPrice = (s.tickerD ticker category).entryPrice) : AllWithinDollar s' := by
  refine allWithinDollar_insert all written ?_
  obtain ⟨basis, low, high⟩ := withinDollar_tickerD all ticker category
  exact ⟨by rw [HasBasis, position, entryPrice]; exact basis, entryPrice ▸ low, entryPrice ▸ high⟩

/-! ### Quote cycles -/

theorem positionValue_quote {out : Outside} {category ticker : String} {action : Action} {fvShift : ℚ}
    (allow : Bool × Bool) (active : Finset String) :
    (w.step (.quote out category ticker action fvShift allow)).trader.state.positionValue
        (some active) = w.trader.state.positionValue (some active) := by
  obtain ⟨ts, written, _, _, position, entryPrice⟩ :=
    quoteCycle_written out category ticker action fvShift allow w.trader
  exact positionValue_of_kept category written position entryPrice active

theorem sizes_of_plan {out : Outside} {category ticker : String} {action : Action} {fvShift : ℚ}
    {plan : QuotePlan} (sound : Sound w)
    (planned : planOf out category ticker action fvShift w.trader = some plan) :
    1 ≤ plan.bidSize ∧ 1 ≤ plan.askSize := by
  obtain ⟨_, bid, ask, lastQuoteTime, rfl⟩ := planOf_some planned
  obtain ⟨quoteSize, extremeSize⟩ := sound.sizes
  simp only [sizedPlan]
  constructor
  · split_ifs <;> assumption
  · split_ifs <;> assumption

theorem sound_quote {out : Outside} {category ticker : String} {action : Action} {fvShift : ℚ}
    (allow : Bool × Bool) (sound : Sound w) :
    Sound (w.step (.quote out category ticker action fvShift allow)) := by
  obtain ⟨ts, written, _, _, position, entryPrice⟩ :=
    quoteCycle_written out category ticker action fvShift allow w.trader
  refine ⟨within_of_kept category sound.within written position entryPrice, ?_, ?_, sound.pending⟩
  · rw [(params_step w _).1]
    exact sound.sizes
  · intro id order found
    cases planned : planOf out category ticker action fvShift w.trader with
    | none =>
      rw [(unplanned_quote allow planned).1] at found
      exact sound.resting id order found
    | some plan =>
      obtain ⟨bids, asks⟩ := sizes_of_plan sound planned
      obtain ⟨_, _, resting, after⟩ := exchange_quote allow planned
      rw [after, lookup_restOption, lookup_restOption, resting] at found
      split_ifs at found
      · cases found
        exact asks
      · cases found
        exact bids
      · exact sound.resting id order found

theorem belowCeiling_quote {out : Outside} {category ticker : String} {action : Action} {fvShift : ℚ}
    {allow : Bool × Bool} {limit : ℚ} (below : atStake w ≤ limit)
    (gated : Gated w (.quote out category ticker action fvShift allow)) :
    atStake (w.step (.quote out category ticker action fvShift allow)) ≤
      ceiling w limit (.quote out category ticker action fvShift allow) := by
  have quoted := activeSet_step w (.quote out category ticker action fvShift allow)
  rw [atStake, quoted, positionValue_quote, ceiling]
  split_ifs with plans
  · exact add_le_add_left (gated plans).le _
  · -- no plan, no order
    have exchange := (unplanned_quote allow (Option.not_isSome_iff_eq_none.mp plans)).1
    have same : outstanding (w.step (.quote out category ticker action fvShift allow)) =
        outstanding w := by
      rw [outstanding, outstanding, quoted, exchange]
      rfl
    rw [same]
    exact below

/-! ### The other steps -/

theorem sound_spotCancel (sound : Sound w) (out : Outside) : Sound (w.step (.spotCancel out)) := by
  obtain ⟨_, rests⟩ := exchange_spotCancel w out
  refine ⟨fun ticker ts found => ?_, sound.sizes, fun id order found => ?_, sound.pending⟩
  · rw [World.step, World.settleCalls, lookup_cancelSpotBoundQuotes] at found
    obtain ⟨before, known, rfl⟩ := Option.map_eq_some_iff.mp found
    obtain ⟨basis, low, high⟩ := sound.within ticker before known
    split_ifs
    · exact ⟨basis, low, high⟩
    · exact ⟨basis, low, high⟩
  · exact sound.resting id order ((rests id order).mp found).1

/-- The gate's cancels leave the positions and take orders away. -/
theorem atStake_spotCancel (sound : Sound w) (out : Outside) :
    atStake (w.step (.spotCancel out)) ≤ atStake w := by
  obtain ⟨_, rests⟩ := exchange_spotCancel w out
  have positions : (w.step (.spotCancel out)).trader.state.positionValue (some w.trader.activeSet) =
      w.trader.state.positionValue (some w.trader.activeSet) := by
    rw [positionValue_eq, positionValue_eq]
    have share (ticker : String) :
        ((w.step (.spotCancel out)).trader.state.tickers.lookup ticker).elim 0
            (fun ts => if ticker ∈ w.trader.activeSet then collateral ts else 0) =
          (w.trader.state.tickers.lookup ticker).elim 0
            fun ts => if ticker ∈ w.trader.activeSet then collateral ts else 0 := by
      rw [World.step, World.settleCalls, lookup_cancelSpotBoundQuotes]
      cases w.trader.state.tickers.lookup ticker with
      | none => rfl
      | some ts =>
        rw [Option.map_some, Option.elim_some, Option.elim_some]
        split_ifs <;> rfl
    exact le_antisymm (Dict.sumOf_le_of_share fun ticker => (share ticker).le)
      (Dict.sumOf_le_of_share fun ticker => (share ticker).ge)
  have fewer : outstanding (w.step (.spotCancel out)) ≤ outstanding w := by
    refine add_le_add_right (Dict.sumOf_le_of_share fun id => ?_) _
    cases found : (w.step (.spotCancel out)).exchange.resting.lookup id with
    | none => exact resting_nonneg sound id
    | some order => rw [((rests id order).mp found).1]; exact le_rfl
  rw [atStake, atStake, activeSet_step, positions]
  exact add_le_add_right (by exact_mod_cast fewer) _

/-- An execution moves its contracts from what rests to what waits to be booked. -/
theorem outstanding_execute {nf : NormalizedFill} (executes : Executes w.exchange nf) :
    outstanding (w.step (.execute nf)) = outstanding w := by
  have moved := sumOf_execute executes fun ticker _ => ticker ∈ w.trader.activeSet
  have after : outstanding (w.step (.execute nf)) =
      ((w.pending ++ [nf]).map fun nf => if nf.ticker ∈ w.trader.activeSet then nf.size else 0).sum +
        Dict.sumOf (fun _ order => if order.ticker ∈ w.trader.activeSet then order.remaining else 0)
          (w.exchange.execute nf).resting := rfl
  dsimp only at moved
  rw [after, outstanding, List.map_append, List.sum_append, List.map_singleton, List.sum_singleton]
  omega

theorem sound_execute {nf : NormalizedFill} (sound : Sound w) (gated : Gated w (.execute nf)) :
    Sound (w.step (.execute nf)) := by
  obtain ⟨executes, low, high⟩ := gated
  refine ⟨sound.within, sound.sizes, fun id order rests => ?_, fun waiting member => ?_⟩
  · obtain ⟨before, found, _, _, positive⟩ := rests_execute executes rests
    exact positive (sound.resting id before found)
  · rcases List.mem_append.mp member with old | new
    · exact sound.pending waiting old
    · obtain ⟨_, _, _, _, _, _, positive, _⟩ := executes
      rw [List.mem_singleton.mp new]
      exact ⟨positive, low, high⟩

/-- A booking takes a fill off what waits and locks at most a dollar for each of its contracts. -/
theorem deliver_step {out : Outside} {raw : Value} (sound : Sound w)
    (gated : Gated w (.deliver out raw)) :
    Sound (w.step (.deliver out raw)) ∧ atStake (w.step (.deliver out raw)) ≤ atStake w := by
  have params := params_step w (.deliver out raw)
  have quoted := activeSet_step w (.deliver out raw)
  have ends := processFill_outcome out raw w.trader
  unfold World.step at params quoted ⊢
  dsimp only at params quoted ⊢
  generalize w.trader.processFill out raw = tr' at ends params quoted
  cases ends with
  | ignored stale =>
    rw [stillPending_of_stale stale]
    exact ⟨sound, le_rfl⟩
  | booked nf normal fresh _ written =>
    have waits := gated nf normal fresh
    obtain ⟨positive, low, high⟩ := sound.pending nf waits
    have before := withinDollar_tickerD sound.within nf.ticker (w.trader.fillCategory nf.ticker)
    rw [stillPending_of_fresh normal fresh]
    refine ⟨⟨allWithinDollar_insert sound.within written
      (withinDollar_filled before low high positive.le out.epoch), by rw [params.1]; exact sound.sizes,
      sound.resting, fun other member => sound.pending other (List.mem_of_mem_erase member)⟩, ?_⟩
    have locks := collateral_filled_le before low high positive out.epoch
    have split := List.sum_map_erase
      (fun nf => if nf.ticker ∈ w.trader.activeSet then nf.size else 0) waits
    simp only [atStake, outstanding]
    rw [quoted, positionValue_insert _ written, ← split]
    split_ifs
    · push_cast
      linarith
    · push_cast
      linarith

/-- One step keeps what is at stake within the ceiling. -/
theorem belowCeiling_step {s : World × ℚ} {event : DeskEvent} (sound : Sound s.1)
    (below : atStake s.1 ≤ s.2) (gated : Gated s.1 event) :
    Sound (withGhost World.step ceiling s event).1 ∧
      atStake (withGhost World.step ceiling s event).1 ≤ (withGhost World.step ceiling s event).2 := by
  obtain ⟨w, limit⟩ := s
  unfold withGhost
  dsimp only at sound below gated ⊢
  cases event with
  | data ticker category book tick =>
    have kept := TraderState.setTicker_tickers w.trader.state ticker
      { w.trader.state.tickerD ticker category with book, tick }
    refine ⟨⟨within_of_kept category sound.within kept rfl rfl, sound.sizes, sound.resting,
      sound.pending⟩, ?_⟩
    have same := positionValue_of_kept category kept rfl rfl w.trader.activeSet
    exact (add_le_add_left same.le _).trans below
  | quote out category ticker action fvShift allow =>
    exact ⟨sound_quote allow sound, belowCeiling_quote below gated⟩
  | spotCancel out => exact ⟨sound_spotCancel sound out, (atStake_spotCancel sound out).trans below⟩
  | execute nf =>
    refine ⟨sound_execute sound gated, ?_⟩
    rw [atStake, outstanding_execute gated.1]
    exact below
  | deliver out raw =>
    obtain ⟨sound', fewer⟩ := deliver_step sound gated
    exact ⟨sound', fewer.trans below⟩

end Steps

/-! ## Runs -/

/-- In every run that executes plans below the cap alone: what the active positions lock, with a
    dollar for each contract that may still be filled or booked, stays within the cap and what was
    outstanding right after the last plan that was executed. -/
theorem overshoot_bounded {w : World} (sound : Sound w) {events : List DeskEvent}
    (gated : Along World.step Gated w events) :
    Throughout (withGhost World.step ceiling) BelowCeiling (w, atStake w) events := by
  have kept : Throughout (withGhost World.step ceiling)
      (fun s => Sound s.1 ∧ atStake s.1 ≤ s.2) (w, atStake w) events :=
    throughout_of_along (fun _ _ holds gated => belowCeiling_step holds.1 holds.2 gated)
      ⟨sound, le_rfl⟩ (along_withGhost _ gated)
  exact kept.imp fun _ holds => ⟨outstanding_nonneg holds.1, holds.2⟩

/-- A desk that may lock half a dollar before it stops quoting. -/
def riskDesk : World where
  trader :=
    { Trader.start
        { deskCfg with
          live := { maxDailyLoss := 100, maxPositionValue := 1 / 2, stopLossThreshold := -100 } } 0 with
      activeTickers := Finmap.singleton "KXBTCD-1" "KXBTCD"
      activeSet := {"KXBTCD-1"} }

theorem sound_riskDesk : Sound riskDesk where
  within ticker ts found := by cases found
  sizes := by decide
  resting id order found := by cases found
  pending := nofun

/-- The bid of two fills whole: the position locks more than the cap, and less than the ceiling. -/
theorem overshoot_bounded_full_fill :
    let events := quotes ++ fills (capFill "f1" "b1" 2)
    let reached := run (withGhost World.step ceiling) (riskDesk, atStake riskDesk) events
    reached.1.trader.state.positionValue (some reached.1.trader.activeSet) = 21 / 25 ∧
      reached.1.trader.cfg.live.maxPositionValue = 1 / 2 ∧ reached.2 = 9 / 2 ∧
      Throughout (withGhost World.step ceiling) BelowCeiling (riskDesk, atStake riskDesk) events := by
  intro events reached
  refine ⟨by decide +kernel, by decide +kernel, by decide +kernel,
    overshoot_bounded sound_riskDesk (along_append.mpr ⟨⟨trivial, ?_, trivial⟩, ?_, ?_, trivial⟩)⟩
  · exact fun _ => by decide +kernel
  · exact ⟨⟨"b1", { ticker := "KXBTCD-1", side := .buy, remaining := 2 }, rfl, by decide +kernel,
      rfl, rfl, by decide, by decide⟩, by decide +kernel, by decide +kernel⟩
  · intro nf normal _
    have same : normalizeFill (report (capFill "f1" "b1" 2)) = some (capFill "f1" "b1" 2) := by
      decide +kernel
    rw [Option.mem_def, same, Option.some.injEq] at normal
    exact normal ▸ List.mem_append_right _ (List.mem_singleton_self _)

end KalshiMm.Verified.MoneyAtRisk
