import KalshiMm.Verified.DeskSteps

/-!
# The inventory cap

What a market can still reach on one side is its position, plus the executed fills that are not
booked yet, plus what rests on the exchange.  While a quote cycle only ever replaces orders it
knows of, this exposure stays within the cap, and so does the position.
-/

namespace KalshiMm.Verified.InventoryCap

open KalshiMm.Lib KalshiMm.Model

/-! ## Exposure -/

/-- Buys move the position up, sells down. -/
def direction : OrderSide → ℤ
  | .buy => 1
  | .sell => -1

def fillSide (nf : NormalizedFill) : OrderSide := if nf.longYes then .buy else .sell

theorem signedSize_eq (nf : NormalizedFill) : nf.signedSize = direction (fillSide nf) * nf.size := by
  unfold NormalizedFill.signedSize fillSide
  split_ifs <;> simp [direction]

/-- Executed contracts of one side of a market that are not booked yet. -/
def unbooked (ticker : String) (side : OrderSide) (nf : NormalizedFill) : ℤ :=
  if nf.ticker = ticker ∧ fillSide nf = side then nf.size else 0

def restingShare (ticker : String) (side : OrderSide) (_ : String) (order : RestingOrder) : ℤ :=
  if order.ticker = ticker ∧ order.side = side then order.remaining else 0

/-- The position the market reaches if everything on one side is filled and booked, in that
    side's direction. -/
def exposure (ticker : String) (side : OrderSide) (w : World) : ℤ :=
  direction side * w.trader.positionOf ticker + (w.pending.map (unbooked ticker side)).sum +
    Dict.sumOf (restingShare ticker side) w.exchange.resting

def capOf (tr : Trader) (category : String) : ℤ :=
  ((tr.cats.lookup category).map CategoryConfig.maxInventory).getD 5

/-- Sizes are positive where they count, and neither side's exposure is over the cap. -/
structure Covered (ticker category : String) (w : World) : Prop where
  sizes : 1 ≤ w.trader.cfg.mm.quoteSize ∧ 1 ≤ w.trader.cfg.mm.extremeQuoteSize
  issued : RestingIssued w.exchange
  resting : ∀ id order, w.exchange.resting.lookup id = some order → order.ticker = ticker →
    0 < order.remaining
  pending : ∀ nf ∈ w.pending, nf.ticker = ticker → 0 < nf.size
  capped : ∀ side, exposure ticker side w ≤ capOf w.trader category

/-! ## What a run may assume, and what it needs -/

/-- The fill is one of a resting order, for no more than is left of it. -/
def Executes (ex : Exchange) (nf : NormalizedFill) : Prop :=
  ∃ id order, nf.orderId = some id ∧ ex.resting.lookup id = some order ∧
    order.ticker = nf.ticker ∧ order.side = fillSide nf ∧ 0 < nf.size ∧ nf.size ≤ order.remaining

/-- Placements get new ids, cancels succeed, the market is quoted under its own category with
    every executed fill booked, and what is booked has executed. -/
def Orderly (ticker category : String) (w : World) : DeskEvent → Prop
  | .quote out category' ticker' _ _ _ =>
    Issues out.api.toOrderApi w.exchange.issued ∧
      (∀ id, cancelled out.api.toOrderApi id = true) ∧
      (ticker' = ticker → category' = category ∧ ∀ nf ∈ w.pending, nf.ticker ≠ ticker)
  | .execute nf => Executes w.exchange nf
  | .deliver _ raw => ∀ nf ∈ normalizeFill raw, nf.fillId ∉ w.trader.state.fillIds → nf ∈ w.pending
  | .data .. => True
  | .spotCancel _ => True

/-- When the market is requoted, every order of it that rests is on record. -/
def NoneLost (ticker : String) (w : World) : DeskEvent → Prop
  | .quote out category ticker' action fvShift _ =>
    ticker' = ticker → (planOf out category ticker action fvShift w.trader).isSome = true →
      ∀ id order, w.exchange.resting.lookup id = some order → order.ticker = ticker →
        id ∈ w.trader.state.recordedIds ticker
  | _ => True

/-! ## Executions -/

section Executions

variable {ex : Exchange} {nf : NormalizedFill}

theorem execute_of_lookup {id : String} {order : RestingOrder} (named : nf.orderId = some id)
    (found : ex.resting.lookup id = some order) :
    ex.execute nf =
      if order.remaining ≤ nf.size then { ex with resting := ex.resting.erase id }
      else
        { ex with
          resting := ex.resting.insert id { order with remaining := order.remaining - nf.size } } := by
  simp only [Exchange.execute, named, found]

/-- An execution takes its size off the contracts that rest, of whichever markets and sides. -/
theorem sumOf_execute (executes : Executes ex nf) (counts : String → OrderSide → Prop)
    [∀ ticker side, Decidable (counts ticker side)] :
    let share (_ : String) (order : RestingOrder) : ℤ :=
      if counts order.ticker order.side then order.remaining else 0
    Dict.sumOf share (ex.execute nf).resting + (if counts nf.ticker (fillSide nf) then nf.size else 0) =
      Dict.sumOf share ex.resting := by
  intro share
  obtain ⟨id, order, named, found, sameTicker, sameSide, positive, enough⟩ := executes
  rw [Dict.sumOf_of_lookup _ found, execute_of_lookup named found, ← sameTicker, ← sameSide]
  -- a fill of all that is left erases the order, any other leaves the difference
  split_ifs with whole counted counted
  · have all : order.remaining = nf.size := le_antisymm whole enough
    rw [← all, add_comm]
    simp only [share, if_pos counted]
  · rw [add_comm]
    simp only [share, if_neg counted]
  · rw [Dict.sumOf_insert]
    simp only [share, if_pos counted]
    ring
  · rw [Dict.sumOf_insert]
    simp only [share, if_neg counted]
    ring

/-- What an execution leaves of an order is not nothing. -/
theorem rests_execute (executes : Executes ex nf) {id : String} {order : RestingOrder}
    (rests : (ex.execute nf).resting.lookup id = some order) :
    ∃ before, ex.resting.lookup id = some before ∧ order.ticker = before.ticker ∧
      order.side = before.side ∧ (0 < before.remaining → 0 < order.remaining) := by
  obtain ⟨filled, before, named, found, _⟩ := executes
  rw [execute_of_lookup named found] at rests
  split_ifs at rests with whole
  · exact ⟨order, Dict.lookup_of_lookup_erase rests, rfl, rfl, fun positive => positive⟩
  · rw [Dict.lookup_insert_eq_ite] at rests
    split_ifs at rests with same
    · cases rests
      refine ⟨before, same ▸ found, rfl, rfl, fun _ => ?_⟩
      have left : 0 < before.remaining - nf.size := by omega
      exact left
    · exact ⟨order, rests, rfl, rfl, fun positive => positive⟩

end Executions

/-! ## Sums -/

section Sums

variable {ticker category : String} {w : World}

theorem unbooked_nonneg (covered : Covered ticker category w) (side : OrderSide) :
    0 ≤ (w.pending.map (unbooked ticker side)).sum := by
  apply List.sum_nonneg
  intro size member
  obtain ⟨nf, waiting, rfl⟩ := List.mem_map.mp member
  unfold unbooked
  split_ifs with counted
  · exact (covered.pending nf waiting counted.1).le
  · exact le_rfl

theorem restingShare_nonneg (covered : Covered ticker category w) (side : OrderSide) (id : String) :
    0 ≤ (w.exchange.resting.lookup id).elim 0 (restingShare ticker side id) := by
  cases rests : w.exchange.resting.lookup id with
  | none => exact le_rfl
  | some order =>
    rw [Option.elim_some, restingShare]
    split_ifs with counted
    · exact (covered.resting id order rests counted.1).le
    · exact le_rfl

theorem resting_nonneg (covered : Covered ticker category w) (side : OrderSide) :
    0 ≤ Dict.sumOf (restingShare ticker side) w.exchange.resting := by
  rw [← Dict.sumOf_empty (restingShare ticker side)]
  exact Dict.sumOf_le_of_share fun id => restingShare_nonneg covered side id

theorem position_le (covered : Covered ticker category w) (side : OrderSide) :
    direction side * w.trader.positionOf ticker ≤ capOf w.trader category := by
  have capped := covered.capped side
  have waiting := unbooked_nonneg covered side
  have resting := resting_nonneg covered side
  unfold exposure at capped
  omega

theorem abs_position_le (covered : Covered ticker category w) :
    |w.trader.positionOf ticker| ≤ capOf w.trader category := by
  have long := position_le covered .buy
  have short := position_le covered .sell
  simp only [direction] at long short
  exact abs_le.mpr ⟨by omega, by omega⟩

theorem resting_le_of_subset (ex : Exchange) (covered : Covered ticker category w)
    (fewer : ∀ id order, ex.resting.lookup id = some order → order.ticker = ticker →
      w.exchange.resting.lookup id = some order) (side : OrderSide) :
    Dict.sumOf (restingShare ticker side) ex.resting ≤
      Dict.sumOf (restingShare ticker side) w.exchange.resting := by
  refine Dict.sumOf_le_of_share fun id => ?_
  have nonneg := restingShare_nonneg covered side id
  cases rests : ex.resting.lookup id with
  | none => exact nonneg
  | some order =>
    by_cases here : order.ticker = ticker
    · rw [fewer id order rests here]
    · rw [Option.elim_some, restingShare, if_neg fun counted => here counted.1]
      exact nonneg

theorem resting_le_of_single (ex : Exchange) (side : OrderSide) {id : Option String}
    {order : RestingOrder} (positive : 0 ≤ order.remaining)
    (only : ∀ other rested, ex.resting.lookup other = some rested → rested.ticker = ticker →
      rested.side = side → id = some other ∧ order = rested) :
    Dict.sumOf (restingShare ticker side) ex.resting ≤ id.elim 0 fun _ => order.remaining := by
  -- compared with an exchange on which this order rests alone
  have single : Dict.sumOf (fun _ (rested : RestingOrder) => rested.remaining)
      (restOption {} id order).resting = id.elim 0 fun _ => order.remaining := by
    cases id with
    | none => rfl
    | some id =>
      rw [restOption, Option.elim_some, Exchange.rest, Dict.sumOf_insert_of_notMem _ _
        Finmap.notMem_empty, Dict.sumOf_empty, add_zero, Option.elim_some]
  rw [← single]
  refine Dict.sumOf_le_of_share fun other => ?_
  rw [lookup_restOption]
  cases rests : ex.resting.lookup other with
  | none =>
    split_ifs
    · exact positive
    · exact le_rfl
  | some rested =>
    rw [Option.elim_some, restingShare]
    split_ifs with counted same same
    · rw [(only other rested rests counted.1 counted.2).2]
      exact le_rfl
    · exact absurd (only other rested rests counted.1 counted.2).1 same
    · exact positive
    · exact le_rfl

/-- Where one order at most rests on a side, it need only fit under the cap itself. -/
theorem fits_of_single {ex : Exchange} (side : OrderSide) {id : Option String}
    {order : RestingOrder} {position cap : ℤ} (positive : 0 ≤ order.remaining)
    (only : ∀ other rested, ex.resting.lookup other = some rested → rested.ticker = ticker →
      rested.side = side → id = some other ∧ order = rested)
    (within : direction side * position ≤ cap)
    (fits : ∀ other, id = some other → direction side * position + order.remaining ≤ cap) :
    direction side * position + Dict.sumOf (restingShare ticker side) ex.resting ≤ cap := by
  have single := resting_le_of_single ex side positive only
  cases left : id with
  | none =>
    rw [left, Option.elim_none] at single
    omega
  | some other =>
    have room := fits other left
    rw [left, Option.elim_some] at single
    omega

end Sums

/-! ## Steps -/

section Steps

variable {ticker category : String} {w : World}

theorem Covered.of_exposure_le {w' : World} (covered : Covered ticker category w)
    (params : w'.trader.cfg = w.trader.cfg ∧ w'.trader.cats = w.trader.cats)
    (issued : RestingIssued w'.exchange)
    (resting : ∀ id order, w'.exchange.resting.lookup id = some order → order.ticker = ticker →
      0 < order.remaining)
    (pending : ∀ nf ∈ w'.pending, nf.ticker = ticker → 0 < nf.size)
    (below : ∀ side, exposure ticker side w' ≤ exposure ticker side w) :
    Covered ticker category w' where
  sizes := by rw [params.1]; exact covered.sizes
  issued := issued
  resting := resting
  pending := pending
  capped side := by
    rw [capOf, params.2]
    exact (below side).trans (covered.capped side)

theorem sides_of_plan {out : Outside} {action : Action} {fvShift : ℚ} {plan : QuotePlan}
    (covered : Covered ticker category w)
    (planned : planOf out category ticker action fvShift w.trader = some plan) :
    1 ≤ plan.bidSize ∧ 1 ≤ plan.askSize ∧
      (plan.placeBid = true → w.trader.positionOf ticker + plan.bidSize ≤ capOf w.trader category) ∧
      (plan.placeAsk = true → -w.trader.positionOf ticker + plan.askSize ≤
        capOf w.trader category) := by
  obtain ⟨_, bid, ask, lastQuoteTime, rfl⟩ := planOf_some planned
  obtain ⟨quoteSize, extremeSize⟩ := covered.sizes
  rw [positionOf_eq w.trader ticker category]
  simp only [sizedPlan, decide_eq_true_eq, capOf]
  refine ⟨?_, ?_, fun fits => ?_, fun fits => ?_⟩
  · split_ifs <;> assumption
  · split_ifs <;> assumption
  · exact (abs_le.mp fits).2
  · have below := (abs_le.mp fits).1
    omega

/-- A requote of the market leaves on each side at most its own order, which fits under the cap. -/
theorem capped_requote {out : Outside} {action : Action} {fvShift : ℚ} {plan : QuotePlan}
    (allow : Bool × Bool) (covered : Covered ticker category w)
    (issues : Issues out.api.toOrderApi w.exchange.issued)
    (booked : ∀ nf ∈ w.pending, nf.ticker ≠ ticker)
    (planned : planOf out category ticker action fvShift w.trader = some plan)
    (cancels : ∀ id order, w.exchange.resting.lookup id = some order → order.ticker = ticker →
      id ∈ w.trader.state.recordedIds ticker ∧ cancelled out.api.toOrderApi id = true)
    (side : OrderSide) :
    exposure ticker side (w.step (.quote out category ticker action fvShift allow)) ≤
      capOf w.trader category := by
  obtain ⟨bidPositive, askPositive, bidFits, askFits⟩ := sides_of_plan covered planned
  have rests id order := lookup_quote allow issues covered.issued planned id order
  have position := position_le covered side
  -- every executed fill is booked when the market is requoted
  have none : (w.pending.map (unbooked ticker side)).sum = 0 := by
    refine List.sum_eq_zero fun size member => ?_
    obtain ⟨nf, waiting, rfl⟩ := List.mem_map.mp member
    exact if_neg fun here => booked nf waiting here.1
  have samePending : (w.step (.quote out category ticker action fvShift allow)).pending = w.pending :=
    rfl
  rw [exposure, positionOf_quote allow, samePending, none, add_zero]
  cases side with
  | buy =>
    -- what rested before was on record, so the cycle has cancelled it
    have only (other : String) (rested : RestingOrder)
        (found : (w.step (.quote out category ticker action fvShift
          allow)).exchange.resting.lookup other = some rested)
        (here : rested.ticker = ticker) (sided : rested.side = .buy) :
        bidId out ticker allow plan = some other ∧ bidOrder ticker plan = rested := by
      obtain ⟨bidden, rfl⟩ | ⟨_, rfl⟩ | ⟨old, survives⟩ := (rests other rested).mp found
      · exact ⟨bidden, rfl⟩
      · cases sided
      · exact absurd (cancels other rested old here) survives
    refine fits_of_single .buy (zero_le_one.trans bidPositive) only position fun id left => ?_
    have fits := bidFits (Bool.and_eq_true_iff.mp (placed_of_restingId left).1).1
    simp only [direction, bidOrder]
    omega
  | sell =>
    have only (other : String) (rested : RestingOrder)
        (found : (w.step (.quote out category ticker action fvShift
          allow)).exchange.resting.lookup other = some rested)
        (here : rested.ticker = ticker) (sided : rested.side = .sell) :
        askId out ticker allow plan = some other ∧ askOrder ticker plan = rested := by
      obtain ⟨_, rfl⟩ | ⟨asked, rfl⟩ | ⟨old, survives⟩ := (rests other rested).mp found
      · cases sided
      · exact ⟨asked, rfl⟩
      · exact absurd (cancels other rested old here) survives
    refine fits_of_single .sell (zero_le_one.trans askPositive) only position fun id left => ?_
    have fits := askFits (Bool.and_eq_true_iff.mp (placed_of_restingId left).1).1
    simp only [direction, askOrder]
    omega

theorem covered_quote {out : Outside} {category' ticker' : String} {action : Action} {fvShift : ℚ}
    (allow : Bool × Bool) (covered : Covered ticker category w)
    (orderly : Orderly ticker category w (.quote out category' ticker' action fvShift allow))
    (noneLost : NoneLost ticker w (.quote out category' ticker' action fvShift allow)) :
    Covered ticker category (w.step (.quote out category' ticker' action fvShift allow)) := by
  have params := params_step w (.quote out category' ticker' action fvShift allow)
  obtain ⟨issues, cancels, own⟩ := orderly
  cases planned : planOf out category' ticker' action fvShift w.trader with
  | none =>
    obtain ⟨exchange, _⟩ := unplanned_quote allow planned
    refine covered.of_exposure_le params ?_ ?_ covered.pending fun side => ?_
    · rw [exchange]; exact covered.issued
    · rw [exchange]; exact covered.resting
    · rw [exposure, exposure, positionOf_quote, exchange]
      exact le_rfl
  | some plan =>
    have rests id order := lookup_quote allow issues covered.issued planned id order
    by_cases here : ticker' = ticker
    · subst here
      obtain ⟨rfl, booked⟩ := own rfl
      obtain ⟨bidPositive, askPositive, _, _⟩ := sides_of_plan covered planned
      exact
        { sizes := by rw [params.1]; exact covered.sizes
          issued := restingIssued_quote allow issues covered.issued planned
          resting := fun id order found own => by
            obtain ⟨_, rfl⟩ | ⟨_, rfl⟩ | ⟨old, _⟩ := (rests id order).mp found
            · exact bidPositive
            · exact askPositive
            · exact covered.resting id order old own
          pending := covered.pending
          capped := fun side => by
            rw [capOf, params.2]
            refine capped_requote allow covered issues booked planned (fun id order old own => ?_) side
            exact ⟨noneLost rfl (by rw [planned]; rfl) id order old own, cancels id⟩ }
    -- a cycle of another market can only cancel here
    · have old (id : String) (order : RestingOrder)
          (found : (w.step (.quote out category' ticker' action fvShift
            allow)).exchange.resting.lookup id = some order) (own : order.ticker = ticker) :
          w.exchange.resting.lookup id = some order := by
        obtain ⟨_, rfl⟩ | ⟨_, rfl⟩ | ⟨old, _⟩ := (rests id order).mp found
        · exact absurd own here
        · exact absurd own here
        · exact old
      refine covered.of_exposure_le params (restingIssued_quote allow issues covered.issued planned)
        (fun id order found own => covered.resting id order (old id order found own) own)
        covered.pending fun side => ?_
      rw [exposure, exposure, positionOf_quote]
      exact add_le_add_right (resting_le_of_subset _ covered old side) _

theorem covered_spotCancel (covered : Covered ticker category w) (out : Outside) :
    Covered ticker category (w.step (.spotCancel out)) := by
  obtain ⟨issued, rests⟩ := exchange_spotCancel w out
  have samePosition : (w.step (.spotCancel out)).trader.positionOf ticker =
      w.trader.positionOf ticker := by
    unfold Trader.positionOf
    rw [World.step, World.settleCalls, lookup_cancelSpotBoundQuotes]
    cases w.trader.state.tickers.lookup ticker with
    | none => rfl
    | some ts => simp only [Option.map_some]; split_ifs <;> rfl
  refine covered.of_exposure_le (params_step w _) ?_ ?_ covered.pending fun side => ?_
  · intro id order found
    rw [issued]
    exact covered.issued id order ((rests id order).mp found).1
  · exact fun id order found => covered.resting id order ((rests id order).mp found).1
  · have fewer := resting_le_of_subset (w.step (.spotCancel out)).exchange covered
      (fun id order found _ => ((rests id order).mp found).1) side
    rw [exposure, exposure, samePosition]
    exact add_le_add_right fewer _

/-- An execution moves its size from what rests to what waits to be booked. -/
theorem covered_execute {nf : NormalizedFill} (covered : Covered ticker category w)
    (executes : Executes w.exchange nf) : Covered ticker category (w.step (.execute nf)) := by
  have moved (side : OrderSide) :
      Dict.sumOf (restingShare ticker side) (w.exchange.execute nf).resting + unbooked ticker side nf =
        Dict.sumOf (restingShare ticker side) w.exchange.resting :=
    sumOf_execute executes fun ticker' side' => ticker' = ticker ∧ side' = side
  have positive : 0 < nf.size := by
    obtain ⟨_, _, _, _, _, _, positive, _⟩ := executes
    exact positive
  refine covered.of_exposure_le (params_step w _) ?_ ?_ ?_ fun side => ?_
  · intro other rested rests
    obtain ⟨before, found', _⟩ := lookup_execute rests
    rw [World.step, issued_execute]
    exact covered.issued other before found'
  · intro other rested rests here
    obtain ⟨before, found, sameTicker, _, positive⟩ := rests_execute executes rests
    exact positive (covered.resting other before found (sameTicker ▸ here))
  · intro waiting member here
    rcases List.mem_append.mp member with old | new
    · exact covered.pending waiting old here
    · rw [List.mem_singleton.mp new]
      exact positive
  · have same := moved side
    simp only [exposure, World.step, List.map_append, List.sum_append, List.map_cons, List.map_nil,
      List.sum_cons, List.sum_nil]
    omega

/-- A booking moves a fill from what waits into the position. -/
theorem covered_deliver {out : Outside} {raw : Value} (covered : Covered ticker category w)
    (executed : ∀ nf ∈ normalizeFill raw, nf.fillId ∉ w.trader.state.fillIds → nf ∈ w.pending) :
    Covered ticker category (w.step (.deliver out raw)) := by
  have params := params_step w (.deliver out raw)
  have ends := processFill_outcome out raw w.trader
  unfold World.step at params ⊢
  dsimp only at params ⊢
  generalize w.trader.processFill out raw = tr' at ends params
  cases ends with
  | ignored stale =>
    rw [stillPending_of_stale stale]
    exact covered
  | booked nf normal fresh _ written =>
    have waiting := executed nf normal fresh
    rw [stillPending_of_fresh normal fresh]
    refine covered.of_exposure_le params covered.issued covered.resting
      (fun other member => covered.pending other (List.mem_of_mem_erase member)) fun side => ?_
    have split := List.sum_map_erase (unbooked ticker side) waiting
    simp only [exposure]
    rw [positionOf_of_insert written]
    -- the position moves by at most what stops waiting: toward the cap on the fill's own side, away
    -- from it on the other
    by_cases here : ticker = nf.ticker
    · have moved : direction side * (direction (fillSide nf) * nf.size) ≤ unbooked ticker side nf := by
        have size := covered.pending nf waiting here.symm
        unfold unbooked
        cases side <;> cases fillSide nf <;> simp [here, direction] <;> omega
      have booked : ((w.trader.state.tickerD nf.ticker (w.trader.fillCategory nf.ticker)).filled nf
          out.epoch).position = w.trader.positionOf ticker + direction (fillSide nf) * nf.size := by
        rw [← signedSize_eq, here, positionOf_eq w.trader nf.ticker (w.trader.fillCategory nf.ticker)]
        rfl
      rw [if_pos here, booked, mul_add]
      omega
    · rw [if_neg here, ← split, unbooked, if_neg fun counted => here counted.1.symm]
      omega

/-- A step keeps both exposures under the cap, if no order is lost when the market is requoted. -/
theorem covered_step {event : DeskEvent} (covered : Covered ticker category w)
    (orderly : Orderly ticker category w event) (noneLost : NoneLost ticker w event) :
    Covered ticker category (w.step event) := by
  cases event with
  | data name category' book tick =>
    have kept : ({ w.trader.state.tickerD name category' with book, tick } : TickerState).position =
        (w.trader.state.tickerD name category').position := rfl
    have samePosition : (w.step (.data name category' book tick)).trader.positionOf ticker =
        w.trader.positionOf ticker := positionOf_of_kept rfl kept ticker
    refine covered.of_exposure_le (params_step w _) covered.issued covered.resting covered.pending
      fun side => ?_
    rw [exposure, exposure, samePosition]
    exact le_rfl
  | quote out category' ticker' action fvShift allow =>
    exact covered_quote allow covered orderly noneLost
  | spotCancel out => exact covered_spotCancel covered out
  | execute nf => exact covered_execute covered orderly
  | deliver out raw => exact covered_deliver covered orderly

end Steps

/-! ## Runs -/

/-- In every orderly run that requotes the market only while every order of it that rests is on
    record, the position stays within the cap. -/
theorem inventory_capped {ticker category : String} {w : World} {events : List DeskEvent}
    (sizes : 1 ≤ w.trader.cfg.mm.quoteSize ∧ 1 ≤ w.trader.cfg.mm.extremeQuoteSize)
    (within : |w.trader.positionOf ticker| ≤ capOf w.trader category)
    (issued : RestingIssued w.exchange)
    (unquoted : ∀ id order, w.exchange.resting.lookup id = some order → order.ticker ≠ ticker)
    (booked : ∀ nf ∈ w.pending, nf.ticker ≠ ticker)
    (orderly : Along World.step (Orderly ticker category) w events)
    (noneLost : Along World.step (NoneLost ticker) w events) :
    Throughout World.step (fun w => |w.trader.positionOf ticker| ≤ capOf w.trader category) w
      events := by
  have waiting (side : OrderSide) : (w.pending.map (unbooked ticker side)).sum = 0 := by
    refine List.sum_eq_zero fun size member => ?_
    obtain ⟨nf, waits, rfl⟩ := List.mem_map.mp member
    exact if_neg fun here => booked nf waits here.1
  have resting (side : OrderSide) :
      Dict.sumOf (restingShare ticker side) w.exchange.resting ≤ 0 := by
    rw [← Dict.sumOf_empty (restingShare ticker side)]
    refine Dict.sumOf_le_of_share fun id => ?_
    cases rests : w.exchange.resting.lookup id with
    | none => exact le_rfl
    | some order => exact (if_neg fun here => unquoted id order rests here.1).le
  have starts : Covered ticker category w :=
    { sizes, issued
      resting := fun id order rests here => absurd here (unquoted id order rests)
      pending := fun nf waits here => absurd here (booked nf waits)
      capped := fun side => by
        have empty := resting side
        rw [exposure, waiting]
        obtain ⟨low, high⟩ := abs_le.mp within
        cases side <;> simp only [direction] <;> omega }
  have covered := throughout_of_along (fun _ _ covered condition =>
    covered_step covered condition.1 condition.2) starts (orderly.and noneLost)
  exact covered.imp fun _ => abs_position_le

/-! ## A requote over the rest of a partly filled bid -/

def capFill (fillId orderId : String) (size : ℤ) : NormalizedFill :=
  makerFill fillId orderId "KXBTCD-1" true size (42 / 100)

theorem orderly_fills {ticker category : String} {w : World} {nf : NormalizedFill}
    (executes : Executes w.exchange nf) (normal : normalizeFill (report nf) = some nf) :
    Along World.step (Orderly ticker category) w (fills nf) := by
  refine ⟨executes, fun nf' normal' _ => ?_, trivial⟩
  rw [normal] at normal'
  cases normal'
  exact List.mem_append_right _ (List.mem_singleton_self nf)

theorem orderly_quoted {bid ask : String} {mono : ℚ} {w : World} (apart : bid ≠ ask)
    (newBid : bid ∉ w.exchange.issued) (newAsk : ask ∉ w.exchange.issued)
    (booked : ∀ nf ∈ w.pending, nf.ticker ≠ "KXBTCD-1") :
    Orderly "KXBTCD-1" "KXBTCD" w (quoted "KXBTCD-1" (answering bid ask mono)) :=
  ⟨issues_answering apart newBid newAsk, fun _ => rfl, fun _ => ⟨rfl, booked⟩⟩

theorem orderly_quotes : Along World.step (Orderly "KXBTCD-1" "KXBTCD") desk quotes :=
  ⟨trivial, orderly_quoted (by decide) (by decide) (by decide) nofun, trivial⟩

/-- The bid fills whole, and the requote that follows finds the offer on record and replaces it. -/
theorem inventory_capped_full_fill :
    let events := quotes ++ fills (capFill "f1" "b1" 2) ++
      [quoted "KXBTCD-1" (answering "b2" "a2" 12)]
    (run World.step desk events).exchange.resting.keys = {"a2"} ∧
      Throughout World.step (fun w => |w.trader.positionOf "KXBTCD-1"| ≤ capOf w.trader "KXBTCD") desk
        events := by
  intro events
  refine ⟨by decide +kernel, inventory_capped (by decide) (by decide) nofun nofun nofun
    (along_append.mpr ⟨along_append.mpr ⟨orderly_quotes, orderly_fills ?_ (by decide +kernel)⟩,
      orderly_quoted (by decide) (by decide +kernel) (by decide +kernel) (by decide +kernel), trivial⟩)
    (along_append.mpr ⟨⟨trivial, fun _ _ => nofun, trivial, trivial, trivial⟩, ?_, trivial⟩)⟩
  · exact ⟨"b1", { ticker := "KXBTCD-1", side := .buy, remaining := 2 }, rfl, by decide +kernel,
      rfl, rfl, by decide, by decide⟩
  · intro _ _ id order rests _
    have only : (run World.step desk (quotes ++ fills (capFill "f1" "b1" 2))).exchange.resting.keys =
        {"a1"} := by decide +kernel
    have listed := Finmap.mem_keys.mpr (Finmap.mem_of_lookup_eq_some rests)
    rw [only, Finset.mem_singleton] at listed
    subst listed
    decide +kernel

/-- One contract of the bid fills, which drops its id; the requote bids two more beside the one
    that still rests.  With all of it filled, the position is four. -/
theorem requote_over_partial_fill :
    let events := quotes ++ fills (capFill "f1" "b1" 1) ++
      [quoted "KXBTCD-1" (answering "b2" "a2" 12)] ++ fills (capFill "f2" "b2" 2) ++
      fills (capFill "f3" "b1" 1)
    Along World.step (Orderly "KXBTCD-1" "KXBTCD") desk events ∧
      ¬ Throughout World.step (fun w => |w.trader.positionOf "KXBTCD-1"| ≤ capOf w.trader "KXBTCD")
        desk events ∧
      (run World.step desk events).trader.positionOf "KXBTCD-1" = 4 ∧
      capOf (run World.step desk events).trader "KXBTCD" = 3 := by
  intro events
  have position : (run World.step desk events).trader.positionOf "KXBTCD-1" = 4 := by decide +kernel
  have cap : capOf (run World.step desk events).trader "KXBTCD" = 3 := by decide +kernel
  have exceeds : ¬ Throughout World.step
      (fun w => |w.trader.positionOf "KXBTCD-1"| ≤ capOf w.trader "KXBTCD") desk events := by
    intro capped
    have last := capped.last
    rw [position, cap] at last
    exact absurd last (by decide)
  refine ⟨?_, exceeds, position, cap⟩
  refine along_append.mpr ⟨along_append.mpr ⟨along_append.mpr ⟨along_append.mpr ⟨orderly_quotes,
    orderly_fills ?_ (by decide +kernel)⟩, ?_⟩, orderly_fills ?_ (by decide +kernel)⟩,
    orderly_fills ?_ (by decide +kernel)⟩
  · exact ⟨"b1", { ticker := "KXBTCD-1", side := .buy, remaining := 2 }, rfl, by decide +kernel,
      rfl, rfl, by decide, by decide⟩
  · exact ⟨orderly_quoted (by decide) (by decide +kernel) (by decide +kernel) (by decide +kernel),
      trivial⟩
  · exact ⟨"b2", { ticker := "KXBTCD-1", side := .buy, remaining := 2 }, rfl, by decide +kernel,
      rfl, rfl, by decide, by decide⟩
  · exact ⟨"b1", { ticker := "KXBTCD-1", side := .buy, remaining := 1 }, rfl, by decide +kernel,
      rfl, rfl, by decide, by decide⟩

end KalshiMm.Verified.InventoryCap
