import Mathlib.Tactic.Linarith
import Mathlib.Tactic.Ring
import KalshiMm.Verified.Clocks
import KalshiMm.Verified.InventoryCap

/-!
# The tail losses of a ladder

The tail gate weighs the positions that are booked.  An order that it let through rests on while
its siblings fill, and when it fills in turn, the gate is not asked again; the losses stay within
the cap and one quote as long as no order fills on a side that the gate has shut behind it.
-/

namespace KalshiMm.Verified.TailLoss

open KalshiMm.Lib KalshiMm.Model
open InventoryCap (Executes fillSide)

/-! ## The ladder at work -/

/-- A quote cycle behind the tail gate, or a fill that is booked as it executes. -/
inductive LadderEvent where
  | quote (out : Outside) (category ticker : String) (action : Action) (fvShift : ℚ)
  | fill (out : Outside) (raw : Value)

def ladderStep (w : World) : LadderEvent → World
  | .quote out category ticker action fvShift =>
    w.step (.quote out category ticker action fvShift (w.trader.ladderTailGate ticker))
  | .fill out raw =>
    match normalizeFill raw with
    | none => w
    | some nf => (w.step (.execute nf)).step (.deliver out raw)

/-- Losses above and below every strike of a ladder. -/
def ladderLosses (tr : Trader) (event : String) : ℚ × ℚ := tailLosses (ladderEntries tr event)

def largestQuote (mm : MmParams) : ℤ := max mm.quoteSize mm.extremeQuoteSize

/-- Both losses are within the cap and one quote. -/
def LossesBounded (event : String) (w : World) : Prop :=
  (ladderLosses w.trader event).1 ≤
      w.trader.cfg.live.maxLadderTailLoss + largestQuote w.trader.cfg.mm ∧
    (ladderLosses w.trader event).2 ≤
      w.trader.cfg.live.maxLadderTailLoss + largestQuote w.trader.cfg.mm

instance (event : String) : DecidablePred (LossesBounded event) := fun _ =>
  inferInstanceAs (Decidable (_ ∧ _))

/-- The strikes of the ladder have marks, all of them in `[0, 1]`. -/
def Marked (event : String) (tr : Trader) : Prop :=
  ∀ ticker ts, tr.state.tickers.lookup ticker = some ts → ladderPrefix ticker = some event →
    ∃ mark, ts.book.mid = some mark ∧ 0 ≤ mark ∧ mark ≤ 1

/-- The fill is a new one of a resting order. -/
def FillsResting (w : World) (nf : NormalizedFill) : Prop :=
  nf.fillId ∉ w.trader.state.fillIds ∧ Executes w.exchange nf

/-- Only strikes that are known are quoted, and only resting orders are filled. -/
def Orderly (event : String) (w : World) : LadderEvent → Prop
  | .quote _ _ ticker _ _ => ladderPrefix ticker = some event → ticker ∈ w.trader.state.tickers
  | .fill _ raw => ∃ nf, normalizeFill raw = some nf ∧ FillsResting w nf

/-- Does the gate allow the side? -/
def allows (gate : Bool × Bool) : OrderSide → Bool
  | .buy => gate.1
  | .sell => gate.2

/-- The resting orders that were quoted after the latest fill on the ladder. -/
def quotedSince (event : String) (w : World) (since : Finset String) : LadderEvent → Finset String
  | .quote out category ticker action fvShift =>
    since ∪ (ladderStep w (.quote out category ticker action fvShift)).exchange.resting.keys \
      w.exchange.resting.keys
  | .fill _ raw =>
    if (normalizeFill raw).any fun nf => ladderPrefix nf.ticker = some event then ∅ else since

/-- An order of the ladder that was quoted before its latest fill is only filled on a side that the
    gate allows still. -/
def StaleAllowed (event : String) (s : World × Finset String) : LadderEvent → Prop
  | .quote .. => True
  | .fill _ raw => ∀ nf ∈ normalizeFill raw, ladderPrefix nf.ticker = some event →
      ∀ id ∈ nf.orderId, id ∉ s.2 →
        allows (s.1.trader.ladderTailGate nf.ticker) (fillSide nf) = true

/-! ## Losses as totals -/

def markOf (ts : TickerState) : ℚ := (ts.book.mid.or ts.entryPrice).getD (1 / 2)

/-- What a strike pays when the ladder settles above all strikes, and what it costs when below. -/
def upShare (event ticker : String) (ts : TickerState) : ℚ :=
  if ladderPrefix ticker = some event then ts.position * (1 - markOf ts) else 0

def downShare (event ticker : String) (ts : TickerState) : ℚ :=
  if ladderPrefix ticker = some event then ts.position * markOf ts else 0

/-- What a strike counts for, where one that is flat counts for nothing. -/
theorem ladderShare_elim (event ticker : String) (ts : TickerState) {f : ℤ × ℚ → ℚ}
    (flat : ∀ mark, f (0, mark) = 0) : (ladderShare event ⟨ticker, ts⟩).elim 0 f =
      if ladderPrefix ticker = some event then f (ts.position, markOf ts) else 0 := by
  unfold ladderShare
  dsimp only
  by_cases held : ts.position = 0
  · rw [if_pos (Or.inl held), held, flat, ite_self, Option.elim_none]
  · by_cases here : ladderPrefix ticker = some event
    · rw [if_neg (not_or.mpr ⟨held, not_not.mpr here⟩), if_pos here]
      rfl
    · rw [if_pos (Or.inr here), if_neg here, Option.elim_none]

theorem ladderLosses_eq (tr : Trader) (event : String) : ladderLosses tr event =
    (max (-Dict.sumOf (upShare event) tr.state.tickers) 0,
      max (Dict.sumOf (downShare event) tr.state.tickers) 0) := by
  have up : ((ladderEntries tr event).map fun entry => (entry.1 : ℚ) * (1 - entry.2)).sum =
      Dict.sumOf (upShare event) tr.state.tickers := by
    refine (Dict.sum_filterMap _ _ _).trans (Dict.sumOf_congr fun ticker ts _ => ?_)
    exact ladderShare_elim event ticker ts fun mark => by simp
  have down : ((ladderEntries tr event).map fun entry => -((entry.1 : ℚ) * entry.2)).sum =
      -Dict.sumOf (downShare event) tr.state.tickers := by
    refine (Multiset.sum_map_neg (f := fun entry : ℤ × ℚ => (entry.1 : ℚ) * entry.2)).trans ?_
    refine congrArg Neg.neg ((Dict.sum_filterMap _ _ _).trans
      (Dict.sumOf_congr fun ticker ts _ => ?_))
    exact ladderShare_elim event ticker ts fun mark => by simp
  have losses : ladderLosses tr event =
      (max (-((ladderEntries tr event).map fun entry => (entry.1 : ℚ) * (1 - entry.2)).sum) 0,
        max (-((ladderEntries tr event).map fun entry => -((entry.1 : ℚ) * entry.2)).sum) 0) := rfl
  rw [losses, up, down, neg_neg]

theorem allows_iff {tr : Trader} {ticker event : String}
    (capped : 0 < tr.cfg.live.maxLadderTailLoss) (onLadder : ladderPrefix ticker = some event)
    (side : OrderSide) : allows (tr.ladderTailGate ticker) side = true ↔
      match side with
      | .buy => (ladderLosses tr event).2 < tr.cfg.live.maxLadderTailLoss
      | .sell => (ladderLosses tr event).1 < tr.cfg.live.maxLadderTailLoss := by
  rw [ladderTailGate_eq, if_neg (not_le.mpr capped), onLadder]
  cases side with
  | buy => exact decide_eq_true_iff
  | sell => exact decide_eq_true_iff

theorem ladderLosses_of_entries {tr tr' : Trader} {event : String}
    (same : ladderEntries tr' event = ladderEntries tr event) :
    ladderLosses tr' event = ladderLosses tr event := congrArg tailLosses same

/-! ## One fill -/

theorem markOf_of_mid {ts : TickerState} {mark : ℚ} (mid : ts.book.mid = some mark) :
    markOf ts = mark := by
  rw [markOf, mid]
  rfl

/-- A fill moves both totals by its size at the strike's mark. -/
theorem totals_filled {tr tr' : Trader} {nf : NormalizedFill} {event : String} {ts : TickerState}
    {mark nowEpoch : ℚ} (known : tr.state.tickers.lookup nf.ticker = some ts)
    (onLadder : ladderPrefix nf.ticker = some event) (mid : ts.book.mid = some mark)
    (written : tr'.state.tickers = tr.state.tickers.insert nf.ticker (ts.filled nf nowEpoch)) :
    Dict.sumOf (upShare event) tr'.state.tickers =
        Dict.sumOf (upShare event) tr.state.tickers + nf.signedSize * (1 - mark) ∧
      Dict.sumOf (downShare event) tr'.state.tickers =
        Dict.sumOf (downShare event) tr.state.tickers + nf.signedSize * mark := by
  have before : markOf ts = mark := markOf_of_mid mid
  have after : markOf (ts.filled nf nowEpoch) = mark := markOf_of_mid mid
  have position : (ts.filled nf nowEpoch).position = ts.position + nf.signedSize := rfl
  rw [written, Dict.sumOf_insert, Dict.sumOf_insert, Dict.sumOf_of_lookup (upShare event) known,
    Dict.sumOf_of_lookup (downShare event) known]
  simp only [upShare, downShare, if_pos onLadder, before, after, position]
  push_cast
  exact ⟨by ring, by ring⟩

/-- A fill on a side that the gate allows leaves both losses within the cap and its own size. -/
theorem bounded_of_totals {up down up' down' cap size mark bound : ℚ} {signed : ℤ}
    (unit : 0 ≤ mark ∧ mark ≤ 1) (fits : size ≤ bound) (nonneg : 0 ≤ bound) (capped : 0 < cap)
    (upMoves : up' = up + signed * (1 - mark)) (downMoves : down' = down + signed * mark)
    (bounded : max (-up) 0 ≤ cap + bound ∧ max down 0 ≤ cap + bound)
    (allowed : ((signed : ℚ) = size ∧ 0 ≤ size ∧ max down 0 < cap) ∨
      ((signed : ℚ) = -size ∧ 0 ≤ size ∧ max (-up) 0 < cap)) :
    max (-up') 0 ≤ cap + bound ∧ max down' 0 ≤ cap + bound := by
  obtain ⟨low, high⟩ := unit
  simp only [max_le_iff, max_lt_iff] at bounded allowed ⊢
  rw [upMoves, downMoves]
  rcases allowed with ⟨buys, positive, room⟩ | ⟨sells, positive, room⟩
  · rw [buys]
    have gain : 0 ≤ size * (1 - mark) := mul_nonneg positive (sub_nonneg.mpr high)
    have loss : size * mark ≤ size := mul_le_of_le_one_right positive high
    exact ⟨⟨by linarith, by linarith⟩, by linarith, by linarith⟩
  · rw [sells]
    have gain : 0 ≤ size * mark := mul_nonneg positive low
    have loss : size * (1 - mark) ≤ size := mul_le_of_le_one_right positive (by linarith)
    exact ⟨⟨by linarith, by linarith⟩, by linarith, by linarith⟩

/-! ## Steps -/

/-- Both losses are bounded, and what rests on the ladder is of quotable size, on known strikes and,
    where it was quoted since the latest fill, on sides that the gate allows. -/
structure Contained (event : String) (s : World × Finset String) : Prop where
  capped : 0 < s.1.trader.cfg.live.maxLadderTailLoss
  sized : 0 ≤ largestQuote s.1.trader.cfg.mm
  marked : Marked event s.1.trader
  resting : ∀ id order, s.1.exchange.resting.lookup id = some order →
    ladderPrefix order.ticker = some event → order.remaining ≤ largestQuote s.1.trader.cfg.mm ∧
      order.ticker ∈ s.1.trader.state.tickers
  since : ∀ id ∈ s.2, ∀ order, s.1.exchange.resting.lookup id = some order →
    ladderPrefix order.ticker = some event →
      allows (s.1.trader.ladderTailGate order.ticker) order.side = true
  bounded : LossesBounded event s.1

section Quote

variable {event : String} {w : World} {since : Finset String} {out : Outside}
  {category ticker : String} {action : Action} {fvShift : ℚ}

theorem marked_quote (marked : Marked event w.trader)
    (known : ladderPrefix ticker = some event → ticker ∈ w.trader.state.tickers)
    (allow : Bool × Bool) :
    Marked event (w.trader.quoteCycle out category ticker action fvShift allow).trader := by
  obtain ⟨ts, written, _, book, _⟩ :=
    quoteCycle_written out category ticker action fvShift allow w.trader
  intro other ts' found onLadder
  rw [written, Dict.lookup_insert_eq_ite] at found
  split_ifs at found with same
  · cases found
    subst same
    obtain ⟨before, found⟩ := Finmap.mem_iff.mp (known onLadder)
    rw [book, TraderState.tickerD, found, Option.getD_some]
    exact marked other before found onLadder
  · exact marked other ts' found onLadder

theorem mem_tickers_quote {other : String} (known : other ∈ w.trader.state.tickers)
    (allow : Bool × Bool) : other ∈
      (w.trader.quoteCycle out category ticker action fvShift allow).trader.state.tickers := by
  obtain ⟨ts, written, _⟩ := quoteCycle_written out category ticker action fvShift allow w.trader
  rw [written]
  exact Finmap.mem_insert.mpr (Or.inr known)

theorem size_le_largestQuote {plan : QuotePlan}
    (planned : planOf out category ticker action fvShift w.trader = some plan) :
    plan.bidSize ≤ largestQuote w.trader.cfg.mm ∧ plan.askSize ≤ largestQuote w.trader.cfg.mm := by
  obtain ⟨_, bid, ask, lastQuoteTime, rfl⟩ := planOf_some planned
  simp only [sizedPlan, largestQuote]
  constructor
  · split_ifs
    · exact le_max_right _ _
    · exact le_max_left _ _
  · split_ifs
    · exact le_max_right _ _
    · exact le_max_left _ _

/-- What rests after a quote cycle: the orders of its plan, on sides that were allowed, and orders
    that rested before. -/
theorem resting_quote {allow : Bool × Bool} {id : String} {order : RestingOrder}
    (rests : (w.step (.quote out category ticker action fvShift allow)).exchange.resting.lookup id =
      some order) :
    (order.ticker = ticker ∧ allows allow order.side = true ∧
      order.remaining ≤ largestQuote w.trader.cfg.mm ∧
      (planOf out category ticker action fvShift w.trader).isSome = true) ∨
    w.exchange.resting.lookup id = some order := by
  cases planned : planOf out category ticker action fvShift w.trader with
  | none =>
    rw [(unplanned_quote allow planned).1] at rests
    exact Or.inr rests
  | some plan =>
    obtain ⟨cancelledEx, _, cancels, after⟩ := exchange_quote allow planned
    obtain ⟨bidFits, askFits⟩ := size_le_largestQuote planned
    rw [after, lookup_restOption, lookup_restOption, cancels] at rests
    split_ifs at rests with asked bidden
    · cases rests
      have placed := (placed_of_restingId asked).1
      exact Or.inl ⟨rfl, (Bool.and_eq_true_iff.mp placed).2, askFits, rfl⟩
    · cases rests
      have placed := (placed_of_restingId bidden).1
      exact Or.inl ⟨rfl, (Bool.and_eq_true_iff.mp placed).2, bidFits, rfl⟩
    · exact Or.inr rests

theorem contained_quote (contained : Contained event (w, since))
    (orderly : Orderly event w (.quote out category ticker action fvShift)) :
    Contained event (withGhost ladderStep (quotedSince event) (w, since)
      (.quote out category ticker action fvShift)) := by
  let allow := w.trader.ladderTailGate ticker
  have cfg : (w.step (.quote out category ticker action fvShift allow)).trader.cfg =
      w.trader.cfg := (params_step w _).1
  have losses : ladderLosses
      (w.step (.quote out category ticker action fvShift allow)).trader event =
        ladderLosses w.trader event :=
    ladderLosses_of_entries
      (ladderEntries_quoteCycle out category ticker action fvShift allow _ event)
  have gate (other : String) : (w.step (.quote out category ticker action fvShift
      allow)).trader.ladderTailGate other = w.trader.ladderTailGate other :=
    ladderTailGate_quoteCycle out category ticker action fvShift allow w.trader other
  refine
    { capped := by rw [withGhost, ladderStep, cfg]; exact contained.capped
      sized := by rw [withGhost, ladderStep, cfg]; exact contained.sized
      marked := marked_quote contained.marked orderly allow
      resting := fun id order rests onLadder => ?_
      since := fun id quoted order rests onLadder => ?_
      bounded := ?_ }
  · obtain ⟨rfl, _, fits, _⟩ | old := resting_quote rests
    · rw [withGhost, ladderStep, cfg]
      exact ⟨fits, mem_tickers_quote (orderly onLadder) allow⟩
    · obtain ⟨fits, known⟩ := contained.resting id order old onLadder
      rw [withGhost, ladderStep, cfg]
      exact ⟨fits, mem_tickers_quote known allow⟩
  · rw [withGhost, ladderStep, gate]
    obtain ⟨rfl, allowed, _, _⟩ | old := resting_quote rests
    · exact allowed
    · -- an order that rested before and counts as quoted since was quoted since before
      rcases Finset.mem_union.mp quoted with before | new
      · exact contained.since id before order old onLadder
      · refine absurd (Finmap.mem_keys.mpr ?_) (Finset.mem_sdiff.mp new).2
        exact Finmap.mem_iff.mpr ⟨order, old⟩
  · unfold LossesBounded
    rw [withGhost, ladderStep, cfg, losses]
    exact contained.bounded

end Quote

section Fill

variable {event : String} {w : World} {since : Finset String} {out : Outside} {raw : Value}
  {nf : NormalizedFill}

theorem ladderStep_fill (normal : normalizeFill raw = some nf) :
    ladderStep w (.fill out raw) = (w.step (.execute nf)).step (.deliver out raw) := by
  rw [ladderStep, normal]

/-- A fill is booked on its market, and leaves no more of any order than rested before. -/
theorem fill_written (out : Outside) (normal : normalizeFill raw = some nf)
    (fills : FillsResting w nf) :
    (∃ state, (ladderStep w (.fill out raw)).trader = { w.trader with state } ∧
      state.tickers = w.trader.state.tickers.insert nf.ticker
        ((w.trader.state.tickerD nf.ticker (w.trader.fillCategory nf.ticker)).filled nf out.epoch)) ∧
    ∀ id order, (ladderStep w (.fill out raw)).exchange.resting.lookup id = some order →
      ∃ before, w.exchange.resting.lookup id = some before ∧ order.ticker = before.ticker ∧
        order.side = before.side ∧ order.remaining ≤ before.remaining := by
  obtain ⟨fresh, _, _, _, _, _, _, positive, _⟩ := fills
  rw [ladderStep_fill normal]
  constructor
  · have ends := processFill_outcome out raw w.trader
    have delivered : ((w.step (.execute nf)).step (.deliver out raw)).trader =
        w.trader.processFill out raw := rfl
    rw [delivered]
    generalize w.trader.processFill out raw = tr' at ends
    cases ends with
    | ignored stale => exact absurd (stale nf normal) fresh
    | booked nf' normal' _ only written =>
      rw [normal] at normal'
      cases normal'
      obtain ⟨state, rfl⟩ := only
      exact ⟨state, rfl, written⟩
  · intro id order rests
    obtain ⟨before, rested, market, side, less⟩ := lookup_execute rests
    exact ⟨before, rested, market, side, less positive.le⟩

theorem signedSize_cases (nf : NormalizedFill) :
    (fillSide nf = .buy ∧ (nf.signedSize : ℚ) = nf.size) ∨
      (fillSide nf = .sell ∧ (nf.signedSize : ℚ) = -nf.size) := by
  unfold fillSide NormalizedFill.signedSize
  split_ifs
  · exact Or.inl ⟨rfl, rfl⟩
  · exact Or.inr ⟨rfl, by push_cast; rfl⟩

/-- A fill on the ladder, of an order on a side that the gate allows. -/
theorem bounded_fill (contained : Contained event (w, since))
    (normal : normalizeFill raw = some nf) (fills : FillsResting w nf)
    (onLadder : ladderPrefix nf.ticker = some event)
    (allowed : allows (w.trader.ladderTailGate nf.ticker) (fillSide nf) = true) :
    LossesBounded event (ladderStep w (.fill out raw)) := by
  obtain ⟨⟨state, only, written⟩, _⟩ := fill_written out normal fills
  obtain ⟨_, id, order, _, rests, here, _, positive, within⟩ := fills
  obtain ⟨fits, known⟩ := contained.resting id order rests (here ▸ onLadder)
  obtain ⟨ts, found⟩ := Finmap.mem_iff.mp (here ▸ known)
  obtain ⟨mark, mid, unit⟩ := contained.marked nf.ticker ts found onLadder
  rw [TraderState.tickerD, found, Option.getD_some] at written
  have filled : (ladderStep w (.fill out raw)).trader.state.tickers =
      w.trader.state.tickers.insert nf.ticker (ts.filled nf out.epoch) := by
    rw [only]
    exact written
  obtain ⟨upMoves, downMoves⟩ := totals_filled found onLadder mid filled
  have bounded := contained.bounded
  have capped := contained.capped
  have positive : (0 : ℚ) ≤ nf.size := by exact_mod_cast positive.le
  have size : (nf.size : ℚ) ≤ largestQuote w.trader.cfg.mm := by exact_mod_cast within.trans fits
  have sized : (0 : ℚ) ≤ largestQuote w.trader.cfg.mm := by exact_mod_cast contained.sized
  unfold LossesBounded at bounded ⊢
  rw [ladderLosses_eq] at bounded ⊢
  have cfg : (ladderStep w (.fill out raw)).trader.cfg = w.trader.cfg := by rw [only]
  rw [cfg]
  refine bounded_of_totals unit size sized capped upMoves downMoves bounded ?_
  have room := (allows_iff capped onLadder (fillSide nf)).mp allowed
  rw [ladderLosses_eq] at room
  obtain ⟨buys, signed⟩ | ⟨sells, signed⟩ := signedSize_cases nf
  · rw [buys] at room
    exact Or.inl ⟨signed, positive, room⟩
  · rw [sells] at room
    exact Or.inr ⟨signed, positive, room⟩

theorem marked_fill (contained : Contained event (w, since))
    (normal : normalizeFill raw = some nf) (fills : FillsResting w nf) :
    Marked event (ladderStep w (.fill out raw)).trader := by
  obtain ⟨⟨state, only, written⟩, _⟩ := fill_written out normal fills
  obtain ⟨_, id, order, _, rests, here, _⟩ := fills
  rw [only]
  intro ticker ts found onLadder
  rw [written, Dict.lookup_insert_eq_ite] at found
  split_ifs at found with same
  · cases found
    -- only known strikes have orders, and a fill leaves the book as it was
    obtain ⟨before, known⟩ := Finmap.mem_iff.mp (contained.resting id order rests
      (by rw [here, ← same]; exact onLadder)).2
    rw [here] at known
    rw [TraderState.tickerD, known, Option.getD_some]
    exact contained.marked nf.ticker before known (same ▸ onLadder)
  · exact contained.marked ticker ts found onLadder

/-- A fill of another market leaves the ladder as it was. -/
theorem ladderEntries_fill (out : Outside) (normal : normalizeFill raw = some nf)
    (fills : FillsResting w nf) (elsewhere : ladderPrefix nf.ticker ≠ some event) :
    ladderEntries (ladderStep w (.fill out raw)).trader event = ladderEntries w.trader event := by
  obtain ⟨⟨state, only, written⟩, _⟩ := fill_written out normal fills
  refine ladderEntries_of_insert (w.trader.fillCategory nf.ticker) (by rw [only]; exact written) ?_
  exact (if_pos (Or.inr elsewhere)).trans (if_pos (Or.inr elsewhere)).symm

theorem contained_fill (contained : Contained event (w, since))
    (normal : normalizeFill raw = some nf) (fills : FillsResting w nf)
    (stale : StaleAllowed event (w, since) (.fill out raw)) :
    Contained event (withGhost ladderStep (quotedSince event) (w, since) (.fill out raw)) := by
  obtain ⟨⟨state, only, written⟩, fewer⟩ := fill_written out normal fills
  have cfg : (ladderStep w (.fill out raw)).trader.cfg = w.trader.cfg := by rw [only]
  have ghost : quotedSince event w since (.fill out raw) =
      if ladderPrefix nf.ticker = some event then ∅ else since := by
    simp only [quotedSince, normal, Option.any_some, decide_eq_true_eq]
  refine
    { capped := by rw [withGhost, cfg]; exact contained.capped
      sized := by rw [withGhost, cfg]; exact contained.sized
      marked := marked_fill contained normal fills
      resting := fun id order rests onLadder => ?_
      since := fun id quoted order rests onLadder => ?_
      bounded := ?_ }
  · obtain ⟨before, rested, market, _, less⟩ := fewer id order rests
    obtain ⟨fits, known⟩ := contained.resting id before rested (market ▸ onLadder)
    rw [withGhost, cfg]
    refine ⟨less.trans fits, ?_⟩
    rw [market]
    rw [only, written]
    exact Finmap.mem_insert.mpr (Or.inr known)
  · rw [withGhost, ghost] at quoted
    split_ifs at quoted with here
    · exact absurd quoted (Finset.notMem_empty id)
    · have gate : (ladderStep w (.fill out raw)).trader.ladderTailGate order.ticker =
          w.trader.ladderTailGate order.ticker :=
        ladderTailGate_of_entries cfg fun other isOn => by
          rw [onLadder] at isOn
          cases isOn
          exact ladderEntries_fill out normal fills here
      obtain ⟨before, rested, market, side, _⟩ := fewer id order rests
      rw [withGhost, gate, market, side]
      exact contained.since id quoted before rested (market ▸ onLadder)
  · by_cases here : ladderPrefix nf.ticker = some event
    · refine bounded_fill contained normal fills here ?_
      obtain ⟨_, id, order, named, rests, market, side, _⟩ := fills
      -- quoted since the latest fill, the order is on a side that was allowed and is still
      by_cases quoted : id ∈ since
      · rw [← market, ← side]
        exact contained.since id quoted order rests (market ▸ here)
      · exact stale nf normal here id named quoted
    · have losses := ladderLosses_of_entries (ladderEntries_fill out normal fills here)
      unfold LossesBounded
      rw [withGhost, cfg, losses]
      exact contained.bounded

end Fill

/-! ## Runs -/

theorem ladderLosses_flat {tr : Trader} {event : String}
    (flat : ∀ ticker, ladderPrefix ticker = some event → tr.positionOf ticker = 0) :
    ladderLosses tr event = (0, 0) := by
  have nothing : ladderEntries tr event = 0 := by
    refine Multiset.eq_zero_of_forall_notMem fun share member => ?_
    obtain ⟨⟨ticker, ts⟩, entry, counts⟩ := (Multiset.mem_filterMap _ _).mp member
    unfold ladderShare at counts
    split_ifs at counts with idle
    obtain ⟨held, onLadder⟩ := not_or.mp idle
    have position := flat ticker (not_not.mp onLadder)
    rw [Trader.positionOf, Dict.mem_entries.mp entry] at position
    exact held position
  rw [ladderLosses, nothing]
  simp [tailLosses]

theorem contained_step {event : String} {s : World × Finset String} {e : LadderEvent}
    (contained : Contained event s) (orderly : Orderly event s.1 e)
    (stale : StaleAllowed event s e) :
    Contained event (withGhost ladderStep (quotedSince event) s e) := by
  cases e with
  | quote out category ticker action fvShift => exact contained_quote contained orderly
  | fill out raw =>
    obtain ⟨nf, normal, fills⟩ := orderly
    exact contained_fill contained normal fills stale

/-- From a flat ladder without orders, with marks in `[0, 1]`, both tail losses stay within the cap
    and one quote in every run in which no order that was quoted before the ladder's latest fill is
    filled on a side that the gate has shut by then. -/
theorem tail_losses_bounded {event : String} {w : World} {events : List LadderEvent}
    (capped : 0 < w.trader.cfg.live.maxLadderTailLoss)
    (sized : 0 ≤ largestQuote w.trader.cfg.mm) (marked : Marked event w.trader)
    (flat : ∀ ticker, ladderPrefix ticker = some event → w.trader.positionOf ticker = 0)
    (idle : w.exchange.resting = ∅) (orderly : Along ladderStep (Orderly event) w events)
    (stale : Along (withGhost ladderStep (quotedSince event)) (StaleAllowed event) (w, ∅) events) :
    Throughout ladderStep (LossesBounded event) w events := by
  have starts : Contained event (w, ∅) :=
    { capped, sized, marked
      resting := fun id order rests => by
        rw [idle, Finmap.lookup_empty] at rests
        cases rests
      since := fun id quoted => absurd quoted (Finset.notMem_empty id)
      bounded := by
        have sized : (0 : ℚ) ≤ largestQuote w.trader.cfg.mm := by exact_mod_cast sized
        unfold LossesBounded
        rw [ladderLosses_flat flat]
        exact ⟨by linarith, by linarith⟩ }
  have contained : Throughout (withGhost ladderStep (quotedSince event)) (Contained event) (w, ∅)
      events :=
    throughout_of_along (fun s e contained met => contained_step contained met.1 met.2) starts
      ((along_withGhost ladderStep orderly).and stale)
  exact throughout_of_withGhost ladderStep (contained.imp fun s contained => contained.bounded)

/-! ## Three strikes that are bought at once -/

/-- Three strikes with a mark of 45 cents, under a cap of ten cents. -/
def ladderDesk : World :=
  run World.step
    { trader := Trader.start
        { marketCfg none with
          live := { (marketCfg none).live with maxLadderTailLoss := 1 / 10 }
          mm := { extremeQuoteSize := 1 } } 0 }
    [listed "KXBTCD-26JUL-T100", listed "KXBTCD-26JUL-T200", listed "KXBTCD-26JUL-T300"]

def gated (ticker : String) (out : Outside) : LadderEvent := .quote out "KXBTCD" ticker narrow 0

def ladderFill (nf : NormalizedFill) : LadderEvent := .fill (answering "" "" 20) (report nf)

def oneOf (fillId orderId ticker : String) (longYes : Bool) : NormalizedFill :=
  makerFill fillId orderId ticker longYes 1 (9 / 20)

theorem marked_ladderDesk : Marked "KXBTCD-26JUL" ladderDesk.trader := by
  have mids : ∀ ticker ∈ ladderDesk.trader.state.tickers.keys,
      ((ladderDesk.trader.state.tickers.lookup ticker).bind fun ts => ts.book.mid) =
        some (9 / 20) := by decide +kernel
  intro ticker ts found _
  have mid := mids ticker (Finmap.mem_keys.mpr (Finmap.mem_iff.mpr ⟨ts, found⟩))
  rw [found] at mid
  exact ⟨9 / 20, mid, by norm_num, by norm_num⟩

theorem flat_ladderDesk (ticker : String) : ladderDesk.trader.positionOf ticker = 0 := by
  have flat : ∀ other ∈ ladderDesk.trader.state.tickers.keys,
      ladderDesk.trader.positionOf other = 0 := by decide +kernel
  by_cases known : ticker ∈ ladderDesk.trader.state.tickers.keys
  · exact flat ticker known
  · rw [Trader.positionOf, Finmap.lookup_eq_none.mpr fun member =>
      known (Finmap.mem_keys.mpr member)]
    rfl

/-- One contract of a resting order fills. -/
theorem orderly_oneOf {event fillId orderId ticker : String} {longYes : Bool} {w : World}
    (normal : normalizeFill (report (oneOf fillId orderId ticker longYes)) =
      some (oneOf fillId orderId ticker longYes))
    (fresh : fillId ∉ w.trader.state.fillIds)
    (rests : w.exchange.resting.lookup orderId =
      some { ticker, side := if longYes then .buy else .sell, remaining := 1 }) :
    Orderly event w (ladderFill (oneOf fillId orderId ticker longYes)) :=
  ⟨_, normal, fresh, orderId, _, rfl, rests, rfl, rfl, Int.one_pos, le_rfl⟩

theorem staleAllowed_ladderFill {event : String} {s : World × Finset String} {nf : NormalizedFill}
    (normal : normalizeFill (report nf) = some nf)
    (allowed : (∃ id ∈ s.2, nf.orderId = some id) ∨
      allows (s.1.trader.ladderTailGate nf.ticker) (fillSide nf) = true) :
    StaleAllowed event s (ladderFill nf) := by
  intro nf' normal' _ id named stale
  rw [normal] at normal'
  cases normal'
  rcases allowed with ⟨quoted, since, named'⟩ | allowed
  · rw [named'] at named
    cases named
    exact absurd since stale
  · exact allowed

/-- A bid fills, which shuts the buy side of the ladder; the ask of another strike fills next. -/
theorem tail_losses_bounded_both_sides :
    Throughout ladderStep (LossesBounded "KXBTCD-26JUL") ladderDesk
      [gated "KXBTCD-26JUL-T100" (answering "b1" "a1" 10),
        gated "KXBTCD-26JUL-T200" (answering "b2" "a2" 11),
        ladderFill (oneOf "f1" "b1" "KXBTCD-26JUL-T100" true),
        ladderFill (oneOf "f2" "a2" "KXBTCD-26JUL-T200" false)] := by
  refine tail_losses_bounded (by decide +kernel) (by decide +kernel) marked_ladderDesk
    (fun ticker _ => flat_ladderDesk ticker) rfl ⟨fun _ => ?_, fun _ => ?_, ?_, ?_, trivial⟩
    ⟨trivial, trivial, staleAllowed_ladderFill ?_ (Or.inl ⟨"b1", ?_, rfl⟩),
      staleAllowed_ladderFill ?_ (Or.inr ?_), trivial⟩
  · decide +kernel
  · decide +kernel
  · exact orderly_oneOf (by decide +kernel) (by decide +kernel) (by decide +kernel)
  · exact orderly_oneOf (by decide +kernel) (by decide +kernel) (by decide +kernel)
  · decide +kernel
  · decide +kernel
  · decide +kernel
  · decide +kernel

/-- Bids on all three strikes pass the gate before any of them fills.  With all of them filled, the
    ladder loses 1.35 dollars below the strikes, where the cap and one quote make 1.10. -/
theorem ladder_bought_over_cap :
    let events := [gated "KXBTCD-26JUL-T100" (answering "b1" "a1" 10),
      gated "KXBTCD-26JUL-T200" (answering "b2" "a2" 11),
      gated "KXBTCD-26JUL-T300" (answering "b3" "a3" 12),
      ladderFill (oneOf "f1" "b1" "KXBTCD-26JUL-T100" true),
      ladderFill (oneOf "f2" "b2" "KXBTCD-26JUL-T200" true),
      ladderFill (oneOf "f3" "b3" "KXBTCD-26JUL-T300" true)]
    0 < ladderDesk.trader.cfg.live.maxLadderTailLoss ∧ Marked "KXBTCD-26JUL" ladderDesk.trader ∧
      (∀ ticker, ladderDesk.trader.positionOf ticker = 0) ∧ ladderDesk.exchange.resting = ∅ ∧
      Along ladderStep (Orderly "KXBTCD-26JUL") ladderDesk events ∧
      ladderLosses (run ladderStep ladderDesk events).trader "KXBTCD-26JUL" = (0, 27 / 20) ∧
      ¬ Throughout ladderStep (LossesBounded "KXBTCD-26JUL") ladderDesk events := by
  intro events
  refine ⟨by decide +kernel, marked_ladderDesk, flat_ladderDesk, rfl,
    ⟨fun _ => ?_, fun _ => ?_, fun _ => ?_, ?_, ?_, ?_, trivial⟩, by decide +kernel,
    fun bounded => absurd bounded.last (by decide +kernel)⟩
  · decide +kernel
  · decide +kernel
  · decide +kernel
  · exact orderly_oneOf (by decide +kernel) (by decide +kernel) (by decide +kernel)
  · exact orderly_oneOf (by decide +kernel) (by decide +kernel) (by decide +kernel)
  · exact orderly_oneOf (by decide +kernel) (by decide +kernel) (by decide +kernel)

end KalshiMm.Verified.TailLoss
