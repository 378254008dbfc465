import Mathlib.Algebra.BigOperators.Ring.List
import KalshiMm.Model.Engine

/-!
# Exit plans and the reasons there is none

A held position either gets an exit plan or a reason why not, and the reason separates the exits
that are due and cannot be placed from those that are not due.  An exit that is filled in full
leaves nothing.
-/

namespace KalshiMm.Verified.ExitReasons

open KalshiMm.Lib KalshiMm.Model

/-- The levels an exit takes from: the bids for a long, the NO bids for a short. -/
def crossedSide (ts : TickerState) : Levels := if 0 < ts.position then ts.book.yes else ts.book.no

/-- The touch of that side. -/
def crossedTouch (ts : TickerState) : Option ℚ :=
  if 0 < ts.position then ts.book.bestBid else ts.book.bestAsk

/-- One of the two triggers holds: the market is about to close, or the stop-loss is hit. -/
def ExitDue (ts : TickerState) (nowS : ℚ) : Prop :=
  expiryImminent ts nowS = true ∨ stopLossTriggered ts = true

inductive ExitOutcome where
  | flat
  | planned
  | stranded
  | quiet

def ExitOutcome.Holds (ts : TickerState) (nowS : ℚ) : ExitOutcome → Prop
  | .flat => ts.position = 0 ∧ exitDecision ts nowS = none ∧ exitBlock ts nowS = none
  | .planned => (exitDecision ts nowS).isSome ∧ exitBlock ts nowS = none
  | .stranded =>
    ExitDue ts nowS ∧ crossedSide ts = ∅ ∧ exitBlock ts nowS = some .noExitLiquidity
  | .quiet =>
    ¬ ExitDue ts nowS ∧ ∃ reason, reason ≠ .noExitLiquidity ∧ exitBlock ts nowS = some reason

/-! ## The crossing order -/

theorem lastKey_eq_none {levels : Levels} : levels.lastKey = none ↔ levels = ∅ := by
  unfold Levels.lastKey
  split_ifs with nonempty
  · refine iff_of_false nofun fun empty => ?_
    rw [empty, Finmap.keys_empty] at nonempty
    exact Finset.not_nonempty_empty nonempty
  · refine iff_of_true rfl (Finmap.ext_lookup fun price => ?_)
    rw [Finmap.lookup_empty, Finmap.lookup_eq_none, ← Finmap.mem_keys,
      Finset.not_nonempty_iff_eq_empty.mp nonempty]
    exact Finset.notMem_empty price

theorem crossedTouch_isSome {ts : TickerState} : (crossedTouch ts).isSome ↔ crossedSide ts ≠ ∅ := by
  rw [Option.isSome_iff_ne_none, not_iff_not, crossedTouch, crossedSide]
  split_ifs with long
  · rw [Book.bestBid, Option.map_eq_none_iff, Book.bestBidMd, lastKey_eq_none]
  · rw [Book.bestAsk, Option.map_eq_none_iff, Book.bestAskMd, Option.map_eq_none_iff,
      lastKey_eq_none]

theorem crossingExit_isSome {ts : TickerState} (reason : ExitReason) :
    (crossingExit ts reason).isSome ↔ crossedSide ts ≠ ∅ := by
  rw [← crossedTouch_isSome, crossingExit, crossedTouch]
  split_ifs with long
  · rw [Option.isSome_map]
  · rw [Option.isSome_map]

/-- Cents at one decimal hold every millidollar, so the touch is sent as it stands. -/
theorem roundDp_toDollars (md : ℕ) : roundDp (toDollars md * 100) 1 = toDollars md * 100 := by
  refine roundTo_of_grid roundTiesEven_isNearest (by norm_num) ⟨md, ?_⟩
  rw [toDollars]
  push_cast
  ring

/-- A crossing order is at the touch it crosses, for the whole position, against it. -/
theorem crossingExit_some {ts : TickerState} {reason : ExitReason} {plan : ExitPlan}
    (made : crossingExit ts reason = some plan) :
    (∃ touch, crossedTouch ts = some touch ∧ plan.priceCents = touch * 100) ∧
      plan.size = |ts.position| ∧ (plan.side = .sell ↔ 0 < ts.position) := by
  unfold crossingExit at made
  split_ifs at made with long
  · obtain ⟨touch, hasBid, rfl⟩ := Option.map_eq_some_iff.mp made
    obtain ⟨md, _, rfl⟩ := Option.map_eq_some_iff.mp hasBid
    exact ⟨⟨_, by rw [crossedTouch, if_pos long, hasBid], roundDp_toDollars md⟩,
      (abs_of_pos long).symm, iff_of_true rfl long⟩
  · obtain ⟨touch, hasAsk, rfl⟩ := Option.map_eq_some_iff.mp made
    obtain ⟨md, _, rfl⟩ := Option.map_eq_some_iff.mp hasAsk
    exact ⟨⟨_, by rw [crossedTouch, if_neg long, hasAsk], roundDp_toDollars md⟩, rfl,
      iff_of_false nofun long⟩

/-! ## Decision and reason -/

theorem exitDecision_crossing {ts : TickerState} {nowS : ℚ} {plan : ExitPlan}
    (due : exitDecision ts nowS = some plan) : ∃ reason, crossingExit ts reason = some plan := by
  unfold exitDecision at due
  split_ifs at due with flat stop expiry
  · exact ⟨_, due⟩
  · exact ⟨_, due⟩

theorem spotUnwindDecision_crossing {ts : TickerState} {fvShift unwindShift : ℚ} {plan : ExitPlan}
    (due : spotUnwindDecision ts fvShift unwindShift = some plan) :
    ∃ reason, crossingExit ts reason = some plan := by
  unfold spotUnwindDecision at due
  split_ifs at due
  split at due
  · exact ⟨_, due⟩
  · cases due

/-- A plan comes back exactly for an open position whose exit is due and can be placed. -/
theorem exitDecision_isSome {ts : TickerState} {nowS : ℚ} :
    (exitDecision ts nowS).isSome ↔ ts.position ≠ 0 ∧ ExitDue ts nowS ∧ crossedSide ts ≠ ∅ := by
  unfold exitDecision ExitDue
  split_ifs with flat stop expiry
  · simp [flat]
  · simp [flat, stop, crossingExit_isSome]
  · simp [flat, expiry, crossingExit_isSome]
  · simp [stop, expiry]

theorem exitBlock_of_plan {ts : TickerState} {nowS : ℚ} (plan : (exitDecision ts nowS).isSome) :
    exitBlock ts nowS = none := if_pos (Or.inr plan)

theorem exitBlock_of_stranded {ts : TickerState} {nowS : ℚ} (held : ts.position ≠ 0)
    (due : ExitDue ts nowS) (empty : crossedSide ts = ∅) :
    exitBlock ts nowS = some .noExitLiquidity := by
  have noPlan : ¬ (exitDecision ts nowS).isSome := fun plan =>
    (exitDecision_isSome.mp plan).2.2 empty
  exact (if_neg (not_or.mpr ⟨held, noPlan⟩)).trans (if_pos due)

theorem exitBlock_of_quiet {ts : TickerState} {nowS : ℚ} (held : ts.position ≠ 0)
    (quiet : ¬ ExitDue ts nowS) :
    ∃ reason, reason ≠ .noExitLiquidity ∧ exitBlock ts nowS = some reason := by
  have noPlan : ¬ (exitDecision ts nowS).isSome := fun plan =>
    quiet (exitDecision_isSome.mp plan).2.1
  unfold ExitDue at quiet
  rw [exitBlock, if_neg (not_or.mpr ⟨held, noPlan⟩), if_neg quiet]
  split_ifs with unpriced oneSided
  · exact ⟨.noEntryPrice, nofun, rfl⟩
  · exact ⟨.bookOneSided, nofun, rfl⟩
  · exact ⟨.withinThreshold, nofun, rfl⟩

/-- Which of the outcomes it is depends on the position, the triggers and the side to cross. -/
def outcomeOf (ts : TickerState) (nowS : ℚ) : ExitOutcome :=
  if ts.position = 0 then .flat
  else if expiryImminent ts nowS ∨ stopLossTriggered ts then
    if (crossedTouch ts).isSome then .planned else .stranded
  else .quiet

theorem outcomeOf_holds (ts : TickerState) (nowS : ℚ) : (outcomeOf ts nowS).Holds ts nowS := by
  unfold outcomeOf
  split_ifs with flat due some_
  · exact ⟨flat, if_pos flat, if_pos (Or.inl flat)⟩
  · have plan := exitDecision_isSome.mpr ⟨flat, due, crossedTouch_isSome.mp some_⟩
    exact ⟨plan, exitBlock_of_plan plan⟩
  · have empty : crossedSide ts = ∅ := not_not.mp (mt crossedTouch_isSome.mpr some_)
    exact ⟨due, empty, exitBlock_of_stranded flat due empty⟩
  · exact ⟨due, exitBlock_of_quiet flat due⟩

theorem outcome_eq {ts : TickerState} {nowS : ℚ} {first second : ExitOutcome}
    (holds : first.Holds ts nowS) (other : second.Holds ts nowS) : first = second := by
  cases first with
  | flat =>
    obtain ⟨flat, noPlan, silent⟩ := holds
    cases second with
    | flat => rfl
    | planned => simp [noPlan, ExitOutcome.Holds] at other
    | stranded => simp [silent, ExitOutcome.Holds] at other
    | quiet => simp [silent, ExitOutcome.Holds] at other
  | planned =>
    obtain ⟨plan, silent⟩ := holds
    cases second with
    | flat => simp [other.2.1] at plan
    | planned => rfl
    | stranded => simp [silent, ExitOutcome.Holds] at other
    | quiet => simp [silent, ExitOutcome.Holds] at other
  | stranded =>
    obtain ⟨due, empty, reason⟩ := holds
    cases second with
    | flat => simp [other.2.2] at reason
    | planned => simp [other.2] at reason
    | stranded => rfl
    | quiet => exact absurd due other.1
  | quiet =>
    obtain ⟨quiet, other_, _, reason⟩ := holds
    cases second with
    | flat => simp [other.2.2] at reason
    | planned => simp [other.2] at reason
    | stranded => exact absurd other.1 quiet
    | quiet => rfl

/-! ## Filled in full -/

/-- Fills of an exit that add up to its size. -/
def FillsInFull (plan : ExitPlan) (fills : List (NormalizedFill × ℚ)) : Prop :=
  (∀ fill ∈ fills, fill.1.longYes = decide (plan.side = .buy)) ∧
    (fills.map fun fill => fill.1.size).sum = plan.size

def filledAll (ts : TickerState) (fills : List (NormalizedFill × ℚ)) : TickerState :=
  fills.foldl (fun ts fill => ts.filled fill.1 fill.2) ts

theorem filledAll_position (ts : TickerState) (fills : List (NormalizedFill × ℚ)) :
    (filledAll ts fills).position =
      ts.position + (fills.map fun fill => fill.1.signedSize).sum := by
  induction fills generalizing ts with
  | nil => simp [filledAll]
  | cons fill fills inductionHypothesis =>
    rw [List.map_cons, List.sum_cons, ← add_assoc]
    exact inductionHypothesis (ts.filled fill.1 fill.2)

theorem signedSize_sum {longYes : Bool} {fills : List (NormalizedFill × ℚ)}
    (oneWay : ∀ fill ∈ fills, fill.1.longYes = longYes) :
    (fills.map fun fill => fill.1.signedSize).sum =
      (if longYes then 1 else -1) * (fills.map fun fill => fill.1.size).sum := by
  have signed : ∀ fill ∈ fills, fill.1.signedSize = (if longYes then 1 else -1) * fill.1.size := by
    intro fill member
    rw [NormalizedFill.signedSize, oneWay fill member]
    split_ifs
    · rw [one_mul]
    · rw [neg_one_mul]
  rw [List.map_congr_left signed, List.sum_map_mul_left]

theorem flat_of_filled {ts : TickerState} {reason : ExitReason} {plan : ExitPlan}
    (made : crossingExit ts reason = some plan) {fills : List (NormalizedFill × ℚ)}
    (full : FillsInFull plan fills) : (filledAll ts fills).position = 0 := by
  obtain ⟨-, size, side⟩ := crossingExit_some made
  rw [filledAll_position, signedSize_sum full.1, full.2, size]
  by_cases long : 0 < ts.position
  · rw [abs_of_pos long, side.mpr long]
    simp
  · have buys : plan.side = .buy := by
      cases way : plan.side with
      | buy => rfl
      | sell => exact absurd (side.mp way) long
    rw [abs_of_nonpos (not_lt.mp long), buys]
    simp

/-- Exactly one outcome holds in every state; a position about to expire gets its plan whenever
    the side it crosses has a level; and a plan is at the touch it crosses and closes the position
    when it is filled. -/
theorem exit_complete (ts : TickerState) (nowS : ℚ) :
    (∃! outcome : ExitOutcome, outcome.Holds ts nowS) ∧
    (expiryImminent ts nowS = true → ts.position ≠ 0 → crossedSide ts ≠ ∅ →
      (exitDecision ts nowS).isSome) ∧
    ∀ plan, (exitDecision ts nowS = some plan ∨
        ∃ fvShift unwindShift, spotUnwindDecision ts fvShift unwindShift = some plan) →
      (∃ touch, crossedTouch ts = some touch ∧ plan.priceCents = touch * 100) ∧
      ∀ fills, FillsInFull plan fills → (filledAll ts fills).position = 0 := by
  refine ⟨⟨_, outcomeOf_holds ts nowS, fun _ holds => outcome_eq holds (outcomeOf_holds ts nowS)⟩,
    fun expiry held level => exitDecision_isSome.mpr ⟨held, Or.inl expiry, level⟩, ?_⟩
  intro plan made
  have crossing : ∃ reason, crossingExit ts reason = some plan := by
    obtain due | ⟨fvShift, unwindShift, due⟩ := made
    · exact exitDecision_crossing due
    · exact spotUnwindDecision_crossing due
  obtain ⟨reason, made⟩ := crossing
  exact ⟨(crossingExit_some made).1, fun fills full => flat_of_filled made full⟩

/-- A short without a basis, a minute from the close, and nobody bidding for YES. -/
theorem exit_complete_one_sided :
    let ts : TickerState :=
      { category := "KXBTCD", position := -3, closeTimeS := some 60,
        book := { no := Finmap.insert 950 10 ∅ } }
    let bought (size : ℤ) : NormalizedFill × ℚ :=
      ({ fillId := "f1", ticker := "KXBTCD-25JUL2417-T100", longYes := true, priceYes := 1 / 20,
         size, isTaker := true, orderId := none }, 0)
    let plan : ExitPlan := { side := .buy, priceCents := 5, size := 3, reason := .expiry }
    exitDecision ts 0 = some plan ∧ (filledAll ts [bought 2, bought 1]).position = 0 := by
  intro ts bought plan
  have made : exitDecision ts 0 = some plan := by decide +kernel
  have full : FillsInFull plan [bought 2, bought 1] := by
    refine ⟨fun fill member => ?_, rfl⟩
    obtain rfl | rfl : fill = bought 2 ∨ fill = bought 1 := by simpa using member
    · rfl
    · rfl
  exact ⟨made, ((exit_complete ts 0).2.2 plan (Or.inl made)).2 _ full⟩

end KalshiMm.Verified.ExitReasons
