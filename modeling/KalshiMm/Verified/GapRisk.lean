import Mathlib.Algebra.Order.BigOperators.Group.Multiset
import Mathlib.Data.Finset.Max
import Mathlib.Tactic.Linarith
import KalshiMm.Model.Ladder

/-!
# Settlement between two strikes

A ladder's tail losses look at the two ends of the price range only.  The loss against the marks
is the ladder's value less the net position in the strikes below the settlement, so what is
between the ends matters exactly where that net position falls below its values at the ends.
-/

namespace KalshiMm.Verified.GapRisk

open KalshiMm.Model

/-- An open position on one strike and its YES mark. -/
structure Leg where
  strike : ℚ
  pos : ℤ
  mark : ℚ
deriving DecidableEq

/-- What YES pays at a settlement price. -/
def payoff (settle strike : ℚ) : ℚ := if strike < settle then 1 else 0

def lossAt (legs : Multiset Leg) (settle : ℚ) : ℚ :=
  (legs.map fun leg => (leg.pos : ℚ) * (leg.mark - payoff settle leg.strike)).sum

/-- The larger of the two tail losses. -/
def worstTail (legs : Multiset Leg) : ℚ :=
  let tails := tailLosses (legs.map fun leg => (leg.pos, leg.mark))
  max tails.1 tails.2

def value (legs : Multiset Leg) : ℚ := (legs.map fun leg => (leg.pos : ℚ) * leg.mark).sum

/-- The net position in the strikes that are selected. -/
def netOf (selected : ℚ → Prop) [DecidablePred selected] (legs : Multiset Leg) : ℚ :=
  (legs.map fun leg => if selected leg.strike then (leg.pos : ℚ) else 0).sum

def net (legs : Multiset Leg) : ℚ := netOf (fun _ => True) legs

/-- At every strike, the strikes up to it are net short by no more than the whole ladder is, or
    than the marks have taken in. -/
def ShortsCovered (legs : Multiset Leg) : Prop :=
  ∀ leg ∈ legs, min 0 (min (net legs) (value legs)) ≤ netOf (· ≤ leg.strike) legs

/-! ## Losses as net positions -/

theorem lossAt_eq (legs : Multiset Leg) (settle : ℚ) :
    lossAt legs settle = value legs - netOf (· < settle) legs := by
  unfold lossAt value netOf
  rw [← Multiset.sum_map_sub]
  refine congrArg Multiset.sum (Multiset.map_congr rfl ?_)
  intro leg _
  unfold payoff
  split_ifs <;> ring

theorem worstTail_eq (legs : Multiset Leg) :
    worstTail legs = max (max (value legs - net legs) 0) (max (value legs) 0) := by
  have up : -(legs.map fun leg => (leg.pos : ℚ) * (1 - leg.mark)).sum = value legs - net legs := by
    unfold value net netOf
    rw [← Multiset.sum_map_sub, ← Multiset.sum_map_neg]
    refine congrArg Multiset.sum (Multiset.map_congr rfl ?_)
    intro leg _
    rw [if_pos trivial]
    ring
  have down : -(legs.map fun leg => -((leg.pos : ℚ) * leg.mark)).sum = value legs := by
    rw [Multiset.sum_map_neg, neg_neg, value]
  simp only [worstTail, tailLosses, Multiset.map_map, Function.comp_def, up, down]

theorem lossAt_le_worstTail_iff (legs : Multiset Leg) (settle : ℚ) :
    lossAt legs settle ≤ worstTail legs ↔
      min 0 (min (net legs) (value legs)) ≤ netOf (· < settle) legs := by
  rw [lossAt_eq, worstTail_eq]
  simp only [le_max_iff, min_le_iff]
  constructor
  · rintro ((up | gain) | (down | gain))
    · exact Or.inr (Or.inl (by linarith))
    · exact Or.inr (Or.inr (by linarith))
    · exact Or.inl (by linarith)
    · exact Or.inr (Or.inr (by linarith))
  · rintro (long | short | cheap)
    · exact Or.inr (Or.inl (by linarith))
    · exact Or.inl (Or.inl (by linarith))
    · exact Or.inl (Or.inr (by linarith))

/-! ## Settlement prices and strikes -/

theorem netOf_congr {selected selected' : ℚ → Prop} [DecidablePred selected]
    [DecidablePred selected'] {legs : Multiset Leg}
    (same : ∀ leg ∈ legs, (selected leg.strike ↔ selected' leg.strike)) :
    netOf selected legs = netOf selected' legs := by
  refine congrArg Multiset.sum (Multiset.map_congr rfl ?_)
  intro leg member
  exact if_congr (same leg member) rfl rfl

/-- Above a strike there is room before the next one. -/
theorem exists_settle_above (legs : Multiset Leg) (strike : ℚ) :
    ∃ settle, strike < settle ∧ ∀ leg ∈ legs, strike < leg.strike → settle ≤ leg.strike := by
  induction legs using Multiset.induction with
  | empty => exact ⟨strike + 1, by linarith, by simp⟩
  | cons head legs inductionHypothesis =>
    obtain ⟨settle, above, free⟩ := inductionHypothesis
    by_cases higher : strike < head.strike
    · refine ⟨min settle head.strike, lt_min above higher, ?_⟩
      intro leg member beyond
      obtain rfl | member := Multiset.mem_cons.mp member
      · exact min_le_right _ _
      · exact (min_le_left _ _).trans (free leg member beyond)
    · refine ⟨settle, above, ?_⟩
      intro leg member beyond
      obtain rfl | member := Multiset.mem_cons.mp member
      · exact absurd beyond higher
      · exact free leg member beyond

/-- The strikes below a settlement are none, or those up to the highest of them. -/
theorem netOf_below (legs : Multiset Leg) (settle : ℚ) :
    netOf (· < settle) legs = 0 ∨
      ∃ leg ∈ legs, netOf (· < settle) legs = netOf (· ≤ leg.strike) legs := by
  by_cases any : (legs.toFinset.filter fun leg => leg.strike < settle).Nonempty
  · obtain ⟨top, member, highest⟩ := Finset.exists_max_image _ Leg.strike any
    obtain ⟨listed, below⟩ := Finset.mem_filter.mp member
    refine Or.inr ⟨top, Multiset.mem_toFinset.mp listed, netOf_congr ?_⟩
    intro leg onLadder
    constructor
    · intro under
      exact highest leg (Finset.mem_filter.mpr ⟨Multiset.mem_toFinset.mpr onLadder, under⟩)
    · intro upTo
      exact lt_of_le_of_lt upTo below
  · refine Or.inl ?_
    rw [Finset.not_nonempty_iff_eq_empty] at any
    have noneBelow : netOf (· < settle) legs = netOf (fun _ => False) legs := by
      refine netOf_congr fun leg onLadder => iff_false_intro fun under => ?_
      have listed : leg ∈ legs.toFinset.filter fun leg => leg.strike < settle :=
        Finset.mem_filter.mpr ⟨Multiset.mem_toFinset.mpr onLadder, under⟩
      rw [any] at listed
      exact Finset.notMem_empty leg listed
    rw [noneBelow]
    simp [netOf]

/-- The tail losses bound the loss at every settlement price exactly where no strikes at the
    bottom of the ladder are net short beyond its ends. -/
theorem tails_worst_iff (legs : Multiset Leg) :
    (∀ settle, lossAt legs settle ≤ worstTail legs) ↔ ShortsCovered legs := by
  constructor
  · intro worst leg member
    obtain ⟨settle, above, free⟩ := exists_settle_above legs leg.strike
    have cut : netOf (· < settle) legs = netOf (· ≤ leg.strike) legs := by
      refine netOf_congr fun other onLadder => ⟨fun under => ?_, fun upTo => lt_of_le_of_lt upTo above⟩
      by_contra higher
      exact absurd under (free other onLadder (not_le.mp higher)).not_gt
    rw [← cut]
    exact (lossAt_le_worstTail_iff legs settle).mp (worst settle)
  · intro covered settle
    rw [lossAt_le_worstTail_iff]
    obtain none_ | ⟨leg, member, cut⟩ := netOf_below legs settle
    · rw [none_]
      exact min_le_left _ _
    · rw [cut]
      exact covered leg member

/-- A short under a long of a higher strike: both tails are free of loss, and between the strikes
    both legs lose. -/
theorem loss_between_strikes :
    let legs : Multiset Leg := {⟨64000, -1, 1 / 2⟩, ⟨64250, 1, 2 / 5⟩}
    worstTail legs = 0 ∧ lossAt legs 64100 = 9 / 10 ∧ ¬ lossAt legs 64100 ≤ worstTail legs := by
  decide +kernel

end KalshiMm.Verified.GapRisk
