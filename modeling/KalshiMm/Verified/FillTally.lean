import KalshiMm.Verified.Bookings

/-!
# Tallies, and when bookings commute

What the bookings of one market add up to depends on their order.  The figures of a batch come
out the same oldest first where it reads the same backwards, where it adds to a position, on an
unknown basis with one price at both ends, where it makes two fills on a flat market, and where it
closes a position with as many losses before its first gain as after its last.
-/

namespace KalshiMm.Verified.FillOrder

open KalshiMm.Lib KalshiMm.Model

/-! ## Tallies -/

/-- What the bookings of one market add up to. -/
structure Tally where
  position : ℤ
  entryPrice : Option ℚ
  realizedPnl : ℚ
  carried : Bool
  wins : ℕ
  losses : ℕ
  streak : ℕ

namespace Tally

def market (t : Tally) : TickerState :=
  { category := "", position := t.position, entryPrice := t.entryPrice,
    realizedPnl := t.realizedPnl, carried := t.carried }

def book (t : Tally) (nf : NormalizedFill) : Tally :=
  let realized := t.market.realizedOn nf
  { position := (t.market.filled nf 0).position
    entryPrice := (t.market.filled nf 0).entryPrice
    realizedPnl := (t.market.filled nf 0).realizedPnl
    carried := (t.market.filled nf 0).carried
    wins := t.wins + if 0 < realized then 1 else 0
    losses := t.losses + if realized < 0 then 1 else 0
    streak := if t.carried then t.streak else nextStreak realized t.streak }

/-- The figures a booking order could show in: all but the carried flag. -/
def figures (t : Tally) : ℤ × Option ℚ × ℚ × ℕ × ℕ × ℕ :=
  (t.position, t.entryPrice, t.realizedPnl, t.wins, t.losses, t.streak)

theorem figures_book (t : Tally) (nf : NormalizedFill) :
    (t.book nf).figures =
      (t.position + nf.signedSize,
        foldEntryPrice t.position (t.position + nf.signedSize) t.entryPrice nf.size nf.priceYes,
        t.realizedPnl + t.market.realizedOn nf,
        t.wins + (if 0 < t.market.realizedOn nf then 1 else 0),
        t.losses + (if t.market.realizedOn nf < 0 then 1 else 0),
        if t.carried then t.streak else nextStreak (t.market.realizedOn nf) t.streak) := rfl

end Tally

/-! ## Batches that grow a position -/

def cost (t : Tally) : ℚ := |t.position| * t.entryPrice.getD 0

/-- The fills add to the position's side; the market is flat or knows its cost basis. -/
structure Adds (long : Bool) (t : Tally) (fills : List NormalizedFill) : Prop where
  basis : t.position = 0 ∨ ((0 < t.position ↔ long = true) ∧ t.entryPrice.isSome = true)
  adds : ∀ nf ∈ fills, nf.longYes = long ∧ 0 < nf.size

theorem grows {long : Bool} {t : Tally} {nf : NormalizedFill} {rest : List NormalizedFill}
    (adds : Adds long t (nf :: rest)) : |t.position + nf.signedSize| = |t.position| + nf.size ∧
      t.position + nf.signedSize ≠ 0 ∧
      (t.position ≠ 0 → (0 < t.position ↔ long = true)) ∧
      (0 < t.position + nf.signedSize ↔ long = true) := by
  obtain ⟨side, positive⟩ := adds.adds nf List.mem_cons_self
  have basis := adds.basis
  unfold NormalizedFill.signedSize
  rw [side]
  cases long with
  | true =>
    have up : 0 ≤ t.position := by
      obtain flat | ⟨held, _⟩ := basis
      · exact flat.ge
      · exact (held.mpr rfl).le
    rw [if_pos rfl, abs_of_nonneg up, abs_of_nonneg (by omega)]
    refine ⟨rfl, by omega, fun _ => by simp; omega, by simp; omega⟩
  | false =>
    have down : t.position ≤ 0 := by
      obtain flat | ⟨held, _⟩ := basis
      · exact flat.le
      · exact not_lt.mp fun up => by simpa using held.mp up
    rw [if_neg Bool.false_ne_true, abs_of_nonpos down, abs_of_nonpos (by omega)]
    refine ⟨by ring, by omega, fun _ => by simp; omega, by simp; omega⟩

theorem realizedOn_adds {long : Bool} {t : Tally} {nf : NormalizedFill} {rest : List NormalizedFill}
    (adds : Adds long t (nf :: rest)) : t.market.realizedOn nf = 0 := by
  obtain ⟨side, _⟩ := adds.adds nf List.mem_cons_self
  obtain ⟨_, _, before, _⟩ := grows adds
  have notClosingLong : ¬ (nf.longYes = false ∧ 0 < t.position) := by
    rintro ⟨sells, up⟩
    rw [side, (before up.ne').mp up] at sells
    cases sells
  have notClosingShort : ¬ (nf.longYes = true ∧ t.position < 0) := by
    rintro ⟨buys, down⟩
    exact down.asymm ((before down.ne).mpr (side ▸ buys))
  exact (if_neg notClosingLong).trans (if_neg notClosingShort)

/-- A fill that grows the position averages its price into the cost basis, and realizes nothing. -/
theorem book_adds {long : Bool} {t : Tally} {nf : NormalizedFill} {rest : List NormalizedFill}
    (adds : Adds long t (nf :: rest)) :
    t.book nf =
      { t with
        position := t.position + nf.signedSize
        entryPrice := some ((cost t + nf.size * nf.priceYes) / |t.position + nf.signedSize|) } := by
  obtain ⟨_, positive⟩ := adds.adds nf List.mem_cons_self
  obtain ⟨larger, stays, before, after⟩ := grows adds
  have kept : ¬ (t.position + nf.signedSize = 0 ∨ (t.position ≠ 0 ∧
      (0 < t.position ↔ ¬ 0 < t.position + nf.signedSize))) := by
    rintro (closed | ⟨held, flips⟩)
    · exact stays closed
    · rw [before held, after] at flips
      exact iff_not_self flips
  have entry : foldEntryPrice t.position (t.position + nf.signedSize) t.entryPrice nf.size
      nf.priceYes = some ((cost t + nf.size * nf.priceYes) / |t.position + nf.signedSize|) := by
    unfold foldEntryPrice cost
    rw [if_neg stays]
    by_cases flat : t.position = 0
    -- a fill that opens the position sets the basis, which is the average over nothing before it
    · have size : ((nf.size : ℤ) : ℚ) ≠ 0 := by exact_mod_cast positive.ne'
      rw [if_pos (Or.inl flat), larger, flat]
      simp [size]
    · obtain ⟨_, known⟩ := adds.basis.resolve_left flat
      obtain ⟨e, entry⟩ := Option.isSome_iff_exists.mp known
      rw [if_neg (not_or.mpr ⟨flat, fun flips => kept (Or.inr ⟨flat, flips⟩)⟩), if_pos (by omega), entry]
      rfl
  have nothing := realizedOn_adds adds
  have same : nextStreak 0 t.streak = t.streak := rfl
  unfold Tally.book
  rw [nothing]
  dsimp only
  rw [same]
  have keeps : (t.market.filled nf 0).carried = t.carried := if_neg kept
  have realized : (t.market.filled nf 0).realizedPnl = t.realizedPnl := by
    rw [TickerState.filled, nothing, add_zero]
    rfl
  have entry' : (t.market.filled nf 0).entryPrice =
      some ((cost t + nf.size * nf.priceYes) / |t.position + nf.signedSize|) := entry
  rw [keeps, realized, entry', ite_self]
  rfl

theorem adds_next {long : Bool} {t : Tally} {nf : NormalizedFill} {rest : List NormalizedFill}
    (adds : Adds long t (nf :: rest)) : Adds long (t.book nf) rest := by
  obtain ⟨_, _, _, after⟩ := grows adds
  rw [book_adds adds]
  exact ⟨Or.inr ⟨after, rfl⟩, fun later member => adds.adds later (List.mem_cons_of_mem _ member)⟩

theorem cost_adds {long : Bool} {t : Tally} {nf : NormalizedFill} {rest : List NormalizedFill}
    (adds : Adds long t (nf :: rest)) : cost (t.book nf) = cost t + nf.size * nf.priceYes := by
  obtain ⟨_, stays, _, _⟩ := grows adds
  have nonzero : ((|t.position + nf.signedSize| : ℤ) : ℚ) ≠ 0 := by
    exact_mod_cast abs_ne_zero.mpr stays
  rw [book_adds adds, cost]
  exact mul_div_cancel₀ _ nonzero

theorem adds_commute {long : Bool} {t : Tally} {first second : NormalizedFill}
    {rest : List NormalizedFill} (adds : Adds long t (first :: second :: rest)) :
    (t.book first).book second = (t.book second).book first := by
  have swapped : Adds long t (second :: first :: rest) :=
    ⟨adds.basis, fun nf member => adds.adds nf ((List.Perm.swap first second rest).subset member)⟩
  rw [book_adds (adds_next adds), book_adds (adds_next swapped), cost_adds adds, cost_adds swapped,
    book_adds adds, book_adds swapped]
  dsimp only
  rw [add_right_comm t.position, add_right_comm (cost t)]

section Adding

variable {long : Bool} {t : Tally} {fills : List NormalizedFill}

theorem Adds.perm {first second : List NormalizedFill} (adds : Adds long t first)
    (same : first.Perm second) : Adds long t second :=
  ⟨adds.basis, fun nf member => adds.adds nf (same.mem_iff.mpr member)⟩

theorem run_adds_perm {first second : List NormalizedFill} (same : first.Perm second)
    (adds : Adds long t first) : run Tally.book t first = run Tally.book t second :=
  run_perm (J := fun t batch => Adds long t batch) (fun _ _ _ => adds_next)
    (fun _ _ _ same adds => adds.perm same) (fun _ _ _ _ => adds_commute) same adds

theorem cost_run (adds : Adds long t fills) :
    cost (run Tally.book t fills) =
      cost t + (fills.map fun nf => (nf.size : ℚ) * nf.priceYes).sum := by
  induction fills generalizing t with
  | nil => simp [run]
  | cons nf fills inductionHypothesis =>
    rw [run_cons, inductionHypothesis (adds_next adds), cost_adds adds, List.map_cons,
      List.sum_cons, add_assoc]

/-! ### Unknown bases -/

/-- The fills add to the side of a position whose cost basis is unknown. -/
structure AddsBlind (long : Bool) (t : Tally) (fills : List NormalizedFill) : Prop where
  held : t.position ≠ 0 ∧ (0 < t.position ↔ long = true)
  unknown : t.entryPrice = none
  adds : ∀ nf ∈ fills, nf.longYes = long ∧ 0 < nf.size

def basedAt (t : Tally) (price : ℚ) : Tally := { t with entryPrice := some price }

theorem AddsBlind.based (blind : AddsBlind long t fills) (price : ℚ) :
    Adds long (basedAt t price) fills :=
  ⟨Or.inr ⟨blind.held.2, rfl⟩, blind.adds⟩

/-- The first fill's price stands in for the basis of what was held before. -/
theorem run_blind {nf : NormalizedFill} (blind : AddsBlind long t (nf :: fills)) :
    run Tally.book t (nf :: fills) = run Tally.book (basedAt t nf.priceYes) (nf :: fills) := by
  obtain ⟨larger, _⟩ := grows (blind.based nf.priceYes)
  obtain ⟨_, positive⟩ := blind.adds nf List.mem_cons_self
  have grown : |t.position| < |t.position + nf.signedSize| := by
    have larger : |t.position + nf.signedSize| = |t.position| + nf.size := larger
    omega
  have entry : foldEntryPrice t.position (t.position + nf.signedSize) t.entryPrice nf.size
      nf.priceYes = foldEntryPrice t.position (t.position + nf.signedSize) (some nf.priceYes)
        nf.size nf.priceYes := by
    unfold foldEntryPrice
    rw [if_pos grown, if_pos grown, blind.unknown]
    rfl
  have realized : t.market.realizedOn nf = (basedAt t nf.priceYes).market.realizedOn nf := by
    unfold TickerState.realizedOn Tally.market basedAt
    rw [blind.unknown]
    rfl
  have first : t.book nf = (basedAt t nf.priceYes).book nf := by
    unfold Tally.book
    dsimp only [TickerState.filled]
    rw [realized]
    dsimp only [TickerState.bookFill, Tally.market, basedAt]
    rw [entry]
    rfl
  rw [run_cons, run_cons, first]

/-- The first fill of the batch and the last have one price. -/
def EndsAlike (batch : List NormalizedFill) : Prop :=
  (batch.map NormalizedFill.priceYes).head? = (batch.map NormalizedFill.priceYes).getLast?

instance : DecidablePred EndsAlike := fun _ => inferInstanceAs (Decidable (_ = _))

/-- A batch that adds to a position of unknown basis shows its order in the price of its ends. -/
theorem figures_blind {batch : List NormalizedFill} (blind : AddsBlind long t batch) :
    (run Tally.book t batch).figures = (run Tally.book t batch.reverse).figures ↔
      EndsAlike batch := by
  have reversed : AddsBlind long t batch.reverse :=
    ⟨blind.held, blind.unknown, fun nf member => blind.adds nf (List.mem_reverse.mp member)⟩
  unfold EndsAlike
  rw [← List.head?_reverse, ← List.map_reverse]
  have same := List.reverse_perm batch
  generalize batch.reverse = backward at reversed same
  cases batch with
  | nil => rw [List.perm_nil.mp same]; simp
  | cons first rest =>
    cases backward with
    | nil => exact absurd same.symm (List.not_perm_nil_cons _ _ ∘ List.Perm.symm)
    | cons last others =>
      rw [run_blind blind, run_blind reversed, run_adds_perm same (reversed.based _)]
      simp only [List.map_cons, List.head?_cons, Option.some.injEq]
      constructor
      · intro figures
        have position := congrArg Prod.fst figures
        have entry := congrArg (fun figures => figures.2.1) figures
        have costs : cost (run Tally.book (basedAt t first.priceYes) (first :: rest)) =
            cost (run Tally.book (basedAt t last.priceYes) (first :: rest)) := by
          unfold cost
          exact congrArg₂ (fun (p : ℤ) (e : Option ℚ) => ((|p| : ℤ) : ℚ) * e.getD 0) position entry
        rw [cost_run (blind.based _), cost_run (blind.based _)] at costs
        have held : ((|t.position| : ℤ) : ℚ) ≠ 0 := by exact_mod_cast abs_ne_zero.mpr blind.held.1
        exact mul_left_cancel₀ held (add_right_cancel costs)
      · intro alike
        rw [alike]

end Adding

/-! ## Batches that close a position -/

/-- What each contract of a closing fill realizes. -/
def unitGain (t : Tally) (nf : NormalizedFill) : ℚ :=
  if 0 < t.position then nf.priceYes - t.entryPrice.getD nf.priceYes
  else t.entryPrice.getD nf.priceYes - nf.priceYes

/-- The fills close the position, and no more than it. -/
structure Closes (t : Tally) (fills : List NormalizedFill) : Prop where
  closes : ∀ nf ∈ fills, 0 < nf.size ∧ (nf.longYes = true ↔ t.position < 0)
  within : (fills.map NormalizedFill.size).sum ≤ |t.position|

theorem Closes.perm {t : Tally} {first second : List NormalizedFill} (closes : Closes t first)
    (same : first.Perm second) : Closes t second :=
  ⟨fun nf member => closes.closes nf (same.mem_iff.mpr member),
    (same.map NormalizedFill.size).sum_eq ▸ closes.within⟩

section Closing

variable {t : Tally} {nf : NormalizedFill} {rest : List NormalizedFill}

theorem Closes.tail (closes : Closes t (nf :: rest)) :
    0 ≤ (rest.map NormalizedFill.size).sum := by
  apply List.sum_nonneg
  intro size member
  obtain ⟨later, listed, rfl⟩ := List.mem_map.mp member
  exact (closes.closes later (List.mem_cons_of_mem _ listed)).1.le

theorem shrinks (closes : Closes t (nf :: rest)) :
    t.position ≠ 0 ∧ nf.size ≤ |t.position| ∧
      |t.position + nf.signedSize| = |t.position| - nf.size ∧
      (t.position + nf.signedSize ≠ 0 →
        (0 < t.position + nf.signedSize ↔ 0 < t.position) ∧
        (t.position + nf.signedSize < 0 ↔ t.position < 0)) := by
  obtain ⟨positive, side⟩ := closes.closes nf List.mem_cons_self
  have within := closes.within
  have later := closes.tail
  rw [List.map_cons, List.sum_cons] at within
  have held : t.position ≠ 0 := by
    rintro flat
    rw [flat, abs_zero] at within
    omega
  have enough : nf.size ≤ |t.position| := by omega
  refine ⟨held, enough, ?_⟩
  unfold NormalizedFill.signedSize
  obtain down | up := lt_or_gt_of_ne held
  · rw [if_pos (side.mpr down)]
    rw [abs_of_neg down] at enough ⊢
    rw [abs_of_nonpos (by omega)]
    exact ⟨by ring, fun _ => ⟨by omega, by omega⟩⟩
  · rw [if_neg fun buys => (side.mp buys).asymm up]
    rw [abs_of_pos up] at enough ⊢
    rw [abs_of_nonneg (by omega)]
    exact ⟨by ring, fun _ => ⟨by omega, by omega⟩⟩

theorem realizedOn_closes (closes : Closes t (nf :: rest)) :
    t.market.realizedOn nf = nf.size * unitGain t nf := by
  obtain ⟨held, enough, _⟩ := shrinks closes
  obtain ⟨_, side⟩ := closes.closes nf List.mem_cons_self
  unfold unitGain
  obtain down | up := lt_or_gt_of_ne held
  · have notLong : ¬ (nf.longYes = false ∧ 0 < t.position) := fun both => down.asymm both.2
    rw [if_neg down.asymm]
    refine ((if_neg notLong).trans (if_pos ⟨side.mpr down, down⟩)).trans ?_
    rw [show min nf.size |t.market.position| = nf.size from min_eq_left enough]
    rfl
  · have sells : nf.longYes = false := Bool.eq_false_iff.mpr fun buys => (side.mp buys).asymm up
    rw [abs_of_pos up] at enough
    rw [if_pos up]
    refine (if_pos ⟨sells, up⟩).trans ?_
    rw [show min nf.size t.market.position = nf.size from min_eq_left enough]
    rfl

theorem book_closes (closes : Closes t (nf :: rest)) :
    t.book nf =
      { position := t.position + nf.signedSize
        entryPrice := if t.position + nf.signedSize = 0 then none else t.entryPrice
        realizedPnl := t.realizedPnl + nf.size * unitGain t nf
        carried := if t.position + nf.signedSize = 0 then false else t.carried
        wins := t.wins + if 0 < unitGain t nf then 1 else 0
        losses := t.losses + if unitGain t nf < 0 then 1 else 0
        streak := if t.carried then t.streak else nextStreak (unitGain t nf) t.streak } := by
  obtain ⟨held, enough, smaller, signs⟩ := shrinks closes
  obtain ⟨positive, _⟩ := closes.closes nf List.mem_cons_self
  have entryPrice : (t.market.filled nf 0).entryPrice =
      if t.position + nf.signedSize = 0 then none else t.entryPrice := by
    change foldEntryPrice t.position (t.position + nf.signedSize) t.entryPrice nf.size
      nf.priceYes = _
    unfold foldEntryPrice
    split_ifs with closed crosses grows
    · rfl
    · obtain flat | flips := crosses
      · exact absurd flat held
      · rw [(signs closed).1] at flips
        exact absurd flips (not_iff_self ∘ Iff.symm)
    · omega
    · rfl
  have carried : (t.market.filled nf 0).carried =
      if t.position + nf.signedSize = 0 then false else t.carried := by
    change (if t.position + nf.signedSize = 0 ∨ (t.position ≠ 0 ∧
      (0 < t.position ↔ ¬ 0 < t.position + nf.signedSize)) then false else t.carried) = _
    by_cases closed : t.position + nf.signedSize = 0
    · rw [if_pos (Or.inl closed), if_pos closed]
    · rw [if_neg closed, if_neg]
      rintro (zero | ⟨_, flips⟩)
      · exact closed zero
      · rw [(signs closed).1] at flips
        exact iff_not_self flips
  have realized := realizedOn_closes closes
  have realizedPnl : (t.market.filled nf 0).realizedPnl = t.realizedPnl + nf.size * unitGain t nf := by
    rw [← realized]
    rfl
  have size : (0 : ℚ) < nf.size := by exact_mod_cast positive
  unfold Tally.book
  dsimp only
  rw [realized, carried, realizedPnl, entryPrice]
  have loss : nf.size * unitGain t nf < 0 ↔ unitGain t nf < 0 := by
    rw [← not_le, ← not_le, mul_nonneg_iff_of_pos_left size]
  simp only [nextStreak, mul_pos_iff_of_pos_left size, loss]
  rfl

theorem unitGain_next (closes : Closes t (nf :: rest)) {later : NormalizedFill}
    (member : later ∈ rest) :
    t.position + nf.signedSize ≠ 0 ∧ unitGain (t.book nf) later = unitGain t later := by
  obtain ⟨_, _, smaller, signs⟩ := shrinks closes
  have more : 0 < later.size := (closes.closes later (List.mem_cons_of_mem _ member)).1
  have enough : later.size ≤ (rest.map NormalizedFill.size).sum := by
    refine List.single_le_sum (fun size entry => ?_) _ (List.mem_map_of_mem member)
    obtain ⟨other, listed, rfl⟩ := List.mem_map.mp entry
    exact (closes.closes other (List.mem_cons_of_mem _ listed)).1.le
  have within := closes.within
  rw [List.map_cons, List.sum_cons] at within
  -- only the last fill of the batch can flatten the market
  have stays : t.position + nf.signedSize ≠ 0 := by
    intro closed
    rw [closed, abs_zero] at smaller
    omega
  refine ⟨stays, ?_⟩
  rw [book_closes closes]
  unfold unitGain
  dsimp only
  rw [if_neg stays]
  simp only [(signs stays).1]

theorem closes_next (closes : Closes t (nf :: rest)) : Closes (t.book nf) rest := by
  obtain ⟨_, _, smaller, signs⟩ := shrinks closes
  have within := closes.within
  rw [List.map_cons, List.sum_cons] at within
  refine ⟨fun later member => ?_, ?_⟩
  · obtain ⟨stays, _⟩ := unitGain_next closes member
    obtain ⟨positive, side⟩ := closes.closes later (List.mem_cons_of_mem _ member)
    rw [book_closes closes]
    exact ⟨positive, side.trans (signs stays).2.symm⟩
  · rw [book_closes closes]
    dsimp only
    omega

/-- What a batch that closes a position leaves: only the streak depends on its order. -/
theorem run_closes {fills : List NormalizedFill} (closes : Closes t fills) :
    run Tally.book t fills =
      let position := t.position + (fills.map NormalizedFill.signedSize).sum
      { position
        entryPrice := if t.position ≠ 0 ∧ position = 0 then none else t.entryPrice
        realizedPnl := t.realizedPnl + (fills.map fun nf => nf.size * unitGain t nf).sum
        carried := if t.position ≠ 0 ∧ position = 0 then false else t.carried
        wins := t.wins + fills.countP (0 < unitGain t ·)
        losses := t.losses + fills.countP (unitGain t · < 0)
        streak := if t.carried then t.streak else
          fills.foldl (fun streak nf => nextStreak (unitGain t nf) streak) t.streak } := by
  induction fills generalizing t with
  | nil => simp [run]
  | cons nf fills inductionHypothesis =>
    obtain ⟨held, _⟩ := shrinks closes
    have gain later (member : later ∈ fills) := (unitGain_next closes member).2
    rw [run_cons, inductionHypothesis (closes_next closes)]
    by_cases closed : t.position + nf.signedSize = 0
    -- a fill that flattens it is the last one, and drops the basis and the carried flag
    · have done : fills = [] := List.eq_nil_iff_forall_not_mem.mpr fun later member =>
        (unitGain_next closes member).1 closed
      rw [book_closes closes, done]
      simp [closed, held]
    · have gains : (fills.map fun later => later.size * unitGain (t.book nf) later) =
          fills.map fun later => later.size * unitGain t later :=
        List.map_congr_left fun later member => by rw [gain later member]
      have wins : fills.countP (0 < unitGain (t.book nf) ·) = fills.countP (0 < unitGain t ·) :=
        List.countP_congr fun later member => by rw [gain later member]
      have losses : fills.countP (unitGain (t.book nf) · < 0) = fills.countP (unitGain t · < 0) :=
        List.countP_congr fun later member => by rw [gain later member]
      have streak (start : ℕ) :
          fills.foldl (fun streak later => nextStreak (unitGain (t.book nf) later) streak) start =
            fills.foldl (fun streak later => nextStreak (unitGain t later) streak) start :=
        List.foldl_ext _ _ start fun _ later member => by rw [gain later member]
      dsimp only
      rw [gains, wins, losses, streak, book_closes closes]
      simp only [ne_eq, closed, held, not_false_eq_true, true_and, List.map_cons, List.sum_cons,
        List.countP_cons, decide_eq_true_eq, List.foldl_cons, ← add_assoc, if_false]
      rw [add_right_comm t.wins, add_right_comm t.losses]
      cases t.carried <;> rfl

end Closing

/-! ## The losing streak -/

def lossesBeforeGain (gains : List ℚ) : ℕ :=
  (gains.takeWhile fun gain => decide (¬ 0 < gain)).countP (· < 0)

/-- The closes behind the last gain make the streak; without a gain they extend it. -/
theorem foldr_nextStreak (gains : List ℚ) (streak : ℕ) :
    gains.foldr nextStreak streak =
      (if ∃ gain ∈ gains, 0 < gain then 0 else streak) + lossesBeforeGain gains := by
  induction gains with
  | nil => simp [lossesBeforeGain]
  | cons gain gains inductionHypothesis =>
    rw [List.foldr_cons, inductionHypothesis]
    unfold nextStreak lossesBeforeGain
    by_cases wins : 0 < gain
    · rw [if_pos wins, if_pos ⟨gain, List.mem_cons_self, wins⟩,
        List.takeWhile_cons_of_neg (by simpa using wins)]
      rfl
    · rw [if_neg wins, List.takeWhile_cons_of_pos (by simpa using wins), List.countP_cons]
      simp only [List.mem_cons, exists_eq_or_imp, wins, false_or, decide_eq_true_eq]
      split_ifs <;> omega

/-- The batch lost as often before its first gain as after its last. -/
def Balanced (t : Tally) (batch : List NormalizedFill) : Prop :=
  lossesBeforeGain (batch.map (unitGain t)) = lossesBeforeGain (batch.map (unitGain t)).reverse

theorem streak_eq_iff (t : Tally) (batch : List NormalizedFill) (streak : ℕ) :
    batch.foldl (fun streak nf => nextStreak (unitGain t nf) streak) streak =
        batch.reverse.foldl (fun streak nf => nextStreak (unitGain t nf) streak) streak ↔
      Balanced t batch := by
  have forward : batch.foldl (fun streak nf => nextStreak (unitGain t nf) streak) streak =
      (batch.map (unitGain t)).reverse.foldr nextStreak streak := by
    rw [List.foldr_reverse, List.foldl_map]
  have backward : batch.reverse.foldl (fun streak nf => nextStreak (unitGain t nf) streak) streak =
      (batch.map (unitGain t)).foldr nextStreak streak := by
    rw [List.foldl_reverse, List.foldr_map]
  have gains : (∃ gain ∈ (batch.map (unitGain t)).reverse, 0 < gain) ↔
      ∃ gain ∈ batch.map (unitGain t), 0 < gain := by simp only [List.mem_reverse]
  rw [forward, backward, foldr_nextStreak, foldr_nextStreak]
  simp only [gains]
  exact (Nat.add_left_cancel_iff).trans eq_comm

/-- A batch that closes a position shows its order in the losing streak, and nowhere else. -/
theorem figures_closes {t : Tally} {batch : List NormalizedFill} (closes : Closes t batch) :
    (run Tally.book t batch).figures = (run Tally.book t batch.reverse).figures ↔
      t.carried = true ∨ Balanced t batch := by
  -- all that `run_closes` sums or counts is the same in every order
  have same := List.reverse_perm batch
  rw [run_closes closes, run_closes (closes.perm same.symm)]
  dsimp only
  rw [(same.map _).sum_eq, (same.map _).sum_eq, same.countP_eq, same.countP_eq,
    ← streak_eq_iff t batch t.streak]
  simp only [Tally.figures, Prod.mk.injEq, true_and]
  by_cases carried : t.carried = true
  · rw [if_pos carried, if_pos carried]
    exact ⟨fun _ => Or.inl carried, fun _ => rfl⟩
  · rw [if_neg carried, if_neg carried]
    exact (or_iff_right carried).symm

/-! ## Two fills on a flat market -/

theorem book_opens {t : Tally} (flat : t.position = 0) {nf : NormalizedFill} (size : 0 < nf.size) :
    t.book nf = { t with position := nf.signedSize, entryPrice := some nf.priceYes } := by
  have adds : Adds nf.longYes t [nf] :=
    ⟨Or.inl flat, fun other member => by
      rw [List.mem_singleton.mp member]
      exact ⟨rfl, size⟩⟩
  obtain ⟨larger, _⟩ := grows adds
  have nonzero : ((nf.size : ℤ) : ℚ) ≠ 0 := by exact_mod_cast size.ne'
  rw [book_adds adds, larger, cost, flat]
  simp [nonzero]

/-- The larger of two opposed fills leaves its price as the basis of what remains. -/
theorem foldEntryPrice_opposed {bought sold : ℤ} (buys : 0 < bought) (sells : 0 < sold)
    (paid received : ℚ) :
    foldEntryPrice bought (bought + -sold) (some paid) sold received =
      foldEntryPrice (-sold) (-sold + bought) (some received) bought paid := by
  unfold foldEntryPrice
  rw [neg_add_eq_sub, ← sub_eq_add_neg, abs_neg, abs_of_pos buys, abs_of_pos sells]
  obtain less | same | more := lt_trichotomy bought sold
  · rw [abs_of_neg (sub_neg.mpr less), if_neg (by omega), if_pos (by omega), if_neg (by omega),
      if_neg (by omega), if_neg (by omega)]
  · rw [if_pos (by omega), if_pos (by omega)]
  · rw [abs_of_pos (sub_pos.mpr more), if_neg (by omega), if_neg (by omega), if_neg (by omega),
      if_neg (by omega), if_pos (by omega)]

theorem figures_opposed {t : Tally} (flat : t.position = 0) {buy sell : NormalizedFill}
    (buys : buy.longYes = true) (sells : sell.longYes = false) (bought : 0 < buy.size)
    (sold : 0 < sell.size) :
    ((t.book buy).book sell).figures = ((t.book sell).book buy).figures := by
  have long : buy.signedSize = buy.size := if_pos buys
  have short : sell.signedSize = -sell.size := if_neg (by rw [sells]; exact Bool.false_ne_true)
  have closesLong : (t.book buy).market.realizedOn sell =
      (min sell.size buy.size : ℤ) * (sell.priceYes - buy.priceYes) := by
    rw [book_opens flat bought, long]
    exact if_pos ⟨sells, bought⟩
  have closesShort : (t.book sell).market.realizedOn buy =
      (min sell.size buy.size : ℤ) * (sell.priceYes - buy.priceYes) := by
    rw [book_opens flat sold, short]
    have notLong : ¬ (buy.longYes = false ∧ 0 < -sell.size) := by simp [buys]
    refine (if_neg notLong).trans ((if_pos ⟨buys, neg_neg_of_pos sold⟩).trans ?_)
    change (min buy.size |-sell.size| : ℤ) * (sell.priceYes - buy.priceYes) = _
    rw [abs_neg, abs_of_pos sold, min_comm]
  rw [Tally.figures_book, Tally.figures_book, closesLong, closesShort, book_opens flat bought,
    book_opens flat sold]
  dsimp only
  rw [long, short, foldEntryPrice_opposed bought sold, add_comm buy.size]

theorem figures_pair {t : Tally} (flat : t.position = 0) {first second : NormalizedFill}
    (sizes : 0 < first.size ∧ 0 < second.size) :
    ((t.book first).book second).figures = ((t.book second).book first).figures := by
  have adding (same : second.longYes = first.longYes) :
      Adds first.longYes t [first, second] := by
    refine ⟨Or.inl flat, fun nf member => ?_⟩
    simp only [List.mem_cons, List.not_mem_nil, or_false] at member
    obtain rfl | rfl := member
    · exact ⟨rfl, sizes.1⟩
    · exact ⟨same, sizes.2⟩
  cases side : first.longYes <;> cases other : second.longYes
  · exact congrArg Tally.figures (adds_commute (adding (other.trans side.symm)))
  · exact (figures_opposed flat other side sizes.2 sizes.1).symm
  · exact figures_opposed flat side other sizes.1 sizes.2
  · exact congrArg Tally.figures (adds_commute (adding (other.trans side.symm)))

/-! ## Either order -/

/-- What booking reads of a fill. -/
def terms (nf : NormalizedFill) : Bool × ℤ × ℚ := (nf.longYes, nf.size, nf.priceYes)

/-- The batch reads the same from either end. -/
def Palindromic (batch : List NormalizedFill) : Prop :=
  batch.reverse.map terms = batch.map terms

instance : DecidablePred Palindromic := fun _ => inferInstanceAs (Decidable (_ = _))

theorem book_congr (t : Tally) {nf other : NormalizedFill} (same : terms nf = terms other) :
    t.book nf = t.book other := by
  obtain ⟨_, _, longYes, priceYes, size, _, _⟩ := nf
  cases other
  cases same
  rfl

theorem run_congr {first second : List NormalizedFill} (same : first.map terms = second.map terms)
    (t : Tally) : run Tally.book t first = run Tally.book t second := by
  induction first generalizing second t with
  | nil => rw [List.map_eq_nil_iff.mp same.symm]
  | cons nf first inductionHypothesis =>
    cases second with
    | nil => cases same
    | cons other second =>
      obtain ⟨head, tail⟩ := List.cons_eq_cons.mp same
      rw [run_cons, run_cons, book_congr t head, inductionHypothesis tail]

/-- Batches that leave the same figures oldest first. -/
def OrderFree (t : Tally) (batch : List NormalizedFill) : Prop :=
  Palindromic batch ∨ (batch.length = 2 ∧ t.position = 0) ∨ (∃ long, Adds long t batch) ∨
    ((∃ long, AddsBlind long t batch) ∧ EndsAlike batch) ∨
    (Closes t batch ∧ (t.carried = true ∨ Balanced t batch))

theorem figures_orderFree {t : Tally} {batch : List NormalizedFill}
    (sizes : ∀ nf ∈ batch, 0 < nf.size) (free : OrderFree t batch) :
    (run Tally.book t batch).figures = (run Tally.book t batch.reverse).figures := by
  obtain palindromic | ⟨pair, flat⟩ | ⟨_, adds⟩ | ⟨⟨_, blind⟩, alike⟩ | ⟨closes, balanced⟩ := free
  · rw [run_congr palindromic]
  · obtain ⟨first, second, rfl⟩ := List.length_eq_two.mp pair
    exact figures_pair flat ⟨sizes first (by simp), sizes second (by simp)⟩
  · rw [run_adds_perm (List.reverse_perm batch).symm adds]
  · exact (figures_blind blind).mpr alike
  · exact (figures_closes closes).mpr balanced

end KalshiMm.Verified.FillOrder
