import KalshiMm.Lib.Neighbours
import KalshiMm.Verified.Bookings
import KalshiMm.Verified.Replay

/-!
# Rebuilding a lost cost basis

The backfill reads a market's fills newest first and sorts them by their timestamps.  The sort is
stable, so fills of one timestamp are replayed newest first.  The first two fills of a history
may be exchanged, since from flat either order ends the same; any later tie can show in the
entry price, which the check of the position does not see.
-/

namespace KalshiMm.Verified.Backfill

open KalshiMm.Lib KalshiMm.Model KalshiMm.Verified.Replay

/-! ## Histories -/

/-- The sort key of a row; a row without a readable timestamp sorts first. -/
def stampOf (row : Value) : WithBot ℚ := jsonF64 (row.get "ts")

def isFill (row : Value) : Bool := (normalizeFill row).isSome

def fillsOf (rows : List Value) : List NormalizedFill := rows.filterMap normalizeFill

/-- The ids of the fills, each with the timestamp of its row. -/
def marksOf (rows : List Value) : List (String × WithBot ℚ) :=
  rows.filterMap fun row => (normalizeFill row).map fun nf => (nf.fillId, stampOf row)

def Chronological (rows : List Value) : Prop := rows.Pairwise fun a b => stampOf a ≤ stampOf b

/-- The sweep reads the whole history, newest first, in at most ten pages. -/
def Serves (out : Outside) (ticker : String) (history : List Value) : Prop :=
  ∃ pages, readPages (fun page cursor => out.api.getFills page 0 cursor (some ticker)) 10 0 none =
    (pages, true) ∧ pageRows pages "fills" = history.reverse

def entryOf (s : TraderState) (ticker : String) : Option ℚ :=
  (s.tickers.lookup ticker).bind TickerState.entryPrice

/-- Whenever a backfill from this history sets an entry price, live booking of the history from
    flat ends with that entry price. -/
def Faithful (history : List Value) : Prop :=
  ∀ (out : Outside) (ticker : String) (tr : Trader) (entry : ℚ), Serves out ticker history →
    entryOf tr.state ticker = none →
    entryOf (tr.backfillEntryPrice out ticker).state ticker = some entry →
    ∀ (s : TraderState) (ts : TickerState) (bookings : List Booking),
      s.tickers.lookup ticker = some ts → basisOf ts = (0, none) →
      bookings.map Booking.fill = fillsOf history →
      ∃ s', bookAll ticker s bookings = some s' ∧ entryOf s' ticker = some entry

/-! ## What the backfill replays -/

/-- The fills in the order of the replay. -/
def replayed (history : List Value) : List NormalizedFill :=
  fillsOf (sortBy stampOf history.reverse)

section Served

variable {out : Outside} {ticker : String} {tr : Trader} {entry : ℚ} {history : List Value}

theorem entryOf_backfill (served : Serves out ticker history) (unset : entryOf tr.state ticker = none)
    (written : entryOf (tr.backfillEntryPrice out ticker).state ticker = some entry) :
    (replayEntryPrice (replayed history)).2 = some entry := by
  obtain ⟨pages, read, rows⟩ := served
  unfold Trader.backfillEntryPrice at written
  simp only [read, rows, Bool.true_eq_false, if_false] at written
  split at written
  next position basis ts replays known =>
    split_ifs at written
    · rw [entryOf, TraderState.setTicker_tickers, Finmap.lookup_insert] at written
      exact (congrArg Prod.snd replays).trans written
    · rw [unset] at written
      cases written
  · rw [unset] at written
    cases written

theorem entryOf_backfill_of_replay (served : Serves out ticker history) {ts : TickerState}
    (known : tr.state.tickers.lookup ticker = some ts)
    (replays : replayEntryPrice (replayed history) = (ts.position, some entry)) :
    entryOf (tr.backfillEntryPrice out ticker).state ticker = some entry := by
  obtain ⟨pages, read, rows⟩ := served
  unfold Trader.backfillEntryPrice
  simp only [read, rows, Bool.true_eq_false, if_false, known]
  split
  next position basis ts' replays' known' =>
    obtain ⟨rfl, rfl⟩ : position = ts.position ∧ basis = entry := by
      simpa using replays'.symm.trans replays
    cases known'
    rw [if_pos rfl, entryOf, TraderState.setTicker_tickers, Finmap.lookup_insert]
    rfl
  next missing => exact absurd rfl (missing _ _ _ replays)

end Served

/-! ## Ties at the old end -/

theorem abs_signedSize (nf : NormalizedFill) (positive : 0 < nf.size) :
    |nf.signedSize| = nf.size := by
  unfold NormalizedFill.signedSize
  split_ifs
  · exact abs_of_pos positive
  · rw [abs_neg, abs_of_pos positive]

theorem foldFill_opens {nf : NormalizedFill} (positive : 0 < nf.size) :
    foldFill (0, none) nf = (nf.signedSize, some nf.priceYes) := by
  have moved : nf.signedSize ≠ 0 := by
    rw [← abs_pos, abs_signedSize nf positive]
    exact positive
  rw [foldFill, zero_add, Pnl.foldEntryPrice_open moved]

/-- A fill against an open position, by what becomes of the position. -/
theorem foldEntryPrice_second {x y size : ℤ} {entry price : ℚ} (open_ : x ≠ 0) (moves : y ≠ 0)
    (sized : |y| = size) : foldEntryPrice x (x + y) (some entry) size price =
      if x + y = 0 then none
      else if (0 < x ↔ 0 < y) then some ((|x| * entry + |y| * price) / |x + y|)
      else if |y| < |x| then some entry else some price := by
  subst sized
  by_cases flat : x + y = 0
  · rw [if_pos flat, foldEntryPrice, if_pos flat]
  · rw [if_neg flat]
    split_ifs with alike smaller
    · refine Pnl.foldEntryPrice_extend open_ flat (by omega) ?_ entry _ price
      rw [Int.abs_eq_natAbs, Int.abs_eq_natAbs]
      omega
    · rw [Int.abs_eq_natAbs, Int.abs_eq_natAbs] at smaller
      refine Pnl.foldEntryPrice_reduce open_ flat (by omega) ?_ (some entry) _ price
      rw [Int.abs_eq_natAbs, Int.abs_eq_natAbs]
      omega
    · rw [Int.abs_eq_natAbs, Int.abs_eq_natAbs] at smaller
      exact Pnl.foldEntryPrice_flip flat (by omega) (some entry) _ price

/-- From flat, two fills end the same in either order. -/
theorem foldFill_comm {a b : NormalizedFill} (positiveA : 0 < a.size) (positiveB : 0 < b.size) :
    foldFill (foldFill (0, none) a) b = foldFill (foldFill (0, none) b) a := by
  have sizeA := abs_signedSize a positiveA
  have sizeB := abs_signedSize b positiveB
  have movesA : a.signedSize ≠ 0 := by rw [← abs_pos, sizeA]; exact positiveA
  have movesB : b.signedSize ≠ 0 := by rw [← abs_pos, sizeB]; exact positiveB
  rw [foldFill_opens positiveA, foldFill_opens positiveB, foldFill, foldFill]
  dsimp only
  rw [foldEntryPrice_second movesA movesB sizeB, foldEntryPrice_second movesB movesA sizeA,
    add_comm b.signedSize]
  refine Prod.ext rfl ?_
  dsimp only
  by_cases flat : a.signedSize + b.signedSize = 0
  · rw [if_pos flat, if_pos flat]
  rw [if_neg flat, if_neg flat]
  by_cases alike : 0 < a.signedSize ↔ 0 < b.signedSize
  · rw [if_pos alike, if_pos alike.symm, add_comm (|(a.signedSize : ℤ)| * a.priceYes : ℚ)]
  have unlike : ¬ (0 < b.signedSize ↔ 0 < a.signedSize) := fun same => alike same.symm
  rw [if_neg alike, if_neg unlike]
  -- of opposite fills the larger one gives the price
  have unequal : |b.signedSize| ≠ |a.signedSize| := by
    rw [Int.abs_eq_natAbs, Int.abs_eq_natAbs]
    omega
  obtain smaller | larger := lt_or_gt_of_ne unequal
  · rw [if_pos smaller, if_neg smaller.not_gt]
  · rw [if_pos larger, if_neg larger.not_gt]

/-! ## Histories that rebuild -/

theorem filter_fills (rows : List Value) : fillsOf (rows.filter isFill) = fillsOf rows := by
  induction rows with
  | nil => rfl
  | cons row rows inductionHypothesis =>
    unfold fillsOf at inductionHypothesis ⊢
    cases normal : normalizeFill row with
    | none =>
      rw [List.filter_cons_of_neg (by simp [isFill, normal]), List.filterMap_cons_none normal,
        inductionHypothesis]
    | some nf =>
      rw [List.filter_cons_of_pos (by simp [isFill, normal]), List.filterMap_cons_some normal,
        List.filterMap_cons_some normal, inductionHypothesis]

theorem stamps_marksOf (rows : List Value) :
    (marksOf rows).map Prod.snd = (rows.filter isFill).map stampOf := by
  induction rows with
  | nil => rfl
  | cons row rows inductionHypothesis =>
    unfold marksOf at inductionHypothesis ⊢
    cases normal : normalizeFill row with
    | none =>
      rw [List.filter_cons_of_neg (by simp [isFill, normal]),
        List.filterMap_cons_none (by simp [normal]), inductionHypothesis]
    | some nf =>
      rw [List.filter_cons_of_pos (by simp [isFill, normal]),
        List.filterMap_cons_some (by rw [normal, Option.map_some]), List.map_cons, List.map_cons,
        inductionHypothesis]

/-- Where no two timestamps past the oldest tie, the replay ends as the history does. -/
theorem replay_of_apart {history : List Value} (chronological : Chronological history)
    (apart : ((marksOf history).map Prod.snd).tail.Pairwise (· < ·)) :
    replayEntryPrice (replayed history) = replayEntryPrice (fillsOf history) := by
  have sorted : (sortBy stampOf history.reverse).Pairwise fun a b => stampOf a ≤ stampOf b :=
    pairwise_sortBy _
  have perm : (sortBy stampOf history.reverse).Perm history :=
    (perm_sortBy _).trans (List.reverse_perm history)
  have ranked : Ranked stampOf (history.filter isFill).tail := by
    rw [stamps_marksOf, ← List.map_tail] at apart
    exact List.pairwise_map.mp apart
  rw [replayed, ← filter_fills history, ← filter_fills (sortBy stampOf history.reverse)]
  obtain same | ⟨a, b, rest, split_, exchanged⟩ :=
    eq_or_swap_of_perm (chronological.filter isFill) (sorted.filter isFill) (perm.filter isFill) ranked
  · rw [same]
  · rw [exchanged, split_]
    have fill (row : Value) (member : row ∈ history.filter isFill) :
        ∃ nf, normalizeFill row = some nf ∧ 0 < nf.size := by
      obtain ⟨nf, normal⟩ := Option.isSome_iff_exists.mp (List.mem_filter.mp member).2
      exact ⟨nf, normal, normalizeFill_size normal⟩
    obtain ⟨first, normalA, positiveA⟩ := fill a (by simp [split_])
    obtain ⟨second, normalB, positiveB⟩ := fill b (by simp [split_])
    unfold fillsOf
    rw [List.filterMap_cons_some normalB, List.filterMap_cons_some normalA,
      List.filterMap_cons_some normalA, List.filterMap_cons_some normalB, replayEntryPrice_eq,
      replayEntryPrice_eq, run_cons, run_cons, run_cons, run_cons, foldFill_comm positiveA positiveB]

theorem faithful_of_apart {history : List Value} (chronological : Chronological history)
    (apart : ((marksOf history).map Prod.snd).tail.Pairwise (· < ·)) : Faithful history := by
  intro out ticker tr entry served unset written s ts bookings known fresh booked
  obtain ⟨s', ts', all, found, basis⟩ := bookAll_basis known bookings
  rw [fresh, booked, ← replayEntryPrice_eq, ← replay_of_apart chronological apart] at basis
  refine ⟨s', all, ?_⟩
  rw [entryOf, found, Option.bind_some, ← entryOf_backfill served unset written, ← basis]
  rfl

/-! ## Histories that do not -/

section Ties

/-- The row of a fill with a timestamp, or without a readable one. -/
def stamped (stamp : WithBot ℚ) (nf : NormalizedFill) : Value :=
  .object [("ts", Option.elim stamp .null .number), ("trade_id", .string nf.fillId),
    ("order_id", .string (nf.orderId.getD "")), ("ticker", .string nf.ticker),
    ("action", .string (if nf.longYes then "buy" else "sell")), ("side", .string "yes"),
    ("yes_price_dollars", .number nf.priceYes), ("count", .number nf.size)]

theorem stampOf_stamped (stamp : WithBot ℚ) (nf : NormalizedFill) :
    stampOf (stamped stamp nf) = stamp := by
  cases stamp <;> rfl

/-- A fill of a given id, direction, size and price. -/
def trade (fillId : String) (longYes : Bool) (size : ℤ) (priceYes : ℚ) : NormalizedFill :=
  makerFill fillId "order" "KXBTCD-26JUL1517-T64000" longYes size priceYes

theorem normalizeFill_stamped {stamp : WithBot ℚ} {fillId : String} {longYes : Bool} {size : ℤ}
    {priceYes : ℚ} (id : fillId ≠ "") (positive : 0 < size) (small : size < 2 ^ 63) :
    normalizeFill (stamped stamp (trade fillId longYes size priceYes)) =
      some (trade fillId longYes size priceYes) := by
  have count : toI64 (roundTiesEven (size : ℚ)) = size := by
    rw [roundTiesEven_isNearest.intCast]
    unfold toI64
    omega
  have named : (some "KXBTCD-26JUL1517-T64000").filter (· ≠ "") =
      some "KXBTCD-26JUL1517-T64000" := by decide
  have traded : (some fillId).filter (· ≠ "") = some fillId := by simp [id]
  unfold normalizeFill stamped trade makerFill
  simp only [strField, Value.getStr, Value.get, numField, List.findSome?, List.lookup_cons,
    List.lookup_nil, Value.asStr, String.reduceBEq, Option.bind_some, Option.bind_none,
    F64.toRat_finite, named, traded]
  cases longYes <;> simp [count, positive, guard]

/-! Lots are alike, so that only the order of a sale and a cheaper buy among them counts. -/

def lot (mark : String × WithBot ℚ) : Value := stamped mark.2 (trade mark.1 true 2 (1 / 2))
def trim (mark : String × WithBot ℚ) : Value := stamped mark.2 (trade mark.1 false 1 (1 / 2))
def cheap (mark : String × WithBot ℚ) : Value := stamped mark.2 (trade mark.1 true 1 (1 / 4))

/-- A long of known cost: contracts, and what they cost together. -/
structure Long (basis : ℤ × Option ℚ) (contracts : ℤ) (cost : ℚ) : Prop where
  known : basis.2.isSome ↔ basis.1 ≠ 0
  position : basis.1 = contracts
  cost_eq : Pnl.cost basis.1 basis.2 = cost

def IsLot (nf : NormalizedFill) : Prop := ∃ fillId, nf = trade fillId true 2 (1 / 2)

namespace Long

variable {basis : ℤ × Option ℚ} {contracts : ℤ} {cost : ℚ}

theorem flat : Long (0, none) 0 0 where
  known := by simp
  position := rfl
  cost_eq := by simp [Pnl.cost]

theorem buy (long : Long basis contracts cost) (nonneg : 0 ≤ contracts) (fillId : String)
    (size : ℤ) (positive : 1 ≤ size) (priceYes : ℚ) :
    Long (foldFill basis (trade fillId true size priceYes)) (contracts + size)
      (cost + size * priceYes) := by
  obtain ⟨known, rfl, rfl⟩ := long
  refine ⟨Pnl.foldEntryPrice_isSome known _ _, rfl, ?_⟩
  have added : Pnl.cost (basis.1 + size)
      (foldEntryPrice basis.1 (basis.1 + size) basis.2 size priceYes) =
        Pnl.cost basis.1 basis.2 + ((basis.1 + size : ℤ) - basis.1) * priceYes :=
    Pnl.cost_of_adding known (Or.inl ⟨nonneg, rfl⟩) positive
  rw [Int.cast_add, add_sub_cancel_left] at added
  exact added

/-- A sale of one contract takes its share of the cost. -/
theorem sell (long : Long basis contracts cost) (positive : 1 ≤ contracts) (fillId : String)
    (priceYes : ℚ) : Long (foldFill basis (trade fillId false 1 priceYes)) (contracts - 1)
      (cost * (contracts - 1) / contracts) := by
  obtain ⟨known, rfl, rfl⟩ := long
  refine ⟨Pnl.foldEntryPrice_isSome known _ _, rfl, ?_⟩
  have closing : (0 < basis.1 ∧ 0 ≤ basis.1 + -1 ∧ basis.1 + -1 < basis.1) ∨
      (basis.1 < 0 ∧ basis.1 + -1 ≤ 0 ∧ basis.1 < basis.1 + -1) := Or.inl (by omega)
  have reduced : Pnl.cost (basis.1 + -1)
      (foldEntryPrice basis.1 (basis.1 + -1) basis.2 1 priceYes) =
        ((basis.1 + -1 : ℤ) : ℚ) * basis.2.getD 0 := Pnl.cost_of_closing closing
  have nonzero : (basis.1 : ℚ) ≠ 0 := by exact_mod_cast (by omega : basis.1 ≠ 0)
  change Pnl.cost (basis.1 + -1) _ = _
  refine reduced.trans ?_
  unfold Pnl.cost
  push_cast
  field_simp
  ring

/-- A run of lots adds two contracts and a dollar each. -/
theorem lots {fills : List NormalizedFill} (long : Long basis contracts cost)
    (nonneg : 0 ≤ contracts) (all : ∀ nf ∈ fills, IsLot nf) :
    Long (run foldFill basis fills) (contracts + 2 * fills.length) (cost + fills.length) := by
  induction fills generalizing basis contracts cost with
  | nil => simpa using long
  | cons nf fills inductionHypothesis =>
    obtain ⟨⟨fillId, rfl⟩, rest⟩ := List.forall_mem_cons.mp all
    have next := inductionHypothesis (long.buy nonneg fillId 2 (by norm_num) (1 / 2)) (by omega) rest
    rw [run_cons, List.length_cons]
    convert next using 1
    · push_cast
      ring
    · push_cast
      ring

/-- Two longs of one size and different costs have different entry prices. -/
theorem entry_ne {basis' : ℤ × Option ℚ} {cost' : ℚ} (long : Long basis contracts cost)
    (long' : Long basis' contracts cost') (differ : cost ≠ cost') : basis.2 ≠ basis'.2 := by
  intro same
  apply differ
  rw [← long.cost_eq, ← long'.cost_eq, long.position, long'.position, same]

end Long

/-- The sale first: it takes its share of the lots before it only. -/
theorem long_sale_first {before after : List NormalizedFill} (lots : ∀ nf ∈ before, IsLot nf)
    (lots' : ∀ nf ∈ after, IsLot nf) (opened : before ≠ []) (sold bought : String) :
    Long (run foldFill (0, none) (before ++ trade sold false 1 (1 / 2) ::
        trade bought true 1 (1 / 4) :: after))
      (2 * (before.length + after.length)) (before.length + after.length - 1 / 4) := by
  have some_ : 1 ≤ before.length := List.length_pos_iff.mpr opened
  have nonzero : (before.length : ℚ) ≠ 0 := by exact_mod_cast (by omega : before.length ≠ 0)
  have opening := Long.flat.lots le_rfl lots
  have sale := opening.sell (by omega) sold (1 / 2)
  have closing := (sale.buy (by omega) bought 1 le_rfl (1 / 4)).lots (by omega) lots'
  rw [run_append, run_cons, run_cons]
  convert closing using 1
  · ring
  · push_cast
    field_simp
    ring

/-- The cheaper buy first: the sale takes its share of it, too. -/
theorem long_buy_first {before between after : List NormalizedFill}
    (lots : ∀ nf ∈ before, IsLot nf) (lots' : ∀ nf ∈ between, IsLot nf)
    (lots'' : ∀ nf ∈ after, IsLot nf) (sold bought : String) :
    Long (run foldFill (0, none) (before ++ trade bought true 1 (1 / 4) ::
        (between ++ trade sold false 1 (1 / 2) :: after)))
      (2 * (before.length + between.length + after.length))
      ((before.length + between.length + 1 / 4) * (2 * (before.length + between.length)) /
        (2 * (before.length + between.length) + 1) + after.length) := by
  have opening := (Long.flat.lots le_rfl lots).buy (by omega) bought 1 le_rfl (1 / 4)
  have sale := (opening.lots (by omega) lots').sell (by omega) sold (1 / 2)
  have closing := sale.lots (by omega) lots''
  rw [run_append, run_cons, run_append, run_cons]
  convert closing using 1
  · ring
  · push_cast
    ring_nf

/-! The history of given marks: lots, but for a sale and a cheaper buy at a tie. -/

def tiedHistory (before : List (String × WithBot ℚ)) (sold bought : String × WithBot ℚ)
    (after : List (String × WithBot ℚ)) : List Value :=
  before.map lot ++ trim sold :: cheap bought :: after.map lot

/-- Only rows of lots, each with an id. -/
def Lots (rows : List Value) : Prop := ∀ row ∈ rows, ∃ mark, mark.1 ≠ "" ∧ row = lot mark

theorem fillsOf_lots (rows : List Value) (lots : Lots rows) :
    (∀ nf ∈ fillsOf rows, IsLot nf) ∧ (fillsOf rows).length = rows.length := by
  induction rows with
  | nil => exact ⟨by simp [fillsOf], rfl⟩
  | cons row rows inductionHypothesis =>
    obtain ⟨⟨mark, id, rfl⟩, rest⟩ := List.forall_mem_cons.mp lots
    obtain ⟨all, count⟩ := inductionHypothesis rest
    have normal : normalizeFill (lot mark) = some (trade mark.1 true 2 (1 / 2)) :=
      normalizeFill_stamped id (by norm_num) (by norm_num)
    unfold fillsOf at all count ⊢
    rw [List.filterMap_cons_some normal]
    exact ⟨List.forall_mem_cons.mpr ⟨⟨mark.1, rfl⟩, all⟩, by
      rw [List.length_cons, List.length_cons, count]⟩

theorem lots_map {marks : List (String × WithBot ℚ)} (named : ∀ mark ∈ marks, mark.1 ≠ "") :
    Lots (marks.map lot) := by
  intro row member
  obtain ⟨mark, listed, rfl⟩ := List.mem_map.mp member
  exact ⟨mark, named mark listed, rfl⟩

/-- An API that serves a history newest first, on one page. -/
def serving (history : List Value) : Outside where
  api := { MarketApi.down with
    getFills := fun _ _ _ _ => .ok (.object [("fills", .array history.reverse)]) }
  hash := .sorted
  mono := 0
  epoch := 0

theorem serves_serving (history : List Value) (ticker : String) :
    Serves (serving history) ticker history :=
  ⟨[.object [("fills", .array history.reverse)]], rfl, List.append_nil _⟩

/-- A trader that holds a position without a basis. -/
def holder (ticker : String) (position : ℤ) : Trader :=
  { Trader.start { live := ⟨0, 0, 0, 0, 0⟩, categories := [] } 0 with
    state := (TraderState.new 0).setTicker ticker { TickerState.new "KXBTCD" with position } }

/-- The position check lets a different entry price through. -/
theorem not_faithful_of_ne {history : List Value} {position : ℤ} {replayedEntry liveEntry : ℚ}
    (differ : replayedEntry ≠ liveEntry)
    (replay : replayEntryPrice (replayed history) = (position, some replayedEntry))
    (live : replayEntryPrice (fillsOf history) = (position, some liveEntry)) :
    ¬ Faithful history := by
  intro faithful
  have known : (holder "KXBTCD-26JUL1517-T64000" position).state.tickers.lookup
      "KXBTCD-26JUL1517-T64000" = some { TickerState.new "KXBTCD" with position } :=
    Finmap.lookup_insert _
  have served := serves_serving history "KXBTCD-26JUL1517-T64000"
  have written := entryOf_backfill_of_replay served known replay
  have fresh : ((TraderState.new 0).ticker "KXBTCD-26JUL1517-T64000" "KXBTCD").tickers.lookup
      "KXBTCD-26JUL1517-T64000" = some (TickerState.new "KXBTCD") := Finmap.lookup_insert _
  let bookings : List Booking := (fillsOf history).map fun fill => { fill, fee := 0, epoch := 0 }
  have fills : bookings.map Booking.fill = fillsOf history := by
    rw [List.map_map]
    exact List.map_id _
  have unset : entryOf (holder "KXBTCD-26JUL1517-T64000" position).state
      "KXBTCD-26JUL1517-T64000" = none := by
    rw [entryOf, known]
    rfl
  obtain ⟨s', booked, entry⟩ := faithful _ _ _ _ served unset written _ _ bookings fresh rfl fills
  obtain ⟨s'', ts'', booked', found, basis⟩ := bookAll_basis fresh bookings
  rw [booked] at booked'
  cases booked'
  rw [fills] at basis
  have entry' : ts''.entryPrice = some liveEntry := congrArg Prod.snd (basis.trans live)
  rw [entryOf, found, Option.bind_some, entry'] at entry
  exact differ (Option.some.inj entry).symm

section Tied

variable {before after : List (String × WithBot ℚ)} {sold bought : String × WithBot ℚ}
  (named : ∀ mark ∈ before ++ sold :: bought :: after, mark.1 ≠ "")
include named

theorem normalizeFill_trim :
    normalizeFill (trim sold) = some (trade sold.1 false 1 (1 / 2)) :=
  normalizeFill_stamped (named sold (by simp)) (by norm_num) (by norm_num)

theorem normalizeFill_cheap :
    normalizeFill (cheap bought) = some (trade bought.1 true 1 (1 / 4)) :=
  normalizeFill_stamped (named bought (by simp)) (by norm_num) (by norm_num)

theorem fillsOf_tiedHistory : fillsOf (tiedHistory before sold bought after) =
    fillsOf (before.map lot) ++ trade sold.1 false 1 (1 / 2) ::
      trade bought.1 true 1 (1 / 4) :: fillsOf (after.map lot) := by
  unfold fillsOf tiedHistory
  rw [List.filterMap_append, List.filterMap_cons_some (normalizeFill_trim named),
    List.filterMap_cons_some (normalizeFill_cheap named)]

/-- The sort keeps the newer of the tied fills first, among lots. -/
theorem replayed_tiedHistory (tie : sold.2 = bought.2) : ∃ first between last,
    (∀ nf ∈ first, IsLot nf) ∧ (∀ nf ∈ between, IsLot nf) ∧ (∀ nf ∈ last, IsLot nf) ∧
      first.length + between.length + last.length = before.length + after.length ∧
      replayed (tiedHistory before sold bought after) = first ++ trade bought.1 true 1 (1 / 4) ::
        (between ++ trade sold.1 false 1 (1 / 2) :: last) := by
  have pair : [cheap bought, trim sold].Sublist (tiedHistory before sold bought after).reverse := by
    have inner : [trim sold, cheap bought].Sublist (tiedHistory before sold bought after) :=
      ((List.nil_sublist _).cons_cons _ |>.cons_cons _).trans (List.sublist_append_right _ _)
    exact inner.reverse
  have level : stampOf (cheap bought) = stampOf (trim sold) := by
    rw [cheap, trim, stampOf_stamped, stampOf_stamped, tie]
  have kept := pair_sublist_sortBy level pair
  obtain ⟨head, tail, split_, inHead, inTail⟩ := List.cons_sublist_iff.mp kept
  obtain ⟨first, middle, rfl⟩ := List.append_of_mem inHead
  obtain ⟨middle', last, rfl⟩ := List.append_of_mem (List.singleton_sublist.mp inTail)
  -- the other rows are those of the lots
  have others : (first ++ middle ++ (middle' ++ last)).Perm (before.map lot ++ after.map lot) := by
    have sorted : ((first ++ cheap bought :: middle) ++ (middle' ++ trim sold :: last)).Perm
        (cheap bought :: trim sold :: (first ++ middle ++ (middle' ++ last))) :=
      (List.perm_middle.append List.perm_middle).trans (List.perm_middle.cons _)
    have listed : (tiedHistory before sold bought after).Perm
        (cheap bought :: trim sold :: (before.map lot ++ after.map lot)) :=
      List.perm_middle.trans ((List.perm_middle.cons _).trans (List.Perm.swap _ _ _))
    have same : (sortBy stampOf (tiedHistory before sold bought after).reverse).Perm
        (tiedHistory before sold bought after) := (perm_sortBy _).trans (List.reverse_perm _)
    rw [split_] at same
    exact ((sorted.symm.trans same).trans listed).cons_inv.cons_inv
  have lots : Lots (first ++ middle ++ (middle' ++ last)) := by
    intro row member
    obtain early | late := List.mem_append.mp (others.mem_iff.mp member)
    · exact lots_map (fun mark listed => named mark (List.mem_append_left _ listed)) row early
    · exact lots_map (fun mark listed => named mark (by simp [listed])) row late
  obtain ⟨allFirst, countFirst⟩ := fillsOf_lots first fun row member =>
    lots row (by simp [member])
  obtain ⟨allBetween, countBetween⟩ := fillsOf_lots (middle ++ middle') fun row member =>
    lots row (by rw [List.mem_append] at member; simp only [List.mem_append]; tauto)
  obtain ⟨allLast, countLast⟩ := fillsOf_lots last fun row member =>
    lots row (by simp [member])
  refine ⟨_, _, _, allFirst, allBetween, allLast, ?_, ?_⟩
  · rw [countFirst, countBetween, countLast]
    have count := others.length_eq
    simp only [List.length_append, List.length_map] at count ⊢
    omega
  · rw [replayed, split_, List.append_assoc, List.cons_append, ← List.append_assoc middle]
    unfold fillsOf
    rw [List.filterMap_append, List.filterMap_cons_some (normalizeFill_cheap named),
      List.filterMap_append, List.filterMap_cons_some (normalizeFill_trim named)]

theorem marksOf_tiedHistory : marksOf (tiedHistory before sold bought after) =
    before ++ sold :: bought :: after := by
  have lots (marks : List (String × WithBot ℚ)) (ids : ∀ mark ∈ marks, mark.1 ≠ "") :
      marksOf (marks.map lot) = marks := by
    induction marks with
    | nil => rfl
    | cons mark marks inductionHypothesis =>
      obtain ⟨id, rest⟩ := List.forall_mem_cons.mp ids
      have normal : normalizeFill (lot mark) = some (trade mark.1 true 2 (1 / 2)) :=
        normalizeFill_stamped id (by norm_num) (by norm_num)
      have tail := inductionHypothesis rest
      unfold marksOf at tail ⊢
      rw [List.map_cons, List.filterMap_cons_some (by rw [normal, Option.map_some]), tail, lot,
        stampOf_stamped]
      rfl
  have early := lots before fun mark listed => named mark (List.mem_append_left _ listed)
  have late := lots after fun mark listed => named mark (by simp [listed])
  unfold marksOf tiedHistory at *
  rw [List.filterMap_append, early,
    List.filterMap_cons_some (by rw [normalizeFill_trim named, Option.map_some]),
    List.filterMap_cons_some (by rw [normalizeFill_cheap named, Option.map_some]), late, trim, cheap,
    stampOf_stamped, stampOf_stamped]
  rfl

/-- Replay and live booking end with the same position at different entry prices. -/
theorem replay_ne_live (tie : sold.2 = bought.2) (opened : before ≠ []) :
    ∃ (position : ℤ) (replayedEntry liveEntry : ℚ), replayedEntry ≠ liveEntry ∧
      replayEntryPrice (replayed (tiedHistory before sold bought after)) =
        (position, some replayedEntry) ∧
      replayEntryPrice (fillsOf (tiedHistory before sold bought after)) =
        (position, some liveEntry) := by
  obtain ⟨first, between, last, lots, lots', lots'', count, order⟩ := replayed_tiedHistory named tie
  obtain ⟨early, countEarly⟩ := fillsOf_lots (before.map lot)
    (lots_map fun mark listed => named mark (List.mem_append_left _ listed))
  obtain ⟨late, countLate⟩ := fillsOf_lots (after.map lot)
    (lots_map fun mark listed => named mark (by simp [listed]))
  rw [List.length_map] at countEarly countLate
  have opened' : fillsOf (before.map lot) ≠ [] := by
    rw [← List.length_pos_iff, countEarly]
    exact List.length_pos_iff.mpr opened
  have live := long_sale_first early late opened' sold.1 bought.1
  have replay := long_buy_first lots lots' lots'' sold.1 bought.1
  rw [← fillsOf_tiedHistory named, countEarly, countLate] at live
  rw [← order] at replay
  have position : (2 * (first.length + between.length + last.length) : ℤ) =
      2 * (before.length + after.length) := by omega
  rw [position] at replay
  have held : (2 * (before.length + after.length) : ℤ) ≠ 0 := by
    have := List.length_pos_iff.mpr opened
    omega
  have differ := replay.entry_ne live (by
    have total : (first.length + between.length + last.length : ℚ) =
      before.length + after.length := by exact_mod_cast count
    rw [← total]
    have nonzero : (2 * (first.length + between.length) + 1 : ℚ) ≠ 0 := by positivity
    intro same
    field_simp at same
    ring_nf at same
    linarith)
  obtain ⟨replayedEntry, some_⟩ := Option.isSome_iff_exists.mp
    (replay.known.mpr (replay.position.symm ▸ held))
  obtain ⟨liveEntry, some_'⟩ := Option.isSome_iff_exists.mp
    (live.known.mpr (live.position.symm ▸ held))
  refine ⟨_, replayedEntry, liveEntry, ?_, Prod.ext replay.position some_,
    Prod.ext live.position some_'⟩
  rintro rfl
  exact differ (some_.trans some_'.symm)

theorem not_faithful_tiedHistory (tie : sold.2 = bought.2) (opened : before ≠ []) :
    ¬ Faithful (tiedHistory before sold bought after) := by
  obtain ⟨position, replayedEntry, liveEntry, differ, replay, live⟩ :=
    replay_ne_live named tie opened
  exact not_faithful_of_ne differ replay live

end Tied

end Ties

/-! ## The exact timestamps -/

theorem map_stampOf_tiedHistory (before : List (String × WithBot ℚ))
    (sold bought : String × WithBot ℚ) (after : List (String × WithBot ℚ)) :
    (tiedHistory before sold bought after).map stampOf =
      (before ++ sold :: bought :: after).map Prod.snd := by
  have lots (marks : List (String × WithBot ℚ)) :
      (marks.map lot).map stampOf = marks.map Prod.snd := by
    rw [List.map_map]
    exact List.map_congr_left fun mark _ => stampOf_stamped _ _
  unfold tiedHistory
  rw [List.map_append, List.map_cons, List.map_cons, lots, lots, trim, cheap, stampOf_stamped,
    stampOf_stamped, List.map_append, List.map_cons, List.map_cons]

/-- Every history of these ids and timestamps rebuilds its basis, exactly where the timestamps
    past the oldest fill are distinct. -/
theorem backfill_faithful_iff {marks : List (String × WithBot ℚ)}
    (named : ∀ mark ∈ marks, mark.1 ≠ "") (chronological : (marks.map Prod.snd).Pairwise (· ≤ ·)) :
    (∀ history, Chronological history → marksOf history = marks → Faithful history) ↔
      (marks.map Prod.snd).tail.Pairwise (· < ·) := by
  constructor
  · intro faithful
    by_contra tied
    cases marks with
    | nil => exact tied List.Pairwise.nil
    | cons oldest rest =>
      have sorted := (List.pairwise_cons.mp (List.pairwise_map.mp chronological)).2
      have notRanked : ¬ Ranked Prod.snd rest := by
        intro ranked
        exact tied (List.pairwise_map.mpr ranked)
      obtain ⟨before, sold, bought, after, rfl, tie⟩ := exists_tie sorted notRanked
      have named' : ∀ mark ∈ (oldest :: before) ++ sold :: bought :: after, mark.1 ≠ "" := named
      refine not_faithful_tiedHistory named' tie (List.cons_ne_nil _ _)
        (faithful _ ?_ (marksOf_tiedHistory named'))
      have stamps := map_stampOf_tiedHistory (oldest :: before) sold bought after
      rw [List.cons_append] at stamps
      rw [← stamps] at chronological
      exact List.pairwise_map.mp chronological
  · intro apart history inOrder marks_
    rw [← marks_] at apart
    exact faithful_of_apart inOrder apart

theorem backfill_faithful_sample :
    Faithful [stamped 1 (trade "a" true 2 (2 / 5)), stamped 1 (trade "b" false 1 (3 / 5)),
      stamped 2 (trade "c" true 1 (4 / 5))] := by
  have named : ∀ mark ∈ [("a", (1 : WithBot ℚ)), ("b", 1), ("c", 2)], mark.1 ≠ "" := by simp
  have inOrder : ([("a", (1 : WithBot ℚ)), ("b", 1), ("c", 2)].map Prod.snd).Pairwise (· ≤ ·) := by
    decide +kernel
  refine (backfill_faithful_iff named inOrder).mpr (by decide +kernel) _ ?_ ?_
  · unfold Chronological
    decide +kernel
  · decide +kernel

/-- A sale and a buy in one second: the replay takes the buy first, and the check of the position
    passes an average of 8/15 where live booking has 3/5. -/
theorem backfill_reverses_tie :
    let history := [stamped 1 (trade "a" true 2 (2 / 5)), stamped 2 (trade "b" false 1 (3 / 5)),
      stamped 2 (trade "c" true 1 (4 / 5))]
    Chronological history ∧
      entryOf ((holder "KXBTCD-26JUL1517-T64000" 2).backfillEntryPrice (serving history)
        "KXBTCD-26JUL1517-T64000").state "KXBTCD-26JUL1517-T64000" = some (8 / 15) ∧
      replayEntryPrice (fillsOf history) = (2, some (3 / 5)) ∧ ¬ Faithful history := by
  intro history
  have replay : replayEntryPrice (replayed history) = (2, some (8 / 15)) := by decide +kernel
  have live : replayEntryPrice (fillsOf history) = (2, some (3 / 5)) := by decide +kernel
  have known : (holder "KXBTCD-26JUL1517-T64000" 2).state.tickers.lookup
      "KXBTCD-26JUL1517-T64000" = some { TickerState.new "KXBTCD" with position := 2 } :=
    Finmap.lookup_insert _
  refine ⟨by unfold Chronological; decide +kernel, ?_, live,
    not_faithful_of_ne (by norm_num) replay live⟩
  exact entryOf_backfill_of_replay (serves_serving history _) known replay

end KalshiMm.Verified.Backfill
