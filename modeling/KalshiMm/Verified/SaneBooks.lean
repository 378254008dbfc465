import KalshiMm.Verified.BookPayloads
import KalshiMm.Verified.FeeGate

/-!
# Books under any input

Whatever is loaded or applied, only positive quantities are stored, the ladders come best level
first, and a valid book has its mid strictly inside a touch that is within a dollar.
-/

namespace KalshiMm.Verified.SaneBooks

open KalshiMm.Lib KalshiMm.Model FeeGate PassiveQuotes

/-- What can be called on a book. -/
inductive BookCall where
  | snapshot (payload : Value)
  | delta (side : String) (priceDollars deltaQty : ℚ)

def BookCall.apply (book : Book) : BookCall → Book
  | .snapshot payload => book.loadSnapshot payload
  | .delta side priceDollars deltaQty => book.applyDelta side priceDollars deltaQty

/-! ## What is stored -/

theorem toMd_lt (dollars : ℚ) : toMd dollars < 2 ^ 32 := by
  unfold toMd toU32
  omega

theorem listed_empty : Levels.Listed ∅ := fun price qty found => by
  rw [Finmap.lookup_empty] at found
  cases found

theorem listed_insert {levels : Levels} (listed : Levels.Listed levels) (dollars : ℚ) {qty : ℚ}
    (positive : 0 < qty) : Levels.Listed (levels.insert (toMd dollars) qty) := by
  have set : levels.set (toMd dollars) qty = levels.insert (toMd dollars) qty := if_pos positive
  rw [← set]
  exact listed.set (toMd_lt dollars) qty

theorem listed_loadRow {levels : Levels} (listed : Levels.Listed levels) (row : ℚ × ℚ) :
    Levels.Listed (loadRow levels row) := by
  unfold loadRow
  split_ifs with positive
  · exact listed_insert listed row.1 positive
  · exact listed

theorem listed_parseLevels (levels : Value) : Levels.Listed (Book.parseLevels levels) := by
  rw [parseLevels_eq]
  generalize rowsOf levels = rows
  have kept : ∀ {out : Levels}, Levels.Listed out → Levels.Listed (rows.foldl loadRow out) := by
    induction rows with
    | nil => exact id
    | cons row rows inductionHypothesis =>
      exact fun listed => inductionHypothesis (listed_loadRow listed row)
  exact kept listed_empty

theorem listed_bumpLevel {levels : Levels} (listed : Levels.Listed levels) (dollars deltaQty : ℚ) :
    Levels.Listed (Book.bumpLevel levels (toMd dollars) deltaQty) := by
  unfold Book.bumpLevel
  dsimp only
  split_ifs with positive
  · exact listed_insert listed dollars positive
  · exact listed.erase _

/-- One call keeps what is stored positive. -/
theorem listed_apply {book : Book} (listed : Book.Listed book) (call : BookCall) :
    Book.Listed (call.apply book) := by
  cases call with
  | snapshot payload =>
    constructor
    · change Levels.Listed (Book.loadSnapshot book payload).yes
      unfold Book.loadSnapshot
      dsimp only
      split
      · exact listed_parseLevels _
      · exact listed.1
    · change Levels.Listed (Book.loadSnapshot book payload).no
      unfold Book.loadSnapshot
      dsimp only
      split
      · exact listed_parseLevels _
      · exact listed.2
  | delta side priceDollars deltaQty =>
    change Book.Listed (book.applyDelta side priceDollars deltaQty)
    unfold Book.applyDelta
    split_ifs
    · exact ⟨listed_bumpLevel listed.1 _ _, listed.2⟩
    · exact ⟨listed.1, listed_bumpLevel listed.2 _ _⟩

theorem listed_calls (calls : List BookCall) : Book.Listed (calls.foldl BookCall.apply {}) := by
  induction calls using List.reverseRecOn with
  | nil => exact ⟨listed_empty, listed_empty⟩
  | append_singleton calls call inductionHypothesis =>
    rw [List.foldl_append]
    exact listed_apply inductionHypothesis call

/-! ## Ladders -/

theorem mem_top {levels : Levels} {n : ℕ} {level : ℕ × ℚ} (member : level ∈ levels.top n) :
    level.1 ∈ levels.keys := by
  induction n generalizing levels with
  | zero => cases member
  | succ n inductionHypothesis =>
    unfold Levels.top at member
    cases best : levels.lastKey with
    | none =>
      rw [best] at member
      cases member
    | some key =>
      rw [best] at member
      obtain rfl | deeper := List.mem_cons.mp member
      · exact lastKey_mem best
      · have kept := inductionHypothesis deeper
        rw [Finmap.keys_erase] at kept
        exact Finset.mem_of_mem_erase kept

theorem lookup_of_mem_top {levels : Levels} {n : ℕ} {level : ℕ × ℚ} (member : level ∈ levels.top n) :
    levels.lookup level.1 = some level.2 := by
  induction n generalizing levels with
  | zero => cases member
  | succ n inductionHypothesis =>
    unfold Levels.top at member
    cases best : levels.lastKey with
    | none =>
      rw [best] at member
      cases member
    | some key =>
      rw [best] at member
      obtain rfl | deeper := List.mem_cons.mp member
      · obtain ⟨qty, found⟩ := Finmap.mem_iff.mp (Finmap.mem_keys.mp (lastKey_mem best))
        rw [found]
        rfl
      · have kept := inductionHypothesis deeper
        have other : level.1 ≠ key := by
          rintro same
          rw [same, Finmap.lookup_erase] at kept
          cases kept
        rwa [Finmap.lookup_erase_ne other] at kept

theorem lastKey_max {levels : Levels} {best key : ℕ} (last : levels.lastKey = some best)
    (member : key ∈ levels.keys) : key ≤ best := by
  unfold Levels.lastKey at last
  split_ifs at last with nonempty
  cases last
  exact levels.keys.le_max' key member

/-- The levels come best first. -/
theorem pairwise_top (levels : Levels) (n : ℕ) :
    (levels.top n).Pairwise fun level deeper => deeper.1 < level.1 := by
  induction n generalizing levels with
  | zero => exact List.Pairwise.nil
  | succ n inductionHypothesis =>
    unfold Levels.top
    cases best : levels.lastKey with
    | none => exact List.Pairwise.nil
    | some key =>
      refine List.Pairwise.cons (fun deeper member => ?_) (inductionHypothesis _)
      have kept := mem_top member
      rw [Finmap.keys_erase] at kept
      exact lt_of_le_of_ne (lastKey_max best (Finset.mem_of_mem_erase kept))
        (Finset.ne_of_mem_erase kept)

theorem head_top (levels : Levels) (n : ℕ) :
    (levels.top (n + 1)).head?.map Prod.fst = levels.lastKey := by
  unfold Levels.top
  cases levels.lastKey with
  | none => rfl
  | some key => rfl

/-! ## Sane books -/

structure Sane (book : Book) : Prop where
  positive : ∀ price qty, book.yes.lookup price = some qty ∨ book.no.lookup price = some qty →
    0 < qty
  bids : ∀ n, (book.bidLevels n).Pairwise fun level deeper => deeper.1 < level.1
  bestBid : ∀ n, (book.bidLevels (n + 1)).head?.map Prod.fst = book.bestBid
  asks : ∀ n, (book.askLevels n).Pairwise fun level deeper => level.1 ≤ deeper.1
  bestAsk : ∀ n, (book.askLevels (n + 1)).head?.map Prod.fst = book.bestAsk
  inside : book.isValid = true → ∃ bid mid ask, book.bestBid = some bid ∧ book.mid = some mid ∧
    book.bestAsk = some ask ∧ 0 ≤ bid ∧ bid < mid ∧ mid < ask ∧ ask ≤ 1

theorem inside_of_isValid {book : Book} (valid : book.isValid = true) :
    ∃ bid mid ask, book.bestBid = some bid ∧ book.mid = some mid ∧ book.bestAsk = some ask ∧
      0 ≤ bid ∧ bid < mid ∧ mid < ask ∧ ask ≤ 1 := by
  obtain ⟨bidMd, askMd, hasBid, hasAsk, _⟩ := Book.isValid_iff.mp valid
  have bestBid : book.bestBid = some (toDollars bidMd) := by rw [Book.bestBid, hasBid]; rfl
  have bestAsk : book.bestAsk = some (toDollars askMd) := by rw [Book.bestAsk, hasAsk]; rfl
  obtain ⟨_, _, uncrossed⟩ := touch_of_isValid valid bestBid bestAsk
  -- the ask is a dollar less a NO bid, which saturates at zero
  have within : askMd ≤ 1000 := by
    obtain ⟨noBid, _, rfl⟩ := Option.map_eq_some_iff.mp hasAsk
    exact Nat.sub_le _ _
  refine ⟨_, (toDollars bidMd + toDollars askMd) / 2, _, bestBid, ?_, bestAsk, ?_, ?_, ?_, ?_⟩
  · rw [Book.mid, if_pos valid, bestBid, bestAsk]
    rfl
  · unfold toDollars
    positivity
  · linarith
  · linarith
  · unfold toDollars
    rw [div_le_one (by norm_num)]
    exact_mod_cast within

/-- Any calls, from an empty book, leave it sane. -/
theorem sane_calls (calls : List BookCall) : Sane (calls.foldl BookCall.apply {}) := by
  obtain ⟨yes, no⟩ := listed_calls calls
  generalize calls.foldl BookCall.apply {} = book at yes no
  refine ⟨?_, fun n => ?_, fun n => ?_, fun n => ?_, fun n => ?_, inside_of_isValid⟩
  · rintro price qty (found | found)
    · exact (yes price qty found).1
    · exact (no price qty found).1
  · refine List.pairwise_map.mpr ((pairwise_top book.yes n).imp fun {level deeper} less => ?_)
    exact div_lt_div_of_pos_right (Nat.cast_lt.mpr less) (by norm_num)
  · rw [Book.bestBid, Book.bestBidMd, ← head_top book.yes n, Book.bidLevels, List.head?_map,
      Option.map_map, Option.map_map]
    rfl
  · refine List.pairwise_map.mpr ((pairwise_top book.no n).imp fun {level deeper} less => ?_)
    have rises : oneDollarMd - level.1 ≤ oneDollarMd - deeper.1 := Nat.sub_le_sub_left less.le _
    exact div_le_div_of_nonneg_right (Nat.cast_le.mpr rises) (by norm_num)
  · rw [Book.bestAsk, Book.bestAskMd, ← head_top book.no n, Book.askLevels, List.head?_map,
      Option.map_map, Option.map_map, Option.map_map]
    rfl

end KalshiMm.Verified.SaneBooks
