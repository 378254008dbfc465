import Mathlib.Tactic.FieldSimp
import KalshiMm.Lib.Replica
import KalshiMm.Model.Feed

/-!
# What book payloads read back as

A snapshot of all levels reads back as the book it was taken of, the top ten levels do so where
there are no more, and a delta moves a copy of the exchange's book to the exchange's next one.
-/

namespace KalshiMm.Verified

open KalshiMm.Lib KalshiMm.Model

/-! ## Prices -/

theorem toMd_toDollars {price : ℕ} (fits : price < 2 ^ 32) : toMd (toDollars price) = price := by
  have scaled : toDollars price * 1000 = ((price : ℤ) : ℚ) := by
    unfold toDollars
    push_cast
    field_simp
  rw [toMd, scaled, roundHalfAway_isNearest.intCast, toU32]
  omega

/-! ## Levels -/

instance : DecidableEq Book := fun left right =>
  decidable_of_iff (left.yes = right.yes ∧ left.no = right.no)
    ⟨fun same => Book.mk.injEq .. ▸ same, fun same => same ▸ ⟨rfl, rfl⟩⟩

/-- The quantities are positive, and the prices fit the keys. -/
def Levels.Listed (levels : Levels) : Prop :=
  ∀ price qty, levels.lookup price = some qty → 0 < qty ∧ price < 2 ^ 32

def Book.Listed (book : Book) : Prop := Levels.Listed book.yes ∧ Levels.Listed book.no

/-- No more levels on either side than the top ten. -/
def Shallow (book : Book) : Prop := book.yes.keys.card ≤ 10 ∧ book.no.keys.card ≤ 10

instance : DecidablePred Shallow := fun _ => inferInstanceAs (Decidable (_ ∧ _))

theorem Levels.Listed.set {levels : Levels} (listed : Levels.Listed levels) {price : ℕ}
    (fits : price < 2 ^ 32) (qty : ℚ) : Levels.Listed (levels.set price qty) := by
  intro other qty' found
  unfold Model.Levels.set at found
  split_ifs at found with positive
  · rw [Dict.lookup_insert_eq_ite] at found
    split_ifs at found with same
    · cases found
      exact ⟨positive, same ▸ fits⟩
    · exact listed other qty' found
  · rw [Dict.lookup_erase_eq_ite] at found
    split_ifs at found
    exact listed other qty' found

theorem Levels.Listed.erase {levels : Levels} (listed : Levels.Listed levels) (price : ℕ) :
    Levels.Listed (Finmap.erase price levels) := by
  intro other qty found
  rw [Dict.lookup_erase_eq_ite] at found
  split_ifs at found
  exact listed other qty found

theorem lookup_of_card_zero {levels : Levels} (empty : levels.keys.card = 0) (price : ℕ) :
    levels.lookup price = none := by
  refine Finmap.lookup_eq_none.mpr fun member => ?_
  rw [← Finmap.mem_keys, Finset.card_eq_zero.mp empty] at member
  exact absurd member (Finset.notMem_empty price)

theorem lastKey_cases (levels : Levels) :
    (levels.lastKey = none ∧ levels.keys.card = 0) ∨
      ∃ key qty, levels.lastKey = some key ∧ levels.lookup key = some qty := by
  unfold Levels.lastKey
  split_ifs with nonempty
  · obtain ⟨qty, found⟩ := Finmap.mem_iff.mp (Finmap.mem_keys.mp (levels.keys.max'_mem nonempty))
    exact Or.inr ⟨_, qty, rfl, found⟩
  · exact Or.inl ⟨rfl, Finset.card_eq_zero.mpr (Finset.not_nonempty_iff_eq_empty.mp nonempty)⟩

/-- How a row of a snapshot is loaded. -/
def loadRow (out : Levels) (row : ℚ × ℚ) : Levels :=
  if 0 < row.2 then out.insert (toMd row.1) row.2 else out

/-- The rows of a snapshot that read as a price and a quantity, in their order. -/
def rowsOf (levels : Value) : List (ℚ × ℚ) := (levels.asArray.getD []).filterMap Book.parseRow

theorem parseLevels_eq (levels : Value) :
    Book.parseLevels levels = (rowsOf levels).foldl loadRow ∅ := rfl

theorem parseLevels_rows (levels : Levels) (depth : ℕ) : Book.parseLevels (levels.rows depth) =
    ((levels.top depth).map fun level => (toDollars level.1, level.2)).foldl loadRow ∅ := by
  have read (level : ℕ × ℚ) :
      Book.parseRow (levelRow level) = some (toDollars level.1, level.2) := rfl
  unfold Book.parseLevels Levels.rows
  rw [Value.asArray, Option.getD_some, List.filterMap_map, Function.comp_def]
  simp only [read, List.filterMap_eq_map']
  rfl

/-- The rows of a ladder that is shown whole load over what is there. -/
theorem lookup_loaded {levels out : Levels} (listed : Levels.Listed levels) {depth : ℕ}
    (whole : levels.keys.card ≤ depth) (price : ℕ) :
    (((levels.top depth).map fun level => (toDollars level.1, level.2)).foldl loadRow out).lookup
      price = (levels.lookup price).or (out.lookup price) := by
  induction depth generalizing levels out with
  | zero =>
    rw [lookup_of_card_zero (Nat.le_zero.mp whole), Option.none_or]
    rfl
  | succ depth inductionHypothesis =>
    unfold Levels.top
    obtain ⟨last, empty⟩ | ⟨key, qty, last, found⟩ := lastKey_cases levels
    · rw [last, lookup_of_card_zero empty, Option.none_or]
      rfl
    · obtain ⟨positive, fits⟩ := listed key qty found
      have fewer : (Finmap.erase key levels).keys.card ≤ depth := by
        rw [Finmap.keys_erase, Finset.card_erase_of_mem (Finmap.mem_keys.mpr
          (Finmap.mem_iff.mpr ⟨qty, found⟩))]
        omega
      rw [last]
      dsimp only
      rw [found, Option.getD_some, List.map_cons, List.foldl_cons,
        inductionHypothesis (listed.erase key) fewer, loadRow, if_pos positive,
        toMd_toDollars fits, Dict.lookup_erase_eq_ite, Dict.lookup_insert_eq_ite]
      split_ifs with same
      · rw [same, found]
        rfl
      · rfl

/-- All levels of a ladder read back as the ladder. -/
theorem parseLevels_whole {levels : Levels} (listed : Levels.Listed levels) {depth : ℕ}
    (whole : levels.keys.card ≤ depth) : Book.parseLevels (levels.rows depth) = levels := by
  refine Finmap.ext_lookup fun price => ?_
  rw [parseLevels_rows, lookup_loaded listed whole, Finmap.lookup_empty, Option.or_none]

/-! ## Messages -/

/-- A snapshot message with both sides. -/
def FullSnapshot (msg : Value) : Prop :=
  ¬ ((msg.get "price_dollars").isSome ∧ (msg.get "delta_fp").isSome) ∧
    (Book.firstKey msg ["yes_dollars_fp", "yes_dollars", "yes"]).isSome ∧
    (Book.firstKey msg ["no_dollars_fp", "no_dollars", "no"]).isSome

instance : DecidablePred FullSnapshot := fun _ => inferInstanceAs (Decidable (_ ∧ _))

/-- A full snapshot replaces the whole book. -/
theorem resets_of_fullSnapshot {msg : Value} (full : FullSnapshot msg) :
    Resets Trader.foldBook msg := by
  obtain ⟨noDelta, yes, no⟩ := full
  intro copy other
  obtain ⟨yesLevels, yes⟩ := Option.isSome_iff_exists.mp yes
  obtain ⟨noLevels, no⟩ := Option.isSome_iff_exists.mp no
  unfold Trader.foldBook Book.loadSnapshot
  rw [if_neg noDelta, if_neg noDelta, yes, no]

theorem loadSnapshot_rows {book : Book} (listed : Book.Listed book) {depth : ℕ}
    (yes : book.yes.keys.card ≤ depth) (no : book.no.keys.card ≤ depth) (copy : Book) :
    copy.loadSnapshot (.object (book.rows depth)) = book := by
  have sides : copy.loadSnapshot (.object (book.rows depth)) =
      ⟨Book.parseLevels (book.yes.rows depth), Book.parseLevels (book.no.rows depth)⟩ := rfl
  rw [sides, parseLevels_whole listed.1 yes, parseLevels_whole listed.2 no]

theorem foldBook_snapshotMsg {ticker : String} {book : Book} (listed : Book.Listed book)
    (copy : Book) : Trader.foldBook copy (snapshotMsg ticker book) = book := by
  -- the ticker in front is none of the keys that the fold looks up
  have sides : Trader.foldBook copy (snapshotMsg ticker book) = copy.loadSnapshot
      (.object (book.rows (max book.yes.keys.card book.no.keys.card))) := rfl
  rw [sides, loadSnapshot_rows listed (le_max_left _ _) (le_max_right _ _)]

/-- The exchange's snapshots are full ones. -/
theorem fullSnapshot_snapshotMsg (ticker : String) (book : Book) :
    FullSnapshot (snapshotMsg ticker book) := ⟨fun delta => absurd delta.1 nofun, rfl, rfl⟩

/-- The delta of a level moves the exchange's book to its next one. -/
theorem foldBook_deltaMsg {ticker : String} (book : Book) (side : ContractSide) {price : ℕ}
    (fits : price < 2 ^ 32) (qty : ℚ) :
    Trader.foldBook book
      (deltaMsg ticker side price (qty - ((book.levels side).lookup price).getD 0)) =
      book.setLevel side price qty := by
  have folds (delta : ℚ) : Trader.foldBook book (deltaMsg ticker side price delta) =
      book.applyDelta side.name (toDollars price) delta := rfl
  rw [folds]
  unfold Book.applyDelta Book.setLevel Book.bumpLevel Levels.set
  cases side with
  | yes =>
    rw [if_pos (show ContractSide.yes.name = "yes" from rfl), toMd_toDollars fits]
    simp only [Book.levels, add_sub_cancel]
  | no =>
    rw [if_neg (show ContractSide.no.name ≠ "yes" by decide), toMd_toDollars fits]
    simp only [Book.levels, add_sub_cancel]

theorem Book.Listed.setLevel {book : Book} (listed : Book.Listed book) (side : ContractSide)
    {price : ℕ} (fits : price < 2 ^ 32) (qty : ℚ) :
    Book.Listed (book.setLevel side price qty) := by
  cases side with
  | yes => exact ⟨listed.1.set fits qty, listed.2⟩
  | no => exact ⟨listed.1, listed.2.set fits qty⟩

/-- A shallow book is all in the answer that seeds from it. -/
theorem loadSnapshot_response {book : Book} (listed : Book.Listed book) (shallow : Shallow book)
    (copy : Book) : copy.loadSnapshot (((book.response 10).get "orderbook").getD
      (book.response 10)) = book := loadSnapshot_rows listed shallow.1 shallow.2 copy

end KalshiMm.Verified
