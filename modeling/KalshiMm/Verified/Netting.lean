import KalshiMm.Verified.BookPayloads

/-!
# Snapshots and deltas

A snapshot and the deltas after it store, at every price, the total of what they say, as long as
no running total is negative: one snapshot of the totals is the same book.
-/

namespace KalshiMm.Verified.Netting

open KalshiMm.Lib KalshiMm.Model

/-- One delta of a book. -/
structure Delta where
  side : String
  priceDollars : ℚ
  deltaQty : ℚ

namespace Delta

def apply (book : Book) (delta : Delta) : Book :=
  book.applyDelta delta.side delta.priceDollars delta.deltaQty

/-- The side that the delta is applied to. -/
def on (delta : Delta) : ContractSide := if delta.side = "yes" then .yes else .no

/-- What the delta says about one price. -/
def share (side : ContractSide) (price : ℕ) (delta : Delta) : ℚ :=
  if delta.on = side ∧ price = toMd delta.priceDollars then delta.deltaQty else 0

end Delta

/-- What the deltas add at a price. -/
def movedAt (side : ContractSide) (deltas : List Delta) (price : ℕ) : ℚ :=
  (deltas.map (Delta.share side price)).sum

/-- What the rows of a snapshot list at a price. -/
def qtyAt (rows : List (ℚ × ℚ)) (price : ℕ) : ℚ :=
  (rows.map fun row => if price = toMd row.1 then row.2 else 0).sum

def sideKeys : ContractSide → List String
  | .yes => ["yes_dollars_fp", "yes_dollars", "yes"]
  | .no => ["no_dollars_fp", "no_dollars", "no"]

/-- The snapshot lists these rows on a side: no level twice, no negative quantity. -/
structure Lists (payload : Value) (side : ContractSide) (rows : List (ℚ × ℚ)) : Prop where
  carried : ∃ levels, Book.firstKey payload (sideKeys side) = some levels ∧ rowsOf levels = rows
  distinct : (rows.map fun row => toMd row.1).Nodup
  nonneg : ∀ row ∈ rows, 0 ≤ row.2

/-- What the book holds at a price. -/
def heldAt (book : Book) (side : ContractSide) (price : ℕ) : ℚ :=
  ((book.levels side).lookup price).getD 0

/-- On one side: both snapshots list it, and the second one the totals of the first one and of the
    deltas; or only the second one does, and the totals are of what the book held and of the deltas;
    or neither lists it and there are no deltas for it. -/
inductive Nets (book : Book) (payload net : Value) (deltas : List Delta) (side : ContractSide) : Prop
  | listed (rows netRows : List (ℚ × ℚ)) (lists : Lists payload side rows)
      (netLists : Lists net side netRows)
      (total : ∀ price, qtyAt netRows price = qtyAt rows price + movedAt side deltas price)
  | added (netRows : List (ℚ × ℚ)) (payloadLacks : Book.firstKey payload (sideKeys side) = none)
      (positive : Levels.Listed (book.levels side)) (netLists : Lists net side netRows)
      (total : ∀ price, qtyAt netRows price = heldAt book side price + movedAt side deltas price)
  | left (payloadLacks : Book.firstKey payload (sideKeys side) = none)
      (netLacks : Book.firstKey net (sideKeys side) = none) (others : ∀ d ∈ deltas, d.on ≠ side)

/-- In this order of the deltas no running total is ever negative, whether it starts from the
    snapshot or from what the book held. -/
structure NeverNegative (book : Book) (payload : Value) (order : List Delta) : Prop where
  listed : ∀ side rows, Lists payload side rows → ∀ before, before <+: order → ∀ price,
    0 ≤ qtyAt rows price + movedAt side before price
  held : ∀ side, Book.firstKey payload (sideKeys side) = none → ∀ before, before <+: order →
    ∀ price, 0 ≤ heldAt book side price + movedAt side before price

/-! ## Snapshots -/

theorem levels_loadSnapshot (book : Book) (payload : Value) (side : ContractSide) :
    (book.loadSnapshot payload).levels side =
      match Book.firstKey payload (sideKeys side) with
      | some levels => Book.parseLevels levels
      | none => book.levels side := by
  cases side with
  | yes => rfl
  | no => rfl

/-- Rows that list no level twice store their quantities beside what is there at other prices. -/
theorem stores_rows {rows : List (ℚ × ℚ)} (distinct : (rows.map fun row => toMd row.1).Nodup)
    (nonneg : ∀ row ∈ rows, 0 ≤ row.2) {out : Levels} {total : ℕ → ℚ}
    (stores : Dict.Stores out total) (fresh : ∀ row ∈ rows, total (toMd row.1) = 0) :
    Dict.Stores (rows.foldl loadRow out) fun price => total price + qtyAt rows price := by
  induction rows generalizing out total with
  | nil =>
    simp only [qtyAt, List.map_nil, List.sum_nil, add_zero]
    exact stores
  | cons row rows inductionHypothesis =>
    rw [List.map_cons, List.nodup_cons] at distinct
    rw [List.forall_mem_cons] at nonneg fresh
    have loaded : Dict.Stores (loadRow out row)
        fun price => total price + if price = toMd row.1 then row.2 else 0 := by
      unfold loadRow
      split_ifs with positive
      · exact stores.insert fresh.1 positive
      · rw [(not_lt.mp positive).antisymm nonneg.1]
        simp only [ite_self, add_zero]
        exact stores
    have rest := inductionHypothesis distinct.2 nonneg.2 loaded fun other member => by
      have different : toMd other.1 ≠ toMd row.1 := fun same =>
        distinct.1 (same ▸ List.mem_map.mpr ⟨other, member, rfl⟩)
      rw [if_neg different, add_zero, fresh.2 other member]
    simp only [add_assoc] at rest
    exact rest

theorem stores_snapshot {payload : Value} {side : ContractSide} {rows : List (ℚ × ℚ)}
    (lists : Lists payload side rows) (book : Book) :
    Dict.Stores ((book.loadSnapshot payload).levels side) (qtyAt rows) := by
  obtain ⟨levels, carried, rfl⟩ := lists.carried
  rw [levels_loadSnapshot, carried]
  have empty : Dict.Stores (∅ : Levels) fun _ => 0 := fun price => by
    rw [Finmap.lookup_empty, Dict.ifPositive, if_neg (lt_irrefl _)]
  have stored := stores_rows lists.distinct lists.nonneg empty fun _ _ => rfl
  simp only [zero_add] at stored
  exact stored

theorem stores_held {book : Book} {side : ContractSide}
    (positive : Levels.Listed (book.levels side)) :
    Dict.Stores (book.levels side) (heldAt book side) := by
  intro price
  unfold heldAt Dict.ifPositive
  cases found : (book.levels side).lookup price with
  | none => rw [Option.getD_none, if_neg (lt_irrefl _)]
  | some qty => rw [Option.getD_some, if_pos (positive price qty found).1]

/-! ## Deltas -/

theorem movedAt_concat (side : ContractSide) (deltas : List Delta) (delta : Delta) (price : ℕ) :
    movedAt side (deltas ++ [delta]) price = movedAt side deltas price + delta.share side price := by
  rw [movedAt, movedAt, List.map_append, List.sum_append, List.map_singleton, List.sum_singleton]

theorem movedAt_perm {deltas order : List Delta} (reordered : order.Perm deltas)
    (side : ContractSide) (price : ℕ) : movedAt side order price = movedAt side deltas price :=
  (reordered.map _).sum_eq

theorem levels_apply (book : Book) (delta : Delta) (side : ContractSide) :
    (delta.apply book).levels side =
      if delta.on = side then
        Dict.bump (book.levels side) (toMd delta.priceDollars) delta.deltaQty
      else book.levels side := by
  unfold Delta.apply Book.applyDelta Delta.on
  cases side with
  | yes =>
    by_cases yes : delta.side = "yes"
    · rw [if_pos yes, if_pos yes, if_pos rfl]
      rfl
    · rw [if_neg yes, if_neg yes, if_neg nofun]
      rfl
  | no =>
    by_cases yes : delta.side = "yes"
    · rw [if_pos yes, if_pos yes, if_neg nofun]
      rfl
    · rw [if_neg yes, if_neg yes, if_pos rfl]
      rfl

/-- A delta at a price whose total was not negative moves that total. -/
theorem stores_apply {book : Book} {side : ContractSide} {total : ℕ → ℚ}
    (stores : Dict.Stores (book.levels side) total) (nonneg : ∀ price, 0 ≤ total price)
    (delta : Delta) : Dict.Stores ((delta.apply book).levels side)
      fun price => total price + delta.share side price := by
  rw [levels_apply]
  unfold Delta.share
  split_ifs with here
  · simp only [here, true_and]
    exact stores.bump (nonneg _) _
  · simp only [here, false_and, if_false, add_zero]
    exact stores

theorem stores_deltas {book : Book} {side : ContractSide} {total : ℕ → ℚ}
    (stores : Dict.Stores (book.levels side) total) {deltas : List Delta}
    (running : ∀ before, before <+: deltas → ∀ price, 0 ≤ total price + movedAt side before price) :
    Dict.Stores ((deltas.foldl Delta.apply book).levels side)
      fun price => total price + movedAt side deltas price := by
  -- on the last delta: what comes before it is a prefix, whose totals are not negative
  induction deltas using List.reverseRecOn with
  | nil =>
    simp only [movedAt, List.map_nil, List.sum_nil, add_zero]
    exact stores
  | append_singleton deltas delta inductionHypothesis =>
    have earlier := inductionHypothesis fun before isBefore =>
      running before (isBefore.trans (List.prefix_append _ _))
    rw [List.foldl_append]
    simp only [movedAt_concat, ← add_assoc]
    exact stores_apply earlier (running deltas (List.prefix_append _ _)) delta

theorem levels_deltas_of_others {book : Book} {side : ContractSide} {deltas : List Delta}
    (others : ∀ d ∈ deltas, d.on ≠ side) :
    (deltas.foldl Delta.apply book).levels side = book.levels side := by
  induction deltas generalizing book with
  | nil => rfl
  | cons delta deltas inductionHypothesis =>
    rw [List.forall_mem_cons] at others
    rw [List.foldl_cons, inductionHypothesis others.2, levels_apply, if_neg others.1]

/-! ## Netting -/

theorem levels_net {book : Book} {payload net : Value} {deltas order : List Delta}
    {side : ContractSide} (reordered : order.Perm deltas) (nets : Nets book payload net deltas side)
    (running : NeverNegative book payload order) :
    (order.foldl Delta.apply (book.loadSnapshot payload)).levels side =
      (book.loadSnapshot net).levels side := by
  cases nets with
  | listed rows netRows lists netLists total =>
    have moved := stores_deltas (stores_snapshot lists book) (running.listed side rows lists)
    simp only [movedAt_perm reordered, ← total] at moved
    exact moved.unique (stores_snapshot netLists book)
  | added netRows payloadLacks positive netLists total =>
    have kept : (book.loadSnapshot payload).levels side = book.levels side := by
      rw [levels_loadSnapshot, payloadLacks]
    have moved := stores_deltas (kept ▸ stores_held positive) (running.held side payloadLacks)
    simp only [movedAt_perm reordered, ← total] at moved
    exact moved.unique (stores_snapshot netLists book)
  | left payloadLacks netLacks others =>
    rw [levels_deltas_of_others fun d member => others d (reordered.mem_iff.mp member),
      levels_loadSnapshot, levels_loadSnapshot, payloadLacks, netLacks]

/-- A snapshot and deltas, in any order that keeps the running totals from going negative, are one
    snapshot of the totals; and a snapshot leaves a side that it does not list as it was. -/
theorem snapshot_deltas_net {book : Book} {payload net : Value} {deltas order : List Delta}
    (nets : ∀ side, Nets book payload net deltas side) (reordered : order.Perm deltas)
    (running : NeverNegative book payload order) :
    order.foldl Delta.apply (book.loadSnapshot payload) = book.loadSnapshot net ∧
      ∀ side, Book.firstKey payload (sideKeys side) = none →
        (book.loadSnapshot payload).levels side = book.levels side := by
  constructor
  · have yes := levels_net reordered (nets .yes) running
    have no := levels_net reordered (nets .no) running
    exact (Book.mk.injEq ..).mpr ⟨yes, no⟩
  · intro side lacks
    rw [levels_loadSnapshot, lacks]

/-- Five YES at 40¢ are taken and three NO at 41¢ come, in either order. -/
theorem snapshot_deltas_net_both :
    let payload : Value := .object [("yes", .array [.array [.number (2 / 5), .number 5]])]
    let net : Value := .object [("yes", .array []), ("no", .array [.array [.string "0.41", .number 3]])]
    let taken : Delta := ⟨"yes", 2 / 5, -5⟩
    let come : Delta := ⟨"no", 41 / 100, 3⟩
    [come, taken].foldl Delta.apply (Book.loadSnapshot {} payload) = Book.loadSnapshot {} net := by
  intro payload net taken come
  have forty : toMd (2 / 5) = 400 := by decide +kernel
  have fortyOne : toMd (41 / 100) = 410 := by decide +kernel
  have rows : rowsOf (.array [.array [.number (2 / 5), .number 5]]) = [(2 / 5, 5)] := rfl
  have netRows : rowsOf (.array [.array [.string "0.41", .number 3]]) = [(41 / 100, 3)] := by
    decide +kernel
  have five (price : ℕ) : qtyAt [(2 / 5, 5)] price = if price = 400 then 5 else 0 := by
    simp [qtyAt, forty]
  have three (price : ℕ) : qtyAt [(41 / 100, 3)] price = if price = 410 then 3 else 0 := by
    simp [qtyAt, fortyOne]
  have takenYes (price : ℕ) : taken.share .yes price = if price = 400 then -5 else 0 := by
    simp [Delta.share, Delta.on, taken, forty]
  have comeNo (price : ℕ) : come.share .no price = if price = 410 then 3 else 0 := by
    simp [Delta.share, Delta.on, come, fortyOne]
  have takenNo (price : ℕ) : taken.share .no price = 0 := if_neg nofun
  have comeYes (price : ℕ) : come.share .yes price = 0 := if_neg nofun
  have lists : Lists payload .yes [(2 / 5, 5)] := ⟨⟨_, rfl, rows⟩, by simp, by simp⟩
  have netYes : Lists net .yes [] := ⟨⟨_, rfl, rfl⟩, List.nodup_nil, nofun⟩
  have netNo : Lists net .no [(41 / 100, 3)] := ⟨⟨_, rfl, netRows⟩, by simp, by simp⟩
  have nothing (price : ℕ) : heldAt {} .no price = 0 := rfl
  have nets : ∀ side, Nets {} payload net [taken, come] side := by
    intro side
    cases side with
    | yes =>
      refine .listed _ _ lists netYes fun price => ?_
      simp only [five, movedAt, List.map_cons, List.map_nil, List.sum_cons, List.sum_nil, takenYes,
        comeYes, add_zero]
      split_ifs <;> norm_num [qtyAt]
    | no =>
      refine .added _ rfl (fun price qty found => by cases found) netNo fun price => ?_
      simp only [three, nothing, movedAt, List.map_cons, List.map_nil, List.sum_cons, List.sum_nil,
        takenNo, comeNo, add_zero, zero_add]
  have running : NeverNegative {} payload [come, taken] := by
    have prefixes (before : List Delta) (isBefore : before <+: [come, taken]) :
        before = [] ∨ before = [come] ∨ before = [come, taken] := by
      simpa using (List.mem_inits _ _).mpr isBefore
    constructor
    · rintro side rows' ⟨⟨levels, carried, rfl⟩, _, _⟩ before isBefore price
      cases side with
      | no => cases carried
      | yes =>
        cases carried
        obtain rfl | rfl | rfl := prefixes before isBefore <;>
          simp only [rows, five, movedAt, List.map_cons, List.map_nil, List.sum_cons, List.sum_nil,
            takenYes, comeYes, add_zero, zero_add] <;>
          split_ifs <;> norm_num
    · intro side lacks before isBefore price
      cases side with
      | yes => cases lacks
      | no =>
        obtain rfl | rfl | rfl := prefixes before isBefore <;>
          simp only [nothing, movedAt, List.map_cons, List.map_nil, List.sum_cons, List.sum_nil,
            takenNo, comeNo, add_zero, zero_add, le_refl] <;>
          split_ifs <;> norm_num
  exact (snapshot_deltas_net nets (.swap _ _ _) running).1

end KalshiMm.Verified.Netting
