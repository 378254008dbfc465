import KalshiMm.Verified.InventoryCap

/-!
# The sweep of resting orders at startup

What the sweep leaves on the exchange are the orders whose side reduces the position it was told of.
Filled one after the other they take it toward zero by their sizes, which the sweep does not look
at, so that it comes to rest between the position and zero only where all of them together are no
larger than the position.
-/

namespace KalshiMm.Verified.StartupOrders

open KalshiMm.Lib KalshiMm.Model InventoryCap

/-! ## What the exchange reports -/

def actionOf : OrderSide → String
  | .buy => "buy"
  | .sell => "sell"

structure Describes (row : Value) (order : RestingOrder) : Prop where
  ticker : orderTicker row = order.ticker
  action : row.getStr "action" = some (actionOf order.side)

/-- The rows list the orders that rest, under their ids. -/
structure Lists (rows : List Value) (ex : Exchange) : Prop where
  complete : ∀ id order, ex.resting.lookup id = some order →
    0 < order.remaining ∧ ∃ row ∈ rows, row.getStr "order_id" = some id
  faithful : ∀ row ∈ rows, ∀ id order, row.getStr "order_id" = some id →
    ex.resting.lookup id = some order → Describes row order

/-- The requests of the sweep are answered: with the positions, with the orders, and every cancel
    with a success. -/
structure Answers (api : StartupApi) (positions : Dict String ℤ) (ex : Exchange) : Prop where
  positions : ∃ resp, api.getPositions = .ok resp ∧ parsePositions resp = positions
  orders : ∃ resp, api.getOrders (some "resting") 1000 = .ok resp ∧
    Lists (resp.getRows "orders") ex
  cancels : ∀ id, cancelled api.toOrderApi id = true

/-! ## Fills of what rests -/

/-- What the exchange holds for the account, and what rests. -/
structure Holding where
  held : String → ℤ
  exchange : Exchange

def Holding.fill (h : Holding) (nf : NormalizedFill) : Holding where
  held := Function.update h.held nf.ticker (h.held nf.ticker + nf.signedSize)
  exchange := h.exchange.execute nf

def FillsResting (h : Holding) (nf : NormalizedFill) : Prop := Executes h.exchange nf

/-- No position has grown and none has changed its sign. -/
def NeverGrown (initial : String → ℤ) (h : Holding) : Prop :=
  ∀ ticker, |h.held ticker| ≤ |initial ticker| ∧ 0 ≤ initial ticker * h.held ticker

/-- The side takes the position toward zero. -/
def Reduces (position : ℤ) (side : OrderSide) : Prop := direction side * position < 0

instance (position : ℤ) (side : OrderSide) : Decidable (Reduces position side) :=
  inferInstanceAs (Decidable (_ < _))

def reducingShare (initial : String → ℤ) (ticker : String) (_ : String) (order : RestingOrder) : ℤ :=
  if order.ticker = ticker ∧ Reduces (initial ticker) order.side then order.remaining else 0

/-- Contracts of the orders that rest on a market and reduce its position. -/
def reducingSize (initial : String → ℤ) (ex : Exchange) (ticker : String) : ℤ :=
  Dict.sumOf (reducingShare initial ticker) ex.resting

/-! ## The sweep -/

theorem orderReducesPosition_iff {row : Value} {order : RestingOrder} (described : Describes row order)
    (position : ℤ) : orderReducesPosition row position = true ↔ Reduces position order.side := by
  unfold orderReducesPosition Reduces
  rw [described.action]
  cases order.side with
  | buy => simp [actionOf, direction]
  | sell => simp [actionOf, direction]

/-- The sweep leaves the orders that reduce the positions, and no other. -/
theorem lookup_swept {api : StartupApi} {positions : Dict String ℤ} {ex : Exchange}
    (answers : Answers api positions ex) {id : String} {order : RestingOrder} :
    ((optimizeStartupOrders api).foldl Exchange.accept ex).resting.lookup id = some order ↔
      ex.resting.lookup id = some order ∧
        Reduces ((positions.lookup order.ticker).getD 0) order.side := by
  obtain ⟨_, held, rfl⟩ := answers.positions
  obtain ⟨resp, orders, lists⟩ := answers.orders
  unfold optimizeStartupOrders
  rw [held, orders]
  dsimp only
  rw [(accept_cancels ex api.toOrderApi _).2]
  split_ifs with cancels
  · -- the row it was cancelled for describes it
    refine iff_of_false nofun ?_
    rintro ⟨rests, reduces⟩
    obtain ⟨row, member, adds⟩ := List.mem_filterMap.mp cancels.1
    split_ifs at adds with keeps
    have described := lists.faithful row member id order adds rests
    rw [described.ticker, orderReducesPosition_iff described] at keeps
    exact keeps reduces
  · refine ⟨fun rests => ⟨rests, ?_⟩, And.left⟩
    obtain ⟨_, row, member, named⟩ := lists.complete id order rests
    have described := lists.faithful row member id order named rests
    rw [← orderReducesPosition_iff described, ← described.ticker]
    by_contra adds
    exact cancels ⟨List.mem_filterMap.mpr ⟨row, member, (if_neg adds).trans named⟩,
      answers.cancels id⟩

/-- So all that rests after the sweep is what reduces. -/
theorem reducingSize_swept {api : StartupApi} {positions : Dict String ℤ} {ex : Exchange}
    (answers : Answers api positions ex) (ticker : String) :
    let initial (ticker : String) : ℤ := (positions.lookup ticker).getD 0
    reducingSize initial ((optimizeStartupOrders api).foldl Exchange.accept ex) ticker =
      reducingSize initial ex ticker := by
  intro initial
  have same (id : String) :
      (((optimizeStartupOrders api).foldl Exchange.accept ex).resting.lookup id).elim 0
        (reducingShare initial ticker id) =
      (ex.resting.lookup id).elim 0 (reducingShare initial ticker id) := by
    cases swept : ((optimizeStartupOrders api).foldl Exchange.accept ex).resting.lookup id with
    | some order => rw [((lookup_swept answers).mp swept).1]
    | none =>
      cases rests : ex.resting.lookup id with
      | none => rfl
      | some order =>
        -- an order that was cancelled counts for nothing
        rw [Option.elim_none, Option.elim_some, reducingShare, if_neg]
        rintro ⟨rfl, reduces⟩
        rw [(lookup_swept answers).mpr ⟨rests, reduces⟩] at swept
        cases swept
  exact (Dict.sumOf_le_of_share fun id => (same id).le).antisymm
    (Dict.sumOf_le_of_share fun id => (same id).ge)

/-! ## One fill -/

section Fill

variable {initial total : String → ℤ} {h : Holding} {nf : NormalizedFill}

/-- Every order reduces, and what was taken off the orders so far was taken off the positions. -/
structure Unwinding (initial total : String → ℤ) (h : Holding) : Prop where
  orders : ∀ id order, h.exchange.resting.lookup id = some order →
    0 < order.remaining ∧ Reduces (initial order.ticker) order.side
  fewer : ∀ ticker, reducingSize initial h.exchange ticker ≤ total ticker
  moved : ∀ ticker, h.held ticker =
    initial ticker - (initial ticker).sign * (total ticker - reducingSize initial h.exchange ticker)

theorem reduces_iff (position : ℤ) (side : OrderSide) :
    Reduces position side ↔ position ≠ 0 ∧ direction side = -position.sign := by
  unfold Reduces
  obtain negative | rfl | positive := lt_trichotomy position 0
  · rw [Int.sign_eq_neg_one_of_neg negative]
    cases side with
    | buy => simp [direction, negative, negative.ne]
    | sell => simp [direction, negative.le]
  · simp
  · rw [Int.sign_eq_one_of_pos positive]
    cases side with
    | buy => simp [direction, positive.le]
    | sell => simp [direction, positive, positive.ne']

theorem Unwinding.remaining (unwinding : Unwinding initial total h) (ticker : String) :
    0 ≤ reducingSize initial h.exchange ticker := by
  rw [← Dict.sumOf_empty (reducingShare initial ticker)]
  refine Dict.sumOf_le_of_share fun id => ?_
  cases rests : h.exchange.resting.lookup id with
  | none => exact le_rfl
  | some order =>
    rw [Option.elim_some, reducingShare]
    split_ifs
    · exact (unwinding.orders id order rests).1.le
    · exact le_rfl

theorem Unwinding.fill (unwinding : Unwinding initial total h) (fills : FillsResting h nf) :
    Unwinding initial total (h.fill nf) := by
  have executed (ticker : String) : reducingSize initial (h.fill nf).exchange ticker +
      (if nf.ticker = ticker ∧ Reduces (initial ticker) (fillSide nf) then nf.size else 0) =
        reducingSize initial h.exchange ticker :=
    sumOf_execute fills fun ticker' side => ticker' = ticker ∧ Reduces (initial ticker) side
  obtain ⟨id, order, _, found, sameTicker, sameSide, positive, _⟩ := id fills
  have reduces := (unwinding.orders id order found).2
  rw [sameTicker, sameSide] at reduces
  refine ⟨fun id order rests => ?_, fun ticker => ?_, fun ticker => ?_⟩
  · obtain ⟨before, found, sameTicker, sameSide, left⟩ := rests_execute fills rests
    rw [sameTicker, sameSide]
    exact (unwinding.orders id before found).imp_left left
  · have fewer := unwinding.fewer ticker
    have taken := executed ticker
    split_ifs at taken <;> omega
  · have moved := unwinding.moved ticker
    have taken := executed ticker
    by_cases here : nf.ticker = ticker
    · subst here
      rw [if_pos ⟨rfl, reduces⟩] at taken
      have held : (h.fill nf).held nf.ticker = h.held nf.ticker + nf.signedSize :=
        Function.update_self ..
      rw [held, moved, signedSize_eq, ((reduces_iff _ _).mp reduces).2, ← taken]
      ring
    · rw [if_neg fun counted => here counted.1, add_zero] at taken
      have held : (h.fill nf).held ticker = h.held ticker :=
        Function.update_of_ne (Ne.symm here) ..
      rw [held, taken, moved]

/-- Contracts taken off a position leave it between where it was and zero as long as there are no
    more of them than it has. -/
theorem taken_off_iff {position taken : ℤ} (nonneg : 0 ≤ taken) :
    (|position - position.sign * taken| ≤ |position| ∧
        0 ≤ position * (position - position.sign * taken)) ↔
      position = 0 ∨ taken ≤ |position| := by
  obtain negative | rfl | positive := lt_trichotomy position 0
  · rw [Int.sign_eq_neg_one_of_neg negative, abs_of_neg negative, neg_one_mul, sub_neg_eq_add,
      ← neg_mul_neg, mul_nonneg_iff_of_pos_left (neg_pos.mpr negative), abs_le]
    omega
  · simp
  · rw [Int.sign_eq_one_of_pos positive, abs_of_pos positive, one_mul,
      mul_nonneg_iff_of_pos_left positive, abs_le]
    omega

theorem Unwinding.neverGrown (unwinding : Unwinding initial total h)
    (enough : ∀ ticker, total ticker ≤ |initial ticker|) : NeverGrown initial h := by
  intro ticker
  have remaining := unwinding.remaining ticker
  have fewer := unwinding.fewer ticker
  rw [unwinding.moved ticker]
  exact (taken_off_iff (by omega)).mpr (.inr (by linarith [enough ticker]))

end Fill

/-! ## Runs of fills -/

theorem reducingSize_flat {initial : String → ℤ} {ticker : String} (flat : initial ticker = 0)
    (ex : Exchange) : reducingSize initial ex ticker = 0 := by
  rw [reducingSize, Dict.sumOf_eq_sum _ subset_rfl]
  refine Finset.sum_eq_zero fun id _ => ?_
  cases ex.resting.lookup id with
  | none => rfl
  | some order =>
    rw [Option.elim_some, reducingShare, if_neg]
    rintro ⟨_, reduces⟩
    exact ((reduces_iff _ _).mp reduces).1 flat

/-- The whole of an order at once. -/
def wholeFill (id : String) (order : RestingOrder) : NormalizedFill where
  fillId := id
  ticker := order.ticker
  longYes := order.side = .buy
  priceYes := 0
  size := order.remaining
  isTaker := false
  orderId := some id

theorem fillsResting_wholeFill {h : Holding} {id : String} {order : RestingOrder}
    (rests : h.exchange.resting.lookup id = some order) (positive : 0 < order.remaining) :
    FillsResting h (wholeFill id order) := by
  refine ⟨id, order, rfl, rests, rfl, ?_, positive, le_rfl⟩
  unfold fillSide wholeFill
  cases order.side with
  | buy => rfl
  | sell => rfl

/-- Orders that rest can all be filled. -/
theorem drains (n : ℕ) : ∀ {h : Holding}, h.exchange.resting.keys.card = n →
    (∀ id order, h.exchange.resting.lookup id = some order → 0 < order.remaining) →
    ∃ fills, Along Holding.fill FillsResting h fills ∧
      (run Holding.fill h fills).exchange.resting = ∅ := by
  induction n with
  | zero =>
    intro h none_left _
    refine ⟨[], trivial, Finmap.ext_lookup fun id => ?_⟩
    rw [Finset.card_eq_zero] at none_left
    have absent : id ∉ h.exchange.resting.keys := by
      rw [none_left]
      exact Finset.notMem_empty id
    rw [run_nil, Finmap.lookup_eq_none.mpr (Finmap.mem_keys.not.mp absent)]
    rfl
  | succ n inductionHypothesis =>
    intro h some_left positive
    obtain ⟨id, listed⟩ := Finset.card_pos.mp (by rw [some_left]; exact n.succ_pos)
    obtain ⟨order, rests⟩ := Finmap.mem_iff.mp (Finmap.mem_keys.mp listed)
    have fills := fillsResting_wholeFill rests (positive id order rests)
    have left : (h.fill (wholeFill id order)).exchange.resting = h.exchange.resting.erase id := by
      rw [Holding.fill, execute_of_lookup rfl rests]
      exact congrArg Exchange.resting (if_pos le_rfl)
    obtain ⟨rest, along, drained⟩ := inductionHypothesis (h := h.fill (wholeFill id order))
      (by rw [left, Finmap.keys_erase, Finset.card_erase_of_mem listed, some_left]; rfl)
      (fun other order' rests' => positive other order'
        (Dict.lookup_of_lookup_erase (left ▸ rests')))
    exact ⟨wholeFill id order :: rest, ⟨fills, along⟩, drained⟩

/-- The account after the sweep, with the positions it went by. -/
theorem unwinding_swept {api : StartupApi} {positions : Dict String ℤ} {ex : Exchange}
    (answers : Answers api positions ex) :
    let initial (ticker : String) : ℤ := (positions.lookup ticker).getD 0
    Unwinding initial (reducingSize initial ex)
      ⟨initial, (optimizeStartupOrders api).foldl Exchange.accept ex⟩ := by
  intro initial
  have same := reducingSize_swept answers
  refine ⟨fun id order rests => ?_, fun ticker => (same ticker).le, fun ticker => ?_⟩
  · obtain ⟨_, _, lists⟩ := answers.orders
    obtain ⟨rested, reduces⟩ := (lookup_swept answers).mp rests
    exact ⟨(lists.complete id order rested).1, reduces⟩
  · rw [same ticker, sub_self, mul_zero, sub_zero]

theorem Unwinding.run {initial total : String → ℤ} {h : Holding} {fills : List NormalizedFill}
    (unwinding : Unwinding initial total h) (along : Along Holding.fill FillsResting h fills) :
    Throughout Holding.fill (Unwinding initial total) h fills :=
  throughout_of_along (fun _ _ unwinding fills => unwinding.fill fills) unwinding along

/-- Once everything is filled the positions are reduced by all that rested. -/
theorem Unwinding.enough {initial total : String → ℤ} {h : Holding}
    (unwinding : Unwinding initial total h)
    (safe : ∀ fills, Along Holding.fill FillsResting h fills →
      Throughout Holding.fill (NeverGrown initial) h fills) (ticker : String) :
    initial ticker = 0 ∨ total ticker ≤ |initial ticker| := by
  obtain ⟨fills, along, drained⟩ := drains _ rfl fun id order rests =>
    (unwinding.orders id order rests).1
  have none_left : reducingSize initial (Lib.run Holding.fill h fills).exchange ticker = 0 := by
    rw [reducingSize, drained, Dict.sumOf_empty]
  have grown := (safe fills along).last ticker
  rw [(unwinding.run along).last.moved ticker, none_left, sub_zero] at grown
  have nonneg : 0 ≤ total ticker := (unwinding.remaining ticker).trans (unwinding.fewer ticker)
  exact (taken_off_iff nonneg).mp grown

/-- Fills in any order and of any part of what rests leave every position between where it was and
    zero exactly if the orders that reduce it are together no larger than it is. -/
theorem never_grown_iff {api : StartupApi} {positions : Dict String ℤ} {ex : Exchange}
    (answers : Answers api positions ex) :
    let initial (ticker : String) : ℤ := (positions.lookup ticker).getD 0
    let swept : Holding := ⟨initial, (optimizeStartupOrders api).foldl Exchange.accept ex⟩
    (∀ fills, Along Holding.fill FillsResting swept fills →
        Throughout Holding.fill (NeverGrown initial) swept fills) ↔
      ∀ ticker, reducingSize initial ex ticker ≤ |initial ticker| := by
  intro initial swept
  have start : Unwinding initial (reducingSize initial ex) swept := unwinding_swept answers
  constructor
  · intro safe ticker
    obtain flat | enough := start.enough safe ticker
    · rw [reducingSize_flat flat]
      exact abs_nonneg _
    · exact enough
  · intro enough fills along
    exact (start.run along).imp fun h unwinding => unwinding.neverGrown enough

/-! ## A long of three and an order to sell -/

def position : Value :=
  .object [("market_positions", .array [.object
    [("ticker", .string "KXBTCD-1"), ("position_fp", .number 3)]])]

def sellOrder : Value :=
  .object [("order_id", .string "o1"), ("ticker", .string "KXBTCD-1"), ("action", .string "sell"),
    ("side", .string "yes")]

def longOfThree : StartupApi :=
  { MarketApi.down with
    cancelOrder := fun _ => .ok .null
    getPositions := .ok position
    getOrders := fun _ _ => .ok (.object [("orders", .array [sellOrder])]) }

def askOf (size : ℤ) : RestingOrder := ⟨"KXBTCD-1", .sell, size⟩

def selling (size : ℤ) : Exchange := { resting := Finmap.insert "o1" (askOf size) ∅ }

theorem lookup_selling {size : ℤ} {id : String} {order : RestingOrder}
    (rests : (selling size).resting.lookup id = some order) : order = askOf size := by
  rw [selling, Dict.lookup_insert_eq_ite] at rests
  split_ifs at rests
  · exact (Option.some.inj rests).symm
  · cases rests

theorem answers_longOfThree {size : ℤ} (positive : 0 < size) :
    Answers longOfThree (parsePositions position) (selling size) := by
  refine ⟨⟨_, rfl, rfl⟩, ⟨_, rfl, ?_, ?_⟩, fun _ => rfl⟩
  · intro id order rests
    obtain rfl : id = "o1" := by
      by_contra other
      rw [selling, Finmap.lookup_insert_of_ne _ other] at rests
      cases rests
    rw [lookup_selling rests]
    exact ⟨positive, sellOrder, List.mem_singleton_self _, rfl⟩
  · intro row member id order _ rests
    rw [lookup_selling rests]
    obtain rfl := List.mem_singleton.mp member
    exact ⟨rfl, rfl⟩

theorem never_grown_two :
    let initial (ticker : String) : ℤ := ((parsePositions position).lookup ticker).getD 0
    let swept : Holding :=
      ⟨initial, (optimizeStartupOrders longOfThree).foldl Exchange.accept (selling 2)⟩
    ∀ fills, Along Holding.fill FillsResting swept fills →
      Throughout Holding.fill (NeverGrown initial) swept fills := by
  refine (never_grown_iff (answers_longOfThree (by norm_num))).mpr fun ticker => ?_
  rw [reducingSize, selling, Dict.sumOf_insert_of_notMem _ _ Finmap.notMem_empty, Dict.sumOf_empty,
    add_zero, reducingShare]
  split_ifs with counted
  · have held : (parsePositions position).lookup "KXBTCD-1" = some 3 := by decide +kernel
    rw [← counted.1]
    change 2 ≤ |((parsePositions position).lookup "KXBTCD-1").getD 0|
    rw [held]
    decide
  · exact abs_nonneg _

/-- Nothing is cancelled, and once the five contracts are sold the account is two short. -/
theorem flipped_five :
    let initial (ticker : String) : ℤ := ((parsePositions position).lookup ticker).getD 0
    let swept : Holding :=
      ⟨initial, (optimizeStartupOrders longOfThree).foldl Exchange.accept (selling 5)⟩
    Answers longOfThree (parsePositions position) (selling 5) ∧
      ¬ ∀ fills, Along Holding.fill FillsResting swept fills →
        Throughout Holding.fill (NeverGrown initial) swept fills := by
  intro initial swept
  refine ⟨answers_longOfThree (by norm_num), fun safe => ?_⟩
  have rests : swept.exchange.resting.lookup "o1" = some (askOf 5) := by decide +kernel
  have fills := fillsResting_wholeFill rests (by decide)
  obtain ⟨_, unflipped⟩ := (safe [wholeFill "o1" (askOf 5)] ⟨fills, trivial⟩).last "KXBTCD-1"
  have held : initial "KXBTCD-1" = 3 := by decide +kernel
  have short : (run Holding.fill swept [wholeFill "o1" (askOf 5)]).held "KXBTCD-1" = -2 := by
    decide +kernel
  rw [held, short] at unflipped
  norm_num at unflipped

end KalshiMm.Verified.StartupOrders
