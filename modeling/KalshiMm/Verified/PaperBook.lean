import KalshiMm.Model.Paper
import KalshiMm.Verified.Handlers

/-!
# The paper client under calls

Its orders are numbered in the order they came, so no id comes twice.  A placement adds one resting
order, a cancel takes the one it names, and nothing brings a canceled order back.
-/

namespace KalshiMm.Verified.PaperBook

open KalshiMm.Lib KalshiMm.Model

/-! ## Ids -/

theorem paperOrderId_injective : Function.Injective paperOrderId := by
  intro m n same
  have digits : m.repr.toList = n.repr.toList := by
    have text := congrArg String.toList same
    simpa [paperOrderId] using text
  rw [Nat.toList_repr, Nat.toList_repr] at digits
  have read := congrArg (fun cs => Nat.ofDigitChars 10 cs 0) digits
  simpa using read

/-- The orders carry the numbers up to the counter. -/
def Numbered (client : PaperClient) : Prop :=
  client.orders.map PaperOrder.orderId =
    (List.range client.counter).map fun n => paperOrderId (n + 1)

/-- An order of the market rests under the id. -/
def Resting (client : PaperClient) (ticker id : String) : Prop :=
  ∃ order ∈ client.orders, order.orderId = id ∧ order.marketTicker = ticker ∧
    order.status = .resting

theorem Numbered.nodup {client : PaperClient} (numbered : Numbered client) :
    (client.orders.map PaperOrder.orderId).Nodup := by
  rw [numbered]
  exact List.nodup_range.map fun m n same => Nat.succ_injective (paperOrderId_injective same)

/-- An id belongs to one order, so to one market. -/
theorem Numbered.ticker_unique {client : PaperClient} (numbered : Numbered client)
    {ticker other id : String} (one : Resting client ticker id) (two : Resting client other id) :
    ticker = other := by
  obtain ⟨first, member, rfl, rfl, _⟩ := one
  obtain ⟨second, member', same, rfl, _⟩ := two
  rw [List.inj_on_of_nodup_map numbered.nodup member member' same.symm]

/-- The number of the next order is a new one. -/
theorem Numbered.fresh {client : PaperClient} (numbered : Numbered client) :
    paperOrderId (client.counter + 1) ∉ client.orders.map PaperOrder.orderId := by
  rw [numbered]
  intro member
  obtain ⟨n, below, same⟩ := List.mem_map.mp member
  have number := Nat.succ_injective (paperOrderId_injective same)
  exact absurd (List.mem_range.mp below) (by omega)

/-! ## Calls -/

@[simp] theorem cancel_orderId (order : PaperOrder) : order.cancel.orderId = order.orderId := rfl

theorem map_orderId_cancel (orders : List PaperOrder) (taken : PaperOrder → Prop)
    [DecidablePred taken] :
    (orders.map fun order => if taken order then order.cancel else order).map PaperOrder.orderId =
      orders.map PaperOrder.orderId := by
  rw [List.map_map]
  refine List.map_congr_left fun order _ => ?_
  rw [Function.comp_apply]
  split_ifs <;> rfl

/-- What rests once some orders have been taken. -/
theorem resting_cancel {orders : List PaperOrder} {counter : ℕ} {taken : PaperOrder → Prop}
    [DecidablePred taken] {ticker id : String} :
    Resting ⟨orders.map fun order => if taken order then order.cancel else order, counter⟩ ticker id ↔
      ∃ order ∈ orders, (order.orderId = id ∧ order.marketTicker = ticker ∧
        order.status = .resting) ∧ ¬ taken order := by
  unfold Resting
  simp only [List.mem_map]
  constructor
  · rintro ⟨_, ⟨order, member, rfl⟩, rests⟩
    split_ifs at rests with gone
    · exact absurd rests.2.2 (by simp [PaperOrder.cancel])
    · exact ⟨order, member, rests, gone⟩
  · rintro ⟨order, member, rests, stays⟩
    exact ⟨_, ⟨order, member, rfl⟩, by rwa [if_neg stays]⟩

theorem numbered_carry {client : PaperClient} (numbered : Numbered client) (call : OrderCall) :
    Numbered (client.carry call) := by
  cases call with
  | place request reply =>
    unfold Numbered PaperClient.carry PaperClient.placeLimitOrder
    rw [List.map_append, numbered, List.range_succ, List.map_append]
    rfl
  | cancel id reply => exact (map_orderId_cancel _ _).trans numbered
  | cancelAll reply => exact (map_orderId_cancel _ _).trans numbered

theorem numbered_calls {client : PaperClient} (numbered : Numbered client)
    (calls : List OrderCall) : Numbered (calls.foldl PaperClient.carry client) :=
  run_induct (fun _ call kept => numbered_carry kept call) numbered

/-- A list of cancels takes the orders it names. -/
theorem resting_cancels {client : PaperClient} {ids : List String}
    {reply : String → Except String Value} {ticker id : String} :
    Resting ((ids.map fun id => OrderCall.cancel id (reply id)).foldl PaperClient.carry client)
      ticker id ↔ Resting client ticker id ∧ id ∉ ids := by
  induction ids generalizing client with
  | nil => simp
  | cons first ids inductionHypothesis =>
    rw [List.map_cons, List.foldl_cons, inductionHypothesis, PaperClient.carry,
      PaperClient.cancelOrder, resting_cancel]
    constructor
    · rintro ⟨⟨order, member, ⟨rfl, same, rests⟩, stays⟩, rest⟩
      exact ⟨⟨order, member, rfl, same, rests⟩, by simp [rest, stays]⟩
    · rintro ⟨⟨order, member, rfl, same, rests⟩, absent⟩
      obtain ⟨other, rest⟩ := not_or.mp (mt List.mem_cons.mpr absent)
      exact ⟨⟨order, member, ⟨rfl, same, rests⟩, other⟩, rest⟩

/-- One side of a quote: if it is placed, the client answers with the next number, and the order
    rests under it. -/
theorem resting_sendQuoteSide {client : PaperClient} {api : OrderApi} {placed : Bool}
    {request : OrderRequest}
    (answers : Along PaperClient.carry PaperClient.Answers client (sendQuoteSide api placed request).2)
    {ticker id : String} :
    Resting ((sendQuoteSide api placed request).2.foldl PaperClient.carry client) ticker id ↔
      Resting client ticker id ∨
        (restingId (sendQuoteSide api placed request).1 = some id ∧ request.ticker = ticker) := by
  unfold sendQuoteSide at answers ⊢
  split_ifs at answers ⊢
  · have reply : api.placeLimitOrder request = (client.placeLimitOrder request).2 := answers.1
    have given : restingId (some (sendOrder api request).1) =
        some (paperOrderId (client.counter + 1)) := by
      rw [sendOrder, reply]
      rfl
    rw [given]
    simp only [sendOrder, List.foldl_cons, List.foldl_nil, PaperClient.carry,
      PaperClient.placeLimitOrder, Resting, List.mem_append, List.mem_singleton]
    constructor
    · rintro ⟨order, old | rfl, rfl, same, rests⟩
      · exact Or.inl ⟨order, old, rfl, same, rests⟩
      · exact Or.inr ⟨rfl, same⟩
    · rintro (⟨order, old, same⟩ | ⟨same, rfl⟩)
      · exact ⟨order, Or.inl old, same⟩
      · exact ⟨_, Or.inr rfl, Option.some.inj same, rfl, rfl⟩
  · simp [restingId]

theorem not_resting_cancelAll (client : PaperClient) (reply : Except String ℕ) (ticker id : String) :
    ¬ Resting (client.carry (.cancelAll reply)) ticker id := by
  rw [PaperClient.carry, PaperClient.cancelAllOrders, resting_cancel]
  rintro ⟨_, _, ⟨_, _, rests⟩, stays⟩
  exact stays rests

/-- Where no order is placed, nothing comes to rest. -/
theorem not_resting_calls {calls : List OrderCall}
    (none : ∀ request reply, OrderCall.place request reply ∉ calls) {client : PaperClient}
    (idle : ∀ ticker id, ¬ Resting client ticker id) (ticker id : String) :
    ¬ Resting (calls.foldl PaperClient.carry client) ticker id := by
  induction calls generalizing client with
  | nil => exact idle ticker id
  | cons call calls inductionHypothesis =>
    refine inductionHypothesis (fun request reply member =>
      none request reply (List.mem_cons_of_mem _ member)) fun other id' rests => ?_
    cases call with
    | place request reply => exact none request reply List.mem_cons_self
    | cancel first reply =>
      have one : Resting (([first].map fun id => OrderCall.cancel id reply).foldl PaperClient.carry
        client) other id' := rests
      exact idle other id' (resting_cancels.mp one).1
    | cancelAll reply => exact not_resting_cancelAll client reply other id' rests

end KalshiMm.Verified.PaperBook
