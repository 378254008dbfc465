import KalshiMm.Verified.DeskSteps

/-!
# Orphaned orders

An order that rests on the exchange is known to the trader by the id it records for it.  Ids are
dropped in three places: a quote cycle replaces them whatever its cancels replied, the spot gate
takes them before it cancels, and a booked fill releases the one it names.  Each keeps every
resting order known exactly when what it drops no longer rests.
-/

namespace KalshiMm.Verified.Orphans

open KalshiMm.Lib KalshiMm.Model

/-- Every order that rests is recorded on its market. -/
def OrphanFree (w : World) : Prop :=
  ∀ id order, w.exchange.resting.lookup id = some order →
    id ∈ w.trader.state.recordedIds order.ticker

/-- Ids on record are ids the exchange has given out, to an order of that market. -/
structure Tracked (w : World) : Prop where
  resting : RestingIssued w.exchange
  recorded : ∀ ticker id, id ∈ w.trader.state.recordedIds ticker → id ∈ w.exchange.issued
  owner : ∀ ticker id order, id ∈ w.trader.state.recordedIds ticker →
    w.exchange.resting.lookup id = some order → order.ticker = ticker

/-- Placements are answered with ids not given out before. -/
def Answered (w : World) : DeskEvent → Prop
  | .quote out _ _ _ _ _ => Issues out.api.toOrderApi w.exchange.issued
  | _ => True

/-- What the trader drops from its records no longer rests, or is cancelled as it is dropped. -/
def DropsDead (w : World) : DeskEvent → Prop
  | .quote out category ticker action fvShift _ =>
    (planOf out category ticker action fvShift w.trader).isSome = true →
      ∀ id ∈ w.trader.state.recordedIds ticker, id ∈ w.exchange.resting →
        cancelled out.api.toOrderApi id = true
  | .spotCancel out =>
    ∀ id ∈ ((w.trader.tickerKeys out).filter w.trader.isSpotBound).flatMap
        w.trader.state.recordedIds, id ∈ w.exchange.resting → cancelled out.api.toOrderApi id = true
  | .deliver _ raw =>
    ∀ nf ∈ normalizeFill raw, nf.fillId ∉ w.trader.state.fillIds →
      ∀ id ∈ nf.orderId, id ∈ w.trader.state.recordedIds nf.ticker → id ∉ w.exchange.resting
  | .data .. => True
  | .execute _ => True

instance (w : World) : DecidablePred (DropsDead w) := fun event => by
  cases event <;> unfold DropsDead <;> infer_instance

/-! ## Quote cycles -/

section Quote

variable {out : Outside} {category ticker : String} {action : Action} {fvShift : ℚ} {w : World}
  (allow : Bool × Bool)

theorem mem_recordedIds_quote {plan : QuotePlan}
    (planned : planOf out category ticker action fvShift w.trader = some plan) (other id : String) :
    id ∈ (w.step (.quote out category ticker action fvShift allow)).trader.state.recordedIds other ↔
      if other = ticker then bidId out ticker allow plan = some id ∨ askId out ticker allow plan = some id
      else id ∈ w.trader.state.recordedIds other := by
  rw [recordedIds_quote allow planned]
  split_ifs <;> simp

theorem tracked_quote (tracked : Tracked w) (issues : Issues out.api.toOrderApi w.exchange.issued) :
    Tracked (w.step (.quote out category ticker action fvShift allow)) := by
  cases planned : planOf out category ticker action fvShift w.trader with
  | none =>
    obtain ⟨exchange, ids⟩ := unplanned_quote allow planned
    exact
      { resting := by rw [exchange]; exact tracked.resting
        recorded := fun other id recorded => by
          rw [ids] at recorded
          rw [exchange]
          exact tracked.recorded other id recorded
        owner := fun other id order recorded rests => by
          rw [ids] at recorded
          rw [exchange] at rests
          exact tracked.owner other id order recorded rests }
  | some plan =>
    have rests id order := lookup_quote allow issues tracked.resting planned id order
    have issued id := mem_issued_quote allow planned id
    have records other id := mem_recordedIds_quote allow planned other id
    -- the two new ids were never given out, so neither can be an id on another market's record
    have newIssued {id : String} (new : bidId out ticker allow plan = some id ∨
        askId out ticker allow plan = some id) : id ∉ w.exchange.issued := by
      rcases new with bidden | asked
      · exact issues.fresh bidden
      · exact issues.fresh asked
    exact
      { resting := restingIssued_quote allow issues tracked.resting planned
        recorded := fun other id recorded => by
          rw [records] at recorded
          rw [issued]
          split_ifs at recorded
          · exact recorded.elim (fun bidden => Or.inr (Or.inl bidden)) Or.inl
          · exact Or.inr (Or.inr (tracked.recorded other id recorded))
        owner := fun other id order recorded found => by
          rw [records] at recorded
          obtain ⟨bidden, rfl⟩ | ⟨asked, rfl⟩ | ⟨old, _⟩ := (rests id order).mp found
          · by_cases same : other = ticker
            · exact same.symm
            · rw [if_neg same] at recorded
              exact absurd (tracked.recorded other id recorded) (newIssued (Or.inl bidden))
          · by_cases same : other = ticker
            · exact same.symm
            · rw [if_neg same] at recorded
              exact absurd (tracked.recorded other id recorded) (newIssued (Or.inr asked))
          · split_ifs at recorded
            · exact absurd (tracked.resting id order old) (newIssued recorded)
            · exact tracked.owner other id order recorded old }

/-- A quote cycle orphans nothing exactly when the orders it replaces are gone or cancelled. -/
theorem orphanFree_quote_iff (tracked : Tracked w)
    (issues : Issues out.api.toOrderApi w.exchange.issued) (known : OrphanFree w) :
    OrphanFree (w.step (.quote out category ticker action fvShift allow)) ↔
      DropsDead w (.quote out category ticker action fvShift allow) := by
  cases planned : planOf out category ticker action fvShift w.trader with
  | none =>
    obtain ⟨exchange, ids⟩ := unplanned_quote allow planned
    refine iff_of_true (fun id order rests => ?_) (fun plans => ?_)
    · rw [exchange] at rests
      rw [ids]
      exact known id order rests
    · rw [planned] at plans
      cases plans
  | some plan =>
    have rests id order := lookup_quote allow issues tracked.resting planned id order
    have records other id := mem_recordedIds_quote allow planned other id
    simp only [DropsDead, planned, Option.isSome_some, forall_const]
    constructor
    · intro after id recorded stillRests
      obtain ⟨order, found⟩ := Finmap.mem_iff.mp stillRests
      -- an old order that survives must be listed after the cycle, and only the two new ids are
      by_contra survives
      have owned := tracked.owner ticker id order recorded found
      have listed := after id order
        ((rests id order).mpr (Or.inr (Or.inr ⟨found, fun gone => survives gone.2⟩)))
      rw [records, if_pos owned] at listed
      have old := tracked.resting id order found
      rcases listed with bidden | asked
      · exact issues.fresh bidden old
      · exact issues.fresh asked old
    · intro dead id order found
      rw [records]
      obtain ⟨bidden, rfl⟩ | ⟨asked, rfl⟩ | ⟨old, survives⟩ := (rests id order).mp found
      · rw [bidOrder_ticker, if_pos rfl]
        exact Or.inl bidden
      · rw [askOrder_ticker, if_pos rfl]
        exact Or.inr asked
      · have recorded := known id order old
        split_ifs with same
        · rw [same] at recorded
          exact absurd ⟨recorded, dead id recorded (Finmap.mem_iff.mpr ⟨order, old⟩)⟩ survives
        · exact recorded

end Quote

/-! ## Spot-gate cancels -/

theorem mem_recordedIds_spotCancel (w : World) (out : Outside) (ticker id : String) :
    id ∈ (w.step (.spotCancel out)).trader.state.recordedIds ticker ↔
      w.trader.isSpotBound ticker = false ∧ id ∈ w.trader.state.recordedIds ticker := by
  rw [World.step, World.settleCalls, recordedIds_cancelSpotBoundQuotes]
  split_ifs with bound
  · simp [bound]
  · simp [Bool.eq_false_iff.mpr bound]

theorem tracked_spotCancel {w : World} (tracked : Tracked w) (out : Outside) :
    Tracked (w.step (.spotCancel out)) := by
  obtain ⟨issued, rests⟩ := exchange_spotCancel w out
  exact
    { resting := fun id order found => by
        rw [issued]
        exact tracked.resting id order ((rests id order).mp found).1
      recorded := fun ticker id recorded => by
        rw [issued]
        exact tracked.recorded ticker id ((mem_recordedIds_spotCancel w out ticker id).mp recorded).2
      owner := fun ticker id order recorded found =>
        tracked.owner ticker id order ((mem_recordedIds_spotCancel w out ticker id).mp recorded).2
          ((rests id order).mp found).1 }

/-- A spot-gate cancel orphans nothing exactly when the orders it takes are gone or cancelled. -/
theorem orphanFree_spotCancel_iff {w : World} (tracked : Tracked w) (known : OrphanFree w)
    (out : Outside) : OrphanFree (w.step (.spotCancel out)) ↔ DropsDead w (.spotCancel out) := by
  obtain ⟨_, rests⟩ := exchange_spotCancel w out
  simp only [DropsDead]
  constructor
  · intro after id taken stillRests
    obtain ⟨ticker, bound, recorded⟩ := (mem_cancelledIds out).mp taken
    obtain ⟨order, found⟩ := Finmap.mem_iff.mp stillRests
    by_contra survives
    -- its market is spot-bound, so nothing is on record for it afterwards
    have listed := after id order
      ((rests id order).mpr ⟨found, fun _ => Bool.eq_false_iff.mpr survives⟩)
    rw [mem_recordedIds_spotCancel, tracked.owner ticker id order recorded found, bound] at listed
    cases listed.1
  · intro dead id order found
    obtain ⟨old, survives⟩ := (rests id order).mp found
    have recorded := known id order old
    refine (mem_recordedIds_spotCancel w out _ id).mpr ⟨Bool.eq_false_iff.mpr fun bound => ?_, recorded⟩
    have gone := dead id ((mem_cancelledIds out).mpr ⟨_, bound, recorded⟩) (Finmap.mem_iff.mpr ⟨order, old⟩)
    rw [survives ⟨_, bound, recorded⟩] at gone
    cases gone

/-! ## Bookings -/

theorem tracked_deliver {w : World} (tracked : Tracked w) (out : Outside) (raw : Value) :
    Tracked (w.step (.deliver out raw)) := by
  have fewer (ticker id : String)
      (recorded : id ∈ (w.trader.processFill out raw).state.recordedIds ticker) :
      id ∈ w.trader.state.recordedIds ticker :=
    ((bookkeeping_processFill out raw w.trader).quiet.ids ticker).subset recorded
  exact
    { resting := tracked.resting
      recorded := fun ticker id recorded => tracked.recorded ticker id (fewer ticker id recorded)
      owner := fun ticker id order recorded =>
        tracked.owner ticker id order (fewer ticker id recorded) }

/-- A booking orphans nothing exactly when the order it releases no longer rests. -/
theorem orphanFree_deliver_iff {w : World} (tracked : Tracked w) (known : OrphanFree w)
    (out : Outside) (raw : Value) :
    OrphanFree (w.step (.deliver out raw)) ↔ DropsDead w (.deliver out raw) := by
  simp only [DropsDead]
  unfold OrphanFree World.step
  dsimp only
  have ends := processFill_outcome out raw w.trader
  -- the outcome is all that matters of the booking: `filled` drops the id the fill names, and no other
  generalize w.trader.processFill out raw = tr' at ends
  cases ends with
  | ignored stale => exact iff_of_true known fun nf normal fresh => absurd (stale nf normal) fresh
  | booked nf normal fresh _ written =>
    constructor
    · rintro after nf' normal' _ id released recorded stillRests
      rw [normal] at normal'
      cases normal'
      obtain ⟨order, found⟩ := Finmap.mem_iff.mp stillRests
      have listed := (mem_recordedIds_filled written _ id).mp (after id order found)
      exact listed.2 ⟨tracked.owner nf.ticker id order recorded found, released⟩
    · intro dead id order found
      have recorded := known id order found
      refine (mem_recordedIds_filled written _ id).mpr ⟨recorded, ?_⟩
      rintro ⟨same, released⟩
      exact dead nf normal fresh id released (same ▸ recorded) (Finmap.mem_iff.mpr ⟨order, found⟩)

/-! ## Runs -/

theorem tracked_step {w : World} {event : DeskEvent} (tracked : Tracked w)
    (answered : Answered w event) : Tracked (w.step event) := by
  cases event with
  | data ticker category book tick =>
    exact
      { resting := tracked.resting
        recorded := fun other id recorded => by
          rw [recordedIds_data] at recorded
          exact tracked.recorded other id recorded
        owner := fun other id order recorded => by
          rw [recordedIds_data] at recorded
          exact tracked.owner other id order recorded }
  | quote out category ticker action fvShift allow => exact tracked_quote allow tracked answered
  | spotCancel out => exact tracked_spotCancel tracked out
  | execute nf =>
    exact
      { resting := fun id order found => by
          obtain ⟨before, rested, _⟩ := lookup_execute found
          rw [World.step, issued_execute]
          exact tracked.resting id before rested
        recorded := fun ticker id recorded => by
          rw [World.step, issued_execute]
          exact tracked.recorded ticker id recorded
        owner := fun ticker id order recorded found => by
          obtain ⟨before, rested, same, _⟩ := lookup_execute found
          exact same.trans (tracked.owner ticker id before recorded rested) }
  | deliver out raw => exact tracked_deliver tracked out raw

/-- A step keeps every resting order known exactly when what it drops is dead. -/
theorem orphanFree_step_iff {w : World} {event : DeskEvent} (tracked : Tracked w)
    (answered : Answered w event) (known : OrphanFree w) :
    OrphanFree (w.step event) ↔ DropsDead w event := by
  cases event with
  | data ticker category book tick =>
    refine iff_of_true (fun id order found => ?_) trivial
    rw [recordedIds_data]
    exact known id order found
  | quote out category ticker action fvShift allow =>
    exact orphanFree_quote_iff allow tracked answered known
  | spotCancel out => exact orphanFree_spotCancel_iff tracked known out
  | execute nf =>
    refine iff_of_true (fun id order found => ?_) trivial
    -- an execution touches the exchange alone; the order it leaves has the id it had
    obtain ⟨before, rested, same, _⟩ := lookup_execute found
    rw [same]
    exact known id before rested
  | deliver out raw => exact orphanFree_deliver_iff tracked known out raw

/-- In every run from a desk without orders, every resting order is recorded in every state
    exactly when every step drops dead orders only. -/
theorem orphanFree_throughout_iff {w : World} {events : List DeskEvent}
    (idle : ∀ ticker, w.trader.state.recordedIds ticker = []) (empty : w.exchange.resting = ∅)
    (answered : Along World.step Answered w events) :
    Throughout World.step OrphanFree w events ↔ Along World.step DropsDead w events := by
  have nothing (id : String) (order : RestingOrder) :
      w.exchange.resting.lookup id ≠ some order := by
    rw [empty, Finmap.lookup_empty]
    exact nofun
  have starts : Tracked w :=
    { resting := fun id order found => absurd found (nothing id order)
      recorded := fun ticker id recorded => by
        rw [idle] at recorded
        cases recorded
      owner := fun _ id order _ found => absurd found (nothing id order) }
  exact throughout_iff_along (fun _ _ => tracked_step) (fun _ _ => orphanFree_step_iff) starts
    (fun id order found => absurd found (nothing id order)) answered

/-! ## A partial fill -/

def bidFill (size : ℤ) : NormalizedFill := makerFill "f1" "b1" "KXBTCD-1" true size (42 / 100)

theorem answered_quotes (nf : NormalizedFill) :
    Along World.step Answered desk (quotes ++ fills nf) :=
  ⟨trivial, issues_answering (by decide) (by decide) (by decide), trivial, trivial, trivial⟩

theorem orphanFree_full_fill :
    Throughout World.step OrphanFree desk (quotes ++ fills (bidFill 2)) :=
  (orphanFree_throughout_iff (fun _ => rfl) rfl (answered_quotes _)).mpr (by decide +kernel)

/-- One contract of the bid fills: the bid rests with the other, and no market records it. -/
theorem partial_fill_orphans :
    let w := run World.step desk (quotes ++ fills (bidFill 1))
    Along World.step Answered desk (quotes ++ fills (bidFill 1)) ∧ ¬ OrphanFree w ∧
      w.exchange.resting.lookup "b1" =
        some { ticker := "KXBTCD-1", side := .buy, remaining := 1 } ∧
      w.trader.state.recordedIds "KXBTCD-1" = ["a1"] := by
  intro w
  have rests : w.exchange.resting.lookup "b1" =
      some { ticker := "KXBTCD-1", side := .buy, remaining := 1 } := by decide +kernel
  have recorded : w.trader.state.recordedIds "KXBTCD-1" = ["a1"] := by decide +kernel
  refine ⟨answered_quotes _, fun known => ?_, rests, recorded⟩
  have listed := known "b1" _ rests
  rw [recorded] at listed
  simp at listed

end KalshiMm.Verified.Orphans
