import Mathlib.Algebra.BigOperators.Group.Finset.Piecewise
import KalshiMm.Verified.DeskSteps

/-!
# The order budget

A plan adds at most two orders, and a market that never quoted plans only below the cap, so the
count stays within one of the cap as long as every plan made at the cap only refreshes what the
market has.  A market that has quoted before is exempt from the cap, also after it lost its
orders: what such markets push onto the book is what the count can exceed the cap by.
-/

namespace KalshiMm.Verified.OrderBudget

open KalshiMm.Lib KalshiMm.Model

def hasQuoted (s : TraderState) (ticker : String) : Bool :=
  (s.tickers.lookup ticker).any TickerState.everQuoted

/-- The markets that have made use of the exemption: a plan executed at the cap or over it, for a
    market that had quoted before, left more orders than the market had.  A plan executed below the
    cap clears its market again. -/
def pushedAfter (w : World) (pushed : Finset String) : DeskEvent → Finset String
  | .quote out category ticker action fvShift allow =>
    if (planOf out category ticker action fvShift w.trader).isNone then pushed
    else if w.trader.state.openOrderCount < w.trader.cfg.mm.maxOpenOrders then pushed.erase ticker
    else if hasQuoted w.trader.state ticker ∧ (w.trader.state.recordedIds ticker).length <
        ((w.step (.quote out category ticker action fvShift
          allow)).trader.state.recordedIds ticker).length then insert ticker pushed
    else pushed
  | _ => pushed

def pushed (w : World) (events : List DeskEvent) : Finset String :=
  (run (withGhost World.step pushedAfter) (w, ∅) events).2

def budgeted (s : TraderState) (pushed : Finset String) : ℕ :=
  Dict.sumOf (fun ticker ts => if ticker ∈ pushed then 0 else ts.orderCount) s.tickers

/-! ## Counting -/

theorem share_eq (s : TraderState) (pushed : Finset String) (ticker : String) :
    ((s.tickers.lookup ticker).elim 0 fun ts => if ticker ∈ pushed then 0 else ts.orderCount) =
      if ticker ∈ pushed then 0 else (s.recordedIds ticker).length := by
  unfold TraderState.recordedIds
  cases s.tickers.lookup ticker with
  | none => simp
  | some ts => rfl

theorem count_eq (s : TraderState) (ticker : String) :
    ((s.tickers.lookup ticker).elim 0 fun ts => ts.orderCount) = (s.recordedIds ticker).length := by
  unfold TraderState.recordedIds
  cases s.tickers.lookup ticker with
  | none => rfl
  | some ts => rfl

/-- Where no market that counts has gained an id, and none has come to count, the budgeted orders
    have not grown. -/
theorem budgeted_le {s s' : TraderState} {pushed pushed' : Finset String}
    (more : pushed ⊆ pushed')
    (fewer : ∀ ticker, ticker ∉ pushed' →
      (s'.recordedIds ticker).length ≤ (s.recordedIds ticker).length) :
    budgeted s' pushed' ≤ budgeted s pushed := by
  refine Dict.sumOf_le_of_share fun ticker => ?_
  rw [share_eq s' pushed', share_eq s pushed]
  by_cases counts : ticker ∈ pushed'
  · rw [if_pos counts]
    exact Nat.zero_le _
  · rw [if_neg counts, if_neg fun before => counts (more before)]
    exact fewer ticker counts

theorem length_recordedIds_le (s : TraderState) (ticker : String) :
    (s.recordedIds ticker).length ≤ 2 := by
  rw [recordedIds_eq s ticker "", TickerState.orderIds, List.length_append]
  exact Nat.add_le_add Option.length_toList_le Option.length_toList_le

theorem openOrderCount_le (s : TraderState) (pushed : Finset String) :
    s.openOrderCount ≤ budgeted s pushed + 2 * pushed.card := by
  have covered : s.tickers.keys ⊆ s.tickers.keys ∪ pushed := Finset.subset_union_left
  -- both counts as sums over the same keys: the known markets and the pushed ones
  have extra : ∑ ticker ∈ s.tickers.keys ∪ pushed, (if ticker ∈ pushed then 2 else 0) =
      2 * pushed.card := by
    rw [Finset.sum_ite_mem, Finset.union_inter_cancel_right, Finset.sum_const_nat fun _ _ => rfl,
      mul_comm]
  rw [TraderState.openOrderCount, budgeted, Dict.sumOf_eq_sum _ covered, Dict.sumOf_eq_sum _ covered,
    ← extra, ← Finset.sum_add_distrib]
  refine Finset.sum_le_sum fun ticker _ => ?_
  have two := length_recordedIds_le s ticker
  rw [share_eq s pushed, count_eq]
  split_ifs
  · omega
  · omega

/-- A market that is rewritten counts with at most two orders, the others as before. -/
theorem budgeted_le_of_insert {s s' : TraderState} {ticker : String} {ts : TickerState}
    (written : s'.tickers = s.tickers.insert ticker ts) (pushed : Finset String) :
    budgeted s' pushed ≤ 2 + s.openOrderCount := by
  have two : ts.orderCount ≤ 2 := by
    rw [TickerState.orderCount, TickerState.orderIds, List.length_append]
    exact Nat.add_le_add Option.length_toList_le Option.length_toList_le
  rw [budgeted, written, Dict.sumOf_insert, TraderState.openOrderCount]
  refine Nat.add_le_add ?_ (Dict.sumOf_le_of_share fun other => ?_)
  · split_ifs
    · exact Nat.zero_le _
    · exact two
  · cases rest : (s.tickers.erase ticker).lookup other with
    | none => exact Nat.zero_le _
    | some ts =>
      rw [Dict.lookup_of_lookup_erase rest, Option.elim_some, Option.elim_some]
      split_ifs
      · exact Nat.zero_le _
      · exact le_rfl

/-! ## Steps -/

/-- The budgeted orders are within one of the cap. -/
def WithinBudget (s : World × Finset String) : Prop :=
  budgeted s.1.trader.state s.2 ≤ s.1.trader.cfg.mm.maxOpenOrders + 1

theorem hasQuoted_of_tickerD {s : TraderState} {ticker category : String}
    (quoted : (s.tickerD ticker category).everQuoted = true) : hasQuoted s ticker = true := by
  unfold TraderState.tickerD at quoted
  unfold hasQuoted
  cases known : s.tickers.lookup ticker with
  | none => rw [known] at quoted; cases quoted
  | some ts => rw [known] at quoted; exact quoted

/-- A quote cycle keeps the budget: below the cap by room for two, at the cap by the exemption. -/
theorem withinBudget_quote {w : World} {pushed : Finset String} {out : Outside}
    {category ticker : String} {action : Action} {fvShift : ℚ} (allow : Bool × Bool)
    (within : WithinBudget (w, pushed)) :
    WithinBudget (withGhost World.step pushedAfter (w, pushed)
      (.quote out category ticker action fvShift allow)) := by
  unfold WithinBudget withGhost
  dsimp only
  rw [(params_step w _).1, pushedAfter]
  cases planned : planOf out category ticker action fvShift w.trader with
  | none =>
    obtain ⟨_, ids⟩ := unplanned_quote allow planned
    have fewer (other : String) (_ : other ∉ pushed) : ((w.step (.quote out category ticker action
        fvShift allow)).trader.state.recordedIds other).length ≤
        (w.trader.state.recordedIds other).length := by rw [ids]
    exact (budgeted_le (Finset.Subset.refl _) fewer).trans within
  | some plan =>
    have elsewhere {other : String} (differs : other ≠ ticker) :
        ((w.step (.quote out category ticker action fvShift
          allow)).trader.state.recordedIds other).length =
          (w.trader.state.recordedIds other).length := by
      rw [recordedIds_quote allow planned, if_neg differs]
    rw [Option.isNone_some, if_neg Bool.false_ne_true]
    -- below the cap the market counts again, with two at most; at the cap it is exempt, and either
    -- gains orders, which makes it pushed, or does not
    split_ifs with below pushes
    · obtain ⟨_, _, ts, executed, tickers, _⟩ := quoteCycle_of_some allow planned
      have written : (w.step (.quote out category ticker action fvShift
          allow)).trader.state.tickers = w.trader.state.tickers.insert ticker ts := by
        rw [World.step, World.settleCalls, executed]
        exact tickers
      have two := budgeted_le_of_insert written (pushed.erase ticker)
      omega
    · refine (budgeted_le (Finset.subset_insert ticker pushed) fun other counts => ?_).trans within
      have differs : other ≠ ticker := fun same => counts (same ▸ Finset.mem_insert_self _ _)
      exact (elsewhere differs).le
    · refine (budgeted_le (Finset.Subset.refl _) fun other _ => ?_).trans within
      by_cases same : other = ticker
      · have exempt : hasQuoted w.trader.state ticker = true :=
          (planOf_budget planned).elim (fun within => absurd within below) hasQuoted_of_tickerD
        rw [same]
        exact Nat.le_of_not_lt fun grows => pushes ⟨exempt, grows⟩
      · exact (elsewhere same).le

theorem withinBudget_step (s : World × Finset String) (event : DeskEvent)
    (within : WithinBudget s) : WithinBudget (withGhost World.step pushedAfter s event) := by
  obtain ⟨w, pushed⟩ := s
  -- all but quote cycles leave the pushed markets as they are and add no order
  have fewer_of (fewer : ∀ ticker, ((w.step event).trader.state.recordedIds ticker).length ≤
      (w.trader.state.recordedIds ticker).length) :
      budgeted (w.step event).trader.state pushed ≤ (w.step event).trader.cfg.mm.maxOpenOrders + 1 := by
    rw [(params_step w event).1]
    exact (budgeted_le (Finset.Subset.refl _) fun ticker _ => fewer ticker).trans within
  cases event with
  | data name category book tick =>
    exact fewer_of fun ticker => by rw [recordedIds_data]
  | quote out category ticker action fvShift allow => exact withinBudget_quote allow within
  | spotCancel out =>
    exact fewer_of fun ticker =>
      ((bookkeeping_cancelSpotBoundQuotes out w.trader).quiet.ids ticker).length_le
  | execute nf => exact fewer_of fun _ => le_rfl
  | deliver out raw =>
    exact fewer_of fun ticker =>
      ((bookkeeping_processFill out raw w.trader).quiet.ids ticker).length_le

/-! ## Runs -/

/-- After every run from a desk without orders, the orders of the markets that have not pushed
    are within one of the cap, and those that have add at most two each. -/
theorem openOrderCount_bounded {w : World} (idle : ∀ ticker, w.trader.state.recordedIds ticker = [])
    (events : List DeskEvent) :
    let w' := run World.step w events
    budgeted w'.trader.state (pushed w events) ≤ w'.trader.cfg.mm.maxOpenOrders + 1 ∧
      w'.trader.state.openOrderCount ≤
        w'.trader.cfg.mm.maxOpenOrders + 1 + 2 * (pushed w events).card := by
  intro w'
  have starts : WithinBudget (w, ∅) := by
    have nothing : w.trader.state.openOrderCount ≤ 0 := by
      rw [← Dict.sumOf_empty (fun (_ : String) (ts : TickerState) => ts.orderCount)]
      refine Dict.sumOf_le_of_share fun ticker => ?_
      rw [count_eq, idle]
      exact le_rfl
    have none : budgeted w.trader.state ∅ ≤ w.trader.state.openOrderCount :=
      Dict.sumOf_le_sumOf fun ticker ts _ => by split_ifs <;> simp
    exact none.trans (nothing.trans (Nat.zero_le _))
  have ends : WithinBudget (run (withGhost World.step pushedAfter) (w, ∅) events) :=
    run_induct withinBudget_step starts
  have same : (run (withGhost World.step pushedAfter) (w, ∅) events).1 = w' :=
    run_withGhost_fst World.step pushedAfter (w, ∅) events
  unfold WithinBudget at ends
  rw [same] at ends
  have total := openOrderCount_le w'.trader.state (pushed w events)
  exact ⟨ends, by unfold pushed at total ⊢; omega⟩

/-! ## Two markets under a cap of one order -/

def budgetDesk : World where
  trader := Trader.start { deskCfg with mm := { quoteSize := 2, maxOpenOrders := 1 } } 0

/-- The first market quotes and both its orders fill; the second takes the slots; the first, which
    has quoted before, quotes again. -/
def slotsTaken : List DeskEvent :=
  quotes ++ fills (makerFill "f1" "b1" "KXBTCD-1" true 2 (42 / 100)) ++
    fills (makerFill "f2" "a1" "KXBTCD-1" false 2 (48 / 100)) ++
    [listed "KXBTCD-2", quoted "KXBTCD-2" (answering "b2" "a2" 11),
      quoted "KXBTCD-1" (answering "b3" "a3" 12)]

/-- Four orders are on record, over the cap by three. -/
theorem exempt_market_pushes :
    let w := run World.step budgetDesk slotsTaken
    w.trader.cfg.mm.maxOpenOrders = 1 ∧ w.trader.state.openOrderCount = 4 ∧
      pushed budgetDesk slotsTaken = {"KXBTCD-1"} := by
  intro w
  exact ⟨by decide +kernel, by decide +kernel, by decide +kernel⟩

theorem openOrderCount_bounded_slotsTaken :
    (run World.step budgetDesk slotsTaken).trader.state.openOrderCount ≤
      (run World.step budgetDesk slotsTaken).trader.cfg.mm.maxOpenOrders + 1 +
        2 * (pushed budgetDesk slotsTaken).card :=
  (openOrderCount_bounded (fun _ => rfl) slotsTaken).2

end KalshiMm.Verified.OrderBudget
