import KalshiMm.Verified.Bookings
import KalshiMm.Verified.ExitSpacing

/-!
# Passes of the exit timer

What one call of `checkExits` does for one market: nothing for a flat one but to drop its retry
entry, and otherwise at most one exit order, sent exactly if an exit is ready and the market's
retry entry does not hold it off.
-/

namespace KalshiMm.Verified.ExitPasses

open KalshiMm.Lib KalshiMm.Model ExitSpacing

/-- An exit of the market is due in an open market, and no unwind holds it off. -/
def exitReady (out : Outside) (ticker : String) (tr : Trader) : Bool :=
  !heldUntil (tr.spotUnwindFiredUntil.lookup ticker) out.mono &&
    (tr.state.tickers.lookup ticker).any fun ts =>
      (exitDecision ts out.epoch).isSome && !marketClosed ts out.epoch

/-- The pass sends an exit order for the market. -/
def sendsExit (out : Outside) (ticker : String) (tr : Trader) : Bool :=
  (tr.checkExits out).calls.any (isExit ticker)

/-- The retry entry that would hold the market's next exit off. -/
def nextRetry (ticker : String) (tr : Trader) : ExitRetry :=
  tr.retryFor ticker (tr.positionOf ticker)

def retryOff (out : Outside) (ticker : String) (tr : Trader) : Bool :=
  heldUntil (nextRetry ticker tr).nextAllowedMono out.mono

/-- The retry entry a sent exit leaves. -/
def sentRetry (out : Outside) (ticker : String) (tr : Trader) : ExitRetry :=
  { attempts := (nextRetry ticker tr).attempts + 1
    positionAtAttempt := tr.positionOf ticker
    nextAllowedMono := some (out.mono + exitRetryDelayS ((nextRetry ticker tr).attempts + 1)) }

/-! ## One visit -/

/-- Nothing but retry entries differs. -/
def OnlyRetries (tr tr' : Trader) : Prop := ∃ exitRetries, tr' = { tr with exitRetries }

theorem OnlyRetries.trans {a b c : Trader} (first : OnlyRetries a b) (second : OnlyRetries b c) :
    OnlyRetries a c := by
  obtain ⟨_, rfl⟩ := first
  obtain ⟨_, rfl⟩ := second
  exact ⟨_, rfl⟩

/-- What a visit does to the retry entry of one market and to its exits. -/
inductive Visited (out : Outside) (ticker : String) (tr : Trader) : Outcome → Prop where
  | quiet {outcome : Outcome}
      (only : OnlyRetries tr outcome.trader)
      (kept : outcome.trader.exitRetries.lookup ticker = tr.exitRetries.lookup ticker)
      (silent : outcome.calls.filter (isExit ticker) = []) : Visited out ticker tr outcome
  | sent {outcome : Outcome} {call : OrderCall}
      (only : OnlyRetries tr outcome.trader)
      (entered : outcome.trader.exitRetries.lookup ticker = some (sentRetry out ticker tr))
      (one : outcome.calls.filter (isExit ticker) = [call]) : Visited out ticker tr outcome

theorem filter_applyExitPlan (api : OrderApi) (ticker : String) (plan : ExitPlan) :
    ∃ call, (applyExitPlan api ticker plan).filter (isExit ticker) = [call] :=
  ⟨_, by simp [applyExitPlan, sendOrder, exitRequest, isExit]; rfl⟩

theorem filter_of_forall {ticker : String} {calls : List OrderCall}
    (none : ∀ call ∈ calls, isExit ticker call = false) : calls.filter (isExit ticker) = [] := by
  simp only [List.filter_eq_nil_iff, Bool.not_eq_true]
  exact none

theorem any_of_filter {ticker : String} {calls : List OrderCall}
    (silent : calls.filter (isExit ticker) = []) : calls.any (isExit ticker) = false := by
  rw [List.any_eq_false]
  exact List.filter_eq_nil_iff.mp silent

theorem any_of_filter_single {ticker : String} {calls : List OrderCall} {call : OrderCall}
    (one : calls.filter (isExit ticker) = [call]) : calls.any (isExit ticker) = true :=
  List.any_eq_true.mpr ⟨call, List.mem_filter.mp (one ▸ List.mem_singleton_self call)⟩

/-- Only an entry on record can hold an exit off. -/
theorem lookup_of_retryFor {tr : Trader} {ticker : String} {position : ℤ} {mono : ℚ}
    (holds : heldUntil (tr.retryFor ticker position).nextAllowedMono mono = true) :
    tr.exitRetries.lookup ticker = some (tr.retryFor ticker position) := by
  unfold Trader.retryFor at holds ⊢
  split at holds
  next retry found =>
    split_ifs at holds with moved
    · cases holds
    · rw [found, if_neg moved]
  next => cases holds

/-- The two traders differ in retry entries of other markets only. -/
def Aside (ticker : String) (tr tr' : Trader) : Prop :=
  OnlyRetries tr tr' ∧ tr'.exitRetries.lookup ticker = tr.exitRetries.lookup ticker

namespace Aside

variable {ticker : String} {tr tr' : Trader}

theorem refl (ticker : String) (tr : Trader) : Aside ticker tr tr := ⟨⟨_, rfl⟩, rfl⟩

theorem trans {a b c : Trader} (first : Aside ticker a b) (second : Aside ticker b c) :
    Aside ticker a c := ⟨first.1.trans second.1, second.2.trans first.2⟩

theorem exitReady (aside : Aside ticker tr tr') (out : Outside) :
    exitReady out ticker tr' = exitReady out ticker tr := by
  obtain ⟨⟨_, rfl⟩, _⟩ := aside
  rfl

theorem positionOf (aside : Aside ticker tr tr') (other : String) :
    tr'.positionOf other = tr.positionOf other := by
  obtain ⟨⟨_, rfl⟩, _⟩ := aside
  rfl

theorem nextRetry (aside : Aside ticker tr tr') : nextRetry ticker tr' = nextRetry ticker tr := by
  rw [ExitPasses.nextRetry, ExitPasses.nextRetry, aside.positionOf, Trader.retryFor, aside.2]
  rfl

end Aside

theorem Visited.of_aside {out : Outside} {ticker : String} {tr tr' : Trader} {outcome : Outcome}
    (visited : Visited out ticker tr' outcome) (aside : Aside ticker tr tr') :
    Visited out ticker tr outcome := by
  have next := aside.nextRetry
  have position := aside.positionOf ticker
  cases visited with
  | quiet only kept silent => exact .quiet (aside.1.trans only) (kept.trans aside.2) silent
  | sent only entered one =>
    rw [sentRetry, next, position] at entered
    exact .sent (aside.1.trans only) entered one

theorem visitExit_elsewhere {ticker visited : String} (other : visited ≠ ticker) (out : Outside)
    (tr : Trader) : Aside ticker tr (tr.visitExit out visited).trader ∧
      (tr.visitExit out visited).calls.filter (isExit ticker) = [] := by
  have retried (retry : ExitRetry) :
      (tr.exitRetries.insert visited retry).lookup ticker = tr.exitRetries.lookup ticker :=
    Finmap.lookup_insert_of_ne _ other.symm
  unfold Trader.visitExit
  split_ifs
  · exact ⟨.refl ticker tr, rfl⟩
  · split
    · exact ⟨.refl ticker tr, rfl⟩
    · split
      · exact ⟨.refl ticker tr, rfl⟩
      · dsimp only
        split_ifs
        · exact ⟨.refl ticker tr, rfl⟩
        · exact ⟨⟨⟨_, rfl⟩, retried _⟩, rfl⟩
        · exact ⟨⟨⟨_, rfl⟩, retried _⟩, filter_of_forall (isExit_applyExitPlan other _ _)⟩

/-- A visit of the market itself sends exactly if an exit is ready and not held off. -/
theorem visitExit_here (out : Outside) (ticker : String) (tr : Trader) :
    Visited out ticker tr (tr.visitExit out ticker) ∧
      ((tr.visitExit out ticker).calls.any (isExit ticker) =
        (exitReady out ticker tr && !retryOff out ticker tr)) := by
  unfold Trader.visitExit exitReady
  split_ifs with fired
  · exact ⟨.quiet ⟨_, rfl⟩ rfl rfl, by simp [fired]⟩
  · cases known : tr.state.tickers.lookup ticker with
    | none => exact ⟨.quiet ⟨_, rfl⟩ rfl rfl, by simp⟩
    | some ts =>
      have position : tr.retryFor ticker ts.position = nextRetry ticker tr := by
        rw [nextRetry, positionOf_of_lookup known]
      dsimp only
      cases due : exitDecision ts out.epoch with
      | none => exact ⟨.quiet ⟨_, rfl⟩ rfl rfl, by simp [due]⟩
      | some plan =>
        dsimp only
        rw [position]
        split_ifs with closed waits
        · exact ⟨.quiet ⟨_, rfl⟩ rfl rfl, by simp [closed]⟩
        · refine ⟨.quiet ⟨_, rfl⟩ ?_ rfl, by simp [retryOff, waits]⟩
          rw [Finmap.lookup_insert]
          exact (lookup_of_retryFor waits).symm
        · obtain ⟨call, one⟩ := filter_applyExitPlan out.api.toOrderApi ticker plan
          refine ⟨.sent ⟨_, rfl⟩ ?_ one, ?_⟩
          · rw [Finmap.lookup_insert, sentRetry, positionOf_of_lookup known]
          · simp [fired, due, closed, retryOff, waits, any_of_filter_single one]

/-! ## One pass -/

theorem visitAll_elsewhere {ticker : String} (out : Outside) {tickers : List String}
    (absent : ticker ∉ tickers) (tr : Trader) :
    Aside ticker tr (visitAll (Trader.visitExit out) tickers tr).trader ∧
      (visitAll (Trader.visitExit out) tickers tr).calls.filter (isExit ticker) = [] := by
  induction tickers generalizing tr with
  | nil => exact ⟨.refl ticker tr, rfl⟩
  | cons visited tickers inductionHypothesis =>
    obtain ⟨other, absent⟩ := not_or.mp (mt List.mem_cons.mpr absent)
    obtain ⟨aside, silent⟩ := visitExit_elsewhere (Ne.symm other) out tr
    obtain ⟨later, rest⟩ := inductionHypothesis absent (tr.visitExit out visited).trader
    refine ⟨aside.trans later, ?_⟩
    rw [visitAll, Outcome.andThen, List.filter_append, silent, rest, List.nil_append]

/-- A walk that meets a market once does for it what its visit does. -/
theorem visitAll_here (out : Outside) {ticker : String} {tickers : List String}
    (nodup : tickers.Nodup) (member : ticker ∈ tickers) (tr : Trader) :
    Visited out ticker tr (visitAll (Trader.visitExit out) tickers tr) ∧
      ((visitAll (Trader.visitExit out) tickers tr).calls.any (isExit ticker) =
        (exitReady out ticker tr && !retryOff out ticker tr)) := by
  induction tickers generalizing tr with
  | nil => cases member
  | cons visited tickers inductionHypothesis =>
    obtain ⟨fresh, nodup⟩ := List.nodup_cons.mp nodup
    rw [visitAll, Outcome.andThen]
    by_cases same : visited = ticker
    · subst same
      obtain ⟨here, sends⟩ := visitExit_here out visited tr
      obtain ⟨⟨later, kept⟩, silent⟩ :=
        visitAll_elsewhere out fresh (tr.visitExit out visited).trader
      refine ⟨?_, by rw [List.any_append, sends, any_of_filter silent, Bool.or_false]⟩
      cases here with
      | quiet only kept' quiet =>
        exact .quiet (only.trans later) (kept.trans kept')
          (by rw [List.filter_append, quiet, silent, List.nil_append])
      | sent only entered one =>
        exact .sent (only.trans later) (kept.trans entered)
          (by rw [List.filter_append, one, silent, List.append_nil])
    · have later := (List.mem_cons.mp member).resolve_left (Ne.symm same)
      obtain ⟨aside, silent⟩ := visitExit_elsewhere same out tr
      obtain ⟨rest, sends⟩ := inductionHypothesis nodup later (tr.visitExit out visited).trader
      refine ⟨?_, ?_⟩
      · cases rest.of_aside aside with
        | quiet only kept quiet =>
          exact .quiet only kept (by rw [List.filter_append, silent, quiet, List.nil_append])
        | sent only entered one =>
          exact .sent only entered (by rw [List.filter_append, silent, one, List.nil_append])
      · rw [List.any_append, any_of_filter silent, sends, aside.exitReady, retryOff,
          aside.nextRetry, Bool.false_or]
        rfl

theorem not_ready_of_flat {out : Outside} {ticker : String} {tr : Trader}
    (flat : tr.positionOf ticker = 0) : exitReady out ticker tr = false := by
  unfold exitReady
  cases known : tr.state.tickers.lookup ticker with
  | none => simp
  | some ts =>
    rw [positionOf_of_lookup known] at flat
    simp [exitDecision, flat]

/-- A pass over a flat market drops its retry entry and sends nothing. -/
theorem checkExits_of_flat (out : Outside) {ticker : String} {tr : Trader}
    (flat : tr.positionOf ticker = 0) :
    (tr.checkExits out).trader.exitRetries.lookup ticker = none ∧
      (tr.checkExits out).calls.filter (isExit ticker) = [] := by
  have absent : ticker ∉ tr.heldTickers out := by
    simp [Trader.heldTickers, flat]
  obtain ⟨⟨_, kept⟩, silent⟩ := visitAll_elsewhere out absent
    { tr with exitRetries := Dict.retain (fun ticker => tr.positionOf ticker ≠ 0) tr.exitRetries }
  refine ⟨kept.trans ?_, silent⟩
  rw [Dict.lookup_retain]
  simp [flat]

/-- A pass over a held market is a visit of it. -/
theorem checkExits_of_held (out : Outside) {ticker : String} {tr : Trader}
    (held : tr.positionOf ticker ≠ 0) : Visited out ticker tr (tr.checkExits out) ∧
      sendsExit out ticker tr = (exitReady out ticker tr && !retryOff out ticker tr) := by
  have listed : ticker ∈ tr.heldTickers out := by
    refine List.mem_filter.mpr ⟨(out.hash.mem _ _).mpr (Finmap.mem_keys.mpr ?_), by simpa using held⟩
    by_contra absent
    rw [Trader.positionOf, Finmap.lookup_eq_none.mpr absent] at held
    exact held rfl
  have nodup : (tr.heldTickers out).Nodup := (out.hash.nodup _).filter _
  have aside : Aside ticker tr
      { tr with exitRetries := Dict.retain (fun ticker => tr.positionOf ticker ≠ 0) tr.exitRetries } := by
    refine ⟨⟨_, rfl⟩, ?_⟩
    rw [Dict.lookup_retain]
    cases tr.exitRetries.lookup ticker with
    | none => simp
    | some retry => simp [held]
  obtain ⟨visited, sends⟩ := visitAll_here out nodup listed _
  refine ⟨visited.of_aside aside, sends.trans ?_⟩
  rw [aside.exitReady, retryOff, aside.nextRetry]
  rfl

theorem sendsExit_eq (out : Outside) (ticker : String) (tr : Trader) :
    sendsExit out ticker tr = (exitReady out ticker tr && !retryOff out ticker tr) := by
  by_cases flat : tr.positionOf ticker = 0
  · rw [not_ready_of_flat flat, Bool.false_and]
    exact any_of_filter (checkExits_of_flat out flat).2
  · exact (checkExits_of_held out flat).2

theorem exitRetries_pass (out : Outside) (ticker : String) (tr : Trader) :
    (tr.checkExits out).trader.exitRetries.lookup ticker =
      if tr.positionOf ticker = 0 then none
      else if sendsExit out ticker tr then some (sentRetry out ticker tr)
      else tr.exitRetries.lookup ticker := by
  split_ifs with flat sends
  · exact (checkExits_of_flat out flat).1
  · cases (checkExits_of_held out flat).1 with
    | quiet _ _ silent =>
      rw [sendsExit, any_of_filter silent] at sends
      cases sends
    | sent _ entered _ => exact entered
  · cases (checkExits_of_held out flat).1 with
    | quiet _ kept _ => exact kept
    | sent _ _ one => exact absurd (any_of_filter_single one) sends

/-- A pass sends at most one exit order for a market. -/
theorem exits_pass (out : Outside) (ticker : String) (tr : Trader) :
    ((tr.checkExits out).calls.filter (isExit ticker)).length =
      (sendsExit out ticker tr).toNat := by
  by_cases flat : tr.positionOf ticker = 0
  · rw [(checkExits_of_flat out flat).2, sendsExit, any_of_filter (checkExits_of_flat out flat).2]
    rfl
  · cases (checkExits_of_held out flat).1 with
    | quiet _ _ silent =>
      rw [silent, sendsExit, any_of_filter silent]
      rfl
    | sent _ _ one =>
      rw [one, sendsExit, any_of_filter_single one]
      rfl

theorem position_of_sends {out : Outside} {ticker : String} {tr : Trader}
    (sends : sendsExit out ticker tr = true) : tr.positionOf ticker ≠ 0 := by
  intro flat
  rw [sendsExit_eq, not_ready_of_flat flat] at sends
  cases sends

/-! ## Runs -/

/-- What befalls the exits of an account: a report of a fill, a pass of the timer, and whatever
    else leaves another trader with the retry entries it found. -/
inductive ExitEvent where
  | fill (out : Outside) (raw : Value)
  | pass (out : Outside)
  | other (tr : Trader)

def exitStep (tr : Trader) : ExitEvent → Trader
  | .fill out raw => tr.processFill out raw
  | .pass out => (tr.checkExits out).trader
  | .other tr' => { tr' with exitRetries := tr.exitRetries }

theorem exitRetries_processFill (out : Outside) (raw : Value) (tr : Trader) :
    (tr.processFill out raw).exitRetries = tr.exitRetries := by
  have ends := processFill_outcome out raw tr
  generalize tr.processFill out raw = tr' at ends
  cases ends with
  | ignored _ => rfl
  | booked _ _ _ only _ =>
    obtain ⟨_, rfl⟩ := only
    rfl

/-! ## A market to exit from -/

/-- Five contracts in a market that closes at a hundred seconds, with a bid to sell into. -/
def heldFive : Trader :=
  { Trader.start (marketCfg none) 0 with
    state := (TraderState.new 0).setTicker "KXBTCD-25JUL2417-T100"
      { category := "KXBTCD", position := 5, closeTimeS := some 100
        book := { yes := Finmap.insert 440 10 ∅ } } }

def clockAt (mono : ℚ) : Outside := listing [] mono

end KalshiMm.Verified.ExitPasses
