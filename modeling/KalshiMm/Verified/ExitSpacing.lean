import Mathlib.Tactic.Linarith
import Mathlib.Tactic.NormNum
import KalshiMm.Lib.Spacing
import KalshiMm.Verified.Handlers

/-!
# Spacing of exit orders

Exits of one market are watched in a log: a stamp for every crossing order sent, a reset for
every change of its booked position.  Both exit paths are covered by their own hold-off, and the
timer path by the other one's as well; the unwind path does not look at the timer's.  Where it
would not fire anyway while the timer's last exit is fresh, any two exits are ten seconds apart.
-/

namespace KalshiMm.Verified.ExitSpacing

open KalshiMm.Lib KalshiMm.Model

/-! ## The log of one market -/

def isExit (ticker : String) : OrderCall → Bool
  | .place request _ => request.ticker = ticker ∧ request.timeInForce = .immediateOrCancel
  | _ => false

def exitMarks (ticker : String) (mono : ℚ) (calls : List OrderCall) : List (Mark ℚ) :=
  (calls.filter (isExit ticker)).map fun _ => .stamp mono

def marks (env : Env) (ticker : String) (tr : Trader) (arrival : Arrival) : List (Mark ℚ) :=
  exitMarks ticker arrival.out.mono (tr.turn env arrival).calls ++
    if (tr.step env arrival).positionOf ticker = tr.positionOf ticker then [] else [.reset]

def exitLog (env : Env) (ticker : String) (tr : Trader) (arrivals : List Arrival) : List (Mark ℚ) :=
  outputs (Trader.step env) (marks env ticker) tr arrivals

theorem exitMarks_append (ticker : String) (mono : ℚ) (first second : List OrderCall) :
    exitMarks ticker mono (first ++ second) =
      exitMarks ticker mono first ++ exitMarks ticker mono second := by
  simp [exitMarks]

theorem exitMarks_of_forall {ticker : String} {mono : ℚ} {calls : List OrderCall}
    (none : ∀ call ∈ calls, isExit ticker call = false) : exitMarks ticker mono calls = [] := by
  simp only [exitMarks, List.map_eq_nil_iff, List.filter_eq_nil_iff, Bool.not_eq_true]
  exact none

/-! ## The condition -/

/-- The trader as `check_spot_unwind` starts within a turn of the loop, if the turn calls it. -/
def unwindStart (env : Env) (tr : Trader) (arrival : Arrival) : Option Trader :=
  if tr.running then
    match arrival.event with
    | .spot price =>
      let (spot, accepted) := tr.spot.onTick env.exp price arrival.out.mono
      if accepted then some (({ tr with spot } : Trader).updateSpotGate arrival.out).trader else none
    | _ => none
  else none

/-- The timer's last exit of the market was sent less than ten seconds ago, by its retry entry,
    and the position is the one it was sent for. -/
def FreshTimerExit (tr : Trader) (ticker : String) (nowMono : ℚ) : Prop :=
  ∃ retry ∈ tr.exitRetries.lookup ticker, retry.positionAtAttempt = tr.positionOf ticker ∧
    ∃ deadline ∈ retry.nextAllowedMono, nowMono < deadline - exitRetryDelayS retry.attempts + 10

/-- The unwind check would fire on the market. -/
def UnwindFires (tr : Trader) (ticker : String) (nowMono : ℚ) : Prop :=
  heldUntil (tr.spotUnwindNext.lookup ticker) nowMono = false ∧
    heldUntil (tr.spotUnwindFiredUntil.lookup ticker) nowMono = false ∧
    (tr.unwindPlan ticker).isSome = true

/-- The unwind path does not fire on the market while the timer's last exit of it is fresh. -/
def UnwindWaits (env : Env) (ticker : String) (tr : Trader) (arrival : Arrival) : Prop :=
  ∀ start ∈ unwindStart env tr arrival, FreshTimerExit start ticker arrival.out.mono →
    ¬ UnwindFires start ticker arrival.out.mono

instance (tr : Trader) (ticker : String) (nowMono : ℚ) : Decidable (FreshTimerExit tr ticker nowMono) :=
  inferInstanceAs (Decidable (∃ retry ∈ tr.exitRetries.lookup ticker,
    retry.positionAtAttempt = tr.positionOf ticker ∧ ∃ deadline ∈ retry.nextAllowedMono, _ < _))

instance (tr : Trader) (ticker : String) (nowMono : ℚ) : Decidable (UnwindFires tr ticker nowMono) :=
  inferInstanceAs (Decidable (_ ∧ _ ∧ _))

instance (env : Env) (ticker : String) (tr : Trader) (arrival : Arrival) :
    Decidable (UnwindWaits env ticker tr arrival) :=
  inferInstanceAs (Decidable (∀ start ∈ unwindStart env tr arrival, _ → ¬ _))

/-! ## Hold-offs that cover the last exit -/

/-- Ten seconds from the last exit are covered by a hold-off the next one will meet: the unwind's
    own, or the timer's retry entry for the position as it is. -/
def Covered (ticker : String) (tr : Trader) (last : Option ℚ) : Prop :=
  ∀ sent, last = some sent →
    (∃ deadline, tr.spotUnwindFiredUntil.lookup ticker = some deadline ∧ sent + 10 ≤ deadline) ∨
    (tr.positionOf ticker ≠ 0 ∧ ∃ attempts, attempts ≠ 0 ∧ tr.exitRetries.lookup ticker =
      some ⟨attempts, tr.positionOf ticker, some (sent + exitRetryDelayS attempts)⟩)

theorem exitRetryDelayS_ge {attempts : ℕ} (sent : attempts ≠ 0) : 10 ≤ exitRetryDelayS attempts := by
  unfold exitRetryDelayS exitRetryBaseS exitRetryMaxS
  rw [if_neg sent]
  have power : (1 : ℚ) ≤ 2 ^ (attempts - 1) := one_le_pow₀ (by norm_num)
  exact le_min (by linarith) (by norm_num)

/-- What a part of a turn does for the log: its exits are spaced, and the last one is covered. -/
structure Watched (ticker : String) (mono : ℚ) (last : Option ℚ) (outcome : Outcome) : Prop where
  spaced : Along Mark.watch (Mark.Respects 10) last (exitMarks ticker mono outcome.calls)
  covered : Covered ticker outcome.trader
    (run Mark.watch last (exitMarks ticker mono outcome.calls))

namespace Watched

variable {ticker : String} {mono : ℚ} {last : Option ℚ}

theorem andThen {first : Outcome} {next : Trader → Outcome} (watched : Watched ticker mono last first)
    (later : ∀ last', Covered ticker first.trader last' →
      Watched ticker mono last' (next first.trader)) :
    Watched ticker mono last (first.andThen next) := by
  obtain ⟨spaced, covered⟩ := later _ watched.covered
  constructor
  · rw [Outcome.andThen, exitMarks_append]
    exact along_append.mpr ⟨watched.spaced, spaced⟩
  · rw [Outcome.andThen, exitMarks_append, run_append]
    exact covered

theorem silent {outcome : Outcome} (none : ∀ call ∈ outcome.calls, isExit ticker call = false)
    (covered : Covered ticker outcome.trader last) : Watched ticker mono last outcome := by
  constructor
  · rw [exitMarks_of_forall none]
    trivial
  · rwa [exitMarks_of_forall none]

theorem idle {tr : Trader} (covered : Covered ticker tr last) : Watched ticker mono last ⟨tr, []⟩ :=
  silent (fun _ member => nomatch member) covered

theorem single {tr : Trader} {plan : ExitPlan} {api : OrderApi}
    (spaced : ∀ sent, last = some sent → sent + 10 ≤ mono) (covered : Covered ticker tr (some mono)) :
    Watched ticker mono last ⟨tr, applyExitPlan api ticker plan⟩ := by
  have one : exitMarks ticker mono (applyExitPlan api ticker plan) = [.stamp mono] := by
    simp [exitMarks, applyExitPlan, sendOrder, exitRequest, isExit]
  constructor
  · rw [one]
    refine ⟨fun earlier time remembered stamped => ?_, trivial⟩
    cases stamped
    exact spaced earlier remembered
  · rw [one]
    exact covered

end Watched

theorem Covered.congr {ticker : String} {tr tr' : Trader} {last : Option ℚ}
    (covered : Covered ticker tr last)
    (fired : tr'.spotUnwindFiredUntil.lookup ticker = tr.spotUnwindFiredUntil.lookup ticker)
    (position : tr'.positionOf ticker = tr.positionOf ticker)
    (retries : tr'.exitRetries.lookup ticker = tr.exitRetries.lookup ticker) :
    Covered ticker tr' last := by
  unfold Covered
  rw [fired, position, retries]
  exact covered

theorem Covered.none (ticker : String) (tr : Trader) : Covered ticker tr none :=
  fun _ remembered => nomatch remembered

theorem le_of_not_held {deadline mono : ℚ} (free : heldUntil (some deadline) mono = false) :
    deadline ≤ mono := by
  simpa [heldUntil] using free

theorem visitAll_watched {ticker : String} {mono : ℚ} {J : Trader → Prop}
    {visit : String → Trader → Outcome}
    (each : ∀ visited tr last, J tr → Covered ticker tr last →
      Watched ticker mono last (visit visited tr) ∧ J (visit visited tr).trader)
    (tickers : List String) {tr : Trader} {last : Option ℚ} (start : J tr)
    (covered : Covered ticker tr last) : Watched ticker mono last (visitAll visit tickers tr) := by
  induction tickers generalizing tr last with
  | nil => exact Watched.idle covered
  | cons visited tickers inductionHypothesis =>
    obtain ⟨watched, next⟩ := each visited tr last start covered
    exact watched.andThen fun last' covered' => inductionHypothesis next covered'

/-! ## The timer's visits -/

theorem isExit_applyExitPlan {ticker visited : String} (other : visited ≠ ticker) (api : OrderApi)
    (plan : ExitPlan) : ∀ call ∈ applyExitPlan api visited plan, isExit ticker call = false := by
  intro call member
  rw [applyExitPlan, List.mem_singleton] at member
  subst member
  simp [isExit, sendOrder, exitRequest, other]

theorem positionOf_of_lookup {tr : Trader} {ticker : String} {ts : TickerState}
    (known : tr.state.tickers.lookup ticker = some ts) : tr.positionOf ticker = ts.position := by
  rw [Trader.positionOf, known]
  rfl

theorem held_of_exitDecision {ts : TickerState} {nowS : ℚ} {plan : ExitPlan}
    (due : exitDecision ts nowS = some plan) : ts.position ≠ 0 := by
  intro flat
  rw [exitDecision, if_pos flat] at due
  cases due

theorem watched_visitExit_elsewhere {ticker visited : String} (other : visited ≠ ticker)
    (out : Outside) {tr : Trader} {last : Option ℚ} (covered : Covered ticker tr last) :
    Watched ticker out.mono last (tr.visitExit out visited) := by
  have retried (retry : ExitRetry) :
      (tr.exitRetries.insert visited retry).lookup ticker = tr.exitRetries.lookup ticker :=
    Finmap.lookup_insert_of_ne _ other.symm
  unfold Trader.visitExit
  split_ifs
  · exact Watched.idle covered
  · split
    · exact Watched.idle covered
    · split
      · exact Watched.idle covered
      · dsimp only
        split_ifs
        · exact Watched.idle covered
        · exact Watched.idle (covered.congr rfl rfl (retried _))
        · exact Watched.silent (isExit_applyExitPlan other _ _) (covered.congr rfl rfl (retried _))

/-- The timer path looks at both hold-offs. -/
theorem watched_visitExit (ticker : String) (out : Outside) (visited : String) (tr : Trader)
    (last : Option ℚ) (covered : Covered ticker tr last) :
    Watched ticker out.mono last (tr.visitExit out visited) := by
  by_cases other : visited = ticker
  · subst other
    unfold Trader.visitExit
    split_ifs with fired
    · exact Watched.idle covered
    · split
      · exact Watched.idle covered
      next ts known =>
        have position := positionOf_of_lookup known
        split
        · exact Watched.idle covered
        next plan due =>
          -- a retry entry that covers the last exit is the one this visit starts from
          have starts : ∀ attempts sent, tr.exitRetries.lookup visited =
              some ⟨attempts, tr.positionOf visited, some (sent + exitRetryDelayS attempts)⟩ →
              tr.retryFor visited ts.position =
                ⟨attempts, tr.positionOf visited, some (sent + exitRetryDelayS attempts)⟩ := by
            intro attempts sent found
            simp [Trader.retryFor, found, position]
          dsimp only
          split_ifs with closed waits
          · exact Watched.idle covered
          -- held off: the entry is written back as it was
          · refine Watched.idle fun sent remembered => ?_
            obtain byUnwind | ⟨held, attempts, tried, found⟩ := covered sent remembered
            · exact Or.inl byUnwind
            · refine Or.inr ⟨held, attempts, tried, ?_⟩
              rw [starts attempts sent found]
              exact Finmap.lookup_insert _
          -- sent: neither hold-off is running, and each outlasts its exit by ten seconds
          · refine Watched.single (fun sent remembered => ?_) fun sent remembered => ?_
            · obtain ⟨deadline, found, later⟩ | ⟨held, attempts, tried, found⟩ :=
                covered sent remembered
              · rw [found] at fired
                exact later.trans (le_of_not_held (Bool.eq_false_iff.mpr fired))
              · rw [starts attempts sent found] at waits
                have free := le_of_not_held (Bool.eq_false_iff.mpr waits)
                have delay := exitRetryDelayS_ge tried
                linarith
            · cases remembered
              refine Or.inr ⟨position ▸ held_of_exitDecision due,
                (tr.retryFor visited ts.position).attempts + 1, Nat.succ_ne_zero _, ?_⟩
              rw [Finmap.lookup_insert]
              exact congrArg some (by rw [ExitRetry.mk.injEq]; exact ⟨rfl, position.symm, rfl⟩)
  · exact watched_visitExit_elsewhere other out covered

theorem watched_checkExits {ticker : String} (out : Outside) {tr : Trader} {last : Option ℚ}
    (covered : Covered ticker tr last) : Watched ticker out.mono last (tr.checkExits out) := by
  refine visitAll_watched (J := fun _ => True)
    (fun visited tr last _ covered => ⟨watched_visitExit ticker out visited tr last covered, trivial⟩)
    _ trivial fun sent remembered => ?_
  obtain byUnwind | ⟨held, attempts, tried, found⟩ := covered sent remembered
  · exact Or.inl byUnwind
  · refine Or.inr ⟨held, attempts, tried, ?_⟩
    rw [Dict.lookup_retain, found]
    exact if_pos (decide_eq_true held)

/-! ## The unwind's visits -/

/-- What the unwind walk has not touched of a market since it started: nothing at all, or its
    throttle is set. -/
def Unvisited (start : Trader) (ticker : String) (mono : ℚ) (tr : Trader) : Prop :=
  (∃ next fired, tr = { start with spotUnwindNext := next, spotUnwindFiredUntil := fired }) ∧
    ((tr.spotUnwindNext.lookup ticker = start.spotUnwindNext.lookup ticker ∧
        tr.spotUnwindFiredUntil.lookup ticker = start.spotUnwindFiredUntil.lookup ticker) ∨
      heldUntil (tr.spotUnwindNext.lookup ticker) mono = true)

theorem Unvisited.refl (start : Trader) (ticker : String) (mono : ℚ) :
    Unvisited start ticker mono start := ⟨⟨_, _, rfl⟩, Or.inl ⟨rfl, rfl⟩⟩

theorem unvisited_visitUnwind {start tr : Trader} {ticker : String} (out : Outside)
    (visited : String) (unvisited : Unvisited start ticker out.mono tr) :
    Unvisited start ticker out.mono (tr.visitUnwind out visited).trader := by
  obtain ⟨⟨next, fired, rfl⟩, same⟩ := unvisited
  unfold Trader.visitUnwind
  split_ifs
  · exact ⟨⟨_, _, rfl⟩, same⟩
  · by_cases other : visited = ticker
    · subst other
      -- a visit that gets this far sets the throttle, which ends the market's turn in the walk
      have throttled : heldUntil ((next.insert visited (out.mono + 1)).lookup visited) out.mono = true := by
        simp [Finmap.lookup_insert, heldUntil]
      dsimp only
      split
      · exact ⟨⟨_, _, rfl⟩, Or.inr throttled⟩
      · exact ⟨⟨_, _, rfl⟩, Or.inr throttled⟩
    · have elsewhere {m : Dict String ℚ} (deadline : ℚ) :
          (m.insert visited deadline).lookup ticker = m.lookup ticker :=
        Finmap.lookup_insert_of_ne _ (Ne.symm other)
      dsimp only
      split
      · refine ⟨⟨_, _, rfl⟩, ?_⟩
        rwa [elsewhere]
      · refine ⟨⟨_, _, rfl⟩, ?_⟩
        rwa [elsewhere, elsewhere]

/-- The unwind path looks at its own hold-off; the condition stands in for the other one. -/
theorem watched_visitUnwind {start tr : Trader} {ticker : String} {out : Outside}
    (waits : FreshTimerExit start ticker out.mono → ¬ UnwindFires start ticker out.mono)
    (visited : String) {last : Option ℚ} (unvisited : Unvisited start ticker out.mono tr)
    (covered : Covered ticker tr last) :
    Watched ticker out.mono last (tr.visitUnwind out visited) := by
  obtain ⟨⟨next, fired, rfl⟩, same⟩ := unvisited
  unfold Trader.visitUnwind
  split_ifs with held
  · exact Watched.idle covered
  · dsimp only
    split
    · exact Watched.idle covered
    next plan fires =>
      by_cases other : visited = ticker
      · subst other
        -- only the unwind's own hold-off was looked at
        obtain ⟨nextFree, firedFree⟩ := not_or.mp held
        refine Watched.single (fun sent remembered => ?_) fun sent remembered => ?_
        · obtain ⟨deadline, found, later⟩ | ⟨_, attempts, _, found⟩ := covered sent remembered
          · rw [found] at firedFree
            exact later.trans (le_of_not_held (Bool.eq_false_iff.mpr firedFree))
          · obtain ⟨nextSame, firedSame⟩ := same.resolve_right nextFree
            have unwinds : UnwindFires start visited out.mono := by
              refine ⟨?_, ?_, ?_⟩
              · rw [← nextSame]
                exact Bool.eq_false_iff.mpr nextFree
              · rw [← firedSame]
                exact Bool.eq_false_iff.mpr firedFree
              · exact Option.isSome_iff_exists.mpr ⟨plan, fires⟩
            -- an exit of the timer is covered by its retry entry, for which the condition waits
            by_contra early
            refine waits ⟨_, found, rfl, _, rfl, ?_⟩ unwinds
            linarith
        · cases remembered
          exact Or.inl ⟨out.mono + Trader.unwindRefireHoldoffS, Finmap.lookup_insert _, le_rfl⟩
      · refine Watched.silent (isExit_applyExitPlan other _ _) (covered.congr ?_ rfl rfl)
        exact Finmap.lookup_insert_of_ne _ (Ne.symm other)

theorem watched_checkSpotUnwind {start : Trader} {ticker : String} {out : Outside}
    {last : Option ℚ}
    (waits : FreshTimerExit start ticker out.mono → ¬ UnwindFires start ticker out.mono)
    (covered : Covered ticker start last) :
    Watched ticker out.mono last (start.checkSpotUnwind out) := by
  unfold Trader.checkSpotUnwind
  split_ifs
  · exact Watched.idle covered
  · exact visitAll_watched (J := Unvisited start ticker out.mono)
      (fun visited tr last unvisited covered =>
        ⟨watched_visitUnwind waits visited unvisited covered,
          unvisited_visitUnwind out visited unvisited⟩)
      _ (Unvisited.refl start ticker out.mono) covered

/-! ## Turns -/

/-- The gate sends cancels only, and leaves positions and hold-offs alone. -/
theorem watched_updateSpotGate {ticker : String} (out : Outside) {tr : Trader} {last : Option ℚ}
    (covered : Covered ticker tr last) : Watched ticker out.mono last (tr.updateSpotGate out) := by
  obtain ⟨_, _, only⟩ := updateSpotGate_only out tr
  refine Watched.silent (fun call member => ?_)
    (covered.congr (by rw [only]) (positionOf_updateSpotGate out tr ticker) (by rw [only]))
  obtain ⟨_, _, rfl⟩ := calls_updateSpotGate member
  rfl

theorem positionOf_of_timers {tr tr' : Trader} (timers : Timers tr tr') (ticker : String) :
    tr'.positionOf ticker = tr.positionOf ticker := by
  rw [Trader.positionOf, Trader.positionOf, timers.state]

theorem accepted_of_watched {env : Env} {ticker : String} {tr : Trader} {arrival : Arrival}
    {last : Option ℚ} (watched : Watched ticker arrival.out.mono last (tr.turn env arrival))
    (kept : (tr.step env arrival).positionOf ticker = tr.positionOf ticker) :
    Along Mark.watch (Mark.Respects 10) last (marks env ticker tr arrival) ∧
      Covered ticker (tr.step env arrival) (run Mark.watch last (marks env ticker tr arrival)) := by
  rw [marks, if_pos kept, List.append_nil]
  exact ⟨watched.spaced, watched.covered⟩

theorem accepted_of_holdoffs {env : Env} {ticker : String} {tr : Trader} {arrival : Arrival}
    {last : Option ℚ} (covered : Covered ticker tr last)
    (none : ∀ call ∈ (tr.turn env arrival).calls, isExit ticker call = false)
    (fired : (tr.step env arrival).spotUnwindFiredUntil = tr.spotUnwindFiredUntil)
    (retries : (tr.step env arrival).exitRetries = tr.exitRetries) :
    Along Mark.watch (Mark.Respects 10) last (marks env ticker tr arrival) ∧
      Covered ticker (tr.step env arrival) (run Mark.watch last (marks env ticker tr arrival)) := by
  rw [marks, exitMarks_of_forall none, List.nil_append]
  split_ifs with kept
  · exact ⟨trivial, covered.congr (by rw [fired]) kept (by rw [retries])⟩
  -- a moved position resets the log
  · exact ⟨⟨fun _ _ _ stamped => (nomatch stamped), trivial⟩, Covered.none ticker _⟩

theorem accepted_of_bookkeeping {env : Env} {ticker : String} {tr tr' : Trader} {arrival : Arrival}
    {last : Option ℚ} (covered : Covered ticker tr last)
    (turns : tr.turn env arrival = ⟨tr', []⟩) (books : Bookkeeping tr tr') :
    Along Mark.watch (Mark.Respects 10) last (marks env ticker tr arrival) ∧
      Covered ticker (tr.step env arrival) (run Mark.watch last (marks env ticker tr arrival)) := by
  obtain ⟨_, _, rfl⟩ := books.only
  have steps : tr.step env arrival = _ := congrArg Outcome.trader turns
  refine accepted_of_holdoffs covered (fun call member => ?_) (by rw [steps]) (by rw [steps])
  rw [turns] at member
  cases member

theorem isExit_bookOutcome (ticker : String) {out : Outside} {visited : String} {msg : Value}
    {tr : Trader} {outcome : Outcome} (ends : BookOutcome out visited msg tr outcome) :
    (∀ call ∈ outcome.calls, isExit ticker call = false) ∧
      outcome.trader.spotUnwindFiredUntil = tr.spotUnwindFiredUntil ∧
      outcome.trader.exitRetries = tr.exitRetries := by
  cases ends with
  | kept books =>
    obtain ⟨_, _, rfl⟩ := books.only
    exact ⟨fun _ member => (nomatch member), rfl, rfl⟩
  | halted books =>
    obtain ⟨_, _, rfl⟩ := books.only
    refine ⟨fun call member => ?_, rfl, rfl⟩
    rw [Trader.haltAllTrading, List.mem_singleton] at member
    subst member
    rfl
  | @quoted tr' category action fvShift allow active books _ _ _ =>
    obtain ⟨_, _, rfl⟩ := books.only
    obtain ⟨_, only⟩ := quoteCycle_only out category visited action fvShift allow _
    refine ⟨fun call member => ?_, by rw [only], by rw [only]⟩
    obtain ⟨id, reply, rfl⟩ | ⟨request, reply, rfl, resting⟩ := quoteCycle_calls allow call member
    · rfl
    · simp [isExit, resting]

theorem watched_onSpotTick {env : Env} {out : Outside} {price : ℚ} {ticker : String} {tr : Trader}
    {last : Option ℚ} (covered : Covered ticker tr last)
    (waits : (tr.spot.onTick env.exp price out.mono).2 = true →
      let start := ({ tr with
        spot := (tr.spot.onTick env.exp price out.mono).1 } : Trader).updateSpotGate out
      FreshTimerExit start.trader ticker out.mono → ¬ UnwindFires start.trader ticker out.mono) :
    Watched ticker out.mono last (tr.onSpotTick env out price) := by
  have ticked : Covered ticker { tr with spot := (tr.spot.onTick env.exp price out.mono).1 } last :=
    covered
  unfold Trader.onSpotTick
  dsimp only
  split_ifs with accepted
  · exact (watched_updateSpotGate out ticked).andThen fun last' covered' =>
      watched_checkSpotUnwind (waits accepted) covered'
  · exact Watched.idle ticked

theorem positionOf_onSpotTick (env : Env) (out : Outside) (price : ℚ) (tr : Trader)
    (ticker : String) : (tr.onSpotTick env out price).trader.positionOf ticker = tr.positionOf ticker :=
  onSpotTick_related (R := fun tr tr' => tr'.positionOf ticker = tr.positionOf ticker)
    (fun _ _ _ first second => second.trans first) (fun _ _ => rfl)
    (fun tr => positionOf_updateSpotGate out tr ticker)
    (fun timers => positionOf_of_timers timers ticker) env price tr

theorem positionOf_onExitTimer (out : Outside) (tr : Trader) (ticker : String) :
    (tr.onExitTimer out).trader.positionOf ticker = tr.positionOf ticker :=
  (positionOf_of_timers (timers_checkExits out _) ticker).trans
    (positionOf_updateSpotGate out tr ticker)

/-- A refresh rolls the universe and leaves the hold-offs alone. -/
theorem holdoffs_refreshMarkets (env : Env) (out : Outside) (tr : Trader) :
    (tr.refreshMarkets env out).spotUnwindFiredUntil = tr.spotUnwindFiredUntil ∧
      (tr.refreshMarkets env out).exitRetries = tr.exitRetries := by
  obtain ⟨same, _⟩ | ⟨_, ⟨⟨_, _, _, _, _, only⟩, _, _⟩, _⟩ := refreshMarkets_cases env out tr
  · rw [same]
    exact ⟨rfl, rfl⟩
  · rw [only]
    exact ⟨rfl, rfl⟩

/-- Every turn that meets the condition keeps the market's log spaced and its last exit covered. -/
theorem accepted_step {env : Env} {ticker : String} {tr : Trader} {arrival : Arrival}
    {last : Option ℚ} (covered : Covered ticker tr last) (waits : UnwindWaits env ticker tr arrival) :
    Along Mark.watch (Mark.Respects 10) last (marks env ticker tr arrival) ∧
      Covered ticker (tr.step env arrival) (run Mark.watch last (marks env ticker tr arrival)) := by
  by_cases running : tr.running = true
  · have turns : tr.turn env arrival = tr.handle env arrival := if_pos running
    cases event : arrival.event with
    | book visited msg =>
      have handles : tr.turn env arrival = tr.onBookUpdate env arrival.out visited msg := by
        rw [turns, Trader.handle, event]
      have ends := onBookUpdate_outcome env arrival.out visited msg tr
      rw [← handles] at ends
      obtain ⟨none, fired, retries⟩ := isExit_bookOutcome ticker ends
      exact accepted_of_holdoffs covered none fired retries
    | trade visited msg =>
      refine accepted_of_bookkeeping covered ?_ (bookkeeping_onTrade arrival.out visited msg tr)
      rw [turns, Trader.handle, event]
    | spot price =>
      have handles : tr.turn env arrival = tr.onSpotTick env arrival.out price := by
        rw [turns, Trader.handle, event]
      refine accepted_of_watched ?_ ?_
      · rw [handles]
        refine watched_onSpotTick covered fun accepted => waits _ ?_
        simp [unwindStart, running, event, accepted]
      · rw [Trader.step, handles]
        exact positionOf_onSpotTick env arrival.out price tr ticker
    | fill raw =>
      refine accepted_of_bookkeeping covered ?_ (bookkeeping_processFill arrival.out raw tr)
      rw [turns, Trader.handle, event]
    | sync =>
      refine accepted_of_bookkeeping covered ?_ (bookkeeping_syncPositions arrival.out tr)
      rw [turns, Trader.handle, event]
    | exits =>
      have handles : tr.turn env arrival = tr.onExitTimer arrival.out := by
        rw [turns, Trader.handle, event]
      refine accepted_of_watched ?_ ?_
      · rw [handles]
        exact (watched_updateSpotGate arrival.out covered).andThen fun last' covered' =>
          watched_checkExits arrival.out covered'
      · rw [Trader.step, handles]
        exact positionOf_onExitTimer arrival.out tr ticker
    | daily =>
      refine accepted_of_bookkeeping covered ?_ (bookkeeping_maybeDailyReset env arrival.out tr)
      rw [turns, Trader.handle, event]
    | refresh =>
      have handles : tr.turn env arrival = ⟨tr.refreshMarkets env arrival.out, []⟩ := by
        rw [turns, Trader.handle, event]
      have steps : tr.step env arrival = tr.refreshMarkets env arrival.out :=
        congrArg Outcome.trader handles
      obtain ⟨fired, retries⟩ := holdoffs_refreshMarkets env arrival.out tr
      rw [← steps] at fired retries
      refine accepted_of_holdoffs covered (fun call member => ?_) fired retries
      rw [handles] at member
      cases member
  · exact accepted_of_bookkeeping covered (if_neg running) (Bookkeeping.refl tr)

/-- In every run in which the unwind path waits for fresh timer exits of a market, any two exits
    of the market without a change of its booked position in between are ten seconds apart. -/
theorem exits_spaced {env : Env} {ticker : String} {tr : Trader} {arrivals : List Arrival}
    (waits : Along (Trader.step env) (UnwindWaits env ticker) tr arrivals)
    {before between after : List (Mark ℚ)} {s t : ℚ}
    (log : exitLog env ticker tr arrivals = before ++ .stamp s :: between ++ .stamp t :: after)
    (unmoved : .reset ∉ between) : s + 10 ≤ t := by
  have accepted := along_outputs (Trader.step env) (R := Covered ticker)
    (fun tr arrival last covered condition => accepted_step covered condition)
    (Covered.none ticker tr) waits
  exact Mark.spaced (by norm_num) accepted log unmoved

/-! ## A stop-loss and an unwind of one long -/

def strikes (mono : ℚ) : Outside :=
  listing ["KXBTCD-25JUL2417-T1000", "KXBTCD-25JUL2417-T1010"] mono

/-- A fresh trader on a ladder of two strikes, which quotes nothing. -/
def ladderStart : Trader := Trader.startup (marketEnv none) (marketCfg (some "BTC-USD")) (strikes 0)

def boughtFive : Value :=
  .object [("trade_id", .string "f1"), ("ticker", .string "KXBTCD-25JUL2417-T1000"),
    ("action", .string "buy"), ("side", .string "yes"), ("yes_price_dollars", .string "0.60"),
    ("count", .number 5)]

/-- Five bought at 60 cents, a mid of 45, a stop-loss at 10 s, and spot down 1.5 % at `tick`. -/
def stopThenUnwind (tick : ℚ) : List Arrival :=
  [⟨.fill boughtFive, strikes 0⟩,
    ⟨.book "KXBTCD-25JUL2417-T1000" (snapshot (44 / 100) (54 / 100)), strikes 1⟩,
    ⟨.book "KXBTCD-25JUL2417-T1010" (snapshot (39 / 100) (59 / 100)), strikes 1⟩,
    ⟨.spot 1000, strikes 2⟩, ⟨.exits, strikes 10⟩, ⟨.spot 985, strikes tick⟩]

theorem exits_spaced_late_unwind :
    exitLog (marketEnv none) "KXBTCD-25JUL2417-T1000" ladderStart
      (stopThenUnwind 21) = [.reset, .stamp 10, .stamp 21] ∧ (10 : ℚ) + 10 ≤ 21 := by
  have log : exitLog (marketEnv none) "KXBTCD-25JUL2417-T1000"
      ladderStart (stopThenUnwind 21) =
        [.reset] ++ .stamp 10 :: [] ++ .stamp 21 :: [] := by decide +kernel
  exact ⟨log, exits_spaced (by decide +kernel) log (by simp)⟩

/-- With the unwind at 11 s they are one second apart: the unwind does not look at the timer's
    hold-off. -/
theorem stop_and_unwind_one_second_apart :
    exitLog (marketEnv none) "KXBTCD-25JUL2417-T1000" ladderStart
        (stopThenUnwind 11) = [.reset, .stamp 10, .stamp 11] ∧
      ¬ ∀ before between after s t,
        exitLog (marketEnv none) "KXBTCD-25JUL2417-T1000" ladderStart
          (stopThenUnwind 11) = before ++ .stamp s :: between ++ .stamp t :: after →
        .reset ∉ between → s + 10 ≤ t := by
  have log : exitLog (marketEnv none) "KXBTCD-25JUL2417-T1000"
      ladderStart (stopThenUnwind 11) =
        [.reset] ++ .stamp 10 :: [] ++ .stamp 11 :: [] := by decide +kernel
  refine ⟨log, fun spaced => ?_⟩
  have apart : (10 : ℚ) + 10 ≤ 11 := spaced _ _ _ _ _ log (by simp)
  norm_num at apart

end KalshiMm.Verified.ExitSpacing
