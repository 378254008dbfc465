import KalshiMm.Lib.Watermark
import KalshiMm.Verified.FillOrder

/-!
# What the fills poll reads

The poll sweeps the fills endpoint from a minute before its watermark and moves the watermark when
no request failed.  A sweep that stops at its page cap has failed no request, either, so it moves
the watermark past what it left unread.
-/

namespace KalshiMm.Verified.Watermark

open KalshiMm.Lib KalshiMm.Model

/-- A fill as the exchange executed it, and as the endpoint reports it. -/
structure Execution where
  executed : ℚ
  raw : Value

/-- One sweep: when it begins, what it sees of the outside, whose clock is the one at its end, and
    the pages of the endpoint's full listing.  It takes less than a minute. -/
structure Sweep where
  began : ℚ
  out : Outside
  pages : List Value
  afterEpoch : 0 ≤ began
  forward : began ≤ out.epoch
  quick : out.epoch - began < 60

/-- What happens to the poll: a sweep, or a turn of the loop for something else. -/
inductive Tick where
  | sweep (sweep : Sweep)
  | other (arrival : Arrival)

/-- The trader and the watermark. -/
abbrev Poll := Trader × ℤ

/-- One request of a sweep from the watermark. -/
def request (lastTs : ℤ) (sweep : Sweep) (page : ℕ) (cursor : Option String) :
    Except String Value :=
  sweep.out.api.getFills page (lastTs - 60) cursor none

def tick (env : Env) (poll : Poll) : Tick → Poll
  | .sweep sweep => if poll.1.running then poll.1.fillsSweep sweep.out poll.2 else poll
  | .other arrival => (poll.1.step env arrival, poll.2)

/-- The pages a sweep reads, and its `ok` flag. -/
def readBy (lastTs : ℤ) (sweep : Sweep) : List Value × Bool :=
  readPages (request lastTs sweep) 25 0 none

/-- The raw fills a tick hands to `process_fill`. -/
def handedBy (poll : Poll) : Tick → List Value
  | .sweep sweep => if poll.1.running then pageRows (readBy poll.2 sweep).1 "fills" else []
  | .other _ => []

theorem fillsSweep_eq (lastTs : ℤ) (sweep : Sweep) (tr : Trader) :
    tr.fillsSweep sweep.out lastTs =
      (tr.processFills sweep.out (pageRows (readBy lastTs sweep).1 "fills"),
        if (readBy lastTs sweep).2 then truncI64 sweep.out.epoch else lastTs) := by
  have reads : readPages (fun page cursor => sweep.out.api.getFills page (lastTs - 60) cursor none)
      25 0 none = readBy lastTs sweep := rfl
  unfold Trader.fillsSweep
  rw [reads]

/-- The poll with what it has handed over so far. -/
def handing (env : Env) : Poll × List Value → Tick → Poll × List Value :=
  withGhost (tick env) fun poll handed tick => handed ++ handedBy poll tick

/-- The poll at boot. -/
def atBoot (tr : Trader) (boot : ℚ) : Poll × List Value := ((tr, truncI64 boot - 60), [])

/-! ## The endpoint -/

/-- The endpoint lists these pages along its cursor, the last one without a further one, and any
    request for one of them may fail. -/
def Lists (request : ℕ → Option String → Except String Value) :
    ℕ → Option String → List Value → Prop
  | _, _, [] => False
  | page, cursor, [resp] =>
    ((∃ body, request page cursor = .error body) ∨ request page cursor = .ok resp) ∧
      resp.cursor = none
  | page, cursor, resp :: next :: rest =>
    ((∃ body, request page cursor = .error body) ∨ request page cursor = .ok resp) ∧
      ∃ later, resp.cursor = some later ∧ Lists request (page + 1) (some later) (next :: rest)

/-- A sweep's listing has every fill executed before the sweep began, from the requested time on. -/
def ListsDue (log : Set Execution) (s : Poll × List Value) : Tick → Prop
  | .sweep sweep => Lists (request s.1.2 sweep) 0 none sweep.pages ∧
      ∀ fill ∈ log, (s.1.2 - 60 : ℤ) ≤ fill.executed → fill.executed < sweep.began →
        fill.raw ∈ pageRows sweep.pages "fills"
  | .other _ => True

/-- A sweep that runs and fails no request has no more than 25 pages to read. -/
def WithinPages (s : Poll × List Value) : Tick → Prop
  | .sweep sweep => s.1.1.running = true → (readBy s.1.2 sweep).2 = true → sweep.pages.length ≤ 25
  | .other _ => True

/-- After a sweep that runs and leaves `ok`, every fill since boot that was executed before the
    sweep began has been handed over. -/
def NothingLost (env : Env) (log : Set Execution) (boot : ℚ) (s : Poll × List Value)
    (t : Tick) : Prop :=
  match t with
  | .sweep sweep => s.1.1.running = true → (readBy s.1.2 sweep).2 = true →
      ∀ fill ∈ log, boot ≤ fill.executed → fill.executed < sweep.began →
        fill.raw ∈ (handing env s t).2
  | .other _ => True

/-- A walk that fails no request reads the listing's first pages. -/
theorem readPages_of_lists {request : ℕ → Option String → Except String Value}
    {pages : List Value} {page : ℕ} {cursor : Option String}
    (listed : Lists request page cursor pages) {fuel : ℕ}
    (ok : (readPages request fuel page cursor).2 = true) :
    (readPages request fuel page cursor).1 = pages.take fuel := by
  induction fuel generalizing page cursor pages with
  | zero => rfl
  | succ fuel inductionHypothesis =>
    rw [readPages] at ok ⊢
    rcases pages with _ | ⟨resp, _ | ⟨next, rest⟩⟩
    · exact absurd listed not_false
    · obtain ⟨⟨body, fails⟩ | reply, last⟩ := listed
      · rw [fails] at ok
        cases ok
      · rw [reply]
        dsimp only
        rw [last, List.take_succ_cons, List.take_nil]
    · obtain ⟨⟨body, fails⟩ | reply, later, more, listed⟩ := listed
      · rw [fails] at ok
        cases ok
      · rw [reply] at ok ⊢
        dsimp only at ok ⊢
        rw [more] at ok ⊢
        rw [List.take_succ_cons]
        exact congrArg (resp :: ·) (inductionHypothesis listed ok)

/-! ## Coverage -/

theorem truncI64_le {q : ℚ} (nonneg : 0 ≤ q) : (truncI64 q : ℚ) ≤ q := by
  have floor : 0 ≤ ⌊q⌋ := Int.floor_nonneg.mpr nonneg
  have below : truncI64 q ≤ ⌊q⌋ := by
    rw [truncI64, if_pos nonneg, toI64]
    omega
  exact (Int.cast_le.mpr below).trans (Int.floor_le q)

/-- Everything up to some point has been handed over, and the next sweep starts before it. -/
def Handed (log : Set Execution) (boot : ℚ) (s : Poll × List Value) : Prop :=
  Covered Execution.executed boot 60 log (s.1.2 : ℚ) {fill | fill.raw ∈ s.2}

theorem handed_atBoot (log : Set Execution) (tr : Trader) {boot : ℚ} (afterEpoch : 0 ≤ boot) :
    Handed log boot (atBoot tr boot) := by
  refine Covered.init ?_
  have early := truncI64_le afterEpoch
  simp only [atBoot, Int.cast_sub, Int.cast_ofNat]
  linarith

section Step

variable {env : Env} {log : Set Execution} {boot : ℚ} {s : Poll × List Value}

theorem handing_grows (t : Tick) :
    {fill : Execution | fill.raw ∈ s.2} ⊆ {fill | fill.raw ∈ (handing env s t).2} :=
  fun _ known => List.mem_append_left _ known

/-- A sweep that runs and fails no request hands over all that is due. -/
theorem sweep_complete {sweep : Sweep} (lists : ListsDue log s (.sweep sweep))
    (within : WithinPages s (.sweep sweep)) (running : s.1.1.running = true)
    (ok : (readBy s.1.2 sweep).2 = true) :
    ∀ fill ∈ log, (s.1.2 : ℚ) - 60 ≤ fill.executed → fill.executed < sweep.began →
      fill ∈ {fill : Execution | fill.raw ∈ (handing env s (.sweep sweep)).2} := by
  intro fill member since before
  obtain ⟨listed, due⟩ := lists
  have read : (readBy s.1.2 sweep).1 = sweep.pages := by
    rw [readBy, readPages_of_lists listed ok, List.take_of_length_le (within running ok)]
  refine List.mem_append_right _ ?_
  rw [handedBy, if_pos running, read]
  exact due fill member (by push_cast; exact since) before

theorem handed_step (handed : Handed log boot s) (t : Tick) (lists : ListsDue log s t)
    (within : WithinPages s t) : Handed log boot (handing env s t) := by
  cases t with
  | other arrival => exact handed.more (handing_grows _)
  | sweep sweep =>
    by_cases running : s.1.1.running = true
    · cases ok : (readBy s.1.2 sweep).2 with
      | true =>
        have mark : ((handing env s (.sweep sweep)).1.2 : ℚ) ≤ sweep.out.epoch := by
          simp only [handing, withGhost, tick, if_pos running, fillsSweep_eq, ok]
          exact truncI64_le (sweep.afterEpoch.trans sweep.forward)
        exact handed.advance (handing_grows _) (sweep_complete lists within running ok) mark
          sweep.quick.le
      | false =>
        -- a failed request leaves the watermark where it was
        have mark : (handing env s (.sweep sweep)).1.2 = s.1.2 := by
          simp only [handing, withGhost, tick, if_pos running, fillsSweep_eq, ok]
          rfl
        rw [Handed, mark]
        exact handed.more (handing_grows _)
    · have mark : (handing env s (.sweep sweep)).1.2 = s.1.2 := by
        simp only [handing, withGhost, tick, if_neg running]
      rw [Handed, mark]
      exact handed.more (handing_grows _)

theorem nothingLost_of_handed (handed : Handed log boot s) (t : Tick) (lists : ListsDue log s t)
    (within : WithinPages s t) : NothingLost env log boot s t := by
  cases t with
  | other arrival => trivial
  | sweep sweep =>
    intro running ok
    exact handed.all_seen (handing_grows _) (sweep_complete lists within running ok)

end Step

/-- From boot on, whatever sweeps fail and whatever else happens, a sweep that leaves `ok` has
    handed over every fill executed before it began, if no such sweep meets its page cap. -/
theorem nothing_lost (env : Env) (log : Set Execution) (tr : Trader) {boot : ℚ}
    (afterEpoch : 0 ≤ boot) {ticks : List Tick}
    (lists : Along (handing env) (ListsDue log) (atBoot tr boot) ticks)
    (within : Along (handing env) WithinPages (atBoot tr boot) ticks) :
    Along (handing env) (NothingLost env log boot) (atBoot tr boot) ticks :=
  have keeps (s : Poll × List Value) (t : Tick) (handed : Handed log boot s)
      (condition : ListsDue log s t ∧ WithinPages s t) : Handed log boot (handing env s t) :=
    handed_step handed t condition.1 condition.2
  along_of_along keeps
    (fun _ t handed condition => nothingLost_of_handed handed t condition.1 condition.2)
    (handed_atBoot log tr afterEpoch) (lists.and within)

/-! ## A listing longer than the page cap -/

theorem lists_of_serves {request : ℕ → Option String → Except String Value} {pages : List Value}
    {page : ℕ} {cursor : Option String} (served : FillOrder.Serves request page cursor pages) :
    Lists request page cursor pages := by
  induction pages generalizing page cursor with
  | nil => exact served
  | cons resp rest inductionHypothesis =>
    cases rest with
    | nil => exact ⟨Or.inr served.1, served.2⟩
    | cons next rest =>
      obtain ⟨reply, later, more, served⟩ := served
      exact ⟨Or.inr reply, later, more, inductionHypothesis served⟩

/-- A fill executed at 10 s. -/
def early : Execution := ⟨10, report (makerFill "f1" "b1" "KXBTCD-1" true 2 (1 / 4))⟩

/-- A sweep at 100 s whose listing has the fill on its last page. -/
def sweepOf (count : ℕ) : Sweep where
  began := 100
  out := { FillOrder.serving [early.raw] (count - 1) count with epoch := 100 }
  pages := (List.range' 0 count).map (FillOrder.pageOf [early.raw] (count - 1) count)
  afterEpoch := by norm_num
  forward := le_refl _
  quick := by norm_num

def bootPoll : Poll × List Value := atBoot (Trader.start (marketCfg none) 0) 0

theorem sweepOf_served {count : ℕ} (some_ : 0 < count) (lastTs : ℤ) :
    FillOrder.Serves (request lastTs (sweepOf count)) 0 none (sweepOf count).pages :=
  FillOrder.serves_pageOf [early.raw] (count - 1) count 0 none some_ (Nat.zero_add count)

theorem sweepOf_lists {count : ℕ} (some_ : 0 < count) :
    ListsDue {early} bootPoll (.sweep (sweepOf count)) := by
  refine ⟨lists_of_serves (sweepOf_served some_ _), ?_⟩
  rintro fill rfl _ _
  refine List.mem_flatMap.mpr ⟨FillOrder.pageOf [early.raw] (count - 1) count (count - 1), ?_, ?_⟩
  · exact List.mem_map_of_mem (List.mem_range'_1.mpr ⟨Nat.zero_le _, by omega⟩)
  · simp [FillOrder.pageOf, Value.getRows, Value.get, Value.asArray]

theorem nothing_lost_two_pages :
    Along (handing (marketEnv none)) (NothingLost (marketEnv none) {early} 0) bootPoll
      [.sweep (sweepOf 2)] :=
  nothing_lost (marketEnv none) {early} _ (le_refl 0) ⟨sweepOf_lists (by decide), trivial⟩
    ⟨fun _ _ => by decide, trivial⟩

/-- With 26 pages the sweep leaves `ok` and has not read the last one; from the new watermark the
    fill is never asked for again. -/
theorem page_cap_loses_fill :
    ListsDue {early} bootPoll (.sweep (sweepOf 26)) ∧
      ¬ NothingLost (marketEnv none) {early} 0 bootPoll (.sweep (sweepOf 26)) ∧
      early.executed < ((handing (marketEnv none) bootPoll (.sweep (sweepOf 26))).1.2 - 60 : ℤ) := by
  have read : readBy bootPoll.1.2 (sweepOf 26) = ((sweepOf 26).pages.take 25, true) :=
    FillOrder.readPages_of_serves (sweepOf_served (by decide) _) 25
  have running : bootPoll.1.1.running = true := rfl
  have unread : pageRows ((sweepOf 26).pages.take 25) "fills" = [] := rfl
  refine ⟨sweepOf_lists (by decide), fun kept => ?_, ?_⟩
  · have handed := kept running (congrArg Prod.snd read) early rfl (by decide +kernel)
      (by decide +kernel)
    simp only [handing, withGhost, handedBy, if_pos running, read, unread, List.append_nil] at handed
    cases handed
  · have mark : (handing (marketEnv none) bootPoll (.sweep (sweepOf 26))).1.2 = 100 := by
      simp only [handing, withGhost, tick, if_pos running, fillsSweep_eq, read]
      decide +kernel
    rw [mark]
    decide +kernel

end KalshiMm.Verified.Watermark
