import Mathlib.Analysis.Complex.Exponential
import KalshiMm.Lib.Run
import KalshiMm.Model.Spot

/-!
# The spot average weighs by time

Every tick moves the average a part of the way to its price, so it stays among the prices that were
accepted.  What is left of the way decays with the time alone: every price weighs what its time does,
and a tick that repeats a price in between changes nothing.
-/

namespace KalshiMm.Verified.SpotAverage

open KalshiMm.Lib KalshiMm.Model

/-- One call of `onTick`. -/
structure SpotTick where
  price : ℝ
  nowMono : ℝ

noncomputable def tickStep (s : SpotState ℝ) (tick : SpotTick) : SpotState ℝ :=
  (s.onTick Real.exp tick.price tick.nowMono).1

noncomputable def acceptedNow (s : SpotState ℝ) (tick : SpotTick) : List ℝ :=
  if (s.onTick Real.exp tick.price tick.nowMono).2 then [tick.price] else []

/-- The prices that a run of ticks accepts. -/
noncomputable def accepted (s : SpotState ℝ) (ticks : List SpotTick) : List ℝ :=
  outputs tickStep acceptedNow s ticks

/-! ## Moving to a price -/

/-- What is left of the way from `x` to `price`. -/
def approach (left price x : ℝ) : ℝ := price + left * (x - price)

theorem approach_approach (left left' price x : ℝ) :
    approach left' price (approach left price x) = approach (left * left') price x := by
  unfold approach
  ring

theorem approach_between {left price x lo hi : ℝ} (nonneg : 0 ≤ left) (most : left ≤ 1)
    (low : lo ≤ x ∧ lo ≤ price) (high : x ≤ hi ∧ price ≤ hi) :
    lo ≤ approach left price x ∧ approach left price x ≤ hi := by
  have mixed : approach left price x = left * x + (1 - left) * price := by
    unfold approach
    ring
  have rest : 0 ≤ 1 - left := sub_nonneg.mpr most
  rw [mixed]
  constructor
  · have first := mul_le_mul_of_nonneg_left low.1 nonneg
    have second := mul_le_mul_of_nonneg_left low.2 rest
    linarith
  · have first := mul_le_mul_of_nonneg_left high.1 nonneg
    have second := mul_le_mul_of_nonneg_left high.2 rest
    linarith

/-- What a span of time leaves of the way. -/
noncomputable def decay (tauS dt : ℝ) : ℝ := Real.exp (-dt / tauS)

theorem decay_add (tauS dt dt' : ℝ) : decay tauS (dt + dt') = decay tauS dt * decay tauS dt' := by
  unfold decay
  rw [← Real.exp_add]
  congr 1
  ring

theorem decay_le_one {tauS dt : ℝ} (positive : 0 < tauS) (nonneg : 0 ≤ dt) : decay tauS dt ≤ 1 :=
  Real.exp_le_one_iff.mpr (div_nonpos_of_nonpos_of_nonneg (neg_nonpos.mpr nonneg) positive.le)

theorem nextEma_eq (s : SpotState ℝ) (tLast pLast price nowMono : ℝ) :
    s.nextEma Real.exp tLast pLast price nowMono =
      approach (decay s.tauS (max (nowMono - tLast) 0)) price (s.ema.getD pLast) := by
  unfold SpotState.nextEma approach decay
  ring

/-! ## One tick -/

theorem getLast?_push (s : SpotState ℝ) (ema price nowMono : ℝ) :
    (s.push ema price nowMono).ticks.getLast? = some (nowMono, price) := by
  have kept : [(nowMono, price)].dropWhile (fun tick => decide (SpotState.retainS < nowMono - tick.1))
      = [(nowMono, price)] := by
    rw [List.dropWhile_cons_of_neg]
    norm_num [SpotState.retainS]
  unfold SpotState.push
  rw [List.dropWhile_append, kept]
  split_ifs
  · rfl
  · exact List.getLast?_concat ..

/-- The guard lets the tick through. -/
def Passes (s : SpotState ℝ) (tick : SpotTick) : Prop :=
  0 < tick.price ∧ ∀ last ∈ s.ticks.getLast?,
    tick.nowMono - last.1 < SpotState.outlierWindowS →
      |tick.price / last.2 - 1| ≤ SpotState.outlierJump

/-- The average after a tick that passes. -/
noncomputable def averaged (s : SpotState ℝ) (tick : SpotTick) : ℝ :=
  match s.ticks.getLast? with
  | some last => s.nextEma Real.exp last.1 last.2 tick.price tick.nowMono
  | none => tick.price

theorem onTick_of_passes {s : SpotState ℝ} {tick : SpotTick} (passes : Passes s tick) :
    s.onTick Real.exp tick.price tick.nowMono =
      (s.push (averaged s tick) tick.price tick.nowMono, true) := by
  obtain ⟨positive, guarded⟩ := passes
  unfold SpotState.onTick averaged
  rw [if_neg (not_le.mpr positive)]
  cases found : s.ticks.getLast? with
  | none => rfl
  | some last =>
    rw [found] at guarded
    have calm : ¬ (tick.nowMono - last.1 < SpotState.outlierWindowS ∧
        SpotState.outlierJump < |tick.price / last.2 - 1|) := fun outlier =>
      absurd (guarded last rfl outlier.1) (not_le.mpr outlier.2)
    exact if_neg calm

theorem onTick_of_not_passes {s : SpotState ℝ} {tick : SpotTick} (dropped : ¬ Passes s tick) :
    s.onTick Real.exp tick.price tick.nowMono = (s, false) := by
  unfold SpotState.onTick
  by_cases positive : 0 < tick.price
  · rw [if_neg (not_le.mpr positive)]
    obtain ⟨last, found, fast, jump⟩ : ∃ last ∈ s.ticks.getLast?,
        tick.nowMono - last.1 < SpotState.outlierWindowS ∧
          SpotState.outlierJump < |tick.price / last.2 - 1| := by
      by_contra none
      push Not at none
      exact dropped ⟨positive, none⟩
    rw [found]
    exact if_pos ⟨fast, jump⟩
  · rw [if_pos (not_lt.mp positive)]

theorem tickStep_of_passes {s : SpotState ℝ} {tick : SpotTick} (passes : Passes s tick) :
    tickStep s tick = s.push (averaged s tick) tick.price tick.nowMono := by
  rw [tickStep, onTick_of_passes passes]

theorem tickStep_of_not_passes {s : SpotState ℝ} {tick : SpotTick} (dropped : ¬ Passes s tick) :
    tickStep s tick = s := by
  rw [tickStep, onTick_of_not_passes dropped]

/-! ## The average stays among the prices -/

/-- Between the smallest and the largest of the prices. -/
def Among (prices : List ℝ) (x : ℝ) : Prop := ∃ low ∈ prices, ∃ high ∈ prices, low ≤ x ∧ x ≤ high

/-- There is an average, among the accepted prices, once there is a tick; and the last tick's price
    is one of them. -/
structure Averages (s : SpotState ℝ) (prices : List ℝ) : Prop where
  tauPos : 0 < s.tauS
  known : s.ema = none ↔ prices = []
  among : ∀ ema ∈ s.ema, Among prices ema
  last : ∀ tick ∈ s.ticks.getLast?, tick.2 ∈ prices
  ticked : s.ticks.getLast? = none ↔ prices = []

theorem averaged_among {s : SpotState ℝ} {prices : List ℝ} (averages : Averages s prices)
    (tick : SpotTick) : Among (prices ++ [tick.price]) (averaged s tick) := by
  have sent : tick.price ∈ prices ++ [tick.price] := List.mem_append_right _ List.mem_cons_self
  unfold averaged
  cases found : s.ticks.getLast? with
  | none => exact ⟨_, sent, _, sent, le_rfl, le_rfl⟩
  | some last =>
    have some_ : s.ema ≠ none := fun none => by
      rw [averages.ticked.mpr (averages.known.mp none)] at found
      cases found
    obtain ⟨ema, known⟩ := Option.ne_none_iff_exists'.mp some_
    obtain ⟨low, lowIn, high, highIn, below, above⟩ := averages.among ema known
    dsimp only
    rw [nextEma_eq, known, Option.getD_some]
    have between := approach_between (Real.exp_pos _).le
      (decay_le_one averages.tauPos (le_max_right (tick.nowMono - last.1) 0))
      ⟨(min_le_left low tick.price).trans below, min_le_right _ _⟩
      ⟨above.trans (le_max_left high tick.price), le_max_right _ _⟩
    refine ⟨min low tick.price, ?_, max high tick.price, ?_, between⟩
    · obtain same | same := min_choice low tick.price
      · rw [same]
        exact List.mem_append_left _ lowIn
      · rw [same]
        exact sent
    · obtain same | same := max_choice high tick.price
      · rw [same]
        exact List.mem_append_left _ highIn
      · rw [same]
        exact sent

theorem averages_step (s : SpotState ℝ) (tick : SpotTick) (prices : List ℝ)
    (averages : Averages s prices) : Averages (tickStep s tick) (prices ++ acceptedNow s tick) := by
  by_cases passes : Passes s tick
  · have sent : acceptedNow s tick = [tick.price] := by
      rw [acceptedNow, onTick_of_passes passes, if_pos rfl]
    rw [tickStep_of_passes passes, sent]
    have filled : prices ++ [tick.price] ≠ [] := List.concat_ne_nil _ _
    refine ⟨averages.tauPos, iff_of_false nofun filled, ?_, ?_, ?_⟩
    · rintro ema ⟨⟩
      exact averaged_among averages tick
    · rw [getLast?_push]
      rintro last ⟨⟩
      exact List.mem_append_right _ List.mem_cons_self
    · rw [getLast?_push]
      exact iff_of_false nofun filled
  · have dropped : acceptedNow s tick = [] := by
      rw [acceptedNow, onTick_of_not_passes passes, if_neg Bool.false_ne_true]
    rw [tickStep_of_not_passes passes, dropped, List.append_nil]
    exact averages

theorem averages_run {s : SpotState ℝ} (averages : Averages s []) (ticks : List SpotTick) :
    Averages (run tickStep s ticks) (accepted s ticks) :=
  outputs_induct tickStep (fun s tick prices kept _ => averages_step s tick prices kept) averages
    (along_true s ticks)

/-! ## A repeated price changes nothing -/

/-- What later ticks depend on. -/
structure SameView (s s' : SpotState ℝ) : Prop where
  ema : s.ema = s'.ema
  last : s.ticks.getLast? = s'.ticks.getLast?
  tauS : s.tauS = s'.tauS

theorem SameView.step {s s' : SpotState ℝ} (same : SameView s s') (tick : SpotTick) :
    SameView (tickStep s tick) (tickStep s' tick) := by
  have both : Passes s tick ↔ Passes s' tick := by
    unfold Passes
    rw [same.last]
  by_cases passes : Passes s tick
  · have average : averaged s tick = averaged s' tick := by
      unfold averaged SpotState.nextEma
      rw [same.last, same.ema, same.tauS]
    rw [tickStep_of_passes passes, tickStep_of_passes (both.mp passes), average]
    exact ⟨rfl, by rw [getLast?_push, getLast?_push], same.tauS⟩
  · rw [tickStep_of_not_passes passes, tickStep_of_not_passes fun passes' => passes (both.mpr passes')]
    exact same

theorem SameView.run {s s' : SpotState ℝ} (same : SameView s s') (ticks : List SpotTick) :
    SameView (Lib.run tickStep s ticks) (Lib.run tickStep s' ticks) := by
  induction ticks generalizing s s' with
  | nil => exact same
  | cons tick ticks inductionHypothesis => exact inductionHypothesis (same.step tick)

theorem passes_later {s : SpotState ℝ} {price sent nowMono : ℝ} (later : sent ≤ nowMono)
    (passes : Passes s ⟨price, sent⟩) : Passes s ⟨price, nowMono⟩ :=
  ⟨passes.1, fun last found fast => passes.2 last found (by
    dsimp only at fast ⊢
    linarith)⟩

/-- Behind a tick of the same price the guard sees no jump. -/
theorem passes_repeated {s : SpotState ℝ} {price sent : ℝ} (positive : 0 < price)
    (last : s.ticks.getLast? = some (sent, price)) (nowMono : ℝ) : Passes s ⟨price, nowMono⟩ := by
  refine ⟨positive, fun tick found _ => ?_⟩
  rw [last] at found
  cases found
  dsimp only
  rw [div_self positive.ne', sub_self, abs_zero]
  norm_num [SpotState.outlierJump]

/-- What is left of the way after both ticks is what the later one leaves alone. -/
theorem averaged_repeated {s : SpotState ℝ} {price sent nowMono : ℝ}
    (past : ∀ last ∈ s.ticks.getLast?, last.1 ≤ sent) (later : sent ≤ nowMono) :
    averaged (s.push (averaged s ⟨price, sent⟩) price sent) ⟨price, nowMono⟩ =
      averaged s ⟨price, nowMono⟩ := by
  have again : averaged (s.push (averaged s ⟨price, sent⟩) price sent) ⟨price, nowMono⟩ =
      approach (decay s.tauS (max (nowMono - sent) 0)) price (averaged s ⟨price, sent⟩) := by
    rw [averaged, getLast?_push]
    exact nextEma_eq _ _ _ _ _
  rw [again]
  unfold averaged
  cases found : s.ticks.getLast? with
  | none => simp [approach]
  | some last =>
    have before := past last found
    dsimp only
    rw [nextEma_eq, nextEma_eq, approach_approach, ← decay_add, max_eq_left (sub_nonneg.mpr later),
      max_eq_left (sub_nonneg.mpr before), max_eq_left (sub_nonneg.mpr (before.trans later))]
    congr 2
    ring

/-- A price that is sent twice counts once, at the later time. -/
theorem sameView_repeated {s : SpotState ℝ} {price sent nowMono : ℝ}
    (past : ∀ last ∈ s.ticks.getLast?, last.1 ≤ sent) (later : sent ≤ nowMono) :
    SameView (tickStep (tickStep s ⟨price, sent⟩) ⟨price, nowMono⟩)
      (tickStep s ⟨price, nowMono⟩) := by
  by_cases passes : Passes s ⟨price, sent⟩
  · rw [tickStep_of_passes passes,
      tickStep_of_passes (passes_repeated passes.1 (getLast?_push ..) nowMono),
      tickStep_of_passes (passes_later later passes), averaged_repeated past later]
    exact ⟨rfl, by rw [getLast?_push, getLast?_push], rfl⟩
  · rw [tickStep_of_not_passes passes]
    exact ⟨rfl, rfl, rfl⟩

theorem past_run {s : SpotState ℝ} (empty : s.ticks = []) {ticks : List SpotTick} {sent : ℝ}
    (past : ∀ tick ∈ ticks, tick.nowMono ≤ sent) :
    ∀ last ∈ (run tickStep s ticks).ticks.getLast?, last.1 ≤ sent := by
  have keeps (s : SpotState ℝ) (tick : SpotTick) (kept : ∀ last ∈ s.ticks.getLast?, last.1 ≤ sent)
      (before : tick.nowMono ≤ sent) : ∀ last ∈ (tickStep s tick).ticks.getLast?, last.1 ≤ sent := by
    by_cases passes : Passes s tick
    · rw [tickStep_of_passes passes, getLast?_push]
      rintro last ⟨⟩
      exact before
    · rw [tickStep_of_not_passes passes]
      exact kept
  have start : ∀ last ∈ s.ticks.getLast?, last.1 ≤ sent := by
    rw [empty]
    exact nofun
  exact (throughout_of_along keeps start (along_of_forall past)).last

/-! ## What each price weighs -/

noncomputable def acceptedTick (s : SpotState ℝ) (tick : SpotTick) : List SpotTick :=
  if (s.onTick Real.exp tick.price tick.nowMono).2 then [tick] else []

/-- The ticks that a run accepts. -/
noncomputable def acceptedTicks (s : SpotState ℝ) (ticks : List SpotTick) : List SpotTick :=
  outputs tickStep acceptedTick s ticks

/-- Ticks, the newest first, as an average at `now`.  A price weighs as much as the time since the
    tick before it, and time weighs the less the longer it is past. -/
noncomputable def weighed (tauS now : ℝ) : List SpotTick → ℝ
  | [] => 0
  | [first] => decay tauS (now - first.nowMono) * first.price
  | tick :: before :: earlier =>
    (decay tauS (now - tick.nowMono) - decay tauS (now - before.nowMono)) * tick.price +
      weighed tauS now (before :: earlier)

theorem decay_later (tauS now later sent : ℝ) :
    decay tauS (later - sent) = decay tauS (later - now) * decay tauS (now - sent) := by
  rw [← decay_add, sub_add_sub_cancel]

/-- All weights fade alike. -/
theorem weighed_later (tauS now later : ℝ) : ∀ ticks : List SpotTick,
    weighed tauS later ticks = decay tauS (later - now) * weighed tauS now ticks
  | [] => (mul_zero _).symm
  | [first] => by
    rw [weighed, weighed, decay_later tauS now later]
    ring
  | tick :: before :: earlier => by
    rw [weighed, weighed, weighed_later tauS now later (before :: earlier),
      decay_later tauS now later tick.nowMono, decay_later tauS now later before.nowMono]
    ring

theorem decay_now (tauS now : ℝ) : decay tauS (now - now) = 1 := by
  rw [decay, sub_self, neg_zero, zero_div, Real.exp_zero]

theorem weighed_push (tauS : ℝ) (tick before : SpotTick) (earlier : List SpotTick) :
    weighed tauS tick.nowMono (tick :: before :: earlier) =
      approach (decay tauS (tick.nowMono - before.nowMono)) tick.price
        (weighed tauS before.nowMono (before :: earlier)) := by
  rw [weighed, weighed_later tauS before.nowMono tick.nowMono, decay_now, approach]
  ring

/-- The average weighs the ticks that were accepted. -/
structure Weighs (s : SpotState ℝ) (log : List SpotTick) : Prop where
  last : s.ticks.getLast? = log.getLast?.map fun tick => (tick.nowMono, tick.price)
  ema : s.ema = log.getLast?.map fun tick => weighed s.tauS tick.nowMono log.reverse

/-- The tick is not older than the last one that was accepted. -/
def InOrder (s : SpotState ℝ) (tick : SpotTick) : Prop :=
  ∀ last ∈ s.ticks.getLast?, last.1 ≤ tick.nowMono

theorem averaged_eq_weighed {s : SpotState ℝ} {tick : SpotTick} {log : List SpotTick}
    (weighs : Weighs s log) (ordered : InOrder s tick) :
    averaged s tick = weighed s.tauS tick.nowMono (log ++ [tick]).reverse := by
  unfold averaged
  rw [weighs.last, List.reverse_concat]
  obtain rfl | ⟨earlier, before, rfl⟩ := List.eq_nil_or_concat' log
  · rw [List.getLast?_nil, Option.map_none, List.reverse_nil, weighed, decay_now, one_mul]
  · have past := ordered (before.nowMono, before.price) (by rw [weighs.last]; simp)
    rw [List.getLast?_concat, Option.map_some]
    dsimp only
    rw [nextEma_eq, weighs.ema, List.getLast?_concat, Option.map_some, Option.getD_some,
      List.reverse_concat, weighed_push, max_eq_left (sub_nonneg.mpr past)]

theorem weighs_step (s : SpotState ℝ) (tick : SpotTick) (log : List SpotTick) (weighs : Weighs s log)
    (ordered : InOrder s tick) : Weighs (tickStep s tick) (log ++ acceptedTick s tick) := by
  by_cases passes : Passes s tick
  · have sent : acceptedTick s tick = [tick] := by
      rw [acceptedTick, onTick_of_passes passes, if_pos rfl]
    rw [tickStep_of_passes passes, sent]
    constructor
    · rw [getLast?_push, List.getLast?_concat, Option.map_some]
    · rw [List.getLast?_concat, Option.map_some]
      exact congrArg some (averaged_eq_weighed weighs ordered)
  · have dropped : acceptedTick s tick = [] := by
      rw [acceptedTick, onTick_of_not_passes passes, if_neg Bool.false_ne_true]
    rw [tickStep_of_not_passes passes, dropped, List.append_nil]
    exact weighs

/-- Ticks that come in order come so to every state of a run. -/
theorem along_inOrder {s : SpotState ℝ} {ticks : List SpotTick}
    (past : ∀ last ∈ s.ticks.getLast?, ∀ tick ∈ ticks, last.1 ≤ tick.nowMono)
    (sorted : ticks.Pairwise fun a b => a.nowMono ≤ b.nowMono) : Along tickStep InOrder s ticks := by
  induction ticks generalizing s with
  | nil => trivial
  | cons tick ticks inductionHypothesis =>
    obtain ⟨first, rest⟩ := List.pairwise_cons.mp sorted
    refine ⟨fun last found => past last found tick List.mem_cons_self,
      inductionHypothesis (fun last found later member => ?_) rest⟩
    by_cases passes : Passes s tick
    · rw [tickStep_of_passes passes, getLast?_push] at found
      cases found
      exact first later member
    · rw [tickStep_of_not_passes passes] at found
      exact past last found later (List.mem_cons_of_mem _ member)

theorem tauS_run (s : SpotState ℝ) (ticks : List SpotTick) : (run tickStep s ticks).tauS = s.tauS :=
  run_induct (I := fun t : SpotState ℝ => t.tauS = s.tauS) (fun t tick same => by
    by_cases passes : Passes t tick
    · rw [tickStep_of_passes passes]
      exact same
    · rw [tickStep_of_not_passes passes]
      exact same) rfl

/-! ## A time-weighted average -/

/-- Over any ticks there is an average once one is accepted, and it is among the accepted prices;
    over ticks that come in order, it weighs each price by its time.  A tick that already carries the
    price of the tick after it changes neither the average nor the latest price from that tick on. -/
theorem ema_time_weighted {tauS : ℝ} {start : SpotState ℝ} (fresh : SpotState.new tauS = some start)
    (ticks : List SpotTick) :
    ((run tickStep start ticks).ema = none ↔ accepted start ticks = []) ∧
    (∀ ema ∈ (run tickStep start ticks).ema, Among (accepted start ticks) ema) ∧
    (ticks.Pairwise (fun a b => a.nowMono ≤ b.nowMono) →
      (run tickStep start ticks).ema = (acceptedTicks start ticks).getLast?.map fun last =>
        weighed tauS last.nowMono (acceptedTicks start ticks).reverse) ∧
    ∀ (price sent nowMono : ℝ) (rest : List SpotTick), (∀ tick ∈ ticks, tick.nowMono ≤ sent) →
      sent ≤ nowMono →
      let once := run tickStep start (ticks ++ ⟨price, nowMono⟩ :: rest)
      let twice := run tickStep start (ticks ++ ⟨price, sent⟩ :: ⟨price, nowMono⟩ :: rest)
      twice.ema = once.ema ∧ twice.latest = once.latest := by
  unfold SpotState.new at fresh
  split_ifs at fresh with positive
  cases fresh
  have start : Averages { tauS } [] := by
    refine ⟨positive, iff_of_true rfl rfl, nofun, nofun, iff_of_true rfl rfl⟩
  have averages := averages_run start ticks
  refine ⟨averages.known, averages.among, fun sorted => ?_, ?_⟩
  · have weighs : Weighs (run tickStep { tauS } ticks) (acceptedTicks { tauS } ticks) :=
      outputs_induct tickStep weighs_step ⟨rfl, rfl⟩ (along_inOrder nofun sorted)
    rw [weighs.ema, tauS_run]
  intro price sent nowMono rest past later once twice
  have same : SameView twice once := by
    have first : SameView (tickStep (tickStep (run tickStep { tauS } ticks) ⟨price, sent⟩)
        ⟨price, nowMono⟩) (tickStep (run tickStep { tauS } ticks) ⟨price, nowMono⟩) :=
      sameView_repeated (past_run rfl past) later
    change SameView (run tickStep _ _) (run tickStep _ _)
    rw [run_append, run_append]
    exact first.run rest
  exact ⟨same.ema, congrArg (Option.map Prod.snd) same.last⟩

/-- A price that comes at five seconds and again at ten. -/
theorem ema_time_weighted_repeated :
    let start : SpotState ℝ := { tauS := 60 }
    let once := run tickStep start [⟨100, 0⟩, ⟨101, 10⟩]
    let twice := run tickStep start [⟨100, 0⟩, ⟨101, 5⟩, ⟨101, 10⟩]
    twice.ema = once.ema ∧ twice.latest = once.latest := by
  intro start
  have fresh : SpotState.new (60 : ℝ) = some start := if_pos (by norm_num)
  have repeated := (ema_time_weighted fresh [⟨100, 0⟩]).2.2.2 101 5 10 []
  exact repeated (by norm_num) (by norm_num)

end KalshiMm.Verified.SpotAverage
