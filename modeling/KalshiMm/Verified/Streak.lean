import Mathlib.Data.List.DropRight
import KalshiMm.Verified.Upkeep

/-!
# The kill-switch streak

The streak of a category is a running count of what its history says: the losing closes of
inventory that was not carried, since the last winning one and the last reset.  The category halt
latches what the streak has reached, and is released by the reset alone.
-/

namespace KalshiMm.Verified.Streak

open KalshiMm.Lib KalshiMm.Model

/-! ## What the streak counts -/

/-- What happens to the account: fills, settlements, daily resets, and any other rewriting of a
    market. -/
inductive Op where
  | fill (ticker : String) (nf : NormalizedFill) (fee nowEpoch : ℚ)
  | settle (ticker : String) (resultYes : Option Bool)
  | reset (nowEpoch : ℚ)
  | write (ticker : String) (ts : TickerState)

def operate (s : TraderState) : Op → TraderState
  -- the panic on an unknown market ends nothing here
  | .fill ticker nf fee nowEpoch => ((s.applyFill ticker nf fee nowEpoch).map Prod.fst).getD s
  | .settle ticker resultYes => (s.applySettlement ticker resultYes).1
  | .reset nowEpoch => s.resetDaily nowEpoch
  | .write ticker ts => s.setTicker ticker ts

/-- A line of the history. -/
inductive Mark where
  | realized (category : String) (amount : ℚ)
  | reset
deriving DecidableEq

/-- What an operation adds to the history: what a fill realizes on inventory that is not carried,
    and the resets. -/
def marks (s : TraderState) : Op → List Mark
  | .fill ticker nf _ _ =>
    match s.tickers.lookup ticker with
    | some ts => if ts.carried then [] else [.realized ts.category (ts.realizedOn nf)]
    | none => []
  | .reset _ => [.reset]
  | _ => []

/-- The mark is a winning close in the category, or a reset. -/
def ends (category : String) : Mark → Bool
  | .realized other amount => other = category ∧ 0 < amount
  | .reset => true

/-- The mark is a losing close in the category. -/
def loses (category : String) : Mark → Bool
  | .realized other amount => other = category ∧ amount < 0
  | .reset => false

/-- The losing closes since the last winning close or reset. -/
def lossesSince (category : String) (history : List Mark) : ℕ :=
  (history.rtakeWhile fun mark => !ends category mark).countP (loses category)

theorem lossesSince_concat (category : String) (history : List Mark) (mark : Mark) :
    lossesSince category (history ++ [mark]) =
      if ends category mark then 0
      else lossesSince category history + if loses category mark then 1 else 0 := by
  unfold lossesSince
  rw [List.rtakeWhile_concat]
  cases ends category mark with
  | true => rfl
  | false =>
    simp only [Bool.not_false, if_true, List.countP_append, List.countP_singleton]
    rfl

theorem lossesSince_realized (category other : String) (amount : ℚ) (history : List Mark) :
    lossesSince category (history ++ [.realized other amount]) =
      if category = other then nextStreak amount (lossesSince category history)
      else lossesSince category history := by
  rw [lossesSince_concat]
  unfold nextStreak
  by_cases same : category = other
  · subst same
    simp only [ends, loses, decide_eq_true_eq, true_and, if_true]
    split_ifs <;> rfl
  · simp [ends, loses, same, Ne.symm same]

/-! ## One operation -/

theorem halted_bookRealizedClose (s : TraderState) (category : String) (realized : ℚ)
    (exempt : Bool) :
    (s.bookRealizedClose category realized exempt).haltedCategories = s.haltedCategories := by
  obtain ⟨_, _, _, _, _, only⟩ := bookRealizedClose_only s category realized exempt
  rw [only]

/-- A fill moves the streak of its market's category, unless the market is carried; the flag is the
    one before the fill. -/
theorem streakOf_applyFill {s s' : TraderState} {ticker : String} {ts : TickerState}
    {nf : NormalizedFill} {fee nowEpoch realized : ℚ} (known : s.tickers.lookup ticker = some ts)
    (applied : s.applyFill ticker nf fee nowEpoch = some (s', realized)) :
    s'.haltedCategories = s.haltedCategories ∧ ∀ category, streakOf s' category =
      if category = ts.category ∧ ts.carried = false then
        nextStreak (ts.realizedOn nf) (streakOf s category)
      else streakOf s category := by
  have known' : (s.bookFee nf fee).tickers.lookup ticker = some ts := known
  simp only [TraderState.applyFill, known', Option.map_some, Option.some.injEq] at applied
  cases applied
  split_ifs with closes
  · exact ⟨halted_bookRealizedClose _ ts.category (ts.realizedOn nf) ts.carried,
      fun category => streakOf_bookRealizedClose _ ts.category (ts.realizedOn nf) ts.carried category⟩
  · have zero : ts.realizedOn nf = 0 := not_not.mp closes
    rw [zero]
    refine ⟨rfl, fun category => ?_⟩
    simp only [nextStreak, lt_irrefl, if_false, ite_self]
    rfl

/-- Settlements are exempt. -/
theorem streaks_applySettlement (s : TraderState) (ticker : String) (resultYes : Option Bool) :
    (s.applySettlement ticker resultYes).1.consecutiveLosses = s.consecutiveLosses ∧
      (s.applySettlement ticker resultYes).1.haltedCategories = s.haltedCategories := by
  unfold TraderState.applySettlement
  split
  · exact ⟨rfl, rfl⟩
  · split_ifs
    · exact ⟨rfl, rfl⟩
    · dsimp only
      split
      · exact ⟨streaks_of_exempt .., halted_bookRealizedClose ..⟩
      · exact ⟨rfl, rfl⟩

theorem streakOf_operate (s : TraderState) (op : Op) (history : List Mark)
    (counted : ∀ category, streakOf s category = lossesSince category history) (category : String) :
    streakOf (operate s op) category = lossesSince category (history ++ marks s op) := by
  cases op with
  | fill ticker nf fee nowEpoch =>
    unfold operate marks
    dsimp only
    cases known : s.tickers.lookup ticker with
    | none =>
      have unknown : (s.bookFee nf fee).tickers.lookup ticker = none := known
      simp only [TraderState.applyFill, unknown, Option.map_none, Option.getD_none, List.append_nil]
      exact counted category
    | some ts =>
      obtain ⟨s', applied, _⟩ := TraderState.applyFill_tickers known nf fee nowEpoch
      rw [applied, Option.map_some, Option.getD_some, (streakOf_applyFill known applied).2]
      dsimp only
      split_ifs with counts carried carried
      · rw [counts.2] at carried
        cases carried
      · rw [lossesSince_realized, if_pos counts.1, counted]
      · rw [List.append_nil, counted]
      · rw [lossesSince_realized, counted, if_neg]
        exact fun same => counts ⟨same, Bool.eq_false_iff.mpr carried⟩
  | settle ticker resultYes =>
    unfold operate marks
    dsimp only
    rw [List.append_nil, ← counted, streakOf, (streaks_applySettlement s ticker resultYes).1]
    rfl
  | reset nowEpoch =>
    rw [marks, lossesSince_concat]
    rfl
  | write ticker ts =>
    unfold operate marks
    dsimp only
    rw [List.append_nil, ← counted]
    rfl

/-- After every sequence of operations the streak is what the history says. -/
theorem streakOf_run (nowEpoch : ℚ) (ops : List Op) (category : String) :
    streakOf (run operate (TraderState.new nowEpoch) ops) category =
      lossesSince category (outputs operate marks (TraderState.new nowEpoch) ops) := by
  refine outputs_induct operate (P := fun _ _ => True)
    (I := fun s history => ∀ category, streakOf s category = lossesSince category history)
    (fun s op history counted _ => streakOf_operate s op history counted) (fun _ => rfl)
    (along_true _ ops) category

/-! ## The category halt -/

/-- The category's streak stands at the limit. -/
def Tripped (tr : Trader) (category : String) : Prop :=
  0 < tr.cfg.live.haltOnConsecutiveLosses ∧
    tr.cfg.live.haltOnConsecutiveLosses ≤ streakOf tr.state category

instance (tr : Trader) (category : String) : Decidable (Tripped tr category) :=
  inferInstanceAs (Decidable (_ ∧ _))

inductive Reading where
  | reached
  | reset
deriving DecidableEq

/-- The sync finds the settlement of a vanished market and books it. -/
def booksSettlement (out : Outside) (tr : Trader) : Bool :=
  match out.api.getPositions, out.api.getSettlements with
  | .ok positions, .ok settlements =>
    let exchange := parsePositions positions
    (tr.syncKeys out exchange).any fun ticker =>
      tr.vanishes ticker ((exchange.lookup ticker).getD 0) &&
        (((Trader.settledResults settlements).lookup ticker).any Option.isSome &&
          (tr.state.tickers.lookup ticker).any fun ts => ts.entryPrice.isSome)
  | _, _ => false

def reading (tr : Trader) (category : String) : List Reading :=
  if Tripped tr category then [.reached] else []

/-- Where the category's streak is looked at: after a processed fill and after a sync that books a
    settlement; a change of the local date starts anew. -/
def readings (env : Env) (category : String) (tr : Trader) (m : Move) : List Reading :=
  match turnOf tr m with
  | some ⟨.fill _, _⟩ => reading (tr.move env m) category
  | some ⟨.sync, out⟩ => if booksSettlement out tr then reading (tr.move env m) category else []
  | some ⟨.daily, out⟩ =>
    if env.localDay out.epoch ≠ env.localDay tr.state.lastReset then [.reset] else []
  | _ => []

/-- Since the last reset the streak has stood at the limit. -/
def ReachedSince (log : List Reading) : Prop := .reached ∈ log.rtakeWhile (· ≠ .reset)

instance (log : List Reading) : Decidable (ReachedSince log) :=
  inferInstanceAs (Decidable (_ ∈ _))

/-- The market of a reported fill, where it is known, has the category the fill is booked under. -/
def CategoriesAgree (tr : Trader) (m : Move) : Prop :=
  match turnOf tr m with
  | some ⟨.fill raw, _⟩ => ∀ nf ∈ normalizeFill raw,
      ∀ ts ∈ tr.state.tickers.lookup nf.ticker, ts.category = tr.fillCategory nf.ticker
  | _ => True

instance (tr : Trader) (m : Move) : Decidable (CategoriesAgree tr m) := by
  unfold CategoriesAgree
  split <;> infer_instance

/-- Streaks and limit are the same, and categories are halted only for a streak at the limit. -/
structure Latches (tr tr' : Trader) : Prop where
  cfg : tr'.cfg = tr.cfg
  streaks : tr'.state.consecutiveLosses = tr.state.consecutiveLosses
  kept : tr.state.haltedCategories ⊆ tr'.state.haltedCategories
  tripped : ∀ category ∈ tr'.state.haltedCategories,
    category ∈ tr.state.haltedCategories ∨ Tripped tr category

namespace Latches

theorem of_same {tr tr' : Trader} (cfg : tr'.cfg = tr.cfg)
    (streaks : tr'.state.consecutiveLosses = tr.state.consecutiveLosses)
    (halted : tr'.state.haltedCategories = tr.state.haltedCategories) : Latches tr tr' :=
  ⟨cfg, streaks, halted ▸ subset_rfl, fun _ member => Or.inl (halted ▸ member)⟩

theorem refl (tr : Trader) : Latches tr tr := of_same rfl rfl rfl

theorem of_upkeep {tr tr' : Trader} (upkeep : Upkeep tr tr') : Latches tr tr' :=
  of_same upkeep.cfg upkeep.streaks upkeep.halted

theorem tripped_iff {tr tr' : Trader} (latches : Latches tr tr') (category : String) :
    Tripped tr' category ↔ Tripped tr category := by
  unfold Tripped streakOf
  rw [latches.cfg, latches.streaks]

theorem trans {a b c : Trader} (first : Latches a b) (second : Latches b c) : Latches a c where
  cfg := second.cfg.trans first.cfg
  streaks := second.streaks.trans first.streaks
  kept := first.kept.trans second.kept
  tripped category member := by
    obtain halted | tripped := second.tripped category member
    · exact first.tripped category halted
    · exact Or.inr ((first.tripped_iff category).mp tripped)

end Latches

theorem mem_enforceCategoryHalt (tr : Trader) (enforced category : String) :
    category ∈ (tr.enforceCategoryHalt enforced).state.haltedCategories ↔
      category ∈ tr.state.haltedCategories ∨ (category = enforced ∧ Tripped tr enforced) := by
  unfold Trader.enforceCategoryHalt
  dsimp only
  split_ifs with halts
  · rw [Finset.mem_insert, or_comm, and_iff_left ⟨halts.1, halts.2.2⟩]
  · refine (or_iff_left_of_imp ?_).symm
    rintro ⟨rfl, positive, reached⟩
    by_contra unhalted
    exact halts ⟨positive, unhalted, reached⟩

theorem latches_enforceCategoryHalt (category : String) (tr : Trader) :
    Latches tr (tr.enforceCategoryHalt category) where
  cfg := by
    obtain ⟨_, only⟩ := enforceCategoryHalt_only category tr
    rw [only]
  streaks := by
    obtain ⟨_, only⟩ := enforceCategoryHalt_only category tr
    rw [only]
  kept other member := (mem_enforceCategoryHalt tr category other).mpr (Or.inl member)
  tripped other member := by
    obtain halted | ⟨rfl, tripped⟩ := (mem_enforceCategoryHalt tr category other).mp member
    · exact Or.inl halted
    · exact Or.inr tripped

/-! ## Syncs -/

theorem latches_syncTicker (out : Outside) (exchange : Dict String ℤ) (tr : Trader)
    (ticker : String) : Latches tr (tr.syncTicker out exchange ticker) := by
  obtain ⟨_, _, only⟩ := syncTicker_only out exchange tr ticker
  rw [only]
  exact .of_same rfl rfl rfl

theorem latches_resolveVanished (settled : Dict String (Option Bool)) (tr : Trader)
    (ticker : String) : Latches tr (tr.resolveVanished settled ticker) := by
  have ends := resolveVanished_resolved settled tr ticker
  generalize tr.resolveVanished settled ticker = tr' at ends
  cases ends with
  | flat _ => exact .of_same rfl rfl rfl
  | writtenOff _ _ _ _ _ => exact .of_same rfl rfl rfl
  | counted _ _ _ => exact .of_same rfl rfl rfl
  | settled resultYes _ _ halts =>
    obtain ⟨streaks, halted⟩ := streaks_applySettlement tr.state ticker resultYes
    have settles : Latches tr (settledAt tr ticker resultYes) := .of_same rfl streaks halted
    obtain rfl | ⟨category, rfl⟩ := halts
    · exact settles
    · exact settles.trans (latches_enforceCategoryHalt ..)

theorem latches_backfillEntryPrice (out : Outside) (ticker : String) (tr : Trader) :
    Latches tr (tr.backfillEntryPrice out ticker) := by
  obtain same | ⟨_, _, _, _, _, written⟩ := backfillEntryPrice_cases out ticker tr
  · rw [same]
    exact .refl tr
  · rw [written]
    exact .of_same rfl rfl rfl

theorem latches_syncPositions (out : Outside) (tr : Trader) :
    Latches tr (tr.syncPositions out) :=
  syncPositions_related Latches.refl (fun _ _ _ => Latches.trans) (latches_syncTicker out)
    latches_resolveVanished (fun tr ticker => latches_backfillEntryPrice out ticker tr) tr

theorem tripped_of_uncounted {tr : Trader} (uncounted : tr.state.consecutiveLosses = ∅)
    (category : String) : ¬ Tripped tr category := by
  unfold Tripped streakOf
  rw [uncounted]
  rintro ⟨positive, reached⟩
  exact absurd reached (not_le.mpr positive)

/-- A trader that starts has counted nothing and halted nothing. -/
theorem startup_uncounted (env : Env) (cfg : Config) (out : Outside) :
    (Trader.startup env cfg out).state.consecutiveLosses = ∅ ∧
      (Trader.startup env cfg out).state.haltedCategories = ∅ := by
  obtain ⟨fetched, before, after⟩ := startup_syncs env cfg out
  have starts : Latches (Trader.start cfg out.epoch) (Trader.startup env cfg out) :=
    ((Latches.of_upkeep before).trans (latches_syncPositions out fetched)).trans (.of_upkeep after)
  refine ⟨starts.streaks, Finset.eq_empty_of_forall_notMem fun category member => ?_⟩
  obtain halted | tripped := starts.tripped category member
  · cases halted
  · exact tripped_of_uncounted rfl category tripped

/-! ## Fills -/

/-- A fill is booked for the streak of its market's category, and then the halt of the category it
    was booked under is looked at. -/
structure BooksFill (tr : Trader) (ticker : String) (booked tr' : Trader) : Prop where
  enforced : tr' = booked.enforceCategoryHalt (tr.fillCategory ticker)
  cfg : booked.cfg = tr.cfg
  halted : booked.state.haltedCategories = tr.state.haltedCategories
  streaks : ∀ category, category ≠ (tr.state.tickerD ticker (tr.fillCategory ticker)).category →
    streakOf booked.state category = streakOf tr.state category

theorem booksFill_bookFill (out : Outside) (nf : NormalizedFill) (tr : Trader) :
    ∃ booked, BooksFill tr nf.ticker booked (tr.bookFill out nf) := by
  have known : (tr.state.ticker nf.ticker (tr.fillCategory nf.ticker)).tickers.lookup nf.ticker =
      some (tr.state.tickerD nf.ticker (tr.fillCategory nf.ticker)) := Finmap.lookup_insert _
  unfold Trader.bookFill
  dsimp only
  obtain ⟨state, applied, _⟩ := TraderState.applyFill_tickers known nf
    (fillFee (if nf.isTaker = true then tr.cfg.mm.takerFeeRate else tr.cfg.mm.makerFeeRate)
      nf.size nf.priceYes) out.epoch
  obtain ⟨halted, streaks⟩ := streakOf_applyFill known applied
  rw [applied]
  refine ⟨{ tr with state }, rfl, rfl, halted, fun category other => ?_⟩
  exact (streaks category).trans (if_neg fun same => other same.1)

theorem booksFill_processFill (out : Outside) (raw : Value) (tr : Trader) :
    tr.processFill out raw = tr ∨ ∃ nf ∈ normalizeFill raw, ∃ booked,
      BooksFill tr nf.ticker booked (tr.processFill out raw) := by
  unfold Trader.processFill
  split
  · exact Or.inl rfl
  next nf normal =>
    have seen := seenFill_fst (s := tr.state) (t := tr.state) rfl rfl nf.fillId
    dsimp only
    split_ifs
    · exact Or.inl rfl
    · obtain ⟨booked, books⟩ := booksFill_bookFill out nf { tr with state := (tr.state.seenFill nf.fillId).1 }
      refine Or.inr ⟨nf, normal, booked, books.enforced, books.cfg, ?_, ?_⟩
      · rw [books.halted, seen]
      · intro category other
        refine (books.streaks category ?_).trans ?_
        · rw [seen]
          exact other
        · rw [seen]
          rfl

/-! ## Runs -/

/-- What the halt remembers of a category's streak: no streak at the limit goes without a halt, and
    a halt stands exactly where the streak has stood at the limit since the last reset. -/
structure Remembers (category : String) (tr : Trader) (log : List Reading) : Prop where
  halts : Tripped tr category → category ∈ tr.state.haltedCategories
  reached : category ∈ tr.state.haltedCategories ↔ ReachedSince log

theorem reachedSince_append (log : List Reading) (tr : Trader) (category : String) :
    ReachedSince (log ++ reading tr category) ↔ ReachedSince log ∨ Tripped tr category := by
  unfold ReachedSince reading
  split_ifs with tripped
  · rw [List.rtakeWhile_concat_pos _ _ _ (by decide)]
    simp [tripped]
  · simp [tripped]

namespace Remembers

variable {category : String} {tr tr' : Trader} {log : List Reading}

theorem of_latches (remembers : Remembers category tr log) (latches : Latches tr tr') :
    Remembers category tr' log where
  halts tripped := latches.kept (remembers.halts ((latches.tripped_iff category).mp tripped))
  reached := by
    rw [← remembers.reached]
    refine ⟨fun member => ?_, fun member => latches.kept member⟩
    obtain halted | tripped := latches.tripped category member
    · exact halted
    · exact remembers.halts tripped

/-- Looking at the streak changes nothing where it is remembered. -/
theorem read (remembers : Remembers category tr log) :
    Remembers category tr (log ++ reading tr category) where
  halts := remembers.halts
  reached := by
    rw [reachedSince_append, ← remembers.reached]
    exact (or_iff_left_of_imp remembers.halts).symm

theorem of_booksFill (remembers : Remembers category tr log) {ticker : String} {booked : Trader}
    (books : BooksFill tr ticker booked tr')
    (agree : ∀ ts ∈ tr.state.tickers.lookup ticker, ts.category = tr.fillCategory ticker) :
    Remembers category tr' (log ++ reading tr' category) := by
  -- a market that is new is created under the category the fill is booked under
  have sameCategory : (tr.state.tickerD ticker (tr.fillCategory ticker)).category =
      tr.fillCategory ticker := by
    unfold TraderState.tickerD
    cases known : tr.state.tickers.lookup ticker with
    | none => rfl
    | some ts => exact agree ts known
  have latches := latches_enforceCategoryHalt (tr.fillCategory ticker) booked
  rw [← books.enforced] at latches
  have member : category ∈ tr'.state.haltedCategories ↔ category ∈ tr.state.haltedCategories ∨
      (category = tr.fillCategory ticker ∧ Tripped booked (tr.fillCategory ticker)) := by
    rw [books.enforced, mem_enforceCategoryHalt, books.halted]
  by_cases same : category = tr.fillCategory ticker
  · rw [and_iff_right same, ← same, ← latches.tripped_iff] at member
    refine ⟨fun tripped => member.mpr (Or.inr tripped), ?_⟩
    rw [member, reachedSince_append, remembers.reached]
  · rw [or_iff_left fun enforced => same enforced.1] at member
    have tripped : Tripped tr' category ↔ Tripped tr category := by
      rw [latches.tripped_iff]
      unfold Tripped
      rw [books.cfg, books.streaks category (by rwa [sameCategory])]
    refine ⟨fun now => member.mpr (remembers.halts (tripped.mp now)), ?_⟩
    rw [member, reachedSince_append, remembers.reached, tripped]
    exact (or_iff_left_of_imp fun now => remembers.reached.mp (remembers.halts now)).symm

end Remembers

theorem remembers_move (env : Env) (category : String) (tr : Trader) (m : Move)
    (log : List Reading) (remembers : Remembers category tr log) (agree : CategoriesAgree tr m) :
    Remembers category (tr.move env m) (log ++ readings env category tr m) := by
  have ends := booked_move env tr m
  unfold CategoriesAgree at agree
  unfold readings
  cases ends with
  | fill raw out turn moves =>
    rw [turn] at agree ⊢
    rw [moves]
    obtain same | ⟨nf, normal, booked, books⟩ := booksFill_processFill out raw tr
    · rw [same]
      exact remembers.read
    · exact remembers.of_booksFill books (agree nf normal)
  | sync out turn moves =>
    have synced := remembers.of_latches (latches_syncPositions out tr)
    rw [turn, moves]
    dsimp only
    split_ifs
    · exact synced.read
    · rwa [List.append_nil]
  | daily out turn moves =>
    rw [turn, moves]
    unfold Trader.maybeDailyReset
    dsimp only
    split_ifs with newDay
    · refine ⟨fun tripped => absurd tripped (tripped_of_uncounted rfl category), ?_⟩
      unfold ReachedSince
      rw [List.rtakeWhile_concat_neg _ _ _ (by decide)]
      simp [TraderState.resetDaily]
    · rwa [List.append_nil]
  | nothing quiet upkeep =>
    have kept := remembers.of_latches (.of_upkeep upkeep)
    split
    next turn => exact absurd trivial (quiet _ turn)
    next turn => exact absurd trivial (quiet _ turn)
    next turn => exact absurd trivial (quiet _ turn)
    · rwa [List.append_nil]

/-- In every run from startup, a category is halted exactly where its streak has stood at the limit
    since the last reset. -/
theorem halted_run (env : Env) (cfg : Config) (out : Outside) (moves : List Move)
    (agree : Along (Trader.move env) CategoriesAgree (Trader.startup env cfg out) moves)
    (category : String) :
    category ∈ (run (Trader.move env) (Trader.startup env cfg out) moves).state.haltedCategories ↔
      ReachedSince (outputs (Trader.move env) (readings env category) (Trader.startup env cfg out)
        moves) := by
  obtain ⟨uncounted, unhalted⟩ := startup_uncounted env cfg out
  have starts : Remembers category (Trader.startup env cfg out) [] := by
    refine ⟨fun tripped => absurd tripped (tripped_of_uncounted uncounted category), ?_⟩
    rw [unhalted]
    simp [ReachedSince]
  exact (outputs_induct (Trader.move env) (remembers_move env category) starts agree).reached

/-- The streak is what the history says, after every sequence of fills, settlements and resets, and
    in every run a category is halted exactly where it has reached the limit since the last reset. -/
theorem streak_counts_and_halts (env : Env) (cfg : Config) (out : Outside) :
    (∀ nowEpoch ops category,
      streakOf (run operate (TraderState.new nowEpoch) ops) category =
        lossesSince category (outputs operate marks (TraderState.new nowEpoch) ops)) ∧
    ∀ moves, Along (Trader.move env) CategoriesAgree (Trader.startup env cfg out) moves →
      ∀ category,
        category ∈ (run (Trader.move env) (Trader.startup env cfg out) moves).state.haltedCategories ↔
        ReachedSince
          (outputs (Trader.move env) (readings env category) (Trader.startup env cfg out) moves) :=
  ⟨streakOf_run, halted_run env cfg out⟩

/-! ## Two losing round trips -/

def haltingCfg : Config :=
  { marketCfg none with live := { (marketCfg none).live with haltOnConsecutiveLosses := 2 } }

def reported (fillId : String) (longYes : Bool) (priceYes : ℚ) : Move :=
  .turn ⟨.fill (report (makerFill fillId "b1" "KXBTCD-1" longYes 1 priceYes)), listing ["KXBTCD-1"] 0⟩

/-- Bought at 60 cents and sold at 50, twice. -/
def twoLosses : List Move :=
  [reported "f1" true (3 / 5), reported "f2" false (1 / 2), reported "f3" true (3 / 5),
    reported "f4" false (1 / 2)]

theorem streak_counts_and_halts_two_losses :
    let start := Trader.startup (marketEnv none) haltingCfg (listing ["KXBTCD-1"] 0)
    "KXBTCD" ∈ (run (Trader.move (marketEnv none)) start twoLosses).state.haltedCategories ∧
      "KXBTCD" ∉
        (run (Trader.move (marketEnv none)) start (twoLosses.take 3)).state.haltedCategories := by
  intro start
  have halts := (streak_counts_and_halts (marketEnv none) haltingCfg (listing ["KXBTCD-1"] 0)).2
  have agree : Along (Trader.move (marketEnv none)) CategoriesAgree start twoLosses := by
    decide +kernel
  have agree' : Along (Trader.move (marketEnv none)) CategoriesAgree start (twoLosses.take 3) := by
    decide +kernel
  refine ⟨(halts twoLosses agree "KXBTCD").mpr ?_, fun halted => ?_⟩
  · decide +kernel
  · exact absurd ((halts (twoLosses.take 3) agree' "KXBTCD").mp halted) (by decide +kernel)

end KalshiMm.Verified.Streak
