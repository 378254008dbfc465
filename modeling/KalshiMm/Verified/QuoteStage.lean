import KalshiMm.Verified.Handlers

/-!
# Book updates on the way to a quote

A book update folds its message, passes its gates in turn, and ends in at most one quote cycle.
The stage is what that cycle is called with; everything a quote implies about the state it was
decided on is read off it.
-/

namespace KalshiMm.Verified

open KalshiMm.Lib KalshiMm.Model

/-- What a quote cycle is called with. -/
structure Stage where
  trader : Trader
  category : String
  action : Action
  fvShift : ℚ
  allow : Bool × Bool

/-- The trader with a book message folded in. -/
def foldedIn (ticker category : String) (msg : Value) (tr : Trader) : Trader :=
  let ts := tr.state.tickerD ticker category
  { tr with state := tr.state.setTicker ticker { ts with book := Trader.foldBook ts.book msg } }

/-- The quote cycle a book update gets to, if it gets to one. -/
def quoteStage (env : Env) (out : Outside) (ticker : String) (msg : Value) (tr : Trader) :
    Option Stage :=
  match tr.activeTickers.lookup ticker with
  | none => none
  | some category =>
    let folded := foldedIn ticker category msg tr
    if PassesChecks out ticker category msg tr ∧
        checkRiskLimits folded.state folded.cfg.live (some folded.activeSet) = (true, none) then
      match folded.quoteShift out ticker category with
      | none => none
      | some fvShift =>
        let (ts, obs) := buildObservation (folded.state.tickerD ticker category) folded.cfg.mm
          out.epoch out.mono
        (obs.bind fun obs => (env.policies.lookup category).bind fun policy => policy obs).map
          fun action =>
            { trader := { folded with state := folded.state.setTicker ticker ts }
              category, action, fvShift, allow := folded.ladderTailGate ticker }
    else none

/-! ## What a book update senses -/

/-- The traders differ in what one market has sensed: its book, its mid samples, its prints. -/
def Sensed (ticker category : String) (tr tr' : Trader) : Prop :=
  ∃ book midHistory lastMidSample recentTrades,
    tr' = { tr with
      state := tr.state.setTicker ticker
        { tr.state.tickerD ticker category with book, midHistory, lastMidSample, recentTrades } }

theorem buildObservation_senses (ts : TickerState) (mm : MmParams) (nowS nowMono : ℚ) :
    ∃ midHistory lastMidSample recentTrades, (buildObservation ts mm nowS nowMono).1 =
      { ts with midHistory, lastMidSample, recentTrades } := by
  unfold buildObservation
  split
  · dsimp only
    split_ifs
    · exact ⟨_, _, _, rfl⟩
    · exact ⟨_, _, _, rfl⟩
    · exact ⟨_, _, _, rfl⟩
  · exact ⟨_, _, _, rfl⟩

theorem sensed_foldedIn (ticker category : String) (msg : Value) (tr : Trader) :
    Sensed ticker category tr (foldedIn ticker category msg tr) := ⟨_, _, _, _, rfl⟩

theorem sensed_observed (ticker category : String) (msg : Value) (tr : Trader) (mm : MmParams)
    (nowS nowMono : ℚ) :
    let folded := foldedIn ticker category msg tr
    Sensed ticker category tr { folded with
      state := folded.state.setTicker ticker
        (buildObservation (folded.state.tickerD ticker category) mm nowS nowMono).1 } := by
  intro folded
  have here : folded.state.tickerD ticker category =
      { tr.state.tickerD ticker category with
        book := Trader.foldBook (tr.state.tickerD ticker category).book msg } :=
    tickerD_setTicker ..
  obtain ⟨midHistory, lastMidSample, recentTrades, senses⟩ :=
    buildObservation_senses (folded.state.tickerD ticker category) mm nowS nowMono
  rw [senses, here]
  refine ⟨Trader.foldBook (tr.state.tickerD ticker category).book msg, midHistory, lastMidSample,
    recentTrades, ?_⟩
  -- the market is written twice, and the second time over the first
  simp only [folded, foldedIn, TraderState.setTicker, Finmap.insert_insert]

theorem positionValue_sensed {ticker category : String} {tr tr' : Trader}
    (sensed : Sensed ticker category tr tr') (active : Option (Finset String)) :
    tr'.state.positionValue active = tr.state.positionValue active := by
  obtain ⟨_, _, _, _, rfl⟩ := sensed
  refine Dict.sumOf_insert_of_share _ ?_
  unfold TraderState.tickerD
  cases tr.state.tickers.lookup ticker with
  | none => rfl
  | some ts => rfl

theorem checkRiskLimits_sensed {ticker category : String} {tr tr' : Trader}
    (sensed : Sensed ticker category tr tr') :
    checkRiskLimits tr'.state tr'.cfg.live (some tr'.activeSet) =
      checkRiskLimits tr.state tr.cfg.live (some tr.activeSet) := by
  have value := positionValue_sensed sensed (some tr.activeSet)
  obtain ⟨_, _, _, _, rfl⟩ := sensed
  unfold checkRiskLimits
  rw [value]
  rfl

theorem spotGated_sensed {ticker category : String} {tr tr' : Trader}
    (sensed : Sensed ticker category tr tr') (nowMono : ℚ) :
    tr'.spotGated nowMono = tr.spotGated nowMono := by
  obtain ⟨_, _, _, _, rfl⟩ := sensed
  rfl

/-- What the tail gate reads of one market. -/
def ladderShare (event : String) (entry : Sigma fun _ : String => TickerState) : Option (ℤ × ℚ) :=
  if entry.2.position = 0 ∨ ladderPrefix entry.1 ≠ some event then none
  else some (entry.2.position, (entry.2.book.mid.or entry.2.entryPrice).getD (1 / 2))

/-- The positions and marks of a ladder, as the tail gate sees them. -/
def ladderEntries (tr : Trader) (event : String) : Multiset (ℤ × ℚ) :=
  tr.state.tickers.entries.filterMap (ladderShare event)

theorem ladderTailGate_eq (tr : Trader) (ticker : String) : tr.ladderTailGate ticker =
    if tr.cfg.live.maxLadderTailLoss ≤ 0 then (true, true)
    else
      match ladderPrefix ticker with
      | none => (true, true)
      | some event =>
        (decide ((tailLosses (ladderEntries tr event)).2 < tr.cfg.live.maxLadderTailLoss),
          decide ((tailLosses (ladderEntries tr event)).1 < tr.cfg.live.maxLadderTailLoss)) := rfl

/-- Rewriting a market whose position and mark stay, or creating a flat one, leaves every ladder as
    it was. -/
theorem ladderEntries_of_insert {tr tr' : Trader} {ticker event : String} {ts' : TickerState}
    (category : String) (written : tr'.state.tickers = tr.state.tickers.insert ticker ts')
    (share : ladderShare event ⟨ticker, ts'⟩ =
      ladderShare event ⟨ticker, tr.state.tickerD ticker category⟩) :
    ladderEntries tr' event = ladderEntries tr event := by
  unfold ladderEntries
  rw [written]
  unfold TraderState.tickerD at share
  cases known : tr.state.tickers.lookup ticker with
  | none =>
    rw [known] at share
    rw [Finmap.entries_insert_of_notMem (Finmap.lookup_eq_none.mp known)]
    exact Multiset.filterMap_cons_none _ _ (share.trans (if_pos (Or.inl rfl)))
  | some ts =>
    rw [known, Option.getD_some] at share
    rw [Dict.entries_insert, Dict.entries_of_lookup known]
    cases counted : ladderShare event ⟨ticker, ts⟩ with
    | none =>
      rw [Multiset.filterMap_cons_none _ _ counted,
        Multiset.filterMap_cons_none _ _ (share.trans counted)]
    | some entry =>
      rw [Multiset.filterMap_cons_some _ _ _ counted,
        Multiset.filterMap_cons_some _ _ _ (share.trans counted)]

theorem ladderTailGate_of_entries {tr tr' : Trader} {ticker : String} (cfg : tr'.cfg = tr.cfg)
    (same : ∀ event, ladderPrefix ticker = some event →
      ladderEntries tr' event = ladderEntries tr event) :
    tr'.ladderTailGate ticker = tr.ladderTailGate ticker := by
  rw [ladderTailGate_eq, ladderTailGate_eq, cfg]
  cases onLadder : ladderPrefix ticker with
  | none => rfl
  | some event =>
    dsimp only
    rw [same event onLadder]

/-- The tail gate does not look at what observing a market adds to it. -/
theorem ladderTailGate_observed (tr : Trader) (ticker category : String) (mm : MmParams)
    (nowS nowMono : ℚ) (other : String) :
    ({ tr with
        state := tr.state.setTicker ticker
          (buildObservation (tr.state.tickerD ticker category) mm nowS nowMono).1 } :
      Trader).ladderTailGate other = tr.ladderTailGate other := by
  refine ladderTailGate_of_entries ?_ fun event _ => ladderEntries_of_insert category rfl ?_
  · rfl
  · obtain ⟨_, _, _, senses⟩ := buildObservation_senses (tr.state.tickerD ticker category) mm nowS
      nowMono
    rw [senses]
    rfl

/-! ## The gates a stage has passed -/

/-- A stage is that of an active market of an unhalted category, within the account limits and,
    where spot-bound, behind an open gate; its trader has sensed the market and nothing else. -/
structure Staged (out : Outside) (ticker : String) (msg : Value) (tr : Trader) (stage : Stage) :
    Prop where
  active : tr.activeTickers.lookup ticker = some stage.category
  passes : PassesChecks out ticker stage.category msg tr
  limits : checkRiskLimits tr.state tr.cfg.live (some tr.activeSet) = (true, none)
  ungated : stage.category ∈ tr.spotBound → tr.spotGated out.mono = false
  sensed : Sensed ticker stage.category tr stage.trader
  tailGate : stage.allow = stage.trader.ladderTailGate ticker

theorem staged_of_quoteStage {env : Env} {out : Outside} {ticker : String} {msg : Value}
    {tr : Trader} {stage : Stage} (reached : quoteStage env out ticker msg tr = some stage) :
    Staged out ticker msg tr stage := by
  unfold quoteStage at reached
  split at reached
  · cases reached
  next category active =>
  dsimp only at reached
  split_ifs at reached with gates
  obtain ⟨passes, limits⟩ := gates
  split at reached
  · cases reached
  next fvShift shifted =>
  obtain ⟨action, _, rfl⟩ := Option.map_eq_some_iff.mp reached
  have sensed := sensed_foldedIn ticker category msg tr
  refine ⟨active, passes, (checkRiskLimits_sensed sensed).symm.trans limits, fun bound => ?_,
    sensed_observed .., (ladderTailGate_observed ..).symm⟩
  rw [← spotGated_sensed sensed]
  unfold Trader.quoteShift at shifted
  rw [if_pos (show category ∈ (foldedIn ticker category msg tr).spotBound from bound)] at shifted
  split_ifs at shifted with gated
  exact Bool.eq_false_iff.mpr gated

/-- How a book update ends: on an inactive market, at one of its gates, at an account limit, which
    halts trading, or in the quote cycle of its stage. -/
inductive Updated (env : Env) (out : Outside) (ticker : String) (msg : Value) (tr : Trader) :
    Outcome → Prop where
  | inactive (unlisted : tr.activeTickers.lookup ticker = none)
      (unstaged : quoteStage env out ticker msg tr = none) : Updated env out ticker msg tr ⟨tr, []⟩
  | stopped {tr' : Trader} (category : String)
      (active : tr.activeTickers.lookup ticker = some category)
      (sensed : Sensed ticker category tr tr')
      (unstaged : quoteStage env out ticker msg tr = none) : Updated env out ticker msg tr ⟨tr', []⟩
  | halted {tr' : Trader} (category : String)
      (active : tr.activeTickers.lookup ticker = some category)
      (sensed : Sensed ticker category tr tr')
      (limit : (checkRiskLimits tr.state tr.cfg.live (some tr.activeSet)).2.isSome = true)
      (unstaged : quoteStage env out ticker msg tr = none) :
      Updated env out ticker msg tr (tr'.haltAllTrading out)
  | quoted (stage : Stage) (reached : quoteStage env out ticker msg tr = some stage) :
      Updated env out ticker msg tr (stage.trader.quoteCycle out stage.category ticker stage.action
        stage.fvShift stage.allow)

theorem not_passesChecks {out : Outside} {ticker category : String} {msg : Value} {tr : Trader} :
    ¬ PassesChecks out ticker category msg tr ↔
      (Trader.foldBook (tr.state.tickerD ticker category).book msg).isValid = false ∨
        out.mono - (tr.state.tickerD ticker category).lastQuoteTime < 1 ∨
        category ∈ tr.state.haltedCategories := by
  unfold PassesChecks
  rw [not_and_or, not_and_or, not_le, not_not, Bool.not_eq_true]

/-- A book update of an active market, gate by gate. -/
theorem onBookUpdate_of_active {env : Env} {out : Outside} {ticker category : String} {msg : Value}
    {tr : Trader} (active : tr.activeTickers.lookup ticker = some category) :
    tr.onBookUpdate env out ticker msg =
      let folded := foldedIn ticker category msg tr
      if ¬ PassesChecks out ticker category msg tr then ⟨folded, []⟩
      else
        match checkRiskLimits folded.state folded.cfg.live (some folded.activeSet) with
        | (_, some _) => folded.haltAllTrading out
        | (false, none) => ⟨folded, []⟩
        | (true, none) =>
          match folded.quoteShift out ticker category with
          | none => ⟨folded, []⟩
          | some fvShift => folded.observeAndQuote env out ticker category fvShift := by
  simp only [not_passesChecks]
  unfold Trader.onBookUpdate
  rw [active]
  rfl

theorem quoteStage_of_active {env : Env} {out : Outside} {ticker category : String} {msg : Value}
    {tr : Trader} (active : tr.activeTickers.lookup ticker = some category) :
    quoteStage env out ticker msg tr =
      let folded := foldedIn ticker category msg tr
      if PassesChecks out ticker category msg tr ∧
          checkRiskLimits folded.state folded.cfg.live (some folded.activeSet) = (true, none) then
        match folded.quoteShift out ticker category with
        | none => none
        | some fvShift =>
          let (ts, obs) := buildObservation (folded.state.tickerD ticker category) folded.cfg.mm
            out.epoch out.mono
          (obs.bind fun obs => (env.policies.lookup category).bind fun policy => policy obs).map
            fun action =>
              { trader := { folded with state := folded.state.setTicker ticker ts }
                category, action, fvShift, allow := folded.ladderTailGate ticker }
      else none := by
  unfold quoteStage
  rw [active]

theorem onBookUpdate_updated (env : Env) (out : Outside) (ticker : String) (msg : Value)
    (tr : Trader) : Updated env out ticker msg tr (tr.onBookUpdate env out ticker msg) := by
  cases active : tr.activeTickers.lookup ticker with
  | none =>
    have idle : tr.onBookUpdate env out ticker msg = ⟨tr, []⟩ := by
      unfold Trader.onBookUpdate
      rw [active]
    rw [idle]
    refine .inactive active ?_
    unfold quoteStage
    rw [active]
  | some category =>
    have sensed := sensed_foldedIn ticker category msg tr
    have risk := checkRiskLimits_sensed sensed
    have observed := sensed_observed ticker category msg tr tr.cfg.mm out.epoch out.mono
    have stages : quoteStage env out ticker msg tr = _ := quoteStage_of_active active
    rw [onBookUpdate_of_active active]
    dsimp only at stages ⊢
    by_cases passes : PassesChecks out ticker category msg tr
    · rw [if_neg (not_not.mpr passes)]
      split
      next limited =>
        refine .halted category active sensed ?_ ?_
        · rw [← risk, limited]
          rfl
        · rw [stages, limited, if_neg (by simp)]
      next limited =>
        refine .stopped category active sensed ?_
        rw [stages, limited, if_neg (by simp)]
      next within =>
        rw [if_pos ⟨passes, within⟩] at stages
        split
        next unshifted =>
          refine .stopped category active sensed ?_
          rw [stages, unshifted]
        next fvShift shifted =>
          rw [shifted] at stages
          unfold Trader.observeAndQuote
          dsimp only at stages ⊢
          split
          next undecided =>
            refine .stopped category active observed ?_
            rw [stages, undecided]
            rfl
          next action decided =>
            rw [decided, Option.map_some] at stages
            have quoted := Updated.quoted _ stages
            exact quoted
    · rw [if_pos passes]
      refine .stopped category active sensed ?_
      rw [stages, if_neg fun gates => passes gates.1]

theorem onBookUpdate_of_stage {env : Env} {out : Outside} {ticker : String} {msg : Value}
    {tr : Trader} {stage : Stage} (reached : quoteStage env out ticker msg tr = some stage) :
    tr.onBookUpdate env out ticker msg = stage.trader.quoteCycle out stage.category ticker
      stage.action stage.fvShift stage.allow := by
  have ends := onBookUpdate_updated env out ticker msg tr
  generalize tr.onBookUpdate env out ticker msg = outcome at ends
  have staged (unstaged : quoteStage env out ticker msg tr = none) : False := by
    rw [reached] at unstaged
    cases unstaged
  cases ends with
  | inactive _ unstaged => exact (staged unstaged).elim
  | stopped _ _ _ unstaged => exact (staged unstaged).elim
  | halted _ _ _ _ unstaged => exact (staged unstaged).elim
  | quoted stage' reached' =>
    rw [reached] at reached'
    cases reached'
    rfl

end KalshiMm.Verified
