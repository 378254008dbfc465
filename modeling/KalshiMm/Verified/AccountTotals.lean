import Mathlib.Data.List.DropRight
import Mathlib.Tactic.Linarith
import KalshiMm.Model.State

/-!
# Account totals

The realized PnL is kept twice, once for each market and once for the account, and fees and
resets reach the account alone.  One entry moves both by the same amount, so after any list of
entries the totals agree, and the daily figure is what the cumulative one has gained since the
latest reset.
-/

namespace KalshiMm.Verified.Totals

open KalshiMm.Lib KalshiMm.Model

/-- What can be entered on the account. -/
inductive Entry where
  | create (ticker category : String)
  | fill (ticker : String) (nf : NormalizedFill) (fee nowEpoch : ℚ)
  | settle (ticker : String) (resultYes : Option Bool)
  | reset (nowEpoch : ℚ)

namespace Entry

def isFill : Entry → Bool
  | .fill .. => true
  | _ => false

def isReset : Entry → Bool
  | .reset _ => true
  | _ => false

def fee : Entry → ℚ
  | .fill _ _ fee _ => fee
  | _ => 0

end Entry

/-- The account after an entry and what the entry realized; `none` where the source panics. -/
def enter (s : TraderState) : Entry → Option (TraderState × ℚ)
  | .create ticker category => some (s.ticker ticker category, 0)
  | .fill ticker nf fee nowEpoch => s.applyFill ticker nf fee nowEpoch
  | .settle ticker resultYes =>
    let (s, realized) := s.applySettlement ticker resultYes
    some (s, realized.getD 0)
  | .reset nowEpoch => some (s.resetDaily nowEpoch, 0)

/-- The account after a list of entries and what each of them realized. -/
def enterAll (s : TraderState) (entries : List Entry) : Option (TraderState × List ℚ) :=
  entries.foldlM (fun (s, amounts) entry =>
    (enter s entry).map fun (s, amount) => (s, amounts ++ [amount])) (s, [])

/-- Realized PnL summed over the markets. -/
def realizedTotal (s : TraderState) : ℚ := Dict.sumOf (fun _ ts => ts.realizedPnl) s.tickers

/-- The amounts other than zero. -/
def nonzero (amounts : List ℚ) : List ℚ := amounts.filter fun amount => amount ≠ 0

/-! ## One entry -/

/-- One entry moves market and account totals by the same amount, which a close tallies. -/
structure Moves (s s' : TraderState) (entry : Entry) (amount : ℚ) : Prop where
  markets : realizedTotal s' = realizedTotal s + amount
  cumulative : s'.cumulativePnl = s.cumulativePnl + amount - entry.fee
  daily : s'.dailyPnl = if entry.isReset then 0 else s.dailyPnl + amount - entry.fee
  fees : s'.feesPaid = s.feesPaid + entry.fee
  fills : s'.makerFills + s'.takerFills = s.makerFills + s.takerFills + entry.isFill.toNat
  closes : s'.wins + s'.losses = s.wins + s.losses + (nonzero [amount]).length

theorem sumOf_replaced (f : TickerState → ℚ) {m : Dict String TickerState} {ticker : String}
    {ts : TickerState} (known : m.lookup ticker = some ts) (ts' : TickerState) :
    Dict.sumOf (fun _ => f) (m.insert ticker ts') = Dict.sumOf (fun _ => f) m + (f ts' - f ts) := by
  rw [Dict.sumOf_insert, Dict.sumOf_of_lookup _ known]
  ring

theorem realizedTotal_ticker (s : TraderState) (ticker category : String) :
    realizedTotal (s.ticker ticker category) = realizedTotal s := by
  refine Dict.sumOf_insert_of_share _ ?_
  unfold TraderState.tickerD
  cases s.tickers.lookup ticker with
  -- a market created now has realized nothing
  | none => rfl
  | some ts => rfl

/-- What a close does to the counters it reaches. -/
theorem bookRealizedClose_counters (s : TraderState) (category : String) (realized : ℚ)
    (streakExempt : Bool) :
    let s' := s.bookRealizedClose category realized streakExempt
    s'.cumulativePnl = s.cumulativePnl + realized ∧ s'.dailyPnl = s.dailyPnl + realized ∧
      s'.feesPaid = s.feesPaid ∧ s'.makerFills = s.makerFills ∧ s'.takerFills = s.takerFills ∧
      s'.wins + s'.losses = s.wins + s.losses + (nonzero [realized]).length := by
  intro s'
  by_cases scratch : realized = 0
  · simp [s', TraderState.bookRealizedClose, scratch, nonzero]
  · by_cases won : 0 < realized
    · simp [s', TraderState.bookRealizedClose, scratch, won, nonzero]
      omega
    · simp [s', TraderState.bookRealizedClose, scratch, won, nonzero]
      omega

theorem moves_create (s : TraderState) (ticker category : String) :
    Moves s (s.ticker ticker category) (.create ticker category) 0 where
  markets := by rw [realizedTotal_ticker, add_zero]
  cumulative := by simp [TraderState.ticker, TraderState.setTicker, Entry.fee]
  daily := by simp [TraderState.ticker, TraderState.setTicker, Entry.fee, Entry.isReset]
  fees := by simp [TraderState.ticker, TraderState.setTicker, Entry.fee]
  fills := rfl
  closes := rfl

theorem moves_reset (s : TraderState) (nowEpoch : ℚ) :
    Moves s (s.resetDaily nowEpoch) (.reset nowEpoch) 0 where
  markets := (add_zero _).symm
  cumulative := by simp [TraderState.resetDaily, Entry.fee]
  daily := rfl
  fees := (add_zero _).symm
  fills := rfl
  closes := rfl

/-- A fill of a known market, as one booking: the fee, the market, the close, the log. -/
theorem applyFill_of_known {s : TraderState} {ticker : String} {ts : TickerState}
    (known : s.tickers.lookup ticker = some ts) (nf : NormalizedFill) (fee nowEpoch : ℚ) :
    s.applyFill ticker nf fee nowEpoch =
      some (((((s.bookFee nf fee).setTicker ticker (ts.filled nf nowEpoch)).bookRealizedClose
        ts.category (ts.realizedOn nf) ts.carried).logTrade nf nowEpoch), ts.realizedOn nf) := by
  have known' : (s.bookFee nf fee).tickers.lookup ticker = some ts := known
  simp only [TraderState.applyFill, known', Option.map_some]
  split
  · rfl
  next scratch =>
    -- a fill that realizes nothing is logged without a close
    have scratch : ts.realizedOn nf = 0 := not_not.mp scratch
    simp [TraderState.bookRealizedClose, scratch, TickerState.filled, TickerState.bookFill]

theorem bookFee_fills (s : TraderState) (nf : NormalizedFill) (fee : ℚ) :
    (s.bookFee nf fee).makerFills + (s.bookFee nf fee).takerFills =
      s.makerFills + s.takerFills + 1 := by
  unfold TraderState.bookFee
  cases taker : nf.isTaker with
  | false => simp; omega
  | true => simp; omega

theorem moves_fill {s s' : TraderState} {ticker : String} {nf : NormalizedFill}
    {fee nowEpoch amount : ℚ}
    (applied : s.applyFill ticker nf fee nowEpoch = some (s', amount)) :
    Moves s s' (.fill ticker nf fee nowEpoch) amount := by
  cases known : s.tickers.lookup ticker with
  | none =>
    have absent : (s.bookFee nf fee).tickers.lookup ticker = none := known
    rw [TraderState.applyFill, absent] at applied
    cases applied
  | some ts =>
    rw [applyFill_of_known known] at applied
    cases applied
    obtain ⟨cumulative, daily, fees, maker, taker, closes⟩ := bookRealizedClose_counters
      ((s.bookFee nf fee).setTicker ticker (ts.filled nf nowEpoch)) ts.category
      (ts.realizedOn nf) ts.carried
    exact
      { markets := by
          simp only [realizedTotal, TraderState.logTrade, TraderState.bookRealizedClose_tickers,
            TraderState.setTicker_tickers, TraderState.bookFee]
          rw [sumOf_replaced TickerState.realizedPnl known, TickerState.filled, add_sub_cancel_left]
        cumulative := cumulative.trans (sub_add_eq_add_sub _ _ _)
        daily := daily.trans (sub_add_eq_add_sub _ _ _)
        fees
        fills := (congrArg₂ _ maker taker).trans (bookFee_fills s nf fee)
        closes }

theorem moves_settle (s : TraderState) (ticker : String) (resultYes : Option Bool) :
    Moves s (s.applySettlement ticker resultYes).1 (.settle ticker resultYes)
      ((s.applySettlement ticker resultYes).2.getD 0) := by
  have unmoved : Moves s s (.settle ticker resultYes) 0 :=
    { markets := (add_zero _).symm
      cumulative := by simp [Entry.fee]
      daily := by simp [Entry.fee, Entry.isReset]
      fees := (add_zero _).symm
      fills := rfl
      closes := rfl }
  unfold TraderState.applySettlement
  cases known : s.tickers.lookup ticker with
  | none => exact unmoved
  | some ts =>
    dsimp only
    split_ifs
    · exact unmoved
    · split
      next entry resultYes' _ =>
        obtain ⟨cumulative, daily, fees, maker, taker, closes⟩ := bookRealizedClose_counters
          (s.setTicker ticker { ts with
            position := 0, entryPrice := none, carried := false
            realizedPnl := ts.realizedPnl + ts.position * ((if resultYes' then 1 else 0) - entry) })
          ts.category (ts.position * ((if resultYes' then 1 else 0) - entry)) true
        exact
          { markets := by
              simp only [realizedTotal, TraderState.bookRealizedClose_tickers,
                TraderState.setTicker_tickers, Option.getD_some]
              rw [sumOf_replaced TickerState.realizedPnl known, add_sub_cancel_left]
            cumulative := cumulative.trans (sub_zero _).symm
            daily := daily.trans (sub_zero _).symm
            fees := fees.trans (add_zero _).symm
            fills := by rw [maker, taker]; rfl
            closes }
      · -- without a basis or a binary result the position is cleared, and nothing is realized
        exact
          { markets := by
              rw [realizedTotal, TraderState.setTicker_tickers,
                sumOf_replaced TickerState.realizedPnl known]
              simp [realizedTotal]
            cumulative := unmoved.cumulative
            daily := unmoved.daily
            fees := unmoved.fees
            fills := rfl
            closes := rfl }

/-- Every entry that does not panic moves the totals together. -/
theorem enter_moves {s s' : TraderState} {entry : Entry} {amount : ℚ}
    (entered : enter s entry = some (s', amount)) : Moves s s' entry amount := by
  cases entry with
  | create ticker category => cases entered; exact moves_create s ticker category
  | fill ticker nf fee nowEpoch => exact moves_fill entered
  | settle ticker resultYes => cases entered; exact moves_settle s ticker resultYes
  | reset nowEpoch => cases entered; exact moves_reset s nowEpoch

/-! ## Runs -/

theorem enterAll_concat {s s' : TraderState} {entries : List Entry} {entry : Entry}
    {amounts : List ℚ} (entered : enterAll s (entries ++ [entry]) = some (s', amounts)) :
    ∃ before earlier amount, enterAll s entries = some (before, earlier) ∧
      enter before entry = some (s', amount) ∧ amounts = earlier ++ [amount] := by
  simp only [enterAll, List.foldlM_append, Option.bind_eq_bind, Option.bind_eq_some_iff,
    List.foldlM_cons, List.foldlM_nil, Option.pure_def, Option.map_eq_some_iff] at entered
  obtain ⟨⟨before, earlier⟩, ran, _, ⟨⟨after, amount⟩, last, rfl⟩, done⟩ := entered
  cases done
  exact ⟨before, earlier, amount, ran, last, rfl⟩

theorem realizedTotal_new (nowEpoch : ℚ) : realizedTotal (TraderState.new nowEpoch) = 0 :=
  Dict.sumOf_empty _

/-- The account agrees with its markets after any entries from a new account: what it has made is
    what they realized less the fees, the daily figure is what it has made since the latest reset,
    and its tallies count the fills and the closes. -/
theorem totals_agree (nowEpoch : ℚ) {entries : List Entry} {s : TraderState} {amounts : List ℚ}
    (entered : enterAll (TraderState.new nowEpoch) entries = some (s, amounts)) :
    s.cumulativePnl = realizedTotal s - s.feesPaid ∧
    (∃ start earlier,
      enterAll (TraderState.new nowEpoch) (entries.rdropWhile fun e => !e.isReset) =
        some (start, earlier) ∧
      s.dailyPnl = s.cumulativePnl - start.cumulativePnl) ∧
    s.makerFills + s.takerFills = entries.countP Entry.isFill ∧
    s.wins + s.losses = (nonzero amounts).length := by
  -- on the last entry: what it adds to one total, it adds to the others
  induction entries using List.reverseRecOn generalizing s amounts with
  | nil =>
    cases entered
    exact ⟨by rw [realizedTotal_new]; exact (sub_zero _).symm, ⟨_, _, rfl, (sub_self _).symm⟩,
      rfl, rfl⟩
  | append_singleton entries entry inductionHypothesis =>
    obtain ⟨before, earlier, amount, ran, last, rfl⟩ := enterAll_concat entered
    obtain ⟨cumulative, ⟨start, sofar, reset, daily⟩, fills, closes⟩ := inductionHypothesis ran
    have moves := enter_moves last
    refine ⟨?_, ?_, ?_, ?_⟩
    · rw [moves.cumulative, moves.markets, moves.fees, cumulative]
      ring
    · cases isReset : entry.isReset with
      | true =>
        refine ⟨s, earlier ++ [amount], ?_, ?_⟩
        · rw [List.rdropWhile_concat_neg _ _ _ (by simp [isReset])]
          exact entered
        · rw [moves.daily, isReset, if_pos rfl, sub_self]
      | false =>
        refine ⟨start, sofar, ?_, ?_⟩
        · rw [List.rdropWhile_concat_pos _ _ _ (by simp [isReset])]
          exact reset
        · rw [moves.daily, isReset, if_neg Bool.false_ne_true, moves.cumulative, daily]
          ring
    · rw [moves.fills, fills, List.countP_append, List.countP_singleton]
      cases entry.isFill <;> rfl
    · rw [moves.closes, closes, nonzero, nonzero, nonzero, List.filter_append, List.length_append]

theorem totals_agree_round_trip :
    let trade (id : String) (longYes isTaker : Bool) (priceYes : ℚ) : Entry :=
      .fill "KXBTCD-25JUL2417-T100"
        { fillId := id, ticker := "KXBTCD-25JUL2417-T100", longYes, priceYes, size := 2, isTaker,
          orderId := none } (1 / 100) 0
    let entries : List Entry :=
      [.create "KXBTCD-25JUL2417-T100" "KXBTCD", trade "f1" true false (1 / 4),
        trade "f2" false true (9 / 20), .reset 60, trade "f3" false false (9 / 10),
        .settle "KXBTCD-25JUL2417-T100" (some true)]
    ∃ s amounts, enterAll (TraderState.new 0) entries = some (s, amounts) ∧
      amounts = [0, 0, 2 / 5, 0, 0, -1 / 5] ∧
      s.cumulativePnl = realizedTotal s - s.feesPaid ∧ s.wins + s.losses = 2 := by
  intro trade entries
  have realized : (enterAll (TraderState.new 0) entries).map Prod.snd =
      some [0, 0, 2 / 5, 0, 0, -1 / 5] := by decide +kernel
  obtain ⟨⟨s, amounts⟩, entered, rfl⟩ := Option.map_eq_some_iff.mp realized
  obtain ⟨cumulative, _, _, closes⟩ := totals_agree 0 entered
  exact ⟨s, _, entered, rfl, cumulative, closes.trans (by decide +kernel)⟩

end KalshiMm.Verified.Totals
