import Mathlib.Algebra.BigOperators.Group.Finset.Piecewise
import KalshiMm.Model.Scoreboard
import KalshiMm.Verified.Handlers
import KalshiMm.Verified.Pnl
import KalshiMm.Verified.WellFormedFills

/-!
# The scoreboard agrees with the bot's books

The bot keeps an average cost and realizes PnL fill by fill; the scoreboard adds up cash and contracts
and pays out at the end.  Over the fills that the bot has booked, the two come to the same on every
market, once the bot's open contracts are marked at what the scoreboard pays for them.
-/

namespace KalshiMm.Verified.Scores

open KalshiMm.Lib KalshiMm.Model Pnl Scoreboard

/-! ## Records that both read alike -/

/-- The record has this number at the key, as a number or spelled out. -/
def Shows (fill : Value) (key : String) (x : ℚ) : Prop :=
  fill.get key = some (.number x) ∨
    ∃ s, fill.get key = some (.string s) ∧ parseFloat s = some (.finite x)

/-- A fill as the exchange reports it: a market has one name, contracts are whole, and a YES and a NO
    make a dollar. -/
structure Reported (fill : Value) : Prop where
  market : fill.get "market_ticker" = none ∨ fill.get "market_ticker" = fill.get "ticker"
  count : ∃ count : ℤ, |count| < 2 ^ 63 ∧ Shows fill "count_fp" count
  price : ∃ price, Shows fill "yes_price_dollars" price ∧ Shows fill "no_price_dollars" (1 - price)
  fee : ∃ fee, feeCost fill = some fee

theorem parseF64_of_parseFloat {s : String} {x : ℚ} (parsed : parseFloat s = some (.finite x)) :
    parseF64 s = some x := by
  unfold parseFloat at parsed
  dsimp only at parsed
  -- what spells no number is not finite
  split_ifs at parsed
  · cases parsed
  · cases parsed
  · obtain ⟨_, read, same⟩ := Option.map_eq_some_iff.mp parsed
    cases same
    exact read

section Shows

variable {fill : Value} {key : String} {x : ℚ}

theorem Shows.numField (shows' : Shows fill key x) (keys : List String) :
    numField fill (key :: keys) = some (.finite x) := by
  unfold Model.numField
  obtain number | ⟨s, text, parsed⟩ := shows'
  · rw [number]
  · rw [text]
    exact parsed

theorem Shows.pyFloat (shows' : Shows fill key x) : (fill.get key).bind pyFloat = some x := by
  obtain number | ⟨s, text, parsed⟩ := shows'
  · rw [number]
    rfl
  · rw [text]
    exact parseF64_of_parseFloat parsed

end Shows

/-- A whole count that is not too large is read as it stands. -/
theorem roundToI64_intCast {count : ℤ} (small : |count| < 2 ^ 63) :
    (F64.finite count).roundToI64 = count := by
  obtain ⟨low, high⟩ := abs_lt.mp small
  rw [F64.roundToI64_finite, roundTiesEven_isNearest.intCast]
  unfold toI64
  omega

section Reported

variable {fill : Value} {nf : NormalizedFill}

theorem textOf_of_getStr {key word : String} (held : fill.getStr key = some word) :
    textOf fill key = some word := by
  obtain ⟨value, found, text⟩ := Option.bind_eq_some_iff.mp held
  rw [textOf, found]
  cases value <;> cases text
  rfl

/-- The scoreboard reads the market's name that the bot reads. -/
theorem textOf_of_reported (reported : Reported fill) {ticker : String}
    (named : strField fill WellFormed.tickerKeys = some ticker) :
    textOf fill "ticker" = some ticker := by
  obtain ⟨found, _⟩ := Option.filter_eq_some_iff.mp named
  refine textOf_of_getStr ?_
  have other : fill.getStr "market_ticker" = none ∨
      fill.getStr "market_ticker" = fill.getStr "ticker" := by
    unfold Value.getStr
    obtain missing | same := reported.market
    · exact Or.inl (by rw [missing, Option.bind_none])
    · exact Or.inr (by rw [same])
  unfold WellFormed.tickerKeys at found
  rw [List.findSome?_cons, List.findSome?_singleton] at found
  obtain missing | same := other
  · rw [missing] at found
    exact found
  · rw [same] at found
    cases held : fill.getStr "ticker" with
    | none => rw [held] at found; cases found
    | some word => rw [held] at found; exact found

/-- The scoreboard tallies a reported fill as the bot reads it. -/
theorem tallyFill_of_reported (reported : Reported fill) (normal : normalizeFill fill = some nf)
    (per : Dict String Tally) :
    ∃ fee, tallyFill per fill = some (if scored nf.ticker = true then per.insert nf.ticker
      (((per.lookup nf.ticker).getD {}).add nf.signedSize nf.priceYes fee) else per) := by
  obtain ⟨ticker, action, side, reads⟩ := WellFormed.readsAs_of_accepted normal
  obtain ⟨count, small, counted⟩ := reported.count
  obtain ⟨price, yes, no⟩ := reported.price
  obtain ⟨fee, charged⟩ := reported.fee
  obtain ⟨word, held, text⟩ := Option.bind_eq_some_iff.mp reads.actionRead
  have sized : nf.size = count := by
    rw [reads.size, WellFormed.sizeOf, WellFormed.countKeys, counted.numField, Option.getD_some,
      roundToI64_intCast small]
  have priced : nf.priceYes = price := by
    rw [reads.price, WellFormed.priceOf, WellFormed.priceKeys]
    split_ifs
    · rw [yes.numField]
      rfl
    · rw [no.numField]
      exact sub_sub_cancel 1 price
  have signed : (nf.signedSize : ℚ) = if word.asStr = some "buy" then (count : ℚ) else -count := by
    rw [NormalizedFill.signedSize, reads.direction, sized, text]
    by_cases buys : action = "buy"
    · simp [buys]
    · simp [buys]
  refine ⟨fee, ?_⟩
  unfold tallyFill
  rw [textOf_of_reported reported reads.tickerRead, ← reads.named, counted.pyFloat, held,
    yes.pyFloat, charged, priced, signed]
  simp only [Option.bind_eq_bind, Option.bind_some]
  split_ifs <;> rfl

end Reported

/-! ## What the fills come to -/

/-- The total of a quantity over the fills of a market. -/
def totalOf (ticker : String) (f : NormalizedFill → ℚ) (fills : List Value) : ℚ :=
  (fills.map fun raw =>
    (normalizeFill raw).elim 0 fun nf => if nf.ticker = ticker then f nf else 0).sum

theorem totalOf_append (ticker : String) (f : NormalizedFill → ℚ) (first second : List Value) :
    totalOf ticker f (first ++ second) = totalOf ticker f first + totalOf ticker f second := by
  rw [totalOf, List.map_append, List.sum_append]
  rfl

theorem totalOf_cons (ticker : String) (f : NormalizedFill → ℚ) (raw : Value) (fills : List Value) :
    totalOf ticker f (raw :: fills) = totalOf ticker f [raw] + totalOf ticker f fills :=
  totalOf_append ticker f [raw] fills

theorem totalOf_perm (ticker : String) (f : NormalizedFill → ℚ) {fills booked : List Value}
    (same : fills.Perm booked) : totalOf ticker f fills = totalOf ticker f booked :=
  (same.map _).sum_eq

theorem totalOf_singleton (ticker : String) (f : NormalizedFill → ℚ) {raw : Value}
    {nf : NormalizedFill} (normal : normalizeFill raw = some nf) :
    totalOf ticker f [raw] = if nf.ticker = ticker then f nf else 0 := by
  rw [totalOf, List.map_singleton, List.sum_singleton, normal, Option.elim_some]

def signed (nf : NormalizedFill) : ℚ := nf.signedSize

def paid (nf : NormalizedFill) : ℚ := nf.signedSize * nf.priceYes

/-- What a fill gains where a contract comes to `value`. -/
def gained (value : ℚ) (nf : NormalizedFill) : ℚ := nf.signedSize * (value - nf.priceYes)

theorem totalOf_gained (ticker : String) (value : ℚ) (fills : List Value) :
    totalOf ticker (gained value) fills =
      totalOf ticker signed fills * value - totalOf ticker paid fills := by
  induction fills with
  | nil => simp [totalOf]
  | cons raw fills inductionHypothesis =>
    have split (f : NormalizedFill → ℚ) := totalOf_cons ticker f raw fills
    rw [split, split, split, inductionHypothesis]
    have first : totalOf ticker (gained value) [raw] =
        totalOf ticker signed [raw] * value - totalOf ticker paid [raw] := by
      cases normal : normalizeFill raw with
      | none => simp [totalOf, normal]
      | some nf =>
        rw [totalOf_singleton ticker _ normal, totalOf_singleton ticker _ normal,
          totalOf_singleton ticker _ normal]
        split_ifs
        · rw [gained, signed, paid]
          ring
        · ring
    rw [first]
    ring

/-! ## The tallies -/

def tallyOf (per : Dict String Tally) (ticker : String) : Tally := (per.lookup ticker).getD {}

/-- The fills are tallied on the scored markets. -/
structure Tallies (fills : List Value) (per per' : Dict String Tally) : Prop where
  net : ∀ ticker, scored ticker = true →
    (tallyOf per' ticker).net = (tallyOf per ticker).net + totalOf ticker signed fills
  cash : ∀ ticker, scored ticker = true →
    (tallyOf per' ticker).cash = (tallyOf per ticker).cash - totalOf ticker paid fills
  others : ∀ ticker, ¬ scored ticker = true → per'.lookup ticker = per.lookup ticker

theorem Tallies.cons {raw : Value} {fills : List Value} {per per' per'' : Dict String Tally}
    (first : Tallies [raw] per per') (rest : Tallies fills per' per'') :
    Tallies (raw :: fills) per per'' where
  net ticker counts := by
    rw [rest.net ticker counts, first.net ticker counts, totalOf_cons _ _ raw fills,
      add_assoc]
  cash ticker counts := by
    rw [rest.cash ticker counts, first.cash ticker counts, totalOf_cons _ _ raw fills,
      sub_sub]
  others ticker omitted := (rest.others ticker omitted).trans (first.others ticker omitted)

/-- A fill that the bot accepts and that the exchange reports. -/
def Accepted (raw : Value) : Prop := Reported raw ∧ ∃ nf, normalizeFill raw = some nf

theorem tallies_fill {raw : Value} (accepted : Accepted raw) (per : Dict String Tally) :
    ∃ per', tallyFill per raw = some per' ∧ Tallies [raw] per per' := by
  obtain ⟨reported, nf, normal⟩ := accepted
  obtain ⟨fee, tallied⟩ := tallyFill_of_reported reported normal per
  refine ⟨_, tallied, ?_⟩
  split_ifs with counts
  · have entry (ticker : String) : tallyOf (per.insert nf.ticker
        (((per.lookup nf.ticker).getD {}).add nf.signedSize nf.priceYes fee)) ticker =
        if ticker = nf.ticker then (tallyOf per nf.ticker).add nf.signedSize nf.priceYes fee
        else tallyOf per ticker := by
      rw [tallyOf, Dict.lookup_insert_eq_ite]
      split_ifs <;> rfl
    refine ⟨fun ticker _ => ?_, fun ticker _ => ?_, fun ticker omitted => ?_⟩
    · rw [entry, totalOf_singleton ticker _ normal]
      by_cases same : ticker = nf.ticker
      · rw [if_pos same, if_pos same.symm, same]
        rfl
      · rw [if_neg same, if_neg (Ne.symm same), add_zero]
    · rw [entry, totalOf_singleton ticker _ normal]
      by_cases same : ticker = nf.ticker
      · rw [if_pos same, if_pos same.symm, same]
        rfl
      · rw [if_neg same, if_neg (Ne.symm same), sub_zero]
    · refine Finmap.lookup_insert_of_ne _ fun same => omitted ?_
      rw [same]
      exact counts
  · have nothing (ticker : String) (scores : scored ticker = true) (f : NormalizedFill → ℚ) :
        totalOf ticker f [raw] = 0 := by
      have elsewhere : nf.ticker ≠ ticker := by
        rintro rfl
        exact counts scores
      rw [totalOf_singleton ticker f normal, if_neg elsewhere]
    refine ⟨fun ticker scores => ?_, fun ticker scores => ?_, fun _ _ => rfl⟩
    · rw [nothing ticker scores, add_zero]
    · rw [nothing ticker scores, sub_zero]

theorem tallies_fills {fills : List Value} (accepted : ∀ raw ∈ fills, Accepted raw)
    (per : Dict String Tally) :
    ∃ per', fills.foldlM tallyFill per = some per' ∧ Tallies fills per per' := by
  induction fills generalizing per with
  | nil =>
    refine ⟨per, rfl, fun ticker _ => ?_, fun ticker _ => ?_, fun _ _ => rfl⟩
    · exact (add_zero _).symm
    · exact (sub_zero _).symm
  | cons raw fills inductionHypothesis =>
    obtain ⟨head, tail⟩ := List.forall_mem_cons.mp accepted
    obtain ⟨per', first, tallied⟩ := tallies_fill head per
    obtain ⟨per'', rest, tallies⟩ := inductionHypothesis tail per'
    refine ⟨per'', ?_, tallied.cons tallies⟩
    rw [List.foldlM_cons, first]
    exact rest

/-! ## The board's total -/

/-- What the scoreboard pays for a contract. -/
def payout (settled : Dict String (ℤ × Bool)) (ticker : String) : ℚ :=
  (settled.lookup ticker).elim 0 fun settlement => settleValue settlement.2

/-- The days and the pending bucket together hold every market once. -/
theorem total_add_pendingCash (board : Board) : board.total + board.pendingCash =
    Dict.sumOf (fun ticker p => p.cash + p.net * payout board.settled ticker - p.fees) board.per := by
  have onDay (day : ℤ) : board.byDay day = ∑ ticker ∈ board.per.keys,
      (board.per.lookup ticker).elim 0 (board.share day ticker) :=
    Dict.sumOf_eq_sum _ (Finset.Subset.refl board.per.keys)
  rw [Board.pendingCash, Dict.sumOf_eq_sum _ (Finset.Subset.refl board.per.keys),
    Dict.sumOf_eq_sum _ (Finset.Subset.refl board.per.keys), Board.total,
    Finset.sum_congr rfl fun day _ => onDay day, Finset.sum_comm, ← Finset.sum_add_distrib]
  refine Finset.sum_congr rfl fun ticker traded => ?_
  obtain ⟨p, held⟩ := Finmap.mem_iff.mp (Finmap.mem_keys.mp traded)
  simp only [held, Option.elim_some, payout, Board.share]
  cases settlement : board.settled.lookup ticker with
  | none => simp
  | some noted =>
    obtain ⟨settledOn, yes⟩ := noted
    have listed : settledOn ∈ board.days :=
      Finset.mem_biUnion.mpr ⟨ticker, traded, by rw [settlement]; simp⟩
    simp only [Finset.sum_ite_eq, listed, if_true]
    simp [Board.pnl, settleValue]

/-- With the fees added, what is left is the cash and the contracts at their payout. -/
theorem total_add_fees (board : Board) :
    board.total + board.pendingCash + Dict.sumOf (fun _ p => p.fees) board.per =
      Dict.sumOf (fun ticker p => p.cash + p.net * payout board.settled ticker) board.per := by
  rw [total_add_pendingCash, Dict.sumOf, Dict.sumOf, Dict.sumOf, ← Multiset.sum_map_add]
  exact congrArg Multiset.sum (Multiset.map_congr rfl fun _ _ => sub_add_cancel _ _)

/-! ## The bot's books -/

/-- What moves the bot's accounts: a report of a fill, and the lookup of a vanished market. -/
inductive Event where
  | fill (out : Outside) (raw : Value)
  | resolve (listing : Dict String (Option Bool)) (ticker : String)

def Event.step (tr : Trader) : Event → Trader
  | .fill out raw => tr.processFill out raw
  | .resolve listing ticker => tr.resolveVanished listing ticker

/-- The reports that an event books. -/
def newlyBooked (tr : Trader) : Event → List Value
  | .fill _ raw =>
    if (normalizeFill raw).any fun nf => nf.fillId ∉ tr.state.fillIds then [raw] else []
  | .resolve _ _ => []

/-- No position on a scored market is written off, and the bot settles only what the scoreboard has
    noted, at the same result. -/
def Settles (settled : Dict String (ℤ × Bool)) (tr : Trader) : Event → Prop
  | .fill _ _ => True
  | .resolve listing ticker => scored ticker = true → tr.positionOf ticker ≠ 0 →
    match listing.lookup ticker with
    | none => (tr.settlementChecks.lookup ticker).getD 0 + 1 < maxSettlementChecks
    | some resultYes => ∃ day yes, settled.lookup ticker = some (day, yes) ∧ resultYes = some yes

/-- The market's account is worth what the booked fills gain where a contract comes to `value`. -/
structure Booked (value : ℚ) (ticker : String) (tr : Trader) (log : List Value) : Prop where
  basis : ∀ category, HasBasis (tr.state.tickerD ticker category)
  worth : ∀ category,
    (account (tr.state.tickerD ticker category)).worth value = totalOf ticker (gained value) log

variable {value : ℚ} {ticker : String} {tr tr' : Trader} {log : List Value}

theorem Booked.congr (booked : Booked value ticker tr log)
    (same : tr'.state.tickers.lookup ticker = tr.state.tickers.lookup ticker) :
    Booked value ticker tr' log := by
  have state (category : String) :
      tr'.state.tickerD ticker category = tr.state.tickerD ticker category := by
    rw [TraderState.tickerD, TraderState.tickerD, same]
  constructor
  · intro category
    rw [state]
    exact booked.basis category
  · intro category
    rw [state]
    exact booked.worth category

theorem Booked.of_insert {ts : TickerState} (basis : HasBasis ts)
    (worth : (account ts).worth value = totalOf ticker (gained value) log)
    (written : tr'.state.tickers = tr.state.tickers.insert ticker ts) :
    Booked value ticker tr' log := by
  have state (category : String) : tr'.state.tickerD ticker category = ts := by
    rw [TraderState.tickerD, written, Finmap.lookup_insert, Option.getD_some]
  constructor
  · intro category
    rw [state]
    exact basis
  · intro category
    rw [state]
    exact worth

/-- A fill gains what it gains to the account of its market, and nothing to the others. -/
theorem booked_fill (booked : Booked value ticker tr log) (out : Outside) (raw : Value) :
    Booked value ticker (tr.processFill out raw) (log ++ newlyBooked tr (.fill out raw)) := by
  have ends := processFill_outcome out raw tr
  generalize tr.processFill out raw = tr' at ends
  cases ends with
  | ignored stale =>
    have nothing : newlyBooked tr (.fill out raw) = [] := by
      rw [newlyBooked]
      cases normal : normalizeFill raw with
      | none => rfl
      | some nf => simp [stale nf normal]
    rwa [nothing, List.append_nil]
  | booked nf normal fresh _ written =>
    have one : newlyBooked tr (.fill out raw) = [raw] := by
      simp [newlyBooked, normal, fresh]
    have split := totalOf_append ticker (gained value) log [raw]
    rw [totalOf_singleton _ _ normal] at split
    rw [one]
    by_cases same : nf.ticker = ticker
    · rw [same] at written
      have basis := booked.basis (tr.fillCategory ticker)
      rw [if_pos same] at split
      refine .of_insert (hasBasis_filled basis out.epoch) ?_ written
      rw [account_filled basis (normalizeFill_size normal) value, Account.worth_move,
        booked.worth, split]
      rfl
    · have kept : Booked value ticker tr' log := booked.congr
        (by rw [written, Finmap.lookup_insert_of_ne _ (Ne.symm same)])
      refine ⟨kept.basis, fun category => ?_⟩
      rw [kept.worth, split, if_neg same, add_zero]

/-- A settlement pays out what the contracts come to. -/
theorem booked_resolve {settled : Dict String (ℤ × Bool)} (booked : Booked value ticker tr log)
    (scores : scored ticker = true)
    (pays : ∀ day yes, settled.lookup ticker = some (day, yes) → settleValue yes = value)
    {listing : Dict String (Option Bool)} {vanished : String}
    (settles : Settles settled tr (.resolve listing vanished)) :
    Booked value ticker (tr.resolveVanished listing vanished) log := by
  have ends := resolveVanished_resolved listing tr vanished
  generalize tr.resolveVanished listing vanished = tr' at ends
  cases ends with
  | flat _ => exact booked.congr rfl
  | counted _ _ _ => exact booked.congr rfl
  | writtenOff ts known held missing exhausted =>
    refine booked.congr (Finmap.lookup_insert_of_ne _ ?_)
    rintro rfl
    have left := settles scores (by rw [Trader.positionOf, known]; exact held)
    rw [missing] at left
    exact absurd exhausted (not_le.mpr left)
  | settled resultYes held found halts =>
    obtain ⟨ts, known, open_, written⟩ := tickers_settledAt held halts
    by_cases same : vanished = ticker
    · subst same
      have result := settles scores held
      rw [found] at result
      obtain ⟨day, yes, noted, rfl⟩ := result
      have state : tr.state.tickerD vanished "" = ts := by
        rw [TraderState.tickerD, known, Option.getD_some]
      have basis := booked.basis ""
      have worth := booked.worth ""
      rw [state] at basis worth
      refine .of_insert (hasBasis_settled ts _) ?_ written
      rw [account_settled basis open_, pays day yes noted, Account.worth_move, worth]
      exact add_zero _
    · exact booked.congr (by rw [written, Finmap.lookup_insert_of_ne _ (Ne.symm same)])

/-- Nothing has been traded on the market. -/
def Untraded (tr : Trader) (ticker : String) : Prop :=
  ∀ ts, tr.state.tickers.lookup ticker = some ts →
    ts.position = 0 ∧ ts.entryPrice = none ∧ ts.realizedPnl = 0

theorem booked_untraded (untraded : Untraded tr ticker) : Booked value ticker tr [] := by
  have start (category : String) : (tr.state.tickerD ticker category).position = 0 ∧
      (tr.state.tickerD ticker category).entryPrice = none ∧
      (tr.state.tickerD ticker category).realizedPnl = 0 := by
    unfold TraderState.tickerD
    cases known : tr.state.tickers.lookup ticker with
    | none => exact ⟨rfl, rfl, rfl⟩
    | some ts => exact untraded ts known
  constructor
  · intro category
    obtain ⟨flat, unknown, _⟩ := start category
    simp [HasBasis, flat, unknown]
  · intro category
    obtain ⟨flat, unknown, zero⟩ := start category
    simp [account, Account.worth, flat, zero, totalOf]

theorem booked_run {settled : Dict String (ℤ × Bool)} (untraded : Untraded tr ticker)
    (scores : scored ticker = true)
    (pays : ∀ day yes, settled.lookup ticker = some (day, yes) → settleValue yes = value)
    {events : List Event} (settles : Along Event.step (Settles settled) tr events) :
    Booked value ticker (run Event.step tr events) (outputs Event.step newlyBooked tr events) := by
  refine outputs_induct Event.step (fun tr event log booked settles => ?_)
    (booked_untraded untraded) settles
  cases event with
  | fill out raw => exact booked_fill booked out raw
  | resolve listing vanished =>
    rw [newlyBooked, List.append_nil]
    exact booked_resolve booked scores pays settles

/-! ## Agreement -/

/-- What the bot's books come to on a market where a contract comes to `value`: the PnL that is
    realized, and the open position against its entry. -/
def marked (value : ℚ) (ts : TickerState) : ℚ :=
  ts.realizedPnl + ts.position * (value - ts.entryPrice.getD 0)

/-- The scoreboard and the bot's books come to the same on every scored market, in all, and in the
    contracts of what is pending. -/
structure Agrees (board : Board) (s : TraderState) : Prop where
  market : ∀ ticker ts, scored ticker = true → s.tickers.lookup ticker = some ts →
    (tallyOf board.per ticker).cash +
        (tallyOf board.per ticker).net * payout board.settled ticker =
      marked (payout board.settled ticker) ts
  pending : ∀ ticker ts, scored ticker = true → s.tickers.lookup ticker = some ts →
    board.settled.lookup ticker = none → (tallyOf board.per ticker).net = ts.position
  total : board.total + board.pendingCash + Dict.sumOf (fun _ p => p.fees) board.per =
    Dict.sumOf (fun ticker ts =>
      if scored ticker = true then marked (payout board.settled ticker) ts else 0) s.tickers

theorem worth_eq_marked (value : ℚ) (ts : TickerState) :
    (account ts).worth value = marked value ts := by
  rw [Account.worth, account, marked]
  ring

section Booked

variable {board : Board} {fills : List Value}

/-- At any value that settles the market right, the tally comes to what the bot's books do. -/
theorem marked_eq_tally (tallies : Tallies fills ∅ board.per) (scores : scored ticker = true)
    (booked : Booked value ticker tr fills) :
    marked value (tr.state.tickerD ticker "") =
      (tallyOf board.per ticker).cash + (tallyOf board.per ticker).net * value := by
  rw [← worth_eq_marked, booked.worth, totalOf_gained, tallies.cash ticker scores,
    tallies.net ticker scores]
  change _ = 0 - _ + (0 + _) * _
  ring

theorem tickerD_of_lookup {s : TraderState} {ts : TickerState}
    (found : s.tickers.lookup ticker = some ts) : s.tickerD ticker "" = ts := by
  rw [TraderState.tickerD, found, Option.getD_some]

/-- Key by key, the board's share is that of the bot's books. -/
theorem share_eq (tallies : Tallies fills ∅ board.per)
    (booked : scored ticker = true → Booked value ticker tr fills) :
    (board.per.lookup ticker).elim 0 (fun p => p.cash + p.net * value) =
      (tr.state.tickers.lookup ticker).elim 0 fun ts =>
        if scored ticker = true then marked value ts else 0 := by
  by_cases scores : scored ticker = true
  · have same := marked_eq_tally tallies scores (booked scores)
    have left : (board.per.lookup ticker).elim 0 (fun p => p.cash + p.net * value) =
        (tallyOf board.per ticker).cash + (tallyOf board.per ticker).net * value := by
      unfold tallyOf
      cases board.per.lookup ticker with
      | none => simp
      | some p => rfl
    rw [left, ← same, TraderState.tickerD]
    cases tr.state.tickers.lookup ticker with
    | none => simp [marked, TickerState.new]
    | some ts => simp [scores]
  · rw [tallies.others ticker scores, Finmap.lookup_empty, Option.elim_none]
    cases tr.state.tickers.lookup ticker with
    | none => rfl
    | some ts => simp [scores]

theorem agrees_of_booked (tallies : Tallies fills ∅ board.per)
    (booked : ∀ ticker value, scored ticker = true →
      (∀ day yes, board.settled.lookup ticker = some (day, yes) → settleValue yes = value) →
      Booked value ticker tr fills) : Agrees board tr.state := by
  have pays (ticker : String) (scores : scored ticker = true) :
      Booked (payout board.settled ticker) ticker tr fills := by
    refine booked ticker _ scores fun day yes noted => ?_
    rw [payout, noted, Option.elim_some]
  refine ⟨fun ticker ts scores found => ?_, fun ticker ts scores found unsettled => ?_, ?_⟩
  · rw [← marked_eq_tally tallies scores (pays ticker scores), tickerD_of_lookup found]
  · -- a market that is not settled comes to the same at any value, so its contracts are the same
    have right (value : ℚ) : Booked value ticker tr fills := by
      refine booked ticker value scores fun day yes noted => ?_
      rw [unsettled] at noted
      cases noted
    have one := marked_eq_tally tallies scores (right 1)
    have zero := marked_eq_tally tallies scores (right 0)
    rw [tickerD_of_lookup found, marked] at one zero
    linarith
  · have covered : tr.state.tickers.keys ⊆ board.per.keys ∪ tr.state.tickers.keys :=
      Finset.subset_union_right
    rw [total_add_fees, Dict.sumOf_eq_sum _ Finset.subset_union_left, Dict.sumOf_eq_sum _ covered]
    exact Finset.sum_congr rfl fun ticker _ => share_eq tallies (pays ticker)

end Booked

/-! ## A day to score -/

/-- A report as the exchange spells it. -/
def spelled (id ticker action side count yes no : String) : Value :=
  .object [("trade_id", .string id), ("ticker", .string ticker), ("action", .string action),
    ("side", .string side), ("count_fp", .string count), ("yes_price_dollars", .string yes),
    ("no_price_dollars", .string no), ("fee_cost", .string "0.02")]

def bought : Value := spelled "f1" "KXBTCD-1" "buy" "yes" "10.00" "0.4000" "0.6000"
def reduced : Value := spelled "f2" "KXBTCD-1" "sell" "no" "4.00" "0.5500" "0.4500"
def shorted : Value := spelled "f3" "KXBTCD-2" "sell" "yes" "3.00" "0.3000" "0.7000"

theorem accepted_sample : ∀ raw ∈ [shorted, bought, reduced], Accepted raw := by
  have normal (raw : Value) (accepts : normalizeFill raw ≠ none) :
      ∃ nf, normalizeFill raw = some nf := Option.ne_none_iff_exists'.mp accepts
  have shown {raw : Value} {key text : String} {x : ℚ} (held : raw.get key = some (.string text))
      (parsed : parseFloat text = some (.finite x)) : Shows raw key x := Or.inr ⟨text, held, parsed⟩
  rw [List.forall_mem_cons, List.forall_mem_cons, List.forall_mem_singleton]
  refine ⟨⟨⟨Or.inl rfl, ⟨3, by decide, ?_⟩, ⟨3 / 10, ?_, ?_⟩, ⟨1 / 50, by decide +kernel⟩⟩, ?_⟩,
    ⟨⟨Or.inl rfl, ⟨10, by decide, ?_⟩, ⟨2 / 5, ?_, ?_⟩, ⟨1 / 50, by decide +kernel⟩⟩, ?_⟩,
    ⟨⟨Or.inl rfl, ⟨4, by decide, ?_⟩, ⟨11 / 20, ?_, ?_⟩, ⟨1 / 50, by decide +kernel⟩⟩, ?_⟩⟩
  all_goals first
    | exact normal _ (by decide +kernel)
    | exact shown rfl (by decide +kernel)

/-- The first market settles on day 20655 at YES. -/
def dayOf (_ : String) : Option (ℚ × ℤ) := some (1784647792, 20655)

def settlement : Value :=
  .object [("ticker", .string "KXBTCD-1"), ("settled_time", .string "2026-07-21T15:29:52Z"),
    ("market_result", .string "yes")]

def scoredDay : List Event :=
  [.fill (answering "b1" "a1" 0) bought, .fill (answering "b1" "a1" 1) reduced,
    .fill (answering "b1" "a1" 2) bought, .fill (answering "b1" "a1" 3) shorted,
    .resolve (Finmap.singleton "KXBTCD-1" (some true)) "KXBTCD-1"]

/-- Over the fills that the bot has booked, in any order, the scoreboard agrees with the bot's
    books. -/
theorem scoreboard_agrees {isoTs : String → Option (ℚ × ℤ)} {setts : List Value}
    {settled : Dict String (ℤ × Bool)}
    (noted : setts.foldlM (noteSettlement isoTs) ∅ = some settled)
    (untraded : ∀ ticker, Untraded tr ticker) {events : List Event} {fills : List Value}
    (listed : fills.Perm (outputs Event.step newlyBooked tr events))
    (reported : ∀ raw ∈ fills, Accepted raw)
    (settles : Along Event.step (Settles settled) tr events) :
    ∃ board, Scoreboard.read isoTs fills setts = some board ∧
      Agrees board (run Event.step tr events).state := by
  obtain ⟨per, tallied, tallies⟩ := tallies_fills reported ∅
  refine ⟨⟨per, settled⟩, ?_, agrees_of_booked tallies fun ticker value scores pays => ?_⟩
  · rw [Scoreboard.read, tallied, noted]
    rfl
  · have booked := booked_run (untraded ticker) scores pays settles
    refine ⟨booked.basis, fun category => ?_⟩
    rw [booked.worth, totalOf_perm ticker _ listed]

/-- The first market is settled: ten bought at 40 cents and four sold at 55 leave six that are paid a
    dollar.  On the second one, three sold contracts are pending. -/
theorem scoreboard_agrees_sample :
    let reached := run Event.step (Trader.start (marketCfg none) 0) scoredDay
    reached.positionOf "KXBTCD-1" = 0 ∧ reached.positionOf "KXBTCD-2" = -3 ∧
      ∃ board, Scoreboard.read dayOf [shorted, bought, reduced] [settlement] = some board ∧
        Agrees board reached.state := by
  intro reached
  have noted : [settlement].foldlM (noteSettlement dayOf) ∅ =
      some (Finmap.singleton "KXBTCD-1" (20655, true)) := by decide +kernel
  have booked : outputs Event.step newlyBooked (Trader.start (marketCfg none) 0) scoredDay =
      [bought, reduced, shorted] := by
    unfold scoredDay
    rw [outputs, outputs, outputs, outputs, outputs, outputs, newlyBooked, newlyBooked, newlyBooked,
      newlyBooked, newlyBooked, if_pos (by decide +kernel), if_pos (by decide +kernel),
      if_neg (by decide +kernel), if_pos (by decide +kernel)]
    rfl
  have listed : ([shorted] ++ [bought, reduced]).Perm ([bought, reduced] ++ [shorted]) :=
    List.perm_append_comm
  refine ⟨by decide +kernel, by decide +kernel, scoreboard_agrees noted (fun ticker ts known => ?_)
    (booked ▸ listed) accepted_sample ?_⟩
  · cases known
  · refine ⟨trivial, trivial, trivial, trivial, fun _ _ => ?_, trivial⟩
    exact ⟨20655, true, by decide +kernel, rfl⟩

end KalshiMm.Verified.Scores
