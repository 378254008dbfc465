import KalshiMm.Verified.ExitReasons
import KalshiMm.Verified.OrderFlow

/-!
# The envelope of all orders

What the bot may ever send.  A quote is passive, of an active market, of one of the two sizes, and
its full fill stays within the category's inventory cap.  An exit crosses at the touch with the whole
position against it, so that no part of it that fills grows the position or turns it over.
-/

namespace KalshiMm.Verified.OrderEnvelope

open KalshiMm.Lib KalshiMm.Model

/-- What a fill of so many contracts does to a position. -/
def filledPosition (position : ℤ) (side : OrderSide) (contracts : ℤ) : ℤ :=
  match side with
  | .buy => position + contracts
  | .sell => position - contracts

/-- The position that a partial fill leaves is on the same side of flat and no larger. -/
structure Shrinks (position filled : ℤ) : Prop where
  smaller : |filled| ≤ |position|
  sameSide : 0 ≤ filled * position.sign

/-- What an order for a market may be. -/
inductive Envelope (tr : Trader) (request : OrderRequest) : Prop where
  | quote (category : String) (active : tr.activeTickers.lookup request.ticker = some category)
      (rests : request.timeInForce = .goodTillCanceled) (passive : request.postOnly = true)
      (sized : request.size = tr.cfg.mm.quoteSize ∨ request.size = tr.cfg.mm.extremeQuoteSize)
      (capped : |filledPosition (tr.positionOf request.ticker) request.side request.size| ≤
        ((tr.cats.lookup category).map CategoryConfig.maxInventory).getD 5)
  | exit (ts : TickerState) (known : tr.state.tickers.lookup request.ticker = some ts)
      (crosses : request.timeInForce = .immediateOrCancel) (active : request.postOnly = false)
      (held : tr.positionOf request.ticker ≠ 0)
      (whole : request.size = |tr.positionOf request.ticker|)
      (touch : ExitReasons.crossedTouch ts = some (request.priceCents / 100))
      (shrinks : ∀ contracts, 0 ≤ contracts → contracts ≤ request.size →
        Shrinks (tr.positionOf request.ticker)
          (filledPosition (tr.positionOf request.ticker) request.side contracts))

theorem shrinks_of_against {position size contracts : ℤ} {side : OrderSide}
    (whole : size = |position|) (against : side = .sell ↔ 0 < position)
    (some_ : 0 ≤ contracts) (within : contracts ≤ size) :
    Shrinks position (filledPosition position side contracts) := by
  obtain long | flat | short := lt_trichotomy 0 position
  · obtain rfl := against.mpr long
    rw [abs_of_pos long] at whole
    refine ⟨?_, ?_⟩
    · rw [filledPosition, abs_of_nonneg (by omega), abs_of_pos long]
      omega
    · rw [filledPosition, Int.sign_eq_one_of_pos long]
      omega
  · subst flat
    rw [abs_zero] at whole
    obtain rfl : contracts = 0 := by omega
    cases side <;> exact ⟨le_rfl, le_rfl⟩
  · have buys : side = .buy := by
      cases side with
      | buy => rfl
      | sell => exact absurd (against.mp rfl) short.not_gt
    subst buys
    rw [abs_of_neg short] at whole
    refine ⟨?_, ?_⟩
    · rw [filledPosition, abs_of_nonpos (by omega), abs_of_neg short]
      omega
    · rw [filledPosition, Int.sign_eq_neg_one_of_neg short]
      omega

theorem envelope_of_exit {tr : Trader} {ticker : String} {ts : TickerState}
    {request : OrderRequest} (known : tr.state.tickers.lookup ticker = some ts)
    (exits : ExitOf ts ticker request) : Envelope tr request := by
  obtain ⟨held, _, plan, crosses, rfl⟩ := exits
  obtain ⟨⟨touch, crossed, price⟩, whole, against⟩ := ExitReasons.crossingExit_some crosses
  have position : tr.positionOf (exitRequest ticker plan).ticker = ts.position :=
    ExitSpacing.positionOf_of_lookup known
  refine .exit ts known rfl rfl (position ▸ held) (position ▸ whole) ?_ fun contracts some_ within => ?_
  · rw [crossed, show (exitRequest ticker plan).priceCents = touch * 100 from price,
      mul_div_cancel_right₀ _ (by norm_num)]
  · rw [position]
    exact shrinks_of_against whole against some_ within

/-- A quote's market is sensed before it is planned, which moves no position. -/
theorem position_of_staged {out : Outside} {ticker : String} {msg : Value} {tr : Trader}
    {stage : Stage} (staged : Staged out ticker msg tr stage) :
    (stage.trader.state.tickerD ticker stage.category).position = tr.positionOf ticker ∧
      stage.trader.cfg = tr.cfg ∧ stage.trader.cats = tr.cats := by
  obtain ⟨_, _, _, _, only⟩ := staged.sensed
  rw [only]
  refine ⟨?_, rfl, rfl⟩
  rw [tickerD_setTicker, positionOf_eq tr ticker stage.category]

theorem sized_eq (extreme : Prop) [Decidable extreme] (mm : MmParams) :
    (if extreme then mm.extremeQuoteSize else mm.quoteSize) = mm.quoteSize ∨
      (if extreme then mm.extremeQuoteSize else mm.quoteSize) = mm.extremeQuoteSize := by
  split_ifs
  · exact Or.inr rfl
  · exact Or.inl rfl

theorem envelope_of_ordered {env : Env} {out : Outside} {tr : Trader} {request : OrderRequest}
    (ordered : Ordered env out tr request) : Envelope tr request := by
  cases ordered with
  | @quote ticker msg stage plan reached planned side allowed =>
    have staged := staged_of_quoteStage reached
    obtain ⟨position, cfg, cats⟩ := position_of_staged staged
    obtain ⟨_, _, _, _, rfl⟩ := planOf_some planned
    cases side with
    | buy =>
      obtain ⟨capped, _⟩ := (Bool.and_eq_true _ _).mp allowed
      exact .quote stage.category staged.active rfl rfl (cfg ▸ sized_eq _ _)
        (cats ▸ position ▸ of_decide_eq_true capped)
    | sell =>
      obtain ⟨capped, _⟩ := (Bool.and_eq_true _ _).mp allowed
      exact .quote stage.category staged.active rfl rfl (cfg ▸ sized_eq _ _)
        (cats ▸ position ▸ of_decide_eq_true capped)
  | exit known exits => exact envelope_of_exit known exits

/-- In every run, from whatever trader it starts, every order that is sent is in the envelope. -/
theorem orders_in_envelope (env : Env) (start : Trader) (moves : List Move) :
    Along (Trader.move env) (fun tr m => ∀ request reply,
      OrderCall.place request reply ∈ (tr.carryOut env m).calls → Envelope tr request) start
        moves := by
  exact along_of_always (fun _ _ _ _ sent => envelope_of_ordered (ordered_of_sent sent)) start moves

end KalshiMm.Verified.OrderEnvelope
