import KalshiMm.Model.LiveTrader
import KalshiMm.Verified.Bookings
import KalshiMm.Verified.Replication

/-!
# Books across reconnects

Whatever was missed while a connection was down, the snapshot that answers a market's subscription
on the next one heals: from then on, as long as that connection lasts and the market stays active,
the trader's copy of the book is the exchange's whenever nothing of the market is in flight.
-/

namespace KalshiMm.Verified.Reconnects

open KalshiMm.Lib KalshiMm.Model Replication

/-! ## Books that stay -/

def SameBooks (tr tr' : Trader) : Prop := ∀ ticker, bookOf tr' ticker = bookOf tr ticker

namespace SameBooks

theorem refl (tr : Trader) : SameBooks tr tr := fun _ => rfl

theorem trans {a b c : Trader} (first : SameBooks a b) (second : SameBooks b c) : SameBooks a c :=
  fun ticker => (second ticker).trans (first ticker)

theorem of_tickers {tr tr' : Trader} (same : tr'.state.tickers = tr.state.tickers) :
    SameBooks tr tr' := fun ticker => by unfold bookOf; rw [same]

/-- A market is rewritten with the book it has. -/
theorem of_insert {tr tr' : Trader} {ticker : String} (category : String) {ts : TickerState}
    (written : tr'.state.tickers = tr.state.tickers.insert ticker ts)
    (kept : ts.book = (tr.state.tickerD ticker category).book) : SameBooks tr tr' :=
  bookOf_of_kept ticker category written kept

theorem of_known {tr tr' : Trader} {ticker : String} {before ts : TickerState}
    (known : tr.state.tickers.lookup ticker = some before)
    (written : tr'.state.tickers = tr.state.tickers.insert ticker ts)
    (kept : ts.book = before.book) : SameBooks tr tr' :=
  of_insert "" written (by rw [TraderState.tickerD, known]; exact kept)

theorem of_timers {tr tr' : Trader} (timers : Timers tr tr') : SameBooks tr tr' :=
  of_tickers (congrArg TraderState.tickers timers.state)

end SameBooks

theorem sameBooks_processFill (out : Outside) (raw : Value) (tr : Trader) :
    SameBooks tr (tr.processFill out raw) := by
  have ends := processFill_outcome out raw tr
  generalize tr.processFill out raw = tr' at ends
  cases ends with
  | ignored _ => exact .refl _
  | booked nf _ _ _ written => exact .of_insert _ written rfl

theorem sameBooks_resolveVanished (settled : Dict String (Option Bool)) (tr : Trader)
    (ticker : String) : SameBooks tr (tr.resolveVanished settled ticker) := by
  have ends := resolveVanished_resolved settled tr ticker
  generalize tr.resolveVanished settled ticker = tr' at ends
  cases ends with
  | flat _ => exact .of_tickers rfl
  | writtenOff ts known _ _ _ => exact .of_known known rfl rfl
  | counted _ _ _ => exact .of_tickers rfl
  | settled resultYes held _ halts =>
    obtain ⟨ts, known, _, written⟩ := tickers_settledAt held halts
    exact .of_known known written rfl

theorem sameBooks_syncTicker (out : Outside) (exchange : Dict String ℤ) (tr : Trader)
    (ticker : String) : SameBooks tr (tr.syncTicker out exchange ticker) := by
  obtain ⟨_, _, only⟩ := syncTicker_only out exchange tr ticker
  rw [only]
  exact .of_insert _ rfl rfl

theorem sameBooks_backfillEntryPrice (out : Outside) (ticker : String) (tr : Trader) :
    SameBooks tr (tr.backfillEntryPrice out ticker) := by
  obtain same | ⟨_, _, _, known, _, written⟩ := backfillEntryPrice_cases out ticker tr
  · rw [same]
    exact .refl tr
  · rw [written]
    exact .of_known known rfl rfl

theorem sameBooks_syncPositions (out : Outside) (tr : Trader) :
    SameBooks tr (tr.syncPositions out) :=
  syncPositions_related SameBooks.refl (fun _ _ _ => .trans) (sameBooks_syncTicker out)
    sameBooks_resolveVanished (fun tr ticker => sameBooks_backfillEntryPrice out ticker tr) tr

theorem sameBooks_onTrade (out : Outside) (ticker : String) (msg : Value) (tr : Trader) :
    SameBooks tr (tr.onTrade out ticker msg) := by
  unfold Trader.onTrade
  dsimp only
  split
  · exact .refl tr
  · exact .of_insert _ rfl rfl

theorem sameBooks_maybeDailyReset (env : Env) (out : Outside) (tr : Trader) :
    SameBooks tr (tr.maybeDailyReset env out) := by
  unfold Trader.maybeDailyReset
  split_ifs
  · exact .of_tickers rfl
  · exact .refl tr

theorem sameBooks_updateSpotGate (out : Outside) (tr : Trader) :
    SameBooks tr (tr.updateSpotGate out).trader := fun ticker =>
  congrArg (Option.getD · ({} : Book))
    (map_lookup_updateSpotGate TickerState.book (fun _ _ _ => rfl) out tr ticker)

theorem sameBooks_onSpotTick (env : Env) (out : Outside) (price : ℚ) (tr : Trader) :
    SameBooks tr (tr.onSpotTick env out price).trader :=
  onSpotTick_related (R := SameBooks) (fun _ _ _ => .trans) (fun _ _ => .of_tickers rfl)
    (sameBooks_updateSpotGate out) .of_timers env price tr

/-- A turn that handles neither a book message nor a refresh leaves the books alone. -/
theorem sameBooks_step (env : Env) (tr : Trader) {arrival : Arrival}
    (noBook : ∀ ticker msg, arrival.event ≠ .book ticker msg) (noRefresh : arrival.event ≠ .refresh) :
    SameBooks tr (tr.step env arrival) := by
  obtain ⟨event, out⟩ := arrival
  unfold Trader.step Trader.turn
  split_ifs
  · unfold Trader.handle
    cases event with
    | book ticker msg => exact absurd rfl (noBook ticker msg)
    | trade ticker msg => exact sameBooks_onTrade out ticker msg tr
    | spot price => exact sameBooks_onSpotTick env out price tr
    | fill raw => exact sameBooks_processFill out raw tr
    | sync => exact sameBooks_syncPositions out tr
    | exits => exact (sameBooks_updateSpotGate out tr).trans (.of_timers (timers_checkExits out _))
    | daily => exact sameBooks_maybeDailyReset env out tr
    | refresh => exact absurd rfl noRefresh
  · exact .refl tr

/-- An active market's book is moved by its own book messages and by nothing else. -/
theorem bookOf_step (env : Env) {tr : Trader} {ticker : String} (active : ticker ∈ tr.activeTickers)
    {arrival : Arrival} (other : ∀ msg, arrival.event ≠ .book ticker msg) :
    bookOf (tr.step env arrival) ticker = bookOf tr ticker := by
  by_cases refreshes : arrival.event = .refresh
  · obtain ⟨_, out⟩ := arrival
    cases refreshes
    unfold Trader.step Trader.turn
    split_ifs
    · exact bookOf_refreshMarkets_active active
    · rfl
  · by_cases isBook : ∃ elsewhere msg, arrival.event = .book elsewhere msg
    · obtain ⟨elsewhere, msg, isBook⟩ := isBook
      have apart : ticker ≠ elsewhere := by
        rintro rfl
        exact other msg isBook
      obtain ⟨_, out⟩ := arrival
      cases isBook
      unfold Trader.step Trader.turn
      split_ifs
      · unfold Trader.handle
        dsimp only
        by_cases isActive : elsewhere ∈ tr.activeTickers
        · rw [bookOf_onBookUpdate env out msg isActive, if_neg apart]
        · unfold Trader.onBookUpdate
          rw [Finmap.lookup_eq_none.mpr isActive]
      · rfl
    · exact sameBooks_step env tr (fun elsewhere msg same => isBook ⟨elsewhere, msg, same⟩)
        refreshes ticker

/-! ## In flight -/

/-- The message for the market's book that an event is. -/
def bookMessage (ticker : String) : Event → Option Value
  | .book other msg => if other = ticker then some msg else none
  | _ => none

/-- The message for the market's book that a frame routes to. -/
def routedMessage (ticker : String) (data : Value) : Option Value :=
  (routeMessage data).bind (bookMessage ticker)

/-- The market's messages in the channel, with the task that waits for room, and on the connection. -/
def inFlight (ticker : String) (w : LiveTrader) : List Value :=
  w.channel.pending.filterMap (bookMessage ticker) ++
    (w.connection.elim [] Connection.wire).filterMap (routedMessage ticker)

/-- With nothing of the market in flight, the trader's copy is the exchange's book. -/
def Mirrors (ticker : String) (w : LiveTrader) : Prop :=
  inFlight ticker w = [] → bookOf w.trader ticker = w.books ticker

instance (ticker : String) (w : LiveTrader) : Decidable (inFlight ticker w = []) :=
  decidable_of_iff ((inFlight ticker w).isEmpty = true) List.isEmpty_iff

instance (ticker : String) : DecidablePred (Mirrors ticker) := fun _ =>
  inferInstanceAs (Decidable (_ → _))

/-- The connection lasts, the market is active, and the exchange prices in the code's keys. -/
def Steady (ticker : String) (w : LiveTrader) : LiveEvent → Prop
  | .cut _ | .drop => False
  | .wake sends => sends = true
  | .change other _ price _ => other = ticker → price < 2 ^ 32
  | .receive _ | .timer _ => ticker ∈ w.trader.activeTickers
  | _ => True

instance (ticker : String) (w : LiveTrader) : DecidablePred (Steady ticker w)
  | .cut _ | .drop => isFalse not_false
  | .wake _ => inferInstanceAs (Decidable (_ = true))
  | .change .. => inferInstanceAs (Decidable (_ = _ → _ < _))
  | .receive _ | .timer _ => inferInstanceAs (Decidable (_ ∈ _))
  | .answer _ | .frame _ | .connect _ | .read | .resume | .spot _ => isTrue trivial

/-- The exchange sends the market's book on the connection. -/
structure Streamed (ticker : String) (w : LiveTrader) : Prop where
  listed : Book.Listed (w.books ticker)
  served : ∃ c, w.connection = some c ∧ c.live = true ∧ ticker ∈ c.streaming

/-- The event changes the market's book at the exchange. -/
def Changes (ticker : String) : LiveEvent → Prop
  | .change other .. => other = ticker
  | _ => False

instance (ticker : String) : DecidablePred (Changes ticker)
  | .change .. => inferInstanceAs (Decidable (_ = _))
  | .answer _ | .frame _ | .cut _ | .connect _ | .wake _ | .read | .resume | .drop | .spot _
  | .receive _ | .timer _ => isFalse not_false

/-- What a step does to a market that is streamed: its book changes and the change is sent, the
    trader folds in the next message, or all stays as it is. -/
inductive Progress (ticker : String) (w : LiveTrader) (event : LiveEvent) (w' : LiveTrader) : Prop
  | sent (msg : Value) (changes : Changes ticker event)
      (moved : w'.books ticker = Trader.foldBook (w.books ticker) msg)
      (queue : inFlight ticker w' = inFlight ticker w ++ [msg])
      (copy : bookOf w'.trader ticker = bookOf w.trader ticker)
  | folded (msg : Value) (quiet : ¬ Changes ticker event)
      (stays : w'.books ticker = w.books ticker)
      (queue : inFlight ticker w = msg :: inFlight ticker w')
      (copy : bookOf w'.trader ticker = Trader.foldBook (bookOf w.trader ticker) msg)
  | none (quiet : ¬ Changes ticker event) (stays : w'.books ticker = w.books ticker)
      (queue : inFlight ticker w' = inFlight ticker w)
      (copy : bookOf w'.trader ticker = bookOf w.trader ticker)

section Steps

variable {env : Env} {ticker : String} {w : LiveTrader} {c : Connection}

theorem withConnection_of_some (connected : w.connection = some c) (f : Connection → Connection) :
    w.withConnection f = { w with connection := some (f c) } := by
  unfold LiveTrader.withConnection
  rw [connected]
  rfl

/-- One more frame on the connection. -/
theorem inFlight_carry (connected : w.connection = some c) (data : Value) :
    inFlight ticker { w with connection := some (c.carry data) } =
      inFlight ticker w ++ (routedMessage ticker data).toList := by
  unfold inFlight
  rw [connected, Option.elim_some, Option.elim_some, Connection.carry, List.filterMap_append,
    ← List.append_assoc]
  cases routed : routedMessage ticker data <;> simp [routed]

theorem inFlight_of_same {w' : LiveTrader} (channel : w'.channel.pending.filterMap (bookMessage ticker) =
      w.channel.pending.filterMap (bookMessage ticker))
    (wire : w'.connection.elim [] Connection.wire = w.connection.elim [] Connection.wire) :
    inFlight ticker w' = inFlight ticker w := by
  unfold inFlight
  rw [channel, wire]

theorem routedMessage_snapshot (other : String) (book : Book) :
    routedMessage ticker (frame "orderbook_snapshot" (snapshotMsg other book)) =
      if other = ticker then some (snapshotMsg other book) else none := rfl

/-- A change of the market's book is sent on, any other one is none of the market's business. -/
theorem progress_change {other : String} {side : ContractSide} {price : ℕ} {qty : ℚ}
    (streamed : Streamed ticker w) (fits : other = ticker → price < 2 ^ 32) :
    Streamed ticker (w.step env (.change other side price qty)) ∧
      Progress ticker w (.change other side price qty) (w.step env (.change other side price qty)) := by
  obtain ⟨listed, c, connected, live, streaming⟩ := streamed
  let delta := deltaMsg other side price
    (qty - (((w.books other).levels side).lookup price).getD 0)
  let changed : LiveTrader := { w with
    books := Function.update w.books other ((w.books other).setLevel side price qty) }
  have steps : w.step env (.change other side price qty) = { changed with
      connection := some (if c.live ∧ other ∈ c.streaming then
        c.carry (frame "orderbook_delta" delta) else c) } :=
    withConnection_of_some (w := changed) connected _
  rw [steps]
  have carried : inFlight ticker { changed with
      connection := some (c.carry (frame "orderbook_delta" delta)) } =
      inFlight ticker w ++ (if other = ticker then some delta else none).toList :=
    inFlight_carry connected _
  by_cases here : other = ticker
  · subst here
    rw [if_pos ⟨live, streaming⟩]
    have moved : changed.books other = (w.books other).setLevel side price qty :=
      Function.update_self ..
    rw [if_pos rfl, Option.toList_some] at carried
    exact ⟨⟨moved ▸ listed.setLevel side (fits rfl) qty, _, rfl, live, streaming⟩,
      .sent delta rfl (moved.trans (foldBook_deltaMsg _ _ (fits rfl) qty).symm) carried rfl⟩
  · have unmoved : changed.books ticker = w.books ticker :=
      Function.update_of_ne (Ne.symm here) _ _
    rw [if_neg here, Option.toList_none, List.append_nil] at carried
    split_ifs
    · exact ⟨⟨unmoved ▸ listed, _, rfl, live, streaming⟩, .none here unmoved carried rfl⟩
    · have queue : inFlight ticker { changed with connection := some c } = inFlight ticker w :=
        inFlight_of_same rfl (by rw [connected])
      exact ⟨⟨unmoved ▸ listed, c, rfl, live, streaming⟩, .none here unmoved queue rfl⟩

/-- The exchange's end of the connection once a subscription is answered with the book. -/
def answered (c : Connection) (ticker : String) (book : Book) : Connection :=
  { c with streaming := insert ticker c.streaming }.carry
    (frame "orderbook_snapshot" (snapshotMsg ticker book))

theorem inFlight_answered (connected : w.connection = some c) (other : String) (book : Book) :
    inFlight ticker { w with connection := some (answered c other book) } =
      inFlight ticker w ++ (if other = ticker then some (snapshotMsg other book) else none).toList := by
  let served : Connection := { c with streaming := insert other c.streaming }
  have before : inFlight ticker { w with connection := some served } = inFlight ticker w :=
    inFlight_of_same rfl (by rw [connected]; rfl)
  rw [← before, ← routedMessage_snapshot]
  exact inFlight_carry (w := { w with connection := some served }) rfl _

/-- The exchange answers the market's subscription with a snapshot. -/
theorem step_answer (connected : w.connection = some c) (live : c.live = true)
    (subscribed : ticker ∈ c.subscribed) (unanswered : ticker ∉ c.streaming) :
    w.step env (.answer ticker) =
      { w with connection := some (answered c ticker (w.books ticker)) } :=
  (withConnection_of_some connected _).trans (by rw [if_pos ⟨live, subscribed, unanswered⟩]; rfl)

theorem streamed_answered (connected : w.connection = some c) (live : c.live = true)
    (subscribed : ticker ∈ c.subscribed) (unanswered : ticker ∉ c.streaming)
    (listed : Book.Listed (w.books ticker)) : Streamed ticker (w.step env (.answer ticker)) := by
  rw [step_answer connected live subscribed unanswered]
  exact ⟨listed, _, rfl, live, Finset.mem_insert_self ..⟩

theorem inFlight_answer (connected : w.connection = some c) (live : c.live = true)
    (subscribed : ticker ∈ c.subscribed) (unanswered : ticker ∉ c.streaming) :
    inFlight ticker (w.step env (.answer ticker)) =
      inFlight ticker w ++ [snapshotMsg ticker (w.books ticker)] := by
  rw [step_answer connected live subscribed unanswered, inFlight_answered connected, if_pos rfl,
    Option.toList_some]

theorem progress_answer {other : String} (streamed : Streamed ticker w) :
    Streamed ticker (w.step env (.answer other)) ∧
      Progress ticker w (.answer other) (w.step env (.answer other)) := by
  obtain ⟨listed, c, connected, live, streaming⟩ := streamed
  by_cases answers : c.live ∧ other ∈ c.subscribed ∧ other ∉ c.streaming
  · have elsewhere : other ≠ ticker := fun same => answers.2.2 (same ▸ streaming)
    rw [step_answer connected answers.1 answers.2.1 answers.2.2]
    refine ⟨⟨listed, _, rfl, live, Finset.mem_insert_of_mem streaming⟩,
      .none not_false rfl ?_ rfl⟩
    rw [inFlight_answered connected, if_neg elsewhere, Option.toList_none, List.append_nil]
  · have steps : w.step env (.answer other) = { w with connection := some c } :=
      (withConnection_of_some connected _).trans (by rw [if_neg answers])
    rw [steps, ← connected]
    exact ⟨⟨listed, c, connected, live, streaming⟩, .none not_false rfl rfl rfl⟩

/-- What is no book routes to no book message. -/
theorem progress_frame {data : Value} (streamed : Streamed ticker w) :
    Streamed ticker (w.step env (.frame data)) ∧
      Progress ticker w (.frame data) (w.step env (.frame data)) := by
  obtain ⟨listed, c, connected, live, streaming⟩ := streamed
  have steps : w.step env (.frame data) = { w with
      connection := some
        (if c.live ∧ (routeMessage data).any Event.isBook = false then c.carry data else c) } :=
    withConnection_of_some connected _
  rw [steps]
  split_ifs with sends
  · have silent : routedMessage ticker data = none := by
      unfold routedMessage
      cases routes : routeMessage data with
      | none => rfl
      | some event =>
        rw [routes] at sends
        cases event with
        | book _ _ => cases sends.2
        | trade | spot | fill | sync | exits | daily | refresh => rfl
    refine ⟨⟨listed, _, rfl, live, streaming⟩, .none not_false rfl ?_ rfl⟩
    rw [inFlight_carry connected, silent, Option.toList_none, List.append_nil]
  · rw [← connected]
    exact ⟨⟨listed, c, connected, live, streaming⟩, .none not_false rfl rfl rfl⟩

theorem progress_wake (streamed : Streamed ticker w) :
    Streamed ticker (w.step env (.wake true)) ∧
      Progress ticker w (.wake true) (w.step env (.wake true)) := by
  obtain ⟨listed, c, connected, live, streaming⟩ := streamed
  unfold LiveTrader.step
  dsimp only
  rw [connected]
  dsimp only
  split_ifs
  · exact ⟨⟨listed, _, rfl, live, streaming⟩,
      .none not_false rfl (inFlight_of_same rfl (by rw [connected]; rfl)) rfl⟩
  · exact ⟨⟨listed, c, connected, live, streaming⟩, .none not_false rfl rfl rfl⟩

/-- A frame that is read goes on to the channel. -/
theorem progress_read (streamed : Streamed ticker w) :
    Streamed ticker (w.step env .read) ∧ Progress ticker w .read (w.step env .read) := by
  obtain ⟨listed, c, connected, live, streaming⟩ := streamed
  unfold LiveTrader.step
  dsimp only
  rw [connected]
  dsimp only
  split
  · exact ⟨⟨listed, c, connected, live, streaming⟩, .none not_false rfl rfl rfl⟩
  next data rest wire =>
    split_ifs with free
    · have before : inFlight ticker w = w.channel.pending.filterMap (bookMessage ticker) ++
          ((routedMessage ticker data).toList ++ rest.filterMap (routedMessage ticker)) := by
        unfold inFlight
        rw [connected, Option.elim_some, wire]
        cases routed : routedMessage ticker data <;> simp [routed]
      split
      next event routes =>
        refine ⟨⟨listed, _, rfl, live, streaming⟩, .none not_false rfl ?_ rfl⟩
        rw [before, inFlight, Channel.pending_send free, List.filterMap_append, List.append_assoc,
          routedMessage, routes]
        cases message : bookMessage ticker event <;> simp [message]
      next routes =>
        refine ⟨⟨listed, _, rfl, live, streaming⟩, .none not_false rfl ?_ rfl⟩
        rw [before, inFlight, routedMessage, routes]
        rfl
    · exact ⟨⟨listed, c, connected, live, streaming⟩, .none not_false rfl rfl rfl⟩

theorem progress_channel {event : LiveEvent} {channel : Channel Event channelCapacity}
    (quiet : ¬ Changes ticker event)
    (same : channel.pending.filterMap (bookMessage ticker) =
      w.channel.pending.filterMap (bookMessage ticker))
    (streamed : Streamed ticker w) :
    Streamed ticker { w with channel } ∧ Progress ticker w event { w with channel } :=
  ⟨⟨streamed.listed, streamed.served⟩, .none quiet rfl (inFlight_of_same same rfl) rfl⟩

/-- The trader takes an event out of the channel, and folds it in if it is for the market's book. -/
theorem progress_receive {out : Outside} (active : ticker ∈ w.trader.activeTickers)
    (streamed : Streamed ticker w) : Streamed ticker (w.step env (.receive out)) ∧
      Progress ticker w (.receive out) (w.step env (.receive out)) := by
  unfold LiveTrader.step
  dsimp only
  split_ifs with running
  · split
    next event channel received =>
      refine ⟨⟨streamed.listed, streamed.served⟩, ?_⟩
      have before : inFlight ticker w = (bookMessage ticker event).toList ++ inFlight ticker
          { w with trader := w.trader.step env ⟨event, out⟩, channel } := by
        unfold inFlight
        rw [Channel.pending_receive received]
        cases message : bookMessage ticker event <;> simp [message]
      by_cases mine : ∃ msg, event = .book ticker msg
      · obtain ⟨msg, rfl⟩ := mine
        have folded := bookOf_deliver env out ticker ticker msg running
        rw [if_pos ⟨rfl, active⟩] at folded
        have message : bookMessage ticker (.book ticker msg) = some msg := if_pos rfl
        rw [message, Option.toList_some] at before
        exact .folded msg not_false rfl before folded
      · have message : bookMessage ticker event = none := by
          cases event with
          | book other msg => exact if_neg fun same => mine ⟨msg, by rw [same]⟩
          | trade | spot | fill | sync | exits | daily | refresh => rfl
        rw [message, Option.toList_none, List.nil_append] at before
        exact .none not_false rfl before.symm
          (bookOf_step env active fun msg same => mine ⟨msg, same⟩)
    · exact ⟨streamed, .none not_false rfl rfl rfl⟩
  · exact ⟨streamed, .none not_false rfl rfl rfl⟩

theorem progress_timer {arrival : Arrival} (active : ticker ∈ w.trader.activeTickers)
    (streamed : Streamed ticker w) : Streamed ticker (w.step env (.timer arrival)) ∧
      Progress ticker w (.timer arrival) (w.step env (.timer arrival)) := by
  unfold LiveTrader.step
  dsimp only
  split_ifs with comes
  · exact ⟨streamed, .none not_false rfl rfl rfl⟩
  all_goals
    have book : bookOf (w.trader.step env arrival) ticker = bookOf w.trader ticker :=
      bookOf_step env active fun msg same => comes (by rw [same]; rfl)
    exact ⟨⟨streamed.listed, streamed.served⟩, .none not_false rfl rfl book⟩

/-- On a connection that lasts, the market goes on being streamed. -/
theorem progress_step (env : Env) {event : LiveEvent} (streamed : Streamed ticker w)
    (steady : Steady ticker w event) :
    Streamed ticker (w.step env event) ∧ Progress ticker w event (w.step env event) := by
  cases event with
  | change other side price qty => exact progress_change streamed steady
  | answer other => exact progress_answer streamed
  | frame data => exact progress_frame streamed
  | cut _ => exact steady.elim
  | connect sends =>
    obtain ⟨c, connected, _⟩ := streamed.served
    unfold LiveTrader.step
    dsimp only
    rw [connected]
    exact ⟨streamed, .none not_false rfl rfl rfl⟩
  | wake sends =>
    cases steady
    exact progress_wake streamed
  | read => exact progress_read streamed
  | resume => exact progress_channel not_false (by rw [Channel.pending_resume]) streamed
  | drop => exact steady.elim
  | spot price => exact progress_channel not_false (Channel.filterMap_pending_trySend rfl _) streamed
  | receive out => exact progress_receive steady streamed
  | timer arrival => exact progress_timer steady streamed

end Steps

/-! ## Catching up -/

/-- The copy is brought to the exchange's book by what is in flight. -/
structure CatchesUp (ticker : String) (w : LiveTrader) : Prop extends Streamed ticker w where
  follows : Follows Trader.foldBook (w.books ticker) (bookOf w.trader ticker) (inFlight ticker w) True

theorem CatchesUp.mirrors {ticker : String} {w : LiveTrader} (catches : CatchesUp ticker w) :
    Mirrors ticker w := fun drained => Follows.drained (drained ▸ catches.follows) trivial

section Catching

variable {env : Env} {ticker : String} {w : LiveTrader} {c : Connection}

/-- Whatever was in flight, and whatever the copy is, the snapshot leads to the exchange's book. -/
theorem catchesUp_answered (connected : w.connection = some c) (live : c.live = true)
    (subscribed : ticker ∈ c.subscribed) (unanswered : ticker ∉ c.streaming)
    (listed : Book.Listed (w.books ticker)) :
    CatchesUp ticker (w.step env (.answer ticker)) := by
  refine ⟨streamed_answered connected live subscribed unanswered listed, ?_⟩
  rw [inFlight_answer connected live subscribed unanswered,
    step_answer connected live subscribed unanswered]
  exact .restart (fun copy => foldBook_snapshotMsg listed copy) _ _

theorem catchesUp_step {event : LiveEvent} (catches : CatchesUp ticker w)
    (steady : Steady ticker w event) : CatchesUp ticker (w.step env event) := by
  obtain ⟨streamed, follows⟩ := catches
  obtain ⟨streams, progress⟩ := progress_step env streamed steady
  refine ⟨streams, ?_⟩
  cases progress with
  | sent msg _ moved queue copy =>
    rw [moved, queue, copy]
    exact follows.send
  | folded msg _ stays queue copy =>
    rw [stays, copy]
    rw [queue] at follows
    exact follows.receive.weaken Or.inl
  | none _ stays queue copy =>
    rw [stays, queue, copy]
    exact follows

end Catching

/-! ## Runs -/

/-- From any state, with whatever was lost before: once the exchange has answered a market's
    subscription, the trader's copy of its book is the exchange's whenever nothing of it is in flight,
    as long as the connection lasts and the market is active. -/
theorem books_mirrored_after_answer (env : Env) {w : LiveTrader} {c : Connection} {ticker : String}
    (connected : w.connection = some c) (live : c.live = true) (subscribed : ticker ∈ c.subscribed)
    (unanswered : ticker ∉ c.streaming) (listed : Book.Listed (w.books ticker))
    {events : List LiveEvent}
    (steady : Along (LiveTrader.step env) (Steady ticker) (w.step env (.answer ticker)) events) :
    Throughout (LiveTrader.step env) (Mirrors ticker) (w.step env (.answer ticker)) events := by
  have starts : CatchesUp ticker (w.step env (.answer ticker)) :=
    catchesUp_answered connected live subscribed unanswered listed
  exact (throughout_of_along (fun _ _ => catchesUp_step) starts steady).imp fun _ =>
    CatchesUp.mirrors

/-- The copy is fed by one connection, misses a change, and the task has connected again. -/
def reconnected : LiveTrader :=
  run (LiveTrader.step (marketEnv none))
    (LiveTrader.start (marketEnv none) (marketCfg none) (listing ["KXBTCD-1"] 0) fun _ => tenUp)
    [.connect true, .answer "KXBTCD-1", .read, .receive (listing ["KXBTCD-1"] 1), .cut 0,
      .change "KXBTCD-1" .yes 400 15, .drop, .connect true]

theorem up_reconnected : reconnected.connection.isSome = true := by decide +kernel

theorem listed_reconnected : Book.Listed (reconnected.books "KXBTCD-1") := by
  have same : reconnected.books "KXBTCD-1" = fifteenUp := by decide +kernel
  exact same ▸ listed_tenUp.setLevel .yes (by decide) 15

theorem books_mirrored_after_answer_reconnected :
    bookOf reconnected.trader "KXBTCD-1" ≠ reconnected.books "KXBTCD-1" ∧
    Throughout (LiveTrader.step (marketEnv none)) (Mirrors "KXBTCD-1")
      (reconnected.step (marketEnv none) (.answer "KXBTCD-1"))
      [.read, .receive (listing ["KXBTCD-1"] 2), .change "KXBTCD-1" .no 490 5, .read,
        .receive (listing ["KXBTCD-1"] 3)] :=
  ⟨by decide +kernel, books_mirrored_after_answer _ (Option.some_get up_reconnected).symm
    (by decide +kernel) (by decide +kernel) (by decide +kernel) listed_reconnected
    (by decide +kernel)⟩

end KalshiMm.Verified.Reconnects
