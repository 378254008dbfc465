import KalshiMm.Verified.Reconnects

/-!
# How far the trader's books lag

Between the exchange's book and the trader's copy of it stand the messages in flight: on the
connection, in the channel and with the task that waits for room.  The copy is never a mixture of
states: it is the book that the exchange had before its last changes, as many as there are messages
in flight, once the snapshot of the connection has come through.
-/

namespace KalshiMm.Verified.BookLag

open KalshiMm.Lib KalshiMm.Model Replication Reconnects

/-- The books that the exchange has had of a market, latest first. -/
def pastBooks (env : Env) (ticker : String) (w : LiveTrader) (past : List Book) (event : LiveEvent) :
    List Book :=
  if Changes ticker event then (w.step env event).books ticker :: past else past

/-- Unless a snapshot is still to come, the copy is as many changes old as messages are in flight. -/
def Lags (ticker : String) (s : LiveTrader × List Book) : Prop :=
  (∀ msg ∈ inFlight ticker s.1, ¬ FullSnapshot msg) →
    s.2[(inFlight ticker s.1).length]? = some (bookOf s.1.trader ticker)

/-- The copy, brought to the exchange's book by what is in flight, passes through past books only. -/
structure FallsBehind (ticker : String) (s : LiveTrader × List Book) : Prop where
  catches : CatchesUp ticker s.1
  trails : Trails Trader.foldBook FullSnapshot s.2 (bookOf s.1.trader ticker) (inFlight ticker s.1)

theorem FallsBehind.lags {ticker : String} {s : LiveTrader × List Book}
    (behind : FallsBehind ticker s) : Lags ticker s := behind.trails.current

section Steps

variable {env : Env} {ticker : String} {c : Connection}

theorem fallsBehind_answered {w : LiveTrader} (connected : w.connection = some c)
    (live : c.live = true) (subscribed : ticker ∈ c.subscribed) (unanswered : ticker ∉ c.streaming)
    (listed : Book.Listed (w.books ticker)) :
    FallsBehind ticker (w.step env (.answer ticker), [w.books ticker]) := by
  have catches : CatchesUp ticker (w.step env (.answer ticker)) :=
    catchesUp_answered connected live subscribed unanswered listed
  refine ⟨catches, ?_⟩
  dsimp only
  rw [inFlight_answer connected live subscribed unanswered]
  exact .restart (fullSnapshot_snapshotMsg ticker _)
    (by rw [replay_concat, foldBook_snapshotMsg listed])

theorem fallsBehind_step {s : LiveTrader × List Book} {event : LiveEvent}
    (behind : FallsBehind ticker s) (steady : Steady ticker s.1 event) :
    FallsBehind ticker (withGhost (LiveTrader.step env) (pastBooks env ticker) s event) := by
  obtain ⟨w, past⟩ := s
  obtain ⟨catches, trails⟩ := behind
  refine ⟨catchesUp_step catches steady, ?_⟩
  obtain ⟨_, progress⟩ := progress_step env catches.toStreamed steady
  unfold withGhost pastBooks
  dsimp only
  cases progress with
  | sent msg changes moved queue copy =>
    rw [if_pos changes, moved, queue, copy]
    exact trails.send (catches.follows.leads trivial)
  | folded msg quiet stays queue copy =>
    rw [if_neg quiet, copy]
    rw [queue] at trails
    exact trails.receive
  | none quiet stays queue copy =>
    rw [if_neg quiet, queue, copy]
    exact trails

end Steps

/-- From any state, with whatever was lost before: once the exchange has answered a market's
    subscription and the snapshot has come through, the trader's copy of its book is a book that the
    exchange has had since, as many changes ago as messages of the market are in flight. -/
theorem copy_is_past_book (env : Env) {w : LiveTrader} {c : Connection} {ticker : String}
    (connected : w.connection = some c) (live : c.live = true) (subscribed : ticker ∈ c.subscribed)
    (unanswered : ticker ∉ c.streaming) (listed : Book.Listed (w.books ticker))
    {events : List LiveEvent}
    (steady : Along (LiveTrader.step env) (Steady ticker) (w.step env (.answer ticker)) events) :
    Throughout (withGhost (LiveTrader.step env) (pastBooks env ticker)) (Lags ticker)
      (w.step env (.answer ticker), [w.books ticker]) events := by
  have starts : FallsBehind ticker (w.step env (.answer ticker), [w.books ticker]) :=
    fallsBehind_answered connected live subscribed unanswered listed
  exact (throughout_of_along (fun _ _ => fallsBehind_step) starts (along_withGhost _ steady)).imp
    fun _ => FallsBehind.lags

/-- The snapshot is read and taken, two changes are on their way. -/
def lagging : List LiveEvent :=
  [.read, .receive (listing ["KXBTCD-1"] 2), .change "KXBTCD-1" .no 490 5, .read,
    .change "KXBTCD-1" .yes 410 3]

theorem copy_is_past_book_lagging :
    let start := (reconnected.step (marketEnv none) (.answer "KXBTCD-1"),
      [reconnected.books "KXBTCD-1"])
    let reached := run (withGhost (LiveTrader.step (marketEnv none))
      (pastBooks (marketEnv none) "KXBTCD-1")) start lagging
    (inFlight "KXBTCD-1" reached.1).length = 2 ∧ reached.2.length = 3 ∧
      bookOf reached.1.trader "KXBTCD-1" ≠ reached.1.books "KXBTCD-1" ∧
      Throughout (withGhost (LiveTrader.step (marketEnv none))
        (pastBooks (marketEnv none) "KXBTCD-1")) (Lags "KXBTCD-1") start lagging := by
  intro start reached
  exact ⟨by decide +kernel, by decide +kernel, by decide +kernel,
    copy_is_past_book _ (Option.some_get up_reconnected).symm (by decide +kernel)
      (by decide +kernel) (by decide +kernel) listed_reconnected (by decide +kernel)⟩

end KalshiMm.Verified.BookLag
