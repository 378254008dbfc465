import KalshiMm.Model.Loop

/-!
# The book feed (`transport.rs`)

The exchange sends the trader its books over one socket: for each market that the socket is
subscribed to, a snapshot of the whole book and then every change of a level.  The WebSocket task
subscribes to the universe that the trader has published last, routes what the socket delivers,
and never unsubscribes.  Next to that, the trader asks for the top of a book by REST when it takes
up a market.

A `Feed` is the trader with the exchange's books, the subscriptions, and the messages that are
routed and not handled yet.
-/

namespace KalshiMm.Model

open KalshiMm.Lib

/-! ## The exchange's books -/

inductive ContractSide where
  | yes
  | no
deriving DecidableEq

def ContractSide.name : ContractSide → String
  | .yes => "yes"
  | .no => "no"

/-- The level at a price now has this quantity; without one there is no level. -/
def Levels.set (levels : Levels) (price : ℕ) (qty : ℚ) : Levels :=
  if 0 < qty then levels.insert price qty else levels.erase price

namespace Book

def levels (book : Book) : ContractSide → Levels
  | .yes => book.yes
  | .no => book.no

def setLevel (book : Book) (side : ContractSide) (price : ℕ) (qty : ℚ) : Book :=
  match side with
  | .yes => { book with yes := book.yes.set price qty }
  | .no => { book with no := book.no.set price qty }

end Book

/-! ## Payloads -/

def levelRow (level : ℕ × ℚ) : Value := .array [.number (toDollars level.1), .number level.2]

/-- The top `depth` levels, `[[price, qty], ...]`. -/
def Levels.rows (levels : Levels) (depth : ℕ) : Value := .array ((levels.top depth).map levelRow)

/-- The top `depth` levels of both sides. -/
def Book.rows (book : Book) (depth : ℕ) : List (String × Value) :=
  [("yes_dollars_fp", book.yes.rows depth), ("no_dollars_fp", book.no.rows depth)]

/-- What `get_orderbook` answers with. -/
def Book.response (book : Book) (depth : ℕ) : Value :=
  .object [("orderbook", .object (book.rows depth))]

/-- A snapshot of all levels. -/
def snapshotMsg (ticker : String) (book : Book) : Value :=
  .object (("market_ticker", .string ticker) ::
    book.rows (max book.yes.keys.card book.no.keys.card))

def deltaMsg (ticker : String) (side : ContractSide) (price : ℕ) (delta : ℚ) : Value :=
  .object [("market_ticker", .string ticker), ("side", .string side.name),
    ("price_dollars", .number (toDollars price)), ("delta_fp", .number delta)]

def frame (type : String) (msg : Value) : Value := .object [("type", .string type), ("msg", msg)]

/-! ## The WebSocket task -/

/-- Route one message to a typed event, or to none for acks and other channels. -/
def routeMessage (data : Value) : Option Event := do
  let type ← data.getStr "type"
  let msg ← data.get "msg"
  let ticker ← msg.getStr "market_ticker"
  if type = "orderbook_snapshot" ∨ type = "orderbook_delta" then some (.book ticker msg)
  else if type = "trade" then some (.trade ticker msg)
  else none

theorem routeMessage_cases {data : Value} {event : Event}
    (routes : routeMessage data = some event) :
    ∃ ticker msg, event = .book ticker msg ∨ event = .trade ticker msg := by
  unfold routeMessage at routes
  obtain ⟨type, _, routes⟩ := Option.bind_eq_some_iff.mp routes
  obtain ⟨msg, _, routes⟩ := Option.bind_eq_some_iff.mp routes
  obtain ⟨ticker, _, routes⟩ := Option.bind_eq_some_iff.mp routes
  split_ifs at routes
  · cases routes
    exact ⟨ticker, msg, Or.inl rfl⟩
  · cases routes
    exact ⟨ticker, msg, Or.inr rfl⟩

/-- Tickers in `desired` that the connection hasn't subscribed to yet. -/
def newSubscriptions (subscribed : Finset String) (desired : List String) : List String :=
  desired.filter (· ∉ subscribed)

structure Feed where
  trader : Trader
  books : String → Book
  published : List String
  subscribed : Finset String := ∅
  /-- The subscriptions that the exchange has answered. -/
  streaming : Finset String := ∅
  queue : List (String × Value) := []

inductive FeedEvent where
  | change (ticker : String) (side : ContractSide) (price : ℕ) (qty : ℚ)
  | subscribe
  | answer (ticker : String)
  | deliver (out : Outside)
  | refresh (out : Outside)

namespace Feed

/-- The connection as it starts, after the startup sequence. -/
def start (env : Env) (cfg : Config) (out : Outside) (books : String → Book) : Feed :=
  let trader := Trader.startup env cfg out
  { trader, books, published := out.hash.enumerate trader.activeTickers.keys }

/-- The socket delivers a message, and the task puts what it routes to into the channel. -/
def receive (w : Feed) (data : Value) : Feed :=
  match routeMessage data with
  | some (.book ticker msg) => { w with queue := w.queue ++ [(ticker, msg)] }
  | _ => w

def step (env : Env) (w : Feed) : FeedEvent → Feed
  | .change ticker side price qty =>
    let old := (((w.books ticker).levels side).lookup price).getD 0
    let changed := { w with
      books := Function.update w.books ticker ((w.books ticker).setLevel side price qty) }
    if ticker ∈ w.streaming then
      changed.receive (frame "orderbook_delta" (deltaMsg ticker side price (qty - old)))
    else changed
  | .subscribe =>
    { w with subscribed := w.subscribed ∪ (newSubscriptions w.subscribed w.published).toFinset }
  | .answer ticker =>
    -- a market is subscribed to once on a connection, and never again
    if ticker ∈ w.subscribed ∧ ticker ∉ w.streaming then
      { w with streaming := insert ticker w.streaming }.receive
        (frame "orderbook_snapshot" (snapshotMsg ticker (w.books ticker)))
    else w
  | .deliver out =>
    match w.queue with
    | [] => w
    | (ticker, msg) :: rest =>
      -- the loop has ended once trading was halted, and takes no more messages
      if w.trader.running then
        { w with trader := w.trader.step env ⟨.book ticker msg, out⟩, queue := rest }
      else w
  | .refresh out =>
    let trader := w.trader.step env ⟨.refresh, out⟩
    -- a refresh that changes nothing sends nothing, and the universe is the published one then
    { w with trader, published := out.hash.enumerate trader.activeTickers.keys }

end Feed

end KalshiMm.Model
