import KalshiMm.Lib.Channel
import KalshiMm.Model.Feed

/-!
# The trader behind its channel (`transport.rs`, `main.rs`)

The event loop takes books, trades and spot prices from one bounded channel.  The WebSocket task
fills it from one connection after another: on each it subscribes to the universe that the trader
has published last, and then to what a later one adds.  What a connection has not delivered when it
ends is lost.  The task waits for room in the channel; the spot feed drops its tick.

A `LiveTrader` is the trader with the exchange's books, the task's connection and the channel.
-/

namespace KalshiMm.Model

open KalshiMm.Lib

/-- A connection of the WebSocket task, with the exchange's end of it. -/
structure Connection where
  subscribed : Finset String := ∅
  /-- The markets of the subscribe commands, in the order they were sent. -/
  commands : List String := []
  /-- The version of the universe that the task has seen last. -/
  seen : ℕ
  /-- The exchange still serves it. -/
  live : Bool := true
  /-- The subscriptions that the exchange has answered. -/
  streaming : Finset String := ∅
  /-- Frames that have been sent and not read. -/
  wire : List Value := []

namespace Connection

/-- Send one subscribe command per ticker and record it; a send that fails ends the connection. -/
def subscribeTo (c : Connection) (tickers : List String) (sends : Bool) : Option Connection :=
  if sends then
    some { c with commands := c.commands ++ tickers, subscribed := c.subscribed ∪ tickers.toFinset }
  else none

/-- The exchange sends a frame. -/
def carry (c : Connection) (data : Value) : Connection := { c with wire := c.wire ++ [data] }

end Connection

def channelCapacity : ℕ := 8192

structure LiveTrader where
  trader : Trader
  books : String → Book
  /-- The universe in the watch channel, and its version. -/
  published : List String
  version : ℕ := 0
  /-- None while the task sleeps before its next attempt. -/
  connection : Option Connection := none
  channel : Channel Event channelCapacity := {}

inductive LiveEvent where
  /-- The exchange: a level of a book changes, a subscription is answered, something else than a book
      is sent, the connection is cut after some of the frames under way. -/
  | change (ticker : String) (side : ContractSide) (price : ℕ) (qty : ℚ)
  | answer (ticker : String)
  | frame (data : Value)
  | cut (delivered : ℕ)
  /-- The WebSocket task: it connects, wakes up for a universe, reads a frame, gets its place in the
      channel, gives up its connection. -/
  | connect (sends : Bool)
  | wake (sends : Bool)
  | read
  | resume
  | drop
  /-- The spot feed parses a price. -/
  | spot (price : ℚ)
  /-- The event loop: it takes an event out of the channel, a timer fires. -/
  | receive (out : Outside)
  | timer (arrival : Arrival)

/-- The events that come through the channel. -/
def Event.fromChannel : Event → Bool
  | .book .. | .trade .. | .spot _ => true
  | .fill _ | .sync | .exits | .daily | .refresh => false

def Event.isBook : Event → Bool
  | .book .. => true
  | _ => false

/-- Does the turn publish a universe?  A refresh does when it has moved it. -/
def Trader.publishes (env : Env) (tr : Trader) (arrival : Arrival) : Bool :=
  match arrival.event with
  | .refresh =>
    let discovered := discoverUniverse env arrival.out
    tr.running && !(discovered = ∅ ∨ (tr.addedEntries arrival.out discovered = [] ∧
      ∀ ticker ∈ tr.activeTickers.keys, tr.prunable discovered ticker = false) : Bool)
  | _ => false

namespace LiveTrader

/-- Before the task connects, after the startup sequence. -/
def start (env : Env) (cfg : Config) (out : Outside) (books : String → Book) : LiveTrader :=
  let trader := Trader.startup env cfg out
  { trader, books, published := out.hash.enumerate trader.activeTickers.keys }

def withConnection (w : LiveTrader) (f : Connection → Connection) : LiveTrader :=
  { w with connection := w.connection.map f }

def step (env : Env) (w : LiveTrader) : LiveEvent → LiveTrader
  | .change ticker side price qty =>
    let old := (((w.books ticker).levels side).lookup price).getD 0
    let changed := { w with
      books := Function.update w.books ticker ((w.books ticker).setLevel side price qty) }
    changed.withConnection fun c =>
      if c.live ∧ ticker ∈ c.streaming then
        c.carry (frame "orderbook_delta" (deltaMsg ticker side price (qty - old)))
      else c
  | .answer ticker =>
    w.withConnection fun c =>
      if c.live ∧ ticker ∈ c.subscribed ∧ ticker ∉ c.streaming then
        { c with streaming := insert ticker c.streaming }.carry
          (frame "orderbook_snapshot" (snapshotMsg ticker (w.books ticker)))
      else c
  | .frame data =>
    w.withConnection fun c =>
      if c.live ∧ (routeMessage data).any Event.isBook = false then c.carry data else c
  | .cut delivered =>
    w.withConnection fun c => { c with live := false, wire := c.wire.take delivered }
  | .connect sends =>
    match w.connection with
    | some _ => w
    | none =>
      if w.trader.running then
        { w with
          connection := { seen := w.version : Connection }.subscribeTo w.published sends }
      else w
  | .wake sends =>
    match w.connection with
    | none => w
    | some c =>
      -- a task that waits for room does not look at the universe
      if w.channel.parked = none ∧ c.seen ≠ w.version then
        { w with
          connection := { c with seen := w.version }.subscribeTo
            (newSubscriptions c.subscribed w.published)
            (sends || newSubscriptions c.subscribed w.published = []) }
      else w
  | .read =>
    match w.connection with
    | none => w
    | some c =>
      match c.wire with
      | [] => w
      | data :: rest =>
        if w.channel.parked = none then
          let w := { w with connection := some { c with wire := rest } }
          match routeMessage data with
          | some event => { w with channel := w.channel.send event }
          | none => w
        else w
  | .resume => { w with channel := w.channel.resume }
  | .drop => if w.channel.parked = none then { w with connection := none } else w
  | .spot price => { w with channel := w.channel.trySend (.spot price) }
  | .receive out =>
    if w.trader.running then
      match w.channel.receive with
      | some (event, channel) => { w with trader := w.trader.step env ⟨event, out⟩, channel }
      | none => w
    else w
  | .timer arrival =>
    if arrival.event.fromChannel then w
    else
      let trader := w.trader.step env arrival
      if w.trader.publishes env arrival then
        { w with
          trader
          published := arrival.out.hash.enumerate trader.activeTickers.keys
          version := w.version + 1 }
      else { w with trader }

end LiveTrader

end KalshiMm.Model
