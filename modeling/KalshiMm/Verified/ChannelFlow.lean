import KalshiMm.Verified.Subscriptions

/-!
# What goes through the channel

Under any interleaving of the socket, the spot feed and the event loop, the loop handles the events
of the socket's frames in the order the frames were read, each once, and so it does the ticks that
found room; the trader runs as the loop does on the events it has taken.
-/

namespace KalshiMm.Verified.ChannelFlow

open KalshiMm.Lib KalshiMm.Model

/-! ## The loop's own run -/

/-- The turn of the event loop that a step is, if it is one. -/
def turns (w : LiveTrader) : LiveEvent → List Arrival
  | .receive out =>
    if w.trader.running then (w.channel.receive.map fun taken => ⟨taken.1, out⟩).toList else []
  | .timer arrival => if arrival.event.fromChannel then [] else [arrival]
  | _ => []

theorem trader_step (env : Env) (w : LiveTrader) (event : LiveEvent) :
    (w.step env event).trader = run (Trader.step env) w.trader (turns w event) := by
  cases event with
  | change | answer | frame | cut | resume | spot => rfl
  | connect sends =>
    unfold LiveTrader.step
    dsimp only
    split
    · rfl
    · split_ifs <;> rfl
  | wake sends =>
    unfold LiveTrader.step
    dsimp only
    split
    · rfl
    · split_ifs <;> rfl
  | read =>
    unfold LiveTrader.step
    dsimp only
    split
    · rfl
    · split
      · rfl
      · split_ifs
        · split <;> rfl
        · rfl
  | drop =>
    unfold LiveTrader.step
    dsimp only
    split_ifs <;> rfl
  | receive out =>
    unfold LiveTrader.step turns
    dsimp only
    split_ifs
    · split
      next taken => rw [taken]; rfl
      next nothing => rw [nothing]; rfl
    · rfl
  | timer arrival =>
    unfold LiveTrader.step turns
    dsimp only
    split_ifs <;> rfl

/-- The trader runs as the event loop does on its turns. -/
theorem trader_run (env : Env) (w : LiveTrader) (events : List LiveEvent) :
    (run (LiveTrader.step env) w events).trader =
      run (Trader.step env) w.trader (outputs (LiveTrader.step env) turns w events) := by
  induction events generalizing w with
  | nil => rfl
  | cons event events inductionHypothesis =>
    rw [run_cons, inductionHypothesis, outputs, run_append, trader_step]

/-! ## What goes in and out -/

/-- What can be seen of the channel: the task sends the event of a frame, the spot feed's tick finds
    room, the loop takes an event. -/
inductive Seen where
  | routed (event : Event)
  | ticked (price : ℚ)
  | taken (event : Event)

namespace Seen

def routed? : Seen → Option Event
  | .routed event => some event
  | _ => none

def ticked? : Seen → Option ℚ
  | .ticked price => some price
  | _ => none

def taken? : Seen → Option Event
  | .taken event => some event
  | _ => none

end Seen

def seen (w : LiveTrader) : LiveEvent → List Seen
  | .read =>
    if w.channel.parked = none then
      ((w.connection.bind fun c => c.wire.head?).bind routeMessage).toList.map .routed
    else []
  | .spot price => if w.channel.Room then [.ticked price] else []
  | .receive out => (turns w (.receive out)).map fun turn => .taken turn.event
  | _ => []

/-- The events of the socket. -/
def ofSocket : Event → Option Event
  | .book ticker msg => some (.book ticker msg)
  | .trade ticker msg => some (.trade ticker msg)
  | _ => none

def ofSpot : Event → Option ℚ
  | .spot price => some price
  | _ => none

/-- What was taken and what is pending make up what was sent, from either source. -/
structure Conserved (w : LiveTrader) (log : List Seen) : Prop where
  socket : (log.filterMap Seen.taken?).filterMap ofSocket ++ w.channel.pending.filterMap ofSocket =
    log.filterMap Seen.routed?
  spot : (log.filterMap Seen.taken?).filterMap ofSpot ++ w.channel.pending.filterMap ofSpot =
    log.filterMap Seen.ticked?
  parked : ∀ event ∈ w.channel.parked, ofSpot event = none

theorem ofSocket_of_routed {data : Value} {event : Event}
    (routes : routeMessage data = some event) : ofSocket event = some event ∧ ofSpot event = none := by
  obtain ⟨ticker, msg, rfl | rfl⟩ := routeMessage_cases routes
  · exact ⟨rfl, rfl⟩
  · exact ⟨rfl, rfl⟩

section Steps

variable {env : Env} {w : LiveTrader} {log : List Seen}

theorem conserved_of_same {w' : LiveTrader} (conserved : Conserved w log)
    (channel : w'.channel = w.channel) : Conserved w' (log ++ []) := by
  rw [List.append_nil]
  exact ⟨channel ▸ conserved.socket, channel ▸ conserved.spot, channel ▸ conserved.parked⟩

theorem conserved_send (conserved : Conserved w log) {w' : LiveTrader} {data : Value}
    {event : Event} (routes : routeMessage data = some event) (free : w.channel.parked = none)
    (channel : w'.channel = w.channel.send event) : Conserved w' (log ++ [.routed event]) := by
  obtain ⟨socket, spot⟩ := ofSocket_of_routed routes
  have sent := Channel.pending_send free event
  refine ⟨?_, ?_, fun other waits => ?_⟩
  · rw [channel, sent, List.filterMap_append (f := Seen.routed?), ← conserved.socket]
    simp [List.filterMap_cons, Seen.taken?, Seen.routed?, socket]
  · rw [channel, sent, List.filterMap_append (f := Seen.ticked?), ← conserved.spot]
    simp [List.filterMap_cons, Seen.taken?, Seen.ticked?, spot]
  · rw [channel] at waits
    obtain rfl | before := Channel.parked_send waits
    · exact spot
    · exact conserved.parked other before

theorem conserved_tick (conserved : Conserved w log) {price : ℚ} (room : w.channel.Room) :
    Conserved { w with channel := w.channel.trySend (.spot price) } (log ++ [.ticked price]) := by
  have spot := Channel.filterMap_pending_trySend_of_room conserved.parked room (.spot price)
  have socket : (w.channel.trySend (.spot price)).pending.filterMap ofSocket =
      w.channel.pending.filterMap ofSocket := Channel.filterMap_pending_trySend rfl _
  refine ⟨?_, ?_, fun other waits => ?_⟩
  · rw [socket, List.filterMap_append (f := Seen.routed?), ← conserved.socket]
    simp [List.filterMap_cons, Seen.taken?, Seen.routed?]
  · rw [spot, List.filterMap_append (f := Seen.ticked?), ← conserved.spot]
    simp [List.filterMap_cons, Seen.taken?, Seen.ticked?, ofSpot]
  · exact conserved.parked other (Channel.parked_trySend w.channel _ ▸ waits)

theorem conserved_take (conserved : Conserved w log) {w' : LiveTrader} {event : Event}
    (received : w.channel.receive = some (event, w'.channel)) :
    Conserved w' (log ++ [.taken event]) := by
  have pending := Channel.pending_receive received
  refine ⟨?_, ?_, fun other waits => ?_⟩
  · rw [List.filterMap_append (f := Seen.routed?), ← conserved.socket, pending]
    cases came : ofSocket event <;> simp [List.filterMap_cons, Seen.taken?, Seen.routed?, came]
  · rw [List.filterMap_append (f := Seen.ticked?), ← conserved.spot, pending]
    cases came : ofSpot event <;> simp [List.filterMap_cons, Seen.taken?, Seen.ticked?, came]
  · exact conserved.parked other ((Channel.queue_of_receive received).2 ▸ waits)

theorem conserved_step (conserved : Conserved w log) (event : LiveEvent) :
    Conserved (w.step env event) (log ++ seen w event) := by
  cases event with
  | change | answer | frame | cut => exact conserved_of_same conserved rfl
  | connect sends =>
    refine conserved_of_same conserved ?_
    unfold LiveTrader.step
    dsimp only
    split
    · rfl
    · split_ifs <;> rfl
  | wake sends =>
    refine conserved_of_same conserved ?_
    unfold LiveTrader.step
    dsimp only
    split
    · rfl
    · split_ifs <;> rfl
  | drop =>
    refine conserved_of_same conserved ?_
    unfold LiveTrader.step
    dsimp only
    split_ifs <;> rfl
  | timer arrival =>
    refine conserved_of_same conserved ?_
    unfold LiveTrader.step
    dsimp only
    split_ifs <;> rfl
  | resume =>
    have same := Channel.pending_resume w.channel
    unfold seen
    dsimp only
    rw [List.append_nil]
    refine ⟨?_, ?_, fun event waits => conserved.parked event (Channel.parked_resume waits)⟩
    · exact same.symm ▸ conserved.socket
    · exact same.symm ▸ conserved.spot
  | spot price =>
    unfold seen LiveTrader.step
    dsimp only
    split_ifs with room
    · exact conserved_tick conserved room
    · exact conserved_of_same conserved (Channel.trySend_of_full room _)
  | receive out =>
    unfold seen turns LiveTrader.step
    dsimp only
    split_ifs
    · split
      next event channel received =>
        rw [received]
        exact conserved_take conserved received
      next nothing =>
        rw [nothing]
        exact conserved_of_same conserved rfl
    · exact conserved_of_same conserved rfl
  | read =>
    unfold seen LiveTrader.step
    dsimp only
    split
    next unconnected =>
      rw [unconnected]
      split_ifs <;> exact conserved_of_same conserved rfl
    next c connected =>
      rw [connected]
      split
      next empty =>
        rw [Option.bind_some, empty]
        split_ifs <;> exact conserved_of_same conserved rfl
      next data rest wire =>
        rw [Option.bind_some, wire, List.head?_cons, Option.bind_some]
        split_ifs with free
        · split
          next event routes =>
            rw [routes]
            exact conserved_send conserved routes free rfl
          next routes =>
            rw [routes]
            exact conserved_of_same conserved rfl
        · exact conserved_of_same conserved rfl

end Steps

/-! ## Runs -/

/-- In every run, the events taken by the loop and those pending are the events of the frames that
    were read and the ticks that found room, each source's in order, none lost and none twice; and
    the trader is where the event loop's own run on its turns leads. -/
theorem channel_conserves (env : Env) (cfg : Config) (out : Outside) (books : String → Book)
    (events : List LiveEvent) :
    let start := LiveTrader.start env cfg out books
    let w := run (LiveTrader.step env) start events
    Conserved w (outputs (LiveTrader.step env) seen start events) ∧
      w.trader = run (Trader.step env) start.trader
        (outputs (LiveTrader.step env) turns start events) := by
  intro start w
  have starts : Conserved start [] := ⟨rfl, rfl, nofun⟩
  refine ⟨?_, trader_run env start events⟩
  exact outputs_induct _ (I := Conserved) (fun _ event _ conserved _ =>
    conserved_step conserved event) starts (along_true start events)

end KalshiMm.Verified.ChannelFlow
