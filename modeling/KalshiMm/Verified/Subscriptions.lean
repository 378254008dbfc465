import KalshiMm.Model.LiveTrader
import KalshiMm.Verified.Categories

/-!
# Subscriptions

The universe rolls while connections come and go.  On each connection no market is subscribed to
twice, and once the task has seen the universe that was published last, it is subscribed to every
market that the trader may quote.
-/

namespace KalshiMm.Verified.Subscriptions

open KalshiMm.Lib KalshiMm.Model

/-- What a connection is subscribed to, for a universe and its version. -/
structure Covers (version : ℕ) (published : List String) (c : Connection) : Prop where
  once : c.commands.Nodup
  recorded : ∀ ticker, ticker ∈ c.commands ↔ ticker ∈ c.subscribed
  answered : c.streaming ⊆ c.subscribed
  seen : c.seen ≤ version
  covers : c.seen = version → ∀ ticker ∈ published, ticker ∈ c.subscribed

/-- The published universe is the trader's, and the connection covers it. -/
structure Subscribed (w : LiveTrader) : Prop where
  nodup : w.published.Nodup
  lists : ∀ ticker, ticker ∈ w.published ↔ ticker ∈ w.trader.activeTickers
  connection : ∀ c ∈ w.connection, Covers w.version w.published c
  routed : ∀ event ∈ w.channel.pending, event.fromChannel = true

/-! ## Connections -/

section Connections

variable {version : ℕ} {published : List String} {c : Connection}

/-- Subscribing to markets that are not subscribed to yet, and see the universe they cover. -/
theorem covers_subscribeTo {added : List String} {sends : Bool} {c' : Connection}
    (sent : { c with seen := version }.subscribeTo added sends = some c')
    (once : c.commands.Nodup) (recorded : ∀ ticker, ticker ∈ c.commands ↔ ticker ∈ c.subscribed)
    (answered : c.streaming ⊆ c.subscribed) (nodup : added.Nodup)
    (unsent : ∀ ticker ∈ added, ticker ∉ c.subscribed)
    (rest : ∀ ticker ∈ published, ticker ∉ c.subscribed → ticker ∈ added) :
    Covers version published c' := by
  unfold Connection.subscribeTo at sent
  split_ifs at sent
  cases sent
  refine ⟨?_, fun ticker => ?_, answered.trans Finset.subset_union_left, le_rfl,
    fun _ ticker member => ?_⟩
  · refine List.nodup_append'.mpr ⟨once, nodup, fun ticker old new => ?_⟩
    exact unsent ticker new ((recorded ticker).mp old)
  · simp only [List.mem_append, Finset.mem_union, List.mem_toFinset, recorded]
  · by_cases old : ticker ∈ c.subscribed
    · exact Finset.mem_union_left _ old
    · exact Finset.mem_union_right _ (List.mem_toFinset.mpr (rest ticker member old))

theorem covers_wake {sends : Bool} {c' : Connection} (covered : Covers version published c)
    {next : ℕ} {listed : List String} (nodup : listed.Nodup)
    (sent : { c with seen := next }.subscribeTo (newSubscriptions c.subscribed listed) sends =
      some c') : Covers next listed c' := by
  refine covers_subscribeTo sent covered.once covered.recorded covered.answered
    (nodup.filter _) (fun ticker added => ?_) fun ticker member unsubscribed => ?_
  · exact of_decide_eq_true (List.mem_filter.mp added).2
  · exact List.mem_filter.mpr ⟨member, decide_eq_true unsubscribed⟩

theorem covers_connect {sends : Bool} {c' : Connection} (nodup : published.Nodup)
    (sent : ({ seen := version } : Connection).subscribeTo published sends = some c') :
    Covers version published c' :=
  covers_subscribeTo (c := { seen := version }) sent List.nodup_nil (fun _ => by simp)
    (Finset.empty_subset _) nodup (fun _ _ => Finset.notMem_empty _) fun _ member _ => member

/-- Frames that come and go leave the subscriptions as they are. -/
theorem Covers.of_frames (covered : Covers version published c) {c' : Connection}
    (commands : c'.commands = c.commands) (subscribed : c'.subscribed = c.subscribed)
    (seen : c'.seen = c.seen) (answered : c'.streaming ⊆ c.subscribed) :
    Covers version published c' where
  once := commands ▸ covered.once
  recorded ticker := by rw [commands, subscribed]; exact covered.recorded ticker
  answered := subscribed ▸ answered
  seen := seen ▸ covered.seen
  covers last ticker member := by
    rw [subscribed]
    exact covered.covers (seen ▸ last) ticker member

end Connections

/-! ## Steps -/

section Steps

variable {env : Env} {w : LiveTrader}

theorem subscribed_withConnection {f : Connection → Connection} (subscribed : Subscribed w)
    (kept : ∀ c, Covers w.version w.published c → Covers w.version w.published (f c)) :
    Subscribed (w.withConnection f) := by
  refine ⟨subscribed.nodup, subscribed.lists, fun c connected => ?_, subscribed.routed⟩
  obtain ⟨before, found, rfl⟩ := Option.map_eq_some_iff.mp connected
  exact kept before (subscribed.connection before found)

theorem fromChannel_of_routed {data : Value} {event : Event}
    (routes : routeMessage data = some event) : event.fromChannel = true := by
  obtain ⟨ticker, msg, rfl | rfl⟩ := routeMessage_cases routes
  · rfl
  · rfl

/-- A turn that publishes no universe does not move it. -/
theorem active_of_unpublished {arrival : Arrival} {tr : Trader}
    (unpublished : tr.publishes env arrival = false) :
    (tr.step env arrival).activeTickers = tr.activeTickers := by
  by_cases refreshes : arrival.event = .refresh
  · unfold Trader.publishes at unpublished
    rw [refreshes] at unpublished
    unfold Trader.step Trader.turn
    split_ifs with running
    · have stays : tr.refreshMarkets env arrival.out = tr := by
        unfold Trader.refreshMarkets
        dsimp only
        rw [running, Bool.true_and, Bool.not_eq_false'] at unpublished
        obtain nothing | same := of_decide_eq_true unpublished
        · exact if_pos nothing
        · split_ifs
          · rfl
          · rfl
      unfold Trader.handle
      rw [refreshes]
      dsimp only
      rw [stays]
    · rfl
  · exact (Categories.step_sameLabels refreshes).active

theorem subscribed_timer {arrival : Arrival} (subscribed : Subscribed w) :
    Subscribed (w.step env (.timer arrival)) := by
  unfold LiveTrader.step
  dsimp only
  split_ifs with comes publishes
  · exact subscribed
  · refine ⟨arrival.out.hash.nodup _, fun ticker => ?_, fun c connected => ?_, subscribed.routed⟩
    · exact (arrival.out.hash.mem _ _).trans Finmap.mem_keys
    · -- the task has not seen the universe that is published now
      have covered := subscribed.connection c connected
      have unseen : c.seen < w.version + 1 := Nat.lt_succ_of_le covered.seen
      exact ⟨covered.once, covered.recorded, covered.answered, unseen.le,
        fun last => absurd last unseen.ne⟩
  · have same := active_of_unpublished (Bool.eq_false_iff.mpr publishes)
    exact ⟨subscribed.nodup, fun ticker => by rw [same]; exact subscribed.lists ticker,
      subscribed.connection, subscribed.routed⟩

theorem subscribed_receive {out : Outside} (subscribed : Subscribed w) :
    Subscribed (w.step env (.receive out)) := by
  unfold LiveTrader.step
  dsimp only
  split_ifs
  · split
    next event channel received =>
      have pending := Channel.pending_receive received
      -- no refresh comes through the channel
      have comes : event.fromChannel = true :=
        subscribed.routed event (pending ▸ List.mem_cons_self)
      have stays : (w.trader.step env ⟨event, out⟩).activeTickers = w.trader.activeTickers :=
        (Categories.step_sameLabels fun refreshes : event = .refresh => by
          rw [refreshes] at comes
          cases comes).active
      exact ⟨subscribed.nodup, fun ticker => by rw [stays]; exact subscribed.lists ticker,
        subscribed.connection, fun event member =>
          subscribed.routed event (pending ▸ List.mem_cons_of_mem _ member)⟩
    · exact subscribed
  · exact subscribed

theorem subscribed_step (subscribed : Subscribed w) (event : LiveEvent) :
    Subscribed (w.step env event) := by
  cases event with
  | change ticker side price qty =>
    let books := Function.update w.books ticker ((w.books ticker).setLevel side price qty)
    have moved : Subscribed { w with books } :=
      ⟨subscribed.nodup, subscribed.lists, subscribed.connection, subscribed.routed⟩
    refine subscribed_withConnection moved fun c covered => ?_
    split_ifs
    · exact covered.of_frames rfl rfl rfl covered.answered
    · exact covered
  | answer ticker =>
    refine subscribed_withConnection subscribed fun c covered => ?_
    split_ifs with answers
    · exact covered.of_frames rfl rfl rfl (Finset.insert_subset answers.2.1 covered.answered)
    · exact covered
  | frame data =>
    refine subscribed_withConnection subscribed fun c covered => ?_
    split_ifs
    · exact covered.of_frames rfl rfl rfl covered.answered
    · exact covered
  | cut delivered =>
    exact subscribed_withConnection subscribed fun c covered =>
      covered.of_frames rfl rfl rfl covered.answered
  | connect sends =>
    unfold LiveTrader.step
    dsimp only
    split
    · exact subscribed
    · split_ifs
      · exact ⟨subscribed.nodup, subscribed.lists, fun c sent =>
          covers_connect subscribed.nodup sent, subscribed.routed⟩
      · exact subscribed
  | wake sends =>
    unfold LiveTrader.step
    dsimp only
    split
    · exact subscribed
    next c connected =>
      split_ifs
      · exact ⟨subscribed.nodup, subscribed.lists, fun c' sent =>
          covers_wake (subscribed.connection c connected) subscribed.nodup sent,
          subscribed.routed⟩
      · exact subscribed
  | read =>
    unfold LiveTrader.step
    dsimp only
    split
    · exact subscribed
    next c connected =>
      have covered := subscribed.connection c connected
      split
      · exact subscribed
      next data rest _ =>
        have reads (c' : Connection) (same : some { c with wire := rest } = some c') :
            Covers w.version w.published c' := by
          cases same
          exact covered.of_frames rfl rfl rfl covered.answered
        split_ifs with free
        · split
          next event routes =>
            refine ⟨subscribed.nodup, subscribed.lists, reads, fun other member => ?_⟩
            rw [Channel.pending_send free, List.mem_append, List.mem_singleton] at member
            obtain old | rfl := member
            · exact subscribed.routed other old
            · exact fromChannel_of_routed routes
          · exact ⟨subscribed.nodup, subscribed.lists, reads, subscribed.routed⟩
        · exact subscribed
  | resume =>
    exact ⟨subscribed.nodup, subscribed.lists, subscribed.connection, fun event member =>
      subscribed.routed event (Channel.pending_resume w.channel ▸ member)⟩
  | drop =>
    unfold LiveTrader.step
    dsimp only
    split_ifs
    · exact ⟨subscribed.nodup, subscribed.lists, nofun, subscribed.routed⟩
    · exact subscribed
  | spot price =>
    refine ⟨subscribed.nodup, subscribed.lists, subscribed.connection, fun event member => ?_⟩
    obtain rfl | old := Channel.mem_pending_trySend member
    · rfl
    · exact subscribed.routed event old
  | receive out => exact subscribed_receive subscribed
  | timer arrival => exact subscribed_timer subscribed

end Steps

/-! ## Runs -/

/-- In every run, on every connection: no market is subscribed to twice, what is subscribed to is what
    was sent, and once the last universe has been seen, every active market is. -/
theorem subscriptions_cover_universe (env : Env) (cfg : Config) (out : Outside)
    (books : String → Book) (events : List LiveEvent) :
    Throughout (LiveTrader.step env) Subscribed (LiveTrader.start env cfg out books) events := by
  refine throughout_of_step (fun _ event subscribed => subscribed_step subscribed event)
    ⟨out.hash.nodup _, fun ticker => ?_, nofun, nofun⟩
  exact (out.hash.mem _ _).trans Finmap.mem_keys

end KalshiMm.Verified.Subscriptions
