import KalshiMm.Verified.BookPayloads
import KalshiMm.Verified.Clocks
import KalshiMm.Verified.Categories

/-!
# Replication of the exchange's books

The copy of a book is seeded by REST and by the snapshot of its subscription, and follows the deltas
of that.  It stays the exchange's book as long as its market is on the feed whenever the book
changes, and as long as a REST seed is whole and finds no delta on its way.
-/

namespace KalshiMm.Verified.Replication

open KalshiMm.Lib KalshiMm.Model

/-! ## Books under the handlers -/

/-- The trader's copy of a book. -/
def bookOf (tr : Trader) (ticker : String) : Book :=
  ((tr.state.tickers.lookup ticker).map TickerState.book).getD {}

theorem bookOf_eq (tr : Trader) (ticker category : String) :
    bookOf tr ticker = (tr.state.tickerD ticker category).book :=
  Option.getD_map TickerState.book (TickerState.new category) (tr.state.tickers.lookup ticker)

theorem bookOf_of_insert {tr tr' : Trader} {ticker : String} {ts : TickerState}
    (written : tr'.state.tickers = tr.state.tickers.insert ticker ts) (other : String) :
    bookOf tr' other = if other = ticker then ts.book else bookOf tr other := by
  unfold bookOf
  rw [written, Dict.getD_map_insert]

theorem bookOf_of_kept {tr tr' : Trader} (ticker category : String) {ts : TickerState}
    (written : tr'.state.tickers = tr.state.tickers.insert ticker ts)
    (kept : ts.book = (tr.state.tickerD ticker category).book) (other : String) :
    bookOf tr' other = bookOf tr other := by
  rw [bookOf_of_insert written]
  split_ifs with same
  · rw [kept, same, bookOf_eq tr ticker category]
  · rfl

theorem bookOf_foldedIn (ticker category : String) (msg : Value) (tr : Trader) (other : String) :
    bookOf (foldedIn ticker category msg tr) other =
      if other = ticker then Trader.foldBook (bookOf tr ticker) msg else bookOf tr other := by
  have written : (foldedIn ticker category msg tr).state.tickers = tr.state.tickers.insert ticker
      { tr.state.tickerD ticker category with
        book := Trader.foldBook (tr.state.tickerD ticker category).book msg } := rfl
  rw [bookOf_of_insert written, ← bookOf_eq tr ticker category]

theorem bookOf_observeAndQuote (env : Env) (out : Outside) (ticker category : String) (fvShift : ℚ)
    (tr : Trader) (other : String) :
    bookOf (tr.observeAndQuote env out ticker category fvShift).trader other = bookOf tr other := by
  obtain ⟨_, _, _, senses⟩ := buildObservation_senses (tr.state.tickerD ticker category) tr.cfg.mm
    out.epoch out.mono
  have observed (other : String) : bookOf { tr with
      state := tr.state.setTicker ticker (buildObservation (tr.state.tickerD ticker category)
        tr.cfg.mm out.epoch out.mono).1 } other = bookOf tr other :=
    bookOf_of_kept ticker category rfl (by rw [senses]) other
  unfold Trader.observeAndQuote
  dsimp only
  split
  · exact observed other
  · rw [← observed other]
    obtain ⟨ts, written, _, book, _⟩ := quoteCycle_written out category ticker _ fvShift _ _
    exact bookOf_of_kept ticker category written book other

/-- A book message is folded into its market's book, and into no other. -/
theorem bookOf_onBookUpdate (env : Env) (out : Outside) {ticker : String} (msg : Value)
    {tr : Trader} (active : ticker ∈ tr.activeTickers) (other : String) :
    bookOf (tr.onBookUpdate env out ticker msg).trader other =
      if other = ticker then Trader.foldBook (bookOf tr ticker) msg else bookOf tr other := by
  obtain ⟨category, listed⟩ := Finmap.mem_iff.mp active
  rw [← bookOf_foldedIn ticker category, onBookUpdate_of_active listed]
  dsimp only
  by_cases passes : PassesChecks out ticker category msg tr
  · rw [if_neg (not_not.mpr passes)]
    split
    · rfl
    · rfl
    · split
      · rfl
      · exact bookOf_observeAndQuote ..
  · rw [if_pos passes]

/-! ## Books under a refresh -/

theorem bookOf_fetchMarketDetails (env : Env) (out : Outside) (entries : List (String × String))
    (tr : Trader) (ticker : String) :
    bookOf (Trader.fetchMarketDetails env out entries tr) ticker = bookOf tr ticker := by
  refine run_related (R := fun before after => bookOf after ticker = bookOf before ticker)
    (fun _ => rfl) (fun _ _ _ first second => second.trans first) (fun tr entry => ?_) tr entries
  refine bookOf_of_kept entry.1 entry.2 rfl ?_ ticker
  unfold Trader.readDetails
  split <;> rfl

/-- What the fetch of one snapshot loads. -/
theorem bookOf_fetchSnapshot (out : Outside) (tr : Trader) (entry : String × String)
    (ticker : String) :
    bookOf (Trader.fetchSnapshot out tr entry) ticker =
      match out.api.getOrderbook entry.1 with
      | .error _ => bookOf tr ticker
      | .ok resp =>
        if ticker = entry.1 then (bookOf tr ticker).loadSnapshot ((resp.get "orderbook").getD resp)
        else bookOf tr ticker := by
  unfold Trader.fetchSnapshot
  dsimp only
  cases out.api.getOrderbook entry.1 with
  | error _ => rfl
  | ok resp =>
    refine (bookOf_of_insert rfl ticker).trans ?_
    dsimp only
    split_ifs with same
    · rw [same, bookOf_eq tr entry.1 entry.2]
    · rfl

theorem bookOf_fetchInitialSnapshots_of_notMem {out : Outside} {entries : List (String × String)}
    {ticker : String} (absent : ∀ entry ∈ entries, entry.1 ≠ ticker) (tr : Trader) :
    bookOf (Trader.fetchInitialSnapshots out entries tr) ticker = bookOf tr ticker := by
  have kept : Throughout (Trader.fetchSnapshot out)
      (fun tr' => bookOf tr' ticker = bookOf tr ticker) tr entries := by
    refine throughout_of_along (fun tr' entry kept other => ?_) rfl (along_of_forall absent)
    rw [bookOf_fetchSnapshot]
    split
    · exact kept
    · rw [if_neg (Ne.symm other), kept]
  exact kept.last

/-- A market on the list whose answer replaces the whole book ends up with the book it holds. -/
theorem bookOf_fetchInitialSnapshots {out : Outside} {entries : List (String × String)}
    {ticker category : String} {resp : Value} {book : Book} (member : (ticker, category) ∈ entries)
    (answers : out.api.getOrderbook ticker = .ok resp)
    (holds : ∀ copy : Book, copy.loadSnapshot ((resp.get "orderbook").getD resp) = book)
    (tr : Trader) :
    bookOf (Trader.fetchInitialSnapshots out entries tr) ticker = book := by
  obtain ⟨before, after, rfl⟩ := List.append_of_mem member
  have loads (tr : Trader) (category : String) :
      bookOf (Trader.fetchSnapshot out tr (ticker, category)) ticker = book := by
    rw [bookOf_fetchSnapshot, answers]
    exact (if_pos rfl).trans (holds _)
  have keeps (tr : Trader) (entry : String × String) (loaded : bookOf tr ticker = book)
      (_ : True) : bookOf (Trader.fetchSnapshot out tr entry) ticker = book := by
    by_cases same : entry.1 = ticker
    · obtain ⟨_, category⟩ := entry
      cases same
      exact loads tr category
    · rw [bookOf_fetchSnapshot]
      split
      · exact loaded
      · rw [if_neg (Ne.symm same), loaded]
  exact holds_after keeps (loads _ category) fun _ _ => trivial

section Refresh

variable {env : Env} {out : Outside} {tr : Trader} {ticker : String}

theorem bookOf_refreshMarkets_active (active : ticker ∈ tr.activeTickers) :
    bookOf (tr.refreshMarkets env out) ticker = bookOf tr ticker := by
  have ends := refreshMarkets_refreshed env out tr
  generalize tr.refreshMarkets env out = tr' at ends ⊢
  cases ends with
  | unfound _ => rfl
  | unchanged _ _ => rfl
  | rolled _ ladders =>
    refine (bookOf_fetchInitialSnapshots_of_notMem (fun entry added => ?_) _).trans
      (bookOf_fetchMarketDetails ..)
    rintro rfl
    exact ((Categories.mem_addedEntries ..).mp added).2 active

/-- A market that a refresh takes up gets the book that its answer holds. -/
theorem bookOf_refreshMarkets_added {resp : Value} {book : Book}
    (inactive : ticker ∉ tr.activeTickers) (found : ticker ∈ Trader.discoverUniverse env out)
    (answers : out.api.getOrderbook ticker = .ok resp)
    (holds : ∀ copy : Book, copy.loadSnapshot ((resp.get "orderbook").getD resp) = book) :
    bookOf (tr.refreshMarkets env out) ticker = book := by
  obtain ⟨category, listed⟩ := Finmap.mem_iff.mp found
  have added := (Categories.mem_addedEntries tr out _ (ticker, category)).mpr ⟨listed, inactive⟩
  have ends := refreshMarkets_refreshed env out tr
  generalize tr.refreshMarkets env out = tr' at ends ⊢
  cases ends with
  | unfound nothing =>
    rw [nothing, Finmap.lookup_empty] at listed
    cases listed
  | unchanged noneAdded _ =>
    rw [noneAdded] at added
    cases added
  | rolled _ ladders => exact bookOf_fetchInitialSnapshots added answers holds _

end Refresh

/-- So does every active market when all of them are seeded, as the startup does. -/
theorem bookOf_seeded {out : Outside} {tr : Trader} {ticker : String} {resp : Value} {book : Book}
    (active : ticker ∈ (Trader.fetchInitialSnapshots out (tr.allEntries out) tr).activeTickers)
    (answers : out.api.getOrderbook ticker = .ok resp)
    (holds : ∀ copy : Book, copy.loadSnapshot ((resp.get "orderbook").getD resp) = book) :
    bookOf (Trader.fetchInitialSnapshots out (tr.allEntries out) tr) ticker = book := by
  have labels : Categories.SameLabels tr
      (Trader.fetchInitialSnapshots out (tr.allEntries out) tr) :=
    .of_bookkeeping (refetch_fetchInitialSnapshots out (tr.allEntries out) tr).books
  obtain ⟨category, listed⟩ := Finmap.mem_iff.mp (labels.active ▸ active)
  have member := (Categories.mem_allEntries tr out (ticker, category)).mpr listed
  exact bookOf_fetchInitialSnapshots member answers holds tr

theorem bookOf_startup {env : Env} {cfg : Config} {out : Outside} {ticker : String} {resp : Value}
    {book : Book} (active : ticker ∈ (Trader.startup env cfg out).activeTickers)
    (answers : out.api.getOrderbook ticker = .ok resp)
    (holds : ∀ copy : Book, copy.loadSnapshot ((resp.get "orderbook").getD resp) = book) :
    bookOf (Trader.startup env cfg out) ticker = book := by
  unfold Trader.startup at active ⊢
  exact bookOf_seeded active answers holds

/-! ## The feed -/

/-- The market's messages that wait in the queue. -/
def messagesFor (ticker : String) (queue : List (String × Value)) : List Value :=
  (queue.filter fun entry => entry.1 = ticker).map Prod.snd

/-- Levels on the exchange are priced in the code's keys, and `get_orderbook` answers with the top
    ten levels of the exchange's book.  The refresh stands at the moment of that call. -/
def Serves (ticker : String) (w : Feed) : FeedEvent → Prop
  | .change other _ price _ => other = ticker → price < 2 ^ 32
  | .refresh out => ∀ resp, out.api.getOrderbook ticker = .ok resp →
      resp = (w.books ticker).response 10
  | _ => True

/-- The refresh takes the market up, and its book is fetched. -/
def SeedsByRest (env : Env) (w : Feed) (ticker : String) (out : Outside) : Prop :=
  w.trader.running = true ∧ ticker ∉ w.trader.activeTickers ∧
    ticker ∈ Trader.discoverUniverse env out ∧ (out.api.getOrderbook ticker).isOk = true

instance (env : Env) (w : Feed) (ticker : String) (out : Outside) :
    Decidable (SeedsByRest env w ticker out) := inferInstanceAs (Decidable (_ ∧ _))

/-- The message is a full snapshot that the trader takes in. -/
def SeedsBySocket (w : Feed) (ticker : String) : Prop :=
  w.trader.running = true ∧ ticker ∈ w.trader.activeTickers ∧
    ∃ entry ∈ w.queue.head?, entry.1 = ticker ∧ FullSnapshot entry.2

instance (w : Feed) (ticker : String) : Decidable (SeedsBySocket w ticker) :=
  inferInstanceAs (Decidable (_ ∧ _ ∧ _))

/-- Has the market been seeded, by REST or by the socket, since it was taken up last? -/
def seededAfter (env : Env) (ticker : String) (w : Feed) (seeded : Bool) : FeedEvent → Bool
  | .deliver _ => seeded || decide (SeedsBySocket w ticker)
  | .refresh out =>
    if ticker ∈ w.trader.activeTickers then seeded else decide (SeedsByRest env w ticker out)
  | _ => seeded

def seededAtStart (env : Env) (cfg : Config) (out : Outside) (ticker : String) : Bool :=
  decide (ticker ∈ (Trader.startup env cfg out).activeTickers) && (out.api.getOrderbook ticker).isOk

/-- An active market that has been seeded and has nothing queued has the exchange's book. -/
def Replicated (ticker : String) (s : Feed × Bool) : Prop :=
  ticker ∈ s.1.trader.activeTickers → s.2 = true → messagesFor ticker s.1.queue = [] →
    bookOf s.1.trader ticker = s.1.books ticker

instance (ticker : String) : DecidablePred (Replicated ticker) := fun _ =>
  inferInstanceAs (Decidable (_ → _ → _ → _))

/-- A seeded market's book only changes while it is on the feed.  A REST seed is of a whole book,
    and no message of the market is on its way, unless one of those is a snapshot. -/
def KeepsUp (env : Env) (ticker : String) (s : Feed × Bool) : FeedEvent → Prop
  | .change other _ _ _ => other = ticker → ticker ∈ s.1.trader.activeTickers → s.2 = true →
      ticker ∈ s.1.streaming
  | .refresh out => SeedsByRest env s.1 ticker out →
      (∃ msg ∈ messagesFor ticker s.1.queue, FullSnapshot msg) ∨
        Shallow (s.1.books ticker) ∧ messagesFor ticker s.1.queue = []
  | _ => True

instance (env : Env) (ticker : String) (s : Feed × Bool) : DecidablePred (KeepsUp env ticker s)
  | .change .. => inferInstanceAs (Decidable (_ = _ → _ → _ → _))
  | .refresh _ => inferInstanceAs (Decidable (SeedsByRest .. → _ ∨ _))
  | .subscribe | .answer _ | .deliver _ => isTrue trivial

/-! ## Steps -/

/-- The copy follows the exchange's book, and nothing is queued off the feed. -/
structure Fed (ticker : String) (s : Feed × Bool) : Prop where
  listed : Book.Listed (s.1.books ticker)
  silent : ticker ∉ s.1.streaming → messagesFor ticker s.1.queue = []
  follows : Follows Trader.foldBook (s.1.books ticker) (bookOf s.1.trader ticker)
    (messagesFor ticker s.1.queue) (ticker ∈ s.1.trader.activeTickers ∧ s.2 = true)

theorem Fed.replicated {ticker : String} {s : Feed × Bool} (fed : Fed ticker s) :
    Replicated ticker s := fun active seeded drained =>
  Follows.drained (drained ▸ fed.follows) ⟨active, seeded⟩

theorem messagesFor_concat (ticker other : String) (queue : List (String × Value)) (msg : Value) :
    messagesFor ticker (queue ++ [(other, msg)]) =
      messagesFor ticker queue ++ if other = ticker then [msg] else [] := by
  unfold messagesFor
  rw [List.filter_append, List.map_append]
  split_ifs with same <;> simp [same]

theorem messagesFor_cons (ticker other : String) (queue : List (String × Value)) (msg : Value) :
    messagesFor ticker ((other, msg) :: queue) =
      if other = ticker then msg :: messagesFor ticker queue else messagesFor ticker queue := by
  unfold messagesFor
  split_ifs with same <;> simp [same]

theorem receive_delta (w : Feed) (ticker : String) (side : ContractSide) (price : ℕ) (delta : ℚ) :
    w.receive (frame "orderbook_delta" (deltaMsg ticker side price delta)) =
      { w with queue := w.queue ++ [(ticker, deltaMsg ticker side price delta)] } := rfl

theorem receive_snapshot (w : Feed) (ticker : String) (book : Book) :
    w.receive (frame "orderbook_snapshot" (snapshotMsg ticker book)) =
      { w with queue := w.queue ++ [(ticker, snapshotMsg ticker book)] } := rfl

section Steps

variable {env : Env} {ticker : String} {w : Feed} {seeded : Bool}

theorem fed_change {other : String} {side : ContractSide} {price : ℕ} {qty : ℚ}
    (fed : Fed ticker (w, seeded)) (serves : Serves ticker w (.change other side price qty))
    (keepsUp : KeepsUp env ticker (w, seeded) (.change other side price qty)) :
    Fed ticker (withGhost (Feed.step env) (seededAfter env ticker) (w, seeded)
      (.change other side price qty)) := by
  obtain ⟨listed, silent, follows⟩ := fed
  by_cases here : other = ticker
  · subst here
    have fits := serves rfl
    by_cases streaming : other ∈ w.streaming
    · have sent := follows.send (m := deltaMsg other side price
        (qty - (((w.books other).levels side).lookup price).getD 0))
      rw [foldBook_deltaMsg _ _ fits] at sent
      simp only [withGhost, Feed.step, if_pos streaming, receive_delta, seededAfter]
      refine ⟨?_, fun off => absurd streaming off, ?_⟩
      · simpa only [Function.update_self] using listed.setLevel side fits qty
      · simpa only [Function.update_self, messagesFor_concat, if_true] using sent
    · have quiet := silent streaming
      simp only [withGhost, Feed.step, if_neg streaming, seededAfter]
      refine ⟨?_, fun _ => quiet, ?_, ?_⟩
      · simpa only [Function.update_self] using listed.setLevel side fits qty
      · dsimp only
        rw [quiet]
        exact Refreshes.nil _
      · rintro ⟨active, isSeeded⟩
        exact absurd (keepsUp rfl active isSeeded) streaming
  · have elsewhere : ticker ≠ other := Ne.symm here
    simp only [withGhost, Feed.step, seededAfter, receive_delta]
    split_ifs
    · refine ⟨?_, ?_, ?_⟩ <;>
        simpa only [Function.update_of_ne elsewhere, messagesFor_concat, if_neg here,
          List.append_nil]
    · refine ⟨?_, ?_, ?_⟩ <;> simpa only [Function.update_of_ne elsewhere]

theorem fed_answer {other : String} (fed : Fed ticker (w, seeded)) :
    Fed ticker
      (withGhost (Feed.step env) (seededAfter env ticker) (w, seeded) (.answer other)) := by
  obtain ⟨listed, silent, follows⟩ := fed
  simp only [withGhost, Feed.step, seededAfter]
  split_ifs with answers
  · rw [receive_snapshot]
    by_cases here : other = ticker
    · subst here
      have sent := follows.send (m := snapshotMsg other (w.books other))
      rw [foldBook_snapshotMsg listed] at sent
      refine ⟨listed, fun off => absurd (Finset.mem_insert_self ..) off, ?_⟩
      simpa only [messagesFor_concat, if_true] using sent
    · refine ⟨listed, fun off => ?_, ?_⟩
      · simpa only [messagesFor_concat, if_neg here, List.append_nil] using
          silent fun on => off (Finset.mem_insert_of_mem on)
      · simpa only [messagesFor_concat, if_neg here, List.append_nil] using follows
  · exact ⟨listed, silent, follows⟩

theorem bookOf_deliver (env : Env) (out : Outside) (ticker other : String) (msg : Value)
    {tr : Trader} (running : tr.running = true) :
    bookOf (tr.step env ⟨.book other msg, out⟩) ticker =
      if other = ticker ∧ ticker ∈ tr.activeTickers then Trader.foldBook (bookOf tr ticker) msg
      else bookOf tr ticker := by
  unfold Trader.step Trader.turn
  rw [if_pos running]
  unfold Trader.handle
  dsimp only
  by_cases active : other ∈ tr.activeTickers
  · rw [bookOf_onBookUpdate env out msg active]
    by_cases here : other = ticker
    · subst here
      rw [if_pos rfl, if_pos ⟨rfl, active⟩]
    · rw [if_neg (Ne.symm here), if_neg fun both => here both.1]
  · have idle : tr.onBookUpdate env out other msg = ⟨tr, []⟩ := by
      unfold Trader.onBookUpdate
      rw [Finmap.lookup_eq_none.mpr active]
    rw [idle, if_neg]
    rintro ⟨rfl, isActive⟩
    exact active isActive

theorem fed_deliver {out : Outside} (fed : Fed ticker (w, seeded)) :
    Fed ticker (withGhost (Feed.step env) (seededAfter env ticker) (w, seeded) (.deliver out)) := by
  obtain ⟨listed, silent, follows⟩ := fed
  simp only [withGhost, Feed.step, seededAfter]
  cases waiting : w.queue with
  | nil =>
    have idle : ¬ SeedsBySocket w ticker := by
      rintro ⟨_, _, entry, first, _⟩
      rw [waiting] at first
      cases first
    rw [decide_eq_false idle, Bool.or_false]
    exact ⟨listed, silent, follows⟩
  | cons entry rest =>
    obtain ⟨other, msg⟩ := entry
    have queued := messagesFor_cons ticker other rest msg
    rw [← waiting] at queued
    dsimp only at silent follows ⊢
    split_ifs with running
    · have active : (w.trader.step env ⟨.book other msg, out⟩).activeTickers =
          w.trader.activeTickers := (Categories.step_sameLabels (by simp)).active
      have book := bookOf_deliver env out ticker other msg running
      by_cases here : other = ticker
      · subst here
        rw [queued, if_pos rfl] at silent follows
        refine ⟨listed, fun off => absurd (silent off) (List.cons_ne_nil _ _), ?_⟩
        dsimp only
        rw [book, active]
        by_cases isActive : other ∈ w.trader.activeTickers
        · rw [if_pos ⟨rfl, isActive⟩]
          refine follows.receive.weaken fun ⟨_, isSeeded⟩ => ?_
          rcases Bool.or_eq_true_iff.mp isSeeded with before | now
          · exact Or.inl ⟨isActive, before⟩
          · obtain ⟨_, _, entry, first, _, full⟩ := of_decide_eq_true now
            rw [waiting] at first
            cases first
            exact Or.inr (resets_of_fullSnapshot full)
        · rw [if_neg fun both : _ ∧ _ => isActive both.2]
          exact follows.drop.weaken fun current => isActive current.1
      · rw [queued, if_neg here] at silent follows
        refine ⟨listed, silent, ?_⟩
        have unseen : ¬ SeedsBySocket w ticker := by
          rintro ⟨_, _, entry, first, same, _⟩
          rw [waiting] at first
          cases first
          exact here same
        dsimp only
        rw [book, active, if_neg fun both : _ ∧ _ => here both.1, decide_eq_false unseen,
          Bool.or_false]
        exact follows
    · have halted : ¬ SeedsBySocket w ticker := fun seeds => running seeds.1
      rw [decide_eq_false halted, Bool.or_false]
      exact ⟨listed, silent, follows⟩

theorem fed_refresh {out : Outside} (fed : Fed ticker (w, seeded))
    (serves : Serves ticker w (.refresh out))
    (keepsUp : KeepsUp env ticker (w, seeded) (.refresh out)) :
    Fed ticker (withGhost (Feed.step env) (seededAfter env ticker) (w, seeded) (.refresh out)) := by
  obtain ⟨listed, silent, follows⟩ := fed
  refine ⟨listed, silent, ?_⟩
  simp only [withGhost, Feed.step, seededAfter]
  by_cases active : ticker ∈ w.trader.activeTickers
  · -- a market that stays keeps its book, and one that is dropped is not current any more
    have book : bookOf (w.trader.step env ⟨.refresh, out⟩) ticker = bookOf w.trader ticker := by
      unfold Trader.step Trader.turn
      split_ifs
      · exact bookOf_refreshMarkets_active active
      · rfl
    rw [book, if_pos active]
    exact follows.weaken fun current => ⟨active, current.2⟩
  · rw [if_neg active]
    by_cases seeds : SeedsByRest env w ticker out
    · obtain ⟨running, _, found, isOk⟩ := seeds
      obtain ⟨resp, answers⟩ : ∃ resp, out.api.getOrderbook ticker = .ok resp := by
        cases reply : out.api.getOrderbook ticker with
        | error _ => rw [reply] at isOk; cases isOk
        | ok resp => exact ⟨resp, rfl⟩
      have refreshed : w.trader.step env ⟨.refresh, out⟩ = w.trader.refreshMarkets env out := by
        unfold Trader.step Trader.turn
        rw [if_pos running]
        rfl
      refine (follows.renew ?_).weaken fun _ => trivial
      rcases keepsUp ⟨running, active, found, isOk⟩ with ⟨msg, queued, full⟩ | ⟨shallow, quiet⟩
      · exact Or.inl ⟨msg, queued, resets_of_fullSnapshot full⟩
      · rw [refreshed]
        refine Or.inr ⟨bookOf_refreshMarkets_added active found answers fun copy => ?_, quiet⟩
        rw [serves resp answers]
        exact loadSnapshot_response listed shallow copy
    · rw [decide_eq_false seeds]
      exact ⟨follows.refreshes, fun current => absurd current.2 Bool.false_ne_true⟩

theorem fed_step {s : Feed × Bool} {event : FeedEvent} (fed : Fed ticker s)
    (serves : Serves ticker s.1 event) (keepsUp : KeepsUp env ticker s event) :
    Fed ticker (withGhost (Feed.step env) (seededAfter env ticker) s event) := by
  cases event with
  | change other side price qty => exact fed_change fed serves keepsUp
  | subscribe => exact ⟨fed.listed, fed.silent, fed.follows⟩
  | answer other => exact fed_answer fed
  | deliver out => exact fed_deliver fed
  | refresh out => exact fed_refresh fed serves keepsUp

end Steps

/-! ## Runs -/

/-- From the startup on, whenever a market is active, seeded, and has nothing queued, the trader's
    copy of its book is the exchange's: in every run in which a seeded market's book changes only
    while it is on the feed, and a REST seed holds the whole book and finds nothing on its way. -/
theorem books_replicated {env : Env} {cfg : Config} {out : Outside} {books : String → Book}
    {ticker : String} {events : List FeedEvent} (listed : Book.Listed (books ticker))
    (answers : ∀ resp, out.api.getOrderbook ticker = .ok resp → resp = (books ticker).response 10)
    (whole : seededAtStart env cfg out ticker = true → Shallow (books ticker))
    (serves : Along (Feed.step env) (Serves ticker) (Feed.start env cfg out books) events)
    (keepsUp : Along (withGhost (Feed.step env) (seededAfter env ticker)) (KeepsUp env ticker)
      (Feed.start env cfg out books, seededAtStart env cfg out ticker) events) :
    Throughout (withGhost (Feed.step env) (seededAfter env ticker)) (Replicated ticker)
      (Feed.start env cfg out books, seededAtStart env cfg out ticker) events := by
  have starts : Fed ticker (Feed.start env cfg out books, seededAtStart env cfg out ticker) := by
    refine ⟨listed, fun _ => rfl, Refreshes.nil _, fun ⟨active, seeded⟩ => ?_⟩
    obtain ⟨_, isOk⟩ := Bool.and_eq_true_iff.mp seeded
    cases reply : out.api.getOrderbook ticker with
    | error _ => rw [reply] at isOk; cases isOk
    | ok resp =>
      refine bookOf_startup active reply fun copy => ?_
      rw [answers resp reply]
      exact loadSnapshot_response listed (whole seeded) copy
  have fed := throughout_of_along (fun s event fed condition =>
    fed_step fed condition.1 condition.2) starts ((along_withGhost _ serves).and keepsUp)
  exact fed.imp fun s fed => fed.replicated

/-! ## A market taken up again -/

/-- Ten contracts on either side. -/
def tenUp : Book := (({} : Book).setLevel .yes 400 10).setLevel .no 500 10

theorem listed_tenUp : Book.Listed tenUp := by
  have listed : Book.Listed {} := ⟨nofun, nofun⟩
  exact (listed.setLevel .yes (by decide) 10).setLevel .no (by decide) 10

/-- The bid of 40 cents is for fifteen contracts now. -/
def fifteenUp : Book := tenUp.setLevel .yes 400 15

/-- An exchange that lists markets, and answers with the top of one book. -/
def serving (book : Book) (tickers : List String) (mono : ℚ) : Outside :=
  { listing tickers mono with
    api := { (listing tickers mono).api with getOrderbook := fun _ => .ok (book.response 10) } }

def listingBoth (book : Book) : Outside := serving book ["KXBTCD-1", "KXBTCD-2"] 10

def listingSecond (book : Book) : Outside := serving book ["KXBTCD-2"] 10

/-- The feed at its start, with one book for all markets. -/
def feedOf (book : Book) : Feed × Bool :=
  (Feed.start (marketEnv none) (marketCfg none) (listingBoth book) fun _ => book,
    seededAtStart (marketEnv none) (marketCfg none) (listingBoth book) "KXBTCD-1")

theorem serves_refresh {ticker : String} {w : Feed} {book : Book} (same : w.books ticker = book)
    (tickers : List String) (mono : ℚ) :
    Serves ticker w (.refresh (serving book tickers mono)) := by
  intro resp answers
  cases answers
  rw [same]

/-- The first market is dropped and taken up again, and its book changes in between. -/
theorem books_replicated_taken_up :
    Throughout (withGhost (Feed.step (marketEnv none)) (seededAfter (marketEnv none) "KXBTCD-1"))
      (Replicated "KXBTCD-1") (feedOf tenUp)
      [.subscribe, .answer "KXBTCD-1", .deliver (listingBoth tenUp), .refresh (listingSecond tenUp),
        .change "KXBTCD-1" .yes 400 15, .deliver (listingBoth fifteenUp),
        .refresh (listingBoth fifteenUp), .change "KXBTCD-1" .no 490 5,
        .deliver (listingBoth fifteenUp)] :=
  books_replicated listed_tenUp
    (fun resp answers => by cases answers; rfl) (fun _ => by decide +kernel)
    ⟨trivial, trivial, trivial, serves_refresh (by decide +kernel) _ _, fun _ => by decide, trivial,
      serves_refresh (by decide +kernel) _ _, fun _ => by decide, trivial, trivial⟩
    (by decide +kernel)

/-- Eleven bids, of which an answer holds ten. -/
def elevenBids : Book :=
  (List.range 10).foldl (fun book level => book.setLevel .yes (300 + 10 * level) 10) tenUp

/-- A delta that is on its way when its market is taken up again counts twice, in the answer and on
    its own.  A seed of the top ten levels misses the others, and a change between the seed and the
    subscription is missed until that is answered. -/
theorem delta_counts_twice :
    let step := withGhost (Feed.step (marketEnv none)) (seededAfter (marketEnv none) "KXBTCD-1")
    let reseeded : List FeedEvent := [.subscribe, .answer "KXBTCD-1", .deliver (listingBoth tenUp),
      .refresh (listingSecond tenUp), .change "KXBTCD-1" .yes 400 15,
      .refresh (listingBoth fifteenUp), .deliver (listingBoth fifteenUp)]
    let changed : List FeedEvent := [.change "KXBTCD-1" .yes 400 15]
    Along (Feed.step (marketEnv none)) (Serves "KXBTCD-1") (feedOf tenUp).1 reseeded ∧
      ¬ Throughout step (Replicated "KXBTCD-1") (feedOf tenUp) reseeded ∧
      (bookOf (run step (feedOf tenUp) reseeded).1.trader "KXBTCD-1").yes.lookup 400 = some 20 ∧
      ¬ Replicated "KXBTCD-1" (feedOf elevenBids) ∧
      Along (Feed.step (marketEnv none)) (Serves "KXBTCD-1") (feedOf tenUp).1 changed ∧
      ¬ Throughout step (Replicated "KXBTCD-1") (feedOf tenUp) changed := by
  intro step reseeded changed
  refine ⟨⟨trivial, trivial, trivial, serves_refresh (by decide +kernel) _ _, fun _ => by decide,
    serves_refresh (by decide +kernel) _ _, trivial, trivial⟩, fun replicated => ?_,
    by decide +kernel, by decide +kernel, ⟨fun _ => by decide, trivial⟩, fun replicated => ?_⟩
  · exact absurd replicated.last (by decide +kernel)
  · exact absurd replicated.last (by decide +kernel)

end KalshiMm.Verified.Replication
