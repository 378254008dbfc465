import KalshiMm.Model.RestTrader
import KalshiMm.Verified.Reconnects
import KalshiMm.Verified.SaneBooks

/-!
# Books by REST poll

A poll is answered with the ten best levels of either side.  The copy that it leaves is these levels
exactly, whatever was there before, and stands until the next answer; the touch, the levels that the
features read and so the whole observation are those of the full book.
-/

namespace KalshiMm.Verified.Polls

open KalshiMm.Lib KalshiMm.Model Replication Reconnects SaneBooks

/-! ## The levels that are shown -/

/-- The best levels of a side, as a side of their own. -/
def shown (levels : Levels) (depth : ℕ) : Levels :=
  (levels.top depth).foldl (fun out level => out.insert level.1 level.2) ∅

def shownBook (book : Book) (depth : ℕ) : Book := ⟨shown book.yes depth, shown book.no depth⟩

theorem lookup_foldl_insert (rows : List (ℕ × ℚ)) {levels out : Levels}
    (rows_ : ∀ row ∈ rows, levels.lookup row.1 = some row.2) (price : ℕ) :
    (rows.foldl (fun out level => out.insert level.1 level.2) out).lookup price =
      if price ∈ rows.map Prod.fst then levels.lookup price else out.lookup price := by
  induction rows generalizing out with
  | nil => rfl
  | cons row rows inductionHypothesis =>
    obtain ⟨here, later⟩ := List.forall_mem_cons.mp rows_
    rw [List.foldl_cons, inductionHypothesis later, Dict.lookup_insert_eq_ite]
    simp only [List.map_cons, List.mem_cons]
    by_cases same : price = row.1
    · subst same
      rw [if_pos rfl, if_pos (Or.inl rfl), here, ite_self]
    · simp only [same, if_false, false_or]

theorem lookup_shown (levels : Levels) (depth price : ℕ) :
    (shown levels depth).lookup price =
      if price ∈ (levels.top depth).map Prod.fst then levels.lookup price else none :=
  lookup_foldl_insert _ (fun _ member => lookup_of_mem_top member) price

theorem top_succ {levels : Levels} {key : ℕ} (best : levels.lastKey = some key) (depth : ℕ) :
    levels.top (depth + 1) =
      (key, (levels.lookup key).getD 0) :: Levels.top (Finmap.erase key levels) depth := by
  rw [Levels.top, best]

/-- The best level is shown first, and under it what is shown of the others. -/
theorem shown_succ {levels : Levels} {key : ℕ} {qty : ℚ} (best : levels.lastKey = some key)
    (found : levels.lookup key = some qty) (depth : ℕ) :
    shown levels (depth + 1) = (shown (Finmap.erase key levels) depth).insert key qty := by
  refine Finmap.ext_lookup fun price => ?_
  rw [lookup_shown, top_succ best, Dict.lookup_insert_eq_ite, lookup_shown,
    Dict.lookup_erase_eq_ite]
  simp only [List.map_cons, List.mem_cons]
  by_cases same : price = key
  · subst same
    rw [if_pos (Or.inl rfl), if_pos rfl, found]
  · simp only [same, if_false, false_or]

theorem key_of_shown {levels : Levels} {depth price : ℕ} (member : price ∈ shown levels depth) :
    price ∈ levels.keys := by
  obtain ⟨qty, found⟩ := Finmap.mem_iff.mp member
  rw [lookup_shown] at found
  split_ifs at found with top
  obtain ⟨level, listed, rfl⟩ := List.mem_map.mp top
  exact mem_top listed

theorem lastKey_insert {levels : Levels} {key : ℕ} (qty : ℚ)
    (above : ∀ price ∈ levels, price < key) :
    Levels.lastKey (levels.insert key qty) = some key := by
  have member : key ∈ Finmap.keys (levels.insert key qty) :=
    Finmap.mem_keys.mpr (Finmap.mem_insert.mpr (Or.inl rfl))
  unfold Levels.lastKey
  rw [dif_pos ⟨key, member⟩]
  refine congrArg some (le_antisymm (Finset.max'_le _ _ _ fun price listed => ?_)
    (Finset.le_max' _ _ member))
  obtain rfl | old := Finmap.mem_insert.mp (Finmap.mem_keys.mp listed)
  · exact le_rfl
  · exact (above price old).le

theorem erase_insert_of_notMem {levels : Levels} {key : ℕ} (absent : key ∉ levels) (qty : ℚ) :
    Finmap.erase key (levels.insert key qty) = levels := by
  refine Finmap.ext_lookup fun price => ?_
  rw [Dict.lookup_erase_eq_ite, Dict.lookup_insert_eq_ite]
  split_ifs with same
  · rw [same, Finmap.lookup_eq_none.mpr absent]
  · rfl

/-- What is shown has the same best levels, as far as it goes. -/
theorem top_shown (levels : Levels) {n depth : ℕ} (within : n ≤ depth) :
    (shown levels depth).top n = levels.top n := by
  induction n generalizing levels depth with
  | zero => rfl
  | succ n inductionHypothesis =>
    obtain ⟨depth, rfl⟩ : ∃ m, depth = m + 1 := ⟨depth - 1, by omega⟩
    obtain ⟨last, empty⟩ | ⟨key, qty, last, found⟩ := lastKey_cases levels
    · have none_ : shown levels (depth + 1) = levels := by
        refine Finmap.ext_lookup fun price => ?_
        rw [lookup_shown, Levels.top, last, lookup_of_card_zero empty, ite_self]
      rw [none_]
    · have below : ∀ price ∈ shown (Finmap.erase key levels) depth, price < key := by
        intro price member
        have kept := key_of_shown member
        rw [Finmap.keys_erase] at kept
        exact lt_of_le_of_ne (lastKey_max last (Finset.mem_of_mem_erase kept))
          (Finset.ne_of_mem_erase kept)
      have absent : key ∉ shown (Finmap.erase key levels) depth := fun member =>
        lt_irrefl key (below key member)
      rw [shown_succ last found, top_succ (lastKey_insert qty below), top_succ last,
        erase_insert_of_notMem absent, Finmap.lookup_insert, found,
        inductionHypothesis _ (Nat.succ_le_succ_iff.mp within)]

/-- An answer reads back as the levels that it shows. -/
theorem parseLevels_shown {levels : Levels} (listed : Levels.Listed levels) (depth : ℕ) :
    Book.parseLevels (levels.rows depth) = shown levels depth := by
  rw [parseLevels_rows, List.foldl_map]
  refine List.foldl_ext _ _ _ fun out level member => ?_
  obtain ⟨positive, fits⟩ := listed _ _ (lookup_of_mem_top member)
  rw [loadRow, if_pos positive, toMd_toDollars fits]

/-- The answer to a book request holds what is shown of the book. -/
theorem loadSnapshot_shown {book : Book} (listed : Book.Listed book) (copy : Book) :
    copy.loadSnapshot (((book.response 10).get "orderbook").getD (book.response 10)) =
      shownBook book 10 := by
  have sides : copy.loadSnapshot (((book.response 10).get "orderbook").getD (book.response 10)) =
      ⟨Book.parseLevels (book.yes.rows 10), Book.parseLevels (book.no.rows 10)⟩ := rfl
  rw [sides, parseLevels_shown listed.1, parseLevels_shown listed.2]
  rfl

/-! ## What is read off a shown book -/

/-- The copy reads as the book does, up to the tenth level. -/
structure ReadsAs (copy book : Book) : Prop where
  bids : ∀ n ≤ 10, copy.bidLevels n = book.bidLevels n
  asks : ∀ n ≤ 10, copy.askLevels n = book.askLevels n
  bestBid : copy.bestBid = book.bestBid
  bestAsk : copy.bestAsk = book.bestAsk
  valid : copy.isValid = book.isValid
  observation : ∀ (ts : TickerState) mm nowS nowMono,
    (buildObservation { ts with book := copy } mm nowS nowMono).2 =
      (buildObservation { ts with book := book } mm nowS nowMono).2

theorem lastKey_shown (levels : Levels) : (shown levels 10).lastKey = levels.lastKey := by
  rw [← head_top _ 0, ← head_top levels 0, top_shown levels (by norm_num)]

theorem readsAs_shown (book : Book) : ReadsAs (shownBook book 10) book := by
  have bids (n : ℕ) (within : n ≤ 10) : (shownBook book 10).bidLevels n = book.bidLevels n :=
    congrArg (List.map _) (top_shown book.yes within)
  have asks (n : ℕ) (within : n ≤ 10) : (shownBook book 10).askLevels n = book.askLevels n :=
    congrArg (List.map _) (top_shown book.no within)
  have bidMd : (shownBook book 10).bestBidMd = book.bestBidMd := lastKey_shown book.yes
  have askMd : (shownBook book 10).bestAskMd = book.bestAskMd :=
    congrArg (Option.map _) (lastKey_shown book.no)
  have bestBid : (shownBook book 10).bestBid = book.bestBid := congrArg (Option.map toDollars) bidMd
  have bestAsk : (shownBook book 10).bestAsk = book.bestAsk := congrArg (Option.map toDollars) askMd
  have valid : (shownBook book 10).isValid = book.isValid := by
    rw [Book.isValid, Book.isValid, bidMd, askMd]
  refine ⟨bids, asks, bestBid, bestAsk, valid, fun ts mm nowS nowMono => ?_⟩
  unfold buildObservation observe
  simp only [valid, bestBid, bestAsk, bids 3 (by norm_num), asks 3 (by norm_num)]
  split
  · split_ifs <;> rfl
  · rfl

/-! ## Answers -/

/-- The book that the exchange last answered a request for the market with, as the trader took it:
    when the poll read it, or when it was taken up. -/
def answered (env : Env) (ticker : String) (w : RestTrader) (last : Book) : RestEvent → Book
  | .change .. => last
  | .turn arrival reached =>
    if ticker ∉ w.trader.activeTickers ∧
        ticker ∈ (w.step env (.turn arrival reached)).trader.activeTickers ∧ reached ticker = true then
      w.books ticker
    else last
  | .poll _ polled reached =>
    if polled = ticker ∧ ticker ∈ w.trader.activeTickers ∧ reached = true then w.books ticker else last

/-- There is no socket, and the exchange prices in the code's keys. -/
def OffSocket : RestEvent → Prop
  | .change _ _ price _ => price < 2 ^ 32
  | .turn arrival _ => ∀ ticker msg, arrival.event ≠ .book ticker msg
  | .poll .. => True

/-- The trader's copy is what was shown of the last answer, and the exchange's own book is in order. -/
structure CopiesAnswer (ticker : String) (s : RestTrader × Book) : Prop where
  listed : Book.Listed (s.1.books ticker)
  copy : bookOf s.1.trader ticker = shownBook s.2 10

section Steps

variable {env : Env} {w : RestTrader} {ticker : String} {last : Book}

theorem getOrderbook_serving (out : Outside) (books : String → Book) (reached : String → Bool) :
    (out.serving books reached).api.getOrderbook ticker =
      if reached ticker then .ok ((books ticker).response 10) else .error "" := rfl

theorem bookOf_poll (listed : Book.Listed (w.books ticker)) (out : Outside) (polled : String)
    (reached : Bool) :
    bookOf (w.step env (.poll out polled reached)).trader ticker =
      if polled = ticker ∧ ticker ∈ w.trader.activeTickers ∧ reached = true then
        shownBook (w.books ticker) 10
      else bookOf w.trader ticker := by
  unfold RestTrader.step Trader.move Trader.carryOut Trader.pollMarket
  dsimp only
  rw [getOrderbook_serving]
  cases reached with
  | false => simp
  | true =>
    simp only [if_true, and_true]
    by_cases active : polled ∈ w.trader.activeTickers
    · rw [bookOf_onBookUpdate env _ _ active]
      by_cases same : ticker = polled
      · subst same
        rw [if_pos rfl, if_pos ⟨rfl, active⟩]
        exact loadSnapshot_shown listed (bookOf w.trader ticker)
      · rw [if_neg same, if_neg fun both => same both.1.symm]
    · have idle : w.trader.onBookUpdate env (out.serving w.books fun _ => true) polled
          ((((w.books polled).response 10).get "orderbook").getD .null) = ⟨w.trader, []⟩ := by
        unfold Trader.onBookUpdate
        rw [Finmap.lookup_eq_none.mpr active]
      rw [idle, if_neg]
      rintro ⟨rfl, isActive⟩
      exact active isActive

/-- A market whose request fails, or that is not asked for, keeps its copy. -/
theorem bookOf_fetchInitialSnapshots_unanswered {out : Outside} {entries : List (String × String)}
    (unanswered : (∃ e, out.api.getOrderbook ticker = .error e) ∨ ∀ entry ∈ entries, entry.1 ≠ ticker)
    (tr : Trader) :
    bookOf (Trader.fetchInitialSnapshots out entries tr) ticker = bookOf tr ticker := by
  obtain ⟨e, fails⟩ | absent := unanswered
  · refine run_related (R := fun before after => bookOf after ticker = bookOf before ticker)
      (fun _ => rfl) (fun _ _ _ first second => second.trans first) (fun tr entry => ?_) tr entries
    rw [bookOf_fetchSnapshot]
    split
    · rfl
    next answers =>
      rw [if_neg]
      rintro rfl
      rw [fails] at answers
      cases answers
  · exact bookOf_fetchInitialSnapshots_of_notMem absent tr

/-- A market that is not taken up by a refresh, or whose request fails, keeps its copy. -/
theorem bookOf_refreshMarkets_unanswered {out : Outside} {tr : Trader}
    (unanswered : (∃ e, out.api.getOrderbook ticker = .error e) ∨
      ticker ∉ (tr.refreshMarkets env out).activeTickers) :
    bookOf (tr.refreshMarkets env out) ticker = bookOf tr ticker := by
  have ends := refreshMarkets_refreshed env out tr
  generalize tr.refreshMarkets env out = tr' at ends unanswered ⊢
  cases ends with
  | unfound _ => rfl
  | unchanged _ _ => rfl
  | rolled something ladders =>
    refine (bookOf_fetchInitialSnapshots_unanswered (unanswered.imp_right fun gone entry added => ?_)
      _).trans (bookOf_fetchMarketDetails ..)
    rintro rfl
    let entries := tr.addedEntries out (Trader.discoverUniverse env out)
    have fetched : Categories.SameLabels (rolledOver tr (Trader.discoverUniverse env out))
        (fetchAdded env out tr (Trader.discoverUniverse env out)) :=
      .of_bookkeeping ((refetch_fetchMarketDetails env out entries _).trans
        (refetch_fetchInitialSnapshots out entries _)).books
    obtain ⟨listed, inactive⟩ := (Categories.mem_addedEntries ..).mp added
    refine gone (fetched.active ▸ Finmap.mem_iff.mpr ⟨entry.2, ?_⟩)
    exact Categories.lookup_rolledUniverse.mpr (Or.inr ⟨inactive, listed⟩)

theorem discovered_of_taken {out : Outside} {tr : Trader} (inactive : ticker ∉ tr.activeTickers)
    (active : ticker ∈ (tr.refreshMarkets env out).activeTickers) :
    ticker ∈ Trader.discoverUniverse env out := by
  obtain ⟨same, _⟩ | ⟨_, _, rolls⟩ := refreshMarkets_cases env out tr
  · exact absurd (same ▸ active) inactive
  · obtain ⟨category, listed⟩ := Finmap.mem_iff.mp (rolls ▸ active)
    obtain ⟨before, _⟩ | ⟨_, found⟩ := Categories.lookup_rolledUniverse.mp listed
    · exact absurd (Finmap.mem_iff.mpr ⟨category, before⟩) inactive
    · exact Finmap.mem_iff.mpr ⟨category, found⟩

theorem bookOf_turn (listed : Book.Listed (w.books ticker)) {arrival : Arrival}
    (noBook : ∀ ticker msg, arrival.event ≠ .book ticker msg) (reached : String → Bool) :
    bookOf (w.step env (.turn arrival reached)).trader ticker =
      if ticker ∉ w.trader.activeTickers ∧
          ticker ∈ (w.step env (.turn arrival reached)).trader.activeTickers ∧
            reached ticker = true then shownBook (w.books ticker) 10
      else bookOf w.trader ticker := by
  let served : Arrival := { arrival with out := arrival.out.serving w.books reached }
  have steps : (w.step env (.turn arrival reached)).trader = w.trader.step env served := rfl
  rw [steps]
  by_cases refreshes : arrival.event = .refresh
  · have turns : w.trader.step env served = w.trader ∨
        w.trader.step env served = w.trader.refreshMarkets env served.out := by
      obtain ⟨_, out⟩ := arrival
      cases refreshes
      unfold Trader.step Trader.turn
      split_ifs
      · exact Or.inr rfl
      · exact Or.inl rfl
    obtain same | refreshed := turns
    · rw [same, if_neg fun all => all.1 all.2.1]
    · rw [refreshed]
      split_ifs with taken
      · obtain ⟨inactive, active, reaches⟩ := taken
        have answers : served.out.api.getOrderbook ticker = .ok ((w.books ticker).response 10) :=
          if_pos reaches
        exact bookOf_refreshMarkets_added inactive (discovered_of_taken inactive active) answers
          (loadSnapshot_shown listed)
      · by_cases inactive : ticker ∈ w.trader.activeTickers
        · exact bookOf_refreshMarkets_active inactive
        · refine bookOf_refreshMarkets_unanswered ?_
          by_cases reaches : reached ticker = true
          · exact Or.inr fun active => taken ⟨inactive, active, reaches⟩
          · exact Or.inl ⟨_, if_neg reaches⟩
  · have other : served.event ≠ .refresh := refreshes
    have active : (w.trader.step env served).activeTickers = w.trader.activeTickers :=
      (Categories.step_sameLabels other).active
    have same : SameBooks w.trader (w.trader.step env served) :=
      sameBooks_step env w.trader noBook other
    rw [active, if_neg fun all => all.1 all.2.1, same ticker]

/-- One step keeps the copy at what was shown of the last answer. -/
theorem copiesAnswer_step {event : RestEvent} (copies : CopiesAnswer ticker (w, last))
    (offSocket : OffSocket event) :
    CopiesAnswer ticker (w.step env event, answered env ticker w last event) := by
  obtain ⟨listed, copy⟩ := copies
  cases event with
  | change other side price qty =>
    refine ⟨?_, copy⟩
    unfold RestTrader.step
    dsimp only
    by_cases same : ticker = other
    · subst same
      rw [Function.update_self]
      exact listed.setLevel side offSocket qty
    · rw [Function.update_of_ne same]
      exact listed
  | turn arrival reached =>
    refine ⟨listed, (bookOf_turn listed offSocket reached).trans ?_⟩
    unfold answered
    dsimp only
    split_ifs
    · rfl
    · exact copy
  | poll out polled reached =>
    refine ⟨listed, (bookOf_poll listed out polled reached).trans ?_⟩
    unfold answered
    dsimp only
    split_ifs
    · rfl
    · exact copy

end Steps

/-! ## Runs -/

/-- The book a market was taken up with at startup, if its request was answered. -/
def answeredAtStart (env : Env) (cfg : Config) (out : Outside) (books : String → Book)
    (reached : String → Bool) (ticker : String) : Book :=
  if ticker ∈ (RestTrader.start env cfg out books reached).trader.activeTickers ∧
      reached ticker = true then books ticker
  else {}

theorem copiesAnswer_start (env : Env) (cfg : Config) (out : Outside) {books : String → Book}
    (reached : String → Bool) {ticker : String} (listed : Book.Listed (books ticker)) :
    CopiesAnswer ticker (RestTrader.start env cfg out books reached,
      answeredAtStart env cfg out books reached ticker) := by
  refine ⟨listed, ?_⟩
  let served := out.serving books reached
  let lists := (Trader.start cfg served.epoch).discoverMarkets env served
  let fetched := Trader.fetchMarketDetails env served (lists.allEntries served) lists
  let synced := fetched.syncPositions served
  let built : Trader :=
    { synced with ladders := Ladders.build (served.hash.enumerate synced.activeTickers.keys) }
  have blank : bookOf built ticker = {} := by
    have syncs : bookOf synced ticker = bookOf fetched ticker :=
      sameBooks_syncPositions served fetched ticker
    have fetches : bookOf fetched ticker = bookOf lists ticker := bookOf_fetchMarketDetails ..
    exact (syncs.trans fetches).trans rfl
  unfold answeredAtStart
  dsimp only
  split_ifs with taken
  · exact bookOf_startup taken.1 (if_pos taken.2) (loadSnapshot_shown listed)
  · refine (bookOf_fetchInitialSnapshots_unanswered ?_ built).trans blank
    by_cases reaches : reached ticker = true
    · refine Or.inr fun entry member => ?_
      rintro rfl
      have active := (Categories.mem_allEntries built served entry).mp member
      have snapshots : Categories.SameLabels built (Trader.startup env cfg served) :=
        .of_bookkeeping (refetch_fetchInitialSnapshots served (built.allEntries served) built).books
      exact taken ⟨snapshots.active ▸ Finmap.mem_iff.mpr ⟨_, active⟩, reaches⟩
    · exact Or.inl ⟨_, if_neg reaches⟩

/-- In every run without a socket, from startup on: a market's copy is the ten best levels of the book
    that the exchange answered with last, and reads as that book does. -/
theorem polled_copy_reads_as_answered (env : Env) (cfg : Config) (out : Outside)
    {books : String → Book} (reached : String → Bool) {ticker : String}
    (listed : Book.Listed (books ticker)) {events : List RestEvent}
    (offSocket : ∀ event ∈ events, OffSocket event) :
    Throughout (withGhost (RestTrader.step env) (answered env ticker))
      (fun s => bookOf s.1.trader ticker = shownBook s.2 10 ∧ ReadsAs (bookOf s.1.trader ticker) s.2)
      (RestTrader.start env cfg out books reached,
        answeredAtStart env cfg out books reached ticker) events := by
  have kept : Throughout (withGhost (RestTrader.step env) (answered env ticker)) (CopiesAnswer ticker)
      (RestTrader.start env cfg out books reached,
        answeredAtStart env cfg out books reached ticker) events :=
    throughout_of_along (fun _ _ copies off => copiesAnswer_step copies off)
      (copiesAnswer_start env cfg out reached listed) (along_of_forall offSocket)
  exact kept.imp fun s copies => ⟨copies.copy, copies.copy ▸ readsAs_shown s.2⟩

theorem listed_elevenBids : Book.Listed elevenBids :=
  List.foldlRecOn (List.range 10) _ listed_tenUp fun _ listed level member =>
    listed.setLevel .yes (by have := List.mem_range.mp member; omega) 10

/-- Of eleven bids the lowest, which no answer shows, changes and the best one does, a poll fails and
    one is answered. -/
def pollEvents : List RestEvent :=
  [.change "KXBTCD-1" .yes 300 25, .change "KXBTCD-1" .yes 400 15,
    .poll (listing ["KXBTCD-1"] 10) "KXBTCD-1" false,
    .turn ⟨.exits, listing ["KXBTCD-1"] 11⟩ fun _ => true,
    .poll (listing ["KXBTCD-1"] 20) "KXBTCD-1" true]

theorem polled_copy_reads_as_answered_deep :
    let start := RestTrader.start (marketEnv none) (marketCfg none) (listing ["KXBTCD-1"] 0)
      (fun _ => elevenBids) fun _ => true
    let polled := run (RestTrader.step (marketEnv none)) start pollEvents
    (bookOf polled.trader "KXBTCD-1").yes.lookup 400 = some 15 ∧
      bookOf polled.trader "KXBTCD-1" ≠ polled.books "KXBTCD-1" ∧
      Throughout (withGhost (RestTrader.step (marketEnv none)) (answered (marketEnv none) "KXBTCD-1"))
        (fun s => bookOf s.1.trader "KXBTCD-1" = shownBook s.2 10 ∧
          ReadsAs (bookOf s.1.trader "KXBTCD-1") s.2)
        (start, answeredAtStart (marketEnv none) (marketCfg none) (listing ["KXBTCD-1"] 0)
          (fun _ => elevenBids) (fun _ => true) "KXBTCD-1") pollEvents := by
  have offSocket : ∀ event ∈ pollEvents, OffSocket event := by simp [pollEvents, OffSocket]
  exact ⟨by decide +kernel, by decide +kernel,
    polled_copy_reads_as_answered _ _ _ _ listed_elevenBids offSocket⟩

end KalshiMm.Verified.Polls
