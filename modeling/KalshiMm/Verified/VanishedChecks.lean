import KalshiMm.Verified.Upkeep

/-!
# Giving up on vanished positions

A held position that is absent from the exchange is looked up among the settlements, and zeroed when
too many lookups in a row have missed.  The counter of the misses lives in a map beside the position
and is cleared by that lookup alone: a position that shows up on the exchange again, or is closed by
fills, leaves its count behind for the next one.
-/

namespace KalshiMm.Verified.VanishedChecks

open KalshiMm.Lib KalshiMm.Model

/-! ## What a sync sees of one market -/

def snapshot (out : Outside) : Option (Dict String ℤ) := out.api.getPositions.toOption.map parsePositions

def settlements (out : Outside) : Option (Dict String (Option Bool)) :=
  out.api.getSettlements.toOption.map Trader.settledResults

/-- The snapshot reports a position on the market. -/
def shows (out : Outside) (ticker : String) : Bool :=
  (snapshot out).any fun exchange => (exchange.lookup ticker).getD 0 ≠ 0

/-- The market is held and active, and absent from the snapshot. -/
def absent (out : Outside) (tr : Trader) (ticker : String) : Bool :=
  (snapshot out).any fun exchange => tr.vanishes ticker ((exchange.lookup ticker).getD 0)

/-- The settlement lookup of an absent market is answered without a record of it. -/
def misses (out : Outside) (tr : Trader) (ticker : String) : Bool :=
  absent out tr ticker && (settlements out).any fun settled => settled.lookup ticker = none

def syncOf (tr : Trader) (m : Move) : Option Outside :=
  match turnOf tr m with
  | some ⟨.sync, out⟩ => some out
  | _ => none

/-- A position ends: it goes to zero or across it. -/
def ends (before after : ℤ) : Bool := before ≠ 0 ∧ (after = 0 ∨ Flat.Flips before after)

/-! ## The law -/

inductive Mark where
  | missed
  | restarted
deriving DecidableEq

/-- What a move says about a market's absence: a missed lookup, and a reappearance or the end of the
    position. -/
def marks (env : Env) (ticker : String) (tr : Trader) (m : Move) : List Mark :=
  (if (syncOf tr m).any fun out => misses out tr ticker then [.missed] else []) ++
    if ((syncOf tr m).any fun out => shows out ticker) ∨
      ends (tr.positionOf ticker) ((tr.move env m).positionOf ticker) then [.restarted] else []

/-- The move zeroes a position whose settlement lookup has missed. -/
def writesOff (env : Env) (ticker : String) (tr : Trader) (m : Move) : Bool :=
  (syncOf tr m).any (fun out => misses out tr ticker) && (tr.move env m).positionOf ticker = 0

/-- Every position the run writes off has been missed in the last four answered lookups, this one
    included, without a reappearance and without an end in between. -/
def GivesUpLate (env : Env) (ticker : String) (start : Trader) (moves : List Move) : Prop :=
  ∀ before m after, moves = before ++ m :: after →
    writesOff env ticker (run (Trader.move env) start before) m = true →
      List.replicate maxSettlementChecks .missed <:+
        outputs (Trader.move env) (marks env ticker) start before ++ [.missed]

/-! ## The condition -/

/-- A fill that is not booked yet ends the market's position. -/
def fillEnds (ticker : String) (tr : Trader) (m : Move) : Bool :=
  match turnOf tr m with
  | some ⟨.fill raw, _⟩ => (normalizeFill raw).any fun nf =>
      nf.fillId ∉ tr.state.fillIds ∧ nf.ticker = ticker ∧
        ends (tr.positionOf ticker) (tr.positionOf ticker + nf.signedSize)
  | _ => false

/-- A drift correction ends the market's position. -/
def correctionEnds (out : Outside) (tr : Trader) (ticker : String) : Bool :=
  (snapshot out).any fun exchange =>
    (Flat.correction out exchange tr ticker).any fun remote => ends (tr.positionOf ticker) remote

/-- Where a market shows up on the exchange, or its position ends by a fill or a drift correction, no
    missed lookup of it is on record. -/
def Uncounted (ticker : String) (tr : Trader) (m : Move) : Prop :=
  ((syncOf tr m).any (fun out => shows out ticker || correctionEnds out tr ticker) ||
    fillEnds ticker tr m) = true → tr.settlementChecks.lookup ticker = none

instance (ticker : String) (tr : Trader) (m : Move) : Decidable (Uncounted ticker tr m) :=
  inferInstanceAs (Decidable (_ → _))

/-! ## Visits of one market -/

theorem lookup_applySettlement_of_ne (s : TraderState) {ticker visited : String}
    (other : ticker ≠ visited) (resultYes : Option Bool) :
    (s.applySettlement visited resultYes).1.tickers.lookup ticker = s.tickers.lookup ticker := by
  cases known : s.tickers.lookup visited with
  | none => rw [TraderState.applySettlement, known]
  | some ts =>
    by_cases flat : ts.position = 0
    · rw [TraderState.applySettlement_of_flat known flat]
    · rw [TraderState.applySettlement_tickers known flat, Finmap.lookup_insert_of_ne _ other]

/-- The market, its retries and the universe are the same. -/
structure Untouched (ticker : String) (tr tr' : Trader) : Prop where
  market : tr'.state.tickers.lookup ticker = tr.state.tickers.lookup ticker
  checks : tr'.settlementChecks.lookup ticker = tr.settlementChecks.lookup ticker
  active : tr'.activeTickers = tr.activeTickers

namespace Untouched

variable {ticker : String}

theorem refl (tr : Trader) : Untouched ticker tr tr := ⟨rfl, rfl, rfl⟩

theorem trans {a b c : Trader} (first : Untouched ticker a b) (second : Untouched ticker b c) :
    Untouched ticker a c :=
  ⟨second.market.trans first.market, second.checks.trans first.checks,
    second.active.trans first.active⟩

theorem positionOf {tr tr' : Trader} (untouched : Untouched ticker tr tr') :
    tr'.positionOf ticker = tr.positionOf ticker := by
  rw [Trader.positionOf, Trader.positionOf, untouched.market]

theorem syncTicker (out : Outside) (exchange : Dict String ℤ) (tr : Trader) {visited : String}
    (other : visited ≠ ticker) : Untouched ticker tr (tr.syncTicker out exchange visited) := by
  obtain ⟨_, _, only⟩ := syncTicker_only out exchange tr visited
  rw [only]
  exact ⟨Finmap.lookup_insert_of_ne _ other.symm, rfl, rfl⟩

theorem resolveVanished (settled : Dict String (Option Bool)) (tr : Trader) {visited : String}
    (other : visited ≠ ticker) : Untouched ticker tr (tr.resolveVanished settled visited) := by
  have erased : (tr.settlementChecks.erase visited).lookup ticker =
      tr.settlementChecks.lookup ticker := Finmap.lookup_erase_ne other.symm
  have ends := resolveVanished_resolved settled tr visited
  generalize tr.resolveVanished settled visited = tr' at ends
  cases ends with
  | flat _ => exact ⟨rfl, erased, rfl⟩
  | writtenOff _ _ _ _ _ => exact ⟨Finmap.lookup_insert_of_ne _ other.symm, erased, rfl⟩
  | counted _ _ _ => exact ⟨rfl, Finmap.lookup_insert_of_ne _ other.symm, rfl⟩
  | settled resultYes _ _ halts =>
    obtain ⟨_, rfl⟩ := settledAt_only halts
    exact ⟨lookup_applySettlement_of_ne tr.state other.symm resultYes, erased, rfl⟩

end Untouched

/-! ## The visit of the market itself -/

section Visit

variable {tr : Trader} {ticker : String}

/-- A missed lookup gives up when its count is full, and counts on otherwise. -/
theorem resolveVanished_missed {settled : Dict String (Option Bool)}
    (held : tr.positionOf ticker ≠ 0) (missing : settled.lookup ticker = none) :
    let count := (tr.settlementChecks.lookup ticker).getD 0 + 1
    let tr' := tr.resolveVanished settled ticker
    (maxSettlementChecks ≤ count ∧ tr'.positionOf ticker = 0 ∧
      tr'.settlementChecks.lookup ticker = none) ∨
    (tr'.positionOf ticker = tr.positionOf ticker ∧
      tr'.settlementChecks.lookup ticker = some count) := by
  intro count tr'
  have ends := resolveVanished_resolved settled tr ticker
  have same : tr.resolveVanished settled ticker = tr' := rfl
  rw [same] at ends
  clear_value tr'
  cases ends with
  | flat flat => exact absurd flat held
  | writtenOff ts _ _ _ exhausted =>
    exact Or.inl ⟨exhausted, (positionOf_of_insert rfl ticker).trans (if_pos rfl),
      Finmap.lookup_erase _ _⟩
  | counted _ _ _ => exact Or.inr ⟨rfl, Finmap.lookup_insert _⟩
  | settled _ _ found _ =>
    rw [missing] at found
    cases found

theorem resolveVanished_found {settled : Dict String (Option Bool)} {resultYes : Option Bool}
    (held : tr.positionOf ticker ≠ 0) (found : settled.lookup ticker = some resultYes) :
    (tr.resolveVanished settled ticker).settlementChecks.lookup ticker = none := by
  have ends := resolveVanished_resolved settled tr ticker
  generalize tr.resolveVanished settled ticker = tr' at ends
  cases ends with
  | flat flat => exact absurd flat held
  | writtenOff _ _ _ _ _ => exact Finmap.lookup_erase _ _
  | counted _ missing _ =>
    rw [missing] at found
    cases found
  | settled _ _ _ halts =>
    obtain ⟨_, rfl⟩ := settledAt_only halts
    exact Finmap.lookup_erase _ _

theorem correction_of_untouched {tr' : Trader} (untouched : Untouched ticker tr tr')
    (out : Outside) (exchange : Dict String ℤ) :
    Flat.correction out exchange tr' ticker = Flat.correction out exchange tr ticker := by
  unfold Flat.correction TraderState.tickerD Trader.isActive
  rw [untouched.market, untouched.active]

theorem positionOf_syncTicker (out : Outside) (exchange : Dict String ℤ) (tr : Trader)
    (ticker : String) : (tr.syncTicker out exchange ticker).positionOf ticker =
      (Flat.correction out exchange tr ticker).getD (tr.positionOf ticker) := by
  rw [positionOf_of_insert (Flat.syncTicker_written out exchange tr ticker), if_pos rfl,
    positionOf_eq tr ticker ((tr.activeTickers.lookup ticker).getD "")]
  cases Flat.correction out exchange tr ticker <;> rfl

theorem checks_syncTicker (out : Outside) (exchange : Dict String ℤ) (tr : Trader)
    (ticker : String) : (tr.syncTicker out exchange ticker).settlementChecks = tr.settlementChecks := by
  obtain ⟨_, _, only⟩ := syncTicker_only out exchange tr ticker
  rw [only]

theorem kept_backfillEntryPrice (out : Outside) (visited : String) (tr : Trader) (ticker : String) :
    (tr.backfillEntryPrice out visited).positionOf ticker = tr.positionOf ticker ∧
      (tr.backfillEntryPrice out visited).settlementChecks = tr.settlementChecks := by
  obtain same | ⟨ts, entry, _, known, _, written⟩ := backfillEntryPrice_cases out visited tr
  · rw [same]
    exact ⟨rfl, rfl⟩
  · have kept : ({ ts with entryPrice := some entry } : TickerState).position =
        (tr.state.tickerD visited "").position := by
      rw [TraderState.tickerD, known, Option.getD_some]
    rw [written]
    exact ⟨positionOf_of_kept rfl kept ticker, rfl⟩

end Visit

/-! ## A sync -/

section Sync

variable (out : Outside) (tr : Trader) (ticker : String)

theorem mem_syncKeys (exchange : Dict String ℤ) :
    ticker ∈ tr.syncKeys out exchange ↔ ticker ∈ exchange ∨ tr.positionOf ticker ≠ 0 := by
  unfold Trader.syncKeys
  rw [out.hash.mem, Finset.mem_union, Finmap.mem_keys, Finset.mem_filter]
  refine or_congr_right (and_iff_right_of_imp fun held => ?_)
  by_contra unknown
  rw [Finmap.mem_keys] at unknown
  rw [Trader.positionOf, Finmap.lookup_eq_none.mpr unknown] at held
  exact held rfl

theorem nodup_syncKeys (exchange : Dict String ℤ) : (tr.syncKeys out exchange).Nodup :=
  out.hash.nodup _

theorem correction_of_unlisted {exchange : Dict String ℤ} {out : Outside} {tr : Trader}
    {ticker : String} (unlisted : ticker ∉ tr.syncKeys out exchange) :
    Flat.correction out exchange tr ticker = none := by
  rw [mem_syncKeys, not_or, not_not] at unlisted
  obtain ⟨unreported, flat⟩ := unlisted
  rw [positionOf_eq tr ticker ((tr.activeTickers.lookup ticker).getD "")] at flat
  unfold Flat.correction
  dsimp only
  rw [Finmap.lookup_eq_none.mpr unreported, flat]
  exact if_pos (Or.inl rfl)

/-- The corrections of a sync adopt the market's position where they correct it, and leave its
    retries alone. -/
theorem corrected_syncTickers (exchange : Dict String ℤ) :
    (run (Trader.syncTicker out exchange) tr (tr.syncKeys out exchange)).positionOf ticker =
        (Flat.correction out exchange tr ticker).getD (tr.positionOf ticker) ∧
      (run (Trader.syncTicker out exchange) tr
        (tr.syncKeys out exchange)).settlementChecks.lookup ticker =
          tr.settlementChecks.lookup ticker := by
  have elsewhere (s : Trader) (other : String) (differs : other ≠ ticker) :
      Untouched ticker s (s.syncTicker out exchange other) := .syncTicker out exchange s differs
  by_cases listed : ticker ∈ tr.syncKeys out exchange
  · obtain ⟨reached, before, after⟩ := run_visited Untouched.refl (fun _ _ _ => Untouched.trans)
      elsewhere (nodup_syncKeys out tr exchange) listed tr
    constructor
    · rw [after.positionOf, positionOf_syncTicker, correction_of_untouched before,
        before.positionOf]
    · rw [after.checks, checks_syncTicker, before.checks]
  · have untouched := run_unvisited Untouched.refl (fun _ _ _ => Untouched.trans)
      elsewhere listed tr
    rw [correction_of_unlisted listed]
    exact ⟨untouched.positionOf, untouched.checks⟩

/-- How a sync leaves a market and its retries. -/
inductive Synced (out : Outside) (tr : Trader) (ticker : String) (tr' : Trader) : Prop where
  | present (here : absent out tr ticker = false)
      (position : tr'.positionOf ticker = ((snapshot out).bind fun exchange =>
        Flat.correction out exchange tr ticker).getD (tr.positionOf ticker))
      (checks : tr'.settlementChecks.lookup ticker = tr.settlementChecks.lookup ticker)
  | unanswered (gone : absent out tr ticker = true) (failed : settlements out = none)
      (position : tr'.positionOf ticker = tr.positionOf ticker)
      (checks : tr'.settlementChecks.lookup ticker = tr.settlementChecks.lookup ticker)
  | settled (found : misses out tr ticker = false)
      (checks : tr'.settlementChecks.lookup ticker = none)
  | missed (missing : misses out tr ticker = true)
      (position : tr'.positionOf ticker = tr.positionOf ticker)
      (checks : tr'.settlementChecks.lookup ticker =
        some ((tr.settlementChecks.lookup ticker).getD 0 + 1))
  | givenUp (missing : misses out tr ticker = true) (position : tr'.positionOf ticker = 0)
      (full : maxSettlementChecks ≤ (tr.settlementChecks.lookup ticker).getD 0 + 1)
      (checks : tr'.settlementChecks.lookup ticker = none)

/-- Without a vanished market there is nothing to resolve. -/
theorem resolveVanishedPositions_nil (tr : Trader) : tr.resolveVanishedPositions out [] = tr := by
  unfold Trader.resolveVanishedPositions
  split <;> rfl

theorem kept_backfills (tickers : List String) (tr : Trader) :
    (tickers.foldl (fun tr visited => tr.backfillEntryPrice out visited) tr).positionOf ticker =
        tr.positionOf ticker ∧
      (tickers.foldl (fun tr visited => tr.backfillEntryPrice out visited) tr).settlementChecks =
        tr.settlementChecks := by
  refine run_related (R := fun tr tr' => tr'.positionOf ticker = tr.positionOf ticker ∧
    tr'.settlementChecks = tr.settlementChecks) (fun _ => ⟨rfl, rfl⟩) ?_ ?_ tr tickers
  · rintro a b c ⟨position, checks⟩ ⟨position', checks'⟩
    exact ⟨position'.trans position, checks'.trans checks⟩
  · exact fun tr visited => kept_backfillEntryPrice out visited tr ticker

theorem Synced.of_kept {out : Outside} {tr tr' tr'' : Trader} {ticker : String}
    (synced : Synced out tr ticker tr') (position : tr''.positionOf ticker = tr'.positionOf ticker)
    (checks : tr''.settlementChecks.lookup ticker = tr'.settlementChecks.lookup ticker) :
    Synced out tr ticker tr'' := by
  cases synced with
  | present here before kept => exact .present here (position.trans before) (checks.trans kept)
  | unanswered gone failed before kept =>
    exact .unanswered gone failed (position.trans before) (checks.trans kept)
  | settled found cleared => exact .settled found (checks.trans cleared)
  | missed missing before counted =>
    exact .missed missing (position.trans before) (checks.trans counted)
  | givenUp missing zeroed full cleared =>
    exact .givenUp missing (position.trans zeroed) full (checks.trans cleared)

/-- The vanished markets of a sync: those it finds absent, each once. -/
theorem mem_vanished {resp : Value} (served : out.api.getPositions = .ok resp) :
    ticker ∈ (tr.syncKeys out (parsePositions resp)).filter
        (fun ticker => tr.vanishes ticker (((parsePositions resp).lookup ticker).getD 0)) ↔
      absent out tr ticker = true := by
  have reads : absent out tr ticker =
      tr.vanishes ticker (((parsePositions resp).lookup ticker).getD 0) := by
    simp [absent, snapshot, served, Except.toOption]
  rw [reads, List.mem_filter]
  refine and_iff_right_of_imp fun vanishes => (mem_syncKeys out tr ticker _).mpr (Or.inr ?_)
  simp only [Trader.vanishes, Bool.and_eq_true, decide_eq_true_eq] at vanishes
  obtain ⟨⟨differs, gone⟩, _⟩ := vanishes
  rwa [gone] at differs

/-- An absent market is held, and its position is left for the lookup. -/
theorem held_of_absent {out : Outside} {tr : Trader} {ticker : String} {resp : Value}
    (served : out.api.getPositions = .ok resp) (gone : absent out tr ticker = true) :
    tr.positionOf ticker ≠ 0 ∧ Flat.correction out (parsePositions resp) tr ticker = none := by
  have reads : absent out tr ticker =
      tr.vanishes ticker (((parsePositions resp).lookup ticker).getD 0) := by
    simp [absent, snapshot, served, Except.toOption]
  simp only [reads, Trader.vanishes, Bool.and_eq_true, decide_eq_true_eq] at gone
  obtain ⟨⟨differs, zero⟩, active⟩ := gone
  refine ⟨by rwa [zero] at differs, ?_⟩
  exact if_pos (Or.inr (Or.inl ⟨zero, active⟩))

/-- A page that is served settles the absent market, or misses it. -/
theorem synced_of_page {out : Outside} {tr tr' : Trader} {ticker : String}
    {settled : Dict String (Option Bool)} {vanished : List String}
    (looked : settlements out = some settled) (gone : absent out tr ticker = true)
    (nodup : vanished.Nodup) (listed : ticker ∈ vanished) (held : tr.positionOf ticker ≠ 0)
    (kept : tr'.positionOf ticker = tr.positionOf ticker)
    (counted : tr'.settlementChecks.lookup ticker = tr.settlementChecks.lookup ticker) :
    Synced out tr ticker (run (Trader.resolveVanished settled) tr' vanished) := by
  have missing : misses out tr ticker = decide (settled.lookup ticker = none) := by
    rw [misses, gone, looked]
    rfl
  -- the market's own lookup comes once, and the others' leave it alone
  obtain ⟨reached, before, after⟩ := run_visited Untouched.refl (fun _ _ _ => Untouched.trans)
    (fun s other => Untouched.resolveVanished settled s) nodup listed tr'
  have position := before.positionOf.trans kept
  have checks := before.checks.trans counted
  have held : reached.positionOf ticker ≠ 0 := position.symm ▸ held
  cases found : settled.lookup ticker with
  | none =>
    rw [found] at missing
    obtain ⟨full, zeroed, cleared⟩ | ⟨stays, counts⟩ := resolveVanished_missed held found
    · rw [checks] at full
      exact .givenUp missing (after.positionOf.trans zeroed) full (after.checks.trans cleared)
    · rw [checks] at counts
      exact .missed missing ((after.positionOf.trans stays).trans position)
        (after.checks.trans counts)
  | some resultYes =>
    rw [found] at missing
    exact .settled missing (after.checks.trans (resolveVanished_found held found))

theorem synced_resolve {out : Outside} {tr tr' : Trader} {ticker : String} {resp : Value}
    {vanished : List String} (served : out.api.getPositions = .ok resp) (nodup : vanished.Nodup)
    (members : ticker ∈ vanished ↔ absent out tr ticker = true)
    (corrected : tr'.positionOf ticker =
      (Flat.correction out (parsePositions resp) tr ticker).getD (tr.positionOf ticker))
    (counted : tr'.settlementChecks.lookup ticker = tr.settlementChecks.lookup ticker) :
    Synced out tr ticker (tr'.resolveVanishedPositions out vanished) := by
  have snap : snapshot out = some (parsePositions resp) := by rw [snapshot, served]; rfl
  unfold Trader.resolveVanishedPositions
  by_cases gone : absent out tr ticker = true
  · obtain ⟨held, uncorrected⟩ := held_of_absent served gone
    rw [uncorrected, Option.getD_none] at corrected
    cases answered : out.api.getSettlements with
    | error _ =>
      have failed : settlements out = none := by rw [settlements, answered]; rfl
      exact .unanswered gone failed corrected counted
    | ok page =>
      have looked : settlements out = some (Trader.settledResults page) := by
        rw [settlements, answered]; rfl
      exact synced_of_page looked gone nodup (members.mpr gone) held corrected counted
  · have here : absent out tr ticker = false := Bool.eq_false_iff.mpr gone
    have unlisted : ticker ∉ vanished := fun member => gone (members.mp member)
    have bound : ((snapshot out).bind fun exchange => Flat.correction out exchange tr ticker) =
        Flat.correction out (parsePositions resp) tr ticker := by rw [snap]; rfl
    rw [← bound] at corrected
    split
    · exact .present here corrected counted
    next page _ =>
      have untouched := run_unvisited Untouched.refl (fun _ _ _ => Untouched.trans)
        (fun s other => Untouched.resolveVanished (Trader.settledResults page) s) unlisted tr'
      exact .present here (untouched.positionOf.trans corrected) (untouched.checks.trans counted)

theorem synced_syncPositions : Synced out tr ticker (tr.syncPositions out) := by
  unfold Trader.syncPositions
  cases served : out.api.getPositions with
  | error _ =>
    have nothing : snapshot out = none := by rw [snapshot, served]; rfl
    refine .present ?_ ?_ rfl
    · rw [absent, nothing]; rfl
    · rw [nothing]; rfl
  | ok resp =>
    obtain ⟨corrected, counted⟩ := corrected_syncTickers out tr ticker (parsePositions resp)
    have members := mem_vanished out tr ticker served
    have nodup := (nodup_syncKeys out tr (parsePositions resp)).filter
      fun ticker => tr.vanishes ticker (((parsePositions resp).lookup ticker).getD 0)
    have resolved := synced_resolve served nodup members corrected counted
    dsimp only
    obtain ⟨position, checks⟩ := kept_backfills out ticker _ _
    refine Synced.of_kept ?_ position (congrArg _ checks)
    split_ifs with none
    · rw [none, resolveVanishedPositions_nil] at resolved
      exact resolved
    · exact resolved

end Sync

/-! ## Runs -/

/-- The count on record is one of misses the history ends with. -/
def Counted (ticker : String) (tr : Trader) (history : List Mark) : Prop :=
  List.replicate ((tr.settlementChecks.lookup ticker).getD 0) .missed <:+ history

theorem counted_of_none {ticker : String} {tr : Trader}
    (cleared : tr.settlementChecks.lookup ticker = none) (history : List Mark) :
    Counted ticker tr history := by
  unfold Counted
  rw [cleared]
  exact List.nil_suffix

theorem ends_self (position : ℤ) : ends position position = false := by
  unfold ends Flat.Flips
  simp only [decide_eq_false_iff_not]
  omega

theorem misses_of_absent {out : Outside} {tr : Trader} {ticker : String}
    (missing : misses out tr ticker = true) : absent out tr ticker = true :=
  (Bool.and_eq_true_iff.mp missing).1

/-- What is absent is not shown. -/
theorem absent_facts {out : Outside} {tr : Trader} {ticker : String}
    (gone : absent out tr ticker = true) :
    tr.positionOf ticker ≠ 0 ∧ shows out ticker = false := by
  unfold absent shows at *
  cases snap : snapshot out with
  | none =>
    rw [snap] at gone
    cases gone
  | some exchange =>
    rw [snap] at gone
    simp only [Option.any_some, Trader.vanishes, Bool.and_eq_true, decide_eq_true_eq] at gone
    obtain ⟨⟨differs, zero⟩, _⟩ := gone
    rw [zero] at differs
    exact ⟨differs, by simp [zero]⟩

section Move

variable {env : Env} {ticker : String} {tr : Trader} {m : Move} {history : List Mark}

theorem marks_of_other (other : syncOf tr m = none) : marks env ticker tr m =
    if ends (tr.positionOf ticker) ((tr.move env m).positionOf ticker) then [.restarted] else [] := by
  unfold marks
  rw [other]
  simp

theorem marks_of_sync {out : Outside} (syncs : syncOf tr m = some out) : marks env ticker tr m =
    (if misses out tr ticker then [.missed] else []) ++
      if shows out ticker ∨ ends (tr.positionOf ticker) ((tr.move env m).positionOf ticker) then
        [.restarted] else [] := by
  unfold marks
  rw [syncs]
  rfl

/-- A move that keeps the count keeps it true, if it finds none where it starts anew. -/
theorem Counted.restart (counted : Counted ticker tr history)
    (checks : (tr.move env m).settlementChecks.lookup ticker = tr.settlementChecks.lookup ticker)
    {restarts : Prop} [Decidable restarts]
    (uncounted : restarts → tr.settlementChecks.lookup ticker = none) :
    Counted ticker (tr.move env m) (history ++ if restarts then [.restarted] else []) := by
  split_ifs with restarts
  · exact counted_of_none (checks.trans (uncounted restarts)) _
  · rw [List.append_nil, Counted, checks]
    exact counted

/-- A fill that is booked moves its market's position alone. -/
theorem processFill_position (out : Outside) (raw : Value) (tr : Trader) (ticker : String) :
    (tr.processFill out raw).settlementChecks = tr.settlementChecks ∧
      ((tr.processFill out raw).positionOf ticker = tr.positionOf ticker ∨
        ∃ nf ∈ normalizeFill raw, nf.fillId ∉ tr.state.fillIds ∧ nf.ticker = ticker ∧
          (tr.processFill out raw).positionOf ticker = tr.positionOf ticker + nf.signedSize) := by
  have ended := processFill_outcome out raw tr
  generalize tr.processFill out raw = tr' at ended
  cases ended with
  | ignored _ => exact ⟨rfl, Or.inl rfl⟩
  | booked nf normal fresh only written =>
    obtain ⟨_, rfl⟩ := only
    refine ⟨rfl, ?_⟩
    have position := positionOf_of_insert written ticker
    split_ifs at position with same
    · refine Or.inr ⟨nf, normal, fresh, same.symm, position.trans ?_⟩
      rw [same, positionOf_eq tr nf.ticker (tr.fillCategory nf.ticker)]
      rfl
    · exact Or.inl position

theorem counted_fill {out : Outside} {raw : Value} (counted : Counted ticker tr history)
    (uncounted : Uncounted ticker tr m) (turn : turnOf tr m = some ⟨.fill raw, out⟩)
    (moves : tr.move env m = tr.processFill out raw) :
    Counted ticker (tr.move env m) (history ++ marks env ticker tr m) := by
  obtain ⟨checks, position⟩ := processFill_position out raw tr ticker
  have other : syncOf tr m = none := by rw [syncOf, turn]
  rw [marks_of_other other]
  refine counted.restart (by rw [moves, checks]) fun restarts => uncounted ?_
  rw [moves] at restarts
  obtain same | ⟨nf, normal, fresh, rfl, moved⟩ := position
  · rw [same, ends_self] at restarts
    cases restarts
  · rw [moved] at restarts
    have closes : fillEnds nf.ticker tr m = true := by
      rw [fillEnds, turn]
      exact Option.any_eq_true _ _ |>.mpr ⟨nf, normal, decide_eq_true ⟨fresh, rfl, restarts⟩⟩
    rw [closes, Bool.or_true]

theorem counted_sync {out : Outside} (counted : Counted ticker tr history)
    (uncounted : Uncounted ticker tr m) (syncs : syncOf tr m = some out)
    (moves : tr.move env m = tr.syncPositions out) :
    Counted ticker (tr.move env m) (history ++ marks env ticker tr m) := by
  have synced := synced_syncPositions out tr ticker
  rw [← moves] at synced
  have shown (here : shows out ticker = true) : tr.settlementChecks.lookup ticker = none :=
    uncounted (by simp [syncs, here])
  rw [marks_of_sync syncs]
  cases synced with
  | present here position checks =>
    have found : ¬ misses out tr ticker = true := fun missing => by
      rw [misses_of_absent missing] at here
      cases here
    rw [if_neg found, List.nil_append]
    refine counted.restart checks fun restarts => ?_
    obtain here | ended := restarts
    · exact shown here
    · cases corrects : (snapshot out).bind fun exchange =>
          Flat.correction out exchange tr ticker with
      | none =>
        rw [position, corrects, Option.getD_none, ends_self] at ended
        cases ended
      | some remote =>
        rw [position, corrects, Option.getD_some] at ended
        obtain ⟨exchange, snap, corrects⟩ := Option.bind_eq_some_iff.mp corrects
        have corrected : correctionEnds out tr ticker = true := by
          rw [correctionEnds, snap, Option.any_some, corrects, Option.any_some, ended]
        exact uncounted (by simp [syncs, corrected])
  | unanswered gone failed position checks =>
    have found : ¬ misses out tr ticker = true := by
      rw [misses, failed]
      simp
    rw [if_neg found, List.nil_append]
    refine counted.restart checks fun restarts => ?_
    obtain here | ended := restarts
    · exact shown here
    · rw [position, ends_self] at ended
      cases ended
  | settled _ checks => exact counted_of_none checks _
  | missed missing position checks =>
    obtain ⟨_, unshown⟩ := absent_facts (misses_of_absent missing)
    have stays : ¬ (shows out ticker = true ∨
        ends (tr.positionOf ticker) ((tr.move env m).positionOf ticker) = true) := by
      rw [unshown, position, ends_self]
      simp
    rw [if_pos missing, if_neg stays, List.append_nil, Counted, checks, Option.getD_some,
      List.replicate_succ']
    exact (List.suffix_append_self_iff).mpr counted
  | givenUp _ _ _ checks => exact counted_of_none checks _

theorem counted_move (counted : Counted ticker tr history) (uncounted : Uncounted ticker tr m) :
    Counted ticker (tr.move env m) (history ++ marks env ticker tr m) := by
  have booked := booked_move env tr m
  have still (other : syncOf tr m = none) (checks : (tr.move env m).settlementChecks =
      tr.settlementChecks) (position : (tr.move env m).positionOf ticker = tr.positionOf ticker) :
      Counted ticker (tr.move env m) (history ++ marks env ticker tr m) := by
    rw [marks_of_other other, position, ends_self, if_neg Bool.false_ne_true, List.append_nil,
      Counted, checks]
    exact counted
  cases booked with
  | fill raw out turn moves => exact counted_fill counted uncounted turn moves
  | sync out turn moves => exact counted_sync counted uncounted (by rw [syncOf, turn]) moves
  | daily out turn moves =>
    refine still (by rw [syncOf, turn]) ?_ ?_
    all_goals
      rw [moves]
      unfold Trader.maybeDailyReset
      split_ifs <;> rfl
  | nothing quiet upkeep =>
    refine still ?_ upkeep.checks (upkeep.positionOf ticker)
    unfold syncOf
    split
    next turn => exact absurd trivial (quiet _ turn)
    · rfl

theorem move_of_sync {out : Outside} (syncs : syncOf tr m = some out) :
    tr.move env m = tr.syncPositions out := by
  unfold syncOf at syncs
  split at syncs
  next out' turn =>
    cases syncs
    cases booked_move env tr m with
    | fill _ _ turn' _ => rw [turn] at turn'; cases turn'
    | sync _ turn' moves => rw [turn] at turn'; cases turn'; exact moves
    | daily _ turn' _ => rw [turn] at turn'; cases turn'
    | nothing quiet _ => exact absurd trivial (quiet _ turn)
  · cases syncs

/-- A position is written off on a full count. -/
theorem full_of_writesOff (counted : Counted ticker tr history)
    (written : writesOff env ticker tr m = true) :
    List.replicate maxSettlementChecks .missed <:+ history ++ [.missed] := by
  unfold writesOff at written
  simp only [Bool.and_eq_true, decide_eq_true_eq] at written
  obtain ⟨lookup, zeroed⟩ := written
  obtain ⟨out, syncs, missing⟩ := (Option.any_eq_true _ _).mp lookup
  have gone := misses_of_absent missing
  have held := (absent_facts gone).1
  rw [move_of_sync syncs] at zeroed
  cases synced_syncPositions out tr ticker with
  | present here _ _ =>
    rw [gone] at here
    cases here
  | unanswered _ failed _ _ =>
    rw [misses, failed] at missing
    simp at missing
  | settled found _ =>
    rw [missing] at found
    cases found
  | missed _ position _ => exact absurd (position.symm.trans zeroed) held
  | givenUp _ _ full _ =>
    have shorter : List.replicate maxSettlementChecks Mark.missed <:+
        List.replicate ((tr.settlementChecks.lookup ticker).getD 0 + 1) .missed := by
      rw [← Nat.sub_add_cancel full, List.replicate_add]
      exact List.suffix_append _ _
    refine shorter.trans ?_
    rw [List.replicate_succ']
    exact List.suffix_append_self_iff.mpr counted

end Move

theorem counted_startup (env : Env) (cfg : Config) (out : Outside) (ticker : String) :
    Counted ticker (Trader.startup env cfg out) [] := by
  obtain ⟨fetched, before, after⟩ := startup_syncs env cfg out
  have unchecked : fetched.settlementChecks.lookup ticker = none := by
    rw [before.checks]
    rfl
  -- nothing is held yet, so the first sync has nothing to look up
  have flat : fetched.positionOf ticker = 0 := (before.positionOf ticker).trans rfl
  refine counted_of_none ?_ []
  rw [after.checks]
  cases synced_syncPositions out fetched ticker with
  | present _ _ checks => exact checks.trans unchecked
  | unanswered _ _ _ checks => exact checks.trans unchecked
  | settled _ checks => exact checks
  | missed missing _ _ => exact absurd flat (absent_facts (misses_of_absent missing)).1
  | givenUp _ _ _ checks => exact checks

/-- In every run from startup that starts no market anew while a missed lookup of it is on record, no
    position is written off before its last four answered lookups have missed. -/
theorem gives_up_late {env : Env} {cfg : Config} {out : Outside} {moves : List Move}
    {ticker : String}
    (uncounted : Along (Trader.move env) (Uncounted ticker) (Trader.startup env cfg out) moves) :
    GivesUpLate env ticker (Trader.startup env cfg out) moves := by
  rintro before m after rfl written
  obtain ⟨earlier, _⟩ := along_append.mp uncounted
  have counted := outputs_induct (Trader.move env)
    (fun tr m history counted uncounted => counted_move (m := m) counted uncounted)
    (counted_startup env cfg out ticker) earlier
  exact full_of_writesOff counted written

/-! ## A count that outlives a reappearance -/

def envelope (key : String) (rows : List Value) : Value := .object [(key, .array rows)]

/-- The exchange reports this position on the market, and no settlements. -/
def reporting (position : ℚ) (mono : ℚ) : Outside :=
  { listing ["KXBTCD-1"] mono with
    api :=
      { (listing ["KXBTCD-1"] mono).api with
        getPositions := .ok (envelope "market_positions"
          [.object [("ticker", .string "KXBTCD-1"), ("position", .number position)]])
        getSettlements := .ok (envelope "settlements" []) } }

def vanishingStart : Trader :=
  Trader.startup (marketEnv none) (marketCfg none) (listing ["KXBTCD-1"] 0)

def bought : Move :=
  .turn ⟨.fill (report (makerFill "f1" "b1" "KXBTCD-1" true 1 (3 / 5))), listing ["KXBTCD-1"] 0⟩

def synced (position mono : ℚ) : Move := .turn ⟨.sync, reporting position mono⟩

/-- Four syncs that miss a position write it off. -/
theorem gives_up_late_four_misses :
    let moves := [bought, synced 0 30, synced 0 60, synced 0 90]
    writesOff (marketEnv none) "KXBTCD-1" (run (Trader.move (marketEnv none)) vanishingStart moves)
        (synced 0 120) = true ∧
      GivesUpLate (marketEnv none) "KXBTCD-1" vanishingStart (moves ++ [synced 0 120]) := by
  intro moves
  exact ⟨by decide +kernel, gives_up_late (by decide +kernel)⟩

/-- A miss, a reappearance, and three more misses write it off, too. -/
theorem reappearance_keeps_count :
    ¬ GivesUpLate (marketEnv none) "KXBTCD-1" vanishingStart
      [bought, synced 0 30, synced 1 60, synced 0 90, synced 0 120, synced 0 150] := by
  intro late
  have written : writesOff (marketEnv none) "KXBTCD-1"
      (run (Trader.move (marketEnv none)) vanishingStart
        [bought, synced 0 30, synced 1 60, synced 0 90, synced 0 120]) (synced 0 150) = true := by
    decide +kernel
  have misses := late _ _ [] rfl written
  exact absurd misses (by decide +kernel)

end KalshiMm.Verified.VanishedChecks
