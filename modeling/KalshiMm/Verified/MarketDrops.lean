import KalshiMm.Verified.Categories

/-!
# Which markets a refresh drops

A market is dropped when it is flat and discovery has not found it.  Discovery walks the listing of
each category, and a failing page, like the page cap, ends the walk without a trace in what it
found: a market of the rest of the listing then looks gone.
-/

namespace KalshiMm.Verified.Drops

open KalshiMm.Lib KalshiMm.Model

/-! ## Listings -/

/-- A pagination walk ends on a blank cursor, within its pages and without a failed request. -/
def readsToEnd (request : ℕ → Option String → Except String Value) :
    ℕ → ℕ → Option String → Bool
  | 0, _, _ => false
  | fuel + 1, page, cursor =>
    match request page cursor with
    | .error _ => false
    | .ok resp =>
      match resp.cursor with
      | none => true
      | some next => readsToEnd request fuel (page + 1) (some next)

/-- Discovery reads every page of a category's listing. -/
def ListingRead (env : Env) (out : Outside) (category : String) : Prop :=
  category ∈ env.policies ∧
    readsToEnd (fun page cursor => out.api.getMarkets page category cursor) 50 0 none = true

/-- The markets on the pages that discovery reads of a category. -/
def pageTickers (out : Outside) (category : String) : List String :=
  (pageRows (readPages (fun page cursor => out.api.getMarkets page category cursor) 50 0 none).1
    "markets").filterMap fun market => market.getStr "ticker"

/-- A refresh drops a market only if it is flat and the whole listing of its category was read
    without finding it. -/
def DropsOnlyGone (env : Env) (out : Outside) (tr : Trader) : Prop :=
  ∀ ticker category, tr.activeTickers.lookup ticker = some category →
    ticker ∉ (tr.refreshMarkets env out).activeTickers →
      tr.positionOf ticker = 0 ∧ ListingRead env out category ∧
        ticker ∉ pageTickers out category

/-- Discovery finds nothing at all, or it reads to the end the listing of every flat market that it
    does not find; a market that is not named after its category must not be on it. -/
def ReadsListings (env : Env) (out : Outside) (tr : Trader) : Prop :=
  Trader.discoverUniverse env out = ∅ ∨
  ∀ ticker category, tr.activeTickers.lookup ticker = some category → tr.positionOf ticker = 0 →
    ticker ∉ Trader.discoverUniverse env out →
      ListingRead env out category ∧
        (¬ category.toList <+: ticker.toList → ticker ∉ pageTickers out category)

theorem mem_discoverCategory {out : Outside} {found : Dict String String}
    {category ticker : String} : ticker ∈ Trader.discoverCategory out found category ↔
      ticker ∈ found ∨ (category.toList <+: ticker.toList ∧ ticker ∈ pageTickers out category) := by
  unfold Trader.discoverCategory pageTickers
  dsimp only
  generalize pageRows _ "markets" = rows
  induction rows generalizing found with
  | nil => simp
  | cons market rows inductionHypothesis =>
    rw [List.foldl_cons, inductionHypothesis]
    simp only [List.mem_filterMap, List.mem_cons, exists_eq_or_imp]
    cases named : market.getStr "ticker" with
    | none => simp
    | some other =>
      dsimp only
      -- a market not named after the category is filtered out
      by_cases same : ticker = other
      · subst same
        split_ifs with kept <;> simp [kept]
      · have distinct : other ≠ ticker := Ne.symm same
        split_ifs <;> simp [Finmap.mem_insert, same, distinct]

/-- Discovery finds what is on the pages of a category it is named after. -/
theorem mem_discoverUniverse {env : Env} {out : Outside} {ticker : String} :
    ticker ∈ Trader.discoverUniverse env out ↔ ∃ category ∈ env.policies,
      category.toList <+: ticker.toList ∧ ticker ∈ pageTickers out category := by
  have walked (categories : List String) (found : Dict String String) :
      ticker ∈ categories.foldl (Trader.discoverCategory out) found ↔ ticker ∈ found ∨
        ∃ category ∈ categories,
          category.toList <+: ticker.toList ∧ ticker ∈ pageTickers out category := by
    induction categories generalizing found with
    | nil => simp
    | cons category categories inductionHypothesis =>
      rw [List.foldl_cons, inductionHypothesis, mem_discoverCategory]
      simp only [List.mem_cons, exists_eq_or_imp, or_assoc]
  rw [Trader.discoverUniverse, walked]
  simp only [Finmap.notMem_empty, false_or, out.hash.mem, Finmap.mem_keys]

/-! ## Drops -/

/-- What a refresh that has found something drops. -/
theorem dropped_iff {env : Env} {out : Outside} {tr : Trader} {ticker category : String}
    (active : tr.activeTickers.lookup ticker = some category) :
    ticker ∉ (tr.refreshMarkets env out).activeTickers ↔
      Trader.discoverUniverse env out ≠ ∅ ∧ tr.positionOf ticker = 0 ∧
        ticker ∉ Trader.discoverUniverse env out := by
  have isActive : ticker ∈ tr.activeTickers := Finmap.mem_iff.mpr ⟨category, active⟩
  have prunes : tr.prunable (Trader.discoverUniverse env out) ticker = true ↔
      ticker ∉ Trader.discoverUniverse env out ∧ tr.positionOf ticker = 0 := by
    simp [Trader.prunable]
  obtain ⟨same, nothing | kept⟩ | ⟨something, _, rolled⟩ := refreshMarkets_cases env out tr
  · rw [same]
    exact iff_of_false (fun absent => absent isActive) fun dropped => dropped.1 nothing
  · rw [same]
    refine iff_of_false (fun absent => absent isActive) ?_
    rintro ⟨_, flat, unlisted⟩
    have stays := kept ticker (Finmap.mem_keys.mpr isActive)
    rw [prunes.mpr ⟨unlisted, flat⟩] at stays
    cases stays
  · have dropped : ticker ∉ tr.rolledUniverse (Trader.discoverUniverse env out) ↔
        tr.prunable (Trader.discoverUniverse env out) ticker = true := by
      rw [← Finmap.lookup_eq_none, Option.eq_none_iff_forall_ne_some]
      simp only [ne_eq, Categories.lookup_rolledUniverse, active, isActive, not_true, false_and,
        or_false, not_and, Bool.not_eq_false]
      exact ⟨fun gone => gone category rfl, fun pruned _ _ => pruned⟩
    rw [rolled, dropped, prunes]
    constructor
    · rintro ⟨unlisted, flat⟩
      exact ⟨something, flat, unlisted⟩
    · rintro ⟨_, flat, unlisted⟩
      exact ⟨unlisted, flat⟩

/-- A refresh drops only markets that are gone exactly when it reads the listings through. -/
theorem dropsOnlyGone_iff (env : Env) (out : Outside) (tr : Trader) :
    DropsOnlyGone env out tr ↔ ReadsListings env out tr := by
  constructor
  · intro drops
    by_cases nothing : Trader.discoverUniverse env out = ∅
    · exact Or.inl nothing
    · refine Or.inr fun ticker category active flat unlisted => ?_
      obtain ⟨_, read, absent⟩ := drops ticker category active
        ((dropped_iff active).mpr ⟨nothing, flat, unlisted⟩)
      exact ⟨read, fun _ => absent⟩
  · intro reads ticker category active gone
    obtain ⟨something, flat, unlisted⟩ := (dropped_iff active).mp gone
    obtain nothing | reads := reads
    · exact absurd nothing something
    · obtain ⟨read, aside⟩ := reads ticker category active flat unlisted
      refine ⟨flat, read, fun listed => ?_⟩
      -- discovery would have found it on the pages, had it been named after the category
      by_cases named : category.toList <+: ticker.toList
      · exact unlisted (mem_discoverUniverse.mpr ⟨category, read.1, named, listed⟩)
      · exact aside named listed

/-! ## A page that fails -/

/-- The first page lists the given markets, and the second one fails. -/
def cutShort (tickers : List String) (mono : ℚ) : Outside :=
  { answering "b1" "a1" mono with
    api :=
      { (answering "b1" "a1" mono).api with
        getMarkets := fun page _ _ =>
          if page = 0 then
            .ok (.object [("cursor", .string "next"), ("markets",
              .array (tickers.map fun ticker => .object [("ticker", .string ticker)]))])
          else .error "503" } }

/-- Of two listed markets the first page has one; the other page fails, and the other market is
    dropped. -/
theorem failed_page_drops_market :
    let tr := Trader.startup (marketEnv none) (marketCfg none)
      (listing ["KXBTCD-1", "KXBTCD-2"] 100)
    tr.activeTickers.lookup "KXBTCD-2" = some "KXBTCD" ∧
      "KXBTCD-2" ∉ (tr.refreshMarkets (marketEnv none) (cutShort ["KXBTCD-1"] 400)).activeTickers ∧
      ¬ DropsOnlyGone (marketEnv none) (cutShort ["KXBTCD-1"] 400) tr := by
  intro tr
  have active : tr.activeTickers.lookup "KXBTCD-2" = some "KXBTCD" := by decide +kernel
  have gone : "KXBTCD-2" ∉
      (tr.refreshMarkets (marketEnv none) (cutShort ["KXBTCD-1"] 400)).activeTickers := by
    decide +kernel
  refine ⟨active, gone, fun drops => ?_⟩
  obtain ⟨_, ⟨_, read⟩, _⟩ := drops "KXBTCD-2" "KXBTCD" active gone
  exact absurd read (by decide +kernel)

end KalshiMm.Verified.Drops
