import Mathlib.Data.Set.Basic
import KalshiMm.Verified.Ladders

/-!
# Ladders that share an expiry

The groups are keyed by the expiry alone, while a ladder is a series and an expiry.  A market's
delta is its own ladder's exactly on universes where an expiry belongs to one series that lists no
strike twice, or where all its strikes are the same and there is no delta at all.
-/

namespace KalshiMm.Verified.LadderPools

open KalshiMm.Lib KalshiMm.Model KalshiMm.Verified.Ladders
open KalshiMm.Model.Ladders (build deltaFor endpoints)

variable {markets : Set String} {tickers : List String} {ticker group : String}
  {strike deltaMax : ℚ} {midOf : String → Option ℚ}

/-- The two universes list the same markets of the ticker's own ladder. -/
def SameLadder (ticker : String) (tickers tickers' : List String) : Prop :=
  ∀ event, ladderPrefix ticker = some event → ∀ t, ladderPrefix t = some event →
    (t ∈ tickers ↔ t ∈ tickers')

/-- Over universes of these markets, a delta depends on the market's own ladder only. -/
def OwnLadderOnly (deltaMax : ℚ) (markets : Set String) : Prop :=
  ∀ (tickers tickers' : List String) (midOf : String → Option ℚ) (ticker : String),
    tickers.Nodup → tickers'.Nodup → (∀ t ∈ tickers, t ∈ markets) → (∀ t ∈ tickers', t ∈ markets) →
    SameLadder ticker tickers tickers' →
    (build tickers).deltaFor ticker deltaMax midOf = (build tickers').deltaFor ticker deltaMax midOf

/-- An expiry of these markets is one series without a repeated strike, or a single strike. -/
def Separated (markets : Set String) : Prop :=
  ∀ first ∈ markets, ∀ second ∈ markets, first ≠ second → ∀ group k k',
    parseStrike first = some (group, k) → parseStrike second = some (group, k') →
    (ladderPrefix first = ladderPrefix second ∧ k ≠ k') ∨
      ∀ t ∈ markets, ∀ k'', parseStrike t = some (group, k'') → k'' = k

theorem sameLadder_symm {tickers' : List String} (same : SameLadder ticker tickers tickers') :
    SameLadder ticker tickers' tickers :=
  fun event own t onLadder => (same event own t onLadder).symm

theorem sameLadder_of_perm {tickers' : List String} (perm : tickers.Perm tickers') :
    SameLadder ticker tickers tickers' :=
  fun _ _ _ _ => perm.mem_iff

/-! ## Separated markets -/

theorem isSome_ladderPrefix (parsed : parseStrike ticker = some (group, strike)) :
    ∃ event, ladderPrefix ticker = some event := by
  rw [ladderPrefix, parsed]
  exact ⟨_, rfl⟩

/-- Universes of separated markets that agree on the ticker's ladder agree on its delta, where
    one of them lists the ticker. -/
theorem deltaFor_of_separated (separated : Separated markets) {tickers' : List String}
    (nodup : tickers.Nodup) (nodup' : tickers'.Nodup) (listed : ∀ t ∈ tickers, t ∈ markets)
    (listed' : ∀ t ∈ tickers', t ∈ markets) (same : SameLadder ticker tickers tickers')
    (member : Member tickers ticker group strike) :
    (build tickers).deltaFor ticker deltaMax midOf =
      (build tickers').deltaFor ticker deltaMax midOf := by
  obtain ⟨event, own⟩ := isSome_ladderPrefix member.2
  have member' : Member tickers' ticker group strike :=
    ⟨(same event own ticker own).mp member.1, member.2⟩
  by_cases level : ∀ t ∈ markets, ∀ k, parseStrike t = some (group, k) → k = strike
  · rw [deltaFor_of_level member fun rung on => level rung.2 (listed _ on.1) rung.1 on.2,
      deltaFor_of_level member' fun rung on => level rung.2 (listed' _ on.1) rung.1 on.2]
  · -- the expiry has several strikes, so any two of its markets are of one series
    have notLevel (k : ℚ) : ¬ ∀ t ∈ markets, ∀ k', parseStrike t = some (group, k') → k' = k := by
      intro all
      have here := all ticker (listed _ member.1) strike member.2
      exact level fun t onMarket k' parsed => (all t onMarket k' parsed).trans here.symm
    have alike (t : String) (onMarket : t ∈ markets) (k : ℚ)
        (parsed : parseStrike t = some (group, k)) : ladderPrefix t = some event := by
      by_cases self : ticker = t
      · rw [← self, own]
      · obtain ⟨shared, _⟩ | all :=
          separated ticker (listed _ member.1) t onMarket self group strike k member.2 parsed
        · rw [← shared, own]
        · exact absurd all (notLevel strike)
    have distinct : DistinctStrikes tickers group := by
      intro first second k ofFirst ofSecond
      by_contra different
      obtain ⟨_, apart⟩ | all := separated first (listed _ ofFirst.1) second (listed _ ofSecond.1)
        different group k k ofFirst.2 ofSecond.2
      · exact apart rfl
      · exact notLevel k all
    refine deltaFor_congr nodup nodup' distinct member ?_
    ext rung
    constructor
    · intro on
      exact ⟨(same event own _ (alike _ (listed _ on.1) _ on.2)).mp on.1, on.2⟩
    · intro on
      exact ⟨(same event own _ (alike _ (listed' _ on.1) _ on.2)).mpr on.1, on.2⟩

theorem ownLadderOnly_of_separated (separated : Separated markets) (deltaMax : ℚ) :
    OwnLadderOnly deltaMax markets := by
  intro tickers tickers' midOf ticker nodup nodup' listed listed' same
  by_cases known : ∃ group strike, Member tickers ticker group strike
  · obtain ⟨group, strike, member⟩ := known
    exact deltaFor_of_separated separated nodup nodup' listed listed' same member
  by_cases known' : ∃ group strike, Member tickers' ticker group strike
  · obtain ⟨group, strike, member⟩ := known'
    exact (deltaFor_of_separated separated nodup' nodup listed' listed (sameLadder_symm same)
      member).symm
  · rw [deltaFor_of_not_member fun group strike member => known ⟨group, strike, member⟩,
      deltaFor_of_not_member fun group strike member => known' ⟨group, strike, member⟩]

/-! ## Markets that pool -/

section Pooled

variable {other third : String} {k : ℚ}

theorem rungOf_parsed (parsed : parseStrike ticker = some (group, strike)) :
    rungOf group ticker = some (strike, ticker) :=
  rungOf_eq_some.mpr ⟨parsed, rfl⟩

theorem slope_const (lo hi : ℚ × String) :
    Verified.Ladders.slope deltaMax (fun _ => some 0) lo hi =
      if lo.1 < hi.1 then some (min 0 deltaMax) else none := by
  by_cases wide : lo.1 < hi.1 <;> simp [Verified.Ladders.slope, guard, wide]

/-- A second strike of the expiry gives a delta, whatever its series. -/
theorem deltaFor_pair_ne (apart : strike ≠ k)
    (parsed : parseStrike ticker = some (group, strike))
    (parsed' : parseStrike other = some (group, k)) :
    (build [ticker]).deltaFor ticker deltaMax (fun _ => some 0) ≠
      (build [ticker, other]).deltaFor ticker deltaMax (fun _ => some 0) := by
  have alone : rungList [ticker] group = [(strike, ticker)] := by
    simp [rungList, rungOf_parsed parsed]
  rw [deltaFor_pair apart parsed parsed' rfl rfl, deltaFor_build, if_pos (by simp), parsed,
    Option.bind_some, alone]
  simp [readDelta, sortBy, endpoints]

/-- Of two markets at one strike, the order of arrival decides which comes first. -/
theorem deltaFor_tie_ne (different : ticker ≠ other) (offThird : ticker ≠ third) (apart : strike ≠ k)
    (parsed : parseStrike ticker = some (group, strike))
    (parsed' : parseStrike other = some (group, strike))
    (parsed'' : parseStrike third = some (group, k)) :
    (build [ticker, other, third]).deltaFor ticker deltaMax (fun _ => some 0) ≠
      (build [other, ticker, third]).deltaFor ticker deltaMax (fun _ => some 0) := by
  have first : rungList [ticker, other, third] group =
      [(strike, ticker), (strike, other), (k, third)] := by
    simp [rungList, rungOf_parsed parsed, rungOf_parsed parsed', rungOf_parsed parsed'']
  have second : rungList [other, ticker, third] group =
      [(strike, other), (strike, ticker), (k, third)] := by
    simp [rungList, rungOf_parsed parsed, rungOf_parsed parsed', rungOf_parsed parsed'']
  rw [deltaFor_build, deltaFor_build, if_pos (by simp), if_pos (by simp), parsed, Option.bind_some,
    Option.bind_some, first, second]
  obtain below | above := lt_or_gt_of_ne apart
  · simp [readDelta, sortBy, endpoints, slope_const, List.findIdx?_cons, below, below.le,
      Ne.symm different]
  · simp [readDelta, sortBy, endpoints, slope_const, List.findIdx?_cons, above, above.not_ge,
      Ne.symm different, Ne.symm offThird]

end Pooled

theorem ne_of_parsed {other : String} {k : ℚ} (apart : strike ≠ k)
    (parsed : parseStrike ticker = some (group, strike))
    (parsed' : parseStrike other = some (group, k)) : ticker ≠ other := by
  rintro rfl
  exact apart (by simpa [parsed] using parsed')

/-- Markets of one expiry at different strikes are of one series, if deltas stay in a ladder. -/
theorem same_series (alone : OwnLadderOnly deltaMax markets) {first second : String} {k k' : ℚ}
    (listed : first ∈ markets) (listed' : second ∈ markets) (apart : k ≠ k')
    (parsed : parseStrike first = some (group, k)) (parsed' : parseStrike second = some (group, k')) :
    ladderPrefix first = ladderPrefix second := by
  by_contra differ
  have different := ne_of_parsed apart parsed parsed'
  refine deltaFor_pair_ne apart parsed parsed' (alone _ _ (fun _ => some 0) first
    (List.nodup_singleton _) (by simpa using different) (by simpa using listed)
    (by simpa using ⟨listed, listed'⟩) ?_)
  intro event own t onLadder
  have other : t ≠ second := by
    rintro rfl
    exact differ (own.trans onLadder.symm)
  simp [other]

theorem separated_of_ownLadderOnly (alone : OwnLadderOnly deltaMax markets) :
    Separated markets := by
  intro first listed second listed' different group k k' parsed parsed'
  by_cases apart : k = k'
  · subst apart
    -- two markets at one strike: any third strike makes their order matter
    refine Or.inr ?_
    intro third listed'' k'' parsed''
    by_contra other
    have other := Ne.symm other
    have offFirst := ne_of_parsed other parsed parsed''
    have offSecond := ne_of_parsed other parsed' parsed''
    have swapped := List.Perm.swap second first [third]
    refine deltaFor_tie_ne different offFirst other parsed parsed' parsed'' (alone _ _
      (fun _ => some 0) first ?_ ?_ ?_ ?_ (sameLadder_of_perm swapped))
    · simp [different, offFirst, offSecond]
    · simp [Ne.symm different, offFirst, offSecond]
    · simp [listed, listed', listed'']
    · simp [listed, listed', listed'']
  · exact Or.inl ⟨same_series alone listed listed' apart parsed parsed', apart⟩

/-- Deltas depend on the own ladder only, exactly over separated markets. -/
theorem ownLadderOnly_iff (deltaMax : ℚ) (markets : Set String) :
    OwnLadderOnly deltaMax markets ↔ Separated markets :=
  ⟨separated_of_ownLadderOnly, fun separated => ownLadderOnly_of_separated separated deltaMax⟩

/-- A bitcoin strike alone has no delta, and beside an ether strike of the same hour it has one. -/
theorem delta_pools_series :
    let mids : String → Option ℚ := fun ticker =>
      if ticker = "KXETHD-26JUL1517-T3500" then some (9 / 10) else some (1 / 2)
    SameLadder "KXBTCD-26JUL1517-T64000" ["KXBTCD-26JUL1517-T64000"]
        ["KXBTCD-26JUL1517-T64000", "KXETHD-26JUL1517-T3500"] ∧
      (build ["KXBTCD-26JUL1517-T64000"]).deltaFor "KXBTCD-26JUL1517-T64000" (1 / 200) mids = none ∧
      (build ["KXBTCD-26JUL1517-T64000", "KXETHD-26JUL1517-T3500"]).deltaFor
        "KXBTCD-26JUL1517-T64000" (1 / 200) mids = some (2 / 5 / 60500) := by
  refine ⟨?_, by decide +kernel, by decide +kernel⟩
  intro event own t onLadder
  have other : t ≠ "KXETHD-26JUL1517-T3500" := by
    rintro rfl
    have differ : ladderPrefix "KXBTCD-26JUL1517-T64000" ≠
      ladderPrefix "KXETHD-26JUL1517-T3500" := by decide +kernel
    exact differ (own.trans onLadder.symm)
  simp [other]

end KalshiMm.Verified.LadderPools
