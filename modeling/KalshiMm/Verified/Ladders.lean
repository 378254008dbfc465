import Mathlib.Tactic.Linarith
import KalshiMm.Lib.Neighbours
import KalshiMm.Model.Ladder

/-!
# The delta of a strike ladder

`Ladders.build` collects the rungs of one expiry and sorts them by strike; the delta is then read
off by position.  Where the strikes of an expiry are distinct the positions are the order of the
strikes, so the delta is a central difference over the nearest strikes.  Series that list the
same expiry are pooled, and equal strikes stay in the order of arrival.
-/

namespace KalshiMm.Verified.Ladders

open KalshiMm.Lib KalshiMm.Model
open KalshiMm.Model.Ladders (build deltaFor endpoints)

variable {tickers : List String} {ticker group : String} {strike deltaMax : ℚ}
  {midOf : String → Option ℚ}

/-- A market of the universe that is a threshold leg. -/
def Member (tickers : List String) (ticker group : String) (strike : ℚ) : Prop :=
  ticker ∈ tickers ∧ parseStrike ticker = some (group, strike)

/-- The rungs of one expiry, as a set. -/
def Rungs (tickers : List String) (group : String) : Set (ℚ × String) :=
  {rung | Member tickers rung.2 group rung.1}

/-! ## What is built -/

def rungOf (group ticker : String) : Option (ℚ × String) :=
  (parseStrike ticker).bind fun parsed => if parsed.1 = group then some (parsed.2, ticker) else none

def rungList (tickers : List String) (group : String) : List (ℚ × String) :=
  tickers.filterMap (rungOf group)

theorem rungOf_eq_some {rung : ℚ × String} : rungOf group ticker = some rung ↔
    parseStrike ticker = some (group, rung.1) ∧ rung.2 = ticker := by
  unfold rungOf
  obtain ⟨k, t⟩ := rung
  cases parsed : parseStrike ticker with
  | none => simp
  | some entry =>
    obtain ⟨g, k'⟩ := entry
    by_cases same : g = group
    · simp [same, eq_comm]
    · simp [same]

theorem mem_rungList {rung : ℚ × String} :
    rung ∈ rungList tickers group ↔ rung ∈ Rungs tickers group := by
  simp only [rungList, List.mem_filterMap, rungOf_eq_some, Rungs, Member, Set.mem_ofPred_eq]
  constructor
  · rintro ⟨t, member, parsed, rfl⟩
    exact ⟨member, parsed⟩
  · rintro ⟨member, parsed⟩
    exact ⟨_, member, parsed, rfl⟩

theorem lookup_groups_foldl (tickers : List String) (out : Ladders) (group : String) :
    (((tickers.foldl Ladders.add out).groups.lookup group).getD []) =
      (out.groups.lookup group).getD [] ++ rungList tickers group := by
  induction tickers generalizing out with
  | nil => simp [rungList]
  | cons t rest inductionHypothesis =>
    rw [List.foldl_cons, inductionHypothesis]
    cases parsed : parseStrike t with
    | none => simp [Ladders.add, rungList, rungOf, parsed]
    | some entry =>
      obtain ⟨g, k⟩ := entry
      by_cases same : g = group
      · subst same
        simp [Ladders.add, rungList, rungOf, parsed, Finmap.lookup_insert]
      · simp [Ladders.add, rungList, rungOf, parsed, same,
          Finmap.lookup_insert_of_ne _ (Ne.symm same)]

theorem lookup_byTicker_foldl (tickers : List String) (out : Ladders) (ticker : String) :
    (tickers.foldl Ladders.add out).byTicker.lookup ticker =
      if ticker ∈ tickers then (parseStrike ticker).or (out.byTicker.lookup ticker)
      else out.byTicker.lookup ticker := by
  induction tickers generalizing out with
  | nil => simp
  | cons t rest inductionHypothesis =>
    rw [List.foldl_cons, inductionHypothesis]
    by_cases same : ticker = t
    · subst same
      cases parsed : parseStrike ticker with
      | none => simp [Ladders.add, parsed]
      | some entry => simp [Ladders.add, parsed, Finmap.lookup_insert]
    · have kept : (Ladders.add out t).byTicker.lookup ticker = out.byTicker.lookup ticker := by
        unfold Ladders.add
        cases parsed : parseStrike t with
        | none => rfl
        | some entry => exact Finmap.lookup_insert_of_ne _ same
      simp [kept, same]

/-! ## The delta on a sorted ladder -/

/-- The difference over two endpoints, where their mids allow one. -/
def slope (deltaMax : ℚ) (midOf : String → Option ℚ) (lo hi : ℚ × String) : Option ℚ := do
  let midLo ← midOf lo.2
  let midHi ← midOf hi.2
  let width := hi.1 - lo.1
  guard (0 < width)
  let density := (midLo - midHi) / width
  guard (0 ≤ density)
  pure (min density deltaMax)

def readDelta (ladder : List (ℚ × String)) (deltaMax : ℚ) (midOf : String → Option ℚ)
    (own : ℚ × String) : Option ℚ := do
  let i ← ladder.findIdx? fun rung => rung.2 = own.2
  let ends ← endpoints ladder i own.1 own.2
  slope deltaMax midOf ends.1 ends.2

/-- The delta is read off the sorted rungs of the market's expiry. -/
theorem deltaFor_build (tickers : List String) (ticker : String) (deltaMax : ℚ)
    (midOf : String → Option ℚ) : (build tickers).deltaFor ticker deltaMax midOf =
      if ticker ∈ tickers then
        (parseStrike ticker).bind fun parsed =>
          readDelta (sortBy Prod.fst (rungList tickers parsed.1)) deltaMax midOf
            (parsed.2, ticker)
      else none := by
  have own : (build tickers).byTicker.lookup ticker =
      if ticker ∈ tickers then parseStrike ticker else none := by
    have folded := lookup_byTicker_foldl tickers {} ticker
    simpa [build] using folded
  unfold deltaFor
  rw [own]
  by_cases member : ticker ∈ tickers
  · rw [if_pos member, if_pos member]
    cases parsed : parseStrike ticker with
    | none => rfl
    | some entry =>
      have folded := lookup_groups_foldl tickers {} entry.1
      simp only [Finmap.lookup_empty, Option.getD_none, List.nil_append] at folded
      simp only [build, Dict.lookup_mapValues, Option.bind_eq_bind, Option.bind_some]
      -- a group that was never opened has no rungs to find the market among
      cases found : (tickers.foldl Ladders.add {}).groups.lookup entry.1 with
      | none =>
        rw [found, Option.getD_none] at folded
        rw [← folded]
        rfl
      | some ladder =>
        rw [found, Option.getD_some] at folded
        rw [Option.map_some, Option.bind_some, folded]
        rfl
  · rw [if_neg member, if_neg member]
    rfl

theorem slope_eq_none_iff {lo hi : ℚ × String} (wide : lo.1 < hi.1) :
    slope deltaMax midOf lo hi = none ↔ midOf lo.2 = none ∨ midOf hi.2 = none ∨
      ∃ midLo midHi, midOf lo.2 = some midLo ∧ midOf hi.2 = some midHi ∧ midLo < midHi := by
  have width : 0 < hi.1 - lo.1 := sub_pos.mpr wide
  cases hasLo : midOf lo.2 with
  | none => simp [slope, hasLo]
  | some midLo =>
    cases hasHi : midOf hi.2 with
    | none => simp [slope, hasLo, hasHi]
    | some midHi =>
      have crossed : 0 ≤ (midLo - midHi) / (hi.1 - lo.1) ↔ ¬ midLo < midHi := by
        rw [le_div_iff₀ width, zero_mul, sub_nonneg, not_lt]
      simp [slope, hasLo, hasHi, wide, guard, crossed]

theorem slope_eq_some {lo hi : ℚ × String} {delta : ℚ}
    (computed : slope deltaMax midOf lo hi = some delta) :
    ∃ midLo midHi, midOf lo.2 = some midLo ∧ midOf hi.2 = some midHi ∧ lo.1 < hi.1 ∧
      0 ≤ (midLo - midHi) / (hi.1 - lo.1) ∧
      delta = min deltaMax ((midLo - midHi) / (hi.1 - lo.1)) := by
  simp only [slope, Option.bind_eq_bind, Option.bind_eq_some_iff, Option.guard_eq_some',
    Option.pure_def, Option.some.injEq, exists_const] at computed
  obtain ⟨midLo, hasLo, midHi, hasHi, width, density, rfl⟩ := computed
  exact ⟨midLo, midHi, hasLo, hasHi, sub_pos.mp width, density, min_comm _ _⟩

/-! ## Distinct strikes -/

/-- No two markets of the group share a strike. -/
def DistinctStrikes (tickers : List String) (group : String) : Prop :=
  ∀ first second strike, Member tickers first group strike → Member tickers second group strike →
    first = second

theorem ranked_rungs (nodup : tickers.Nodup) (distinct : DistinctStrikes tickers group) :
    Ranked Prod.fst (sortBy Prod.fst (rungList tickers group)) := by
  apply ranked_sortBy
  have nodupRungs : (rungList tickers group).Nodup := by
    apply nodup.filterMap
    intro first second rung ofFirst ofSecond
    rw [← (rungOf_eq_some.mp ofFirst).2, ← (rungOf_eq_some.mp ofSecond).2]
  refine nodupRungs.imp_of_mem ?_
  intro a b memberA memberB different same
  have rungA : Member tickers a.2 group a.1 := mem_rungList.mp memberA
  have rungB : Member tickers b.2 group b.1 := mem_rungList.mp memberB
  exact different (Prod.ext same (distinct a.2 b.2 b.1 (same ▸ rungA) rungB))

theorem rungs_injOn (distinct : DistinctStrikes tickers group) :
    Set.InjOn Prod.fst (Rungs tickers group) := by
  rintro ⟨strike, first⟩ memberFirst ⟨_, second⟩ memberSecond rfl
  rw [distinct first second strike memberFirst memberSecond]

theorem rungs_of_sorted : {rung | rung ∈ sortBy Prod.fst (rungList tickers group)} =
    Rungs tickers group := by
  ext rung
  exact (perm_sortBy _).mem_iff.trans mem_rungList

/-- The market is found at its own rung. -/
theorem find_own (member : Member tickers ticker group strike) :
    ∃ i, ∃ inside : i < (sortBy Prod.fst (rungList tickers group)).length,
      (sortBy Prod.fst (rungList tickers group))[i] = (strike, ticker) ∧
      (sortBy Prod.fst (rungList tickers group)).findIdx? (fun rung => rung.2 = ticker) =
        some i := by
  have onLadder : (strike, ticker) ∈ sortBy Prod.fst (rungList tickers group) :=
    (perm_sortBy _).mem_iff.mpr (mem_rungList.mpr member)
  cases found : (sortBy Prod.fst (rungList tickers group)).findIdx?
      fun rung => rung.2 = ticker with
  | none =>
    have missing := List.findIdx?_eq_none_iff.mp found (strike, ticker) onLadder
    simp at missing
  | some i =>
    obtain ⟨inside, named, _⟩ := List.findIdx?_eq_some_iff_getElem.mp found
    have named : (sortBy Prod.fst (rungList tickers group))[i].2 = ticker := by simpa using named
    have rung : Member tickers _ group _ :=
      mem_rungList.mp ((perm_sortBy _).mem_iff.mp (List.getElem_mem inside))
    refine ⟨i, inside, Prod.ext ?_ named, rfl⟩
    have parsed := rung.2
    rw [named, member.2] at parsed
    simpa using parsed.symm

/-- On a ranked ladder the endpoints are the nearest rungs; there are none for a lone rung. -/
theorem endpoints_of_ranked {ladder : List (ℚ × String)} (ranked : Ranked Prod.fst ladder) {i : ℕ}
    (inside : i < ladder.length) (own : ladder[i] = (strike, ticker)) :
    ∃ lo hi, LowerEnd Prod.fst {rung | rung ∈ ladder} (strike, ticker) lo ∧
      UpperEnd Prod.fst {rung | rung ∈ ladder} (strike, ticker) hi ∧
      endpoints ladder i strike ticker =
        if lo = (strike, ticker) ∧ hi = (strike, ticker) then none else some (lo, hi) := by
  have upperOwn (last : i + 1 = ladder.length) :
      UpperEnd Prod.fst {rung | rung ∈ ladder} (strike, ticker) (strike, ticker) := by
    rw [← own]
    exact ranked.upperEnd_last inside last
  have upperNext (more : i + 1 < ladder.length) :
      UpperEnd Prod.fst {rung | rung ∈ ladder} (strike, ticker) ladder[i + 1] := by
    rw [← own]
    exact ranked.upperEnd_succ more
  have higher (more : i + 1 < ladder.length) : ladder[i + 1] ≠ (strike, ticker) := by
    intro same
    have above := ranked.lt_of_lt more (Nat.lt_succ_self i)
    rw [own, same] at above
    exact lt_irrefl _ above
  cases i with
  | zero =>
    have lower := ranked.lowerEnd_zero inside
    rw [own] at lower
    by_cases more : 1 < ladder.length
    · refine ⟨_, _, lower, upperNext more, ?_⟩
      simp [endpoints, List.getElem?_eq_getElem more, higher more]
    · refine ⟨_, _, lower, upperOwn (by omega), ?_⟩
      simp [endpoints, List.getElem?_eq_none (not_lt.mp more)]
  | succ j =>
    have lower := ranked.lowerEnd_succ inside
    have below : ladder[j] ≠ (strike, ticker) := by
      intro same
      have under := ranked.lt_of_lt inside (Nat.lt_succ_self j)
      rw [own, same] at under
      exact lt_irrefl _ under
    rw [own] at lower
    by_cases more : j + 1 + 1 < ladder.length
    · refine ⟨_, _, lower, upperNext more, ?_⟩
      simp [endpoints, List.getElem?_eq_getElem more,
        List.getElem?_eq_getElem (Nat.lt_of_succ_lt inside), below]
    · refine ⟨_, _, lower, upperOwn (by omega), ?_⟩
      simp [endpoints, List.getElem?_eq_none (not_lt.mp more),
        List.getElem?_eq_getElem (Nat.lt_of_succ_lt inside), below]

/-- The delta of a member is the slope over its two ends. -/
theorem deltaFor_member (nodup : tickers.Nodup) (distinct : DistinctStrikes tickers group)
    (member : Member tickers ticker group strike) (deltaMax : ℚ) (midOf : String → Option ℚ) :
    ∃ lo hi, LowerEnd Prod.fst (Rungs tickers group) (strike, ticker) lo ∧
      UpperEnd Prod.fst (Rungs tickers group) (strike, ticker) hi ∧
      (build tickers).deltaFor ticker deltaMax midOf =
        if lo = (strike, ticker) ∧ hi = (strike, ticker) then none
        else slope deltaMax midOf lo hi := by
  obtain ⟨i, inside, own, found⟩ := find_own member
  obtain ⟨lo, hi, lower, upper, ends⟩ :=
    endpoints_of_ranked (ranked_rungs nodup distinct) inside own
  rw [rungs_of_sorted] at lower upper
  refine ⟨lo, hi, lower, upper, ?_⟩
  rw [deltaFor_build, if_pos member.1, member.2, Option.bind_some, readDelta]
  simp only [found, Option.bind_eq_bind, Option.bind_some, ends]
  split_ifs <;> rfl

theorem deltaFor_of_not_member (outside : ∀ group strike, ¬ Member tickers ticker group strike) :
    (build tickers).deltaFor ticker deltaMax midOf = none := by
  rw [deltaFor_build]
  split_ifs with member
  · cases parsed : parseStrike ticker with
    | none => rfl
    | some entry => exact absurd ⟨member, parsed⟩ (outside entry.1 entry.2)
  · rfl

/-! ## The clamped central difference -/

/-- The delta is the slope between the nearest strikes, capped; it is missing where the market is
    no member, stands alone, lacks a mid at an end or sees crossed mids. -/
theorem deltaFor_central (nodup : tickers.Nodup)
    (distinct : ∀ group, DistinctStrikes tickers group) (capped : 0 ≤ deltaMax) (ticker : String)
    (midOf : String → Option ℚ) :
    ((build tickers).deltaFor ticker deltaMax midOf = none ↔
      (∀ group strike, ¬ Member tickers ticker group strike) ∨
      ∃ group strike lo hi, Member tickers ticker group strike ∧
        LowerEnd Prod.fst (Rungs tickers group) (strike, ticker) lo ∧
        UpperEnd Prod.fst (Rungs tickers group) (strike, ticker) hi ∧
        ((lo = (strike, ticker) ∧ hi = (strike, ticker)) ∨ midOf lo.2 = none ∨ midOf hi.2 = none ∨
          ∃ midLo midHi, midOf lo.2 = some midLo ∧ midOf hi.2 = some midHi ∧ midLo < midHi)) ∧
    ∀ delta, (build tickers).deltaFor ticker deltaMax midOf = some delta →
      ∃ group strike lo hi midLo midHi, Member tickers ticker group strike ∧
        LowerEnd Prod.fst (Rungs tickers group) (strike, ticker) lo ∧
        UpperEnd Prod.fst (Rungs tickers group) (strike, ticker) hi ∧
        midOf lo.2 = some midLo ∧ midOf hi.2 = some midHi ∧
        delta = min deltaMax ((midLo - midHi) / (hi.1 - lo.1)) ∧ 0 ≤ delta ∧ delta ≤ deltaMax := by
  by_cases known : ∃ group strike, Member tickers ticker group strike
  · obtain ⟨group, strike, member⟩ := known
    obtain ⟨lo, hi, lower, upper, computed⟩ :=
      deltaFor_member nodup (distinct group) member deltaMax midOf
    rw [computed]
    constructor
    · constructor
      · intro missing
        refine Or.inr ⟨group, strike, lo, hi, member, lower, upper, ?_⟩
        split_ifs at missing with lone
        · exact Or.inl lone
        · exact Or.inr ((slope_eq_none_iff (lower.lt_of_upperEnd upper lone)).mp missing)
      · rintro (outside | ⟨group', strike', lo', hi', member', lower', upper', reason⟩)
        · exact absurd member (outside group strike)
        · -- the ends are unique, so the reason is one about these ends
          obtain ⟨rfl, rfl⟩ : group = group' ∧ strike = strike' := by
            simpa [member.2] using member'.2
          have apart := rungs_injOn (distinct group)
          obtain rfl := lower.unique apart lower'
          obtain rfl := upper.unique apart upper'
          split_ifs with lone
          · rfl
          · exact (slope_eq_none_iff (lower.lt_of_upperEnd upper lone)).mpr
              (reason.resolve_left lone)
    · intro delta found
      split_ifs at found with lone
      obtain ⟨midLo, midHi, hasLo, hasHi, _, density, rfl⟩ := slope_eq_some found
      exact ⟨group, strike, lo, hi, midLo, midHi, member, lower, upper, hasLo, hasHi, rfl,
        le_min capped density, min_le_left _ _⟩
  · have outside : ∀ group strike, ¬ Member tickers ticker group strike := by
      intro group strike member
      exact known ⟨group, strike, member⟩
    rw [deltaFor_of_not_member outside]
    refine ⟨⟨fun _ => Or.inl outside, fun _ => rfl⟩, ?_⟩
    intro delta found
    cases found

/-- Three strikes of one expiry, as a listing serves them. -/
def sampleLadder : List String :=
  ["KXBTCD-26JUL1517-T64250", "KXBTCD-26JUL1517-T64000", "KXBTCD-26JUL1517-T64500"]

theorem deltaFor_central_sample : ∃ delta,
    (build sampleLadder).deltaFor "KXBTCD-26JUL1517-T64250" (1 / 200)
      (fun ticker => if ticker = "KXBTCD-26JUL1517-T64000" then some (4 / 5) else some (1 / 5)) =
        some delta ∧ 0 ≤ delta ∧ delta ≤ 1 / 200 := by
  have distinct : ∀ group, DistinctStrikes sampleLadder group := by
    have apart : ∀ first ∈ sampleLadder, ∀ second ∈ sampleLadder,
        parseStrike first = parseStrike second → first = second := by decide +kernel
    rintro group first second strike ⟨listed, parsed⟩ ⟨listed', parsed'⟩
    exact apart first listed second listed' (parsed.trans parsed'.symm)
  have quoted : ((build sampleLadder).deltaFor "KXBTCD-26JUL1517-T64250" (1 / 200)
      (fun ticker => if ticker = "KXBTCD-26JUL1517-T64000" then some (4 / 5)
        else some (1 / 5))).isSome = true := by decide +kernel
  obtain ⟨delta, found⟩ := Option.isSome_iff_exists.mp quoted
  obtain ⟨_, _, _, _, _, _, _, _, _, _, _, _, nonneg, capped⟩ :=
    (deltaFor_central (by decide +kernel) distinct (by norm_num) _ _).2 delta found
  exact ⟨delta, found, nonneg, capped⟩

/-! ## What else a delta depends on -/

theorem endpoints_strikes {ladder : List (ℚ × String)} {i : ℕ} {lo hi : ℚ × String}
    (level : ∀ rung ∈ ladder, rung.1 = strike)
    (found : endpoints ladder i strike ticker = some (lo, hi)) : lo.1 = strike ∧ hi.1 = strike := by
  have atIndex (j : ℕ) (rung : ℚ × String) (here : ladder[j]? = some rung) : rung.1 = strike :=
    level rung (List.mem_of_getElem? here)
  have below (rung : ℚ × String)
      (here : (if i = 0 then none else ladder[i - 1]?) = some rung) : rung.1 = strike := by
    split_ifs at here
    exact atIndex _ rung here
  unfold endpoints at found
  dsimp only at found
  split at found
  next lower upper => cases found; exact ⟨below _ lower, atIndex _ _ upper⟩
  next lower _ => cases found; exact ⟨below _ lower, rfl⟩
  next _ upper => cases found; exact ⟨rfl, atIndex _ _ upper⟩
  next => cases found

/-- No delta comes of a group whose strikes are all equal. -/
theorem deltaFor_of_level (member : Member tickers ticker group strike)
    (level : ∀ rung ∈ Rungs tickers group, rung.1 = strike) :
    (build tickers).deltaFor ticker deltaMax midOf = none := by
  have levelSorted : ∀ rung ∈ sortBy Prod.fst (rungList tickers group), rung.1 = strike := by
    intro rung onLadder
    exact level rung (mem_rungList.mp ((perm_sortBy _).mem_iff.mp onLadder))
  rw [deltaFor_build, if_pos member.1, member.2, Option.bind_some,
    Option.eq_none_iff_forall_ne_some]
  intro delta found
  simp only [readDelta, Option.bind_eq_bind, Option.bind_eq_some_iff] at found
  obtain ⟨i, _, ends, spanned, sloped⟩ := found
  obtain ⟨_, _, _, _, wide, _⟩ := slope_eq_some sloped
  obtain ⟨low, high⟩ := endpoints_strikes levelSorted spanned
  rw [low, high] at wide
  exact lt_irrefl _ wide

/-- Two strikes of one expiry with equal mids give the smallest delta there is. -/
theorem deltaFor_pair {other : String} {k mark : ℚ} (apart : strike ≠ k)
    (parsed : parseStrike ticker = some (group, strike))
    (parsed' : parseStrike other = some (group, k)) (mid : midOf ticker = some mark)
    (mid' : midOf other = some mark) :
    (build [ticker, other]).deltaFor ticker deltaMax midOf = some (min 0 deltaMax) := by
  have different : other ≠ ticker := by
    rintro rfl
    exact apart (by simpa [parsed] using parsed')
  have pooled : rungList [ticker, other] group = [(strike, ticker), (k, other)] := by
    simp [rungList, rungOf, parsed, parsed']
  rw [deltaFor_build, if_pos (by simp), parsed, Option.bind_some, pooled]
  obtain below | above := lt_or_gt_of_ne apart
  · simp [readDelta, sortBy, endpoints, slope, guard, List.findIdx?_cons, mid, mid', below,
      below.le]
  · simp [readDelta, sortBy, endpoints, slope, guard, List.findIdx?_cons, mid, mid', above,
      above.not_ge, different]

/-- On distinct strikes the delta depends only on which rungs the group has. -/
theorem deltaFor_congr {tickers' : List String} (nodup : tickers.Nodup) (nodup' : tickers'.Nodup)
    (distinct : DistinctStrikes tickers group) (member : Member tickers ticker group strike)
    (same : Rungs tickers group = Rungs tickers' group) :
    (build tickers).deltaFor ticker deltaMax midOf =
      (build tickers').deltaFor ticker deltaMax midOf := by
  have transfer (t : String) (k : ℚ) : Member tickers t group k ↔ Member tickers' t group k :=
    Set.ext_iff.mp same (k, t)
  have distinct' : DistinctStrikes tickers' group := by
    intro first second k ofFirst ofSecond
    exact distinct first second k ((transfer _ _).mpr ofFirst) ((transfer _ _).mpr ofSecond)
  obtain ⟨lo, hi, lower, upper, computed⟩ := deltaFor_member nodup distinct member deltaMax midOf
  obtain ⟨lo', hi', lower', upper', computed'⟩ :=
    deltaFor_member nodup' distinct' ((transfer _ _).mp member) deltaMax midOf
  rw [← same] at lower' upper'
  obtain rfl := lower.unique (rungs_injOn distinct) lower'
  obtain rfl := upper.unique (rungs_injOn distinct) upper'
  rw [computed, computed']

end KalshiMm.Verified.Ladders
