import Mathlib.Data.List.Sort
import KalshiMm.Lib.FiniteMap
import KalshiMm.Model.Json

/-!
# Strike ladders (`ladder.rs`)

Threshold tickers read `SERIES-EXPIRY-T<strike>`; a ladder collects the strikes of one expiry.
-/

namespace KalshiMm.Model

open KalshiMm.Lib

/-- `str::split` on one character. -/
def splitChars (separator : Char) : List Char → List (List Char)
  | [] => [[]]
  | c :: rest =>
    if c = separator then [] :: splitChars separator rest
    else
      match splitChars separator rest with
      | [] => [[c]]
      | piece :: pieces => (c :: piece) :: pieces

def splitDash (s : String) : List String := (splitChars '-' s.toList).map String.ofList

/-- Expiry group and strike of a threshold ticker. -/
def parseStrike (ticker : String) : Option (String × ℚ) :=
  match splitDash ticker with
  | [_, expiry, leg] =>
    match leg.toList with
    | 'T' :: digits =>
      if expiry = "" then none
      else (parseF64 (String.ofList digits)).map fun strike => (expiry, strike)
    | _ => none
  | _ => none

/-- Worst-case losses of a ladder's open positions: above and below every strike. -/
def tailLosses (entries : Multiset (ℤ × ℚ)) : ℚ × ℚ :=
  let upPnl := (entries.map fun (pos, mark) => (pos : ℚ) * (1 - mark)).sum
  let downPnl := (entries.map fun (pos, mark) => -((pos : ℚ) * mark)).sum
  (max (-upPnl) 0, max (-downPnl) 0)

def ladderPrefix (ticker : String) : Option String :=
  (parseStrike ticker).map fun _ =>
    match splitDash ticker with
    | series :: expiry :: _ => series ++ "-" ++ expiry
    | _ => ""

/-- Per-expiry strike ladders; each group is sorted by strike. -/
structure Ladders where
  groups : Dict String (List (ℚ × String)) := ∅
  byTicker : Dict String (String × ℚ) := ∅

namespace Ladders

def add (out : Ladders) (ticker : String) : Ladders :=
  match parseStrike ticker with
  | some (group, strike) =>
    { groups := out.groups.insert group ((out.groups.lookup group).getD [] ++ [(strike, ticker)])
      byTicker := out.byTicker.insert ticker (group, strike) }
  | none => out

def build (tickers : List String) : Ladders :=
  let out := tickers.foldl add {}
  { out with groups := Dict.mapValues (fun _ ladder => ladder.insertionSort (·.1 ≤ ·.1)) out.groups }

/-- The endpoints of the difference at index `i`: the neighbours, or the ticker itself where one
    is missing. -/
def endpoints (ladder : List (ℚ × String)) (i : ℕ) (strike : ℚ) (ticker : String) :
    Option ((ℚ × String) × (ℚ × String)) :=
  let lower := if i = 0 then none else ladder[i - 1]?
  let upper := ladder[i + 1]?
  match lower, upper with
  | some lo, some hi => some (lo, hi)
  | some lo, none => some (lo, (strike, ticker))
  | none, some hi => some ((strike, ticker), hi)
  | none, none => none

/-- Central-difference delta of a ticker, in `[0, deltaMax]`; `none` for orphans and junk. -/
def deltaFor (ladders : Ladders) (ticker : String) (deltaMax : ℚ) (midOf : String → Option ℚ) :
    Option ℚ := do
  let (group, strike) ← ladders.byTicker.lookup ticker
  let ladder ← ladders.groups.lookup group
  let i ← ladder.findIdx? fun rung => rung.2 = ticker
  let (lo, hi) ← endpoints ladder i strike ticker
  let midLo ← midOf lo.2
  let midHi ← midOf hi.2
  let width := hi.1 - lo.1
  guard (0 < width)
  let density := (midLo - midHi) / width
  guard (0 ≤ density)
  pure (min density deltaMax)

end Ladders

end KalshiMm.Model
