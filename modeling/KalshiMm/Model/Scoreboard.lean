import Mathlib.Algebra.BigOperators.Group.Finset.Basic
import KalshiMm.Lib.FiniteMap
import KalshiMm.Model.Json

/-!
# The scoreboard (`scripts/daily_pnl.py`)

The exchange's own fills and settlements, tallied by market and booked on the days on which the
markets settled; what has not settled is a bucket of its own.  A record that the script cannot read
aborts it, so a read is an option.  The dictionaries are finite maps: the order in which their items
are added up does not matter to exact sums.
-/

namespace KalshiMm.Model.Scoreboard

open KalshiMm.Lib

/-- The categories that are scored. -/
def cats : List String := ["KXBTCD", "KXWCGAME", "KXADP", "KXAAAGASM"]

def scored (ticker : String) : Bool := cats.any fun cat => cat.toList <+: ticker.toList

/-- The start of the scoreboard's window, in epoch seconds. -/
def deployTs : ℚ := 1784561392

/-- `float(x)`, of what is finite. -/
def pyFloat : Value → Option ℚ
  | .number n => some n
  | .string s => parseF64 s
  | .bool b => some (if b then 1 else 0)
  | _ => none

/-- `x.get(key, "")` where a string is expected. -/
def textOf (record : Value) (key : String) : Option String :=
  match record.get key with
  | none => some ""
  | some (.string s) => some s
  | some _ => none

/-- What counts as false. -/
def falsy : Value → Bool
  | .null => true
  | .bool b => !b
  | .number n => n = 0
  | .string s => s = ""
  | .array items => items.isEmpty
  | .object fields => fields.isEmpty

/-- `float(f.get("fee_cost", 0) or 0)`. -/
def feeCost (fill : Value) : Option ℚ :=
  match fill.get "fee_cost" with
  | none => some 0
  | some v => if falsy v then some 0 else pyFloat v

/-! ## Fills -/

/-- What a market's fills come to, in the YES frame. -/
structure Tally where
  net : ℚ := 0
  cash : ℚ := 0
  fees : ℚ := 0
deriving DecidableEq

def Tally.add (p : Tally) (signed price fee : ℚ) : Tally :=
  { net := p.net + signed, cash := p.cash - signed * price, fees := p.fees + fee }

def tallyFill (per : Dict String Tally) (fill : Value) : Option (Dict String Tally) := do
  let ticker ← textOf fill "ticker"
  if scored ticker then
    let n ← (fill.get "count_fp").bind pyFloat
    let action ← fill.get "action"
    let signed := if action.asStr = some "buy" then n else -n
    let price ← (fill.get "yes_price_dollars").bind pyFloat
    let fee ← feeCost fill
    pure (per.insert ticker (((per.lookup ticker).getD {}).add signed price fee))
  else pure per

/-! ## Settlements -/

/-- Note a market's day and whether it settled at YES.  `isoTs` parses a settlement time, to epoch
    seconds and the day. -/
def noteSettlement (isoTs : String → Option (ℚ × ℤ)) (settled : Dict String (ℤ × Bool))
    (record : Value) : Option (Dict String (ℤ × Bool)) := do
  let ticker ← textOf record "ticker"
  if scored ticker then
    match record.get "settled_time" with
    | none => pure settled
    | some value =>
      if falsy value then pure settled
      else
        let (timestamp, day) ← value.asStr.bind isoTs
        if deployTs ≤ timestamp then
          pure (settled.insert ticker (day, record.getStr "market_result" = some "yes"))
        else pure settled
  else pure settled

/-! ## The board -/

structure Board where
  per : Dict String Tally
  settled : Dict String (ℤ × Bool)

def read (isoTs : String → Option (ℚ × ℤ)) (fills setts : List Value) : Option Board := do
  let per ← fills.foldlM tallyFill ∅
  let settled ← setts.foldlM (noteSettlement isoTs) ∅
  pure { per, settled }

namespace Board

def pnl (p : Tally) (yes : Bool) : ℚ := p.cash + p.net * (if yes then 1 else 0) - p.fees

/-- What a market adds to a day. -/
def share (board : Board) (day : ℤ) (ticker : String) (p : Tally) : ℚ :=
  match board.settled.lookup ticker with
  | some (settledOn, yes) => if settledOn = day then pnl p yes else 0
  | none => 0

/-- What is booked on a day. -/
def byDay (board : Board) (day : ℤ) : ℚ := Dict.sumOf (board.share day) board.per

/-- The days on which something is booked. -/
def days (board : Board) : Finset ℤ :=
  board.per.keys.biUnion fun ticker => ((board.settled.lookup ticker).map Prod.fst).toFinset

def total (board : Board) : ℚ := ∑ day ∈ board.days, board.byDay day

def pendingCash (board : Board) : ℚ :=
  Dict.sumOf (fun ticker p => if board.settled.lookup ticker = none then p.cash - p.fees else 0)
    board.per

end Board

end KalshiMm.Model.Scoreboard
