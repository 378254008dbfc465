import Mathlib.Data.Option.Basic
import KalshiMm.Verified.Bookings

/-!
# Which fills are accepted

A price that cannot be read counts as zero and a count that cannot be read as one, so a report is
accepted for what it does not say.  Exactly the reports that are refused for another reason, and
those that carry a price within a dollar and a count of the integer type, are read as they stand.
-/

namespace KalshiMm.Verified.WellFormed

open KalshiMm.Lib KalshiMm.Model

/-! ## Reading a number -/

/-- What a field holds as a number, where it holds a number or a string. -/
def numeric : Option Value → Option (Option F64)
  | some (.number n) => some (some (.finite n))
  | some (.string s) => some (parseFloat s)
  | _ => none

/-- The first of the keys that holds a number or a string holds the number `x`. -/
def Reads (fill : Value) (keys : List String) (x : F64) : Prop :=
  ∃ before key after, keys = before ++ key :: after ∧
    (∀ other ∈ before, numeric (fill.get other) = none) ∧ numeric (fill.get key) = some (some x)

theorem numField_cons (fill : Value) (key : String) (keys : List String) :
    numField fill (key :: keys) = (numeric (fill.get key)).getD (numField fill keys) := by
  rw [numField]
  cases fill.get key with
  | none => rfl
  | some value => cases value <;> rfl

theorem reads_iff (fill : Value) (keys : List String) (x : F64) :
    Reads fill keys x ↔ numField fill keys = some x := by
  induction keys with
  | nil => simp [Reads, numField]
  | cons key keys inductionHypothesis =>
    rw [numField_cons]
    cases held : numeric (fill.get key) with
    | none =>
      rw [Option.getD_none, ← inductionHypothesis]
      constructor
      · rintro ⟨before, first, after, split, others, reads⟩
        cases before with
        | nil =>
          cases split
          rw [held] at reads
          cases reads
        | cons other before =>
          cases split
          exact ⟨before, first, after, rfl, fun o m => others o (List.mem_cons_of_mem _ m), reads⟩
      · rintro ⟨before, first, after, rfl, others, reads⟩
        refine ⟨key :: before, first, after, rfl, ?_, reads⟩
        rw [List.forall_mem_cons]
        exact ⟨held, others⟩
    | some read =>
      rw [Option.getD_some]
      constructor
      · rintro ⟨before, first, after, split, others, reads⟩
        cases before with
        | nil =>
          cases split
          rw [held] at reads
          exact Option.some.inj reads
        | cons other before =>
          cases split
          have none := others key List.mem_cons_self
          rw [held] at none
          cases none
      · rintro rfl
        exact ⟨[], key, keys, rfl, fun _ member => absurd member List.not_mem_nil, held⟩

/-! ## Reports -/

/-- What a report of a fill says. -/
structure Said where
  ticker : String
  action : String
  side : String
  price : ℚ
  count : ℚ

def tickerKeys : List String := ["market_ticker", "ticker"]
def countKeys : List String := ["count_fp", "count"]

def priceKeys (side : String) : List String :=
  if side = "yes" then ["yes_price_dollars", "yes_price"] else ["no_price_dollars", "no_price"]

/-- The record carries all that a fill needs. -/
structure Carries (fill : Value) (said : Said) : Prop where
  ticker : ∃ key ∈ tickerKeys, fill.getStr key = some said.ticker
  named : said.ticker ≠ ""
  action : fill.getStr "action" = some said.action
  traded : said.action = "buy" ∨ said.action = "sell"
  side : fill.getStr "side" = some said.side
  sided : said.side = "yes" ∨ said.side = "no"
  price : Reads fill (priceKeys said.side) (.finite said.price)
  count : Reads fill countKeys (.finite said.count)

/-- The fill is what was said. -/
structure Normal (said : Said) (nf : NormalizedFill) : Prop where
  ticker : nf.ticker = said.ticker
  price : nf.priceYes = if said.side = "yes" then said.price else 1 - said.price
  low : 0 ≤ nf.priceYes
  high : nf.priceYes ≤ 1
  size : nf.size = roundTiesEven said.count
  positive : 1 ≤ nf.size
  direction : nf.longYes = decide (said.action = "buy")

/-- An accepted record says what the fill is; one without a price within a dollar or without a
    count is refused, and books nothing. -/
structure AcceptsWellFormed (fill : Value) : Prop where
  accepted : ∀ nf, normalizeFill fill = some nf → ∃ said, Carries fill said ∧ Normal said nf
  rejected : (¬ ∃ said, Carries fill said ∧ 0 ≤ said.price ∧ said.price ≤ 1) →
    normalizeFill fill = none ∧ ∀ out (tr : Trader), tr.processFill out fill = tr

/-- What the source refuses a record for. -/
inductive Refused (fill : Value) : Prop where
  | ticker (unnamed : strField fill tickerKeys = none)
  | action (other : fill.getStr "action" ≠ some "buy" ∧ fill.getStr "action" ≠ some "sell")
  | side (other : fill.getStr "side" ≠ some "yes" ∧ fill.getStr "side" ≠ some "no")
  | count (x : F64) (reads : Reads fill countKeys x) (small : x.roundToI64 ≤ 0)

/-! ## What the source reads -/

/-- The price that the source reads for a side: zero where there is none to read. -/
def priceOf (fill : Value) (side : String) : ℚ :=
  ((numField fill (priceKeys side)).bind F64.toRat).getD 0

/-- The contracts that the source reads: one where there is no count to read. -/
def sizeOf (fill : Value) : ℤ := ((numField fill countKeys).getD (.finite 1)).roundToI64

/-- What the source accepts, field by field. -/
structure ReadsAs (fill : Value) (ticker action side : String) (nf : NormalizedFill) : Prop where
  tickerRead : strField fill tickerKeys = some ticker
  actionRead : fill.getStr "action" = some action
  traded : action = "buy" ∨ action = "sell"
  sideRead : fill.getStr "side" = some side
  sided : side = "yes" ∨ side = "no"
  named : nf.ticker = ticker
  price : nf.priceYes = if side = "yes" then priceOf fill side else 1 - priceOf fill side
  size : nf.size = sizeOf fill
  positive : 0 < nf.size
  direction : nf.longYes = decide (action = "buy")

/-- A word that is read was held: an absent field reads as the empty one. -/
theorem getD_getStr_iff {fill : Value} {key word : String} (filled : word ≠ "") :
    (fill.getStr key).getD "" = word ↔ fill.getStr key = some word := by
  cases fill.getStr key with
  | none =>
    rw [Option.getD_none]
    exact iff_of_false (Ne.symm filled) (fun held => by cases held)
  | some other => rw [Option.getD_some, Option.some.injEq]

theorem readsAs_of_accepted {fill : Value} {nf : NormalizedFill}
    (normal : normalizeFill fill = some nf) :
    ∃ ticker action side, ReadsAs fill ticker action side nf := by
  unfold normalizeFill at normal
  obtain ⟨ticker, tickerRead, normal⟩ := Option.bind_eq_some_iff.mp normal
  obtain ⟨_, legible, normal⟩ := Option.bind_eq_some_iff.mp normal
  obtain ⟨_, positive, normal⟩ := Option.bind_eq_some_iff.mp normal
  obtain ⟨traded, sided⟩ := (Option.guard_eq_some' _).mp legible
  have positive := (Option.guard_eq_some' _).mp positive
  cases normal
  have actionRead : fill.getStr "action" = some ((fill.getStr "action").getD "") := by
    rcases traded with buy | sell
    · rw [buy]
      exact (getD_getStr_iff (by decide)).mp buy
    · rw [sell]
      exact (getD_getStr_iff (by decide)).mp sell
  have sideRead : fill.getStr "side" = some ((fill.getStr "side").getD "") := by
    rcases sided with yes | no
    · rw [yes]
      exact (getD_getStr_iff (by decide)).mp yes
    · rw [no]
      exact (getD_getStr_iff (by decide)).mp no
  refine ⟨ticker, _, _, tickerRead, actionRead, traded, sideRead, sided, rfl, ?_, rfl, positive,
    rfl⟩
  unfold priceOf priceKeys
  split_ifs with yes
  · rfl
  · rfl

theorem sizeOf_pos {fill : Value}
    (counts : ∀ x, Reads fill countKeys x → 0 < x.roundToI64) : 0 < sizeOf fill := by
  unfold sizeOf
  cases counted : numField fill countKeys with
  | none => decide +kernel
  | some x => exact counts x ((reads_iff fill countKeys x).mpr counted)

theorem accepted_of_not_refused {fill : Value} (accepted : ¬ Refused fill) :
    normalizeFill fill ≠ none := by
  intro refused
  obtain ⟨ticker, tickerRead⟩ : ∃ ticker, strField fill tickerKeys = some ticker :=
    Option.ne_none_iff_exists'.mp fun unnamed => accepted (.ticker unnamed)
  have traded : (fill.getStr "action").getD "" = "buy" ∨
      (fill.getStr "action").getD "" = "sell" := by
    by_contra other
    obtain ⟨buy, sell⟩ := not_or.mp other
    rw [getD_getStr_iff (by decide)] at buy sell
    exact accepted (.action ⟨buy, sell⟩)
  have sided : (fill.getStr "side").getD "" = "yes" ∨ (fill.getStr "side").getD "" = "no" := by
    by_contra other
    obtain ⟨yes, no⟩ := not_or.mp other
    rw [getD_getStr_iff (by decide)] at yes no
    exact accepted (.side ⟨yes, no⟩)
  have positive : 0 < sizeOf fill :=
    sizeOf_pos fun x counted => not_le.mp fun small => accepted (.count x counted small)
  -- the guards in the order of the source, then the fill itself
  unfold normalizeFill at refused
  have signed := Option.bind_eq_none_iff.mp refused ticker tickerRead
  have sized := Option.bind_eq_none_iff.mp signed ()
    ((Option.guard_eq_some' _).mpr ⟨traded, sided⟩)
  have none := Option.bind_eq_none_iff.mp sized () ((Option.guard_eq_some' _).mpr positive)
  cases none

theorem not_refused_of_accepted {fill : Value} {nf : NormalizedFill}
    (normal : normalizeFill fill = some nf) : ¬ Refused fill := by
  intro refused
  obtain ⟨ticker, action, side, reads⟩ := readsAs_of_accepted normal
  cases refused with
  | ticker unnamed =>
    rw [reads.tickerRead] at unnamed
    cases unnamed
  | action other =>
    rcases reads.traded with rfl | rfl
    · exact other.1 reads.actionRead
    · exact other.2 reads.actionRead
  | side other =>
    rcases reads.sided with rfl | rfl
    · exact other.1 reads.sideRead
    · exact other.2 reads.sideRead
  | count x counted small =>
    have positive := reads.positive
    rw [reads.size, sizeOf, (reads_iff fill countKeys x).mp counted, Option.getD_some] at positive
    omega

/-- The source refuses a record exactly for its ticker, its action, its side or its count. -/
theorem refused_iff (fill : Value) : normalizeFill fill = none ↔ Refused fill := by
  constructor
  · intro rejected
    by_contra accepted
    exact accepted_of_not_refused accepted rejected
  · intro refused
    rw [Option.eq_none_iff_forall_ne_some]
    intro nf normal
    exact not_refused_of_accepted normal refused

/-! ## The condition -/

/-- A record from which everything can be read: a price within a dollar and a count of the type. -/
def Legible (fill : Value) : Prop :=
  ∃ said, Carries fill said ∧ 0 ≤ said.price ∧ said.price ≤ 1 ∧ roundTiesEven said.count < 2 ^ 63

theorem strField_mem {fill : Value} {keys : List String} {s : String}
    (read : strField fill keys = some s) : s ≠ "" ∧ ∃ key ∈ keys, fill.getStr key = some s := by
  obtain ⟨found, filled⟩ := Option.filter_eq_some_iff.mp read
  obtain ⟨key, member, held⟩ := List.exists_of_findSome?_eq_some found
  exact ⟨of_decide_eq_true filled, key, member, held⟩

/-- What a legible record is read as is what it says. -/
theorem normal_of_legible {fill : Value} {nf : NormalizedFill}
    (normal : normalizeFill fill = some nf) (legible : Legible fill) :
    ∃ said, Carries fill said ∧ Normal said nf := by
  obtain ⟨said, carries, low, high, small⟩ := legible
  obtain ⟨ticker, action, side, reads⟩ := readsAs_of_accepted normal
  obtain ⟨filled, held⟩ := strField_mem reads.tickerRead
  obtain rfl : said.action = action :=
    Option.some.inj (carries.action.symm.trans reads.actionRead)
  obtain rfl : said.side = side := Option.some.inj (carries.side.symm.trans reads.sideRead)
  have price : priceOf fill said.side = said.price := by
    rw [priceOf, (reads_iff _ _ _).mp carries.price, Option.bind_some, F64.toRat_finite,
      Option.getD_some]
  have size : nf.size = toI64 (roundTiesEven said.count) := by
    rw [reads.size, sizeOf, (reads_iff _ _ _).mp carries.count, Option.getD_some,
      F64.roundToI64_finite]
  have positive := reads.positive
  refine ⟨{ said with ticker := ticker }, { carries with ticker := held, named := filled },
    reads.named, ?_, ?_, ?_, ?_, positive, reads.direction⟩
  · rw [reads.price, price]
  · rw [reads.price, price]
    split_ifs
    · exact low
    · linarith
  · rw [reads.price, price]
    split_ifs
    · exact high
    · linarith
  · change nf.size = roundTiesEven said.count
    rw [size] at positive ⊢
    unfold toI64 at positive ⊢
    omega

/-- What is read as it stands was legible. -/
theorem legible_of_normal {fill : Value} {nf : NormalizedFill} {said : Said}
    (normal : normalizeFill fill = some nf) (carries : Carries fill said)
    (same : Normal said nf) : Legible fill := by
  obtain ⟨_, _, _, reads⟩ := readsAs_of_accepted normal
  obtain ⟨low, high⟩ : 0 ≤ said.price ∧ said.price ≤ 1 := by
    have low := same.low
    have high := same.high
    rw [same.price] at low high
    split_ifs at low high
    · exact ⟨low, high⟩
    · constructor
      · linarith
      · linarith
  refine ⟨said, carries, low, high, ?_⟩
  rw [← same.size, reads.size, sizeOf, (reads_iff _ _ _).mp carries.count, Option.getD_some,
    F64.roundToI64_finite, toI64]
  omega

/-- Every report is refused or read as it stands exactly where the source refuses it for another
    reason than its price, or everything can be read. -/
theorem accepts_wellFormed_iff (fill : Value) :
    AcceptsWellFormed fill ↔ Refused fill ∨ Legible fill := by
  constructor
  · intro accepts
    cases normal : normalizeFill fill with
    | none => exact Or.inl ((refused_iff fill).mp normal)
    | some nf =>
      obtain ⟨said, carries, same⟩ := accepts.accepted nf normal
      exact Or.inr (legible_of_normal normal carries same)
  · rintro (refused | legible)
    · have none := (refused_iff fill).mpr refused
      refine ⟨fun nf normal => ?_, fun _ => ⟨none, fun out tr => ?_⟩⟩
      · rw [none] at normal
        cases normal
      · rw [Trader.processFill, none]
    · refine ⟨fun nf normal => normal_of_legible normal legible, fun illegible => ?_⟩
      obtain ⟨said, carries, low, high, _⟩ := legible
      exact absurd ⟨said, carries, low, high⟩ illegible

/-- Two contracts bought, at a price that the report leaves out. -/
def unpriced : Value :=
  .object [("trade_id", .string "t-1"), ("market_ticker", .string "KXADP-26JUL-T0"),
    ("action", .string "buy"), ("side", .string "yes"), ("count", .number 2)]

/-- They are accepted at a price of zero. -/
theorem unpriced_accepted :
    ((normalizeFill unpriced).map fun nf => (nf.priceYes, nf.size)) = some (0, 2) ∧
      ¬ AcceptsWellFormed unpriced := by
  have accepted : ((normalizeFill unpriced).map fun nf => (nf.priceYes, nf.size)) = some (0, 2) := by
    decide +kernel
  refine ⟨accepted, fun accepts => ?_⟩
  obtain ⟨nf, normal, _⟩ := Option.map_eq_some_iff.mp accepted
  obtain ⟨said, carries, _⟩ := accepts.accepted nf normal
  have side : said.side = "yes" := Option.some.inj carries.side.symm
  have price := (reads_iff _ _ _).mp carries.price
  rw [side] at price
  have missing : numField unpriced (priceKeys "yes") = none := by decide +kernel
  rw [missing] at price
  cases price

end KalshiMm.Verified.WellFormed
