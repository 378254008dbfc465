import KalshiMm.Model.Client
import KalshiMm.Verified.OrderFlow

/-!
# Orders on the wire

A number that is written with a fixed number of decimals reads back as the number rounded there.  All
prices are decided in tenths of a cent and all sizes in contracts, so the body of every order says
exactly what was decided.
-/

namespace KalshiMm.Verified.WireFormat

open KalshiMm.Lib KalshiMm.Model

/-! ## Digits -/

theorem digitValue_of_isDigit {c : Char} (digit : c.isDigit = true) :
    digitValue c = some (c.toNat - '0'.toNat) := by
  unfold digitValue
  rw [if_pos]
  simpa [Char.isDigit, Char.le_def, UInt32.le_iff_toNat_le] using digit

/-- Digits are taken up to the first character that is none. -/
theorem takeDigits_append {digits rest : List Char} (all : ∀ c ∈ digits, c.isDigit = true)
    (stops : (takeDigits rest).1 = []) :
    takeDigits (digits ++ rest) = (digits.map fun c => c.toNat - '0'.toNat, rest) := by
  induction digits with
  | nil =>
    cases rest with
    | nil => rfl
    | cons c rest =>
      rw [List.nil_append, takeDigits] at *
      cases taken : digitValue c with
      | none => rfl
      | some d => rw [taken] at stops; cases stops
  | cons c digits inductionHypothesis =>
    obtain ⟨first, others⟩ := List.forall_mem_cons.mp all
    rw [List.cons_append, takeDigits, digitValue_of_isDigit first, inductionHypothesis others]
    rfl

theorem digitsToNat_eq (digits : List Char) :
    digitsToNat (digits.map fun c => c.toNat - '0'.toNat) = Nat.ofDigitChars 10 digits 0 := by
  rw [digitsToNat, List.foldl_map, Nat.ofDigitChars_eq_foldl]

/-! ## Reading back -/

theorem takeSign_of_isDigit {c : Char} (digit : c.isDigit = true) (rest : List Char) :
    takeSign (c :: rest) = (false, c :: rest) := by
  unfold takeSign
  split
  next same =>
    cases same
    cases digit
  next same =>
    cases same
    cases digit
  next => rfl

/-- A sign, digits, a point and digits read as the digits scaled by the place of the point. -/
theorem parseF64_decimal {negative : Prop} [Decidable negative] {whole fraction : List Char}
    {s : String}
    (text : s.toList = (if negative then ['-'] else []) ++ (whole ++ '.' :: fraction))
    (some_ : whole ≠ []) (wholeDigits : ∀ c ∈ whole, c.isDigit = true)
    (fractionDigits : ∀ c ∈ fraction, c.isDigit = true) :
    parseF64 s =
      let magnitude : ℚ := Nat.ofDigitChars 10 (whole ++ fraction) 0 / 10 ^ fraction.length
      some (if negative then -magnitude else magnitude) := by
  have signed : takeSign s.toList = (decide negative, whole ++ '.' :: fraction) := by
    rw [text]
    by_cases minus : negative
    · rw [if_pos minus, decide_eq_true minus]
      rfl
    · rw [if_neg minus, decide_eq_false minus]
      cases whole with
      | nil => exact absurd rfl some_
      | cons c whole => exact takeSign_of_isDigit (wholeDigits c List.mem_cons_self) _
  have fractionTaken : takeDigits (fraction ++ []) = _ := takeDigits_append fractionDigits rfl
  rw [List.append_nil] at fractionTaken
  have scaled (n : ℕ) : (n : ℚ) * 10 ^ (0 - (fraction.length : ℤ)) = n / 10 ^ fraction.length := by
    rw [zero_sub, zpow_neg, zpow_natCast, div_eq_mul_inv]
  unfold parseF64
  rw [signed]
  dsimp only
  rw [takeDigits_append wholeDigits rfl]
  simp only [fractionTaken]
  rw [if_neg (by simp [some_]), ← List.map_append, digitsToNat_eq, List.length_map]
  simp only [parseExponent, Option.map_some, scaled, decide_eq_true_eq]

theorem isDigit_of_mem_repr {n : ℕ} {c : Char} (member : c ∈ n.repr.toList) : c.isDigit = true := by
  rw [Nat.toList_repr] at member
  exact Nat.isDigit_of_mem_toDigits (by decide) (by decide) member

/-- The digits behind the point: as many as there are places, and the number they say. -/
def fractionDigits (places n : ℕ) : List Char :=
  List.replicate (places - n.repr.length) '0' ++ n.repr.toList

theorem isDigit_of_mem_fractionDigits {places n : ℕ} {c : Char}
    (member : c ∈ fractionDigits places n) : c.isDigit = true := by
  obtain zeros | digits := List.mem_append.mp member
  · rw [List.eq_of_mem_replicate zeros]
    rfl
  · exact isDigit_of_mem_repr digits

theorem length_fractionDigits {places n : ℕ} (positive : 0 < places) (below : n < 10 ^ places) :
    (fractionDigits places n).length = places := by
  have fits := (Nat.length_repr_le_iff positive).mpr below
  rw [fractionDigits, List.length_append, List.length_replicate, String.length_toList]
  omega

theorem ofDigitChars_fractionDigits {places whole n : ℕ} (positive : 0 < places)
    (below : n < 10 ^ places) :
    Nat.ofDigitChars 10 (whole.repr.toList ++ fractionDigits places n) 0 =
      10 ^ places * whole + n := by
  rw [Nat.ofDigitChars_append, Nat.toList_repr, Nat.ofDigitChars_ten_toDigits,
    Nat.ofDigitChars_eq_ofDigitChars_zero, length_fractionDigits positive below, fractionDigits,
    Nat.ofDigitChars_append, Nat.ofDigitChars_replicate_zero, Nat.mul_zero, Nat.toList_repr,
    Nat.ofDigitChars_ten_toDigits]

theorem toList_formatFixed (places : ℕ) (x : ℚ) :
    (formatFixed places x).toList =
      (if x < 0 then ['-'] else []) ++
        (((roundTiesEven (|x| * 10 ^ places)).natAbs / 10 ^ places).repr.toList ++ '.' ::
          fractionDigits places ((roundTiesEven (|x| * 10 ^ places)).natAbs % 10 ^ places)) := by
  unfold formatFixed fractionDigits
  split_ifs <;> simp

/-- A number that is written with a fixed number of decimals reads back rounded there. -/
theorem parseF64_formatFixed {places : ℕ} (positive : 0 < places) (x : ℚ) :
    parseF64 (formatFixed places x) = some (roundTo roundTiesEven (10 ^ places) x) := by
  have scale : (0 : ℚ) ≤ 10 ^ places := by positivity
  have nonneg : 0 ≤ roundTiesEven (|x| * 10 ^ places) := by
    exact_mod_cast roundTiesEven_isNearest.le_of_le (n := 0) (x := |x| * 10 ^ places)
      (by rw [Int.cast_zero]; exact mul_nonneg (abs_nonneg x) scale)
  set scaled := (roundTiesEven (|x| * 10 ^ places)).natAbs with rounded
  have magnitude : ((scaled : ℤ) : ℚ) = roundTiesEven (|x| * 10 ^ places) := by
    rw [rounded, Int.natCast_natAbs, abs_of_nonneg nonneg]
  have below : scaled % 10 ^ places < 10 ^ places := Nat.mod_lt _ (by positivity)
  have text := toList_formatFixed places x
  rw [← rounded] at text
  rw [parseF64_decimal text (by simp) (fun _ => isDigit_of_mem_repr)
    (fun _ => isDigit_of_mem_fractionDigits), ofDigitChars_fractionDigits positive below,
    length_fractionDigits positive below, Nat.div_add_mod]
  dsimp only
  unfold roundTo
  congr 1
  by_cases negative : x < 0
  · have turned : roundTiesEven (x * 10 ^ places) = -roundTiesEven (|x| * 10 ^ places) := by
      rw [← roundTiesEven_neg, abs_of_neg negative, neg_mul, neg_neg]
    rw [if_pos negative, turned, Int.cast_neg, ← magnitude, neg_div, Int.cast_natCast]
  · rw [abs_of_nonneg (not_lt.mp negative)] at magnitude
    rw [if_neg negative, ← magnitude, Int.cast_natCast]

/-- A price is written to a tenth of a cent, whichever of the two widths it gets. -/
theorem parseF64_formatPrice (dollars : ℚ) :
    parseF64 (formatPrice dollars) = some (roundTo roundTiesEven 1000 dollars) := by
  have mills : (10 : ℚ) ^ 3 = 1000 := by norm_num
  unfold formatPrice
  dsimp only
  split_ifs with subpenny
  · rw [parseF64_formatFixed (by decide), mills]
  · -- a whole cent is not moved by the finer grid
    have whole : dollars = roundTo roundTiesEven (10 ^ 2) dollars := not_not.mp subpenny
    have cents : OnGrid (10 ^ 2) dollars := by
      rw [whole]
      exact OnGrid.roundTo _ (by norm_num) dollars
    have finer := cents.finer 10
    rw [show (10 : ℚ) ^ 2 * (10 : ℤ) = 1000 by norm_num] at finer
    rw [parseF64_formatFixed (by decide), ← whole,
      roundTo_of_grid roundTiesEven_isNearest (by norm_num) finer]

example : [2 / 5, 501 / 1000, 1 / 20].map formatPrice = ["0.40", "0.501", "0.05"] := by decide +kernel

/-! ## Decided prices -/

theorem onGrid_roundDp (x : ℚ) : OnGrid 10 (roundDp x 1) := by
  have grid : OnGrid (10 ^ 1) (roundDp x 1) := OnGrid.roundTo roundTiesEven (by norm_num) x
  rwa [pow_one] at grid

theorem onGrid_toCents (tick dollars : ℚ) : OnGrid 10 (toCents tick dollars) := by
  unfold toCents
  split_ifs
  · exact onGrid_roundDp _
  · exact ⟨roundHalfAway (dollars * 100) * 10, by push_cast; rfl⟩

theorem onGrid_crossingExit {ts : TickerState} {reason : ExitReason} {plan : ExitPlan}
    (crosses : crossingExit ts reason = some plan) : OnGrid 10 plan.priceCents := by
  unfold crossingExit at crosses
  split_ifs at crosses
  · obtain ⟨_, _, rfl⟩ := Option.map_eq_some_iff.mp crosses
    exact onGrid_roundDp _
  · obtain ⟨_, _, rfl⟩ := Option.map_eq_some_iff.mp crosses
    exact onGrid_roundDp _

theorem onGrid_of_ordered {env : Env} {out : Outside} {tr : Trader} {request : OrderRequest}
    (ordered : Ordered env out tr request) : OnGrid 10 request.priceCents := by
  cases ordered with
  | quote _ planned side _ =>
    obtain ⟨_, _, _, _, rfl⟩ := planOf_some planned
    cases side
    · exact onGrid_toCents _ _
    · exact onGrid_toCents _ _
  | exit _ exits =>
    obtain ⟨_, _, crosses, rfl⟩ := exits.crosses
    exact onGrid_crossingExit crosses

theorem passive_of_ordered {env : Env} {out : Outside} {tr : Trader} {request : OrderRequest}
    (ordered : Ordered env out tr request) :
    request.postOnly = decide (request.timeInForce = .goodTillCanceled) := by
  cases ordered with
  | quote _ _ side _ => cases side <;> rfl
  | exit _ exits =>
    obtain ⟨_, _, _, rfl⟩ := exits.crosses
    rfl

/-! ## Bodies -/

/-- The body says what was decided, and that the order is passive exactly when it may rest. -/
structure Says (body : Value) (request : OrderRequest) : Prop where
  ticker : body.getStr "ticker" = some request.ticker
  side : body.getStr "side" = some (if request.side = .buy then "bid" else "ask")
  price : jsonF64 (body.get "price") = some (request.priceCents / 100)
  count : jsonF64 (body.get "count") = some (request.size : ℚ)
  timeInForce : body.getStr "time_in_force" = some request.timeInForce.name
  passive : (body.get "post_only").bind Value.asBool =
    some (decide (request.timeInForce = .goodTillCanceled))

theorem says_orderBody {request : OrderRequest} (tenths : OnGrid 10 request.priceCents)
    (passive : request.postOnly = decide (request.timeInForce = .goodTillCanceled)) (nowMs : ℕ) :
    Says (orderBody nowMs request) request where
  ticker := rfl
  side := by
    unfold orderBody
    cases request.side <;> rfl
  price := by
    have mills : OnGrid 1000 (request.priceCents / 100) := by
      obtain ⟨n, grid⟩ := tenths
      exact ⟨n, by rw [← grid]; ring⟩
    have read := parseF64_formatPrice (request.priceCents / 100)
    rwa [roundTo_of_grid roundTiesEven_isNearest (by norm_num) mills] at read
  count := by
    have whole : OnGrid (10 ^ 2) (request.size : ℚ) :=
      ⟨request.size * 100, by push_cast; norm_num⟩
    have read := parseF64_formatFixed (by decide : 0 < 2) (request.size : ℚ)
    rwa [roundTo_of_grid roundTiesEven_isNearest (by norm_num) whole] at read
  timeInForce := rfl
  passive := congrArg some passive

/-- In every run, from whatever trader it starts, the body of every order that is sent says what
    was decided. -/
theorem sent_orders_read_back (env : Env) (start : Trader) (moves : List Move) :
    Along (Trader.move env) (fun tr m => ∀ request reply,
      OrderCall.place request reply ∈ (tr.carryOut env m).calls →
        ∀ nowMs, Says (orderBody nowMs request) request) start moves := by
  refine along_of_always (fun tr m request reply sent nowMs => ?_) start moves
  have ordered := ordered_of_sent sent
  exact says_orderBody (onGrid_of_ordered ordered) (passive_of_ordered ordered) nowMs

end KalshiMm.Verified.WireFormat
