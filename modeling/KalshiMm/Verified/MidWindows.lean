import KalshiMm.Lib.Recent
import KalshiMm.Model.Book

/-!
# The cadence of the mids

The calls are cut into windows of a minute, each from its first call on.  The history that
`sampleMid` keeps is the last mid of each window, of the latest twenty.
-/

namespace KalshiMm.Verified.MidWindows

open KalshiMm.Lib KalshiMm.Model

/-- One call of `sampleMid`. -/
structure MidCall where
  nowTs : ℚ
  mid : ℚ

/-- A window's calls, the first one apart. -/
structure MidWindow where
  first : MidCall
  rest : List MidCall := []

def MidWindow.lastMid (window : MidWindow) : ℚ := (window.rest.getLast?.getD window.first).mid

def MidWindow.add (window : MidWindow) (call : MidCall) : MidWindow :=
  { window with rest := window.rest ++ [call] }

/-- The windows from the open one on: a call a minute or more after a window's first call opens the
    next window. -/
def windowsFrom (window : MidWindow) : List MidCall → List MidWindow
  | [] => [window]
  | call :: calls =>
    if 60 ≤ call.nowTs - window.first.nowTs then window :: windowsFrom ⟨call, []⟩ calls
    else windowsFrom (window.add call) calls

def windows : List MidCall → List MidWindow
  | [] => []
  | call :: calls => windowsFrom ⟨call, []⟩ calls

/-- History and timestamp after a list of calls. -/
def sampleAll (sampled : List ℚ × ℚ) (calls : List MidCall) : List ℚ × ℚ :=
  calls.foldl (fun (hist, lastSampleTs) call => sampleMid hist lastSampleTs call.nowTs call.mid)
    sampled

/-! ## One call -/

theorem lastMid_add (window : MidWindow) (call : MidCall) : (window.add call).lastMid = call.mid := by
  rw [MidWindow.lastMid, MidWindow.add, List.getLast?_concat, Option.getD_some]

/-- History and timestamp that go with the windows so far, the last of which is open. -/
structure Cadence (closed : List MidWindow) (window : MidWindow) (sampled : List ℚ × ℚ) : Prop where
  hist : sampled.1 = ((closed ++ [window]).map MidWindow.lastMid).rtake 20
  opened : sampled.2 = window.first.nowTs

theorem map_concat_rtake (closed : List MidWindow) (window : MidWindow) :
    ((closed ++ [window]).map MidWindow.lastMid).rtake 20 =
      (closed.map MidWindow.lastMid).rtake 19 ++ [window.lastMid] := by
  rw [List.map_append, List.map_singleton, List.rtake_concat_succ]

theorem cadence_refresh {closed : List MidWindow} {window : MidWindow} {sampled : List ℚ × ℚ}
    (cadence : Cadence closed window sampled) {call : MidCall}
    (within : ¬ 60 ≤ call.nowTs - window.first.nowTs) :
    Cadence closed (window.add call) (sampleMid sampled.1 sampled.2 call.nowTs call.mid) := by
  obtain ⟨hist, opened⟩ := cadence
  rw [map_concat_rtake] at hist
  have filled : sampled.1 ≠ [] := by
    rw [hist]
    exact List.concat_ne_nil _ _
  rw [sampleMid, if_neg (not_or.mpr ⟨filled, opened ▸ within⟩)]
  refine ⟨?_, opened⟩
  rw [map_concat_rtake, lastMid_add, hist, List.dropLast_concat]

theorem cadence_next {closed : List MidWindow} {window : MidWindow} {sampled : List ℚ × ℚ}
    (cadence : Cadence closed window sampled) {call : MidCall}
    (later : 60 ≤ call.nowTs - window.first.nowTs) :
    Cadence (closed ++ [window]) ⟨call, []⟩ (sampleMid sampled.1 sampled.2 call.nowTs call.mid) := by
  obtain ⟨hist, opened⟩ := cadence
  rw [sampleMid, if_pos (Or.inr (opened ▸ later))]
  refine ⟨?_, rfl⟩
  change (sampled.1 ++ [call.mid]).rtake 20 = _
  rw [hist, List.rtake_concat_succ, rtake_rtake_of_le (by norm_num), map_concat_rtake]
  rfl

/-! ## All calls -/

theorem cadence_calls {closed : List MidWindow} {window : MidWindow} {sampled : List ℚ × ℚ}
    (cadence : Cadence closed window sampled) (calls : List MidCall) :
    ∃ before last, closed ++ windowsFrom window calls = before ++ [last] ∧
      Cadence before last (sampleAll sampled calls) := by
  induction calls generalizing closed window sampled with
  | nil => exact ⟨closed, window, rfl, cadence⟩
  | cons call calls inductionHypothesis =>
    unfold windowsFrom
    split_ifs with later
    · obtain ⟨before, last, split, kept⟩ := inductionHypothesis (cadence_next cadence later)
      rw [List.append_assoc] at split
      exact ⟨before, last, split, kept⟩
    · exact inductionHypothesis (cadence_refresh cadence later)

/-- The history of calls from an empty one is the last mid of each window, of the latest twenty.
    It is not empty from the first call on, and the timestamp is that of the open window's first
    call. -/
theorem samples_windows (lastSampleTs : ℚ) (calls : List MidCall) :
    let sampled := sampleAll ([], lastSampleTs) calls
    sampled.1 = ((windows calls).map MidWindow.lastMid).rtake 20 ∧
      (calls ≠ [] → sampled.1 ≠ [] ∧
        ∃ window, (windows calls).getLast? = some window ∧ sampled.2 = window.first.nowTs) := by
  cases calls with
  | nil => exact ⟨rfl, fun called => absurd rfl called⟩
  | cons call calls =>
    have first : Cadence [] ⟨call, []⟩ (sampleMid [] lastSampleTs call.nowTs call.mid) := ⟨rfl, rfl⟩
    obtain ⟨before, last, split, hist, opened⟩ := cadence_calls first calls
    rw [List.nil_append] at split
    have cut : windows (call :: calls) = before ++ [last] := split
    intro sampled
    have sampledOf : sampled =
        sampleAll (sampleMid [] lastSampleTs call.nowTs call.mid) calls := rfl
    rw [sampledOf, cut]
    refine ⟨hist, fun _ => ⟨?_, last, List.getLast?_concat .., opened⟩⟩
    rw [hist, map_concat_rtake]
    exact List.concat_ne_nil _ _

/-- Five calls make three windows: the second one is refreshed at its 59th second. -/
example : sampleAll ([], 0) [⟨100, 40⟩, ⟨130, 42⟩, ⟨161, 44⟩, ⟨220, 45⟩, ⟨221, 46⟩] =
    ([42, 45, 46], 221) := by decide +kernel

end KalshiMm.Verified.MidWindows
