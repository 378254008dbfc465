import KalshiMm.Lib.Recent
import KalshiMm.Verified.Bookings

/-!
# Re-read fills are booked once

The fill ids of the account are a bounded memory.  Overlapping polls deliver a fill again; as long
as its id has not been forgotten meanwhile, every later delivery leaves the trader as it is.
-/

namespace KalshiMm.Verified.Once

open KalshiMm.Lib KalshiMm.Model

/-! ## The dedupe is a bounded memory -/

/-- The set holds what the queue holds, each id once. -/
structure Deduped (s : TraderState) : Prop where
  same : s.fillIds = s.fillIdFifo.toFinset
  nodup : s.fillIdFifo.Nodup

theorem mem_fillIds {s : TraderState} (deduped : Deduped s) (fillId : String) :
    fillId ∈ s.fillIds ↔ fillId ∈ s.fillIdFifo := by
  rw [deduped.same, List.mem_toFinset]

theorem seenFill_remembers {s : TraderState} (deduped : Deduped s) (fillId : String) :
    Deduped (s.seenFill fillId).1 ∧
      (s.seenFill fillId).1.fillIdFifo = remember fillIdCap s.fillIdFifo fillId := by
  unfold TraderState.seenFill remember
  by_cases seen : fillId ∈ s.fillIds
  · rw [if_pos seen, if_pos ((mem_fillIds deduped fillId).mp seen)]
    exact ⟨deduped, rfl⟩
  · have fresh : fillId ∉ s.fillIdFifo := mt (mem_fillIds deduped fillId).mpr seen
    have nodup : (s.fillIdFifo ++ [fillId]).Nodup :=
      List.concat_eq_append ▸ deduped.nodup.concat fresh
    have same : insert fillId s.fillIds = (s.fillIdFifo ++ [fillId]).toFinset := by
      rw [deduped.same, List.toFinset_append, Finset.insert_eq, Finset.union_comm]
      rfl
    rw [if_neg seen, if_neg fresh, same, trim]
    generalize s.fillIdFifo ++ [fillId] = queue at nodup
    cases queue with
    | nil => exact ⟨⟨rfl, nodup⟩, rfl⟩
    | cons oldest rest =>
      obtain ⟨gone, nodup'⟩ := List.nodup_cons.mp nodup
      dsimp only
      split_ifs
      · refine ⟨⟨?_, nodup'⟩, rfl⟩
        -- the id that leaves the queue was nowhere else in it
        rw [List.toFinset_cons, Finset.erase_insert (by rwa [List.mem_toFinset])]
      · exact ⟨⟨rfl, nodup⟩, rfl⟩

def seeFill (s : TraderState) (fillId : String) : TraderState := (s.seenFill fillId).1

/-- The ids one call records anew. -/
def newlySeen (s : TraderState) (fillId : String) : List String :=
  if (s.seenFill fillId).2 then [] else [fillId]

theorem newlySeen_eq {s : TraderState} (deduped : Deduped s) (fillId : String) :
    newlySeen s fillId = recorded s.fillIdFifo fillId := by
  rw [newlySeen, recorded, seenFill_snd]
  simp only [decide_eq_true_eq, mem_fillIds deduped]

theorem run_seeFill {s : TraderState} (deduped : Deduped s) (fillIds : List String) :
    Deduped (run seeFill s fillIds) ∧
      (run seeFill s fillIds).fillIdFifo = run (remember fillIdCap) s.fillIdFifo fillIds ∧
      outputs seeFill newlySeen s fillIds = record fillIdCap s.fillIdFifo fillIds := by
  induction fillIds generalizing s with
  | nil => exact ⟨deduped, rfl, rfl⟩
  | cons fillId fillIds inductionHypothesis =>
    obtain ⟨next, fifo⟩ := seenFill_remembers deduped fillId
    obtain ⟨last, lastFifo, log⟩ := inductionHypothesis (s := seeFill s fillId) next
    refine ⟨last, ?_, ?_⟩
    · rw [run_cons, run_cons, lastFifo]
      exact congrArg (run (remember fillIdCap) · fillIds) fifo
    · rw [outputs, log, newlySeen_eq deduped]
      exact congrArg (fun held => recorded _ _ ++ record fillIdCap held fillIds) fifo

/-! ## Deliveries -/

/-- A raw fill and the outside it is processed against. -/
abbrev Delivery := Outside × Value

def deliver (tr : Trader) (delivery : Delivery) : Trader :=
  tr.processFill delivery.1 delivery.2

/-- The id of a fill; a malformed one has none. -/
def fillIdOf (delivery : Delivery) : Option String :=
  (normalizeFill delivery.2).map NormalizedFill.fillId

/-- The ids one delivery records anew. -/
def newlyRecorded (tr : Trader) (delivery : Delivery) : List String :=
  (fillIdOf delivery).elim [] (newlySeen tr.state)

theorem deliver_malformed {delivery : Delivery} (malformed : fillIdOf delivery = none)
    (tr : Trader) : deliver tr delivery = tr := by
  rw [deliver, Trader.processFill, Option.map_eq_none_iff.mp malformed]

theorem deliver_seen {tr : Trader} {delivery : Delivery} {fillId : String}
    (named : fillIdOf delivery = some fillId) (seen : fillId ∈ tr.state.fillIds) :
    deliver tr delivery = tr := by
  obtain ⟨nf, normal, rfl⟩ := Option.map_eq_some_iff.mp named
  rw [deliver, Trader.processFill, normal]
  dsimp only
  rw [seenFill_snd, if_pos (decide_eq_true seen)]

theorem deliver_remembers {tr : Trader} (deduped : Deduped tr.state) {delivery : Delivery}
    {fillId : String} (named : fillIdOf delivery = some fillId) :
    Deduped (deliver tr delivery).state ∧
      (deliver tr delivery).state.fillIdFifo = remember fillIdCap tr.state.fillIdFifo fillId := by
  obtain ⟨remembered, fifo⟩ := seenFill_remembers deduped fillId
  by_cases seen : fillId ∈ tr.state.fillIds
  · rw [deliver_seen named seen, remember, if_pos ((mem_fillIds deduped fillId).mp seen)]
    exact ⟨deduped, rfl⟩
  · obtain ⟨nf, normal, rfl⟩ := Option.map_eq_some_iff.mp named
    rw [deliver, Trader.processFill, normal]
    dsimp only
    rw [seenFill_snd, if_neg (by simpa using seen)]
    -- booking the fill does not touch the memory
    obtain ⟨_, ids, queue⟩ := scored_bookFill delivery.1 nf
      { tr with state := (tr.state.seenFill nf.fillId).1 }
    exact ⟨⟨ids.trans (remembered.same.trans (congrArg List.toFinset queue.symm)),
      queue ▸ remembered.nodup⟩, queue.trans fifo⟩

theorem run_deliver {tr : Trader} (deduped : Deduped tr.state) (deliveries : List Delivery) :
    Deduped (run deliver tr deliveries).state ∧
      (run deliver tr deliveries).state.fillIdFifo =
        run (remember fillIdCap) tr.state.fillIdFifo (deliveries.filterMap fillIdOf) ∧
      outputs deliver newlyRecorded tr deliveries =
        record fillIdCap tr.state.fillIdFifo (deliveries.filterMap fillIdOf) := by
  induction deliveries generalizing tr with
  | nil => exact ⟨deduped, rfl, rfl⟩
  | cons delivery deliveries inductionHypothesis =>
    rw [run_cons, outputs, newlyRecorded]
    cases named : fillIdOf delivery with
    | none =>
      rw [List.filterMap_cons_none named, deliver_malformed named]
      exact inductionHypothesis deduped
    | some fillId =>
      obtain ⟨next, fifo⟩ := deliver_remembers deduped named
      obtain ⟨last, lastFifo, log⟩ := inductionHypothesis next
      rw [List.filterMap_cons_some named, run_cons, ← fifo]
      refine ⟨last, lastFifo, ?_⟩
      rw [log, fifo]
      exact congrArg (· ++ _) (newlySeen_eq deduped fillId)

/-! ## First deliveries -/

/-- The deliveries of ids that are not among the earlier ones and were not delivered before. -/
def firstDeliveries (earlier : Finset String) : List Delivery → List Delivery
  | [] => []
  | delivery :: deliveries =>
    match fillIdOf delivery with
    | none => firstDeliveries earlier deliveries
    | some fillId =>
      if fillId ∈ earlier then firstDeliveries earlier deliveries
      else delivery :: firstDeliveries (insert fillId earlier) deliveries

/-- Between any two deliveries of one id fewer than the capacity's distinct ids are recorded. -/
def WithinCapacity (tr : Trader) (deliveries : List Delivery) : Prop :=
  ∀ before first between again after fillId,
    deliveries = before ++ first :: between ++ again :: after →
    fillIdOf first = some fillId → fillIdOf again = some fillId →
    (outputs deliver newlyRecorded (run deliver tr (before ++ [first])) between).toFinset.card <
      fillIdCap

theorem filterMap_split {deliveries : List Delivery} {before after : List String}
    {fillId : String} (split : deliveries.filterMap fillIdOf = before ++ fillId :: after) :
    ∃ earlier delivery later, deliveries = earlier ++ delivery :: later ∧
      earlier.filterMap fillIdOf = before ∧ fillIdOf delivery = some fillId ∧
      later.filterMap fillIdOf = after := by
  obtain ⟨earlier, rest, rfl, rfl, tail⟩ := List.filterMap_eq_append_iff.mp split
  obtain ⟨malformed, delivery, later, rfl, unnamed, named, rfl⟩ := List.filterMap_eq_cons_iff.mp tail
  refine ⟨earlier ++ malformed, delivery, later, by simp, ?_, named, rfl⟩
  rw [List.filterMap_append, List.filterMap_eq_nil_iff.mpr unnamed, List.append_nil]

theorem WithinCapacity.spaced {tr : Trader} {deliveries : List Delivery}
    (within : WithinCapacity tr deliveries) (deduped : Deduped tr.state)
    (empty : tr.state.fillIdFifo = []) : Spaced fillIdCap (deliveries.filterMap fillIdOf) := by
  intro before fillId between after split
  rw [List.append_assoc] at split
  obtain ⟨earlier, first, rest, rfl, rfl, named, rest_⟩ := filterMap_split split
  obtain ⟨middle, again, later, rfl, rfl, named', rfl⟩ := filterMap_split rest_
  have few := within earlier first middle again later fillId (by simp) named named'
  -- the trader's record over the middle is the memory's
  obtain ⟨deduped', fifo, _⟩ := run_deliver deduped (earlier ++ [first])
  rw [(run_deliver deduped' middle).2.2, fifo, empty, List.filterMap_append,
    List.filterMap_cons_some named, List.filterMap_nil] at few
  exact few

/-- A run over all deliveries ends where the run over the first ones does. -/
theorem run_firstDeliveries {tr : Trader} (deduped : Deduped tr.state)
    (empty : tr.state.fillIdFifo = []) (earlier later : List Delivery)
    (spaced : Spaced fillIdCap ((earlier ++ later).filterMap fillIdOf)) :
    run deliver (run deliver tr earlier) later =
      run deliver (run deliver tr earlier)
        (firstDeliveries (earlier.filterMap fillIdOf).toFinset later) := by
  -- along the deliveries still to come: each one joins the earlier ones
  induction later generalizing earlier with
  | nil => rfl
  | cons delivery later inductionHypothesis =>
    have rest := inductionHypothesis (earlier ++ [delivery]) (by simpa using spaced)
    rw [run_concat, List.filterMap_append, List.toFinset_append] at rest
    rw [run_cons, rest, firstDeliveries]
    cases named : fillIdOf delivery with
    | none =>
      dsimp only
      rw [deliver_malformed named, List.filterMap_cons_none named, List.filterMap_nil,
        List.toFinset_nil, Finset.union_empty]
    | some fillId =>
      dsimp only
      rw [List.filterMap_cons_some named, List.filterMap_nil]
      have joined : (earlier.filterMap fillIdOf).toFinset ∪ [fillId].toFinset =
          insert fillId (earlier.filterMap fillIdOf).toFinset := by
        rw [Finset.union_comm, Finset.insert_eq]
        rfl
      rw [joined]
      split_ifs with repeated
      · have spaced' : Spaced fillIdCap (earlier.filterMap fillIdOf ++ [fillId]) := by
          rw [List.append_cons, List.filterMap_append, List.filterMap_append,
            List.filterMap_cons_some named] at spaced
          exact spaced.of_append
        obtain ⟨deduped', fifo, _⟩ := run_deliver deduped earlier
        have seen : fillId ∈ (run deliver tr earlier).state.fillIds := by
          rw [mem_fillIds deduped', fifo, empty]
          exact (held_iff_repeated spaced').mpr (List.mem_toFinset.mp repeated)
        rw [deliver_seen named seen, Finset.insert_eq_of_mem repeated]
      · rw [run_cons]

/-! ## Exactly once -/

/-- Delivering fills again within the capacity changes nothing; and a fill id is recognised exactly
    while fewer than the capacity's ids have been recorded since it was, which the id set and its
    queue agree on. -/
theorem fills_booked_once {tr : Trader} (noIds : tr.state.fillIds = ∅)
    (noQueue : tr.state.fillIdFifo = []) :
    (∀ deliveries, WithinCapacity tr deliveries →
      (run deliver tr deliveries).state =
        (run deliver tr (firstDeliveries ∅ deliveries)).state) ∧
    ∀ fillIds,
      let s := run seeFill tr.state fillIds
      s.fillIds = s.fillIdFifo.toFinset ∧ s.fillIdFifo.Nodup ∧ s.fillIdFifo.length ≤ fillIdCap ∧
      ∀ fillId, (s.seenFill fillId).2 = true ↔
        ∃ before since, outputs seeFill newlySeen tr.state fillIds = before ++ fillId :: since ∧
          since.length < fillIdCap := by
  have deduped : Deduped tr.state := ⟨by rw [noIds, noQueue]; rfl, noQueue ▸ List.nodup_nil⟩
  constructor
  · intro deliveries within
    have same := run_firstDeliveries deduped noQueue [] deliveries (within.spaced deduped noQueue)
    exact congrArg Trader.state same
  · intro fillIds s
    obtain ⟨⟨same, nodup⟩, fifo, log⟩ := run_seeFill deduped fillIds
    rw [noQueue, run_remember] at fifo
    refine ⟨same, nodup, ?_, fun fillId => ?_⟩
    · rw [fifo, List.rtake, List.length_drop]
      omega
    · rw [seenFill_snd, decide_eq_true_eq, same, List.mem_toFinset, fifo, mem_rtake, log, noQueue]

/-- No more deliveries than the capacity cannot record the capacity between any two. -/
theorem withinCapacity_of_short (tr : Trader) {deliveries : List Delivery}
    (short : deliveries.length ≤ fillIdCap) : WithinCapacity tr deliveries := by
  rintro before first between again after fillId rfl - -
  have each (tr : Trader) (delivery : Delivery) : (newlyRecorded tr delivery).length ≤ 1 := by
    unfold newlyRecorded newlySeen
    cases fillIdOf delivery with
    | none => exact Nat.zero_le _
    | some fillId =>
      dsimp only [Option.elim_some]
      split_ifs
      · exact Nat.zero_le _
      · exact Nat.le_refl _
  have few := (List.toFinset_card_le _).trans
    (outputs_length_le deliver each (run deliver tr (before ++ [first])) between)
  simp only [List.length_append, List.length_cons] at short
  omega

theorem fills_booked_once_reread :
    let tr := Trader.start (marketCfg none) 0
    let reread (mono : ℚ) : Delivery :=
      (answering "b1" "a1" mono, report (makerFill "f1" "b1" "KXBTCD-25JUL2417-T100" true 2 (1 / 4)))
    (run deliver tr [reread 10, reread 20]).state = (run deliver tr [reread 10]).state := by
  intro tr reread
  have noIds : tr.state.fillIds = ∅ := rfl
  have once := (fills_booked_once noIds rfl).1 [reread 10, reread 20]
    (withinCapacity_of_short tr (by decide))
  have named (mono : ℚ) : fillIdOf (reread mono) = some "f1" :=
    congrArg (Option.map NormalizedFill.fillId)
      (normalizeFill_report (by decide) (by decide) rfl rfl (by decide) (by decide))
  simpa [firstDeliveries, named] using once

end KalshiMm.Verified.Once
