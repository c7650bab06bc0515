import LossWatch.CrossPath

/-!
Learning touches the models only. Ranking the flows, sampling, and moving the reference leave the
record of what has happened as it is: the flows, the ledger, both kinds of timers and the newest
number. No step of it asks for anything.
-/

namespace LossWatch.CrossPath

structure SameRecord (s s' : CrossPath) : Prop where
  config : s'.config = s.config
  flows : s'.flows = s.flows
  ledger : s'.ledger = s.ledger
  short : s'.short = s.short
  long : s'.long = s.long
  maxSeen : s'.maxSeen = s.maxSeen
  stopped : s'.stopped = s.stopped
  resets : s'.counters.resets = s.counters.resets
  losses : s'.counters.losses = s.counters.losses
  falsePositives : s'.counters.falsePositives = s.counters.falsePositives
  consecutiveLosses : s'.consecutiveLosses = s.consecutiveLosses

namespace SameRecord

variable {s s' s'' : CrossPath}

theorem refl (s : CrossPath) : s.SameRecord s :=
  ⟨rfl, rfl, rfl, rfl, rfl, rfl, rfl, rfl, rfl, rfl, rfl⟩

theorem trans (h : s.SameRecord s') (h' : s'.SameRecord s'') : s.SameRecord s'' :=
  ⟨h'.config.trans h.config, h'.flows.trans h.flows, h'.ledger.trans h.ledger,
    h'.short.trans h.short, h'.long.trans h.long, h'.maxSeen.trans h.maxSeen,
    h'.stopped.trans h.stopped, h'.resets.trans h.resets, h'.losses.trans h.losses,
    h'.falsePositives.trans h.falsePositives,
    h'.consecutiveLosses.trans h.consecutiveLosses⟩

end SameRecord

theorem sameRecord_advance (s : CrossPath) (trigger : CrossTrigger) :
    s.SameRecord (s.advance trigger) := by
  unfold advance
  cases s.phase.next trigger with
  | none => exact .refl s
  | some phase =>
    by_cases h : trigger = .referenceLost
    · rw [if_pos h]
      constructor <;> rfl
    · rw [if_neg h]
      constructor <;> rfl

theorem sameRecord_anchorReference (s : CrossPath) (seq : SeqNumber) :
    s.SameRecord (s.anchorReference seq) := by
  unfold anchorReference
  cases s.phase.next .referenceAnchored with
  | none => exact .refl s
  | some phase => constructor <;> rfl

theorem sameRecord_awaited (s : CrossPath) (awaited : Option SeqNumber) :
    s.SameRecord { s with awaited } := by
  constructor <;> rfl

theorem sameRecord_loseReference (s : CrossPath) : s.SameRecord s.loseReference :=
  (s.sameRecord_awaited none).trans (sameRecord_advance _ _)

theorem sameRecord_awaitAlternate (s : CrossPath) (seq : SeqNumber) (onFastest : Bool)
    (update : FlowUpdate) : s.SameRecord (s.awaitAlternate seq onFastest update) := by
  unfold awaitAlternate
  split
  · exact .refl s
  · split
    · split
      · exact s.sameRecord_loseReference.trans (sameRecord_anchorReference _ _)
      · split
        · exact s.sameRecord_awaited _
        · exact .refl s
    · split
      · exact (s.sameRecord_awaited none).trans (sameRecord_advance _ _)
      · split
        · exact s.sameRecord_loseReference
        · exact .refl s

theorem sameRecord_seedPredictors (s : CrossPath) : s.SameRecord s.seedPredictors := by
  unfold seedPredictors
  split
  · exact .refl s
  · dsimp only
    split <;> constructor <;> rfl

theorem sameRecord_learnFlowOrder? {s : CrossPath} {r : Step CrossPath}
    (h : s.learnFlowOrder? = some r) : s.SameRecord r.state ∧ r.actions = [] := by
  obtain ⟨⟨order, delta⟩, -, rfl⟩ := Option.map_eq_some_iff.mp h
  have hranked : s.SameRecord { s with order, nominalDelta := delta } := by
    constructor <;> rfl
  exact ⟨hranked.trans (sameRecord_seedPredictors _), rfl⟩

theorem sameRecord_learn (s : CrossPath) (seq : SeqNumber) (flow : Nat) :
    s.SameRecord (s.learn seq flow).state ∧ (s.learn seq flow).actions = [] := by
  unfold learn
  cases h : s.learnFlowOrder? with
  | none => exact ⟨.refl s, rfl⟩
  | some ranked =>
    obtain ⟨hsame, hactions⟩ := sameRecord_learnFlowOrder? h
    have hadvance := hsame.trans (sameRecord_advance ranked.state .flowOrderLearned)
    refine ⟨?_, hactions⟩
    simp only [Step.state_alter]
    split
    · exact hadvance.trans (sameRecord_anchorReference _ _)
    · exact hadvance

theorem sameRecord_observeFastest (s : CrossPath) (now : Timestamp) (seq : SeqNumber) :
    s.SameRecord (s.observeFastest now seq).2.state ∧ (s.observeFastest now seq).2.actions = [] := by
  unfold observeFastest
  split
  · exact ⟨by constructor <;> rfl, rfl⟩
  · split
    · exact ⟨.refl s, rfl⟩
    · dsimp only
      split <;> exact ⟨by constructor <;> rfl, rfl⟩

theorem sameRecord_observe (s : CrossPath) (now : Timestamp) (seq : SeqNumber) (flow : Nat) :
    s.SameRecord (s.observe now seq flow).2.state ∧ (s.observe now seq flow).2.actions = [] := by
  unfold observe
  split
  · exact s.sameRecord_observeFastest now seq
  · split <;> exact ⟨by constructor <;> rfl, rfl⟩

end LossWatch.CrossPath
