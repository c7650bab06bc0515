import LossWatch.Estimator

/-!
What an expiry may arm. Whatever an estimator does on an expired timer, it arms at most two timers,
and each of them strictly after the expiry unless time has run out. So timers that are fired one
after another get ahead of any given instant.
-/

namespace LossWatch

/-- At most `n` timers are armed, all of them after `now`. -/
structure ArmsAhead (now : Timestamp) (n : Nat) (as : List Action) : Prop where
  few : (armedDeadlines as).length ≤ n
  ahead : ∀ d ∈ armedDeadlines as, now.micros < d.micros

namespace ArmsAhead

variable {now : Timestamp} {n m : Nat} {as bs : List Action}

theorem of_none (h : armedDeadlines as = []) : ArmsAhead now n as := by
  constructor <;> simp [h]

theorem mono (h : ArmsAhead now n as) (hnm : n ≤ m) : ArmsAhead now m as :=
  ⟨Nat.le_trans h.few hnm, h.ahead⟩

theorem append (ha : ArmsAhead now n as) (hb : ArmsAhead now m bs) :
    ArmsAhead now (n + m) (as ++ bs) := by
  constructor
  · simpa [armedDeadlines] using Nat.add_le_add ha.few hb.few
  · intro d hd
    simp only [armedDeadlines, List.filterMap_append, List.mem_append] at hd
    exact hd.elim (ha.ahead d) (hb.ahead d)

theorem prepend_none (ha : armedDeadlines as = []) (hb : ArmsAhead now n bs) :
    ArmsAhead now n (as ++ bs) := by
  have h := (of_none (n := 0) ha).append hb
  rwa [Nat.zero_add] at h

theorem one (key : TimerKey) (deadline : Timestamp) (h : now.micros < lastMicros) :
    ArmsAhead now 1 [.arm key (now.futureDeadline deadline)] := by
  constructor
  · simp [armedDeadlines, Action.armed?]
  · intro d hd
    simp only [armedDeadlines, Action.armed?, List.filterMap_cons, List.filterMap_nil,
      List.mem_singleton] at hd
    exact hd ▸ Timestamp.lt_futureDeadline deadline h

end ArmsAhead

namespace SinglePath

theorem armedDeadlines_disarm (s : SinglePath) : armedDeadlines s.disarm.actions = [] := by
  unfold disarm; split <;> rfl

theorem armedDeadlines_declareLost (now : Timestamp) (seq : SeqNumber) (s : SinglePath) :
    armedDeadlines (s.declareLost now seq).actions = [] := by
  unfold declareLost; split <;> rfl

theorem arm_armsAhead (s : SinglePath) {now : Timestamp} (seq : SeqNumber) (due : Timestamp)
    (h : now.micros < lastMicros) : ArmsAhead now 1 (s.arm now seq due).actions :=
  .prepend_none s.armedDeadlines_disarm (.one _ _ h)

theorem armFromPrediction_armsAhead (s : SinglePath) {now : Timestamp}
    (h : now.micros < lastMicros) : ArmsAhead now 1 (s.armFromPrediction now).actions := by
  unfold armFromPrediction
  split
  · exact .of_none rfl
  · split
    · exact arm_armsAhead _ _ _ h
    · exact .of_none s.armedDeadlines_disarm

theorem afterMiss_armsAhead (s : SinglePath) {now : Timestamp} (p : ExpectedPacket)
    (h : now.micros < lastMicros) : ArmsAhead now 1 (s.afterMiss now p).actions := by
  unfold afterMiss
  split
  · exact .of_none (armedDeadlines_disarm _)
  · exact arm_armsAhead _ _ _ h

theorem miss_armsAhead (s : SinglePath) {now : Timestamp} (p : ExpectedPacket)
    (h : now.micros < lastMicros) : ArmsAhead now 1 (s.miss now p).actions :=
  .prepend_none (s.armedDeadlines_declareLost now p.seq) (afterMiss_armsAhead _ p h)

theorem onTimeout_armsAhead (s : SinglePath) {now : Timestamp} (key : TimerKey)
    (h : now.micros < lastMicros) : ArmsAhead now 1 (s.onTimeout now key).actions := by
  unfold onTimeout
  split
  · exact .of_none rfl
  · split
    · exact .of_none rfl
    · dsimp only
      split
      · exact armFromPrediction_armsAhead _ h
      · exact miss_armsAhead _ _ h

end SinglePath

namespace CrossPath

theorem armedDeadlines_dropShort (s : CrossPath) : armedDeadlines s.dropShort.actions = [] := by
  unfold dropShort; split <;> rfl

theorem armedDeadlines_cancelTimers (s : CrossPath) :
    armedDeadlines s.cancelTimers.actions = [] := by
  simp only [cancelTimers, Step.actions_andThen, armedDeadlines, List.filterMap_append,
    List.append_eq_nil_iff]
  exact ⟨armedDeadlines_dropShort s, by simp [List.filterMap_map, Function.comp_def, Action.armed?]⟩

theorem armShort_armsAhead (s : CrossPath) {now : Timestamp} (expected : SeqNumber)
    (timerDriven : Bool) (h : now.micros < lastMicros) :
    ArmsAhead now 1 (s.armShort now expected timerDriven).actions := by
  unfold armShort
  split
  · exact .of_none rfl
  · exact .prepend_none s.armedDeadlines_dropShort (.one _ _ h)

theorem coverLong_armsAhead (s : CrossPath) {now : Timestamp} (seq : SeqNumber)
    (h : now.micros < lastMicros) : ArmsAhead now 1 (s.coverLong now seq).actions := by
  unfold coverLong
  split
  · exact .one _ _ h
  · exact .of_none rfl

theorem onShortTimeout_armsAhead (s : CrossPath) {now : Timestamp}
    (h : now.micros < lastMicros) : ArmsAhead now 2 (s.onShortTimeout now).actions := by
  unfold onShortTimeout
  split
  · exact .of_none rfl
  · exact (coverLong_armsAhead _ _ h).append (armShort_armsAhead _ _ _ h)

theorem armedDeadlines_declareLongLoss (s : CrossPath) (now : Timestamp) (seq : SeqNumber) :
    armedDeadlines (s.declareLongLoss now seq).actions = [] := by
  unfold declareLongLoss; split <;> rfl

theorem breakStall_armsAhead (s : CrossPath) (now : Timestamp) :
    ArmsAhead now 0 s.breakStall.actions := by
  unfold breakStall
  split
  · exact .of_none (armedDeadlines_cancelTimers _)
  · exact .of_none rfl

theorem onLongTimeout_armsAhead (s : CrossPath) (now : Timestamp) (seq : SeqNumber) :
    ArmsAhead now 0 (s.onLongTimeout now seq).actions := by
  unfold onLongTimeout
  split
  · exact .of_none rfl
  · dsimp only
    split
    · exact .of_none rfl
    · exact .prepend_none (armedDeadlines_declareLongLoss _ _ _) (breakStall_armsAhead _ now)

theorem onTimeout_armsAhead (s : CrossPath) {now : Timestamp} (key : TimerKey)
    (h : now.micros < lastMicros) : ArmsAhead now 2 (s.onTimeout now key).actions := by
  unfold onTimeout
  split
  · exact .of_none rfl
  · cases key with
    | basic => exact .of_none rfl
    | short => exact onShortTimeout_armsAhead s h
    | long seq => exact (onLongTimeout_armsAhead s now seq).mono (by omega)

end CrossPath

theorem Estimator.onTimeout_armsAhead (e : Estimator) {now : Timestamp} (key : TimerKey)
    (h : now.micros < lastMicros) : ArmsAhead now 2 (e.onTimeout now key).actions := by
  cases e with
  | single s => exact (s.onTimeout_armsAhead key h).mono (by omega)
  | cross c => exact c.onTimeout_armsAhead key h

end LossWatch
