import LossWatch.Proofs.CrossPath.Learning
import LossWatch.Proofs.Estimator.Idle

/-!
What an estimator believes of its timers. Each action it asks for changes a book of deadlines by
key, and the actions of a step lead from the book the estimator believed in before to the one it
believes in afterwards. An expiry starts from a book without the expired timer. Resetting and
stopping leave an empty book, whatever is done about their actions.
-/

namespace LossWatch

structure TimerBook where
  deadline : TimerKey → Option Timestamp := fun _ => none
  stopped : Bool := false

namespace TimerBook

def arm (b : TimerBook) (key : TimerKey) (d : Timestamp) : TimerBook :=
  { b with deadline := fun k => if k = key then some d else b.deadline k }

def cancel (b : TimerBook) (key : TimerKey) : TimerBook :=
  { b with deadline := fun k => if k = key then none else b.deadline k }

def perform (b : TimerBook) : Action → TimerBook
  | .arm key d => b.arm key d
  | .cancel key => b.cancel key
  | .emit _ => b

theorem ext_deadline {b c : TimerBook} (hd : ∀ key, b.deadline key = c.deadline key)
    (hs : b.stopped = c.stopped) : b = c := by
  cases b; cases c
  have hd' := funext hd
  simp only at hd' hs
  rw [hd', hs]

theorem stopped_foldl_perform (as : List Action) (b : TimerBook) :
    (as.foldl perform b).stopped = b.stopped := by
  induction as generalizing b with
  | nil => rfl
  | cons a as ih =>
    rw [List.foldl_cons, ih]
    cases a <;> rfl

theorem foldl_cancel (keys : List TimerKey) (b : TimerBook) :
    (keys.map Action.cancel).foldl perform b =
      { b with deadline := fun k => if k ∈ keys then none else b.deadline k } := by
  induction keys generalizing b with
  | nil => simp
  | cons key keys ih =>
    rw [List.map_cons, List.foldl_cons, ih]
    refine ext_deadline (fun k => ?_) rfl
    by_cases hk : k = key <;> simp [perform, cancel, hk]

end TimerBook

namespace Step

variable {σ τ : Type} {v : σ → TimerBook} {b : TimerBook} {s : σ} {r : Step σ}

/-- The actions lead from the book `b` to the book of the state after the step. -/
def Keeps (r : Step σ) (v : σ → TimerBook) (b : TimerBook) : Prop :=
  r.actions.foldl TimerBook.perform b = v r.state

theorem Keeps.stay (h : b = v s) : (stay s).Keeps v b := h

theorem Keeps.emit (e : LossEvent) (h : b = v s) : (act s (.emit e)).Keeps v b := h

theorem Keeps.of_no_actions (h : r.actions = []) (hb : b = v r.state) : r.Keeps v b := by
  rw [Keeps, h]
  exact hb

theorem Keeps.andThen {f : σ → Step σ} (hr : r.Keeps v b)
    (hf : ∀ t, (f t).Keeps v (v t)) : (r.andThen f).Keeps v b := by
  rw [Keeps, actions_andThen, List.foldl_append, hr]
  exact hf r.state

theorem Keeps.alter {v' : τ → TimerBook} {f : σ → τ} (hr : r.Keeps v b)
    (hf : v r.state = v' (f r.state)) : (r.alter f).Keeps v' b :=
  Eq.trans hr hf

theorem Keeps.forEach {α : Type} {f : α → σ → Step σ} (hf : ∀ a s, (f a s).Keeps v (v s))
    (as : List α) (s : σ) : (forEach f as s).Keeps v (v s) := by
  induction as generalizing s with
  | nil => exact .stay rfl
  | cons a as ih => exact (hf a s).andThen ih

end Step

/-! ### The single-path estimator -/

namespace SinglePath

def book (s : SinglePath) : TimerBook where
  deadline
    | .basic => s.deadline
    | _ => none
  stopped := s.stopped

theorem book_eq {s : SinglePath} {b : TimerBook} (hd : b.deadline .basic = s.deadline)
    (hn : ∀ key, key ≠ .basic → b.deadline key = none) (hs : b.stopped = s.stopped) :
    b = s.book := by
  refine TimerBook.ext_deadline (fun key => ?_) hs
  cases key with
  | basic => exact hd
  | short => exact hn _ (by decide)
  | long seq => exact hn _ (by simp)

theorem book_arm (s : SinglePath) (p : ExpectedPacket) (phase : SinglePhase) :
    s.book.arm .basic p.deadline = book { s with pending := some p, phase } := by
  refine book_eq rfl (fun key hk => ?_) rfl
  cases key <;> simp_all [TimerBook.arm, book]

theorem book_cancel (s : SinglePath) : s.book.cancel .basic = book { s with pending := none } := by
  refine book_eq rfl (fun key hk => ?_) rfl
  cases key <;> simp_all [TimerBook.cancel, book]

theorem keeps_disarm (s : SinglePath) : s.disarm.Keeps book s.book := by
  unfold disarm
  split
  · exact s.book_cancel
  · exact .stay rfl

theorem pending_disarm (s : SinglePath) : s.disarm.state.pending = none := by
  unfold disarm
  split
  · rfl
  · assumption

theorem keeps_arm (s : SinglePath) (now : Timestamp) (seq : SeqNumber) (due : Timestamp) :
    (s.arm now seq due).Keeps book s.book :=
  s.keeps_disarm.andThen fun t => t.book_arm ⟨seq, due, _⟩ _

theorem keeps_armFromPrediction (s : SinglePath) (now : Timestamp) :
    (s.armFromPrediction now).Keeps book s.book := by
  unfold armFromPrediction
  split
  · exact .stay rfl
  · split
    · exact keeps_arm _ now _ _
    · exact s.keeps_disarm.alter rfl

theorem keeps_declareLost (now : Timestamp) (seq : SeqNumber) (s : SinglePath) :
    (s.declareLost now seq).Keeps book s.book := by
  unfold declareLost
  split
  · exact .stay rfl
  · exact .emit _ rfl

theorem keeps_fullReset (s : SinglePath) : s.fullReset.Keeps book s.book :=
  s.keeps_disarm.alter rfl

theorem keeps_advance (s : SinglePath) (now : Timestamp) (seq : SeqNumber) :
    (s.advance now seq).Keeps book s.book := by
  unfold advance
  split
  · exact .stay rfl
  · split
    · refine Step.Keeps.alter (v := book) ?_ rfl
      split
      · exact Step.Keeps.andThen (.of_no_actions rfl rfl) keeps_disarm
      · exact Step.Keeps.forEach (keeps_declareLost now) _ _
    · exact .stay rfl

theorem keeps_accept (s : SinglePath) (now : Timestamp) (seq : SeqNumber) :
    (s.accept now seq).Keeps book s.book := by
  apply (keeps_advance _ now seq).andThen
  intro t
  split
  · exact t.keeps_armFromPrediction now
  · exact .stay rfl

theorem keeps_onArrival (s : SinglePath) (now : Timestamp) (a : Arrival) :
    (s.onArrival now a).Keeps book s.book := by
  unfold onArrival
  split
  · exact .stay rfl
  · dsimp only
    cases (s.ledger.receive now a.seq).1 with
    | duplicate => exact .stay rfl
    | stale => exact .stay rfl
    | falsePositive d => exact Step.Keeps.andThen (.emit _ rfl) fun t => t.keeps_accept now _
    | fresh => exact keeps_accept _ now _
    | recovered => exact keeps_accept _ now _

theorem keeps_onRepair (s : SinglePath) (a : Arrival) : (s.onRepair a).Keeps book s.book := by
  unfold onRepair
  split <;> exact .stay rfl

theorem keeps_afterMiss (s : SinglePath) (now : Timestamp) (p : ExpectedPacket) :
    (s.afterMiss now p).Keeps book s.book := by
  unfold afterMiss
  split
  · exact Step.Keeps.andThen (.of_no_actions rfl rfl) keeps_fullReset
  · exact keeps_arm s now _ _

theorem keeps_miss (s : SinglePath) (now : Timestamp) (p : ExpectedPacket) :
    (s.miss now p).Keeps book s.book :=
  Step.Keeps.andThen ((s.keeps_declareLost now p.seq).alter rfl) fun t => t.keeps_afterMiss now p

theorem keeps_onTimeout {s : SinglePath} {key : TimerKey} (now : Timestamp)
    (hrun : s.stopped = false) (hkey : (s.book.deadline key).isSome) :
    (s.onTimeout now key).Keeps book (s.book.cancel key) := by
  have hbasic : key = .basic := by
    cases key with
    | basic => rfl
    | short => simp [book] at hkey
    | long seq => simp [book] at hkey
  subst hbasic
  rw [book_cancel]
  unfold onTimeout
  rw [if_neg (by simp [hrun])]
  cases hp : s.pending with
  | none => simp [book, deadline, hp] at hkey
  | some p =>
    dsimp only
    split
    · exact keeps_armFromPrediction _ now
    · exact keeps_miss _ now p

theorem book_reset (s : SinglePath) : s.reset.state.book = {} :=
  (book_eq (s := s.reset.state) (b := {})
    (by simp [reset, fullReset, deadline, pending_disarm]) (fun _ _ => rfl) rfl).symm

theorem book_stop (s : SinglePath) : s.stop.state.book = { stopped := true } :=
  (book_eq (s := s.stop.state) (b := { stopped := true })
    (by simp [stop, deadline, pending_disarm]) (fun _ _ => rfl) rfl).symm

end SinglePath

/-! ### The cross-path estimator -/

namespace LongTimers

def deadline? (l : LongTimers) (seq : SeqNumber) : Option Timestamp :=
  (l.find? (·.1 = seq)).map (·.2)

theorem has_eq (l : LongTimers) (seq : SeqNumber) : l.has seq = (l.deadline? seq).isSome := by
  rw [has, deadline?, Option.isSome_map, List.isSome_find?]

theorem deadline?_eq_none_iff {l : LongTimers} {seq : SeqNumber} :
    l.deadline? seq = none ↔ seq ∉ l.map (·.1) := by
  rw [deadline?, Option.map_eq_none_iff, List.find?_eq_none]
  simp only [decide_eq_true_eq, List.mem_map, not_exists, not_and]

theorem deadline?_erase (l : LongTimers) (seq k : SeqNumber) :
    (l.erase seq).deadline? k = if k = seq then none else l.deadline? k := by
  unfold erase deadline?
  rw [List.find?_filter]
  by_cases hk : k = seq
  · simp [hk]
  · rw [if_neg hk]
    congr 2
    funext p
    by_cases hp : p.1 = k <;> simp_all

theorem deadline?_insert (l : LongTimers) (seq k : SeqNumber) (d : Timestamp) :
    (l.insert seq d).deadline? k = if k = seq then some d else l.deadline? k := by
  -- `insert` splits the list by raw number, and `k` can only be on its own side of `seq`.
  have hside : ∀ side : SeqNumber → Bool,
      (l.filter (fun p => side p.1)).find? (fun p => decide (p.1 = k)) =
        if side k then l.find? (fun p => decide (p.1 = k)) else none := by
    intro side
    rw [List.find?_filter]
    by_cases hs : side k = true
    · rw [if_pos hs]
      congr 1
      funext p
      by_cases hp : p.1 = k <;> simp_all
    · rw [if_neg hs, List.find?_eq_none]
      intro p _
      by_cases hp : p.1 = k <;> simp_all
  unfold insert deadline?
  rw [List.find?_append, List.find?_cons, hside (·.rawLess seq), hside seq.rawLess]
  by_cases hk : k = seq
  · simp [hk, SeqNumber.rawLess]
  · have hraw : k.raw ≠ seq.raw := fun h => hk (SeqNumber.ext_raw h)
    have hne : ¬ seq = k := fun h => hk h.symm
    rcases Nat.lt_or_gt_of_ne hraw with hlt | hlt
    · simp [hk, hne, SeqNumber.rawLess, hlt, Nat.not_lt.mpr (Nat.le_of_lt hlt)]
    · simp [hk, hne, SeqNumber.rawLess, hlt, Nat.not_lt.mpr (Nat.le_of_lt hlt)]

end LongTimers

namespace CrossPath

def book (s : CrossPath) : TimerBook where
  deadline
    | .basic => none
    | .short => s.shortDeadline
    | .long seq => s.long.deadline? seq
  stopped := s.stopped

theorem book_eq {s : CrossPath} {b : TimerBook} (hbasic : b.deadline .basic = none)
    (hshort : b.deadline .short = s.shortDeadline)
    (hlong : ∀ seq, b.deadline (.long seq) = s.long.deadline? seq) (hs : b.stopped = s.stopped) :
    b = s.book := by
  refine TimerBook.ext_deadline (fun key => ?_) hs
  cases key with
  | basic => exact hbasic
  | short => exact hshort
  | long seq => exact hlong seq

theorem SameRecord.book_eq {s s' : CrossPath} (h : s.SameRecord s') : s.book = s'.book :=
  CrossPath.book_eq rfl (by rw [shortDeadline, h.short]; rfl)
    (fun seq => by rw [h.long]; rfl) h.stopped.symm

theorem book_cancel_short (s : CrossPath) : s.book.cancel .short = book { s with short := none } :=
  book_eq rfl rfl (fun _ => rfl) rfl

theorem book_cancel_long (s : CrossPath) (seq : SeqNumber) :
    s.book.cancel (.long seq) = book { s with long := s.long.erase seq } := by
  refine book_eq rfl rfl (fun k => ?_) rfl
  rw [LongTimers.deadline?_erase]
  by_cases hk : k = seq <;> simp [TimerBook.cancel, book, hk]

theorem keeps_dropShort (s : CrossPath) : s.dropShort.Keeps book s.book := by
  unfold dropShort
  split
  · exact s.book_cancel_short
  · exact .stay rfl

theorem short_dropShort (s : CrossPath) : s.dropShort.state.short = none := by
  unfold dropShort
  split
  · rfl
  · assumption

theorem keeps_armShort (s : CrossPath) (now : Timestamp) (expected : SeqNumber)
    (timerDriven : Bool) : (s.armShort now expected timerDriven).Keeps book s.book := by
  unfold armShort
  split
  · exact .stay rfl
  · exact s.keeps_dropShort.andThen fun _ => book_eq rfl rfl (fun _ => rfl) rfl

theorem keeps_armLong (now : Timestamp) (seq : SeqNumber) (s : CrossPath) :
    (s.armLong now seq).Keeps book s.book := by
  refine book_eq rfl rfl (fun k => ?_) rfl
  rw [armLong, Step.state_act, LongTimers.deadline?_insert]
  by_cases hk : k = seq <;> simp [Step.act, TimerBook.perform, TimerBook.arm, book, hk]

theorem keeps_coverLong (now : Timestamp) (seq : SeqNumber) (s : CrossPath) :
    (s.coverLong now seq).Keeps book s.book := by
  unfold coverLong
  split
  · exact keeps_armLong now seq s
  · exact .stay rfl

theorem keeps_reconcileShort (s : CrossPath) (now : Timestamp) (seq : SeqNumber) :
    (s.reconcileShort now seq).Keeps book s.book := by
  unfold reconcileShort
  split
  · exact .stay rfl
  · split
    · exact .stay rfl
    · refine Step.Keeps.andThen (v := book) ?_ fun t => t.keeps_armShort now _ _
      have hcovered : ∀ (t : CrossPath) (n : Notice) (l : List SeqNumber) (p : Prop) [Decidable p],
          t.book = s.book →
          (if p then Step.note t n else Step.forEach (coverLong now) l t).Keeps book s.book := by
        intro t n l p _ ht
        rw [← ht]
        by_cases hp : p
        · rw [if_pos hp]
          exact .of_no_actions rfl rfl
        · rw [if_neg hp]
          exact Step.Keeps.forEach (keeps_coverLong now) _ t
      exact hcovered _ _ _ _ (by split <;> rfl)

theorem keeps_keepRunning (s : CrossPath) (now : Timestamp) (seq : SeqNumber) (o : Observation) :
    (s.keepRunning now seq o).Keeps book s.book := by
  unfold keepRunning
  cases o with
  | delta =>
    rw [(s.sameRecord_advance .deltaSample).book_eq]
    exact keeps_reconcileShort _ now seq
  | cross =>
    rw [(s.sameRecord_advance .crossSample).book_eq]
    exact keeps_reconcileShort _ now seq
  | stale => exact s.keeps_reconcileShort now seq

theorem keeps_settleLong (s : CrossPath) (seq : SeqNumber) :
    (s.settleLong seq).Keeps book s.book := by
  unfold settleLong
  split
  · exact s.book_cancel_long seq
  · exact .stay rfl

theorem keeps_cancelTimers (s : CrossPath) : s.cancelTimers.Keeps book s.book := by
  apply s.keeps_dropShort.andThen
  intro t
  have hkeys : (t.long.map fun p => Action.cancel (.long p.1)) =
      (t.long.map fun p => TimerKey.long p.1).map Action.cancel := by
    rw [List.map_map]; rfl
  apply Eq.trans (congrArg (List.foldl _ _) hkeys)
  rw [TimerBook.foldl_cancel]
  refine book_eq (by simp [book]) (by simp [book]; rfl) (fun k => ?_) rfl
  by_cases hk : k ∈ t.long.map (·.1)
  · have hmem : TimerKey.long k ∈ t.long.map fun p => TimerKey.long p.1 := by
      obtain ⟨p, hp, hpk⟩ := List.mem_map.mp hk
      exact List.mem_map.mpr ⟨p, hp, by rw [hpk]⟩
    exact if_pos hmem
  · have hnone := LongTimers.deadline?_eq_none_iff.mpr hk
    have hsame : t.book.deadline (.long k) = none := hnone
    simp only [hsame, ite_self]
    rfl

theorem keeps_fullReset (s : CrossPath) : s.fullReset.Keeps book s.book :=
  s.keeps_cancelTimers.alter rfl

theorem keeps_declareGapLoss (now : Timestamp) (position : FlowPosition) (seq : SeqNumber)
    (s : CrossPath) : (s.declareGapLoss now position seq).Keeps book s.book := by
  unfold declareGapLoss
  split
  · exact .stay rfl
  · exact .emit _ rfl

theorem keeps_declareFlowGap (s : CrossPath) (now : Timestamp) (seq : SeqNumber)
    (position : FlowPosition) (update : FlowUpdate) :
    (s.declareFlowGap now seq position update).Keeps book s.book := by
  unfold declareFlowGap
  split
  · exact .stay rfl
  · split
    · exact .stay rfl
    · dsimp only
      split
      · exact .stay rfl
      · refine Step.Keeps.forEach (fun p t => ?_) _ s
        exact keeps_declareGapLoss now _ p.1 t

theorem keeps_tryStart (s : CrossPath) (now : Timestamp) (seq : SeqNumber) (update : FlowUpdate) :
    (s.tryStart now seq update).Keeps book s.book := by
  unfold tryStart
  split
  · have hsame := s.sameRecord_loseReference.trans (sameRecord_anchorReference _ seq)
    exact .stay hsame.book_eq
  · split
    · rw [(s.sameRecord_advance .predictorsReady).book_eq]
      exact keeps_armShort _ now _ _
    · exact .stay rfl

theorem keeps_dispatch (s : CrossPath) (now : Timestamp) (seq : SeqNumber) (onFastest : Bool)
    (update : FlowUpdate) (o : Observation) :
    (s.dispatch now seq onFastest update o).Keeps book s.book := by
  unfold dispatch
  cases s.phase with
  | learnFlowOrder => exact .stay rfl
  | learnPathDifference =>
    refine .stay ?_
    split
    · exact (s.sameRecord_anchorReference seq).book_eq
    · rfl
  | learnAwaitingAlternate =>
    exact .stay (s.sameRecord_awaitAlternate seq onFastest update).book_eq
  | estAwaitingFastest =>
    dsimp only
    split
    · exact s.keeps_tryStart now seq update
    · exact .stay rfl
  | estRunningA => exact s.keeps_keepRunning now seq o
  | estRunningB => exact s.keeps_keepRunning now seq o

theorem keeps_follow (s : CrossPath) (now : Timestamp) (seq : SeqNumber)
    (position : FlowPosition) : (s.follow now seq position).Keeps book s.book := by
  unfold follow
  dsimp only
  refine Step.Keeps.andThen (v := book) ?_ fun t => ?_
  · split
    · exact .stay rfl
    · exact keeps_declareFlowGap _ now seq position _
  · split
    · obtain ⟨hsame, hactions⟩ := t.sameRecord_learn seq position.flow
      exact .of_no_actions hactions hsame.book_eq
    · obtain ⟨hsame, hactions⟩ := t.sameRecord_observe now seq position.flow
      exact Step.Keeps.andThen (.of_no_actions hactions hsame.book_eq) fun u =>
        u.keeps_dispatch now seq _ _ _

theorem keeps_accept (s : CrossPath) (now : Timestamp) (seq : SeqNumber)
    (position : FlowPosition) : (s.accept now seq position).Keeps book s.book :=
  Step.Keeps.andThen (keeps_settleLong _ seq) fun t => t.keeps_follow now seq position

theorem keeps_onArrival (s : CrossPath) (now : Timestamp) (a : Arrival) :
    (s.onArrival now a).Keeps book s.book := by
  unfold onArrival
  split
  · exact .stay rfl
  · dsimp only
    cases (s.ledger.receive now a.seq).1 with
    | duplicate => exact .stay rfl
    | stale => exact .stay rfl
    | falsePositive d =>
      exact Step.Keeps.andThen (.emit _ rfl) fun t => t.keeps_accept now a.seq _
    | fresh => exact keeps_accept _ now a.seq _
    | recovered => exact keeps_accept _ now a.seq _

theorem keeps_onRepair (s : CrossPath) (a : Arrival) : (s.onRepair a).Keeps book s.book := by
  unfold onRepair
  split
  · exact .stay rfl
  · exact keeps_settleLong _ a.seq

theorem keeps_breakStall (s : CrossPath) : s.breakStall.Keeps book s.book := by
  unfold breakStall
  split
  · exact Step.Keeps.andThen (.of_no_actions rfl rfl) keeps_fullReset
  · exact .stay rfl

theorem keeps_declareLongLoss (s : CrossPath) (now : Timestamp) (seq : SeqNumber) :
    (s.declareLongLoss now seq).Keeps book s.book := by
  unfold declareLongLoss
  split
  · exact .stay rfl
  · exact .emit _ rfl

theorem keeps_onShortTimeout {s : CrossPath} (now : Timestamp) (hs : s.shortDeadline.isSome) :
    (s.onShortTimeout now).Keeps book (s.book.cancel .short) := by
  rw [book_cancel_short]
  unfold onShortTimeout
  cases hshort : s.short with
  | none => simp [shortDeadline, hshort] at hs
  | some short =>
    exact Step.Keeps.andThen (keeps_coverLong now _ _) fun t => t.keeps_armShort now _ _

theorem keeps_onLongTimeout {s : CrossPath} (now : Timestamp) {seq : SeqNumber}
    (hs : (s.long.deadline? seq).isSome) :
    (s.onLongTimeout now seq).Keeps book (s.book.cancel (.long seq)) := by
  have hlong : s.hasLong seq = true := by rw [hasLong, LongTimers.has_eq, hs]
  rw [book_cancel_long]
  unfold onLongTimeout
  rw [if_neg (by simp [hlong])]
  dsimp only
  split
  · exact .of_no_actions rfl rfl
  · exact Step.Keeps.andThen (keeps_declareLongLoss _ now seq) keeps_breakStall

theorem keeps_onTimeout {s : CrossPath} {key : TimerKey} (now : Timestamp)
    (hrun : s.stopped = false) (hkey : (s.book.deadline key).isSome) :
    (s.onTimeout now key).Keeps book (s.book.cancel key) := by
  unfold onTimeout
  rw [if_neg (by simp [hrun])]
  cases key with
  | basic => simp [book] at hkey
  | short => exact keeps_onShortTimeout now hkey
  | long seq => exact keeps_onLongTimeout now hkey

theorem book_reset (s : CrossPath) : s.reset.state.book = {} :=
  (book_eq (s := s.reset.state) (b := {}) rfl
    (congrArg (Option.map _) s.short_dropShort).symm (fun _ => rfl) rfl).symm

theorem book_stop (s : CrossPath) : s.stop.state.book = { stopped := true } :=
  (book_eq (s := s.stop.state) (b := { stopped := true }) rfl
    (congrArg (Option.map _) s.short_dropShort).symm (fun _ => rfl) rfl).symm

end CrossPath

/-! ### Either estimator -/

namespace Estimator

def book : Estimator → TimerBook
  | single s => s.book
  | cross c => c.book

theorem stopped_book (e : Estimator) : e.book.stopped = e.isStopped := by
  cases e <;> rfl

theorem Fresh.book_eq {e : Estimator} (h : e.Fresh) : e.book = {} := by
  cases h with
  | single config predictor => exact (SinglePath.book_eq rfl (fun _ _ => rfl) rfl).symm
  | cross config delta cross window =>
    exact (CrossPath.book_eq rfl rfl (fun _ => rfl) rfl).symm

theorem keeps_onArrival (e : Estimator) (now : Timestamp) (a : Arrival) :
    (e.onArrival now a).Keeps book e.book := by
  cases e with
  | single s => exact (s.keeps_onArrival now a).alter rfl
  | cross c => exact (c.keeps_onArrival now a).alter rfl

theorem keeps_onRepair (e : Estimator) (a : Arrival) : (e.onRepair a).Keeps book e.book := by
  cases e with
  | single s => exact (s.keeps_onRepair a).alter rfl
  | cross c => exact (c.keeps_onRepair a).alter rfl

theorem keeps_onTimeout {e : Estimator} {key : TimerKey} (now : Timestamp)
    (hrun : e.book.stopped = false) (hkey : (e.book.deadline key).isSome) :
    (e.onTimeout now key).Keeps book (e.book.cancel key) := by
  cases e with
  | single s => exact (SinglePath.keeps_onTimeout now hrun hkey).alter rfl
  | cross c => exact (CrossPath.keeps_onTimeout now hrun hkey).alter rfl

theorem book_noteWithdrawn (e : Estimator) (seq : SeqNumber) :
    (e.noteWithdrawn seq).book = e.book := by
  cases e <;> rfl

theorem book_reset (e : Estimator) : e.reset.state.book = {} := by
  cases e with
  | single s => exact s.book_reset
  | cross c => exact c.book_reset

theorem book_stop (e : Estimator) : e.stop.state.book = { stopped := true } := by
  cases e with
  | single s => exact s.book_stop
  | cross c => exact c.book_stop

end Estimator
end LossWatch
