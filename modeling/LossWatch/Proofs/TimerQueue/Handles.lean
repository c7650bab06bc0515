import LossWatch.Proofs.TimerQueue.Agreement

/-!
The life of a timer handle. On the map that a queue answers like, a handle holds a timer when the
timer's arming number is that of the handle; an operation ends the holding if it is one of five kinds,
and no operation begins one for a handle already given out. Over a run the handle is then live until
the first operation that ends it, and after that it does nothing, whoever has its slot.
-/

namespace LossWatch

def TimerReply.armed? {κ : Type} : TimerReply κ → Option TimerHandle
  | .armed h => some h
  | _ => none

/-- What ends the timer armed under `key` for `d` with the handle `h`: a new one under the key, a
cancellation by key or by handle, its turn to come up, and a clearing. -/
inductive TimerOp.Ends {κ : Type} (key : κ) (d : Timestamp) (h : TimerHandle) :
    TimerOp κ → TimerReply κ → Prop
  | replaced {d' : Timestamp} {reply : TimerReply κ} : Ends key d h (.arm key d') reply
  | cancelled {reply : TimerReply κ} : Ends key d h (.cancel key) reply
  | released {reply : TimerReply κ} : Ends key d h (.cancelHandle h) reply
  | popped {now : Timestamp} : Ends key d h (.popDue now) (.popped (some (key, d)))
  | cleared {reply : TimerReply κ} : Ends key d h .clear reply

namespace TimerMap

variable {κ : Type} [DecidableEq κ] {m m' : TimerMap κ} {h : TimerHandle} {key : κ} {d : Timestamp}
  {op : TimerOp κ} {reply : TimerReply κ}

def Holds (m : TimerMap κ) (h : TimerHandle) (key : κ) (d : Timestamp) : Prop :=
  ∃ n, m.timer key = some (d, n) ∧ m.handles[n]? = some h

theorem Step.handles (hs : m.Step op reply m') : m'.handles = m.handles ++ reply.armed?.toList := by
  cases hs <;> simp [TimerMap.arm, erase, TimerMap.clear, TimerReply.armed?]

theorem Step.nodup (hs : m.Step op reply m') (hd : m.handles.Nodup) : m'.handles.Nodup := by
  cases hs with
  | arm fresh => exact hd.append (List.nodup_singleton _) (List.disjoint_singleton.mpr fresh)
  | cancel => exact hd
  | release => exact hd
  | stale => exact hd
  | pop => exact hd
  | wait => exact hd
  | clear => exact hd

theorem holds_arm_iff {k : κ} {d' : Timestamp} {h' : TimerHandle} (fresh : h' ∉ m.handles)
    (hh : h ∈ m.handles) : (m.arm k d' h').Holds h key d ↔ key ≠ k ∧ m.Holds h key d := by
  have hne : h' ≠ h := fun he => fresh (he ▸ hh)
  have hget : ∀ n : Nat, (m.handles ++ [h'])[n]? = some h ↔ m.handles[n]? = some h := by
    intro n
    rw [List.getElem?_append]
    split
    · exact Iff.rfl
    · rename_i hge
      rw [List.getElem?_eq_none (Nat.le_of_not_lt hge), List.getElem?_singleton]
      split <;> simp [hne]
  simp only [Holds, TimerMap.arm, hget]
  by_cases hk : key = k
  · -- The number of the new timer is past all those given out.
    simp [hk]
  · simp [hk]

theorem holds_erase_iff {k : κ} : (m.erase k).Holds h key d ↔ key ≠ k ∧ m.Holds h key d := by
  by_cases hk : key = k <;> simp [Holds, erase, hk]

omit [DecidableEq κ] in
theorem Holds.key_eq (hn : m.Numbered) (hd : m.handles.Nodup) {k : κ} {d' : Timestamp}
    (hm : m.Holds h key d) (hm' : m.Holds h k d') : key = k := by
  obtain ⟨n, ht, hg⟩ := hm
  obtain ⟨n', ht', hg'⟩ := hm'
  obtain ⟨hlt, -⟩ := List.getElem?_eq_some_iff.mp hg
  have hsame : n = n' := (List.getElem?_inj hlt hd).mp (hg.trans hg'.symm)
  subst hsame
  exact hn ht ht'

omit [DecidableEq κ] in
theorem Holds.deadline_eq {d' : Timestamp} {n : Nat} (hm : m.Holds h key d)
    (ht : m.timer key = some (d', n)) : d = d' := by
  obtain ⟨n', ht', -⟩ := hm
  rw [ht] at ht'
  exact (congrArg Prod.fst (Option.some.inj ht')).symm

/-- A handle given out holds after an operation what it held before, unless the operation ends it. -/
theorem Step.holds_iff (hs : m.Step op reply m') (hn : m.Numbered) (hd : m.handles.Nodup)
    (hh : h ∈ m.handles) : m'.Holds h key d ↔ m.Holds h key d ∧ ¬ op.Ends key d h reply := by
  cases hs with
  | @arm k d' h' fresh =>
    rw [holds_arm_iff fresh hh, and_comm]
    refine and_congr_right fun _ => not_congr ⟨?_, ?_⟩
    · rintro rfl; exact .replaced
    · rintro ⟨⟩; rfl
  | @cancel k =>
    rw [holds_erase_iff, and_comm]
    refine and_congr_right fun _ => not_congr ⟨?_, ?_⟩
    · rintro rfl; exact .cancelled
    · rintro ⟨⟩; rfl
  | @release k d' n h' timer handle =>
    rw [holds_erase_iff, and_comm]
    refine and_congr_right fun hm => not_congr ⟨?_, ?_⟩
    · rintro rfl
      obtain ⟨n', ht, hg⟩ := hm
      rw [timer] at ht
      obtain ⟨-, rfl⟩ := Prod.mk.inj (Option.some.inj ht)
      obtain rfl : h' = h := Option.some.inj (handle.symm.trans hg)
      exact .released
    · rintro ⟨⟩
      exact hm.key_eq hn hd ⟨n, timer, handle⟩
  | @stale h' gone =>
    refine (and_iff_left_of_imp fun hm => ?_).symm
    rintro ⟨⟩
    obtain ⟨n, ht, hg⟩ := hm
    exact gone ht hg
  | @pop k due now first hdue =>
    rw [holds_erase_iff, and_comm]
    refine and_congr_right fun hm => not_congr ⟨?_, ?_⟩
    · rintro rfl
      obtain ⟨n, ht, -⟩ := first
      obtain rfl := hm.deadline_eq ht
      exact .popped
    · rintro ⟨⟩; rfl
  | wait later =>
    refine (and_iff_left_of_imp fun _ => ?_).symm
    rintro ⟨⟩
  | clear => simp [Holds, TimerMap.clear, TimerOp.Ends.cleared]

end TimerMap

namespace TimerQueue

variable {κ : Type} [DecidableEq κ] {q q' : TimerQueue κ} {m : TimerMap κ} {h : TimerHandle}
  {key : κ} {d : Timestamp}

def after (q : TimerQueue κ) : List (TimerOp κ) → TimerQueue κ
  | [] => q
  | op :: ops => (q.call op).2.after ops

/-- Each operation of a run with its reply. -/
def log (q : TimerQueue κ) : List (TimerOp κ) → List (TimerOp κ × TimerReply κ)
  | [] => []
  | op :: ops => (op, (q.call op).1) :: (q.call op).2.log ops

def handlesGiven (q : TimerQueue κ) (ops : List (TimerOp κ)) : List TimerHandle :=
  (q.log ops).filterMap (·.2.armed?)

theorem after_append (q : TimerQueue κ) (ops ops' : List (TimerOp κ)) :
    q.after (ops ++ ops') = (q.after ops).after ops' := by
  induction ops generalizing q with
  | nil => rfl
  | cons op ops ih => exact ih (q.call op).2

theorem log_append (q : TimerQueue κ) (ops ops' : List (TimerOp κ)) :
    q.log (ops ++ ops') = q.log ops ++ (q.after ops).log ops' := by
  induction ops generalizing q with
  | nil => rfl
  | cons op ops ih => exact congrArg _ (ih (q.call op).2)

omit [DecidableEq κ] in
theorem armings_append (ops ops' : List (TimerOp κ)) :
    armings (ops ++ ops') = armings ops + armings ops' := by
  induction ops with
  | nil => simp [armings]
  | cons op ops ih =>
    rw [List.cons_append, armings_cons, ih, armings_cons op ops, Nat.add_assoc]

structure Without (q' q : TimerQueue κ) (key : κ) (h : TimerHandle) : Prop where
  liveEntry : ∀ h', q'.liveEntry h' = if h' = h then none else q.liveEntry h'
  deadline? : ∀ k, q'.deadline? k = if k = key then none else q.deadline? k
  keys : q'.keys = q.keys.filter (· ≠ key)
  agenda : q'.agenda = q.agenda

theorem Indexed.without_release (hq : q.Indexed) (hl : q.liveEntry h = some (key, d)) :
    ((q.forget key).release h).Without q key h where
  liveEntry h' := liveEntry_release (q := q.forget key) hl h'
  deadline? := hq.deadline?_release_forget hl
  keys := by simp [TimerQueue.keys, forget, List.filter_map, Function.comp_def]
  agenda := by rw [agenda_release]; rfl

omit [DecidableEq κ] in
theorem Refines.holds_iff (hr : q.Refines m) : m.Holds h key d ↔ q.liveEntry h = some (key, d) := by
  constructor
  · rintro ⟨n, ht, hg⟩
    obtain ⟨h', hl, hm⟩ := hr.timer.mp ht
    obtain rfl : h' = h := Option.some.inj ((hr.numbered hm).symm.trans hg)
    exact hl
  · intro hl
    obtain ⟨n, hm⟩ := hr.scheduled.alarmed hl
    exact ⟨n, hr.timer.mpr ⟨h, hl, hm⟩, hr.numbered hm⟩

/-! ### A run -/

theorem Refines.after (hr : q.Refines m) (hd : m.handles.Nodup) (ops : List (TimerOp κ))
    (few : q.nextOrder + armings ops < generations) :
    ∃ m', (q.after ops).Refines m' ∧ m'.handles.Nodup ∧
      m'.handles = m.handles ++ q.handlesGiven ops ∧
      (q.after ops).nextOrder = q.nextOrder + armings ops := by
  induction ops generalizing q m with
  | nil => exact ⟨m, hr, hd, (List.append_nil _).symm, rfl⟩
  | cons op ops ih =>
    rw [armings_cons] at few
    have few' : q.nextOrder < generations := by omega
    obtain ⟨m₁, hstep, hr₁⟩ := hr.call few' op
    have horder := nextOrder_call hr few' op
    obtain ⟨m', hr', hd', hhandles, horder'⟩ := ih hr₁ (hstep.nodup hd) (by omega)
    refine ⟨m', hr', hd', ?_, ?_⟩
    · rw [hhandles, hstep.handles, List.append_assoc]
      congr 1
      cases hreply : (q.call op).1.armed? <;> simp [handlesGiven, log, hreply]
    · rw [TimerQueue.after, horder', horder, armings_cons op ops, Nat.add_assoc]

theorem Refines.liveEntry_after_iff (hr : q.Refines m) (hd : m.handles.Nodup)
    (hh : h ∈ m.handles) (ops : List (TimerOp κ))
    (few : q.nextOrder + armings ops < generations) :
    (q.after ops).liveEntry h = some (key, d) ↔
      q.liveEntry h = some (key, d) ∧ ∀ e ∈ q.log ops, ¬ e.1.Ends key d h e.2 := by
  induction ops generalizing q m with
  | nil => simp [TimerQueue.after, log]
  | cons op ops ih =>
    rw [armings_cons] at few
    have few' : q.nextOrder < generations := by omega
    obtain ⟨m₁, hstep, hr₁⟩ := hr.call few' op
    have horder := nextOrder_call hr few' op
    have hh₁ : h ∈ m₁.handles := by
      rw [hstep.handles]
      exact List.mem_append_left _ hh
    rw [TimerQueue.after, log, List.forall_mem_cons, ih hr₁ (hstep.nodup hd) hh₁ (by omega),
      ← hr₁.holds_iff, hstep.holds_iff hr.numbered_timers hd hh, hr.holds_iff, and_assoc]

theorem Refines.liveEntry_arm_after_iff (hr : q.Refines m) (hd : m.handles.Nodup)
    {ops : List (TimerOp κ)} (few : q.nextOrder + (armings ops + 1) < generations) {k : κ}
    {d' : Timestamp} :
    ((q.arm key d).2.after ops).liveEntry (q.arm key d).1 = some (k, d') ↔
      (key, d) = (k, d') ∧ ∀ e ∈ (q.arm key d).2.log ops, ¬ e.1.Ends k d' (q.arm key d).1 e.2 := by
  have few' : q.nextOrder < generations := by omega
  have hfresh := (hr.arm_fresh few' key d).1
  have hr₁ := hr.arm few' key d
  have hstep : m.Step (.arm key d) _ _ := .arm hfresh
  have hmem : (q.arm key d).1 ∈ (m.arm key d (q.arm key d).1).handles := by simp [TimerMap.arm]
  rw [hr₁.liveEntry_after_iff (hstep.nodup hd) hmem ops (by rw [nextOrder_arm]; omega),
    hr.indexed.liveEntry_arm, if_pos rfl, Option.some.injEq]

theorem Refines.isLive_arm_after_iff (hr : q.Refines m) (hd : m.handles.Nodup)
    {ops : List (TimerOp κ)} (few : q.nextOrder + (armings ops + 1) < generations) :
    ((q.arm key d).2.after ops).isLive (q.arm key d).1 = true ↔
      ∀ e ∈ (q.arm key d).2.log ops, ¬ e.1.Ends key d (q.arm key d).1 e.2 := by
  rw [isLive, Option.isSome_iff_exists]
  constructor
  · rintro ⟨⟨k, d'⟩, hl⟩
    obtain ⟨he, hends⟩ := (hr.liveEntry_arm_after_iff hd few).mp hl
    obtain ⟨rfl, rfl⟩ := Prod.mk.inj he
    exact hends
  · exact fun hends => ⟨(key, d), (hr.liveEntry_arm_after_iff hd few).mpr ⟨rfl, hends⟩⟩

/-- With fewer armings than a slot has generations, a handle is live until the first operation that
ends its timer and never again. Live, it cancels that timer and no other; stale, it changes nothing.
No two armings return the same handle. -/
theorem stale_handles_inert (before later : List (TimerOp κ)) (key : κ) (d : Timestamp)
    (few : armings (before ++ .arm key d :: later) < generations) :
    let armed := (empty.after before).arm key d
    let h := armed.1
    let q := armed.2.after later
    (q.isLive h = true ↔ ∀ e ∈ armed.2.log later, ¬ e.1.Ends key d h e.2) ∧
    (∀ n, (armed.2.after (later.take n)).isLive h = false → q.isLive h = false) ∧
    (q.isLive h = true → q.liveEntry h = some (key, d) ∧
      ∃ q', q.call (.cancelHandle h) = (.released key, q') ∧ q'.Without q key h) ∧
    (q.isLive h = false → q.call (.cancelHandle h) = (.stale ⟨h⟩, q)) ∧
    (empty.handlesGiven (before ++ .arm key d :: later)).Nodup := by
  intro armed h q
  obtain ⟨m', hr', hd', hgiven, -⟩ := Refines.empty.after .nil _
    (by rw [TimerQueue.empty, Nat.zero_add]; exact few)
  have hindexed : q.Indexed := by
    rw [after_append] at hr'
    exact hr'.indexed
  rw [armings_append] at few
  obtain ⟨m, hr, hd, -, horder⟩ := Refines.empty.after .nil before
    (by rw [TimerQueue.empty, Nat.zero_add]; exact Nat.lt_of_le_of_lt (Nat.le_add_right ..) few)
  have few₀ : (empty.after before).nextOrder + (armings later + 1) < generations := by
    rw [horder, TimerQueue.empty, Nat.zero_add]
    exact few
  have hlive : q.isLive h = true ↔ ∀ e ∈ armed.2.log later, ¬ e.1.Ends key d h e.2 :=
    hr.isLive_arm_after_iff hd few₀
  refine ⟨hlive, ?_, ?_, ?_, ?_⟩
  · intro n hdead
    have hsplit := armings_append (later.take n) (later.drop n)
    rw [List.take_append_drop] at hsplit
    rw [← Bool.not_eq_true, hlive]
    rw [← Bool.not_eq_true, hr.isLive_arm_after_iff hd (by omega)] at hdead
    intro hends
    refine hdead fun e he => hends e ?_
    rw [← later.take_append_drop n, log_append]
    exact List.mem_append_left _ he
  · intro hq
    have hl := (hr.liveEntry_arm_after_iff hd few₀).mpr ⟨rfl, hlive.mp hq⟩
    exact ⟨hl, _, call_cancelHandle_of_live hl, hindexed.without_release hl⟩
  · intro hq
    exact call_cancelHandle_of_none (by simpa [isLive] using hq)
  · rw [hgiven] at hd'
    exact hd'

theorem stale_handles_inert_of_reused_slot :
    let later : List (TimerOp Nat) := [.cancel 1, .arm 2 (.ofMillis 9)]
    let q := (TimerQueue.empty.arm 1 (.ofMillis 5)).2.after later
    armings ([] ++ .arm 1 (.ofMillis 5) :: later) < generations ∧
      q.isLive ⟨0, 0⟩ = false ∧ q.isLive ⟨0, 1⟩ = true ∧
      q.call (.cancelHandle ⟨0, 0⟩) = (.stale ⟨⟨0, 0⟩⟩, q) :=
  ⟨by decide, by decide, by decide,
    (stale_handles_inert [] [.cancel 1, .arm 2 (.ofMillis 9)] 1 (.ofMillis 5)
      (by decide)).2.2.2.1 (by decide)⟩

end TimerQueue
end LossWatch
