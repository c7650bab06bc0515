import LossWatch.Proofs.TimerQueue.Agenda

/-!
A timer queue answers like a plain map from keys to a deadline and an arming number. Each operation
on the queue is a step of the map with the same reply, and the questions asked of the queue are
questions about the map. Slots, generations, the agenda and its compaction never show.
-/

namespace LossWatch

inductive TimerOp (κ : Type)
  | arm (key : κ) (deadline : Timestamp)
  | cancel (key : κ)
  | cancelHandle (h : TimerHandle)
  | popDue (now : Timestamp)
  | clear

inductive TimerReply (κ : Type)
  | armed (h : TimerHandle)
  | cancelled (wasArmed : Bool)
  | released (key : κ)
  | stale (fault : StaleHandle)
  | popped (timer : Option (κ × Timestamp))
  | cleared

/-- The timers by key, each with its deadline and arming number, and the handles given out so far,
listed by arming number. -/
structure TimerMap (κ : Type) where
  timer : κ → Option (Timestamp × Nat) := fun _ => none
  handles : List TimerHandle := []

namespace TimerMap

variable {κ : Type} [DecidableEq κ]

def arm (m : TimerMap κ) (key : κ) (deadline : Timestamp) (h : TimerHandle) : TimerMap κ where
  timer k := if k = key then some (deadline, m.handles.length) else m.timer k
  handles := m.handles ++ [h]

def erase (m : TimerMap κ) (key : κ) : TimerMap κ :=
  { m with timer := fun k => if k = key then none else m.timer k }

def clear (m : TimerMap κ) : TimerMap κ := { m with timer := fun _ => none }

def First (m : TimerMap κ) (key : κ) (due : Timestamp) : Prop :=
  ∃ n, m.timer key = some (due, n) ∧
    ∀ {k d n'}, m.timer k = some (d, n') → due < d ∨ due = d ∧ n ≤ n'

/-- What an operation does to the map and replies. Only the handle for a new timer is left open, and
it is one that was never given out before. -/
inductive Step (m : TimerMap κ) : TimerOp κ → TimerReply κ → TimerMap κ → Prop
  | arm {key : κ} {deadline : Timestamp} {h : TimerHandle} (fresh : h ∉ m.handles) :
      Step m (.arm key deadline) (.armed h) (m.arm key deadline h)
  | cancel {key : κ} : Step m (.cancel key) (.cancelled (m.timer key).isSome) (m.erase key)
  | release {key : κ} {d : Timestamp} {n : Nat} {h : TimerHandle}
      (timer : m.timer key = some (d, n)) (handle : m.handles[n]? = some h) :
      Step m (.cancelHandle h) (.released key) (m.erase key)
  | stale {h : TimerHandle}
      (gone : ∀ {key d n}, m.timer key = some (d, n) → m.handles[n]? ≠ some h) :
      Step m (.cancelHandle h) (.stale ⟨h⟩) m
  | pop {key : κ} {due now : Timestamp} (first : m.First key due) (hdue : due ≤ now) :
      Step m (.popDue now) (.popped (some (key, due))) (m.erase key)
  | wait {now : Timestamp} (later : ∀ {key d n}, m.timer key = some (d, n) → now < d) :
      Step m (.popDue now) (.popped none) m
  | clear : Step m .clear .cleared m.clear

end TimerMap

namespace TimerQueue

variable {κ : Type} [DecidableEq κ] {q q' : TimerQueue κ} {m : TimerMap κ} {h : TimerHandle}
  {key : κ} {d : Timestamp}

def call (q : TimerQueue κ) : TimerOp κ → TimerReply κ × TimerQueue κ
  | .arm key deadline => let (h, q) := q.arm key deadline; (.armed h, q)
  | .cancel key => let (wasArmed, q) := q.cancel key; (.cancelled wasArmed, q)
  | .cancelHandle h =>
    match q.cancelHandle h with
    | .ok (key, q) => (.released key, q)
    | .error fault => (.stale fault, q)
  | .popDue now => let (timer, q) := q.popDue now; (.popped timer, q)
  | .clear => (.cleared, q.clear)

theorem call_cancelHandle_of_live (hl : q.liveEntry h = some (key, d)) :
    q.call (.cancelHandle h) = (.released key, (q.forget key).release h) := by
  simp only [call, TimerQueue.cancelHandle, hl]

theorem call_cancelHandle_of_none (hl : q.liveEntry h = none) :
    q.call (.cancelHandle h) = (.stale ⟨h⟩, q) := by
  simp only [call, TimerQueue.cancelHandle, hl]

structure Answers (q : TimerQueue κ) (m : TimerMap κ) : Prop where
  isArmed : ∀ key, q.isArmed key = (m.timer key).isSome
  deadline : ∀ key, q.deadline? key = (m.timer key).map (·.1)
  nextDeadline : ∀ d, q.nextDeadline = some d ↔
    (∃ key n, m.timer key = some (d, n)) ∧ ∀ {key d' n}, m.timer key = some (d', n) → d ≤ d'
  noDeadline : q.nextDeadline = none ↔ ∀ key, m.timer key = none
  keys_nodup : q.keys.Nodup
  mem_keys : ∀ {key}, key ∈ q.keys ↔ (m.timer key).isSome
  size : ∀ {l : List κ}, l.Nodup → (∀ {key}, key ∈ l ↔ (m.timer key).isSome) → q.size = l.length
  isEmpty : q.isEmpty = true ↔ ∀ key, m.timer key = none

/-- Queue and map answer alike now, reply alike to the next operation, and so on. -/
def AnswersAlike (q : TimerQueue κ) (m : TimerMap κ) : List (TimerOp κ) → Prop
  | [] => q.Answers m
  | op :: ops => q.Answers m ∧
      ∃ m', m.Step op (q.call op).1 m' ∧ AnswersAlike (q.call op).2 m' ops

def armings : List (TimerOp κ) → Nat
  | [] => 0
  | .arm .. :: ops => armings ops + 1
  | _ :: ops => armings ops

/-! ### The earliest deadline -/

omit [DecidableEq κ] in
theorem merge_min_eq_some_iff {a b : Option Timestamp} :
    a.merge min b = some d ↔
      (a = some d ∨ b = some d) ∧ (∀ x, a = some x → d ≤ x) ∧ ∀ x, b = some x → d ≤ x := by
  have hmin : ∀ x y : Timestamp, min x y = if x ≤ y then x else y := fun _ _ => rfl
  cases a <;> cases b <;>
    simp only [Option.merge, hmin] <;> grind [Timestamp.le_iff, Timestamp.eq_iff]

omit [DecidableEq κ] in
theorem foldl_merge_min_eq_some_iff {α : Type} {f : α → Option Timestamp} {l : List α}
    {acc : Option Timestamp} :
    l.foldl (fun earliest p => earliest.merge min (f p)) acc = some d ↔
      (acc = some d ∨ ∃ p ∈ l, f p = some d) ∧ (∀ x, acc = some x → d ≤ x) ∧
        ∀ p ∈ l, ∀ x, f p = some x → d ≤ x := by
  induction l generalizing acc with
  | nil => grind [Timestamp.le_iff]
  | cons p l ih =>
    rw [List.foldl_cons, ih]
    constructor <;> grind [merge_min_eq_some_iff, Timestamp.le_iff]

omit [DecidableEq κ] in
theorem foldl_merge_min_eq_none_iff {α : Type} {f : α → Option Timestamp} {l : List α}
    {acc : Option Timestamp} :
    l.foldl (fun earliest p => earliest.merge min (f p)) acc = none ↔
      acc = none ∧ ∀ p ∈ l, f p = none := by
  induction l generalizing acc with
  | nil => simp
  | cons p l ih =>
    rw [List.foldl_cons, ih, List.forall_mem_cons]
    cases acc <;> cases f p <;> simp [Option.merge]

omit [DecidableEq κ] in
theorem nextDeadline_eq (q : TimerQueue κ) : q.nextDeadline =
    q.byKey.foldl (fun earliest p => earliest.merge min (q.deadlineOf p.2)) none := rfl

omit [DecidableEq κ] in
theorem Indexed.mem_byKey_iff (hq : q.Indexed) :
    (∃ p ∈ q.byKey, q.deadlineOf p.2 = some d) ↔ ∃ key h, q.liveEntry h = some (key, d) := by
  constructor
  · rintro ⟨⟨key, h⟩, hm, hd⟩
    obtain ⟨d', hl⟩ := hq.held hm
    rw [deadlineOf, hl] at hd
    exact ⟨key, h, by rw [hl, ← Option.some.inj hd]⟩
  · rintro ⟨key, h, hl⟩
    exact ⟨(key, h), hq.keyed hl, by rw [deadlineOf, hl]; rfl⟩

omit [DecidableEq κ] in
theorem Indexed.nextDeadline_eq_some_iff (hq : q.Indexed) :
    q.nextDeadline = some d ↔ (∃ key h, q.liveEntry h = some (key, d)) ∧
      ∀ {key h d'}, q.liveEntry h = some (key, d') → d ≤ d' := by
  have hall : (∀ p ∈ q.byKey, ∀ x, q.deadlineOf p.2 = some x → d ≤ x) ↔
      ∀ {key h d'}, q.liveEntry h = some (key, d') → d ≤ d' := by
    constructor
    · intro hle key h d' hl
      exact hle _ (hq.keyed hl) d' (by rw [deadlineOf, hl]; rfl)
    · intro hle p hp x hx
      obtain ⟨key, h, hl⟩ := hq.mem_byKey_iff.mp ⟨p, hp, hx⟩
      exact hle hl
  rw [nextDeadline_eq, foldl_merge_min_eq_some_iff, hq.mem_byKey_iff, hall]
  simp

omit [DecidableEq κ] in
theorem Indexed.nextDeadline_eq_none_iff (hq : q.Indexed) :
    q.nextDeadline = none ↔ ∀ h, q.liveEntry h = none := by
  rw [nextDeadline_eq, foldl_merge_min_eq_none_iff]
  simp only [true_and, deadlineOf, Option.map_eq_none_iff]
  constructor
  · intro hnone h
    cases hl : q.liveEntry h with
    | none => rfl
    | some e => rw [← hl]; exact hnone (e.1, h) (hq.keyed (d := e.2) hl)
  · exact fun hnone p _ => hnone p.2

/-! ### The relation between queue and map -/

/-- The map shows the live timers, each with the arming number of its alarm, and knows every handle
that was given out. -/
structure Refines (q : TimerQueue κ) (m : TimerMap κ) : Prop where
  indexed : q.Indexed
  scheduled : q.Scheduled
  timer : ∀ {key d n}, m.timer key = some (d, n) ↔
    ∃ h, q.liveEntry h = some (key, d) ∧ ⟨d, n, h⟩ ∈ q.agenda
  count : m.handles.length = q.nextOrder
  issued : ∀ {h}, h ∈ m.handles → q.Issued h
  numbered : ∀ {a}, a ∈ q.agenda → m.handles[a.order]? = some a.handle

omit [DecidableEq κ] in
theorem Refines.empty : (empty : TimerQueue κ).Refines {} := by
  refine ⟨.empty, .empty, ?_, rfl, ?_, ?_⟩ <;> simp [TimerQueue.empty, liveEntry]

omit [DecidableEq κ] in
theorem Refines.timer_isSome_iff (hr : q.Refines m) :
    (m.timer key).isSome ↔ ∃ d h, q.liveEntry h = some (key, d) := by
  rw [Option.isSome_iff_exists]
  constructor
  · rintro ⟨⟨d, n⟩, he⟩
    obtain ⟨h, hl, -⟩ := hr.timer.mp he
    exact ⟨d, h, hl⟩
  · rintro ⟨d, h, hl⟩
    obtain ⟨n, hn⟩ := hr.scheduled.alarmed hl
    exact ⟨(d, n), hr.timer.mpr ⟨h, hl, hn⟩⟩

theorem Refines.deadline?_eq (hr : q.Refines m) (key : κ) :
    q.deadline? key = (m.timer key).map (·.1) := by
  apply Option.ext
  intro d
  rw [hr.indexed.deadline?_eq_some_iff, Option.map_eq_some_iff]
  constructor
  · rintro ⟨h, hl⟩
    obtain ⟨n, hn⟩ := hr.scheduled.alarmed hl
    exact ⟨(d, n), hr.timer.mpr ⟨h, hl, hn⟩, rfl⟩
  · rintro ⟨⟨d', n⟩, he, rfl⟩
    obtain ⟨h, hl, -⟩ := hr.timer.mp he
    exact ⟨h, hl⟩

omit [DecidableEq κ] in
theorem Refines.mem_keys_iff (hr : q.Refines m) : key ∈ q.keys ↔ (m.timer key).isSome := by
  rw [hr.indexed.mem_keys_iff, hr.timer_isSome_iff]

omit [DecidableEq κ] in
theorem Refines.timer_eq_none_iff (hr : q.Refines m) :
    (∀ key, m.timer key = none) ↔ ∀ h, q.liveEntry h = none := by
  constructor
  · intro hnone h
    cases hl : q.liveEntry h with
    | none => rfl
    | some e =>
      have hs := hr.timer_isSome_iff.mpr ⟨e.2, h, hl⟩
      simp [hnone] at hs
  · intro hnone key
    cases he : m.timer key with
    | none => rfl
    | some t =>
      obtain ⟨h, hl, -⟩ := hr.timer.mp he
      simp [hnone] at hl

theorem Refines.answers (hr : q.Refines m) : q.Answers m := by
  have hq := hr.indexed
  refine ⟨?_, hr.deadline?_eq, ?_, ?_, hq.keys_nodup, hr.mem_keys_iff, ?_, ?_⟩
  · intro key
    rw [hq.isArmed_eq, hr.deadline?_eq, Option.isSome_map]
  · intro d
    have hall : (∀ {key h d'}, q.liveEntry h = some (key, d') → d ≤ d') ↔
        ∀ {key d' n}, m.timer key = some (d', n) → d ≤ d' := by
      constructor
      · intro hle key d' n he
        obtain ⟨h, hl, -⟩ := hr.timer.mp he
        exact hle hl
      · intro hle key h d' hl
        obtain ⟨n, hn⟩ := hr.scheduled.alarmed hl
        exact hle (hr.timer.mpr ⟨h, hl, hn⟩)
    have hex : (∃ key h, q.liveEntry h = some (key, d)) ↔ ∃ key n, m.timer key = some (d, n) := by
      constructor
      · rintro ⟨key, h, hl⟩
        obtain ⟨n, hn⟩ := hr.scheduled.alarmed hl
        exact ⟨key, n, hr.timer.mpr ⟨h, hl, hn⟩⟩
      · rintro ⟨key, n, he⟩
        obtain ⟨h, hl, -⟩ := hr.timer.mp he
        exact ⟨key, h, hl⟩
    rw [hq.nextDeadline_eq_some_iff, hex, hall]
  · rw [hq.nextDeadline_eq_none_iff, hr.timer_eq_none_iff]
  · intro l hnodup hl
    have hperm : q.keys.Perm l := (List.perm_ext_iff_of_nodup hq.keys_nodup hnodup).mpr
      fun key => by rw [hr.mem_keys_iff, hl]
    rw [← hperm.length_eq, size, keys, List.length_map]
  · have hkeys : q.isEmpty = true ↔ q.keys = [] := by simp [isEmpty, keys]
    rw [hkeys, List.eq_nil_iff_forall_not_mem]
    simp only [hr.mem_keys_iff, Bool.not_eq_true, Option.isSome_eq_false_iff, Option.isNone_iff_eq_none]

/-! ### One operation -/

theorem Refines.timer_release_forget (hr : q.Refines m) (hl : q.liveEntry h = some (key, d))
    {l : List Alarm} (hsub : l.Sublist q.agenda)
    (hdead : ∀ a ∈ q.agenda, a ∉ l → a.handle = h ∨ q.liveEntry a.handle = none) {k : κ}
    {d' : Timestamp} {n : Nat} :
    (m.erase key).timer k = some (d', n) ↔
      ∃ h', (if h' = h then none else q.liveEntry h') = some (k, d') ∧ ⟨d', n, h'⟩ ∈ l := by
  simp only [TimerMap.erase]
  constructor
  · intro he
    by_cases hk : k = key
    · simp [hk] at he
    · rw [if_neg hk] at he
      obtain ⟨h', hlive, hmem⟩ := hr.timer.mp he
      have hne : h' ≠ h := by rintro rfl; simp_all
      refine ⟨h', by rw [if_neg hne]; exact hlive, ?_⟩
      apply Classical.byContradiction
      intro hout
      rcases hdead _ hmem hout with hh | hh
      · exact hne hh
      · simp [hh] at hlive
  · rintro ⟨h', hlive, hmem⟩
    by_cases hne : h' = h
    · simp [hne] at hlive
    · rw [if_neg hne] at hlive
      have hk : k ≠ key := by
        rintro rfl
        exact hne (hr.indexed.live_unique (q := q) hlive hl)
      rw [if_neg hk]
      exact hr.timer.mpr ⟨h', hlive, hsub.subset hmem⟩

theorem Refines.release_forget (hr : q.Refines m) (few : q.nextOrder < generations)
    (hl : q.liveEntry h = some (key, d)) {l : List Alarm} (hsub : l.Sublist q.agenda)
    (hdead : ∀ a ∈ q.agenda, a ∉ l → a.handle = h ∨ q.liveEntry a.handle = none) :
    (({ q with agenda := l }.forget key).release h).Refines (m.erase key) := by
  have hl' : ({ q with agenda := l }.forget key).liveEntry h = some (key, d) := hl
  have hagenda : (({ q with agenda := l }.forget key).release h).agenda = l := by
    rw [agenda_release]; rfl
  refine ⟨(hr.indexed.with_agenda l).release_forget hl,
    hr.scheduled.release_forget few hl hsub hdead, ?_, ?_, ?_, ?_⟩
  · intro k d' n
    rw [hagenda]
    simp only [liveEntry_release hl']
    exact hr.timer_release_forget hl hsub hdead
  · rw [nextOrder_release]; exact hr.count
  · intro h' hh'
    obtain ⟨s, hs, hlt⟩ := (hr.issued hh').release hr.scheduled few hl
    refine ⟨s, ?_, hlt⟩
    rw [← hs, release_of_live hl', release_of_live hl]; rfl
  · intro a ha
    rw [hagenda] at ha
    exact hr.numbered (hsub.subset ha)

theorem Refines.erase_of_none (hr : q.Refines m) (hn : q.deadline? key = none) :
    m.erase key = m := by
  have hm : m.timer key = none := by
    rw [hr.deadline?_eq, Option.map_eq_none_iff] at hn
    exact hn
  have ht : (fun k => if k = key then none else m.timer k) = m.timer := by
    funext k
    by_cases hk : k = key
    · rw [if_pos hk, hk, hm]
    · rw [if_neg hk]
  rw [TimerMap.erase, ht]

theorem Refines.cancel (hr : q.Refines m) (few : q.nextOrder < generations) (key : κ) :
    (q.cancel key).1 = (m.timer key).isSome ∧ (q.cancel key).2.Refines (m.erase key) := by
  rcases hr.indexed.cancel_cases key with ⟨hn, he⟩ | ⟨h, d, hl, he⟩
  · rw [he, hr.erase_of_none hn]
    rw [hr.deadline?_eq, Option.map_eq_none_iff] at hn
    exact ⟨by simp [hn], hr⟩
  · rw [he]
    refine ⟨(hr.timer_isSome_iff.mpr ⟨d, h, hl⟩).symm, ?_⟩
    exact hr.release_forget few hl (.refl _) fun a ha hout => absurd ha hout

theorem Refines.arm_fresh (hr : q.Refines m) (few : q.nextOrder < generations) (key : κ)
    (d : Timestamp) :
    (q.arm key d).1 ∉ m.handles ∧ ∀ {h}, h ∈ m.handles → (q.arm key d).2.Issued h := by
  have hc := (hr.cancel few key).2
  obtain ⟨g, hs⟩ := hc.indexed.claim.empty
  refine ⟨fun hin => ?_, fun hin => ?_⟩
  · have hi := (hc.issued hin).claim
    rw [TimerQueue.arm, handle_place hs] at hi
    exact not_issued_of_empty hs hi
  · exact Issued.place hs (hc.issued hin).claim

omit [DecidableEq κ] in
theorem mem_agenda_compact {a : Alarm} (ha : a ∈ q.compact.agenda) : a ∈ q.agenda := by
  unfold compact at ha
  split at ha
  · exact ha
  · exact List.mem_of_mem_filter ha

theorem mem_agenda_arm {a : Alarm} (ha : a ∈ (q.arm key d).2.agenda) :
    a = ⟨d, q.nextOrder, (q.arm key d).1⟩ ∨ a ∈ q.agenda := by
  have hm := mem_agenda_compact ha
  rw [(enlist_perm _ _).mem_iff, List.mem_cons, nextOrder_claim, nextOrder_cancel, agenda_claim,
    agenda_cancel] at hm
  exact hm

theorem Refines.handle_ne_of_mem (hr : q.Refines m) (few : q.nextOrder < generations) {a : Alarm}
    (ha : a ∈ q.agenda) : a.handle ≠ (q.arm key d).1 := by
  intro he
  have hmem := List.mem_of_getElem? (hr.numbered ha)
  rw [he] at hmem
  exact (hr.arm_fresh few key d).1 hmem

theorem Refines.mem_agenda_arm_iff (hr : q.Refines m) (few : q.nextOrder < generations)
    {k : κ} {d' : Timestamp} {n : Nat} (hl : (q.arm key d).2.liveEntry h = some (k, d')) :
    ⟨d', n, h⟩ ∈ (q.arm key d).2.agenda ↔
      if h = (q.arm key d).1 then n = q.nextOrder else ⟨d', n, h⟩ ∈ q.agenda := by
  -- The new schedule has some alarm for the timer, which settles which one it is.
  obtain ⟨n', hn'⟩ := (hr.scheduled.arm hr.indexed few key d).alarmed hl
  by_cases hh : h = (q.arm key d).1
  · have horder : ∀ {i}, ⟨d', i, h⟩ ∈ (q.arm key d).2.agenda → i = q.nextOrder := by
      intro i hi
      rcases mem_agenda_arm hi with hx | hx
      · exact congrArg Alarm.order hx
      · exact absurd hh (hr.handle_ne_of_mem few hx)
    rw [if_pos hh]
    constructor
    · exact horder
    · rintro rfl
      rwa [horder hn'] at hn'
  · have hold : ∀ {i}, ⟨d', i, h⟩ ∈ (q.arm key d).2.agenda → ⟨d', i, h⟩ ∈ q.agenda := by
      intro i hi
      rcases mem_agenda_arm hi with hx | hx
      · exact absurd (congrArg Alarm.handle hx) hh
      · exact hx
    rw [if_neg hh]
    constructor
    · exact hold
    · intro hm
      rwa [hr.scheduled.alarm_unique hm (hold hn') rfl]

theorem Refines.timer_arm (hr : q.Refines m) (few : q.nextOrder < generations) (key : κ)
    (d : Timestamp) {k : κ} {d' : Timestamp} {n : Nat} :
    (m.arm key d (q.arm key d).1).timer k = some (d', n) ↔
      ∃ h, (q.arm key d).2.liveEntry h = some (k, d') ∧ ⟨d', n, h⟩ ∈ (q.arm key d).2.agenda := by
  have hlive := hr.indexed.liveEntry_arm key d
  have hnew : (q.arm key d).2.liveEntry (q.arm key d).1 = some (key, d) := by
    rw [hlive, if_pos rfl]
  by_cases hk : k = key
  · subst hk
    have htimer : (m.arm k d (q.arm k d).1).timer k = some (d, q.nextOrder) := by
      rw [← hr.count]
      simp [TimerMap.arm]
    rw [htimer, Option.some.injEq, Prod.mk.injEq]
    constructor
    · rintro ⟨rfl, rfl⟩
      exact ⟨_, hnew, (hr.mem_agenda_arm_iff few hnew).mpr (by rw [if_pos rfl])⟩
    · rintro ⟨h, hl, hm⟩
      have hh : h = (q.arm k d).1 := (hr.indexed.arm k d).live_unique hl hnew
      have hn := (hr.mem_agenda_arm_iff few hl).mp hm
      rw [if_pos hh] at hn
      rw [hh, hnew] at hl
      exact ⟨congrArg Prod.snd (Option.some.inj hl), hn.symm⟩
  · have htimer : (m.arm key d (q.arm key d).1).timer k = (m.erase key).timer k := by
      simp [TimerMap.arm, TimerMap.erase, hk]
    rw [htimer, (hr.cancel few key).2.timer, agenda_cancel]
    constructor
    · rintro ⟨h, hl, hm⟩
      have hh : h ≠ (q.arm key d).1 := hr.handle_ne_of_mem few hm
      have hl' : (q.arm key d).2.liveEntry h = some (k, d') := by rw [hlive, if_neg hh, hl]
      exact ⟨h, hl', (hr.mem_agenda_arm_iff few hl').mpr (by rwa [if_neg hh])⟩
    · rintro ⟨h, hl, hm⟩
      have hh : h ≠ (q.arm key d).1 := by
        rintro rfl
        rw [hnew] at hl
        exact hk (congrArg Prod.fst (Option.some.inj hl)).symm
      have hm' := (hr.mem_agenda_arm_iff few hl).mp hm
      rw [if_neg hh] at hm'
      rw [hlive, if_neg hh] at hl
      exact ⟨h, hl, hm'⟩

theorem Refines.arm (hr : q.Refines m) (few : q.nextOrder < generations) (key : κ)
    (d : Timestamp) : (q.arm key d).2.Refines (m.arm key d (q.arm key d).1) := by
  have hlive := hr.indexed.liveEntry_arm key d
  refine ⟨hr.indexed.arm key d, hr.scheduled.arm hr.indexed few key d, hr.timer_arm few key d, ?_,
    ?_, ?_⟩
  · simp [TimerMap.arm, hr.count, nextOrder_arm]
  · intro h hh
    rcases List.mem_append.mp hh with hh | hh
    · exact (hr.arm_fresh few key d).2 hh
    · rw [List.mem_singleton.mp hh]
      exact issued_of_live (e := (key, d)) (by rw [hlive, if_pos rfl])
  · intro a hm
    rcases mem_agenda_arm hm with rfl | hm
    · rw [← hr.count]; simp [TimerMap.arm]
    · have hn := hr.numbered hm
      rw [TimerMap.arm, List.getElem?_append_left (List.getElem?_eq_some_iff.mp hn).1]
      exact hn

theorem Refines.cancelHandle (hr : q.Refines m) (few : q.nextOrder < generations)
    (h : TimerHandle) :
    ∃ m', m.Step (.cancelHandle h) (q.call (.cancelHandle h)).1 m' ∧
      (q.call (.cancelHandle h)).2.Refines m' := by
  cases hl : q.liveEntry h with
  | none =>
    rw [call_cancelHandle_of_none hl]
    refine ⟨m, .stale ?_, hr⟩
    intro key d n he hn
    obtain ⟨h', hl', hm⟩ := hr.timer.mp he
    have hsame : h' = h := Option.some.inj ((hr.numbered hm).symm.trans hn)
    rw [hsame, hl] at hl'
    simp at hl'
  | some e =>
    obtain ⟨key, d⟩ := e
    obtain ⟨n, hm⟩ := hr.scheduled.alarmed hl
    rw [call_cancelHandle_of_live hl]
    exact ⟨m.erase key, .release (hr.timer.mpr ⟨h, hl, hm⟩) (hr.numbered hm),
      hr.release_forget few hl (.refl _) fun a ha hout => absurd ha hout⟩

theorem Refines.popDue (hr : q.Refines m) (few : q.nextOrder < generations) (now : Timestamp) :
    ∃ m', m.Step (.popDue now) (.popped (q.popDue now).1) m' ∧ (q.popDue now).2.Refines m' := by
  cases he : q.popDue now with
  | mk timer q' =>
    cases timer with
    | none =>
      obtain ⟨rest, rfl, hsub, hout, hlate⟩ := hr.scheduled.popDue_none he
      refine ⟨m, .wait ?_, hr.indexed.with_agenda rest, hr.scheduled.with_agenda hsub hout, ?_,
        hr.count, hr.issued, fun ha => hr.numbered (hsub.subset ha)⟩
      · intro key d n ht
        obtain ⟨h, hl, -⟩ := hr.timer.mp ht
        exact hlate hl
      · intro key d n
        rw [hr.timer]
        constructor
        · rintro ⟨h, hl, hm⟩
          refine ⟨h, hl, Classical.byContradiction fun hgone => ?_⟩
          simp [hout _ hm hgone] at hl
        · rintro ⟨h, hl, hm⟩
          exact ⟨h, hl, hsub.subset hm⟩
    | some timer =>
      obtain ⟨key, due⟩ := timer
      obtain ⟨n, h, rest, rfl, hdue, hl, hm, hsub, hout, hfirst⟩ := hr.scheduled.popDue_some he
      refine ⟨m.erase key, .pop ⟨n, hr.timer.mpr ⟨h, hl, hm⟩, ?_⟩ hdue,
        hr.release_forget few hl hsub hout⟩
      intro k d n' ht
      obtain ⟨h', hl', hm'⟩ := hr.timer.mp ht
      by_cases hin : (⟨d, n', h'⟩ : Alarm) ∈ rest
      · rcases hfirst _ hin with hlt | ⟨heq, hlt⟩
        · exact Or.inl hlt
        · exact Or.inr ⟨heq, Nat.le_of_lt hlt⟩
      -- An alarm that is gone is that of the popped timer itself, or dead.
      · rcases hout _ hm' hin with hh | hh
        · have hsame := hr.scheduled.alarm_unique hm hm' hh.symm
          simp only [Alarm.mk.injEq] at hsame
          exact Or.inr ⟨hsame.1, Nat.le_of_eq hsame.2.1⟩
        · simp [hh] at hl'

theorem Refines.clear (hr : q.Refines m) (few : q.nextOrder < generations) :
    q.clear.Refines m.clear := by
  obtain ⟨hs, horder, hissued, hkeys, hagenda⟩ := hr.scheduled.clear hr.indexed few
  refine ⟨hr.indexed.clear.1, hs, ?_, ?_, fun hh => hissued _ (hr.issued hh), ?_⟩
  · intro key d n
    rw [hagenda]
    simp [TimerMap.clear]
  · rw [horder]; exact hr.count
  · intro a ha
    simp [hagenda] at ha

theorem Refines.call (hr : q.Refines m) (few : q.nextOrder < generations) (op : TimerOp κ) :
    ∃ m', m.Step op (q.call op).1 m' ∧ (q.call op).2.Refines m' := by
  cases op with
  | arm key d => exact ⟨_, .arm (hr.arm_fresh few key d).1, hr.arm few key d⟩
  | cancel key =>
    obtain ⟨hreply, hr'⟩ := hr.cancel few key
    refine ⟨m.erase key, ?_, hr'⟩
    show m.Step _ (.cancelled (q.cancel key).1) _
    rw [hreply]
    exact .cancel
  | cancelHandle h => exact hr.cancelHandle few h
  | popDue now => exact hr.popDue few now
  | clear => exact ⟨_, .clear, hr.clear few⟩

/-! ### Every run -/

theorem nextOrder_call (hr : q.Refines m) (few : q.nextOrder < generations) (op : TimerOp κ) :
    (q.call op).2.nextOrder = q.nextOrder + armings [op] := by
  cases op with
  | arm key d => exact nextOrder_arm q key d
  | cancel key => exact nextOrder_cancel q key
  | cancelHandle h =>
    cases hl : q.liveEntry h with
    | none => rw [call_cancelHandle_of_none hl]; rfl
    | some e => rw [call_cancelHandle_of_live hl, nextOrder_release]; rfl
  | popDue now => exact nextOrder_popDue q now
  | clear => exact (hr.scheduled.clear hr.indexed few).2.1

omit [DecidableEq κ] in
theorem armings_cons (op : TimerOp κ) (ops : List (TimerOp κ)) :
    armings (op :: ops) = armings [op] + armings ops := by
  cases op <;> simp [armings, Nat.add_comm]

theorem Refines.answersAlike (hr : q.Refines m) (ops : List (TimerOp κ))
    (few : q.nextOrder + armings ops < generations) : q.AnswersAlike m ops := by
  induction ops generalizing q m with
  | nil => exact hr.answers
  | cons op ops ih =>
    rw [armings_cons] at few
    have few' : q.nextOrder < generations := by omega
    obtain ⟨m', hstep, hr'⟩ := hr.call few' op
    have horder := nextOrder_call hr few' op
    exact ⟨hr.answers, m', hstep, ih hr' (by omega)⟩

/-- From the start on, a queue that arms fewer timers than a slot has generations is not told apart
from the map. -/
theorem queue_answers_like_map (ops : List (TimerOp κ)) (few : armings ops < generations) :
    (empty : TimerQueue κ).AnswersAlike {} ops :=
  Refines.empty.answersAlike ops (by simpa [TimerQueue.empty] using few)

theorem queue_answers_like_map_of_reused_slots :
    let ops : List (TimerOp Nat) :=
      [.arm 1 (.ofMillis 5), .arm 1 (.ofMillis 9), .cancelHandle ⟨0, 0⟩, .arm 2 (.ofMillis 9),
        .cancel 1, .arm 3 (.ofMillis 9), .popDue (.ofMillis 9), .clear]
    armings ops < generations ∧ (empty : TimerQueue Nat).AnswersAlike {} ops :=
  ⟨by decide, queue_answers_like_map _ (by decide)⟩

end TimerQueue
end LossWatch
