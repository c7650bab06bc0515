import LossWatch.Proofs.Feedback.Requests
import LossWatch.Proofs.Feedback.Service

/-!
Requests and the repairs that answer them, as the log of a session tells them: its calls, each with
what it gave back. An unanswered entry of the remembered requests stands for a request of the log that
no repair has answered since, an answered one for an answer that no request has followed. What is
forgotten, by age or for room, only makes a later repair count as unrequested.
-/

namespace LossWatch

/-- How long a repair took that answered a request. -/
def RepairOutcome.latency? : RepairOutcome → Option Duration
  | .recovered latency | .late latency => some latency
  | .duplicate | .unrequested => none

theorem RepairOutcome.latency?_ite (late : Prop) [Decidable late] (l : Duration) :
    (if late then RepairOutcome.late l else .recovered l).latency? = some l := by
  split <;> rfl

def FeedbackCall.time? : FeedbackCall → Option Timestamp
  | .arrival now _ | .repair now _ | .request now _ _ _ | .poll now => some now
  | .takeLost | .takeReceived | .takeComparison _ | .shutDown | .reset => none

structure FeedbackEntry where
  call : FeedbackCall
  result : FeedbackResult

namespace FeedbackEntry

/-- A request for `s` was accepted at `t`. -/
inductive Requests : FeedbackEntry → SeqNumber → Timestamp → Prop
  | intro (now : Timestamp) (seq : SeqNumber) (flow : Option Nat) (tie : Nat) :
    Requests ⟨.request now seq flow tie, .accepted (.ok ())⟩ seq now

/-- A repair of `s` had the outcome at `t`. -/
inductive Repairs : FeedbackEntry → SeqNumber → Timestamp → RepairOutcome → Prop
  | intro (now : Timestamp) (a : Arrival) (o : RepairOutcome) :
    Repairs ⟨.repair now a, .outcome (.ok o)⟩ a.seq now o

/-- A repair of `s` answered a request, in time or late. -/
def Answers (e : FeedbackEntry) (s : SeqNumber) : Prop :=
  ∃ now o l, e.Repairs s now o ∧ o.latency? = some l

variable {e : FeedbackEntry} {s : SeqNumber} {t : Timestamp} {o : RepairOutcome}

theorem Requests.time? (h : e.Requests s t) : e.call.time? = some t := by
  cases h
  rfl

theorem Repairs.time? (h : e.Repairs s t o) : e.call.time? = some t := by
  cases h
  rfl

theorem Answers.of_repairs (h : e.Answers s) {s' : SeqNumber} (hrepairs : e.Repairs s' t o) :
    ∃ l, s = s' ∧ o.latency? = some l := by
  obtain ⟨now, o', l, hrepairs', hl⟩ := h
  cases hrepairs
  cases hrepairs'
  exact ⟨l, rfl, hl⟩

theorem Requests.not_answers (h : e.Requests s t) (s' : SeqNumber) : ¬ e.Answers s' := by
  rintro ⟨now, o, l, hrepairs, -⟩
  cases h
  cases hrepairs

end FeedbackEntry

/-- The log has an entry with `P`, and none with `Q` after it. -/
def LastOf (P Q : FeedbackEntry → Prop) (log : List FeedbackEntry) : Prop :=
  ∃ before x since, log = before ++ x :: since ∧ P x ∧ ∀ y ∈ since, ¬ Q y

/-- `s` was requested at `t` and not answered since. -/
def AskedAt (log : List FeedbackEntry) (s : SeqNumber) (t : Timestamp) : Prop :=
  LastOf (·.Requests s t) (·.Answers s) log

def Answered (log : List FeedbackEntry) (s : SeqNumber) : Prop :=
  LastOf (·.Answers s) (fun y => ∃ t, y.Requests s t) log

section LastOf

variable {P Q : FeedbackEntry → Prop} {log : List FeedbackEntry} {e : FeedbackEntry}

theorem LastOf.append (h : LastOf P Q log) (he : ¬ Q e) : LastOf P Q (log ++ [e]) := by
  obtain ⟨before, x, since, rfl, hx, hsince⟩ := h
  refine ⟨before, x, since ++ [e], List.append_assoc .., hx, fun y hy => ?_⟩
  rcases List.mem_append.mp hy with hold | hnew
  · exact hsince y hold
  · exact List.mem_singleton.mp hnew ▸ he

theorem LastOf.last (log : List FeedbackEntry) (he : P e) : LastOf P Q (log ++ [e]) :=
  ⟨log, e, [], rfl, he, fun _ hy => absurd hy List.not_mem_nil⟩

theorem LastOf.exists_mem {pre mid : List FeedbackEntry} (h : LastOf P Q (pre ++ e :: mid))
    (hQ : Q e) (hP : ¬ P e) : ∃ x ∈ mid, P x := by
  obtain ⟨before, x, since, hsplit, hx, hsince⟩ := h
  rcases List.append_eq_append_iff.mp hsplit with ⟨as, -, hmid⟩ | ⟨bs, -, hrest⟩
  · cases as with
    | nil => exact absurd ((List.cons.inj hmid).1 ▸ hx) hP
    | cons a as =>
      have hmem : x ∈ mid := by
        rw [(List.cons.inj hmid).2]
        exact List.mem_append_right _ List.mem_cons_self
      exact ⟨x, hmem, hx⟩
  · cases bs with
    | nil => exact absurd ((List.cons.inj hrest).1 ▸ hx) hP
    | cons b bs =>
      have hmem : e ∈ since := by
        rw [(List.cons.inj hrest).2]
        exact List.mem_append_right _ List.mem_cons_self
      exact absurd hQ (hsince e hmem)

end LastOf

namespace Feedback

variable {f f' : Feedback} {c : FeedbackCall} {calls : List FeedbackCall}
  {past : List FeedbackEntry} {e : FeedbackEntry}

def log : Feedback → List FeedbackCall → List FeedbackEntry
  | _, [] => []
  | f, c :: calls => ⟨c, f.result c⟩ :: log (f.call c) calls

theorem exists_of_log_eq {pre post : List FeedbackEntry} (h : f.log calls = pre ++ e :: post) :
    ∃ before c rest, calls = before ++ c :: rest ∧ pre = f.log before ∧
      e = ⟨c, (f.after before).result c⟩ := by
  induction pre generalizing f calls with
  | nil =>
    cases calls with
    | nil => exact absurd h.symm (List.cons_ne_nil _ _)
    | cons c rest => exact ⟨[], c, rest, rfl, rfl, (List.cons.inj h).1.symm⟩
  | cons x pre ih =>
    cases calls with
    | nil => exact absurd h.symm (List.cons_ne_nil _ _)
    | cons d calls =>
      obtain ⟨hx, hrest⟩ := List.cons.inj h
      obtain ⟨before, c, rest, hcalls, hpre, he⟩ := ih hrest
      exact ⟨d :: before, c, rest, by rw [hcalls, List.cons_append], by rw [hpre, ← hx, log], he⟩

theorem call_mem_of_mem_log (h : e ∈ f.log calls) : e.call ∈ calls := by
  obtain ⟨pre, post, hsplit⟩ := List.append_of_mem h
  obtain ⟨before, c, rest, hcalls, -, he⟩ := exists_of_log_eq hsplit
  rw [hcalls, he]
  exact List.mem_append_right _ List.mem_cons_self

/-! ### What a call does to the requests -/

structure SameRequests (f f' : Feedback) : Prop where
  mode : f'.mode = f.mode
  lateAfter : f'.rtxLateAfter = f.rtxLateAfter
  requests : f'.requests = f.requests
  requested : f'.stats.rtxRequested = f.stats.rtxRequested
  answers : f'.stats.rtxRecovered + f'.stats.rtxLate = f.stats.rtxRecovered + f.stats.rtxLate

theorem SameRequests.refl (f : Feedback) : f.SameRequests f := ⟨rfl, rfl, rfl, rfl, rfl⟩

theorem SameRequests.of_service (h : f'.service = f.service) : f.SameRequests f' where
  mode := (congrArg Feedback.mode h :)
  lateAfter := (congrArg Feedback.rtxLateAfter h :)
  requests := (congrArg Feedback.requests h :)
  requested := (congrArg (·.stats.rtxRequested) h :)
  answers := (congrArg (fun f => f.stats.rtxRecovered + f.stats.rtxLate) h :)

theorem sameRequests_runBoth_count (f : Feedback) (g : FeedbackStats → FeedbackStats)
    (hrequested : (g f.stats).rtxRequested = f.stats.rtxRequested)
    (hanswers : (g f.stats).rtxRecovered + (g f.stats).rtxLate =
      f.stats.rtxRecovered + f.stats.rtxLate) (act : Monitor → Turn) :
    f.SameRequests ((f.count g).runBoth act).feedback :=
  have hran := SameRequests.of_service ((f.count g).service_runBoth act)
  ⟨hran.mode, hran.lateAfter, hran.requests, hran.requested.trans hrequested,
    hran.answers.trans hanswers⟩

structure Asks (f : Feedback) (now : Timestamp) (seq : SeqNumber) (flow : Option Nat) (tie : Nat)
    (f' : Feedback) : Prop where
  mode : f'.mode = f.mode
  lateAfter : f'.rtxLateAfter = f.rtxLateAfter
  requests : f'.requests =
    (f.requests.prune tie now (f.rtxLateAfter.times horizonFactor)).request now seq flow
  requested : f'.stats.rtxRequested = f.stats.rtxRequested + 1
  answers : f'.stats.rtxRecovered + f'.stats.rtxLate = f.stats.rtxRecovered + f.stats.rtxLate

structure Reconciles (f : Feedback) (now : Timestamp) (seq : SeqNumber) (o : RepairOutcome)
    (f' : Feedback) : Prop where
  mode : f'.mode = f.mode
  lateAfter : f'.rtxLateAfter = f.rtxLateAfter
  requests : f.requests.Finds now seq f.rtxLateAfter o f'.requests
  requested : f'.stats.rtxRequested = f.stats.rtxRequested
  answers : f'.stats.rtxRecovered + f'.stats.rtxLate =
    f.stats.rtxRecovered + f.stats.rtxLate + o.latency?.toList.length

/-- What a call but a reset does to the requests, with the entry it leaves in the log. -/
inductive Serves (f : Feedback) : FeedbackEntry → Feedback → Prop
  | idle {e : FeedbackEntry} {f' : Feedback} (same : f.SameRequests f')
      (unasked : ∀ s t, ¬ e.Requests s t) (unanswered : ∀ s t o, ¬ e.Repairs s t o) : Serves f e f'
  | request {now : Timestamp} {seq : SeqNumber} {flow : Option Nat} {tie : Nat} {f' : Feedback}
      (asks : f.Asks now seq flow tie f') :
      Serves f ⟨.request now seq flow tie, .accepted (.ok ())⟩ f'
  | repair {now : Timestamp} {a : Arrival} {o : RepairOutcome} {f' : Feedback}
      (reconciles : f.Reconciles now a.seq o f') : Serves f ⟨.repair now a, .outcome (.ok o)⟩ f'

theorem asks_onRequest (hmode : f.mode = .nack) (hrun : f.isShutDown = false) (now : Timestamp)
    (seq : SeqNumber) (flow : Option Nat) (tie : Nat) :
    f.Asks now seq flow tie (f.call (.request now seq flow tie)) := by
  simp only [Feedback.call, onRequest_eq hmode hrun, count]
  exact ⟨rfl, rfl, by simp only, rfl, rfl⟩

theorem reconciles_reconcile {ran : FeedbackReply (List LossEvent)} (h : f.SameRequests ran.feedback)
    (now : Timestamp) (seq : SeqNumber) :
    f.Reconciles now seq (reconcile ran now seq f.rtxLateAfter).value
      (reconcile ran now seq f.rtxLateAfter).feedback := by
  have hfinds := f.requests.finds_answer now seq f.rtxLateAfter
  have hcounted := h.answers
  have hrequested := h.requested
  rw [reconcile, h.requests]
  generalize f.requests.answer now seq f.rtxLateAfter = answer at hfinds
  rcases answer with ⟨_ | _ | _ | _, requests⟩ <;>
    refine ⟨h.mode, h.lateAfter, hfinds, ?_, ?_⟩ <;>
    simp only [count, countOutcome, RepairOutcome.latency?, Option.toList, List.length_cons,
      List.length_nil] <;> omega

theorem sameRequests_onArrival (hmode : f.mode = .nack) (now : Timestamp) (a : Arrival) :
    f.SameRequests (f.call (.arrival now a)) := by
  cases hrun : f.isShutDown with
  | true =>
    rw [Feedback.call, onArrival_of_shutDown hrun]
    exact .refl f
  | false =>
    rw [Feedback.call, onArrival_of_running hmode hrun]
    exact sameRequests_runBoth_count f _ rfl rfl _

theorem Serves.of_untimed (same : f.SameRequests f') (h : e.call.time? = none) :
    f.Serves e f' := by
  refine .idle same (fun s t hasked => ?_) (fun s t o hrepaired => ?_)
  · exact Option.some_ne_none t (hasked.time?.symm.trans h)
  · exact Option.some_ne_none t (hrepaired.time?.symm.trans h)

theorem serves_call (hmode : f.mode = .nack) (hc : c ≠ .reset) :
    f.Serves ⟨c, f.result c⟩ (f.call c) := by
  cases c with
  | arrival now a =>
    refine .idle (sameRequests_onArrival hmode now a) ?_ ?_
    · rintro _ _ ⟨⟩
    · rintro _ _ _ ⟨⟩
  | repair now a =>
    cases hrun : f.isShutDown with
    | true =>
      rw [Feedback.call, result, onRepair_of_shutDown hrun]
      refine .idle (.refl f) ?_ ?_
      · rintro _ _ ⟨⟩
      · rintro _ _ _ ⟨⟩
    | false =>
      rw [Feedback.call, result, onRepair_eq hmode hrun]
      exact .repair (reconciles_reconcile (sameRequests_runBoth_count f _ rfl rfl _) now a.seq)
  | request now seq flow tie =>
    cases hrun : f.isShutDown with
    | true =>
      rw [Feedback.call, result, onRequest_of_shutDown hrun]
      refine .idle (.refl f) ?_ ?_
      · rintro _ _ ⟨⟩
      · rintro _ _ _ ⟨⟩
    | false =>
      have hasks := asks_onRequest hmode hrun now seq flow tie
      rw [result, onRequest_eq hmode hrun]
      exact .request hasks
  | poll now =>
    refine .idle ?_ ?_ ?_
    · rw [Feedback.call, pollTimers]
      split
      · exact .refl f
      · exact .of_service (f.service_runBoth _)
    · rintro _ _ ⟨⟩
    · rintro _ _ _ ⟨⟩
  | takeLost => exact .of_untimed ⟨rfl, rfl, rfl, rfl, rfl⟩ rfl
  | takeReceived => exact .of_untimed ⟨rfl, rfl, rfl, rfl, rfl⟩ rfl
  | takeComparison count => exact .of_untimed ⟨rfl, rfl, rfl, rfl, rfl⟩ rfl
  | shutDown =>
    refine .of_untimed ?_ rfl
    rw [Feedback.call, shutDown]
    split
    · exact .refl f
    · exact ⟨rfl, rfl, rfl, rfl, rfl⟩
  | reset => exact absurd rfl hc

/-! ### The remembered requests -/

structure Remembers (lateAfter : Duration) (f : Feedback) : Prop where
  mode : f.mode = .nack
  lateAfter : f.rtxLateAfter = lateAfter
  distinct : f.requests.Distinct
  length : f.requests.length ≤ RepairRequests.capacity

namespace Remembers

variable {lateAfter : Duration} {now : Timestamp} {seq : SeqNumber} {flow : Option Nat}
  {o : RepairOutcome} {tie : Nat}

theorem same (h : f.Remembers lateAfter) (same : f.SameRequests f') : f'.Remembers lateAfter where
  mode := same.mode.trans h.mode
  lateAfter := same.lateAfter.trans h.lateAfter
  distinct := same.requests ▸ h.distinct
  length := same.requests ▸ h.length

theorem asks (h : f.Remembers lateAfter) (asks : f.Asks now seq flow tie f') :
    f'.Remembers lateAfter := by
  have hpruned := f.requests.prune_sublist tie now (f.rtxLateAfter.times horizonFactor)
  have hroom := f.requests.length_prune_lt tie now (f.rtxLateAfter.times horizonFactor)
  refine ⟨asks.mode.trans h.mode, asks.lateAfter.trans h.lateAfter, ?_, ?_⟩
  · rw [asks.requests]
    exact RepairRequests.distinct_request (h.distinct.sublist hpruned) now seq flow
  · rw [asks.requests]
    exact Nat.le_trans (RepairRequests.length_request_le _ now seq flow) hroom

theorem reconciles (h : f.Remembers lateAfter)
    (reconciles : f.Reconciles now seq o f') : f'.Remembers lateAfter := by
  have hmode' := reconciles.mode.trans h.mode
  have hlate' := reconciles.lateAfter.trans h.lateAfter
  have hrequests := reconciles.requests
  generalize hrs : f'.requests = rs at hrequests
  cases hrequests with
  | unrequested _ => exact ⟨hmode', hlate', hrs ▸ h.distinct, hrs ▸ h.length⟩
  | duplicate _ _ _ => exact ⟨hmode', hlate', hrs ▸ h.distinct, hrs ▸ h.length⟩
  | settled _ _ _ =>
    refine ⟨hmode', hlate', ?_, ?_⟩
    · rw [hrs]
      exact RepairRequests.distinct_settle h.distinct seq
    · rw [hrs, RepairRequests.length_settle]
      exact h.length

theorem serves (h : f.Remembers lateAfter) (hserves : f.Serves e f') :
    f'.Remembers lateAfter := by
  cases hserves with
  | idle same _ _ => exact h.same same
  | request asks => exact h.asks asks
  | repair reconciles => exact h.reconciles reconciles

theorem call (h : f.Remembers lateAfter) (c : FeedbackCall) :
    (f.call c).Remembers lateAfter := by
  by_cases hc : c = .reset
  · rw [hc]
    exact ⟨h.mode, h.lateAfter, List.nodup_nil, Nat.zero_le _⟩
  · exact h.serves (serves_call h.mode hc)

theorem after (h : f.Remembers lateAfter) (calls : List FeedbackCall) :
    (f.after calls).Remembers lateAfter := by
  induction calls generalizing f with
  | nil => exact h
  | cons c calls ih => exact ih (h.call c)

end Remembers

/-! ### Along the log -/

/-- What the remembered requests and the counters tell of the log so far. -/
structure Tracks (lateAfter : Duration) (past : List FeedbackEntry) (f : Feedback) : Prop where
  mode : f.mode = .nack
  lateAfter : f.rtxLateAfter = lateAfter
  distinct : f.requests.Distinct
  length : f.requests.length ≤ RepairRequests.capacity
  asked : ∀ r ∈ f.requests, r.answered = false → AskedAt past r.seq r.requestedAt
  answered : ∀ r ∈ f.requests, r.answered = true → Answered past r.seq
  balance : f.stats.rtxRecovered + f.stats.rtxLate + f.requests.outstanding ≤
    f.stats.rtxRequested

namespace Tracks

variable {lateAfter : Duration} {s : SeqNumber} {now : Timestamp} {o : RepairOutcome}
  {seq : SeqNumber} {flow : Option Nat} {a : Arrival}

theorem remembers (h : Tracks lateAfter past f) : f.Remembers lateAfter :=
  ⟨h.mode, h.lateAfter, h.distinct, h.length⟩

theorem idle (h : Tracks lateAfter past f) (same : f.SameRequests f')
    (unasked : ∀ s t, ¬ e.Requests s t) (unanswered : ∀ s, ¬ e.Answers s) :
    Tracks lateAfter (past ++ [e]) f' := by
  obtain ⟨mode', hlate', distinct', length'⟩ := h.remembers.same same
  obtain ⟨-, -, requests, requested, answers⟩ := same
  refine ⟨mode', hlate', distinct', length', fun r hr hopen => ?_, fun r hr hclosed => ?_, ?_⟩
  · exact (h.asked r (requests ▸ hr) hopen).append (unanswered r.seq)
  · exact (h.answered r (requests ▸ hr) hclosed).append fun ⟨t, ht⟩ => unasked r.seq t ht
  · rw [answers, requests, requested]
    exact h.balance

theorem request (h : Tracks lateAfter past f) (asks : f.Asks now seq flow tie f') :
    Tracks lateAfter (past ++ [⟨.request now seq flow tie, .accepted (.ok ())⟩]) f' := by
  have hasks := FeedbackEntry.Requests.intro now seq flow tie
  obtain ⟨mode', hlate', distinct', length'⟩ := h.remembers.asks asks
  have hpruned := f.requests.prune_sublist tie now (f.rtxLateAfter.times horizonFactor)
  have hrequests := asks.requests
  generalize f.requests.prune tie now (f.rtxLateAfter.times horizonFactor) = young at *
  have hyoung := h.distinct.sublist hpruned
  refine ⟨mode', hlate', distinct', length', fun r hr hopen => ?_, fun r hr hclosed => ?_, ?_⟩
  · rw [hrequests] at hr
    rcases RepairRequests.mem_request hyoung hr with ⟨hold, -⟩ | rfl
    · exact (h.asked r (hpruned.subset hold) hopen).append (hasks.not_answers r.seq)
    · exact .last past hasks
  · rw [hrequests] at hr
    rcases RepairRequests.mem_request hyoung hr with ⟨hold, hasked⟩ | rfl
    · refine (h.answered r (hpruned.subset hold) hclosed).append ?_
      rintro ⟨t, ht⟩
      cases ht
      exact absurd (hasked rfl) (by simp [hclosed])
    · exact absurd hclosed Bool.false_ne_true
  · have hbalance := h.balance
    have hanswers := asks.answers
    have hforgotten := RepairRequests.outstanding_le_of_sublist hpruned
    have hasked := young.outstanding_request_le now seq flow
    rw [hrequests, asks.requested]
    omega

theorem repair (h : Tracks lateAfter past f) (reconciles : f.Reconciles now a.seq o f') :
    Tracks lateAfter (past ++ [⟨.repair now a, .outcome (.ok o)⟩]) f' := by
  obtain ⟨mode', hlate', distinct', length'⟩ := h.remembers.reconciles reconciles
  obtain ⟨mode, hlate, hrequests, requested, hcount⟩ := reconciles
  have hrepairs := FeedbackEntry.Repairs.intro now a o
  generalize hrs : f'.requests = rs at hrequests
  cases hrequests with
  | unrequested _ =>
    refine h.idle ⟨mode, hlate, hrs, requested, hcount⟩ nofun fun s hs => ?_
    obtain ⟨l, -, hl⟩ := hs.of_repairs hrepairs
    cases hl
  | duplicate _ _ _ =>
    refine h.idle ⟨mode, hlate, hrs, requested, hcount⟩ nofun fun s hs => ?_
    obtain ⟨l, -, hl⟩ := hs.of_repairs hrepairs
    cases hl
  | @settled r mem number hopen =>
    refine ⟨mode', hlate', distinct', length', fun r' hr' hopen' => ?_,
      fun r' hr' hclosed => ?_, ?_⟩
    · rcases RepairRequests.mem_settle (hrs ▸ hr') with ⟨hold, hne⟩ | ⟨-, hanswered⟩
      · refine (h.asked r' hold hopen').append fun hs => hne ?_
        obtain ⟨l, hseq, -⟩ := hs.of_repairs hrepairs
        exact hseq
      · exact absurd (hopen'.symm.trans hanswered) Bool.false_ne_true
    · rcases RepairRequests.mem_settle (hrs ▸ hr') with ⟨hold, -⟩ | ⟨hseq, -⟩
      · exact (h.answered r' hold hclosed).append nofun
      · rw [hseq]
        exact .last past ⟨now, _, _, hrepairs, RepairOutcome.latency?_ite _ _⟩
    · have hbalance := h.balance
      have hsettled := RepairRequests.outstanding_settle h.distinct mem hopen
      rw [RepairOutcome.latency?_ite, Option.toList_some, List.length_singleton] at hcount
      rw [number] at hsettled
      rw [hrs, requested]
      omega

theorem serves (h : Tracks lateAfter past f) (hserves : f.Serves e f') :
    Tracks lateAfter (past ++ [e]) f' := by
  cases hserves with
  | idle same unasked unanswered =>
    exact h.idle same unasked fun s ⟨now, o, l, hrepairs, _⟩ => unanswered s now o hrepairs
  | request asks => exact h.request asks
  | repair reconciles => exact h.repair reconciles

theorem after (h : Tracks lateAfter past f) (unreset : ∀ c ∈ calls, c ≠ .reset) :
    Tracks lateAfter (past ++ f.log calls) (f.after calls) := by
  induction calls generalizing f past with
  | nil => rwa [log, List.append_nil]
  | cons c calls ih =>
    have hfirst := h.serves (serves_call h.mode (unreset c List.mem_cons_self))
    rw [log, List.append_cons]
    exact ih hfirst fun d hd => unreset d (List.mem_cons_of_mem c hd)

/-! ### What a repair finds -/

theorem latency (h : Tracks lateAfter past f) (hserves : f.Serves e f')
    (repairs : e.Repairs s now o) {l : Duration} (hl : o.latency? = some l) :
    ∃ t, AskedAt past s t ∧ l = now.since t ∧ (o = .recovered l ↔ l ≤ lateAfter) := by
  cases hserves with
  | idle _ _ unanswered => exact absurd repairs (unanswered s now o)
  | request _ => cases repairs
  | repair reconciles =>
    cases repairs with
    | intro now a o =>
      have hrequests := reconciles.requests
      generalize f'.requests = rs at hrequests
      cases hrequests with
      | unrequested _ => cases hl
      | duplicate _ _ _ => cases hl
      | @settled r mem number hopen =>
        rw [RepairOutcome.latency?_ite] at hl
        obtain rfl := Option.some.inj hl
        refine ⟨r.requestedAt, number ▸ h.asked r mem hopen, rfl, ?_⟩
        rw [h.lateAfter]
        by_cases hlate : lateAfter < now.since r.requestedAt
        · rw [if_pos hlate]
          exact ⟨nofun, fun hle => absurd hlate (Nat.not_lt.mpr hle)⟩
        · rw [if_neg hlate]
          exact ⟨fun _ => Nat.le_of_not_lt hlate, fun _ => rfl⟩

theorem duplicate (h : Tracks lateAfter past f) (hserves : f.Serves e f')
    (repairs : e.Repairs s now .duplicate) : Answered past s := by
  cases hserves with
  | idle _ _ unanswered => exact absurd repairs (unanswered s now _)
  | request _ => cases repairs
  | repair reconciles =>
    cases repairs with
    | intro now a o =>
      have hrequests := reconciles.requests
      generalize hrs : f'.requests = rs at hrequests
      generalize ho : RepairOutcome.duplicate = o at hrequests
      cases hrequests with
      | unrequested _ => cases ho
      | @duplicate r mem number hclosed => exact number ▸ h.answered r mem hclosed
      | settled _ _ _ => split at ho <;> cases ho

end Tracks

/-! ### From the start on -/

variable {caps : Capabilities} {primary comparison : Option Estimator} {r : FeedbackReply Unit}

theorem tracks_of_ofEstimators (mode : caps.mode = .nack)
    (h : ofEstimators caps primary comparison = .ok r) :
    Tracks caps.rtxLateAfter [] r.feedback := by
  obtain ⟨first, second, hr, -⟩ := eq_of_ofEstimators h
  rw [hr]
  exact ⟨mode, rfl, List.nodup_nil, Nat.zero_le _, nofun, nofun, Nat.le_refl 0⟩

theorem le_of_ordered {before rest : List FeedbackCall} {d : FeedbackCall} {t now : Timestamp}
    (h : ((before ++ c :: rest).filterMap (·.time?)).Pairwise (· ≤ ·)) (hd : d ∈ before)
    (ht : d.time? = some t) (hnow : c.time? = some now) : t ≤ now := by
  rw [List.filterMap_append, List.pairwise_append] at h
  exact h.2.2 t (List.mem_filterMap.mpr ⟨d, hd, ht⟩) now
    (List.mem_filterMap.mpr ⟨c, List.mem_cons_self, hnow⟩)

/-- Between two answers there is a request; an answer tells the time since a request that was not
answered before it; and a duplicate comes after an answer that no request has followed. -/
structure AnswersOnce (lateAfter : Duration) (log : List FeedbackEntry) : Prop where
  once : ∀ pre x mid y post s, log = pre ++ x :: mid ++ y :: post → x.Answers s → y.Answers s →
    ∃ z ∈ mid, ∃ t, z.Requests s t
  latency : ∀ pre y post s now o l, log = pre ++ y :: post → y.Repairs s now o →
    o.latency? = some l →
    ∃ t, AskedAt pre s t ∧ t ≤ now ∧ l = now.since t ∧ (o = .recovered l ↔ l ≤ lateAfter)
  duplicate : ∀ pre y post s now, log = pre ++ y :: post → y.Repairs s now .duplicate →
    Answered pre s

/-- The invariant stands before every entry, with the step that the entry is of, and nothing that
was asked before it is later. -/
theorem Tracks.exists_serves {lateAfter : Duration} (h : Tracks lateAfter [] f)
    (unreset : ∀ c ∈ calls, c ≠ .reset)
    (ordered : (calls.filterMap (·.time?)).Pairwise (· ≤ ·)) {pre post : List FeedbackEntry}
    (hlog : f.log calls = pre ++ e :: post) :
    ∃ f₁ f₂, Tracks lateAfter pre f₁ ∧ f₁.Serves e f₂ ∧
      ∀ s t now, AskedAt pre s t → e.call.time? = some now → t ≤ now := by
  obtain ⟨before, c, rest, rfl, rfl, rfl⟩ := exists_of_log_eq hlog
  have hbefore := h.after fun d hd => unreset d (List.mem_append_left _ hd)
  have hc : c ≠ .reset := unreset c (List.mem_append_right _ List.mem_cons_self)
  refine ⟨_, _, hbefore, serves_call hbefore.mode hc, ?_⟩
  rintro s t now ⟨older, z, since, hsplit, hz, -⟩ hnow
  have hmem : z ∈ f.log before := hsplit ▸ List.mem_append_right _ List.mem_cons_self
  exact le_of_ordered ordered (call_mem_of_mem_log hmem) hz.time? hnow

theorem Tracks.answersOnce {lateAfter : Duration} (h : Tracks lateAfter [] f)
    (unreset : ∀ c ∈ calls, c ≠ .reset)
    (ordered : (calls.filterMap (·.time?)).Pairwise (· ≤ ·)) :
    AnswersOnce lateAfter (f.log calls) := by
  have hlatency : ∀ pre y post s now o l, f.log calls = pre ++ y :: post →
      y.Repairs s now o → o.latency? = some l → ∃ t, AskedAt pre s t ∧ t ≤ now ∧
        l = now.since t ∧ (o = .recovered l ↔ l ≤ lateAfter) := by
    intro pre y post s now o l hlog hrepairs hl
    obtain ⟨_, _, htracks, hserves, htime⟩ := h.exists_serves unreset ordered hlog
    obtain ⟨t, hasked, hsince, hrecovered⟩ := htracks.latency hserves hrepairs hl
    exact ⟨t, hasked, htime s t now hasked hrepairs.time?, hsince, hrecovered⟩
  refine ⟨fun pre x mid y post s hlog hx hy => ?_, hlatency, fun pre y post s now hlog hy => ?_⟩
  · obtain ⟨now, o, l, hrepairs, hl⟩ := hy
    obtain ⟨t, hasked, -⟩ := hlatency _ y post s now o l hlog hrepairs hl
    obtain ⟨z, hz, hrequests⟩ := hasked.exists_mem hx fun hxs => hxs.not_answers s hx
    exact ⟨z, hz, t, hrequests⟩
  · obtain ⟨_, _, htracks, hserves, -⟩ := h.exists_serves unreset ordered hlog
    exact htracks.duplicate hserves hy

/-- Whatever the order of requests and repairs, and whatever is forgotten in between, a request is
answered at most once, and at most 2048 are remembered. -/
theorem requests_answered_once (mode : caps.mode = .nack)
    (built : ofCapabilities caps = .ok r ∨
      ∃ primary comparison, ofEstimators caps primary comparison = .ok r)
    (unreset : ∀ c ∈ calls, c ≠ .reset)
    (ordered : (calls.filterMap (·.time?)).Pairwise (· ≤ ·)) :
    AnswersOnce caps.rtxLateAfter (r.feedback.log calls) ∧
      (r.feedback.after calls).stats.rtxRecovered + (r.feedback.after calls).stats.rtxLate +
        (r.feedback.after calls).outstandingRequests ≤ (r.feedback.after calls).stats.rtxRequested ∧
      (r.feedback.after calls).requests.length ≤ 2048 := by
  have hstart : Tracks caps.rtxLateAfter [] r.feedback := by
    rcases built with h | ⟨first, second, h⟩
    · obtain ⟨first, second, hr, -⟩ := ofEstimators_of_ofCapabilities h
      exact tracks_of_ofEstimators mode hr
    · exact tracks_of_ofEstimators mode h
  have hafter := hstart.after unreset
  exact ⟨hstart.answersOnce unreset ordered, hafter.balance, hafter.length⟩

theorem requests_answered_once_of_example :
    let caps : Capabilities := {}
    let stats : FeedbackStats := {
      rtxPackets := 4, rtxRequested := 2, rtxRecovered := 1, rtxLate := 1, rtxDuplicate := 1
      rtxUnrequested := 1, rtxLatencyMicros := 1950000 }
    let calls : List FeedbackCall :=
      [.request (.ofMillis 40) (.ofNat 2) none, .repair (.ofMillis 60) ⟨.ofNat 2, none⟩,
        .repair (.ofMillis 65) ⟨.ofNat 2, none⟩, .request (.ofMillis 70) (.ofNat 2) none,
        .repair (.ofMillis 2000) ⟨.ofNat 2, none⟩, .repair (.ofMillis 2000) ⟨.ofNat 3, none⟩]
    caps.mode = .nack ∧ ∃ r, ofCapabilities caps = .ok r ∧ (∀ c ∈ calls, c ≠ .reset) ∧
      (calls.filterMap (·.time?)).Pairwise (· ≤ ·) ∧
      AnswersOnce caps.rtxLateAfter (r.feedback.log calls) ∧
      (r.feedback.after calls).stats = stats := by
  intro caps stats calls
  have hmode : caps.mode = .nack := by decide
  have hvalid : caps.validate = .ok () :=
    (validate_of_nack hmode).trans PredictorConfig.validate_default
  obtain ⟨_, hbuilt⟩ := ofCapabilities_of_valid hmode hvalid
  obtain ⟨r, -, hr, -⟩ := hbuilt none
  have hr' : ofCapabilities caps = .ok r := hr
  have unreset : ∀ c ∈ calls, c ≠ .reset := by simp [calls]
  have ordered : (calls.filterMap (·.time?)).Pairwise (· ≤ ·) := by decide
  have hstats : (ofCapabilities caps).toOption.map (fun r => (r.feedback.after calls).stats) =
      some stats := by
    decide +kernel
  rw [hr', Except.toOption, Option.map_some, Option.some.injEq] at hstats
  exact ⟨hmode, r, hr', unreset, ordered,
    (requests_answered_once hmode (.inl hr') unreset ordered).1, hstats⟩

end Feedback
end LossWatch
