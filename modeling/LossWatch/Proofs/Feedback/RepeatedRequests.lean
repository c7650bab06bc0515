import LossWatch.Proofs.Feedback.Repairs

/-!
A request made again before it is answered. If its entry outlasts the pruning that comes first, it keeps
the time of the first request, and a repair is measured from there. Pruning makes room for a new entry
though none may come: with all places taken by young requests the oldest goes, and if that is the one
asked for again, it comes back with the time of the repetition.
-/

namespace LossWatch

namespace RepairRequests

variable {rs : RepairRequests} {r : RepairRequest} {now : Timestamp} {seq : SeqNumber}
  {horizon lateAfter : Duration} {tie : Nat}

/-- All places are taken by requests that are not too old, and none of them was made before this
one. -/
def CrowdsOut (rs : RepairRequests) (r : RepairRequest) (now : Timestamp) (horizon : Duration) :
    Prop :=
  (rs.young now horizon).length = capacity ∧
    ∀ other ∈ rs.young now horizon, r.requestedAt ≤ other.requestedAt

theorem mem_young : r ∈ rs.young now horizon ↔ r ∈ rs ∧ now.since r.requestedAt ≤ horizon := by
  rw [young, List.mem_filter, decide_eq_true_eq]

/-! ### Which one goes -/

theorem oldest?_of_lt (hr : r ∈ rs)
    (hothers : ∀ other ∈ rs, other ≠ r → r.requestedAt < other.requestedAt) :
    rs.oldest? tie = some r := by
  obtain ⟨o, ho⟩ := exists_oldest? hr tie
  have hsame : o = r := by
    apply Classical.byContradiction
    intro hne
    obtain ⟨hmem, hleast⟩ := mem_oldests.mp (oldest?_mem ho)
    exact absurd (hleast r hr) (Nat.not_le_of_lt (hothers o hmem hne))
  rw [ho, hsame]

theorem not_crowdsOut_of_older {older : RepairRequest} (h : older ∈ rs.young now horizon)
    (hless : older.requestedAt < r.requestedAt) : ¬ rs.CrowdsOut r now horizon := by
  rintro ⟨-, hleast⟩
  exact absurd (hleast older h) (Nat.not_le_of_lt hless)

theorem prune_of_lt (h : (rs.young now horizon).length < capacity) :
    rs.prune tie now horizon = rs.young now horizon := by
  have hnone : (rs.young now horizon).length + 1 - capacity = 0 := by omega
  rw [prune]
  show forgetOldests tie ((rs.young now horizon).length + 1 - capacity) (rs.young now horizon) = _
  rw [hnone, forgetOldests]

theorem prune_of_full (h : (rs.young now horizon).length = capacity) :
    rs.prune tie now horizon = (rs.young now horizon).forgetOldest tie := by
  have hone : (rs.young now horizon).length + 1 - capacity = 1 := by omega
  rw [prune]
  show forgetOldests tie ((rs.young now horizon).length + 1 - capacity) (rs.young now horizon) = _
  rw [hone, forgetOldests, forgetOldests]

/-- A young request goes only if all places are taken and the choice falls on it. -/
theorem mem_prune (hd : rs.Distinct) (hlength : rs.length ≤ capacity)
    (hr : r ∈ rs.young now horizon)
    (kept : (rs.young now horizon).length = capacity →
      (rs.young now horizon).oldest? tie ≠ some r) : r ∈ rs.prune tie now horizon := by
  have hyoung : (rs.young now horizon).length ≤ capacity :=
    Nat.le_trans (List.length_filter_le ..) hlength
  rcases Nat.lt_or_eq_of_le hyoung with hlt | hfull
  · rwa [prune_of_lt hlt]
  · obtain ⟨o, ho⟩ := exists_oldest? hr tie
    have hne : r.seq ≠ o.seq := by
      intro he
      have hsame : r = o := List.inj_on_of_nodup_map (hd.sublist List.filter_sublist) hr
        (mem_oldests.mp (oldest?_mem ho)).1 he
      exact kept hfull (hsame ▸ ho)
    rw [prune_of_full hfull, forgetOldest, ho]
    exact List.mem_filter.mpr ⟨hr, decide_eq_true hne⟩

theorem crowdsOut_of_oldest? (hfull : (rs.young now horizon).length = capacity)
    (holdest : (rs.young now horizon).oldest? tie = some r) : rs.CrowdsOut r now horizon :=
  ⟨hfull, (mem_oldests.mp (oldest?_mem holdest)).2⟩

theorem seq_ne_of_oldest? (hfull : (rs.young now horizon).length = capacity)
    (holdest : (rs.young now horizon).oldest? tie = some r) :
    ∀ other ∈ rs.prune tie now horizon, other.seq ≠ r.seq := by
  rw [prune_of_full hfull, forgetOldest, holdest]
  intro other hother
  simpa using (List.mem_filter.mp hother).2

/-! ### Asking again -/

theorem find?_request_of_mem (hd : rs.Distinct) (hr : r ∈ rs) (hopen : r.answered = false)
    (now : Timestamp) (flow : Option Nat) :
    (rs.request now r.seq flow).find? r.seq = some r := by
  have hfind := find?_of_mem hd hr
  rw [request, hfind]
  simp only [hopen, Bool.false_eq_true, if_false]
  exact hfind

theorem request_of_unknown (h : ∀ r ∈ rs, r.seq ≠ seq) (now : Timestamp) (flow : Option Nat) :
    rs.request now seq flow = rs ++ [⟨seq, now, flow, false⟩] := by
  have hfind : rs.find? seq = none := by simpa [find?] using h
  have hforget : rs.forget seq = rs :=
    List.filter_eq_self.mpr fun r hr => decide_eq_true (h r hr)
  rw [request, hfind]
  exact congrArg (· ++ _) hforget

theorem find?_request_of_unknown (h : ∀ r ∈ rs, r.seq ≠ seq) (now : Timestamp)
    (flow : Option Nat) :
    (rs.request now seq flow).find? seq = some ⟨seq, now, flow, false⟩ := by
  have hfind : List.find? (fun r => decide (r.seq = seq)) rs = none := by simpa using h
  rw [request_of_unknown h, find?, List.find?_append, hfind]
  simp

theorem answer_of_find? (h : rs.find? seq = some r) (hopen : r.answered = false) (now : Timestamp)
    (lateAfter : Duration) : (rs.answer now seq lateAfter).1 =
      if lateAfter < now.since r.requestedAt then .late (now.since r.requestedAt)
      else .recovered (now.since r.requestedAt) := by
  rw [answer, h]
  simp [hopen]

end RepairRequests

namespace Feedback

variable {f f' : Feedback} {calls : List FeedbackCall} {lateAfter : Duration}
  {r₀ : RepairRequest} {now : Timestamp} {seq : SeqNumber} {flow : Option Nat} {tie : Nat}
  {caps : Capabilities} {r : FeedbackReply Unit}

theorem remembers_of_built (mode : caps.mode = .nack)
    (built : ofCapabilities caps = .ok r ∨
      ∃ primary comparison, ofEstimators caps primary comparison = .ok r) :
    r.feedback.Remembers caps.rtxLateAfter := by
  have hbuilt : ∃ primary comparison, ofEstimators caps primary comparison = .ok r := by
    rcases built with h | h
    · obtain ⟨first, second, hr, -⟩ := ofEstimators_of_ofCapabilities h
      exact ⟨first, second, hr⟩
    · exact h
  obtain ⟨first, second, hr⟩ := hbuilt
  exact (tracks_of_ofEstimators mode hr).remembers

/-! ### The call -/

theorem asks_of_accepted (hf : f.Remembers lateAfter)
    (h : f.onRequest now seq flow tie = .ok f') : f.Asks now seq flow tie f' ∧ f'.isShutDown = false := by
  have hrun : f.isShutDown = false := by
    rw [← Bool.not_eq_true]
    intro hdown
    rw [onRequest_of_shutDown hdown] at h
    cases h
  have hasks := asks_onRequest hf.mode hrun now seq flow tie
  rw [Feedback.call, h] at hasks
  rw [onRequest_eq hf.mode hrun, Except.ok.injEq] at h
  refine ⟨hasks, ?_⟩
  rw [← h, count]
  exact hrun

theorem Asks.find?_of_kept (hf : f.Remembers lateAfter) (asks : f.Asks now seq flow tie f')
    (remembered : f.requests.find? seq = some r₀) (unanswered : r₀.answered = false)
    (recent : now.since r₀.requestedAt ≤ lateAfter.times horizonFactor)
    (kept : (f.requests.young now (lateAfter.times horizonFactor)).length =
        RepairRequests.capacity →
      (f.requests.young now (lateAfter.times horizonFactor)).oldest? tie ≠ some r₀) :
    f'.requests.find? seq = some r₀ := by
  obtain ⟨hmem, rfl⟩ := RepairRequests.mem_of_find? remembered
  have hkept := RepairRequests.mem_prune hf.distinct hf.length
    (RepairRequests.mem_young.mpr ⟨hmem, recent⟩) kept
  rw [asks.requests, hf.lateAfter]
  exact RepairRequests.find?_request_of_mem
    (hf.distinct.sublist (RepairRequests.prune_sublist ..)) hkept unanswered now flow

theorem Asks.find?_of_oldest (hf : f.Remembers lateAfter) (asks : f.Asks now seq flow tie f')
    (remembered : f.requests.find? seq = some r₀)
    (full : (f.requests.young now (lateAfter.times horizonFactor)).length =
      RepairRequests.capacity)
    (oldest : (f.requests.young now (lateAfter.times horizonFactor)).oldest? tie = some r₀) :
    f'.requests.find? seq = some ⟨seq, now, flow, false⟩ := by
  obtain ⟨-, rfl⟩ := RepairRequests.mem_of_find? remembered
  rw [asks.requests, hf.lateAfter]
  exact RepairRequests.find?_request_of_unknown (RepairRequests.seq_ne_of_oldest? full oldest) now
    flow

theorem Remembers.value_onRepair (hf : f.Remembers lateAfter) (hrun : f.isShutDown = false)
    (remembered : f.requests.find? seq = some r₀) (unanswered : r₀.answered = false)
    (later : Timestamp) (position : Option FlowPosition) :
    ∃ reply, f.onRepair later ⟨seq, position⟩ = .ok reply ∧
      reply.value = if lateAfter < later.since r₀.requestedAt
        then .late (later.since r₀.requestedAt) else .recovered (later.since r₀.requestedAt) := by
  refine ⟨_, onRepair_eq hf.mode hrun later ⟨seq, position⟩, ?_⟩
  have hsame := sameRequests_runBoth_count f
    (fun s => { s with rtxPackets := s.rtxPackets + 1 }) rfl rfl
    (·.onRepair later ⟨seq, position⟩)
  rw [reconcile, hsame.requests, hf.lateAfter]
  exact RepairRequests.answer_of_find? remembered unanswered later lateAfter

/-! ### A full table -/

def requestsInTurn (n : Nat) : List FeedbackCall :=
  (List.range n).map fun i => .request (.ofNat (1000 + i)) (.ofNat i) none

def rememberedInTurn (n : Nat) : RepairRequests :=
  (List.range n).map fun i => ⟨.ofNat i, .ofNat (1000 + i), none, false⟩

theorem length_rememberedInTurn (n : Nat) : (rememberedInTurn n).length = n := by
  rw [rememberedInTurn, List.length_map, List.length_range]

theorem young_rememberedInTurn {n : Nat} {horizon : Duration}
    (recent : now.since (.ofNat 1000) ≤ horizon) :
    (rememberedInTurn n).young now horizon = rememberedInTurn n := by
  refine List.filter_eq_self.mpr fun r hr => ?_
  obtain ⟨i, -, rfl⟩ := List.mem_map.mp hr
  have hfirst : (now.micros - min 1000 lastMicros) * 1000 ≤ horizon.nanos := recent
  have hlater : (now.micros - min (1000 + i) lastMicros) * 1000 ≤ horizon.nanos := by
    refine Nat.le_trans (Nat.mul_le_mul_right _ ?_) hfirst
    omega
  exact decide_eq_true hlater

theorem seq_ne_rememberedInTurn {n : Nat} (hn : n < 65536) :
    ∀ r ∈ rememberedInTurn n, r.seq ≠ .ofNat n := by
  intro r hr he
  obtain ⟨i, hi, rfl⟩ := List.mem_map.mp hr
  have hlt := List.mem_range.mp hi
  have hraw : i % 65536 = n % 65536 := congrArg SeqNumber.raw he
  omega

theorem after_requestsInTurn (hf : f.Remembers (.ofMillis 500)) (hrun : f.isShutDown = false)
    (hempty : f.requests = []) {n : Nat} (hn : n ≤ 2048) :
    (f.after (requestsInTurn n)).requests = rememberedInTurn n ∧
      (f.after (requestsInTurn n)).isShutDown = false := by
  induction n with
  | zero => exact ⟨hempty, hrun⟩
  | succ n ih =>
    obtain ⟨htable, hrunning⟩ := ih (by omega)
    have hbefore := hf.after (requestsInTurn n)
    obtain ⟨f₁, haccepted⟩ : ∃ f₁, (f.after (requestsInTurn n)).onRequest (.ofNat (1000 + n))
        (.ofNat n) none = .ok f₁ := ⟨_, onRequest_eq hbefore.mode hrunning _ _ _ 0⟩
    have hcall : f.after (requestsInTurn (n + 1)) = f₁ := by
      have hlast : f.after (requestsInTurn (n + 1)) = (f.after (requestsInTurn n)).call
          (.request (.ofNat (1000 + n)) (.ofNat n) none) := by
        simp only [requestsInTurn, List.range_succ, List.map_append, Feedback.after,
          List.foldl_append, List.map_cons, List.map_nil, List.foldl_cons, List.foldl_nil]
      rw [hlast, Feedback.call, haccepted]
    obtain ⟨hasks, hdown⟩ := asks_of_accepted hbefore haccepted
    have hyoung : (rememberedInTurn n).young (.ofNat (1000 + n))
        ((Duration.ofMillis 500).times horizonFactor) = rememberedInTurn n := by
      apply young_rememberedInTurn
      show (min (1000 + n) lastMicros - min 1000 lastMicros) * 1000 ≤ 500 * 1000000 * 4
      omega
    have hroom : (rememberedInTurn n).length < RepairRequests.capacity := by
      rw [length_rememberedInTurn]
      exact hn
    rw [hcall]
    refine ⟨?_, hdown⟩
    rw [hasks.requests, hbefore.lateAfter, htable,
      RepairRequests.prune_of_lt (by rw [hyoung]; exact hroom), hyoung,
      RepairRequests.request_of_unknown (seq_ne_rememberedInTurn (by omega))]
    simp only [rememberedInTurn, List.range_succ, List.map_append, List.map_cons, List.map_nil]

theorem exists_full_session : ∃ r, ofCapabilities {} = .ok r ∧
    (r.feedback.after (requestsInTurn 2048)).Remembers (.ofMillis 500) ∧
    (r.feedback.after (requestsInTurn 2048)).requests = rememberedInTurn 2048 ∧
    (r.feedback.after (requestsInTurn 2048)).isShutDown = false := by
  have hmode : ({} : Capabilities).mode = .nack := by decide
  have hvalid : ({} : Capabilities).validate = .ok () :=
    (validate_of_nack hmode).trans PredictorConfig.validate_default
  obtain ⟨_, hbuilt⟩ := ofCapabilities_of_valid hmode hvalid
  obtain ⟨r, _, hr, hfeedback, -⟩ := hbuilt none
  have hstart : r.feedback.Remembers (.ofMillis 500) := remembers_of_built hmode (.inl hr)
  obtain ⟨htable, hrun⟩ := after_requestsInTurn hstart (by rw [hfeedback]) (by rw [hfeedback])
    (Nat.le_refl 2048)
  exact ⟨r, hr, hstart.after _, htable, hrun⟩

theorem mem_rememberedInTurn {n i : Nat} (hi : i < n) :
    ⟨.ofNat i, .ofNat (1000 + i), none, false⟩ ∈ rememberedInTurn n :=
  List.mem_map.mpr ⟨i, List.mem_range.mpr hi, rfl⟩

theorem oldest?_rememberedInTurn {n : Nat} (hn : 0 < n) (hlast : n ≤ 65536) :
    (rememberedInTurn n).oldest? tie = some ⟨.ofNat 0, .ofNat 1000, none, false⟩ := by
  refine RepairRequests.oldest?_of_lt (mem_rememberedInTurn hn) fun r hr hne => ?_
  obtain ⟨i, hi, rfl⟩ := List.mem_map.mp hr
  have hlt := List.mem_range.mp hi
  have hi : i ≠ 0 := by
    rintro rfl
    exact hne rfl
  show min 1000 lastMicros < min (1000 + i) lastMicros
  rw [lastMicros]
  omega

/-! ### The first time and the last -/

/-- A request made again keeps its first time, and a repair is measured from there, unless all places
are taken and none of the requests is older. If it then is the one that goes, it comes back as made
now. -/
theorem repeated_request_keeps_time (mode : caps.mode = .nack)
    (built : ofCapabilities caps = .ok r ∨
      ∃ primary comparison, ofEstimators caps primary comparison = .ok r)
    (remembered : (r.feedback.after calls).requests.find? seq = some r₀)
    (unanswered : r₀.answered = false)
    (accepted : (r.feedback.after calls).onRequest now seq flow tie = .ok f')
    (recent : now.since r₀.requestedAt ≤ caps.rtxLateAfter.times 4) :
    let requests := (r.feedback.after calls).requests
    (¬ requests.CrowdsOut r₀ now (caps.rtxLateAfter.times 4) →
      f'.requests.find? seq = some r₀ ∧
      ∀ later position, ∃ reply, f'.onRepair later ⟨seq, position⟩ = .ok reply ∧
        reply.value = if caps.rtxLateAfter < later.since r₀.requestedAt
          then .late (later.since r₀.requestedAt) else .recovered (later.since r₀.requestedAt)) ∧
    (requests.CrowdsOut r₀ now (caps.rtxLateAfter.times 4) →
      f'.requests.find? seq =
        some (if (requests.young now (caps.rtxLateAfter.times 4)).oldest? tie = some r₀
          then ⟨seq, now, flow, false⟩ else r₀)) := by
  have hf := (remembers_of_built mode built).after calls
  obtain ⟨hasks, hrun⟩ := asks_of_accepted hf accepted
  refine ⟨fun room => ?_, fun crowded => ?_⟩
  · have hkept := hasks.find?_of_kept hf remembered unanswered recent fun full oldest =>
      room (RepairRequests.crowdsOut_of_oldest? full oldest)
    exact ⟨hkept, (hf.asks hasks).value_onRepair hrun hkept unanswered⟩
  · split
    · exact hasks.find?_of_oldest hf remembered crowded.1 ‹_›
    · exact hasks.find?_of_kept hf remembered unanswered recent fun _ => ‹_›

theorem repeated_request_keeps_time_of_second :
    let caps : Capabilities := {}
    let calls := requestsInTurn 2048
    let r₀ : RepairRequest := ⟨.ofNat 1, .ofNat 1001, none, false⟩
    caps.mode = .nack ∧ ∃ r f', ofCapabilities caps = .ok r ∧
      (r.feedback.after calls).requests.find? (.ofNat 1) = some r₀ ∧
      (r.feedback.after calls).onRequest (.ofNat 3100) (.ofNat 1) none = .ok f' ∧
      (Timestamp.ofNat 3100).since r₀.requestedAt ≤ caps.rtxLateAfter.times 4 ∧
      f'.requests.find? (.ofNat 1) = some r₀ ∧
      ∃ reply, f'.onRepair (.ofNat 4001) ⟨.ofNat 1, none⟩ = .ok reply ∧
        reply.value = .recovered (.ofMicros 3000) := by
  intro caps calls r₀
  have hmode : caps.mode = .nack := by decide
  obtain ⟨r, hr, hf, htable, hrun⟩ := exists_full_session
  have hfound : (r.feedback.after calls).requests.find? (.ofNat 1) = some r₀ :=
    RepairRequests.find?_of_mem (r := r₀) hf.distinct (htable ▸ mem_rememberedInTurn (by decide))
  obtain ⟨f', haccepted⟩ : ∃ f', (r.feedback.after calls).onRequest (.ofNat 3100) (.ofNat 1) none =
      .ok f' := ⟨_, onRequest_eq hf.mode hrun _ _ _ 0⟩
  have recent : (Timestamp.ofNat 3100).since r₀.requestedAt ≤ caps.rtxLateAfter.times 4 := by
    decide
  have holder : ⟨.ofNat 0, .ofNat 1000, none, false⟩ ∈
      (r.feedback.after calls).requests.young (.ofNat 3100) (caps.rtxLateAfter.times 4) := by
    rw [htable]
    exact RepairRequests.mem_young.mpr ⟨mem_rememberedInTurn (by decide), by decide⟩
  have hroom := RepairRequests.not_crowdsOut_of_older (r := r₀) holder (by decide)
  obtain ⟨hkept, hrepaired⟩ :=
    (repeated_request_keeps_time hmode (.inl hr) hfound rfl haccepted recent).1 hroom
  obtain ⟨reply, hreply, hvalue⟩ := hrepaired (.ofNat 4001) none
  exact ⟨hmode, r, f', hr, hfound, haccepted, recent, hkept, reply, hreply, hvalue.trans (by decide)⟩

/-- All places are taken, and the number asked for again is the oldest: a repair is measured from the
repetition. -/
theorem repetition_loses_first_time :
    let caps : Capabilities := {}
    let calls := requestsInTurn 2048
    let r₀ : RepairRequest := ⟨.ofNat 0, .ofNat 1000, none, false⟩
    caps.mode = .nack ∧ ∃ r f', ofCapabilities caps = .ok r ∧
      (r.feedback.after calls).requests.find? (.ofNat 0) = some r₀ ∧
      (r.feedback.after calls).onRequest (.ofNat 3100) (.ofNat 0) none = .ok f' ∧
      (Timestamp.ofNat 3100).since r₀.requestedAt ≤ caps.rtxLateAfter.times 4 ∧
      f'.requests.find? (.ofNat 0) = some { r₀ with requestedAt := .ofNat 3100 } ∧
      ∃ reply, f'.onRepair (.ofNat 4000) ⟨.ofNat 0, none⟩ = .ok reply ∧
        reply.value = .recovered (.ofMicros 900) := by
  intro caps calls r₀
  obtain ⟨r, hr, hf, htable, hrun⟩ := exists_full_session
  have hfound : (r.feedback.after calls).requests.find? (.ofNat 0) = some r₀ :=
    RepairRequests.find?_of_mem (r := r₀) hf.distinct (htable ▸ mem_rememberedInTurn (by decide))
  obtain ⟨f', haccepted⟩ : ∃ f', (r.feedback.after calls).onRequest (.ofNat 3100) (.ofNat 0) none =
      .ok f' := ⟨_, onRequest_eq hf.mode hrun _ _ _ 0⟩
  have recent : (Timestamp.ofNat 3100).since r₀.requestedAt ≤ caps.rtxLateAfter.times 4 := by
    decide
  obtain ⟨hasks, hrunning⟩ := asks_of_accepted hf haccepted
  have hyoung : (r.feedback.after calls).requests.young (.ofNat 3100)
      ((Duration.ofMillis 500).times horizonFactor) = rememberedInTurn 2048 := by
    rw [htable]
    exact young_rememberedInTurn recent
  have hlost := hasks.find?_of_oldest hf hfound (by rw [hyoung, length_rememberedInTurn]; rfl)
    (by rw [hyoung]; exact oldest?_rememberedInTurn (by decide) (by decide))
  obtain ⟨reply, hreply, hvalue⟩ :=
    (hf.asks hasks).value_onRepair hrunning hlost rfl (.ofNat 4000) none
  exact ⟨by decide, r, f', hr, hfound, haccepted, recent, hlost, reply, hreply,
    hvalue.trans (by decide)⟩

end Feedback
end LossWatch
