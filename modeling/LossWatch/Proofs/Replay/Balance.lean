import LossWatch.Proofs.Replay.Completion
import LossWatch.Proofs.Replay.Tallies

/-!
The report of a run balances. When it is written every packet that arrives has been delivered, what is
still pending is drained and counted, and each packet of the trace is judged once: lost or not in truth,
declared lost or not by the primary estimator.
-/

namespace LossWatch

/-- The balances of a report on the packets of a trace, when these events were heard. -/
structure Report.Balances (t : Report) (mode : FeedbackMode) (packets : List TracePacket)
    (heard : List LossEvent) : Prop where
  packetsSent : t.packetsSent = packets.length
  delivered : t.delivered = packets.countP (·.arrival.isSome)
  received : t.delivered = t.feedback.packets
  lost : t.delivered + t.trueLosses = t.packetsSent
  judged : t.detectedLosses + t.missedLosses = t.trueLosses
  repaired : t.repaired = t.feedback.rtxRecovered
  reported : t.feedback.lossesReported = t.nacksSent + t.strayNacks + t.feedback.withdrawn
  acknowledged : mode = .ack → t.acksSent = t.delivered
  declared : (packets.map (·.seq)).Nodup → t.detectedLosses + t.falsePositives =
    packets.countP fun p => heard.any fun e => e.isLost && e.seq = p.seq

namespace Replay

variable {r : Replay} {s : Scenario} {f : Feedback} {packets : List TracePacket} {p : TracePacket}
  {tie : Timestamp → SeqNumber → Nat}
  {seq : SeqNumber} {i : Nat} {t : Report}

theorem countP_fst_zipIdx {α : Type} (q : α → Bool) (l : List α) :
    l.zipIdx.countP (fun x => q x.1) = l.countP q := by
  rw [show (fun x : α × Nat => q x.1) = q ∘ Prod.fst from rfl, ← List.countP_map,
    List.zipIdx_map_fst]

/-! ### The places of the numbers -/

theorem getElem?_foldl_insert (l : List (TracePacket × Nat)) (m : Std.HashMap Nat Nat) (k : Nat) :
    (l.foldl (fun m x => m.insert x.1.seq.raw x.2) m)[k]? =
      ((l.reverse.find? fun x => x.1.seq.raw == k).map (·.2)).or m[k]? := by
  induction l generalizing m with
  | nil => rfl
  | cons x l ih =>
    rw [List.foldl_cons, ih, Std.HashMap.getElem?_insert, List.reverse_cons, List.find?_append]
    cases l.reverse.find? fun x => x.1.seq.raw == k with
    | some y => rfl
    | none => cases hx : x.1.seq.raw == k <;> simp [hx]

theorem place_start (s : Scenario) (f : Feedback) (packets : List TracePacket) (seq : SeqNumber) :
    (start s f packets tie).place? seq =
      (packets.zipIdx.reverse.find? fun x => x.1.seq.raw == seq.raw).map (·.2) := by
  have hfold := getElem?_foldl_insert packets.zipIdx ∅ seq.raw
  rw [Std.HashMap.getElem?_empty, Option.or_none] at hfold
  exact hfold

theorem mem_of_find {x : TracePacket × Nat}
    (h : (packets.zipIdx.reverse.find? fun x => x.1.seq.raw == seq.raw) = some x) :
    packets[x.2]? = some x.1 ∧ x.1.seq = seq := by
  have hmem := List.mem_reverse.mp (List.mem_of_find?_eq_some h)
  have hfound := List.find?_some h
  exact ⟨List.mem_zipIdx_iff_getElem?.mp hmem, SeqNumber.ext_raw (beq_iff_eq.mp hfound)⟩

theorem seq_of_place (h : (start s f packets tie).place? seq = some i) :
    ∃ p, packets[i]? = some p ∧ p.seq = seq := by
  rw [place_start] at h
  obtain ⟨x, hx, rfl⟩ := Option.map_eq_some_iff.mp h
  exact ⟨x.1, mem_of_find hx⟩

theorem place_of_nodup (distinct : (packets.map (·.seq)).Nodup) (hp : packets[i]? = some p) :
    (start s f packets tie).place? p.seq = some i := by
  rw [place_start]
  cases hx : packets.zipIdx.reverse.find? fun x => x.1.seq.raw == p.seq.raw with
  | none =>
    have hmem : (p, i) ∈ packets.zipIdx.reverse :=
      List.mem_reverse.mpr (List.mem_zipIdx_iff_getElem?.mpr hp)
    exact absurd (beq_self_eq_true _) (List.find?_eq_none.mp hx _ hmem)
  | some x =>
    obtain ⟨hat, hseq⟩ := mem_of_find hx
    have hsame : (packets.map (·.seq))[x.2]? = (packets.map (·.seq))[i]? := by
      rw [List.getElem?_map, List.getElem?_map, hat, hp, Option.map_some, Option.map_some, hseq]
    have hlt : x.2 < (packets.map (·.seq)).length := by
      rw [List.length_map]
      exact (List.getElem?_eq_some_iff.mp hat).1
    exact congrArg some ((List.getElem?_inj hlt distinct).mp hsame)

/-! ### The verdict -/

/-- The packets have been judged, each by whether it arrived and whether it was declared lost. -/
structure Judges (r : Replay) (ps : List (TracePacket × Nat)) (t t' : Report) : Prop where
  delivered : t'.delivered = t.delivered
  nacks : t'.nacksSent = t.nacksSent ∧ t'.strayNacks = t.strayNacks
  acksSent : t'.acksSent = t.acksSent
  repaired : t'.repaired = t.repaired
  lost : t'.trueLosses = t.trueLosses + ps.countP fun x => x.1.arrival.isNone
  split : t'.detectedLosses + t'.missedLosses + t.trueLosses =
    t.detectedLosses + t.missedLosses + t'.trueLosses
  declared : t'.detectedLosses + t'.falsePositives = t.detectedLosses + t.falsePositives +
    ps.countP fun x => r.declared.contains x.2

theorem judges_judge (r : Replay) (t : Report) (x : TracePacket × Nat) :
    r.Judges [x] t (r.judge t x.2 x.1) := by
  have hcontains : r.declared.contains x.2 = r.declared[x.2]?.isSome :=
    Std.HashMap.contains_eq_isSome_getElem?
  rw [judge]
  cases harrival : x.1.arrival <;> cases hdeclared : r.declared[x.2]? <;>
    refine ⟨rfl, ⟨rfl, rfl⟩, rfl, rfl, ?_, ?_, ?_⟩ <;>
    simp [harrival, hcontains, hdeclared] <;> omega

theorem judges_foldl (r : Replay) (ps : List (TracePacket × Nat)) (t : Report) :
    r.Judges ps t (ps.foldl (fun t x => r.judge t x.2 x.1) t) := by
  induction ps generalizing t with
  | nil => exact ⟨rfl, ⟨rfl, rfl⟩, rfl, rfl, rfl, rfl, rfl⟩
  | cons x ps ih =>
    have hfirst := r.judges_judge t x
    have hrest := ih (r.judge t x.2 x.1)
    have hcount : ∀ q : TracePacket × Nat → Bool,
        (x :: ps).countP q = [x].countP q + ps.countP q :=
      fun q => @List.countP_append _ q [x] ps
    have hlost := hfirst.lost
    have hlost' := hrest.lost
    have hsplit := hfirst.split
    have hsplit' := hrest.split
    have hdeclared := hfirst.declared
    have hdeclared' := hrest.declared
    refine ⟨hrest.delivered.trans hfirst.delivered, ⟨hrest.nacks.1.trans hfirst.nacks.1,
      hrest.nacks.2.trans hfirst.nacks.2⟩, hrest.acksSent.trans hfirst.acksSent,
      hrest.repaired.trans hfirst.repaired, ?_, ?_, ?_⟩ <;>
      rw [List.foldl_cons]
    · rw [hcount]
      omega
    · omega
    · rw [hcount]
      omega

theorem stats_shutDown (f : Feedback) : f.shutDown.feedback.stats = f.stats := by
  rw [Feedback.shutDown]
  split <;> rfl

theorem stats_finish (r : Replay) : r.finish.feedback = r.feedback.stats :=
  stats_shutDown _

/-- What is still on the list at the end is counted too, as sent or as stray. -/
theorem nacks_finish (r : Replay) : r.finish.nacksSent + r.finish.strayNacks =
    r.report.nacksSent + r.report.strayNacks + r.feedback.pending.lost.length := by
  have hjudged := r.judges_foldl r.trace.toList.zipIdx r.report
  have hknown := List.length_filter_le (fun seq => (r.place? seq).isSome) r.feedback.pending.lost
  have hsent : r.finish.nacksSent = r.report.nacksSent +
      (r.feedback.pending.lost.filter fun seq => (r.place? seq).isSome).length :=
    congrArg (· + _) hjudged.nacks.1
  have hstray : r.finish.strayNacks = r.report.strayNacks + (r.feedback.pending.lost.length -
      (r.feedback.pending.lost.filter fun seq => (r.place? seq).isSome).length) :=
    congrArg (· + _) hjudged.nacks.2
  omega

theorem Tallied.balances {r₀ : Replay} {calls : List FeedbackCall}
    (h : Tallied r₀ (packets.countP (·.arrival.isSome)) none calls r)
    (hdone : originals none r = []) (hsame : (start s f packets tie).SameTrace r) :
    r.finish.Balances r.feedback.mode packets (r₀.feedback.hears calls) := by
  have htrace : r.trace.toList = packets := congrArg Array.toList hsame.trace
  have hjudged := r.judges_foldl r.trace.toList.zipIdx r.report
  have hdelivered : r.finish.delivered = r.report.delivered := hjudged.delivered
  have hrepaired : r.finish.repaired = r.report.repaired := hjudged.repaired
  have hsent : r.finish.packetsSent = packets.length := by
    rw [← htrace]
    exact Array.length_toList.symm
  have harrived : r.finish.delivered = packets.countP (·.arrival.isSome) := by
    have hall := h.delivered
    rw [hdone] at hall
    exact hdelivered.trans hall
  have hlost : r.finish.trueLosses = packets.countP (·.arrival.isNone) := by
    have hcounted : r.finish.trueLosses = r.report.trueLosses +
        r.trace.toList.zipIdx.countP fun x => x.1.arrival.isNone := hjudged.lost
    rw [hcounted, h.unjudged.trueLosses, htrace, Nat.zero_add]
    exact countP_fst_zipIdx (·.arrival.isNone) packets
  have hsplit : r.finish.detectedLosses + r.finish.missedLosses + r.report.trueLosses =
    r.report.detectedLosses + r.report.missedLosses + r.finish.trueLosses := hjudged.split
  have hdeclared : r.finish.detectedLosses + r.finish.falsePositives =
      r.report.detectedLosses + r.report.falsePositives +
        r.trace.toList.zipIdx.countP fun x => r.declared.contains x.2 := hjudged.declared
  have hacks : r.finish.acksSent = r.report.acksSent + r.feedback.pending.received.size :=
    congrArg (· + _) hjudged.acksSent
  have hunjudged := h.unjudged
  refine ⟨hsent, harrived, ?_, ?_, ?_, ?_, ?_, ?_, fun distinct => ?_⟩
  · rw [stats_finish, hdelivered, h.packets]
  · rw [harrived, hlost, hsent, List.length_eq_countP_add_countP (·.arrival.isSome)]
    refine congrArg _ (List.countP_congr fun p _ => ?_)
    simp
  · rw [hunjudged.trueLosses, hunjudged.detectedLosses, hunjudged.missedLosses] at hsplit
    omega
  · rw [stats_finish, hrepaired, h.repaired]
  · rw [stats_finish, nacks_finish, h.accounts.reported]
    omega
  · intro hack
    rw [hacks, hdelivered]
    exact h.acks hack
  · rw [hdeclared, hunjudged.detectedLosses, hunjudged.falsePositives, htrace, Nat.zero_add]
    refine (List.countP_congr fun x hx => ?_).trans (countP_fst_zipIdx _ packets)
    have hp := List.mem_zipIdx_iff_getElem?.mp hx
    rw [Std.HashMap.contains_iff_mem, h.declared, List.any_eq_true, hsame.place?]
    refine exists_congr fun e => and_congr_right fun _ => ?_
    rw [Bool.and_eq_true, decide_eq_true_eq]
    refine and_congr_right fun _ => ⟨fun hplace => ?_, fun hseq => ?_⟩
    · obtain ⟨p, hp', hseq⟩ := seq_of_place hplace
      rw [hp, Option.some.injEq] at hp'
      rw [hp', hseq]
    · rw [hseq]
      exact place_of_nodup distinct hp

/-- The report balances: every packet is accounted for, and so is every loss that was reported. -/
theorem report_balances (valid : s.validate = .ok ()) (packets : List TracePacket)
    (tie : Timestamp → SeqNumber → Nat) : ∃ f, s.opened = .ok f ∧
      s.replay packets tie = .ok (start s f packets tie).run ∧
      (start s f packets tie).run.feedback = (f.after (start s f packets tie).calls).stats ∧
      (start s f packets tie).run.Balances s.feedback packets
        (f.hears (start s f packets tie).calls) := by
  obtain ⟨f, hf, hopened, hreplay⟩ := Scenario.exists_opened valid
  have hticking := ticking_start valid hopened packets tie
  have hended := reached_ended hticking
  have htallied := hended.tallied hticking known_start (tallied_start hopened packets)
  have hmode : (start s f packets tie).ended.feedback.mode = s.feedback :=
    htallied.mode.trans hopened.mode
  refine ⟨f, hf, hreplay packets tie, ?_, ?_⟩ <;> rw [run_eq]
  · rw [stats_finish, hended.feedback]
    rfl
  · rw [← hmode]
    exact htallied.balances (originals_ended valid hopened packets) hended.sameTrace

theorem report_balances_of_sample :
    let packets : List TracePacket :=
      [⟨.ofNat 0, 0, .ofNat 0, .zero, .ofMillis 20, some (.ofMillis 25)⟩,
        ⟨.ofNat 1, 1, .ofNat 0, .ofMillis 10, .ofMillis 55, none⟩,
        ⟨.ofNat 2, 0, .ofNat 1, .ofMillis 20, .ofMillis 40, some (.ofMillis 40)⟩]
    Scenario.sample.validate = .ok () ∧ ∃ f, Scenario.sample.opened = .ok f ∧
      Scenario.sample.replay packets = .ok (start Scenario.sample f packets).run ∧
      (start Scenario.sample f packets).run.feedback =
        (f.after (start Scenario.sample f packets).calls).stats ∧
      (start Scenario.sample f packets).run.Balances Scenario.sample.feedback packets
        (f.hears (start Scenario.sample f packets).calls) := by
  intro packets
  have valid : Scenario.sample.validate = .ok () := Except.eq_ok_of_toOption (by decide +kernel)
  exact ⟨valid, report_balances valid packets fun _ _ => 0⟩

end Replay
end LossWatch
