import LossWatch.Proofs.Replay.Progress

/-!
The shipments on their way. They stand by time, and a new one goes behind those due no later. Only
reports send new ones: repairs of lost numbers that were sent, one round trip after the report.
-/

namespace LossWatch

def Shipment.enqueue (s : Shipment) (queue : List Shipment) : List Shipment :=
  queue.takeWhile (·.time ≤ s.time) ++ s :: queue.dropWhile (·.time ≤ s.time)

namespace Shipment

variable {s : Shipment} {queue : List Shipment}

theorem enqueue_perm (s : Shipment) (queue : List Shipment) :
    (s.enqueue queue).Perm (s :: queue) := by
  have hsplit : (s.enqueue queue).Perm
      (s :: (queue.takeWhile (·.time ≤ s.time) ++ queue.dropWhile (·.time ≤ s.time))) :=
    List.perm_middle
  rwa [List.takeWhile_append_dropWhile] at hsplit

theorem enqueue_cons (s t : Shipment) (queue : List Shipment) :
    s.enqueue (t :: queue) =
      if t.time ≤ s.time then t :: s.enqueue queue else s :: t :: queue := by
  by_cases h : t.time ≤ s.time <;> simp [enqueue, h]

theorem pairwise_enqueue (h : queue.Pairwise (·.time ≤ ·.time)) :
    (s.enqueue queue).Pairwise (·.time ≤ ·.time) := by
  induction queue with
  | nil => exact List.pairwise_singleton _ _
  | cons t queue ih =>
    obtain ⟨hfirst, hrest⟩ := List.pairwise_cons.mp h
    rw [enqueue_cons]
    split
    · rename_i hle
      refine List.pairwise_cons.mpr ⟨fun u hu => ?_, ih hrest⟩
      rcases List.mem_cons.mp ((s.enqueue_perm queue).mem_iff.mp hu) with rfl | hu
      · exact hle
      · exact hfirst u hu
    · rename_i hlate
      have hlt : s.time ≤ t.time := Nat.le_of_lt (Nat.lt_of_not_le hlate)
      refine List.pairwise_cons.mpr ⟨fun u hu => ?_, h⟩
      rcases List.mem_cons.mp hu with rfl | hu
      · exact hlt
      · exact Nat.le_trans hlt (hfirst u hu)

end Shipment

namespace Replay

variable {r r' r'' : Replay} {now : Timestamp} {seqs : List SeqNumber}

def underway (hand : Option Shipment) (r : Replay) : List Shipment := hand.toList ++ r.queue

def originals (hand : Option Shipment) (r : Replay) : List Shipment :=
  (underway hand r).filter (!·.isRepair)

theorem mem_originals {hand : Option Shipment} {s : Shipment} :
    s ∈ originals hand r ↔ s ∈ underway hand r ∧ s.isRepair = false := by
  rw [originals, List.mem_filter, Bool.not_eq_true']

structure Ships (r : Replay) (now : Timestamp) (seqs : List SeqNumber) (ss : List Shipment)
    (r' : Replay) : Prop where
  perm : r'.queue.Perm (ss ++ r.queue)
  sorted : r.queue.Pairwise (·.time ≤ ·.time) → r'.queue.Pairwise (·.time ≤ ·.time)
  length_le : ss.length ≤ seqs.length
  repairs : ∀ s ∈ ss, s.isRepair = true ∧ s.time = now.after r.rtxRtt ∧
    ∃ seq ∈ seqs, r.place? seq = some s.index

theorem Ships.of_same (h : r'.queue = r.queue) : r.Ships now seqs [] r' where
  perm := h ▸ .rfl
  sorted := h ▸ id
  length_le := Nat.zero_le _
  repairs := by simp

theorem ships_nack (now : Timestamp) (r : Replay) (seq : SeqNumber) :
    ∃ ss, r.Ships now [seq] ss (r.nack now seq) := by
  rw [nack]
  cases hplace : r.place? seq with
  | none => exact ⟨[], .of_same rfl⟩
  | some index =>
    dsimp only
    split
    · refine ⟨[⟨now.after r.rtxRtt, index, true⟩], Shipment.enqueue_perm _ _,
        Shipment.pairwise_enqueue, Nat.le_refl _, ?_⟩
      intro s hs
      rw [List.mem_singleton.mp hs]
      exact ⟨rfl, rfl, seq, List.mem_singleton_self _, hplace⟩
    · exact ⟨[], .of_same rfl⟩

theorem ships_foldl_nack (now : Timestamp) (seqs : List SeqNumber) (r : Replay) :
    ∃ ss, r.Ships now seqs ss (seqs.foldl (nack now) r) := by
  induction seqs generalizing r with
  | nil => exact ⟨[], .of_same rfl⟩
  | cons seq seqs ih =>
    obtain ⟨first, hfirst⟩ := ships_nack now r seq
    obtain ⟨rest, hrest⟩ := ih (r.nack now seq)
    have hsame := sameTrace_nack now r seq
    refine ⟨rest ++ first, ?_, fun hsorted => hrest.sorted (hfirst.sorted hsorted), ?_, ?_⟩
    · rw [List.append_assoc]
      exact hrest.perm.trans (hfirst.perm.append_left rest)
    · have hone := hfirst.length_le
      have hall := hrest.length_le
      rw [List.length_append, List.length_cons]
      rw [List.length_singleton] at hone
      omega
    · intro s hs
      rcases List.mem_append.mp hs with hs | hs
      · obtain ⟨hrepair, htime, seq', hseq', hplace⟩ := hrest.repairs s hs
        rw [hsame.rtxRtt] at htime
        rw [hsame.place?] at hplace
        exact ⟨hrepair, htime, seq', List.mem_cons_of_mem _ hseq', hplace⟩
      · obtain ⟨hrepair, htime, seq', hseq', hplace⟩ := hfirst.repairs s hs
        rw [List.mem_singleton.mp hseq'] at hplace
        exact ⟨hrepair, htime, seq, List.mem_cons_self, hplace⟩

theorem ships_report (r : Replay) (now : Timestamp) :
    ∃ ss, r.Ships now r.feedback.pending.lost ss (r.perform (.report now)) := by
  rw [perform]
  cases hdue : (r.cadence.fire now).1 with
  | true =>
    rw [sendReport_of_due hdue]
    obtain ⟨ss, hss⟩ := ships_foldl_nack now r.feedback.pending.lost (r.drained now)
    exact ⟨ss, hss.perm, hss.sorted, hss.length_le, hss.repairs⟩
  | false =>
    rw [sendReport_of_not_due hdue]
    exact ⟨[], .of_same rfl⟩

namespace Ships

variable {ss : List Shipment} {hand : Option Shipment} {t : Shipment}

theorem underway_perm (h : r.Ships now seqs ss r') (hand : Option Shipment) :
    (underway hand r').Perm (ss ++ underway hand r) :=
  (h.perm.append_left _).trans (List.perm_append_comm_assoc _ _ _)

theorem mem_underway (h : r.Ships now seqs ss r') :
    t ∈ underway hand r' ↔ t ∈ ss ∨ t ∈ underway hand r := by
  rw [(h.underway_perm hand).mem_iff, List.mem_append]

theorem originals_perm (h : r.Ships now seqs ss r') (hand : Option Shipment) :
    (originals hand r').Perm (originals hand r) := by
  have hrepairs : ss.filter (!·.isRepair) = [] :=
    List.filter_eq_nil_iff.mpr fun s hs => by simp [(h.repairs s hs).1]
  have hperm := (h.underway_perm hand).filter (!·.isRepair)
  rwa [List.filter_append, hrepairs, List.nil_append] at hperm

end Ships

theorem originals_perform (r : Replay) (h : Happening) (hand : Option Shipment) :
    (originals hand (r.perform h)).Perm (originals hand r) := by
  cases h with
  | timers => exact .rfl
  | report now =>
    obtain ⟨ss, hss⟩ := r.ships_report now
    exact hss.originals_perm hand

theorem Waits.originals_perm {limit : Timestamp} {hs : List Happening}
    (hw : Waits limit r hs r') (hand : Option Shipment) :
    (originals hand r').Perm (originals hand r) := by
  induction hw with
  | done => exact .rfl
  | happen _ _ ih => exact ih.trans (originals_perform _ _ hand)

theorem kept_deliver (r : Replay) (s : Shipment) :
    (r.deliver s).queue = r.queue ∧ (r.deliver s).cadence = r.cadence := by
  obtain ⟨feedback, report, declared, h⟩ := r.exists_deliver_eq s
  exact h ▸ ⟨rfl, rfl⟩

/-! ### In hand -/

variable {s : Shipment} {queue : List Shipment}

theorem underway_take (first : r.queue = s :: queue) :
    underway (some s) { r with queue } = underway none r :=
  first.symm

theorem originals_take (first : r.queue = s :: queue) :
    originals (some s) { r with queue } = originals none r := by
  rw [originals, underway_take first, originals]

theorem underway_handOver (r : Replay) (s : Shipment) :
    underway none (r.handOver s) = underway none r :=
  (r.kept_deliver s).1

theorem originals_handOver (r : Replay) (s : Shipment) :
    originals none (r.handOver s) = originals none r := by
  rw [originals, underway_handOver, originals]

theorem originals_of_original (h : s.isRepair = false) :
    originals (some s) r = s :: originals none r :=
  List.filter_cons_of_pos (by simp [h])

theorem originals_of_repair (h : s.isRepair = true) :
    originals (some s) r = originals none r :=
  List.filter_cons_of_neg (by simp [h])

def Known (hand : Option Shipment) (r : Replay) : Prop :=
  ∀ s ∈ originals hand r, ∃ p, r.trace[s.index]? = some p

theorem Reached.known {r₀ : Replay} {hand : Option Shipment} {calls : List FeedbackCall}
    (h : Reached r₀ hand calls r) (hstart : Known none r₀) : Known hand r := by
  induction h with
  | start => exact hstart
  | @happen hand _ r _ h _ _ ih =>
    intro s hs
    rw [(r.sameTrace_perform h).trace]
    exact ih s ((r.originals_perform h hand).mem_iff.mp hs)
  | take _ first ih => exact fun t ht => ih t (originals_take first ▸ ht)
  | @deliver _ r s _ _ ih =>
    intro t ht
    rw [show (r.handOver s).trace = r.trace from (r.sameTrace_deliver s).trace]
    rw [originals_handOver, mem_originals] at ht
    exact ih t (mem_originals.mpr ⟨List.mem_cons_of_mem s ht.1, ht.2⟩)

/-! ### What is sent at first -/

variable {s : Scenario} {f : Feedback} {packets : List TracePacket} {x : Shipment}
  {tie : Timestamp → SeqNumber → Nat}

theorem mem_shipmentsOf : x ∈ shipmentsOf packets ↔
    x.isRepair = false ∧ ∃ p, packets[x.index]? = some p ∧ p.arrival = some x.time := by
  rw [shipmentsOf, List.mem_filterMap]
  constructor
  · rintro ⟨⟨p, i⟩, hp, hx⟩
    obtain ⟨time, htime, rfl⟩ := Option.map_eq_some_iff.mp hx
    exact ⟨rfl, p, List.mem_zipIdx_iff_getElem?.mp hp, htime⟩
  · rintro ⟨hx, p, hp, htime⟩
    refine ⟨(p, x.index), List.mem_zipIdx_iff_getElem?.mpr hp, ?_⟩
    show p.arrival.map _ = some x
    rw [htime, Option.map_some, ← hx]

theorem queue_start_perm : (start s f packets tie).queue.Perm (shipmentsOf packets) :=
  List.mergeSort_perm _ _

theorem mem_underway_start : x ∈ underway none (start s f packets tie) ↔
    x.isRepair = false ∧ ∃ p, packets[x.index]? = some p ∧ p.arrival = some x.time := by
  have hqueue : (start s f packets tie).queue.Perm (shipmentsOf packets) := queue_start_perm
  exact hqueue.mem_iff.trans mem_shipmentsOf

theorem originals_start : originals none (start s f packets tie) = (start s f packets tie).queue :=
  List.filter_eq_self.mpr fun x hx => by simp [(mem_underway_start.mp hx).1]

theorem known_start : Known none (start s f packets tie) := by
  intro x hx
  obtain ⟨-, p, hp, -⟩ := mem_underway_start.mp (mem_originals.mp hx).1
  exact ⟨p, List.getElem?_toArray.trans hp⟩

theorem times_shipmentsOf (packets : List TracePacket) :
    (shipmentsOf packets).map (·.time) = packets.filterMap (·.arrival) := by
  calc (shipmentsOf packets).map (·.time)
      = packets.zipIdx.filterMap ((·.arrival) ∘ Prod.fst) := by
        rw [shipmentsOf, List.map_filterMap]
        refine List.filterMap_congr fun ⟨p, i⟩ _ => ?_
        exact (Option.map_map _ _ p.arrival).trans Option.map_id'
    _ = packets.filterMap (·.arrival) := by
        rw [← List.filterMap_map, List.zipIdx_map_fst]

theorem times_originals_start : ((originals none (start s f packets tie)).map (·.time)).Perm
    (packets.filterMap (·.arrival)) := by
  rw [originals_start, ← times_shipmentsOf]
  exact queue_start_perm.map _

theorem sorted_queue_start : (start s f packets tie).queue.Pairwise (·.time ≤ ·.time) := by
  have htrans : ∀ a b c : Shipment, decide (a.time ≤ b.time) → decide (b.time ≤ c.time) →
      decide (a.time ≤ c.time) := fun a b c hab hbc =>
    decide_eq_true (Nat.le_trans (of_decide_eq_true hab) (of_decide_eq_true hbc))
  have htotal : ∀ a b : Shipment, (decide (a.time ≤ b.time) || decide (b.time ≤ a.time)) := by
    intro a b
    rw [Bool.or_eq_true, decide_eq_true_eq, decide_eq_true_eq]
    exact Nat.le_total a.time.micros b.time.micros
  exact (List.pairwise_mergeSort htrans htotal (shipmentsOf packets)).imp of_decide_eq_true

end Replay
end LossWatch
