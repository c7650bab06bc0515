import LossWatch.Flow

/-!
The newest numbers of the flows. A flow's newest number is one that arrived on it, so recording an
arrival brings no other number into the table, and a gap is only ever read from a number of the table.
-/

namespace LossWatch

namespace Flow

theorem maxSeq_record {f : Flow} {r : ArrivalRecord} {n : SeqNumber}
    (hn : (f.record r).2.maxSeq = some n) : n = r.seq ∨ f.maxSeq = some n := by
  unfold record at hn
  cases hm : f.maxSeq with
  | none =>
    simp only [hm, Option.some.injEq] at hn
    exact Or.inl hn.symm
  | some newest =>
    simp only [hm, Option.some.injEq] at hn
    by_cases hnewer : r.seq.newer newest = true
    · rw [if_pos hnewer] at hn
      exact Or.inl hn.symm
    · rw [if_neg hnewer] at hn
      exact Or.inr (congrArg some hn)

theorem gapAfter_record {f : Flow} {r : ArrivalRecord} {n : SeqNumber}
    (hn : (f.record r).1.gapAfter = some n) : f.maxSeq = some n := by
  have hupdate : (f.updateFor r).gapAfter = some n := hn
  unfold updateFor at hupdate
  cases ha : f.advanceBy r with
  | none => simp [ha] at hupdate
  | some steps =>
    simp only [ha] at hupdate
    by_cases hgap : 1 < steps
    · rw [if_pos hgap] at hupdate
      exact hupdate
    · rw [if_neg hgap] at hupdate
      exact absurd hupdate (by simp)

end Flow

namespace FlowTable

def newest (flows : List Flow) : List SeqNumber := flows.filterMap (·.maxSeq)

theorem mem_newest_cons {f : Flow} {fs : List Flow} {n : SeqNumber} :
    n ∈ newest (f :: fs) ↔ f.maxSeq = some n ∨ n ∈ newest fs := by
  unfold newest
  simp only [List.mem_filterMap, List.mem_cons, exists_eq_or_imp]

theorem mem_newest_recordIn {id : Nat} {r : ArrivalRecord} {flows : List Flow} {n : SeqNumber}
    (hn : n ∈ newest (recordIn id r flows).2) : n = r.seq ∨ n ∈ newest flows := by
  induction flows with
  | nil => exact Or.inr hn
  | cons f fs ih =>
    unfold recordIn at hn
    by_cases hid : f.id = id
    · rw [if_pos hid] at hn
      rcases mem_newest_cons.mp hn with hf | hfs
      · exact (Flow.maxSeq_record hf).imp_right fun h => mem_newest_cons.mpr (Or.inl h)
      · exact Or.inr (mem_newest_cons.mpr (Or.inr hfs))
    · rw [if_neg hid] at hn
      rcases mem_newest_cons.mp hn with hf | hfs
      · exact Or.inr (mem_newest_cons.mpr (Or.inl hf))
      · exact (ih hfs).imp_right fun h => mem_newest_cons.mpr (Or.inr h)

theorem gapAfter_recordIn {id : Nat} {r : ArrivalRecord} {flows : List Flow} {n : SeqNumber}
    (hn : (recordIn id r flows).1.gapAfter = some n) : n ∈ newest flows := by
  induction flows with
  | nil => simp [recordIn] at hn
  | cons f fs ih =>
    unfold recordIn at hn
    by_cases hid : f.id = id
    · rw [if_pos hid] at hn
      exact mem_newest_cons.mpr (Or.inl (Flow.gapAfter_record hn))
    · rw [if_neg hid] at hn
      exact mem_newest_cons.mpr (Or.inr (ih hn))

theorem newest_append_create (flows : List Flow) (id capacity : Nat) (first : Timestamp) :
    newest (flows ++ [Flow.create id capacity first]) = newest flows := by
  unfold newest
  rw [List.filterMap_append]
  exact List.append_nil _

theorem mem_newest_record {t : FlowTable} {id : Nat} {r : ArrivalRecord} {n : SeqNumber}
    (hn : n ∈ newest (t.record id r).2.flows) : n = r.seq ∨ n ∈ newest t.flows := by
  unfold record at hn
  by_cases hnew : (t.get? id).isNone = true
  · simp only [hnew, if_true] at hn
    exact (mem_newest_recordIn hn).imp_right fun h => by rwa [newest_append_create] at h
  · simp only [hnew] at hn
    exact mem_newest_recordIn hn

theorem gapAfter_mem_newest {t : FlowTable} {id : Nat} {r : ArrivalRecord} {n : SeqNumber}
    (hn : (t.record id r).1.gapAfter = some n) : n ∈ newest t.flows := by
  unfold record at hn
  by_cases hnew : (t.get? id).isNone = true
  · simp only [hnew, if_true] at hn
    have h := gapAfter_recordIn hn
    rwa [newest_append_create] at h
  · simp only [hnew] at hn
    exact gapAfter_recordIn hn

end FlowTable
end LossWatch
