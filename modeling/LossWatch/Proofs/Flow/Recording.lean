import LossWatch.Flow
import LossWatch.Proofs.SequenceNumber.Window
import Mathlib.Data.List.Pairwise

/-!
What a table of flows knows of the arrivals entered into it. An entry changes its own flow only. If
the flow-local numbers run in the order of the global ones, both newest numbers of a flow are those of
one entry, its newest. A gap is then what lies between that entry and the next one.
-/

namespace LossWatch

structure FlowEntry where
  flow : Nat
  record : ArrivalRecord
deriving DecidableEq

namespace Flow

variable {f : Flow} {r : ArrivalRecord}

theorem record_snd_maxSeq :
    (f.record r).2.maxSeq = some (f.maxSeq.elim r.seq (·.newest r.seq)) :=
  SeqNumber.match_newest f.maxSeq r.seq

theorem advanceBy_of_newer {k : SeqNumber} (hk : f.maxFlowSeq = some k)
    (hnewer : r.flowSeq.newer k = true) : f.advanceBy r = some (r.flowSeq.ahead k) := by
  rw [advanceBy, hk]
  dsimp only
  rw [if_pos hnewer, SeqNumber.distance_of_newer hnewer, Int.toNat_natCast]

theorem advanceBy_of_not_newer (h : ∀ k, f.maxFlowSeq = some k → r.flowSeq.newer k = false) :
    f.advanceBy r = none := by
  rw [advanceBy]
  cases hk : f.maxFlowSeq with
  | none => rfl
  | some k => exact if_neg (by simp [h k hk])

theorem record_snd_maxFlowSeq :
    (f.record r).2.maxFlowSeq = some (f.maxFlowSeq.elim r.flowSeq (·.newest r.flowSeq)) := by
  have hmax : (f.record r).2.maxFlowSeq =
      if (f.updateFor r).reordered then f.maxFlowSeq else some r.flowSeq := rfl
  rw [hmax, updateFor]
  cases hk : f.maxFlowSeq with
  | none => rw [advanceBy_of_not_newer (by simp [hk])]; rfl
  | some k =>
    rw [Option.elim_some, SeqNumber.newest]
    cases hnewer : r.flowSeq.newer k with
    | true => rw [advanceBy_of_newer hk hnewer]; rfl
    | false => rw [advanceBy_of_not_newer (by simp [hk, hnewer])]; rfl

theorem updateFor_of_newer {k : SeqNumber} (hk : f.maxFlowSeq = some k)
    (hnewer : r.flowSeq.newer k = true) :
    (f.updateFor r).gap = r.flowSeq.ahead k - 1 ∧
      (f.updateFor r).gapAfter = if 1 < r.flowSeq.ahead k then f.maxSeq else none := by
  rw [updateFor, advanceBy_of_newer hk hnewer]
  exact ⟨rfl, rfl⟩

theorem gapAfter_eq_some {g : SeqNumber} (h : (f.updateFor r).gapAfter = some g) :
    f.maxSeq = some g ∧ ∃ k, f.maxFlowSeq = some k ∧ r.flowSeq.newer k = true ∧
      (f.updateFor r).gap + 1 = r.flowSeq.ahead k := by
  cases hk : f.maxFlowSeq with
  | none =>
    rw [updateFor, advanceBy_of_not_newer (by simp [hk])] at h
    exact absurd h (by simp)
  | some k =>
    by_cases hnewer : r.flowSeq.newer k = true
    · obtain ⟨hgap, hafter⟩ := updateFor_of_newer hk hnewer
      by_cases hskips : 1 < r.flowSeq.ahead k
      · rw [hafter, if_pos hskips] at h
        exact ⟨h, k, rfl, hnewer, by omega⟩
      · rw [hafter, if_neg hskips] at h
        exact absurd h (by simp)
    · rw [updateFor, advanceBy_of_not_newer (by simp [hk, hnewer])] at h
      exact absurd h (by simp)

end Flow

namespace FlowTable

def enter (t : FlowTable) (e : FlowEntry) : FlowTable := (t.record e.flow e.record).2

def enterAll (t : FlowTable) (es : List FlowEntry) : FlowTable := es.foldl enter t

theorem window_enter (t : FlowTable) (e : FlowEntry) : (t.enter e).window = t.window := rfl

theorem enterAll_append (t : FlowTable) (es : List FlowEntry) (e : FlowEntry) :
    t.enterAll (es ++ [e]) = (t.enterAll es).enter e := List.foldl_append

def flowFor (t : FlowTable) (e : FlowEntry) : Flow :=
  (t.get? e.flow).getD (Flow.create e.flow t.window e.record.time)

variable {t : FlowTable} {e : FlowEntry} {id : Nat} {r : ArrivalRecord} {fs : List Flow}

theorem find?_recordIn (id : Nat) (r : ArrivalRecord) (fs : List Flow) (k : Nat) :
    (recordIn id r fs).2.find? (·.id = k) =
      (fs.find? (·.id = k)).map fun f => if k = id then (f.record r).2 else f := by
  induction fs with
  | nil => rfl
  | cons f fs ih =>
    rw [recordIn]
    by_cases hid : f.id = id
    · have hkept : (f.record r).2.id = f.id := rfl
      rw [if_pos hid, List.find?_cons, List.find?_cons, hkept]
      by_cases hk : f.id = k
      · have hkid : k = id := hk.symm.trans hid
        simp [hk, hkid]
      · have hkid : k ≠ id := fun h => hk (hid.trans h.symm)
        simp [hk, hkid]
    · rw [if_neg hid, List.find?_cons, List.find?_cons]
      by_cases hk : f.id = k
      · have hkid : k ≠ id := fun h => hid (hk.trans h)
        simp [hk, hkid]
      · simpa [hk] using ih

theorem update_recordIn {f : Flow} (h : fs.find? (·.id = id) = some f) :
    (recordIn id r fs).1 = f.updateFor r := by
  induction fs with
  | nil => simp at h
  | cons g fs ih =>
    rw [recordIn]
    by_cases hid : g.id = id
    · obtain rfl : g = f := by simpa [hid] using h
      rw [if_pos hid]
      rfl
    · rw [if_neg hid]
      exact ih (by simpa [hid] using h)

theorem find?_before (t : FlowTable) (e : FlowEntry) (k : Nat) :
    (if (t.get? e.flow).isNone = true then t.flows ++ [Flow.create e.flow t.window e.record.time]
      else t.flows).find? (·.id = k) = if k = e.flow then some (t.flowFor e) else t.get? k := by
  cases hf : t.get? e.flow with
  | none =>
    have hnone : t.flows.find? (·.id = e.flow) = none := hf
    have hcreate : (Flow.create e.flow t.window e.record.time).id = e.flow := rfl
    rw [Option.isNone_none, if_pos rfl, List.find?_append, List.find?_singleton, hcreate]
    by_cases hk : k = e.flow
    · simp [hk, hnone, flowFor, hf]
    · have hk' : ¬ e.flow = k := fun h => hk h.symm
      simp [hk, hk', get?]
  | some f =>
    rw [Option.isNone_some, if_neg (by simp)]
    by_cases hk : k = e.flow
    · rw [if_pos hk, hk, flowFor, hf]
      exact hf
    · rw [if_neg hk]
      rfl

theorem get?_enter (t : FlowTable) (e : FlowEntry) (k : Nat) :
    (t.enter e).get? k =
      if k = e.flow then some ((t.flowFor e).record e.record).2 else t.get? k := by
  have hfind := find?_recordIn e.flow e.record (if (t.get? e.flow).isNone = true
    then t.flows ++ [Flow.create e.flow t.window e.record.time] else t.flows) k
  rw [find?_before] at hfind
  refine Eq.trans hfind ?_
  by_cases hk : k = e.flow
  · simp [hk]
  · simp [hk]

theorem record_fst (t : FlowTable) (e : FlowEntry) : (t.record e.flow e.record).1 =
    { (t.flowFor e).updateFor e.record with newFlow := (t.get? e.flow).isNone } := by
  have hfound := find?_before t e e.flow
  rw [if_pos rfl] at hfound
  have hupdate := update_recordIn (r := e.record) hfound
  exact congrArg (fun u : FlowUpdate => { u with newFlow := (t.get? e.flow).isNone }) hupdate

theorem update_record (t : FlowTable) (e : FlowEntry) :
    (t.record e.flow e.record).1.gapAfter = ((t.flowFor e).updateFor e.record).gapAfter ∧
      (t.record e.flow e.record).1.gap = ((t.flowFor e).updateFor e.record).gap := by
  rw [record_fst]
  exact ⟨rfl, rfl⟩

/-! ### The newest entry of a flow -/

def InStep (es : List FlowEntry) : Prop :=
  ∀ d ∈ es, ∀ e ∈ es, d.flow = e.flow →
    d.record.flowSeq.newer e.record.flowSeq = d.record.seq.newer e.record.seq

/-- Each flow brings its numbers in ascending order, both of them. -/
def InOrder (es : List FlowEntry) : Prop :=
  es.Pairwise fun d e => d.flow = e.flow →
    e.record.seq.newer d.record.seq = true ∧ e.record.flowSeq.newer d.record.flowSeq = true

instance (es : List FlowEntry) : Decidable (InOrder es) := by
  unfold InOrder
  infer_instance

theorem InOrder.inStep {es : List FlowEntry} (h : InOrder es) : InStep es := by
  intro d hd e he
  refine List.Pairwise.forall_of_forall_of_flip (l := es) (R := fun d e => d.flow = e.flow →
    d.record.flowSeq.newer e.record.flowSeq = d.record.seq.newer e.record.seq) ?_ ?_ ?_ hd he
  · intro d _ _
    rw [SeqNumber.not_newer_self, SeqNumber.not_newer_self]
  · refine h.imp fun hnewer hflow => ?_
    obtain ⟨hseq, hflowSeq⟩ := hnewer hflow
    rw [SeqNumber.not_newer_of_newer hseq, SeqNumber.not_newer_of_newer hflowSeq]
  · refine h.imp fun hnewer hflow => ?_
    obtain ⟨hseq, hflowSeq⟩ := hnewer hflow.symm
    rw [hseq, hflowSeq]

structure Newest (base : SeqNumber) (es : List FlowEntry) (f : Flow) (e : FlowEntry) : Prop where
  mem : e ∈ es
  maxSeq : f.maxSeq = some e.record.seq
  maxFlowSeq : f.maxFlowSeq = some e.record.flowSeq
  newest : ∀ d ∈ es, d.flow = e.flow → d.record.seq.ahead base ≤ e.record.seq.ahead base

/-- The table has the flows of the entries, each with its newest entry. -/
structure Follows (base : SeqNumber) (t : FlowTable) (es : List FlowEntry) : Prop where
  absent : ∀ {id}, t.get? id = none → ∀ e ∈ es, e.flow ≠ id
  present : ∀ {id f}, t.get? id = some f → ∃ e, e.flow = id ∧ Newest base es f e

variable {base : SeqNumber} {es : List FlowEntry}

theorem InOrder.newest_of_last (h : InOrder es)
    (hwin : ∀ d ∈ es, d.record.seq.InWindow base) {d : FlowEntry}
    (hlast : (es.filter (·.flow = id)).getLast? = some d) :
    d ∈ es ∧ d.flow = id ∧
      ∀ c ∈ es, c.flow = id → c = d ∨ c.record.seq.ahead base < d.record.seq.ahead base := by
  obtain ⟨earlier, hearlier⟩ := List.getLast?_eq_some_iff.mp hlast
  have hmem : ∀ c, c ∈ earlier ++ [d] ↔ c ∈ es ∧ c.flow = id := by
    intro c
    rw [← hearlier, List.mem_filter, decide_eq_true_eq]
  have hd := (hmem d).mp (by simp)
  refine ⟨hd.1, hd.2, fun c hc hflow => ?_⟩
  rcases List.mem_append.mp ((hmem c).mpr ⟨hc, hflow⟩) with hc' | hc'
  · have hsorted : InOrder (earlier ++ [d]) := hearlier ▸ h.filter _
    obtain ⟨-, -, hbefore⟩ := List.pairwise_append.mp hsorted
    have hnewer := (hbefore c hc' d (List.mem_singleton_self d) (hflow.trans hd.2.symm)).1
    exact Or.inr ((SeqNumber.newer_iff (hwin d hd.1) (hwin c hc)).mp hnewer)
  · exact Or.inl (List.mem_singleton.mp hc')

theorem Newest.append {f : Flow} {d : FlowEntry} (h : Newest base es f d)
    (hnew : e.flow = d.flow → e.record.seq.ahead base ≤ d.record.seq.ahead base) :
    Newest base (es ++ [e]) f d where
  mem := List.mem_append_left _ h.mem
  maxSeq := h.maxSeq
  maxFlowSeq := h.maxFlowSeq
  newest c hc hflow := by
    rcases List.mem_append.mp hc with hc | hc
    · exact h.newest c hc hflow
    · obtain rfl := List.mem_singleton.mp hc
      exact hnew hflow

theorem newest_create {window : Nat} (hnew : ∀ d ∈ es, d.flow ≠ e.flow) :
    Newest base (es ++ [e])
      ((Flow.create e.flow window e.record.time).record e.record).2 e where
  mem := by simp
  maxSeq := Flow.record_snd_maxSeq
  maxFlowSeq := Flow.record_snd_maxFlowSeq
  newest d hd hflow := by
    rcases List.mem_append.mp hd with hd | hd
    · exact absurd hflow (hnew d hd)
    · exact List.mem_singleton.mp hd ▸ Nat.le_refl _

theorem Newest.record {f : Flow} {d : FlowEntry} (hd : Newest base es f d) (hflow : d.flow = e.flow)
    (hwin : ∀ d ∈ es ++ [e], d.record.seq.InWindow base) (hstep : InStep (es ++ [e])) :
    ∃ d, d.flow = e.flow ∧ Newest base (es ++ [e]) (f.record e.record).2 d := by
  have hself : e ∈ es ++ [e] := by simp
  have hsame := hstep e hself d (List.mem_append_left _ hd.mem) hflow.symm
  have hahead := SeqNumber.newer_iff (hwin e hself) (hwin d (List.mem_append_left _ hd.mem))
  have hseq : (f.record e.record).2.maxSeq = some (d.record.seq.newest e.record.seq) := by
    rw [Flow.record_snd_maxSeq, hd.maxSeq, Option.elim_some]
  have hflowSeq : (f.record e.record).2.maxFlowSeq =
      some (d.record.flowSeq.newest e.record.flowSeq) := by
    rw [Flow.record_snd_maxFlowSeq, hd.maxFlowSeq, Option.elim_some]
  cases hnewer : e.record.seq.newer d.record.seq with
  | true =>
    rw [hnewer] at hsame
    rw [SeqNumber.newest, if_pos hnewer] at hseq
    rw [SeqNumber.newest, if_pos hsame] at hflowSeq
    refine ⟨e, rfl, hself, hseq, hflowSeq, fun c hc hcflow => ?_⟩
    rcases List.mem_append.mp hc with hc | hc
    · have hold := hd.newest c hc (hcflow.trans hflow.symm)
      have hnew := hahead.mp hnewer
      omega
    · exact List.mem_singleton.mp hc ▸ Nat.le_refl _
  | false =>
    rw [hnewer] at hsame
    rw [SeqNumber.newest, if_neg (by simp [hnewer])] at hseq
    rw [SeqNumber.newest, if_neg (by simp [hsame])] at hflowSeq
    have hstays : Newest base es (f.record e.record).2 d := ⟨hd.mem, hseq, hflowSeq, hd.newest⟩
    refine ⟨d, hflow, hstays.append fun _ => Nat.le_of_not_lt fun hlt => ?_⟩
    rw [hahead.mpr hlt] at hnewer
    exact absurd hnewer (by simp)

theorem Follows.newest_record (h : Follows base t es)
    (hwin : ∀ d ∈ es ++ [e], d.record.seq.InWindow base) (hstep : InStep (es ++ [e])) :
    ∃ d, d.flow = e.flow ∧ Newest base (es ++ [e]) ((t.flowFor e).record e.record).2 d := by
  cases hf : t.get? e.flow with
  | none =>
    have hcreated : t.flowFor e = Flow.create e.flow t.window e.record.time := by
      rw [flowFor, hf, Option.getD_none]
    rw [hcreated]
    exact ⟨e, rfl, newest_create (h.absent hf)⟩
  | some f =>
    have hknown : t.flowFor e = f := by rw [flowFor, hf, Option.getD_some]
    obtain ⟨d, hflow, hd⟩ := h.present hf
    rw [hknown]
    exact hd.record hflow hwin hstep

theorem Follows.enter (h : Follows base t es)
    (hwin : ∀ d ∈ es ++ [e], d.record.seq.InWindow base) (hstep : InStep (es ++ [e])) :
    Follows base (t.enter e) (es ++ [e]) where
  absent {id} hid d hd := by
    rw [get?_enter] at hid
    by_cases hk : id = e.flow
    · rw [if_pos hk] at hid
      exact absurd hid (by simp)
    · rw [if_neg hk] at hid
      rcases List.mem_append.mp hd with hd | hd
      · exact h.absent hid d hd
      · rw [List.mem_singleton.mp hd]
        exact fun h => hk h.symm
  present {id f} hid := by
    rw [get?_enter] at hid
    by_cases hk : id = e.flow
    · rw [if_pos hk, Option.some.injEq] at hid
      rw [hk, ← hid]
      exact h.newest_record hwin hstep
    · rw [if_neg hk] at hid
      obtain ⟨d, hflow, hd⟩ := h.present hid
      exact ⟨d, hflow, hd.append fun hsame => absurd (hflow.symm.trans hsame.symm) hk⟩

theorem InStep.of_append {pre post : List FlowEntry} (h : InStep (pre ++ post)) : InStep pre :=
  fun d hd e he => h d (List.mem_append_left _ hd) e (List.mem_append_left _ he)

theorem Follows.enterAll {pre : List FlowEntry} (h : Follows base t pre)
    (hwin : ∀ d ∈ pre ++ es, d.record.seq.InWindow base) (hstep : InStep (pre ++ es)) :
    Follows base (t.enterAll es) (pre ++ es) := by
  induction es generalizing t pre with
  | nil => simpa [FlowTable.enterAll] using h
  | cons e es ih =>
    have happend : pre ++ e :: es = (pre ++ [e]) ++ es := by simp
    rw [happend] at hwin hstep ⊢
    exact ih (h.enter (fun d hd => hwin d (List.mem_append_left _ hd)) hstep.of_append) hwin hstep

theorem Follows.gapAfter_record (h : Follows base t es) {g : SeqNumber}
    (hgap : (t.record e.flow e.record).1.gapAfter = some g) :
    ∃ d ∈ es, d.flow = e.flow ∧ d.record.seq = g ∧
      (∀ c ∈ es, c.flow = e.flow → c.record.seq.ahead base ≤ g.ahead base) ∧
      e.record.flowSeq.newer d.record.flowSeq = true ∧
      (t.record e.flow e.record).1.gap + 1 = e.record.flowSeq.ahead d.record.flowSeq := by
  obtain ⟨hupdate, hcount⟩ := update_record t e
  rw [hupdate] at hgap
  rw [hcount]
  obtain ⟨hseq, k, hk, hnewer, hsteps⟩ := Flow.gapAfter_eq_some hgap
  cases hf : t.get? e.flow with
  | none =>
    rw [flowFor, hf] at hseq
    exact absurd hseq (by simp [Flow.create])
  | some f =>
    obtain ⟨d, hflow, hd⟩ := h.present hf
    have hknown : t.flowFor e = f := by rw [flowFor, hf]; rfl
    rw [hknown, hd.maxSeq, Option.some.injEq] at hseq
    rw [hknown, hd.maxFlowSeq, Option.some.injEq] at hk
    refine ⟨d, hd.mem, hflow, hseq, fun c hc hcflow => ?_, hk ▸ hnewer, hk ▸ hsteps⟩
    exact hseq ▸ hd.newest c hc (hcflow.trans hflow.symm)

theorem Follows.gapAfter_of_ahead {d : FlowEntry} {n : Nat} (h : Follows base t es) (hd : d ∈ es)
    (hflow : d.flow = e.flow)
    (hnewest : ∀ c ∈ es, c.flow = e.flow → c = d ∨ c.record.seq.ahead base < d.record.seq.ahead base)
    (hnewer : e.record.flowSeq.newer d.record.flowSeq = true) (hn : 0 < n)
    (hsteps : e.record.flowSeq.ahead d.record.flowSeq = n + 1) :
    (t.record e.flow e.record).1.gapAfter = some d.record.seq ∧
      (t.record e.flow e.record).1.gap = n := by
  obtain ⟨hupdate, hcount⟩ := update_record t e
  cases hf : t.get? e.flow with
  | none => exact absurd hflow (h.absent hf d hd)
  | some f =>
    obtain ⟨d', hflow', hd'⟩ := h.present hf
    have hknown : t.flowFor e = f := by rw [flowFor, hf]; rfl
    obtain rfl : d' = d := by
      refine (hnewest d' hd'.mem hflow').resolve_right fun hlt => ?_
      have := hd'.newest d hd (hflow.trans hflow'.symm)
      omega
    obtain ⟨hgap, hafter⟩ := Flow.updateFor_of_newer hd'.maxFlowSeq hnewer
    rw [hsteps] at hgap hafter
    rw [hupdate, hcount, hknown, hafter, hgap, if_pos (by omega)]
    exact ⟨hd'.maxSeq, rfl⟩

end FlowTable
end LossWatch
