import LossWatch.Proofs.Flow.Recording
import LossWatch.Proofs.SequenceNumber.Counters
import LossWatch.Proofs.Sliding
import Mathlib.Data.List.Induction

/-!
A flow is what its own arrivals make of it. The table lists the flows as they first appear, and a flow's
window ends with its last arrival. Where the flow's numbers are the low halves of counters that never
step more than 32767 away from the largest one so far, the comparison of the numbers is that of the
counters, and the skipped ones are counted exactly.
-/

namespace LossWatch

/-- Every counter is within 32767 of the largest one before it. -/
def Steady (ns : List Nat) : Prop :=
  ∀ pre n, pre ++ [n] <+: ns → ∀ m ∈ pre.max?, n ≤ m + 32767 ∧ m ≤ n + 32767

namespace Steady

variable {ns : List Nat} {n : Nat}

theorem of_append {ms : List Nat} (h : Steady (ns ++ ms)) : Steady ns :=
  fun pre n hpre => h pre n (hpre.trans (List.prefix_append ns ms))

theorem nil : Steady [] := fun pre n hpre => absurd (List.prefix_nil.mp hpre) (by simp)

theorem concat (h : Steady ns) (near : ∀ m ∈ ns.max?, n ≤ m + 32767 ∧ m ≤ n + 32767) :
    Steady (ns ++ [n]) := by
  intro pre k hpre
  rcases List.prefix_concat_iff.mp hpre with he | hpre
  · obtain ⟨rfl, he⟩ := List.append_inj' he rfl
    obtain rfl : k = n := by simpa using he
    exact near
  · exact h pre k hpre

theorem near (h : Steady (ns ++ [n])) : ∀ m ∈ ns.max?, n ≤ m + 32767 ∧ m ≤ n + 32767 :=
  h ns n (List.prefix_refl _)

theorem max?_concat (ns : List Nat) (n : Nat) : (ns ++ [n]).max? = some (ns.max?.elim n (max · n)) := by
  cases ns with
  | nil => rfl
  | cons m ns =>
    rw [List.cons_append, List.max?_cons', List.max?_cons', List.foldl_append]
    rfl

theorem newest_concat (h : Steady (ns ++ [n])) :
    some ((ns.max?.map SeqNumber.ofNat).elim (.ofNat n) (·.newest (.ofNat n))) =
      (ns ++ [n]).max?.map SeqNumber.ofNat := by
  have hnear := h.near
  rw [max?_concat]
  cases hm : ns.max? with
  | none => rfl
  | some m =>
    rw [Option.map_some, Option.elim_some, Option.elim_some, Option.map_some,
      SeqNumber.newest_ofNat (hnear m hm)]

end Steady

/-! ### One flow -/

namespace Flow

variable {f : Flow} {r : ArrivalRecord} {rs seen : List ArrivalRecord} {id window : Nat}

def ofRecords (id window : Nat) : List ArrivalRecord → Option Flow
  | [] => none
  | r :: rs => some ((r :: rs).foldl (fun f r => (f.record r).2) (create id window r.time))

theorem ofRecords_concat (id window : Nat) (rs : List ArrivalRecord) (r : ArrivalRecord) :
    ofRecords id window (rs ++ [r]) =
      some (((ofRecords id window rs).getD (create id window r.time)).record r).2 := by
  cases rs with
  | nil => rfl
  | cons q rs =>
    rw [List.cons_append, ofRecords, ← List.cons_append, List.foldl_append]
    rfl

structure Windowed (window : Nat) (f : Flow) (seen : List ArrivalRecord) : Prop where
  capacity : f.capacity = max 1 window
  suffix : f.window <:+ seen
  length : f.window.length = min seen.length (max 1 window)

theorem windowed_create (id window : Nat) (first : Timestamp) :
    (create id window first).Windowed window [] where
  capacity := Nat.max_comm ..
  suffix := List.suffix_refl _
  length := (Nat.zero_min _).symm

theorem Windowed.record (h : f.Windowed window seen) (r : ArrivalRecord) :
    (f.record r).2.Windowed window (seen ++ [r]) := by
  have hkept : KeepsLast (max 1 window) f.window seen := ⟨h.suffix, h.length⟩
  have hpos : 0 < max 1 window := Nat.lt_of_lt_of_le Nat.zero_lt_one (Nat.le_max_left ..)
  have hslid := hkept.slide hpos r
  rw [← h.capacity] at hslid
  exact ⟨h.capacity, hslid.suffix, h.capacity ▸ hslid.length⟩

theorem windowed_ofRecords (id window : Nat) (rs : List ArrivalRecord) (first : Timestamp) :
    ((ofRecords id window rs).getD (create id window first)).Windowed window rs := by
  induction rs using List.reverseRecOn generalizing first with
  | nil => exact windowed_create id window first
  | append_singleton rs r ih =>
    rw [ofRecords_concat, Option.getD_some]
    exact (ih r.time).record r

theorem firstArrival_foldl (rs : List ArrivalRecord) (f : Flow) :
    (rs.foldl (fun f r => (f.record r).2) f).firstArrival = f.firstArrival := by
  induction rs generalizing f with
  | nil => rfl
  | cons r rs ih => exact ih (f.record r).2

theorem firstArrival_ofRecords (h : ofRecords id window rs = some f) :
    rs.head?.map (·.time) = some f.firstArrival := by
  cases rs with
  | nil => simp [ofRecords] at h
  | cons r rs =>
    obtain rfl : _ = f := Option.some.inj h
    exact congrArg some (firstArrival_foldl (r :: rs) (create id window r.time)).symm

end Flow

/-- An arrival whose numbers are taken from counters of any size. -/
structure CountedArrival where
  flow : Nat
  number : Nat
  flowNumber : Nat
  time : Timestamp
deriving DecidableEq

namespace CountedArrival

def record (p : CountedArrival) : ArrivalRecord := ⟨.ofNat p.number, .ofNat p.flowNumber, p.time⟩

def entry (p : CountedArrival) : FlowEntry := ⟨p.flow, p.record⟩

end CountedArrival

namespace Flow

variable {f : Flow} {p : CountedArrival} {ps : List CountedArrival}

theorem updateFor_of_maxFlowSeq {r : ArrivalRecord} {k : SeqNumber} (hk : f.maxFlowSeq = some k) :
    (f.updateFor r).gap = (if r.flowSeq.newer k then r.flowSeq.ahead k - 1 else 0) ∧
      (f.updateFor r).reordered = !r.flowSeq.newer k := by
  cases hnewer : r.flowSeq.newer k with
  | true =>
    rw [updateFor, advanceBy_of_newer hk hnewer, if_pos rfl]
    exact ⟨rfl, rfl⟩
  | false =>
    rw [updateFor, advanceBy_of_not_newer (by simp [hk, hnewer]), hk]
    exact ⟨rfl, rfl⟩

structure Counts (f : Flow) (ps : List CountedArrival) : Prop where
  maxSeq : f.maxSeq = (ps.map (·.number)).max?.map .ofNat
  maxFlowSeq : f.maxFlowSeq = (ps.map (·.flowNumber)).max?.map .ofNat
  packets : f.totals.packets = ps.length
  unused : ps = [] → f.totals.gaps = 0 ∧ f.totals.reordered = 0
  gaps : ∀ first ∈ ps.head?, ∀ largest ∈ (ps.map (·.flowNumber)).max?,
    f.totals.gaps + f.totals.packets + first.flowNumber = largest + 1 + f.totals.reordered

theorem counts_create (id window : Nat) (first : Timestamp) : (create id window first).Counts [] where
  maxSeq := rfl
  maxFlowSeq := rfl
  packets := rfl
  unused _ := ⟨rfl, rfl⟩
  gaps := by simp

theorem Counts.update (h : f.Counts ps) {m : Nat} (hm : (ps.map (·.flowNumber)).max? = some m)
    (near : p.flowNumber ≤ m + 32767 ∧ m ≤ p.flowNumber + 32767) :
    (f.updateFor p.record).gap = p.flowNumber - m - 1 ∧
      (f.updateFor p.record).reordered = decide (p.flowNumber ≤ m) := by
  have hmax : f.maxFlowSeq = some (.ofNat m) := by rw [h.maxFlowSeq, hm, Option.map_some]
  obtain ⟨hgap, hreordered⟩ := updateFor_of_maxFlowSeq (r := p.record) hmax
  have hnewer : p.record.flowSeq.newer (.ofNat m) = decide (m < p.flowNumber) :=
    SeqNumber.newer_ofNat near
  rw [hgap, hreordered, hnewer]
  by_cases hlt : m < p.flowNumber
  · have hahead : p.record.flowSeq.ahead (.ofNat m) = p.flowNumber - m :=
      SeqNumber.ahead_ofNat (Nat.le_of_lt hlt) near.1
    simp [hlt, hahead]
  · have hle : p.flowNumber ≤ m := Nat.le_of_not_lt hlt
    simp [hlt, hle]

theorem Counts.update_first (h : f.Counts []) (r : ArrivalRecord) : f.updateFor r = {} := by
  have hmax : f.maxFlowSeq = none := h.maxFlowSeq
  rw [updateFor, advanceBy_of_not_newer (by simp [hmax]), hmax]
  rfl

theorem totals_record (f : Flow) (r : ArrivalRecord) :
    (f.record r).2.totals.packets = f.totals.packets + 1 ∧
      (f.record r).2.totals.gaps = f.totals.gaps + (f.updateFor r).gap ∧
      (f.record r).2.totals.reordered =
        f.totals.reordered + if (f.updateFor r).reordered then 1 else 0 := ⟨rfl, rfl, rfl⟩

theorem Counts.record (h : f.Counts ps) (numbers : Steady ((ps ++ [p]).map (·.number)))
    (flowNumbers : Steady ((ps ++ [p]).map (·.flowNumber))) :
    (f.record p.record).2.Counts (ps ++ [p]) where
  maxSeq := by
    rw [List.map_append, List.map_singleton] at numbers ⊢
    rw [record_snd_maxSeq, h.maxSeq, ← numbers.newest_concat]
    rfl
  maxFlowSeq := by
    rw [List.map_append, List.map_singleton] at flowNumbers ⊢
    rw [record_snd_maxFlowSeq, h.maxFlowSeq, ← flowNumbers.newest_concat]
    rfl
  packets := by
    rw [List.length_append, ← h.packets]
    rfl
  unused hnil := by simp at hnil
  gaps first hfirst largest hlargest := by
    rw [List.map_append, List.map_singleton] at flowNumbers hlargest
    rw [Steady.max?_concat, Option.mem_some] at hlargest
    obtain ⟨hpackets, hgaps, hreordered⟩ := f.totals_record p.record
    rw [hpackets, hgaps, hreordered]
    cases hm : (ps.map (·.flowNumber)).max? with
    | none =>
      obtain rfl : ps = [] := by simpa using hm
      obtain rfl : p = first := by simpa using hfirst
      obtain rfl : p.flowNumber = largest := hlargest
      obtain ⟨hnoGaps, hnoReordered⟩ := h.unused rfl
      rw [h.update_first, hnoGaps, hnoReordered, h.packets]
      exact Nat.add_comm ..
    | some m =>
      obtain ⟨hgap, hlate⟩ := h.update (p := p) hm (flowNumbers.near m hm)
      rw [hm, Option.elim_some] at hlargest
      have hold : first ∈ ps.head? := by
        cases ps with
        | nil => simp at hm
        | cons q ps => exact hfirst
      have hbefore := h.gaps first hold m hm
      rw [hgap, hlate, ← hlargest]
      by_cases hle : p.flowNumber ≤ m
      · rw [if_pos (decide_eq_true hle)]
        omega
      · rw [if_neg (by simpa using hle)]
        omega

theorem counts_ofRecords (id window : Nat) (numbers : Steady (ps.map (·.number)))
    (flowNumbers : Steady (ps.map (·.flowNumber))) (first : Timestamp) :
    ((ofRecords id window (ps.map (·.record))).getD (create id window first)).Counts ps := by
  induction ps using List.reverseRecOn generalizing first with
  | nil => exact counts_create id window first
  | append_singleton ps p ih =>
    have hbefore := ih (Steady.of_append (List.map_append ▸ numbers))
      (Steady.of_append (List.map_append ▸ flowNumbers)) p.time
    rw [List.map_append, List.map_singleton, ofRecords_concat, Option.getD_some]
    exact hbefore.record numbers flowNumbers

end Flow

/-! ### The table -/

namespace FlowTable

variable {t : FlowTable} {e : FlowEntry} {es : List FlowEntry} {f : Flow}

def ids (t : FlowTable) : List Nat := t.flows.map (·.id)

theorem ids_recordIn (id : Nat) (r : ArrivalRecord) (fs : List Flow) :
    (recordIn id r fs).2.map (·.id) = fs.map (·.id) := by
  induction fs with
  | nil => rfl
  | cons f fs ih =>
    rw [recordIn]
    split
    · rfl
    · exact congrArg (f.id :: ·) ih

theorem get?_eq_none_iff {id : Nat} : t.get? id = none ↔ id ∉ t.ids := by
  rw [get?, List.find?_eq_none, ids, List.mem_map]
  simp

theorem ids_enter (t : FlowTable) (e : FlowEntry) :
    (t.enter e).ids = if e.flow ∈ t.ids then t.ids else t.ids ++ [e.flow] := by
  have hids : (t.enter e).ids = (if (t.get? e.flow).isNone then
      t.flows ++ [Flow.create e.flow t.window e.record.time] else t.flows).map (·.id) :=
    ids_recordIn e.flow e.record _
  rw [hids]
  by_cases hold : e.flow ∈ t.ids
  · have hknown : ¬ (t.get? e.flow).isNone = true := fun hnone =>
      get?_eq_none_iff.mp (Option.isNone_iff_eq_none.mp hnone) hold
    rw [if_neg hknown, if_pos hold]
    rfl
  · have hnew : (t.get? e.flow).isNone = true :=
      Option.isNone_iff_eq_none.mpr (get?_eq_none_iff.mpr hold)
    rw [if_pos hnew, if_neg hold, List.map_append]
    rfl

theorem nodup_ids_enter (h : t.ids.Nodup) (e : FlowEntry) : (t.enter e).ids.Nodup := by
  rw [ids_enter]
  split
  · exact h
  · rename_i hnew
    refine List.nodup_append.mpr ⟨h, List.pairwise_singleton _ _, fun i hi j hj he => ?_⟩
    exact hnew (List.mem_singleton.mp hj ▸ he ▸ hi)

theorem get?_of_mem (h : t.ids.Nodup) (hf : f ∈ t.flows) : t.get? f.id = some f := by
  obtain ⟨before, after, hsplit⟩ := List.append_of_mem hf
  rw [ids, hsplit, List.map_append, List.nodup_append] at h
  rw [get?, List.find?_eq_some_iff_append]
  refine ⟨decide_eq_true rfl, before, after, hsplit, fun g hg => ?_⟩
  have hne := h.2.2 g.id (List.mem_map_of_mem hg) f.id (by simp)
  simpa using hne

theorem ids_enterAll (window : Nat) (es : List FlowEntry) :
    (enterAll { window } es).ids = (es.map (·.flow)).eraseDups := by
  induction es using List.reverseRecOn with
  | nil => rfl
  | append_singleton es e ih =>
    rw [enterAll_append, ids_enter, ih, List.map_append, List.map_singleton, List.eraseDups_append,
      List.cons_removeAll, List.nil_removeAll]
    by_cases hold : e.flow ∈ es.map (·.flow)
    · rw [if_pos (List.mem_eraseDups.mpr hold), if_neg (by simpa using hold)]
      exact (List.append_nil _).symm
    · rw [if_neg (mt List.mem_eraseDups.mp hold), if_pos (by simpa using hold)]
      rfl

theorem nodup_ids_enterAll (window : Nat) (es : List FlowEntry) :
    (enterAll { window } es).ids.Nodup := by
  induction es using List.reverseRecOn with
  | nil => exact List.nodup_nil
  | append_singleton es e ih =>
    rw [enterAll_append]
    exact nodup_ids_enter ih e

def recordsOf (es : List FlowEntry) (id : Nat) : List ArrivalRecord :=
  (es.filter (·.flow = id)).map (·.record)

theorem recordsOf_concat (es : List FlowEntry) (e : FlowEntry) (id : Nat) :
    recordsOf (es ++ [e]) id =
      if id = e.flow then recordsOf es id ++ [e.record] else recordsOf es id := by
  rw [recordsOf, List.filter_append, List.map_append]
  by_cases hid : id = e.flow
  · have hown : [e].filter (·.flow = id) = [e] := by simp [hid]
    rw [if_pos hid, hown]
    rfl
  · have hother : [e].filter (·.flow = id) = [] := by simpa using Ne.symm hid
    rw [if_neg hid, hother]
    exact List.append_nil _

theorem recordsOf_map_entry (ps : List CountedArrival) (id : Nat) :
    recordsOf (ps.map (·.entry)) id = (ps.filter (·.flow = id)).map (·.record) := by
  rw [recordsOf, List.filter_map, List.map_map]
  rfl

theorem window_enterAll (t : FlowTable) (es : List FlowEntry) : (t.enterAll es).window = t.window := by
  induction es using List.reverseRecOn with
  | nil => rfl
  | append_singleton es e ih => rw [enterAll_append, window_enter, ih]

/-- A flow is what its own records make of it. -/
theorem get?_enterAll (window : Nat) (es : List FlowEntry) (id : Nat) :
    (enterAll { window } es).get? id = Flow.ofRecords id window (recordsOf es id) := by
  induction es using List.reverseRecOn with
  | nil => rfl
  | append_singleton es e ih =>
    rw [enterAll_append, get?_enter, recordsOf_concat]
    by_cases hid : id = e.flow
    · rw [if_pos hid, if_pos hid, Flow.ofRecords_concat, ← ih, flowFor, window_enterAll, hid]
    · rw [if_neg hid, if_neg hid, ih]

theorem record_enterAll (window : Nat) (es : List FlowEntry) (e : FlowEntry) :
    let f := (Flow.ofRecords e.flow window (recordsOf es e.flow)).getD
      (Flow.create e.flow window e.record.time)
    ((enterAll { window } es).record e.flow e.record).1.gap = (f.updateFor e.record).gap ∧
      ((enterAll { window } es).record e.flow e.record).1.reordered =
        (f.updateFor e.record).reordered := by
  rw [record_fst, flowFor, get?_enterAll, window_enterAll]
  exact ⟨rfl, rfl⟩

/-- Each flow's numbers are taken from counters that never step far away from the largest so far. -/
def SteadyFlows (ps : List CountedArrival) : Prop :=
  ∀ id, Steady ((ps.filter (·.flow = id)).map (·.number)) ∧
    Steady ((ps.filter (·.flow = id)).map (·.flowNumber))

theorem SteadyFlows.of_append {ps qs : List CountedArrival} (h : SteadyFlows (ps ++ qs)) :
    SteadyFlows ps := by
  intro id
  obtain ⟨numbers, flowNumbers⟩ := h id
  rw [List.filter_append, List.map_append] at numbers flowNumbers
  exact ⟨numbers.of_append, flowNumbers.of_append⟩

variable {ps pre : List CountedArrival} {p : CountedArrival}

theorem SteadyFlows.totals {window id : Nat} (steady : SteadyFlows ps)
    (made : Flow.ofRecords id window (recordsOf (ps.map (·.entry)) id) = some f) :
    let own := ps.filter (·.flow = id)
    f.maxSeq = (own.map (·.number)).max?.map .ofNat ∧ f.totals.packets = own.length ∧
      ∃ first ∈ own.head?, ∃ largest : Nat, (own.map (·.flowNumber)).max? = some largest ∧
        (f.totals.gaps : Int) =
          (largest - first.flowNumber) - (f.totals.packets - 1 - f.totals.reordered) := by
  rw [recordsOf_map_entry] at made
  have hcounts := Flow.counts_ofRecords id window (steady id).1 (steady id).2 .zero
  rw [made, Option.getD_some] at hcounts
  refine ⟨hcounts.maxSeq, hcounts.packets, ?_⟩
  generalize ps.filter (·.flow = id) = own at made hcounts
  cases own with
  | nil => simp [Flow.ofRecords] at made
  | cons first rest =>
    refine ⟨first, rfl, _, List.max?_cons', ?_⟩
    have hgaps := hcounts.gaps first rfl _ List.max?_cons'
    omega

theorem SteadyFlows.update {largest : Nat} (steady : SteadyFlows (pre ++ [p]))
    (hlargest : largest ∈ ((pre.filter (·.flow = p.flow)).map (·.flowNumber)).max?)
    (window : Nat) :
    let update := ((enterAll { window } (pre.map (·.entry))).record p.flow p.record).1
    update.gap = p.flowNumber - largest - 1 ∧ update.reordered = decide (p.flowNumber ≤ largest) := by
  obtain ⟨numbers, flowNumbers⟩ := steady p.flow
  rw [List.filter_append, List.map_append] at numbers flowNumbers
  have hown : [p].filter (·.flow = p.flow) = [p] := by simp
  rw [hown] at flowNumbers
  have hcounts := Flow.counts_ofRecords p.flow window numbers.of_append flowNumbers.of_append p.time
  rw [← recordsOf_map_entry] at hcounts
  obtain ⟨hgap, hreordered⟩ := hcounts.update (p := p) hlargest (flowNumbers.near largest hlargest)
  obtain ⟨hrecordGap, hrecordReordered⟩ := record_enterAll window (pre.map (·.entry)) p.entry
  exact ⟨hrecordGap.trans hgap, hrecordReordered.trans hreordered⟩

/-- However the arrivals of the flows are mixed, the flows are listed as they first appear, and each one
is what its own arrivals make of it: its window holds the last of them, as many as it can, in their
order. Where each flow's numbers are the low halves of steady counters, its newest number is that of
the largest counter, an arrival ahead of all others skips the flow-local counters in between, and
the gaps add up to what the flow-local counters went forward beyond the arrivals that moved them. -/
theorem flows_follow_arrivals (window : Nat) (es : List FlowEntry) :
    let t := enterAll { window } es
    t.flows.map (·.id) = (es.map (·.flow)).eraseDups ∧
    (∀ f ∈ t.flows,
      let own := recordsOf es f.id
      f.window <:+ own ∧ f.window.length = min own.length (max 1 window) ∧
      own.head?.map (·.time) = some f.firstArrival ∧
      (enterAll { window } (es.filter (·.flow = f.id))).get? f.id = some f) ∧
    ∀ ps : List CountedArrival, ps.map (·.entry) = es → SteadyFlows ps →
      (∀ f ∈ t.flows,
        let own := ps.filter (·.flow = f.id)
        f.maxSeq = (own.map (·.number)).max?.map .ofNat ∧ f.totals.packets = own.length ∧
        ∃ first ∈ own.head?, ∃ largest : Nat, (own.map (·.flowNumber)).max? = some largest ∧
          (f.totals.gaps : Int) =
            (largest - first.flowNumber) - (f.totals.packets - 1 - f.totals.reordered)) ∧
      ∀ pre p, pre ++ [p] <+: ps →
        ∀ largest ∈ ((pre.filter (·.flow = p.flow)).map (·.flowNumber)).max?,
          let update := ((enterAll { window } (pre.map (·.entry))).record p.flow p.record).1
          update.gap = p.flowNumber - largest - 1 ∧
            update.reordered = decide (p.flowNumber ≤ largest) := by
  intro t
  have hmem : ∀ f ∈ t.flows, Flow.ofRecords f.id window (recordsOf es f.id) = some f := by
    intro f hf
    rw [← get?_enterAll]
    exact get?_of_mem (nodup_ids_enterAll window es) hf
  refine ⟨ids_enterAll window es, fun f hf => ?_, fun ps hps steady => ⟨fun f hf => ?_, ?_⟩⟩
  · have hown := hmem f hf
    have hwindowed := Flow.windowed_ofRecords f.id window (recordsOf es f.id) .zero
    rw [hown, Option.getD_some] at hwindowed
    refine ⟨hwindowed.suffix, hwindowed.length, Flow.firstArrival_ofRecords hown, ?_⟩
    rw [get?_enterAll, recordsOf, List.filter_filter]
    simpa only [Bool.and_self, recordsOf] using hown
  · have hown := hmem f hf
    rw [← hps] at hown
    exact steady.totals hown
  · intro pre p hpre largest hlargest
    obtain ⟨rest, hrest⟩ := hpre
    exact (hrest ▸ steady).of_append.update hlargest window

theorem flows_follow_arrivals_of_wrap :
    let ps : List CountedArrival := [⟨7, 65534, 65535, .ofMillis 0⟩, ⟨3, 65535, 20, .ofMillis 1⟩,
      ⟨7, 65539, 65538, .ofMillis 2⟩, ⟨7, 65537, 65537, .ofMillis 3⟩]
    let t := enterAll { window := 2 } (ps.map (·.entry))
    SteadyFlows ps ∧ t.flows.map (·.id) = [7, 3] ∧
    ∀ f ∈ t.flows, f.id = 7 → f.maxSeq = some (.ofNat 3) ∧ f.window.length = 2 ∧
      (f.totals.gaps : Int) = (65538 - 65535) - (f.totals.packets - 1 - f.totals.reordered) := by
  intro ps t
  have steady : SteadyFlows ps := by
    intro id
    by_cases h7 : id = 7
    · subst h7
      exact ⟨((Steady.nil.concat (n := 65534) (by simp)).concat (n := 65539) (by simp)).concat (by simp),
        ((Steady.nil.concat (n := 65535) (by simp)).concat (n := 65538) (by simp)).concat (by simp)⟩
    · by_cases h3 : id = 3
      · subst h3
        exact ⟨Steady.nil.concat (n := 65535) (by simp), Steady.nil.concat (n := 20) (by simp)⟩
      · have hnone : ps.filter (·.flow = id) = [] := by simp [ps, Ne.symm h7, Ne.symm h3]
        rw [hnone]
        exact ⟨Steady.nil, Steady.nil⟩
  obtain ⟨hids, hwindows, hcounted⟩ := flows_follow_arrivals 2 (ps.map (·.entry))
  refine ⟨steady, hids.trans (by decide), fun f hf hid => ?_⟩
  obtain ⟨hmax, -, first, hfirst, largest, hlargest, hgaps⟩ := (hcounted ps rfl steady).1 f hf
  rw [hid] at hmax hfirst hlargest
  obtain rfl : _ = first := Option.some.inj hfirst
  obtain rfl : _ = largest := Option.some.inj hlargest
  have hlength := (hwindows f hf).2.1
  rw [hid] at hlength
  exact ⟨hmax, hlength, hgaps⟩

end FlowTable
end LossWatch
