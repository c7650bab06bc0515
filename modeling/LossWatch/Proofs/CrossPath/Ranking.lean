import LossWatch.CrossPath
import LossWatch.Proofs.SequenceNumber.Window

/-!
The ranking loses no flow and names none twice. An average interval is only known if every flow has
one, so every flow has a newest record and a virtual time, and the ranked ids are the ids of the
table in another order. The fastest flow then has a record to set the anchor from. The ids stand in the
order of the virtual times, and the anchor has the newest number of the window, if one is newer than
all others.
-/

namespace LossWatch

namespace Flow

theorem window_ne_nil_of_averageDelta {f : Flow} (h : f.averageDelta.isSome = true) :
    f.window ≠ [] := by
  intro hnil
  simp [averageDelta, oldest, hnil] at h

theorem virtualTime_isSome {f : Flow} (h : f.window ≠ []) (reference : SeqNumber) (delta : Float) :
    (f.virtualTime reference delta).isSome = true := by
  obtain ⟨r, hr⟩ := Option.isSome_iff_exists.mp (List.getLast?_isSome.mpr h)
  have hnewest : f.newest = some r := hr
  simp [virtualTime, hnewest]

end Flow

namespace RankedFlow

theorem insert_perm (a : RankedFlow) (bs : List RankedFlow) : (a.insert bs).Perm (a :: bs) := by
  induction bs with
  | nil => exact .refl _
  | cons b bs ih =>
    rw [insert]
    split
    · exact .refl _
    · exact (ih.cons b).trans (.swap a b bs)

theorem foldr_insert_perm (as : List RankedFlow) : (as.foldr insert []).Perm as := by
  induction as with
  | nil => exact .refl _
  | cons a as ih => exact (a.insert_perm _).trans (ih.cons a)

variable {a b c : RankedFlow} {bs : List RankedFlow}

def Ahead (a b : RankedFlow) : Prop :=
  a.virtualTime < b.virtualTime ∨ a.virtualTime = b.virtualTime ∧
    (a.firstArrival < b.firstArrival ∨ a.firstArrival = b.firstArrival ∧ a.id < b.id)

theorem firstArrival_lt_or_eq (a b : RankedFlow) : a.firstArrival < b.firstArrival ∨
    a.firstArrival = b.firstArrival ∨ b.firstArrival < a.firstArrival := by
  rcases Nat.lt_trichotomy a.firstArrival.micros b.firstArrival.micros with h | h | h
  · exact .inl h
  · exact .inr (.inl (Timestamp.ext_micros h))
  · exact .inr (.inr h)

theorem le_iff : a.le b = true ↔ a.virtualTime < b.virtualTime ∨ a.virtualTime = b.virtualTime ∧
    (a.firstArrival < b.firstArrival ∨ a.firstArrival = b.firstArrival ∧ a.id ≤ b.id) := by
  rw [le, Bool.or_eq_true, Bool.and_eq_true, Bool.or_eq_true, Bool.and_eq_true, beq_iff_eq, beq_iff_eq,
    decide_eq_true_eq, decide_eq_true_eq, decide_eq_true_eq]

theorem ahead_of_le (h : a.le b = true) (hne : a.id ≠ b.id) : a.Ahead b := by
  refine (le_iff.mp h).imp_right fun ⟨hvirtual, hrest⟩ => ⟨hvirtual, hrest.imp_right ?_⟩
  exact fun ⟨hfirst, hid⟩ => ⟨hfirst, Nat.lt_of_le_of_ne hid hne⟩

theorem le_trans (hab : a.le b = true) (hbc : b.le c = true) : a.le c = true := by
  have htrans : ∀ {s t u : Timestamp}, s < t → t < u → s < u := fun {s t u} => Nat.lt_trans
  rw [le_iff] at *
  grind

theorem le_of_not_le (h : ¬ a.le b = true) : b.le a = true := by
  have hfirst := firstArrival_lt_or_eq a b
  rw [le_iff] at *
  grind

theorem insert_sorted (h : bs.Pairwise fun b c => b.le c = true) (a : RankedFlow) :
    (a.insert bs).Pairwise fun b c => b.le c = true := by
  induction bs with
  | nil => exact List.pairwise_singleton _ a
  | cons b bs ih =>
    obtain ⟨hb, hbs⟩ := List.pairwise_cons.mp h
    rw [insert]
    split
    case isTrue hab =>
      refine List.pairwise_cons.mpr ⟨fun c hc => ?_, h⟩
      rcases List.mem_cons.mp hc with rfl | hc
      · exact hab
      · exact le_trans hab (hb c hc)
    case isFalse hab =>
      refine List.pairwise_cons.mpr ⟨fun c hc => ?_, ih hbs⟩
      rcases List.mem_cons.mp ((insert_perm a bs).mem_iff.mp hc) with rfl | hc
      · exact le_of_not_le hab
      · exact hb c hc

theorem foldr_insert_sorted (as : List RankedFlow) :
    (as.foldr insert []).Pairwise fun b c => b.le c = true := by
  induction as with
  | nil => exact .nil
  | cons a as ih => exact insert_sorted ih a

end RankedFlow

namespace FlowTable

variable {t : FlowTable} {order : List Nat} {reference : SeqNumber} {delta : Float}

theorem window_ne_nil_of_commonDelta (h : t.commonDelta = some delta) :
    ∀ f ∈ t.flows, f.window ≠ [] := by
  simp only [commonDelta] at h
  split at h
  case isFalse => simp at h
  case isTrue hall =>
    have hle := List.length_filter_le (0.0 < ·) (t.flows.filterMap (·.averageDelta))
    have hle' := List.length_filterMap_le (·.averageDelta) t.flows
    have hlength : (t.flows.filterMap (·.averageDelta)).length = t.flows.length := by omega
    intro f hf
    exact Flow.window_ne_nil_of_averageDelta (List.filterMap_length_eq_length.mp hlength f hf)

theorem rankedFlows_perm (h : ∀ f ∈ t.flows, f.window ≠ []) (reference : SeqNumber)
    (delta : Float) :
    ((t.rankedFlows reference delta).map (·.id)).Perm (t.flows.map (·.id)) := by
  have hids : ∀ flows : List Flow, (∀ f ∈ flows, f.window ≠ []) →
      (flows.filterMap fun f => (f.virtualTime reference delta).map fun v =>
        (⟨Decimal.floatToWhole v, f.firstArrival, f.id⟩ : RankedFlow)).map (·.id) =
          flows.map (·.id) := by
    intro flows
    induction flows with
    | nil => exact fun _ => rfl
    | cons f fs ih =>
      intro hall
      obtain ⟨v, hv⟩ := Option.isSome_iff_exists.mp
        (f.virtualTime_isSome (hall f (by simp)) reference delta)
      simp only [List.filterMap_cons, hv, Option.map_some, List.map_cons]
      rw [ih fun g hg => hall g (by simp [hg])]
  rw [← hids t.flows h]
  exact (RankedFlow.foldr_insert_perm _).map _

theorem ranking_eq_some {least : Nat} (h : t.ranking least = some (order, delta)) :
    t.commonDelta = some delta ∧ 2 ≤ t.size ∧ (∀ f ∈ t.flows, f.window ≠ []) ∧
      order.Perm (t.flows.map (·.id)) := by
  simp only [ranking] at h
  split at h
  case isTrue => simp at h
  case isFalse hready =>
    simp only [Bool.or_eq_true, decide_eq_true_eq, not_or, Nat.not_lt] at hready
    simp only [Option.bind_eq_bind, Option.bind_eq_some_iff, Option.pure_def, Option.some.injEq,
      Prod.mk.injEq] at h
    obtain ⟨d, hd, reference, -, rfl, rfl⟩ := h
    have hwindow := window_ne_nil_of_commonDelta hd
    exact ⟨hd, hready.1, hwindow, rankedFlows_perm hwindow reference d⟩

theorem mem_rankedFlows {a : RankedFlow} (h : a ∈ t.rankedFlows reference delta) :
    ∃ f ∈ t.flows, ∃ v, f.virtualTime reference delta = some v ∧
      a = ⟨Decimal.floatToWhole v, f.firstArrival, f.id⟩ := by
  obtain ⟨f, hf, ha⟩ := List.mem_filterMap.mp ((RankedFlow.foldr_insert_perm _).mem_iff.mp h)
  obtain ⟨v, hv, rfl⟩ := Option.map_eq_some_iff.mp ha
  exact ⟨f, hf, v, hv, rfl⟩

/-- How an order ranks the flows of the table. -/
structure Ranked (t : FlowTable) (least : Nat) (order : List Nat) : Prop where
  two : 2 ≤ t.size
  samples : ∀ f ∈ t.flows, least ≤ f.window.length
  perm : order.Perm (t.flows.map (·.id))
  nodup : order.Nodup
  sorted : ∃ delta reference, t.commonDelta = some delta ∧ t.oldestSeq = some reference ∧
    ∃ ranked : List RankedFlow, order = ranked.map (·.id) ∧ ranked.Pairwise RankedFlow.Ahead ∧
      ∀ a ∈ ranked, ∃ f ∈ t.flows, ∃ v, f.virtualTime reference delta = some v ∧
        a = ⟨Decimal.floatToWhole v, f.firstArrival, f.id⟩

theorem Ranked.ne_nil {least : Nat} (h : t.Ranked least order) : order ≠ [] := by
  rintro rfl
  have hlength := h.perm.length_eq
  have htwo : 2 ≤ t.flows.length := h.two
  rw [List.length_nil, List.length_map] at hlength
  omega

theorem ranked_of_ranking {least : Nat} (hnodup : (t.flows.map (·.id)).Nodup)
    (h : t.ranking least = some (order, delta)) : t.Ranked least order := by
  obtain ⟨hdelta, htwo, -, hperm⟩ := ranking_eq_some h
  have horder := hperm.nodup_iff.mpr hnodup
  simp only [ranking] at h
  split at h
  case isTrue => simp at h
  case isFalse hready =>
    simp only [Bool.or_eq_true, Bool.not_eq_true', not_or, Bool.not_eq_false, allHaveSamples,
      Bool.and_eq_true, List.all_eq_true, decide_eq_true_eq] at hready
    simp only [Option.bind_eq_bind, Option.bind_eq_some_iff, Option.pure_def, Option.some.injEq,
      Prod.mk.injEq] at h
    obtain ⟨d, hd, reference, href, rfl, rfl⟩ := h
    refine ⟨htwo, hready.2.2, hperm, horder, d, reference, hd, href, t.rankedFlows reference d, rfl,
      ?_, fun a => mem_rankedFlows⟩
    have hsorted := RankedFlow.foldr_insert_sorted (t.flows.filterMap fun f =>
      (f.virtualTime reference d).map fun v =>
        (⟨Decimal.floatToWhole v, f.firstArrival, f.id⟩ : RankedFlow))
    exact hsorted.imp₂ (fun _ _ => RankedFlow.ahead_of_le) (List.pairwise_map.mp horder)

theorem get?_of_mem_ids {id : Nat} (h : id ∈ t.flows.map (·.id)) :
    ∃ f ∈ t.flows, t.get? id = some f := by
  obtain ⟨g, hg, rfl⟩ := List.mem_map.mp h
  have hsome : (t.flows.find? (·.id = g.id)).isSome = true :=
    List.find?_isSome.mpr ⟨g, hg, decide_eq_true rfl⟩
  obtain ⟨f, hf⟩ := Option.isSome_iff_exists.mp hsome
  exact ⟨f, List.mem_of_find?_eq_some hf, hf⟩

theorem exists_fastest {least : Nat} (h : t.ranking least = some (order, delta)) :
    ∃ f ∈ t.flows, order.head? = some f.id ∧ t.get? f.id = some f ∧ f.window ≠ [] := by
  obtain ⟨-, hsize, hwindow, hperm⟩ := ranking_eq_some h
  have hlength := hperm.length_eq
  rw [List.length_map] at hlength
  have htwo : 2 ≤ t.flows.length := hsize
  obtain ⟨id, rest, rfl⟩ := List.exists_cons_of_length_pos (show 0 < order.length by omega)
  obtain ⟨f, hf, hflow⟩ := get?_of_mem_ids (hperm.mem_iff.mp List.mem_cons_self)
  have hfound : t.flows.find? (·.id = id) = some f := hflow
  obtain rfl : f.id = id := by simpa using List.find?_some hfound
  exact ⟨f, hf, rfl, hflow, hwindow f hf⟩

end FlowTable

def ArrivalRecord.newest (a b : ArrivalRecord) : ArrivalRecord := if b.seq.newer a.seq then b else a

theorem ArrivalRecord.newest_eq_or (a b : ArrivalRecord) : a.newest b = a ∨ a.newest b = b := by
  rw [newest]
  split
  · exact .inr rfl
  · exact .inl rfl

/-- A number is on top of the records if one has it and it is newer than all other numbers of them. -/
structure OnTop (rs : List ArrivalRecord) (top : SeqNumber) : Prop where
  present : ∃ r ∈ rs, r.seq = top
  newer : ∀ r ∈ rs, r.seq ≠ top → top.newer r.seq = true

theorem OnTop.newest {rs : List ArrivalRecord} {a b : ArrivalRecord} {top : SeqNumber}
    (h : OnTop (a :: b :: rs) top) : OnTop (a.newest b :: rs) top where
  present := by
    have hkept : a.seq = top ∨ b.seq = top → (a.newest b).seq = top := by
      intro htop
      refine Classical.byContradiction fun hne => ?_
      rw [ArrivalRecord.newest] at hne
      by_cases hnewer : b.seq.newer a.seq = true
      · rw [if_pos hnewer] at hne
        have hbehind := h.newer b (by simp) hne
        rw [← htop.resolve_right hne] at hbehind
        exact absurd hnewer (by simp [SeqNumber.not_newer_of_newer hbehind])
      · rw [if_neg hnewer] at hne
        have hbehind := h.newer a (by simp) hne
        rw [← htop.resolve_left hne] at hbehind
        exact hnewer hbehind
    obtain ⟨r, hr, hseq⟩ := h.present
    rcases List.mem_cons.mp hr with rfl | hr
    · exact ⟨_, List.mem_cons_self, hkept (.inl hseq)⟩
    · rcases List.mem_cons.mp hr with rfl | hr
      · exact ⟨_, List.mem_cons_self, hkept (.inr hseq)⟩
      · exact ⟨r, List.mem_cons_of_mem _ hr, hseq⟩
  newer r hr hne := by
    rcases List.mem_cons.mp hr with rfl | hr
    · rcases a.newest_eq_or b with he | he
      · rw [he] at hne ⊢
        exact h.newer a (by simp) hne
      · rw [he] at hne ⊢
        exact h.newer b (by simp) hne
    · exact h.newer r (by simp [hr]) hne

theorem newest_foldl (rs : List ArrivalRecord) (a : ArrivalRecord) :
    rs.foldl .newest a ∈ a :: rs ∧ ∀ top, OnTop (a :: rs) top → (rs.foldl .newest a).seq = top := by
  induction rs generalizing a with
  | nil =>
    refine ⟨List.mem_cons_self, fun top htop => ?_⟩
    obtain ⟨r, hr, hseq⟩ := htop.present
    exact List.mem_singleton.mp hr ▸ hseq
  | cons b rs ih =>
    obtain ⟨hmem, hseq⟩ := ih (a.newest b)
    refine ⟨?_, fun top htop => hseq top htop.newest⟩
    rw [List.foldl_cons]
    rcases List.mem_cons.mp hmem with he | hmem
    · rw [he]
      rcases a.newest_eq_or b with he | he <;> simp [he]
    · exact List.mem_cons_of_mem _ (List.mem_cons_of_mem _ hmem)

theorem newestRecord_eq_some {rs : List ArrivalRecord} {r : ArrivalRecord}
    (h : newestRecord rs = some r) : r ∈ rs ∧ ∀ top, OnTop rs top → r.seq = top := by
  cases rs with
  | nil => simp [newestRecord] at h
  | cons a rs =>
    obtain rfl : rs.foldl .newest a = r := Option.some.inj h
    exact newest_foldl rs a

theorem newestRecord_isSome {rs : List ArrivalRecord} (h : rs ≠ []) :
    (newestRecord rs).isSome = true := by
  cases rs with
  | nil => exact absurd rfl h
  | cons r rs => rfl

namespace CrossPath

variable {s : CrossPath}

theorem order_seedPredictors (s : CrossPath) : s.seedPredictors.order = s.order ∧
    s.seedPredictors.awaited = s.awaited ∧ s.seedPredictors.phase = s.phase := by
  simp only [seedPredictors]
  split
  · exact ⟨rfl, rfl, rfl⟩
  · split <;> exact ⟨rfl, rfl, rfl⟩

theorem anchor_seedPredictors_eq {id : Nat} {f : Flow} (hfastest : s.fastest? = some id)
    (hflow : s.flows.get? id = some f) : s.seedPredictors.anchor =
      (newestRecord f.window).map fun r => (⟨r.seq, r.time⟩ : Anchor) := by
  simp only [seedPredictors, hfastest, hflow]

theorem anchor_seedPredictors {id : Nat} {f : Flow} (hfastest : s.fastest? = some id)
    (hflow : s.flows.get? id = some f) (hwindow : f.window ≠ []) :
    s.seedPredictors.anchor.isSome = true := by
  rw [anchor_seedPredictors_eq hfastest hflow, Option.isSome_map]
  exact newestRecord_isSome hwindow

/-- Once ranked, the order names the flows of the table, and the fastest has set the anchor. -/
theorem learnFlowOrder?_eq_some {r : Step CrossPath} (h : s.learnFlowOrder? = some r) :
    r.state.order.Perm (s.flows.flows.map (·.id)) ∧ r.state.order ≠ [] ∧
      r.state.anchor.isSome = true ∧ r.state.awaited = s.awaited ∧ r.state.phase = s.phase := by
  obtain ⟨⟨order, delta⟩, hranking, rfl⟩ := Option.map_eq_some_iff.mp h
  obtain ⟨-, -, -, hperm⟩ := FlowTable.ranking_eq_some hranking
  obtain ⟨f, -, hfastest, hflow, hwindow⟩ := FlowTable.exists_fastest hranking
  have hne : order ≠ [] := fun hnil => by simp [hnil] at hfastest
  let ranked : CrossPath := { s with order, nominalDelta := delta }
  obtain ⟨horder, hawaited, hphase⟩ := ranked.order_seedPredictors
  have hanchor : ranked.seedPredictors.anchor.isSome = true :=
    anchor_seedPredictors hfastest hflow hwindow
  exact ⟨horder ▸ hperm, horder ▸ hne, hanchor, hawaited, hphase⟩

/-- The anchor is the record left of the fastest flow's window when each newer one replaces the one
before, and it has the number on top if there is one. -/
def Anchored (t : FlowTable) (s : CrossPath) : Prop :=
  ∃ f ∈ t.flows, s.fastest? = some f.id ∧ ∃ r ∈ f.window, s.anchor = some ⟨r.seq, r.time⟩ ∧
    newestRecord f.window = some r ∧ ∀ top, OnTop f.window top → r.seq = top

theorem ranked_of_learnFlowOrder? {r : Step CrossPath} (hnodup : (s.flows.flows.map (·.id)).Nodup)
    (h : s.learnFlowOrder? = some r) :
    s.flows.Ranked s.config.minFlowSamples r.state.order ∧ Anchored s.flows r.state := by
  obtain ⟨⟨order, delta⟩, hranking, rfl⟩ := Option.map_eq_some_iff.mp h
  have hranked := FlowTable.ranked_of_ranking hnodup hranking
  obtain ⟨f, hf, hfastest, hflow, hwindow⟩ := FlowTable.exists_fastest hranking
  let given : CrossPath := { s with order, nominalDelta := delta }
  obtain ⟨horder, -, -⟩ := given.order_seedPredictors
  obtain ⟨m, hm⟩ := Option.isSome_iff_exists.mp (newestRecord_isSome hwindow)
  obtain ⟨hmem, htop⟩ := newestRecord_eq_some hm
  have hanchor : given.seedPredictors.anchor = some ⟨m.seq, m.time⟩ := by
    rw [anchor_seedPredictors_eq (s := given) hfastest hflow, hm, Option.map_some]
  have hfirst : given.seedPredictors.fastest? = some f.id := by
    rw [fastest?, horder]
    exact hfastest
  exact ⟨horder ▸ hranked, f, hf, hfirst, m, hmem, hanchor, hm, htop⟩

end CrossPath
end LossWatch
