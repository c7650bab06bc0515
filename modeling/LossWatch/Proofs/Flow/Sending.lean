import LossWatch.Arrival
import LossWatch.Proofs.Flow.Recording

/-!
What a sender's numbering tells a receiver. A sender puts global numbers on flows and counts those of
each flow. So the numbers that it puts on a flow between two others of that flow carry the flow-local
numbers between theirs, in order, and the gap between two flow-local numbers counts them.
-/

namespace LossWatch

/-- The sender puts some of the numbers from `base` on on flows, and the flow-local numbers of each
flow are consecutive. -/
def Sends (base : SeqNumber) (route : SeqNumber → Option FlowPosition) : Prop :=
  ∀ ⦃a b : SeqNumber⦄ ⦃p q : FlowPosition⦄, b.InWindow base → a.ahead base < b.ahead base →
    route a = some p → route b = some q → q.flow = p.flow →
      (∀ c ∈ a.between b, ∀ r ∈ route c, r.flow ≠ p.flow) → q.flowSeq = p.flowSeq.next

/-- A list of numbers and their places, each number once, describes a sender if on each flow the next
number listed has the next flow-local number. -/
theorem sends_lookup {base : SeqNumber} {sent : List (SeqNumber × FlowPosition)}
    (listed : ∀ x ∈ sent, sent.lookup x.1 = some x.2)
    (consecutive : ∀ x ∈ sent, ∀ y ∈ sent, y.1.InWindow base →
      x.1.ahead base < y.1.ahead base → y.2.flow = x.2.flow →
        (∀ z ∈ sent, x.1.ahead base < z.1.ahead base → z.1.ahead base < y.1.ahead base →
          z.2.flow ≠ x.2.flow) → y.2.flowSeq = x.2.flowSeq.next) :
    Sends base (sent.lookup ·) := by
  have hmem : ∀ {n : SeqNumber} {p : FlowPosition}, sent.lookup n = some p → (n, p) ∈ sent := by
    intro n p hn
    obtain ⟨pre, post, hsent, -⟩ := List.lookup_eq_some_iff.mp hn
    simp [hsent]
  intro a b p q hb hab ha hq hflow hnone
  refine consecutive _ (hmem ha) _ (hmem hq) hb hab hflow fun z hz hlo hhi => ?_
  have ha' : a.InWindow base := Nat.lt_trans hab hb
  exact hnone z.1 (SeqNumber.mem_between_of_ahead ha' hb hlo hhi) z.2 (listed z hz)

def sentOn (route : SeqNumber → Option FlowPosition) (flow : Nat) (ns : List SeqNumber) :
    List SeqNumber :=
  ns.filter fun n => (route n).any (·.flow = flow)

/-- If a filter keeps the numbers put on the flow and as many numbers in all, it keeps these. -/
theorem sentOn_eq_filter {route : SeqNumber → Option FlowPosition} {flow : Nat}
    {ns : List SeqNumber} {keep : SeqNumber → Bool}
    (hkeep : ∀ n ∈ ns, ∀ p ∈ route n, p.flow = flow → keep n = true)
    (hlength : (ns.filter keep).length = (sentOn route flow ns).length) :
    sentOn route flow ns = ns.filter keep := by
  have hsub : sentOn route flow ns = sentOn route flow (ns.filter keep) := by
    rw [sentOn, sentOn, List.filter_filter]
    refine List.filter_congr fun n hn => ?_
    cases hon : (route n).any (·.flow = flow) with
    | false => rw [Bool.false_and]
    | true =>
      obtain ⟨p, hp, hflow⟩ := (Option.any_eq_true _ _).mp hon
      rw [hkeep n hn p hp (of_decide_eq_true hflow), Bool.and_self]
  rw [hsub] at hlength ⊢
  exact List.filter_sublist.eq_of_length hlength.symm

namespace Sends

variable {base g : SeqNumber} {route : SeqNumber → Option FlowPosition} {p : FlowPosition}

/-- The `m` numbers after `g`, which the sender puts at `p`: those on the flow of `p` are counted on
from there, and `last` is the last of them, or `g`. -/
structure Counted (base g : SeqNumber) (route : SeqNumber → Option FlowPosition) (p : FlowPosition)
    (m : Nat) (sent : List SeqNumber) (last : SeqNumber) : Prop where
  labels : ∀ {j : Nat} {n : SeqNumber}, sent[j]? = some n →
    route n = some ⟨p.flow, p.flowSeq.add (j + 1)⟩
  lastPlace : route last = some ⟨p.flow, p.flowSeq.add sent.length⟩
  reached : last.ahead base ≤ g.ahead base + m
  rest : ∀ {c : SeqNumber}, last.ahead base < c.ahead base → c.ahead base ≤ g.ahead base + m →
    ∀ r ∈ route c, r.flow ≠ p.flow

theorem next_of_counted (h : Sends base route) {m : Nat} {sent : List SeqNumber} {last n : SeqNumber}
    {q : FlowPosition} (hc : Counted base g route p m sent last) (hn : n.InWindow base)
    (hnext : n.ahead base = g.ahead base + m + 1) (hq : route n = some q) (hflow : q.flow = p.flow) :
    q = ⟨p.flow, p.flowSeq.add (sent.length + 1)⟩ := by
  have hlast : last.ahead base < n.ahead base := by
    have := hc.reached
    omega
  have hlastWindow : last.InWindow base := Nat.lt_trans hlast hn
  have hconsecutive : q.flowSeq = (p.flowSeq.add sent.length).next := by
    refine h hn hlast hc.lastPlace hq hflow fun c hcb => ?_
    obtain ⟨hlo, hhi⟩ := SeqNumber.ahead_of_mem_between hlastWindow hn hcb
    exact hc.rest hlo (by omega)
  rw [SeqNumber.next_of_add] at hconsecutive
  obtain ⟨flow, flowSeq⟩ := q
  cases hflow
  cases hconsecutive
  rfl

theorem counted_zero (hp : route g = some p) : Counted base g route p 0 [] g where
  labels hj := by simp at hj
  lastPlace := by
    have hzero : p.flowSeq.add 0 = p.flowSeq := SeqNumber.ofNat_raw _
    rw [hp, List.length_nil, hzero]
  reached := Nat.le_add_right _ _
  rest hlo hhi := by omega

theorem Counted.concat {m : Nat} {sent : List SeqNumber} {last n : SeqNumber}
    (h : Counted base g route p m sent last) (hnext : n.ahead base = g.ahead base + m + 1)
    (hplace : route n = some ⟨p.flow, p.flowSeq.add (sent.length + 1)⟩) :
    Counted base g route p (m + 1) (sent ++ [n]) n where
  labels {j k} hj := by
    rcases Nat.lt_trichotomy j sent.length with hlt | heq | hgt
    · rw [List.getElem?_append_left hlt] at hj
      exact h.labels hj
    · rw [heq, List.getElem?_concat_length, Option.some.injEq] at hj
      rw [← hj, heq]
      exact hplace
    · rw [List.getElem?_eq_none (by simp; omega)] at hj
      exact absurd hj (by simp)
  lastPlace := by
    rw [List.length_append, List.length_singleton]
    exact hplace
  reached := by omega
  rest hlo hhi := by omega

theorem Counted.skip {m : Nat} {sent : List SeqNumber} {last n : SeqNumber}
    (h : Counted base g route p m sent last) (hnext : n.ahead base = g.ahead base + m + 1)
    (hoff : ∀ q ∈ route n, q.flow ≠ p.flow) : Counted base g route p (m + 1) sent last where
  labels := h.labels
  lastPlace := h.lastPlace
  reached := by
    have hreached := h.reached
    omega
  rest {c} hlo hhi := by
    rcases Nat.lt_or_ge (g.ahead base + m) (c.ahead base) with hbeyond | hwithin
    · have hahead : c.ahead base = n.ahead base := by omega
      rw [SeqNumber.ahead_inj hahead]
      exact hoff
    · exact h.rest hlo hwithin

theorem counted (h : Sends base route) (hp : route g = some p) (m : Nat)
    (hm : g.ahead base + m < 32768) :
    ∃ last, Counted base g route p m (sentOn route p.flow ((List.range' 1 m).map g.add)) last := by
  induction m with
  | zero => exact ⟨g, counted_zero hp⟩
  | succ m ih =>
    obtain ⟨last, hc⟩ := ih (by omega)
    have hnext : (g.add (m + 1)).ahead base = g.ahead base + m + 1 :=
      SeqNumber.ahead_add (by omega)
    have hwindow : (g.add (m + 1)).InWindow base := by
      rw [SeqNumber.InWindow, hnext]
      omega
    have hsent : sentOn route p.flow ((List.range' 1 (m + 1)).map g.add) =
        sentOn route p.flow ((List.range' 1 m).map g.add) ++
          sentOn route p.flow [g.add (m + 1)] := by
      rw [List.range'_concat, List.map_append, sentOn, List.filter_append, Nat.one_mul,
        Nat.add_comm 1 m]
      rfl
    rw [hsent]
    by_cases hon : (route (g.add (m + 1))).any (·.flow = p.flow) = true
    · obtain ⟨q, hq, hflow⟩ := (Option.any_eq_true _ _).mp hon
      have hplace := h.next_of_counted hc hwindow hnext hq (of_decide_eq_true hflow)
      have hself : sentOn route p.flow [g.add (m + 1)] = [g.add (m + 1)] := by
        simp [sentOn, hon]
      rw [hself]
      exact ⟨_, hc.concat hnext (hplace ▸ hq)⟩
    · have hself : sentOn route p.flow [g.add (m + 1)] = [] := by
        simp [sentOn, hon]
      rw [hself, List.append_nil]
      refine ⟨last, hc.skip hnext fun q hq hflow => hon ?_⟩
      exact (Option.any_eq_true _ _).mpr ⟨q, hq, decide_eq_true hflow⟩

variable {b : SeqNumber}

theorem labels (h : Sends base route) (hp : route g = some p) (hb : b.InWindow base)
    (hgb : g.ahead base < b.ahead base) {j : Nat} {n : SeqNumber}
    (hn : (sentOn route p.flow (g.between b))[j]? = some n) :
    route n = some ⟨p.flow, p.flowSeq.add (j + 1)⟩ := by
  have hg : g.InWindow base := Nat.lt_trans hgb hb
  have hway := SeqNumber.ahead_add_ahead (Nat.le_of_lt hgb)
  rw [SeqNumber.InWindow] at hb
  obtain ⟨last, hc⟩ := h.counted hp (b.ahead g - 1) (by omega)
  rw [SeqNumber.between_of_newer ((SeqNumber.newer_iff hb hg).mpr hgb)] at hn
  exact hc.labels hn

/-- The gap between two numbers of a flow counts the numbers put on it between them. -/
theorem flowSeq_eq (h : Sends base route) (hp : route g = some p) (hb : b.InWindow base)
    (hgb : g.ahead base < b.ahead base) {q : FlowPosition} (hq : route b = some q)
    (hflow : q.flow = p.flow) :
    q.flowSeq = p.flowSeq.add ((sentOn route p.flow (g.between b)).length + 1) := by
  have hg : g.InWindow base := Nat.lt_trans hgb hb
  have hway := SeqNumber.ahead_add_ahead (Nat.le_of_lt hgb)
  have hb' := hb
  rw [SeqNumber.InWindow] at hb'
  obtain ⟨last, hc⟩ := h.counted hp (b.ahead g - 1) (by omega)
  rw [SeqNumber.between_of_newer ((SeqNumber.newer_iff hb hg).mpr hgb)]
  exact congrArg FlowPosition.flowSeq (h.next_of_counted hc hb (by omega) hq hflow)

theorem length_sentOn (route : SeqNumber → Option FlowPosition) (flow : Nat) (g b : SeqNumber) :
    (sentOn route flow (g.between b)).length < 32767 :=
  Nat.lt_of_le_of_lt (List.length_filter_le ..) (SeqNumber.length_between_lt g b)

end Sends

def FlowEntry.place (e : FlowEntry) : FlowPosition := ⟨e.flow, e.record.flowSeq⟩

theorem Sends.inStep {base : SeqNumber} {route : SeqNumber → Option FlowPosition}
    (h : Sends base route) {es : List FlowEntry} (hwin : ∀ e ∈ es, e.record.seq.InWindow base)
    (hrouted : ∀ e ∈ es, route e.record.seq = some e.place) : FlowTable.InStep es := by
  -- Of two numbers on a flow the newer one has the newer flow-local number.
  have hnewer : ∀ d ∈ es, ∀ e ∈ es, d.flow = e.flow →
      d.record.seq.ahead base < e.record.seq.ahead base →
        e.record.flowSeq.newer d.record.flowSeq = true := by
    intro d hd e he hflow hlt
    have hseq : e.record.flowSeq = d.record.flowSeq.add _ :=
      h.flowSeq_eq (hrouted d hd) (hwin e he) hlt (hrouted e he) hflow.symm
    have hcount := Sends.length_sentOn route d.place.flow d.record.seq e.record.seq
    have hzero : d.record.flowSeq.add 0 = d.record.flowSeq := SeqNumber.ofNat_raw _
    have hadd := SeqNumber.newer_add_add (a := d.record.flowSeq) (i := 0)
      (j := (sentOn route d.place.flow (d.record.seq.between e.record.seq)).length + 1)
      (by omega) (by omega)
    rwa [hzero, ← hseq] at hadd
  intro d hd e he hflow
  rcases Nat.lt_trichotomy (d.record.seq.ahead base) (e.record.seq.ahead base) with hlt | heq | hgt
  · rw [SeqNumber.not_newer_of_newer (hnewer d hd e he hflow hlt),
      SeqNumber.not_newer_of_newer ((SeqNumber.newer_iff (hwin e he) (hwin d hd)).mpr hlt)]
  · have hsame : d.record.seq = e.record.seq := SeqNumber.ahead_inj heq
    have hplace : d.place = e.place := by
      have hd' := hrouted d hd
      rw [hsame, hrouted e he] at hd'
      exact (Option.some.inj hd').symm
    have hflowSeq : d.record.flowSeq = e.record.flowSeq := congrArg FlowPosition.flowSeq hplace
    rw [hsame, hflowSeq, SeqNumber.not_newer_self, SeqNumber.not_newer_self]
  · rw [hnewer e he d hd hflow.symm hgt, (SeqNumber.newer_iff (hwin d hd) (hwin e he)).mpr hgt]

end LossWatch
