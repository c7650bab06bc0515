import LossWatch.Feedback.Requests
import Mathlib.Data.List.Nodup

/-!
The remembered requests. Pruning only forgets and leaves room for one more, a request adds at most one
entry and leaves its number unanswered, and a repair settles the one entry of its number.
-/

namespace LossWatch.RepairRequests

variable {rs : RepairRequests} {r r' : RepairRequest} {now : Timestamp} {seq : SeqNumber}
  {horizon lateAfter : Duration} {tie : Nat}

def Distinct (rs : RepairRequests) : Prop := (rs.map (·.seq)).Nodup

theorem Distinct.sublist {l : RepairRequests} (h : rs.Distinct) (hl : l.Sublist rs) : l.Distinct :=
  List.Nodup.sublist (hl.map _) h

theorem mem_of_find? (h : rs.find? seq = some r) : r ∈ rs ∧ r.seq = seq :=
  ⟨List.mem_of_find?_eq_some h, by simpa using List.find?_some h⟩

theorem seq_ne_of_find? (h : rs.find? seq = none) : ∀ r ∈ rs, r.seq ≠ seq := by
  simpa [find?] using h

theorem find?_of_mem (hd : rs.Distinct) (h : r ∈ rs) : rs.find? r.seq = some r := by
  cases hfind : rs.find? r.seq with
  | none => exact absurd rfl (seq_ne_of_find? hfind r h)
  | some r' =>
    obtain ⟨hmem, hseq⟩ := mem_of_find? hfind
    rw [List.inj_on_of_nodup_map hd hmem h hseq]

/-! ### Forgetting -/

theorem foldl_mem_of_choice {α : Type} {g : α → α → α} (hg : ∀ a b, g a b = a ∨ g a b = b)
    (l : List α) (a : α) : l.foldl g a ∈ a :: l := by
  induction l generalizing a with
  | nil => exact List.mem_cons_self
  | cons b l ih =>
    have hrest := ih (g a b)
    rcases hg a b with he | he
    · rw [he] at hrest
      rcases List.mem_cons.mp hrest with hfirst | hmem
      · rw [List.foldl_cons, he, hfirst]
        exact List.mem_cons_self
      · rw [List.foldl_cons, he]
        exact List.mem_cons_of_mem a (List.mem_cons_of_mem b hmem)
    · rw [he] at hrest
      rw [List.foldl_cons, he]
      exact List.mem_cons_of_mem a hrest

theorem foldl_min_le (l : List Timestamp) (a : Timestamp) :
    ∀ b ∈ a :: l, l.foldl min a ≤ b := by
  induction l generalizing a with
  | nil =>
    intro b hb
    rw [List.mem_singleton.mp hb]
    exact Nat.le_refl _
  | cons c l ih =>
    have hfirst : min a c ≤ a ∧ min a c ≤ c := by
      show (if a ≤ c then a else c) ≤ a ∧ (if a ≤ c then a else c) ≤ c
      split
      · exact ⟨Nat.le_refl _, ‹_›⟩
      · exact ⟨Nat.le_of_not_le ‹_›, Nat.le_refl _⟩
    have hleast := ih (min a c) (min a c) List.mem_cons_self
    intro b hb
    rcases List.mem_cons.mp hb with rfl | hb
    · exact Nat.le_trans hleast hfirst.1
    · rcases List.mem_cons.mp hb with rfl | hb
      · exact Nat.le_trans hleast hfirst.2
      · exact ih (min a c) b (List.mem_cons_of_mem _ hb)

theorem exists_first (a : RepairRequest) (l : RepairRequests) :
    ∃ first ∈ a :: l, first.requestedAt = (l.map (·.requestedAt)).foldl min a.requestedAt :=
  List.mem_map.mp (foldl_mem_of_choice (fun a b => ite_eq_or_eq (a ≤ b) a b)
    (l.map (·.requestedAt)) a.requestedAt : _ ∈ (a :: l).map (·.requestedAt))

theorem mem_oldests :
    r ∈ rs.oldests ↔ r ∈ rs ∧ ∀ other ∈ rs, r.requestedAt ≤ other.requestedAt := by
  cases rs with
  | nil => simp [oldests]
  | cons a l =>
    have hle := foldl_min_le (l.map (·.requestedAt)) a.requestedAt
    obtain ⟨first, hfirst, hfold⟩ := exists_first a l
    rw [oldests, List.mem_filter, decide_eq_true_eq]
    refine and_congr_right fun hr => ⟨fun he other hother => ?_, fun hleast => ?_⟩
    · rw [he]
      exact hle _ (List.mem_map.mpr ⟨other, hother, rfl⟩)
    · have hlower := hleast first hfirst
      rw [hfold] at hlower
      exact Timestamp.ext_micros
        (Nat.le_antisymm hlower (hle _ (List.mem_map.mpr ⟨r, hr, rfl⟩)))

theorem exists_mem_oldests (h : r ∈ rs) : ∃ first, first ∈ rs.oldests := by
  cases rs with
  | nil => cases h
  | cons a l =>
    obtain ⟨first, hfirst, he⟩ := exists_first a l
    exact ⟨first, List.mem_filter.mpr ⟨hfirst, decide_eq_true he⟩⟩

theorem oldest?_mem (h : rs.oldest? tie = some r) : r ∈ rs.oldests :=
  List.mem_of_getElem? h

theorem exists_oldest? (h : r ∈ rs) (tie : Nat) : ∃ first, rs.oldest? tie = some first := by
  obtain ⟨first, hfirst⟩ := exists_mem_oldests h
  have hlt : tie % rs.oldests.length < rs.oldests.length :=
    Nat.mod_lt _ (List.length_pos_of_mem hfirst)
  exact ⟨_, List.getElem?_eq_getElem hlt⟩

/-- Any of the oldest can be the one. -/
theorem exists_tie (h : r ∈ rs.oldests) : ∃ tie, rs.oldest? tie = some r := by
  obtain ⟨tie, hlt, he⟩ := List.getElem_of_mem h
  exact ⟨tie, by rw [oldest?, Nat.mod_eq_of_lt hlt, List.getElem?_eq_getElem hlt, he]⟩

theorem forget_sublist (rs : RepairRequests) (seq : SeqNumber) : (rs.forget seq).Sublist rs :=
  List.filter_sublist

theorem length_forget_lt (h : r ∈ rs) : (rs.forget r.seq).length < rs.length :=
  List.length_filter_lt_length_iff_exists.mpr ⟨r, h, by simp⟩

theorem forgetOldest_sublist (rs : RepairRequests) (tie : Nat) :
    (rs.forgetOldest tie).Sublist rs := by
  rw [forgetOldest]
  split
  · exact rs.forget_sublist _
  · exact .refl rs

theorem length_forgetOldest_le (rs : RepairRequests) (tie : Nat) :
    (rs.forgetOldest tie).length ≤ rs.length - 1 := by
  rw [forgetOldest]
  cases rs with
  | nil => exact Nat.le_refl 0
  | cons a l =>
    obtain ⟨first, hfirst⟩ := exists_oldest? (List.mem_cons_self (a := a) (l := l)) tie
    rw [hfirst]
    exact Nat.le_sub_one_of_lt (length_forget_lt (mem_oldests.mp (oldest?_mem hfirst)).1)

theorem forgetOldests_sublist (tie n : Nat) (rs : RepairRequests) :
    (forgetOldests tie n rs).Sublist rs := by
  induction n generalizing rs with
  | zero => exact .refl rs
  | succ n ih => exact (ih (rs.forgetOldest tie)).trans (rs.forgetOldest_sublist tie)

theorem length_forgetOldests_le (tie n : Nat) (rs : RepairRequests) :
    (forgetOldests tie n rs).length ≤ rs.length - n := by
  induction n generalizing rs with
  | zero => exact Nat.le_refl _
  | succ n ih =>
    have hfirst := rs.length_forgetOldest_le tie
    have hrest := ih (rs.forgetOldest tie)
    rw [forgetOldests]
    omega

theorem prune_sublist (rs : RepairRequests) (tie : Nat) (now : Timestamp) (horizon : Duration) :
    (rs.prune tie now horizon).Sublist rs :=
  (forgetOldests_sublist _ _ _).trans List.filter_sublist

theorem length_prune_lt (rs : RepairRequests) (tie : Nat) (now : Timestamp) (horizon : Duration) :
    (rs.prune tie now horizon).length < capacity := by
  have h := length_forgetOldests_le tie ((rs.young now horizon).length + 1 - capacity)
    (rs.young now horizon)
  rw [prune]
  simp only [capacity] at h ⊢
  omega

theorem outstanding_le_of_sublist {l : RepairRequests} (hl : l.Sublist rs) :
    outstanding l ≤ outstanding rs :=
  hl.countP_le

/-! ### Asking -/

theorem distinct_put (hd : rs.Distinct) (r : RepairRequest) : (rs.put r).Distinct := by
  rw [put, Distinct, List.map_append]
  refine (hd.sublist (rs.forget_sublist r.seq)).append (List.nodup_singleton _) ?_
  intro s hs hr
  obtain ⟨r', hr', rfl⟩ := List.mem_map.mp hs
  have hne : r'.seq ≠ r.seq := by simpa using (List.mem_filter.mp hr').2
  exact hne (List.mem_singleton.mp hr)

theorem distinct_request (hd : rs.Distinct) (now : Timestamp) (seq : SeqNumber)
    (flow : Option Nat) : (rs.request now seq flow).Distinct := by
  rw [request]
  split
  · split
    · exact distinct_put hd _
    · exact hd
  · exact distinct_put hd _

theorem length_put_le (rs : RepairRequests) (r : RepairRequest) :
    (rs.put r).length ≤ rs.length + 1 := by
  rw [put, List.length_append]
  exact Nat.add_le_add_right (rs.forget_sublist r.seq).length_le 1

theorem length_request_le (rs : RepairRequests) (now : Timestamp) (seq : SeqNumber)
    (flow : Option Nat) : (rs.request now seq flow).length ≤ rs.length + 1 := by
  rw [request]
  split
  · split
    · exact rs.length_put_le _
    · exact Nat.le_succ _
  · exact rs.length_put_le _

theorem outstanding_put_le (rs : RepairRequests) (r : RepairRequest) :
    (rs.put r).outstanding ≤ rs.outstanding + 1 := by
  rw [put, outstanding, List.countP_append]
  exact Nat.add_le_add (outstanding_le_of_sublist (rs.forget_sublist r.seq)) List.countP_le_length

theorem outstanding_request_le (rs : RepairRequests) (now : Timestamp) (seq : SeqNumber)
    (flow : Option Nat) : (rs.request now seq flow).outstanding ≤ rs.outstanding + 1 := by
  rw [request]
  split
  · split
    · exact rs.outstanding_put_le _
    · exact Nat.le_succ _
  · exact rs.outstanding_put_le _

theorem mem_request (hd : rs.Distinct) {flow : Option Nat} (h : r ∈ rs.request now seq flow) :
    (r ∈ rs ∧ (r.seq = seq → r.answered = false)) ∨ r = ⟨seq, now, flow, false⟩ := by
  have hput : r ∈ rs.put ⟨seq, now, flow, false⟩ →
      (r ∈ rs ∧ (r.seq = seq → r.answered = false)) ∨ r = ⟨seq, now, flow, false⟩ := by
    intro hr
    rcases List.mem_append.mp hr with hold | hnew
    · have hne : r.seq ≠ seq := by simpa using (List.mem_filter.mp hold).2
      exact .inl ⟨(List.mem_filter.mp hold).1, fun he => absurd he hne⟩
    · exact .inr (List.mem_singleton.mp hnew)
  rw [request] at h
  cases hfind : rs.find? seq with
  | none => exact hput (by simpa only [hfind] using h)
  | some r₀ =>
    cases hanswered : r₀.answered with
    | true => exact hput (by simpa only [hfind, hanswered, if_true] using h)
    | false =>
      have hmem : r ∈ rs := by simpa [hfind, hanswered] using h
      refine .inl ⟨hmem, fun hseq => ?_⟩
      have hsame := find?_of_mem hd hmem
      rw [hseq, hfind] at hsame
      rw [← Option.some.inj hsame, hanswered]

/-! ### Answering -/

def settle (rs : RepairRequests) (seq : SeqNumber) : RepairRequests :=
  rs.map fun r => if r.seq = seq then { r with answered := true } else r

theorem distinct_settle (hd : rs.Distinct) (seq : SeqNumber) : (rs.settle seq).Distinct := by
  have hseqs : (rs.settle seq).map (·.seq) = rs.map (·.seq) := by
    rw [settle, List.map_map]
    refine List.map_congr_left fun r _ => ?_
    rw [Function.comp_apply]
    split <;> rfl
  rwa [Distinct, hseqs]

theorem length_settle (rs : RepairRequests) (seq : SeqNumber) :
    (rs.settle seq).length = rs.length := List.length_map _

theorem mem_settle (h : r ∈ rs.settle seq) :
    (r ∈ rs ∧ r.seq ≠ seq) ∨ (r.seq = seq ∧ r.answered = true) := by
  obtain ⟨r₀, hr₀, rfl⟩ := List.mem_map.mp h
  by_cases hseq : r₀.seq = seq
  · rw [if_pos hseq]
    exact .inr ⟨hseq, rfl⟩
  · rw [if_neg hseq]
    exact .inl ⟨hr₀, hseq⟩

theorem settle_of_ne (h : ∀ r ∈ rs, r.seq ≠ seq) : rs.settle seq = rs := by
  rw [settle]
  conv_rhs => rw [← List.map_id rs]
  exact List.map_congr_left fun r hr => if_neg (h r hr)

theorem outstanding_settle (hd : rs.Distinct) (h : r ∈ rs) (hopen : r.answered = false) :
    (rs.settle r.seq).outstanding + 1 = rs.outstanding := by
  induction rs with
  | nil => cases h
  | cons a l ih =>
    obtain ⟨hfresh, hl⟩ := List.nodup_cons.mp hd
    rcases List.mem_cons.mp h with rfl | hmem
    · have hrest : settle l r.seq = l :=
        settle_of_ne fun r' hr' he => hfresh (List.mem_map.mpr ⟨r', hr', he⟩)
      show outstanding ((if r.seq = r.seq then { r with answered := true } else r) ::
        settle l r.seq) + 1 = outstanding (r :: l)
      simp only [if_true, hrest, outstanding, List.countP_cons, hopen]
      rfl
    · have hne : a.seq ≠ r.seq := fun he => hfresh (List.mem_map.mpr ⟨r, hmem, he.symm⟩)
      have hrest := ih hl hmem
      show outstanding ((if a.seq = r.seq then { a with answered := true } else a) ::
        settle l r.seq) + 1 = outstanding (a :: l)
      rw [if_neg hne]
      simp only [outstanding, List.countP_cons] at hrest ⊢
      omega

/-- The three ways a repair can find the requests. -/
inductive Finds (rs : RepairRequests) (now : Timestamp) (seq : SeqNumber)
    (lateAfter : Duration) : RepairOutcome → RepairRequests → Prop
  | unrequested (unknown : ∀ r ∈ rs, r.seq ≠ seq) : Finds rs now seq lateAfter .unrequested rs
  | duplicate {r : RepairRequest} (mem : r ∈ rs) (number : r.seq = seq)
      (answered : r.answered = true) : Finds rs now seq lateAfter .duplicate rs
  | settled {r : RepairRequest} (mem : r ∈ rs) (number : r.seq = seq)
      (answered : r.answered = false) :
      Finds rs now seq lateAfter
        (if lateAfter < now.since r.requestedAt then .late (now.since r.requestedAt)
          else .recovered (now.since r.requestedAt))
        (rs.settle seq)

theorem finds_answer (rs : RepairRequests) (now : Timestamp) (seq : SeqNumber)
    (lateAfter : Duration) :
    rs.Finds now seq lateAfter (rs.answer now seq lateAfter).1
      (rs.answer now seq lateAfter).2 := by
  rw [answer]
  cases hfind : rs.find? seq with
  | none => exact .unrequested (seq_ne_of_find? hfind)
  | some r =>
    obtain ⟨hmem, hseq⟩ := mem_of_find? hfind
    cases hanswered : r.answered with
    | true =>
      simp only [hanswered, if_true]
      exact .duplicate hmem hseq hanswered
    | false =>
      simp only [hanswered, Bool.false_eq_true, if_false]
      exact .settled hmem hseq hanswered

end LossWatch.RepairRequests
