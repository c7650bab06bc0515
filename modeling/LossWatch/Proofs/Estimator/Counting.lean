import LossWatch.Estimator
import LossWatch.Proofs.LossLedger.Life

/-!
What an estimator only counts. A step is blind to part of the state if it does the same, up to that
part, on a state with the part left out. Blindness is kept by sequencing, so it is proved of the
stages of an estimator in the order of their definitions. Beside it goes what no stage changes: the
configuration and the constants of the predictors.
-/

namespace LossWatch

/-! ### Steps that are blind to part of the state -/

namespace Step

variable {σ : Type} {view kept : σ → σ} {s t t' : σ} {r r' : Step σ} {f g : σ → Step σ}

/-- Two steps from `s`: the same requests and notices, and the same state as far as `view` shows it.
The first keeps what `kept` shows. -/
structure Alike (view kept : σ → σ) (s : σ) (r r' : Step σ) : Prop where
  state : view r.state = view r'.state
  kept : kept r.state = kept s
  actions : r.actions = r'.actions
  notices : r.notices = r'.notices

def Blind (view kept : σ → σ) (f : σ → Step σ) : Prop :=
  ∀ s, Alike view kept s (f s) (f (view s))

theorem Alike.same {actions : List Action} {notices : List Notice} (hv : view t = view t')
    (hk : kept t = kept s) :
    Alike view kept s ⟨t, actions, notices⟩ ⟨t', actions, notices⟩ :=
  ⟨hv, hk, rfl, rfl⟩

theorem Blind.congr (h : Blind view kept f) (hv : view t = view t') (hk : kept t = kept s) :
    Alike view kept s (f t) (f t') := by
  have first := h t
  have second := h t'
  rw [← hv] at second
  exact ⟨first.state.trans second.state.symm, first.kept.trans hk,
    first.actions.trans second.actions.symm, first.notices.trans second.notices.symm⟩

theorem Alike.andThen (h : Alike view kept s r r') (hg : Blind view kept g) :
    Alike view kept s (r.andThen g) (r'.andThen g) := by
  have next := hg.congr h.state h.kept
  refine ⟨next.state, next.kept, ?_, ?_⟩
  · rw [actions_andThen, actions_andThen, h.actions, next.actions]
  · show r.notices ++ (g r.state).notices = r'.notices ++ (g r'.state).notices
    rw [h.notices, next.notices]

theorem Alike.alter {g : σ → σ} (h : Alike view kept s r r')
    (hg : Blind view kept fun s => .stay (g s)) :
    Alike view kept s (r.alter g) (r'.alter g) := by
  have next := hg.congr h.state h.kept
  exact ⟨next.state, next.kept, h.actions, h.notices⟩

theorem Blind.forEach {α : Type} {f : α → σ → Step σ} (hf : ∀ a, Blind view kept (f a))
    (hview : ∀ s, view s = view (view s)) (as : List α) :
    Blind view kept (Step.forEach f as) := by
  induction as with
  | nil => exact fun s => .same (hview s) rfl
  | cons a as ih => exact fun s => (hf a s).andThen ih

end Step

/-! ### The ledger and the predictors -/

namespace LossLedger

variable {l l₁ l₁' : LossLedger}

def untotaled (l : LossLedger) : LossLedger := { l with totals := {} }

structure SameEntries (l l₁ l₁' : LossLedger) : Prop where
  entries : l₁.untotaled = l₁'.untotaled
  ring : l₁.reset = l.reset

theorem reset_of_history (h : l₁.history = l.history) : l₁.reset = l.reset := by
  show ({ slots := Array.replicate l₁.history none } : LossLedger) =
    { slots := Array.replicate l.history none }
  rw [h]

theorem SameEntries.self (l : LossLedger) : SameEntries l l l.untotaled := ⟨rfl, rfl⟩

theorem SameEntries.of_slots {l₂ l₂' : LossLedger} (h : SameEntries l l₁ l₁')
    (hslots : l₂.slots = l₁.slots) (hslots' : l₂'.slots = l₁'.slots) : SameEntries l l₂ l₂' := by
  constructor
  · have hentries := h.entries
    unfold untotaled at hentries ⊢
    rwa [hslots, hslots']
  · exact (reset_of_history (congrArg Array.size hslots)).trans h.ring

theorem store?_untotaled (l : LossLedger) (n : SeqNumber) (st : PacketStatus) :
    Option.Rel (SameEntries l) (l.store? n st) (l.untotaled.store? n st) := by
  have hovertaken : l.untotaled.overtaken n = l.overtaken n := rfl
  unfold store?
  rw [hovertaken]
  split
  · exact .none
  · exact .some ⟨rfl, reset_of_history Array.size_setIfInBounds⟩

theorem assumeLost?_untotaled (l : LossLedger) (now : Timestamp) (n : SeqNumber) :
    Option.Rel (SameEntries l) (l.assumeLost? now n) (l.untotaled.assumeLost? now n) := by
  have hstatus : l.untotaled.status n = l.status n := rfl
  unfold assumeLost?
  rw [hstatus]
  split
  · exact .none
  · have h := l.store?_untotaled n (.assumedLost now)
    generalize l.store? n _ = stored, l.untotaled.store? n _ = stored' at h ⊢
    cases h with
    | none => exact .none
    | some h => exact .some (h.of_slots rfl rfl)

theorem recordFirst_untotaled (l : LossLedger) (n : SeqNumber) :
    (l.untotaled.recordFirst n).1 = (l.recordFirst n).1 ∧
      SameEntries l (l.recordFirst n).2 (l.untotaled.recordFirst n).2 := by
  have h := l.store?_untotaled n .received
  unfold recordFirst
  generalize l.store? n _ = stored, l.untotaled.store? n _ = stored' at h ⊢
  cases h with
  | none => exact ⟨rfl, (SameEntries.self l).of_slots rfl rfl⟩
  | some h => exact ⟨rfl, h.of_slots rfl rfl⟩

theorem getD_store?_untotaled (l : LossLedger) (n : SeqNumber) (st : PacketStatus) :
    SameEntries l ((l.store? n st).getD l) ((l.untotaled.store? n st).getD l.untotaled) := by
  have h := l.store?_untotaled n st
  generalize l.store? n st = stored, l.untotaled.store? n st = stored' at h ⊢
  cases h with
  | none => exact .self l
  | some h => exact h

theorem receive_untotaled (l : LossLedger) (now : Timestamp) (n : SeqNumber) :
    (l.untotaled.receive now n).1 = (l.receive now n).1 ∧
      SameEntries l (l.receive now n).2 (l.untotaled.receive now n).2 := by
  have hstatus : l.untotaled.status n = l.status n := rfl
  unfold receive
  rw [hstatus]
  cases l.status n with
  | none => exact l.recordFirst_untotaled n
  | some st =>
    cases st with
    | assumedLost declaredAt => exact ⟨rfl, (l.getD_store?_untotaled n (.falsePositive (now.since declaredAt))).of_slots rfl rfl⟩
    | received => exact ⟨rfl, (SameEntries.self l).of_slots rfl rfl⟩
    | falsePositive lateBy => exact ⟨rfl, (SameEntries.self l).of_slots rfl rfl⟩
    | recovered => exact ⟨rfl, (SameEntries.self l).of_slots rfl rfl⟩

theorem receiveRepair_untotaled (l : LossLedger) (n : SeqNumber) :
    SameEntries l (l.receiveRepair n).2 (l.untotaled.receiveRepair n).2 := by
  have hstatus : l.untotaled.status n = l.status n := rfl
  unfold receiveRepair
  rw [hstatus]
  cases l.status n with
  | none => exact (l.recordFirst_untotaled n).2
  | some st =>
    cases st with
    | assumedLost declaredAt => exact (l.getD_store?_untotaled n .recovered).of_slots rfl rfl
    | received => exact (SameEntries.self l).of_slots rfl rfl
    | falsePositive lateBy => exact (SameEntries.self l).of_slots rfl rfl
    | recovered => exact (SameEntries.self l).of_slots rfl rfl

theorem noteWithdrawn_untotaled (l : LossLedger) (n : SeqNumber) :
    SameEntries l (l.noteWithdrawn n) (l.untotaled.noteWithdrawn n) := by
  have hstatus : l.untotaled.status n = l.status n := rfl
  unfold noteWithdrawn
  rw [hstatus]
  split
  · exact (SameEntries.self l).of_slots rfl rfl
  · exact .self l

theorem clearHistory_untotaled (l : LossLedger) :
    SameEntries l l.clearHistory l.untotaled.clearHistory :=
  ⟨rfl, reset_of_history l.history_clearHistory⟩

end LossLedger

theorem MovingAverage.reset_insert (m : MovingAverage) (sample : Duration) :
    (m.insert sample).reset = m.reset := by
  unfold insert reset
  cases m.forecast with
  | none => rfl
  | some forecast => rfl

theorem Autoregression.reset_adapt (a : Autoregression) (phi : LagPair) (y : Float) :
    (a.adapt phi y).reset = a.reset := by
  unfold adapt
  dsimp only
  split
  · rfl
  · rfl

theorem Autoregression.reset_insert (a : Autoregression) (sample : Duration) :
    (a.insert sample).reset = a.reset := by
  -- The lags and the mean go with a reset; of the errors only the capacity stays.
  have hkept : ∀ b : Autoregression, b.reset = a.reset → ∀ errors : Window,
      errors.clear = a.errors.clear → ({ b with errors } : Autoregression).reset = a.reset := by
    intro b hb errors he
    unfold reset at hb ⊢
    rw [Autoregression.mk.injEq] at hb ⊢
    exact ⟨hb.1, he, hb.2.2⟩
  have herrors : (a.insert sample).errors.clear = a.errors.clear := by
    unfold insert
    cases a.forecast with
    | none => rfl
    | some forecast => rfl
  unfold insert
  dsimp only
  split
  · exact hkept _ (a.reset_adapt _ _) _ herrors
  · exact hkept a rfl _ herrors

namespace Predictor

theorem reset_insert (p : Predictor) (sample : Duration) : (p.insert sample).reset = p.reset := by
  cases p with
  | movingAverage m => exact congrArg movingAverage (m.reset_insert sample)
  | autoregression a => exact congrArg autoregression (a.reset_insert sample)

theorem reset_reset (p : Predictor) : p.reset.reset = p.reset := by
  cases p with
  | movingAverage m => rfl
  | autoregression a => rfl

theorem reset_foldl {α : Type} {f : Predictor → α → Predictor}
    (hf : ∀ p a, (f p a).reset = p.reset) (as : List α) (p : Predictor) :
    (as.foldl f p).reset = p.reset := by
  induction as generalizing p with
  | nil => rfl
  | cons a as ih => rw [List.foldl_cons, ih, hf]

end Predictor

end LossWatch
