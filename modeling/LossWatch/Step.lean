import LossWatch.Arrival
import LossWatch.Notice

/-!
One step of a state machine: the state after it, the actions it asks for and the notices it gives,
in order. Steps are chained by `andThen`, which keeps the actions of both.
-/

namespace LossWatch

structure Step (σ : Type) where
  state : σ
  actions : List Action := []
  notices : List Notice := []

namespace Step

variable {σ τ : Type}

@[inline] def stay (s : σ) : Step σ := { state := s }

@[inline] def act (s : σ) (a : Action) : Step σ := { state := s, actions := [a] }

@[inline] def note (s : σ) (n : Notice) : Step σ := { state := s, notices := [n] }

@[inline] def andThen : Step σ → (σ → Step σ) → Step σ
  | ⟨s, actions, notices⟩, f =>
    let next := f s
    ⟨next.state, actions ++ next.actions, notices ++ next.notices⟩

@[inline] def alter : Step σ → (σ → τ) → Step τ
  | ⟨s, actions, notices⟩, f => ⟨f s, actions, notices⟩

/-- One step per element, from the left. -/
def forEach {α : Type} (f : α → σ → Step σ) : List α → σ → Step σ
  | [], s => stay s
  | a :: as, s => (f a s).andThen (forEach f as)

@[simp] theorem state_stay (s : σ) : (stay s).state = s := rfl
@[simp] theorem actions_stay (s : σ) : (stay s).actions = [] := rfl
@[simp] theorem state_act (s : σ) (a : Action) : (act s a).state = s := rfl
@[simp] theorem actions_act (s : σ) (a : Action) : (act s a).actions = [a] := rfl
@[simp] theorem state_note (s : σ) (n : Notice) : (note s n).state = s := rfl
@[simp] theorem actions_note (s : σ) (n : Notice) : (note s n).actions = [] := rfl
@[simp] theorem state_andThen (r : Step σ) (f : σ → Step σ) :
    (r.andThen f).state = (f r.state).state := rfl
@[simp] theorem actions_andThen (r : Step σ) (f : σ → Step σ) :
    (r.andThen f).actions = r.actions ++ (f r.state).actions := rfl
@[simp] theorem state_alter (r : Step σ) (f : σ → τ) : (r.alter f).state = f r.state := rfl
@[simp] theorem actions_alter (r : Step σ) (f : σ → τ) : (r.alter f).actions = r.actions := rfl

end Step
end LossWatch
