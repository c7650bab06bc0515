import LossWatch.Time

/-!
Timers under caller-chosen keys. A timer lives in a slot; the handle returned when it is armed
names the slot and the slot's generation, which moves on at every release, so a handle of a
cancelled or replaced timer is stale for good. The agenda lists alarms by deadline, and by order of
arming among equal deadlines; alarms of released timers stay on it until they come up or until
they outnumber the live ones.
-/

namespace LossWatch

structure TimerHandle where
  index : Nat
  generation : Nat
deriving DecidableEq

def TimerHandle.text (h : TimerHandle) : String :=
  s!"TimerHandle({h.index}v{h.generation})"

/-- The only fault of a timer queue: the handle's timer is gone. -/
structure StaleHandle where
  handle : TimerHandle
deriving DecidableEq

def StaleHandle.message (e : StaleHandle) : String := s!"Timer handle {e.handle.text} is stale"

structure TimerSlot (κ : Type) where
  generation : Nat
  entry : Option (κ × Timestamp)
deriving DecidableEq

/-- An agenda item: when to look at which timer. -/
structure Alarm where
  deadline : Timestamp
  order : Nat
  handle : TimerHandle
deriving DecidableEq

structure TimerQueue (κ : Type) where
  slots : Array (TimerSlot κ)
  /-- Indices of empty slots, the last freed first. -/
  free : List Nat
  byKey : List (κ × TimerHandle)
  agenda : List Alarm
  nextOrder : Nat
deriving DecidableEq

namespace TimerQueue

variable {κ : Type}

def empty : TimerQueue κ := ⟨#[], [], [], [], 0⟩

/-- What the handle's slot holds, if the slot is still of the handle's generation. -/
def liveEntry (q : TimerQueue κ) (h : TimerHandle) : Option (κ × Timestamp) :=
  match q.slots[h.index]? with
  | some slot => if slot.generation = h.generation then slot.entry else none
  | none => none

def isLive (q : TimerQueue κ) (h : TimerHandle) : Bool := (q.liveEntry h).isSome

/-- So many generations of a slot are told apart. -/
@[noinline] def generations : Nat := 4294967296

/-- Empties the handle's slot and moves its generation on; a stale handle changes nothing. -/
def release (q : TimerQueue κ) (h : TimerHandle) : TimerQueue κ :=
  match q.slots[h.index]? with
  | some slot =>
    if slot.generation = h.generation then
      { q with
        slots := q.slots.setIfInBounds h.index ⟨(slot.generation + 1) % generations, none⟩
        free := h.index :: q.free }
    else q
  | none => q

/-- Puts an alarm behind all those due no later. -/
def enlist (a : Alarm) : List Alarm → List Alarm
  | [] => [a]
  | b :: rest => if b.deadline ≤ a.deadline then b :: enlist a rest else a :: b :: rest

/-- Drops the alarms of released timers once there are many of them. -/
def compact (q : TimerQueue κ) : TimerQueue κ :=
  if q.agenda.length ≤ 64 + 4 * q.byKey.length then q
  else { q with agenda := q.agenda.filter fun a => (q.liveEntry a.handle).isSome }

/-- A slot for a new timer: the one freed last, else a new one. -/
def claim (q : TimerQueue κ) : Nat × TimerQueue κ :=
  match q.free with
  | index :: rest => (index, { q with free := rest })
  | [] => (q.slots.size, { q with slots := q.slots.push ⟨0, none⟩ })

def place (q : TimerQueue κ) (index : Nat) (key : κ) (deadline : Timestamp) :
    TimerHandle × TimerQueue κ :=
  let generation := (q.slots[index]?.map (·.generation)).getD 0
  let h : TimerHandle := ⟨index, generation⟩
  (h, compact { q with
    slots := q.slots.setIfInBounds index ⟨generation, some (key, deadline)⟩
    byKey := (key, h) :: q.byKey
    agenda := enlist ⟨deadline, q.nextOrder, h⟩ q.agenda
    nextOrder := q.nextOrder + 1 })

def deadlineOf (q : TimerQueue κ) (h : TimerHandle) : Option Timestamp :=
  (q.liveEntry h).map (·.2)

def nextDeadline (q : TimerQueue κ) : Option Timestamp :=
  q.byKey.foldl (fun earliest (_, h) => earliest.merge min (q.deadlineOf h)) none

/-- Looks through the due alarms for the first of a live timer; returns it with the agenda that is
left. -/
def firstDue (q : TimerQueue κ) (now : Timestamp) :
    List Alarm → Option (κ × Alarm) × List Alarm
  | [] => (none, [])
  | a :: rest =>
    if now < a.deadline then (none, a :: rest) else
    match q.liveEntry a.handle with
    | some (key, _) => (some (key, a), rest)
    | none => q.firstDue now rest

def size (q : TimerQueue κ) : Nat := q.byKey.length
def isEmpty (q : TimerQueue κ) : Bool := q.byKey.isEmpty
def keys (q : TimerQueue κ) : List κ := q.byKey.map (·.1)

def clear (q : TimerQueue κ) : TimerQueue κ :=
  let freed := q.byKey.foldl (fun q (_, h) => q.release h) { q with byKey := [] }
  { freed with agenda := [] }

def debugText (q : TimerQueue κ) : String :=
  "TimerQueue \x7b armed: " ++ toString q.size ++ ", heap: " ++ toString q.agenda.length ++ " \x7d"

variable [DecidableEq κ]

def handle? (q : TimerQueue κ) (key : κ) : Option TimerHandle :=
  (q.byKey.find? (·.1 = key)).map (·.2)

def isArmed (q : TimerQueue κ) (key : κ) : Bool := (q.handle? key).isSome

def deadline? (q : TimerQueue κ) (key : κ) : Option Timestamp :=
  (q.handle? key).bind q.deadlineOf

def forget (q : TimerQueue κ) (key : κ) : TimerQueue κ :=
  { q with byKey := q.byKey.filter (·.1 ≠ key) }

def cancel (q : TimerQueue κ) (key : κ) : Bool × TimerQueue κ :=
  match q.handle? key with
  | some h => (true, (q.forget key).release h)
  | none => (false, q)

/-- Arms a timer, replacing a live one of the same key. -/
def arm (q : TimerQueue κ) (key : κ) (deadline : Timestamp) : TimerHandle × TimerQueue κ :=
  let claimed := (q.cancel key).2.claim
  claimed.2.place claimed.1 key deadline

def cancelHandle (q : TimerQueue κ) (h : TimerHandle) : Except StaleHandle (κ × TimerQueue κ) :=
  match q.liveEntry h with
  | some (key, _) => .ok (key, (q.forget key).release h)
  | none => .error ⟨h⟩

/-- Takes the first timer due at or before `now`, with the deadline it was armed for. -/
def popDue (q : TimerQueue κ) (now : Timestamp) : Option (κ × Timestamp) × TimerQueue κ :=
  match q.firstDue now q.agenda with
  | (some (key, a), rest) =>
    (some (key, a.deadline), ({ q with agenda := rest }.forget key).release a.handle)
  | (none, rest) => (none, { q with agenda := rest })

end TimerQueue
end LossWatch
