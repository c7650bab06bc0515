import LossWatch.SequenceNumber
import LossWatch.Time

/-!
The repairs that were asked for. A request is answered by its first repair and remembered for a
while, so that a second repair is known as a duplicate. At most 2048 are remembered; beyond that,
the oldest are forgotten. The requests are kept in no order, so which of several equally old ones
goes is left open: whoever prunes says which.
-/

namespace LossWatch

inductive RepairOutcome
  | recovered (latency : Duration)
  /-- In answer to a request, but past the time allowed. -/
  | late (latency : Duration)
  | duplicate
  /-- Never asked for, or long forgotten. -/
  | unrequested
deriving DecidableEq

structure RepairRequest where
  seq : SeqNumber
  requestedAt : Timestamp
  flow : Option Nat
  answered : Bool := false
deriving DecidableEq

/-- The remembered requests, at most one per number. -/
abbrev RepairRequests := List RepairRequest

namespace RepairRequests

def capacity : Nat := 2048

def find? (rs : RepairRequests) (seq : SeqNumber) : Option RepairRequest :=
  List.find? (·.seq = seq) rs

def forget (rs : RepairRequests) (seq : SeqNumber) : RepairRequests := rs.filter (·.seq ≠ seq)

def put (rs : RepairRequests) (r : RepairRequest) : RepairRequests := rs.forget r.seq ++ [r]

/-- The requests that none was made before. -/
def oldests : RepairRequests → RepairRequests
  | [] => []
  | r :: rs =>
    let first := (rs.map (·.requestedAt)).foldl min r.requestedAt
    (r :: rs).filter (·.requestedAt = first)

/-- One of the oldest; `tie` counts through them from the start, again and again. -/
def oldest? (rs : RepairRequests) (tie : Nat) : Option RepairRequest :=
  rs.oldests[tie % rs.oldests.length]?

def forgetOldest (rs : RepairRequests) (tie : Nat) : RepairRequests :=
  match rs.oldest? tie with
  | some r => rs.forget r.seq
  | none => rs

def forgetOldests (tie : Nat) : Nat → RepairRequests → RepairRequests
  | 0, rs => rs
  | n + 1, rs => forgetOldests tie n (rs.forgetOldest tie)

/-- The requests that are not too old to be remembered. -/
def young (rs : RepairRequests) (now : Timestamp) (horizon : Duration) : RepairRequests :=
  rs.filter fun r => now.since r.requestedAt ≤ horizon

/-- Forgets what is older than `horizon`, and then the oldest until there is room for one more. -/
def prune (rs : RepairRequests) (tie : Nat) (now : Timestamp) (horizon : Duration) :
    RepairRequests :=
  let young := rs.young now horizon
  young.forgetOldests tie (young.length + 1 - capacity)

/-- Remembers a request. One that is unanswered keeps its first time. -/
def request (rs : RepairRequests) (now : Timestamp) (seq : SeqNumber) (flow : Option Nat) :
    RepairRequests :=
  match rs.find? seq with
  | some r => if r.answered then rs.put ⟨seq, now, flow, false⟩ else rs
  | none => rs.put ⟨seq, now, flow, false⟩

def answer (rs : RepairRequests) (now : Timestamp) (seq : SeqNumber) (lateAfter : Duration) :
    RepairOutcome × RepairRequests :=
  match rs.find? seq with
  | none => (.unrequested, rs)
  | some r =>
    if r.answered then (.duplicate, rs) else
    let latency := now.since r.requestedAt
    (if lateAfter < latency then .late latency else .recovered latency,
      rs.map fun r => if r.seq = seq then { r with answered := true } else r)

def outstanding (rs : RepairRequests) : Nat := rs.countP (!·.answered)

end RepairRequests
end LossWatch
