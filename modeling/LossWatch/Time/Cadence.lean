import LossWatch.Time

/-!
A cadence fires once per interval. Each period is anchored on the nominal expiration, so a late
poll does not stretch the rhythm; only a poll that is a whole period late moves the anchor to the
time of the poll.
-/

namespace LossWatch

/-- A periodic timer with its last nominal firing. -/
structure Cadence where
  interval : Duration
  lastFire : Timestamp
deriving DecidableEq

namespace Cadence

def expired (c : Cadence) (now : Timestamp) : Bool := c.interval ≤ now.since c.lastFire

def reset (c : Cadence) (now : Timestamp) : Cadence := { c with lastFire := now }

def next (c : Cadence) : Timestamp := c.lastFire.after c.interval

def untilNext (c : Cadence) (now : Timestamp) : Duration := c.next.since now

def fire (c : Cadence) (now : Timestamp) : Bool × Cadence :=
  if c.expired now then
    let nominal := c.reset c.next
    (true, if nominal.expired now then nominal.reset now else nominal)
  else (false, c)

end Cadence
end LossWatch
