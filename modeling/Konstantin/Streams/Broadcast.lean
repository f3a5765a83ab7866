/-!
# A bounded broadcast of wakes

Every receiver has a place among the messages sent so far, and the channel holds
the last `capacity` of them.  A receiver that is further behind is told how many
it missed and goes on with the oldest message held.  A message carries nothing.
-/

namespace Konstantin
namespace Streams

structure Channel where
  capacity : Nat
  sent : Nat
  closed : Bool
  deriving DecidableEq

inductive Received where
  | empty
  | message
  | lagged (missed : Nat)
  | closed
  deriving DecidableEq

namespace Channel

def send (c : Channel) : Channel := { c with sent := c.sent + 1 }

/-- The place of a new receiver: behind everything sent so far. -/
def subscribe (c : Channel) : Nat := c.sent

/-- What a receiver at `next` gets, and its place afterwards. -/
def recv (c : Channel) (next : Nat) : Received × Nat :=
  if next < c.sent then
    if c.sent - next > c.capacity then
      (.lagged (c.sent - next - c.capacity), c.sent - c.capacity)
    else (.message, next + 1)
  else (if c.closed then .closed else .empty, next)

theorem recv_le {c : Channel} {next : Nat} (h : next ≤ c.sent) : (c.recv next).2 ≤ c.sent := by
  unfold recv
  split
  · split
    · show c.sent - c.capacity ≤ c.sent
      omega
    · show next + 1 ≤ c.sent
      omega
  · exact h

end Channel

end Streams
end Konstantin
