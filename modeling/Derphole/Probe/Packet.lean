import Mathlib.Algebra.Ring.Nat

/-!
# Packets

The packet of `pkg/probe/protocol.go`, as the receiver sees it after decoding.
Sequence numbers, offsets and stripe ids are natural numbers; where a function may
compute beyond the end of the 64-bit range, `u64` says so.  The protocol
version is constant and the run id is checked before a packet reaches any of
these functions, so neither is carried along.
-/

namespace Probe

inductive PacketType where
  | hello
  | helloAck
  | data
  | ack
  | done
  | stats
  | repairRequest
  | repairComplete
  | parity
  deriving DecidableEq, Repr

structure Packet where
  type : PacketType
  stripeID : Nat
  seq : Nat
  offset : Nat
  ackFloor : Nat
  ackMask : Nat
  payload : List UInt8
  deriving DecidableEq, Repr

/-- `maxParallelStripes`. -/
def maxParallelStripes : Nat := 16

/-- `defaultChunkSize`. -/
def defaultChunkSize : Nat := 1400

/-- `parallelBlastStripeBlockPackets`. -/
def parallelBlastStripeBlockPackets : Nat := 128

/-- The largest `int`. -/
def maxInt : Nat := 2 ^ 63 - 1

/-- `uint64` arithmetic wraps around. -/
def u64 (n : Nat) : Nat := n % 2 ^ 64

theorem u64_of_lt {n : Nat} (h : n < 2 ^ 64) : u64 n = n := Nat.mod_eq_of_lt h

/-- What the receive functions can fail with. -/
inductive RecvErr where
  | text (message : String)
  | incomplete (label : String) (received want : Nat)
  | exceeds (label : String) (received want : Nat)
  | unexpectedEOF
  | outOfRange
  deriving DecidableEq, Repr

end Probe
