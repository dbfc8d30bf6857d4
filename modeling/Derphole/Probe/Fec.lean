import Derphole.Lib.Map
import Derphole.Lib.Xor
import Derphole.Probe.SeqSet

/-!
# Forward error correction state

The exclusive-or of the payloads of a group, and the parity packets received for
it.  A run and a stripe of a run keep this state in the same way, so
`storeFECPayload`, `storeFECParity` and `cleanupFECGroupIfComplete` of
`pkg/probe/session.go` are one definition each, over the set of sequence numbers
seen.
-/

namespace Probe

open Lib

/-- `blastFECParity`. -/
structure FecParity where
  startSeq : Nat
  offset : Nat
  count : Nat
  payload : List UInt8
  deriving DecidableEq

/-- The groups and the parity packets of a receiver. -/
structure Fec where
  groups : Map Nat (List UInt8)
  parity : Map Nat FecParity

def Fec.empty : Fec := ⟨∅, ∅⟩

/-- A packet rebuilt from parity. -/
structure RecoveredPacket where
  seq : Nat
  offset : Nat
  payload : List UInt8
  deriving DecidableEq

/-- The sequence numbers of `[start, start + count)` not seen yet. -/
def missingIn (seen : SeqSet) (start count : Nat) : List Nat :=
  (List.range' start count).filter fun seq => !seen.has seq

namespace Fec

def cleanupFECGroupIfComplete (f : Fec) (seen : SeqSet) (startSeq count : Nat) : Fec :=
  if count = 0 then f
  else if missingIn seen startSeq count = [] then
    ⟨f.groups.erase startSeq, f.parity.erase startSeq⟩
  else f

def storeFECPayload (f : Fec) (seen : SeqSet) (groupSize seq : Nat) (payload : List UInt8) : Fec :=
  if groupSize ≤ 1 ∨ payload = [] then f
  else
    let groupStart := seq / groupSize * groupSize
    let xor := xorInto ((f.groups.lookup groupStart).getD []) payload
    cleanupFECGroupIfComplete ⟨f.groups.insert groupStart xor, f.parity⟩ seen groupStart groupSize

def storeFECParity (f : Fec) (seen : SeqSet) (startSeq offset count : Nat) (payload : List UInt8) :
    Fec :=
  if count = 0 ∨ payload = [] then f
  else
    cleanupFECGroupIfComplete
      ⟨f.groups, f.parity.insert startSeq ⟨startSeq, offset, count, payload⟩⟩ seen startSeq count

end Fec

end Probe
