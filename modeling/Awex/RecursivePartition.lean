import Awex.Library.Dict
import Mathlib.Algebra.Group.Nat.Defs
import Mathlib.Data.Nat.Log

namespace Awex

inductive Direction where
  | send
  | recv
  deriving DecidableEq, Repr

def Direction.opposite : Direction → Direction
  | .send => .recv
  | .recv => .send

def Direction.choose {γ : Type} (send recv : γ) : Direction → γ
  | .send => send
  | .recv => recv

@[simp] theorem Direction.choose_send {γ : Type} (send recv : γ) : Direction.send.choose send recv = send :=
  rfl

@[simp] theorem Direction.choose_recv {γ : Type} (send recv : γ) : Direction.recv.choose send recv = recv :=
  rfl

/-- One call of `_execute_ops_concurrent`: phase `1` or `2` of a round, the dictionary it is
given and the range of peers. -/
structure PartitionCall where
  round : ℕ
  phase : ℕ
  direction : Direction
  peers : List ℕ
  deriving DecidableEq, Repr

/-- One `batch_isend_irecv` with a peer. -/
structure PeerBatch (β : Type) where
  round : ℕ
  phase : ℕ
  direction : Direction
  peer : ℕ
  ops : List β
  deriving DecidableEq, Repr

/-- `int(math.log2(world_size))`. -/
def numRounds (worldSize : ℕ) : ℕ := Nat.log 2 worldSize

/-- `range(start, stop)`. -/
def rankRange (start stop : ℕ) : List ℕ := List.range' start (stop - start)

def roundCalls (transferRank worldSize roundIdx : ℕ) : List PartitionCall :=
  let partitionSize := worldSize / 2 ^ roundIdx
  let half := partitionSize / 2
  let partitionBase := transferRank / partitionSize * partitionSize
  let partitionEnd := partitionBase + partitionSize
  let inFirstHalf := transferRank - partitionBase < half
  let otherHalf := if inFirstHalf then rankRange (partitionBase + half) partitionEnd
    else rankRange partitionBase (partitionBase + half)
  let phase1 := if inFirstHalf then Direction.send else .recv
  [⟨roundIdx, 1, phase1, otherHalf⟩, ⟨roundIdx, 2, phase1.opposite, otherHalf⟩]

def partitionCalls (transferRank worldSize : ℕ) : List PartitionCall :=
  (List.range (numRounds worldSize)).flatMap (roundCalls transferRank worldSize)

variable {β : Type}

/-- A peer without an entry, or with an empty list, gets no batch. -/
def executeOpsConcurrent (opsDict : Dict ℕ (List β)) (peerRanks : List ℕ) : List (ℕ × List β) :=
  peerRanks.filterMap (fun peer => match opsDict.get? peer with
    | some (op :: ops) => some (peer, op :: ops)
    | _ => none)

def executeCall (allSendOps allRecvOps : Dict ℕ (List β)) (call : PartitionCall) : List (PeerBatch β) :=
  let opsDict := call.direction.choose allSendOps allRecvOps
  (executeOpsConcurrent opsDict call.peers).map (fun (peer, ops) =>
    ⟨call.round, call.phase, call.direction, peer, ops⟩)

def executeRecursivePartitionStreamTransfer (transferRank worldSize : ℕ)
    (allSendOps allRecvOps : Dict ℕ (List β)) : List (PeerBatch β) :=
  (partitionCalls transferRank worldSize).flatMap (executeCall allSendOps allRecvOps)

end Awex
