import Awex.Library.Numerals
import Awex.StreamBatch

namespace Awex

/-- `AWEX_CHUNK_OPS`, as it is read. -/
inductive ChunkOps where
  | unset
  | unparsable
  | forced (n : ℤ)
  deriving DecidableEq, Repr

def readChunkOps (env : String) : ChunkOps :=
  let envForce := Text.strip env.toList
  if envForce = [] then .unset
  else match Text.int? envForce with
    | none => .unparsable
    | some n => .forced n

inductive ReduceOp where
  | min
  | max
  deriving DecidableEq, Repr

/-- What `all_reduce` gives to each rank, if it does; a rank that does not take part contributes
nothing. -/
abbrev AllReduce := ReduceOp → (ℕ → Option ℤ) → ℕ → Option ℤ

/-- The element of `torch.tensor([n], dtype=torch.int64)`. -/
def int64? (n : ℤ) : Option ℤ :=
  if -9223372036854775808 ≤ n ∧ n ≤ 9223372036854775807 then some n else none

structure PeerLists where
  sendPerPeer : Dict ℕ (List CommunicationOperation)
  recvPerPeer : Dict ℕ (List CommunicationOperation)

namespace PeerLists

def firstOp? (perPeer : Dict ℕ (List CommunicationOperation)) : Option CommunicationOperation :=
  (perPeer.keys.insertionSort (· ≤ ·)).findSome? (fun peer => (perPeer.getD peer []).head?)

def sampleOp? (lists : PeerLists) : Option CommunicationOperation :=
  match firstOp? lists.sendPerPeer with
  | some op => some op
  | none => firstOp? lists.recvPerPeer

def slicedNumel (op : CommunicationOperation) : ℕ :=
  op.trainSlices.foldl (fun n s => n * max (s.stop - s.start) 1) 1

/-- Elements are taken to have two bytes, since there is no `dtype_to_size` to import. -/
def perOpBytes (op : CommunicationOperation) : ℕ := max (slicedNumel op * 2) 1

def localStepSize (chunkBytes : ℤ) (lists : PeerLists) : ℕ :=
  match lists.sampleOp? with
  | none => 1
  | some op => (max 1 (chunkBytes / perOpBytes op)).toNat

end PeerLists

section Negotiation

variable (allReduce : AllReduce) (env : String) (chunkBytes : ℤ) (lists : ℕ → PeerLists)

/-- The step size of rank `a`. -/
def negotiatedStep (a : ℕ) : ℕ :=
  let stepSize := (lists a).localStepSize chunkBytes
  match readChunkOps env with
  | .forced n => (max 1 n).toNat
  | .unparsable => stepSize
  | .unset => match int64? stepSize with
    | none => stepSize
    | some _ => match allReduce .min (fun b => int64? ((lists b).localStepSize chunkBytes)) a with
      | none => stepSize
      | some newStep => (max 1 newStep).toNat

def ownChunks (a : ℕ) : ℕ :=
  ColocateUpdate.localChunks (negotiatedStep allReduce env chunkBytes lists a) (lists a).sendPerPeer
    (lists a).recvPerPeer

/-- The number of chunks of rank `a`. -/
def negotiatedChunks (a : ℕ) : ℕ :=
  let nChunks := ownChunks allReduce env chunkBytes lists a
  match int64? nChunks with
  | none => nChunks
  | some _ => match allReduce .max (fun b => int64? (ownChunks allReduce env chunkBytes lists b)) a with
    | none => nChunks
    | some newN => newN.toNat

end Negotiation

end Awex
