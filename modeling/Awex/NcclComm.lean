import Awex.LocalPlan
import Awex.RecursivePartition
import Awex.SliceTensor

namespace Awex

/-- `op` is `dist.isend` or `dist.irecv`. -/
structure P2POp where
  op : Direction
  tensor : Tensor
  peer : ℕ
  deriving DecidableEq, Repr

def lookup (parameters : Dict String Parameter) (name : String) : Except TransferError Parameter :=
  match parameters.get? name with
  | some p => .ok p
  | none => .error (.keyError name)

section BuildLoop

variable {σ : Type}

structure Pass (σ : Type) where
  progress : Dict ℕ ℕ
  finishedRanks : List ℕ
  built : σ

/-- `dict.fromkeys(keys, 0)`. -/
def noProgress (keys : List ℕ) : Dict ℕ ℕ := Dict.ofList (keys.map (fun k => (k, 0)))

def visitRank (operations : Dict ℕ (List CommunicationOperation))
    (emit : ℕ → CommunicationOperation → σ → Except TransferError σ) (pass : Pass σ) (rank : ℕ) :
    Except TransferError (Pass σ) :=
  let progress := pass.progress.getD rank 0
  match (operations.getD rank [])[progress]? with
  | some op => do
    let built ← emit rank op pass.built
    .ok { pass with progress := pass.progress.set rank (progress + 1), built := built }
  | none => .ok { pass with finishedRanks := pass.finishedRanks ++ [rank] }

def buildPasses (operations : Dict ℕ (List CommunicationOperation))
    (emit : ℕ → CommunicationOperation → σ → Except TransferError σ) :
    ℕ → Dict ℕ ℕ → List ℕ → σ → Except TransferError σ
  | 0, _, _, _ => .error .unfinished
  | fuel + 1, progress, unfinishedRanks, built =>
    if unfinishedRanks = [] then .ok built
    else do
      let pass ← (unfinishedRanks.insertionSort (· ≤ ·)).foldlM (visitRank operations emit)
        ⟨progress, [], built⟩
      buildPasses operations emit fuel pass.progress
        (unfinishedRanks.filter (· ∉ pass.finishedRanks)) pass.built

def maxLength (operations : Dict ℕ (List CommunicationOperation)) : ℕ :=
  (operations.values.map List.length).foldr max 0

/-- The loop that `nccl_build_send_ops` and `nccl_build_recv_ops` share. -/
def buildLoop (operations : Dict ℕ (List CommunicationOperation))
    (emit : ℕ → CommunicationOperation → σ → Except TransferError σ) (built : σ) :
    Except TransferError σ :=
  buildPasses operations emit (maxLength operations + 2) (noProgress operations.keys) operations.keys
    built

end BuildLoop

variable {α : Type}

structure SendOps (α : Type) where
  workspace : Workspace α
  p2pOpList : List P2POp
  copyOpList : List Tensor
  sendTrajList : List (String × ℕ)

def emitSend (parameters : Dict String Parameter) (copyRank : ℤ) (useBatchSendRecv : Bool)
    (recvRank : ℕ) (op : CommunicationOperation) (s : SendOps α) : Except TransferError (SendOps α) := do
  let sendTensor ← lookup parameters op.sendShardMeta.name
  let (tensorSliced, workspace) ← sliceTensor sendTensor.training op true s.workspace
  if (recvRank : ℤ) = copyRank then
    .ok { s with workspace := workspace, copyOpList := s.copyOpList ++ [tensorSliced] }
  else
    .ok { s with
      workspace := workspace
      p2pOpList := s.p2pOpList ++ [⟨.send, tensorSliced, recvRank⟩]
      sendTrajList := if useBatchSendRecv then s.sendTrajList
        else s.sendTrajList ++ [(op.sendShardMeta.name, recvRank)] }

def ncclBuildSendOps (parameters : Dict String Parameter) (transferPlan : TransferPlan)
    (copyRank : ℤ) (useBatchSendRecv : Bool) (memory : Memory α) : Except TransferError (SendOps α) :=
  buildLoop transferPlan.operations (emitSend parameters copyRank useBatchSendRecv)
    ⟨⟨memory, .empty⟩, [], [], []⟩

structure RecvOps (α : Type) where
  memory : Memory α
  p2pOpList : List P2POp
  nonContiguousTensorPairs : List (Tensor × Tensor)
  recvTrajList : List (String × ℕ)

/-- A batched receive never lands in a non-contiguous slice, but in a contiguous copy of it. -/
def emitRecv (parameters : Dict String Parameter) (useBatchSendRecv : Bool) (sendRank : ℕ)
    (op : CommunicationOperation) (s : RecvOps α) : Except TransferError (RecvOps α) := do
  let recvTensor ← lookup parameters op.recvShardMeta.name
  let (tensorSliced, _) ← sliceTensor recvTensor.inference op false ⟨s.memory, .empty⟩
  let recvTrajList := if useBatchSendRecv then s.recvTrajList
    else s.recvTrajList ++ [(op.recvShardMeta.name, sendRank)]
  if ¬ tensorSliced.IsContiguous ∧ useBatchSendRecv then
    let (contiguous, memory) := s.memory.contiguous tensorSliced
    .ok { s with
      memory := memory
      p2pOpList := s.p2pOpList ++ [⟨.recv, contiguous, sendRank⟩]
      nonContiguousTensorPairs := s.nonContiguousTensorPairs ++ [(tensorSliced, contiguous)]
      recvTrajList := recvTrajList }
  else
    .ok { s with
      p2pOpList := s.p2pOpList ++ [⟨.recv, tensorSliced, sendRank⟩]
      recvTrajList := recvTrajList }

def ncclBuildRecvOps (parameters : Dict String Parameter) (transferPlan : TransferPlan)
    (useBatchSendRecv : Bool) (memory : Memory α) : Except TransferError (RecvOps α) :=
  buildLoop transferPlan.operations (emitRecv parameters useBatchSendRecv) ⟨memory, [], [], []⟩

structure Interleave where
  progress : Dict ℕ ℕ
  remaining : ℕ
  interleaved : List P2POp

def takeFromPeer (byPeer : Dict ℕ (List P2POp)) (s : Interleave) (peer : ℕ) : Interleave :=
  let idx := s.progress.getD peer 0
  match (byPeer.getD peer [])[idx]? with
  | none => s
  | some op => ⟨s.progress.set peer (idx + 1), s.remaining - 1, s.interleaved ++ [op]⟩

def interleavePasses (byPeer : Dict ℕ (List P2POp)) (peers : List ℕ) : ℕ → Interleave → Interleave
  | 0, s => s
  | fuel + 1, s =>
    if 0 < s.remaining then interleavePasses byPeer peers fuel (peers.foldl (takeFromPeer byPeer) s)
    else s

def interleaveP2pOpsByPeer (ops : List P2POp) : List P2POp :=
  if ops = [] then []
  else
    let byPeer := Dict.groupBy (·.peer) ops
    let peers := byPeer.keys.insertionSort (· ≤ ·)
    let remaining := (byPeer.values.map List.length).sum
    (interleavePasses byPeer peers remaining ⟨noProgress peers, remaining, []⟩).interleaved

/-- The operations of the one group that `batch_send_recv` launches. -/
def batchSendRecv (sendOps recvOps : List P2POp) : List P2POp := interleaveP2pOpsByPeer (sendOps ++ recvOps)

/-- The operations that `_send_recv_one_by_one` waits for, one after another. -/
def sendRecvOneByOne (p2pOpList : List P2POp) (trajList : List (String × ℕ)) : List P2POp :=
  (trajList.zip p2pOpList).map Prod.snd

section Copy

variable (cast : Dtype → Dtype → α → α)

def executeTensorsToCopy (tensorsToCopy : List Tensor) (copyOps : List CommunicationOperation)
    (recvParameters : Dict String Parameter) (memory : Memory α) : Except TransferError (Memory α) :=
  if copyOps.length ≠ tensorsToCopy.length then
    .error (.copyCountMismatch copyOps.length tensorsToCopy.length)
  else
    (tensorsToCopy.zip copyOps).foldlM (fun memory (sendTensor, recvOp) => do
      let recvTensor ← lookup recvParameters recvOp.recvShardMeta.name
      let (recvTensorSliced, _) ← sliceTensor recvTensor.inference recvOp false ⟨memory, .empty⟩
      memory.copy_ cast recvTensorSliced sendTensor) memory

def syncNonContiguousTensorPairs (pairs : List (Tensor × Tensor)) (memory : Memory α) :
    Except TransferError (Memory α) :=
  pairs.foldlM (fun memory (originalTensor, recvTensor) =>
    memory.copy_ cast originalTensor recvTensor) memory

end Copy

/-- Every entry of `mapping` is undone by `inverse`. -/
def validateOneWay (mapping inverse : Dict ℕ ℕ) : Except TransferError Unit :=
  mapping.entries.forM (fun (rank, mappedRank) =>
    if inverse.get? mappedRank = some rank then .ok ()
    else .error (.inconsistentMapping rank mappedRank (inverse.get? mappedRank)))

def validateRankMappings (trainToInfer inferToTrain : Dict ℕ ℕ) : Except TransferError Unit := do
  validateOneWay trainToInfer inferToTrain
  validateOneWay inferToTrain trainToInfer

/-- The tensors of the ranks that exchange the two shards of `gateProjInfer` and `gateProjTrain`. -/
def gateProjParameters (transferRank : ℕ) : Dict String Parameter :=
  Dict.ofList [(gateProjInfer.name,
    ⟨0, 0, [⟨if transferRank = 4 ∨ transferRank % 2 = 1 ∧ transferRank < 4 then 5 else 3, 1⟩], .float32⟩)]

def gateProjMemory (transferRank : ℕ) : Memory ℕ := ⟨fun a => 10 * transferRank + a.2, 0⟩

end Awex
