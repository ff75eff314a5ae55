import Awex.NcclComm

namespace Awex

abbrev BuiltOp := CommunicationOperation × P2POp

structure ColocateUpdate where
  sendTransferPlan : TransferPlan
  recvTransferPlan : TransferPlan
  trainToInfer : Dict ℕ ℕ
  inferToTrain : Dict ℕ ℕ
  transferRank : ℕ
  worldSize : ℕ
  sendParameters : Dict String Parameter
  recvParameters : Dict String Parameter

/-- `mapping.get(rank, rank)`. -/
def mapRank (mapping : Dict ℕ ℕ) (rank : ℕ) : ℕ := mapping.getD rank rank

def lookupRank {ν : Type} (d : Dict ℕ ν) (rank : ℕ) : Except TransferError ν :=
  match d.get? rank with
  | some v => .ok v
  | none => .error (.rankKeyError rank)

def buildEach {β γ σ : Type} (f : β → σ → Except TransferError (γ × σ)) :
    List β → σ → Except TransferError (List γ × σ)
  | [], s => .ok ([], s)
  | x :: xs, s => do
    let (y, s) ← f x s
    let (ys, s) ← buildEach f xs s
    .ok (y :: ys, s)

variable {α : Type}

/-- A rank between its peers: the messages that are still to be received from each of them, and
those that were sent to each. -/
structure Link (α : Type) where
  memory : Memory α
  inbox : ℕ → List (Message α)
  outbox : ℕ → List (Message α)

/-- Messages of one ordered pair of ranks are received in the order in which they were sent. -/
def Link.post (l : Link α) (op : P2POp) : Except TransferError (Link α) :=
  match op.op with
  | .send => do
    let msg ← l.memory.message op.tensor
    .ok { l with outbox := Function.update l.outbox op.peer (l.outbox op.peer ++ [msg]) }
  | .recv => match l.inbox op.peer with
    | [] => .error .unfinished
    | msg :: rest => do
      let memory ← l.memory.receive op.tensor msg
      .ok { l with memory := memory, inbox := Function.update l.inbox op.peer rest }

def Link.exchange (l : Link α) (batches : List (PeerBatch BuiltOp)) : Except TransferError (Link α) :=
  (batches.flatMap (·.ops)).foldlM (fun l built => l.post built.2) l

/-- The dictionaries of one call of `execute_recursive_partition_stream_transfer`. -/
structure Handed where
  sendOps : Dict ℕ (List BuiltOp)
  recvOps : Dict ℕ (List BuiltOp)

/-- `copies` are the sent and the received operation of every local copy. -/
structure Outcome (α : Type) where
  copies : List (CommunicationOperation × CommunicationOperation)
  handed : List Handed
  link : Link α

namespace ColocateUpdate

variable (u : ColocateUpdate)

def executeTransfer (handed : Handed) (l : Link α) : Except TransferError (Link α) :=
  l.exchange (executeRecursivePartitionStreamTransfer u.transferRank u.worldSize handed.sendOps
    handed.recvOps)

def sliceSendOp (op : CommunicationOperation) (w : Workspace α) :
    Except TransferError ((CommunicationOperation × Tensor) × Workspace α) := do
  let sendTensor ← lookup u.sendParameters op.sendShardMeta.name
  let (tensorSliced, w) ← sliceTensor sendTensor.training op true w
  .ok ((op, tensorSliced), w)

section Cast

variable (cast : Dtype → Dtype → α → α)

/-- What is sent is a copy of the slice, in the dtype of the receiver. -/
def buildSendOp (op : CommunicationOperation) (w : Workspace α) :
    Except TransferError (BuiltOp × Workspace α) := do
  let ((_, tensorSliced), w) ← u.sliceSendOp op w
  let (cloned, memory) := w.memory.clone tensorSliced
  let (cloned, memory) := memory.toDtype cast cloned op.recvShardMeta.dtype
  .ok ((op, ⟨.send, cloned, mapRank u.trainToInfer op.recvRank⟩), { w with memory := memory })

def buildRecvOp (recvFromRank : ℕ) (memory : Memory α) (op : CommunicationOperation) :
    Except TransferError BuiltOp := do
  let recvTensor ← lookup u.recvParameters op.recvShardMeta.name
  let (tensorSliced, _) ← sliceTensor recvTensor.inference op false ⟨memory, .empty⟩
  .ok (op, ⟨.recv, tensorSliced, recvFromRank⟩)

def executeSelfCopies (tensorsToCopy : List (CommunicationOperation × Tensor)) (memory : Memory α) :
    Except TransferError (List (CommunicationOperation × CommunicationOperation) × Memory α) :=
  if tensorsToCopy = [] then .ok ([], memory)
  else do
    let sendRank ← lookupRank u.inferToTrain u.transferRank
    let copyOps ← lookupRank u.recvTransferPlan.operations sendRank
    let memory ← executeTensorsToCopy cast (tensorsToCopy.map Prod.snd) copyOps u.recvParameters memory
    .ok ((tensorsToCopy.map Prod.fst).zip copyOps, memory)

/-- `allSendP2pOps` is keyed by the mapped peer. -/
structure SendOperations (α : Type) where
  workspace : Workspace α
  tensorsToCopy : List (CommunicationOperation × Tensor)
  allSendP2pOps : Dict ℕ (List BuiltOp)

def processSend (s : SendOperations α) (entry : ℕ × List CommunicationOperation) :
    Except TransferError (SendOperations α) :=
  let mappedPeerRank := mapRank u.trainToInfer entry.1
  if mappedPeerRank = u.transferRank then do
    let (sliced, w) ← buildEach u.sliceSendOp entry.2 s.workspace
    .ok { s with workspace := w, tensorsToCopy := s.tensorsToCopy ++ sliced }
  else do
    let (p2pOps, w) ← buildEach (u.buildSendOp cast) entry.2 s.workspace
    .ok { s with workspace := w, allSendP2pOps := s.allSendP2pOps.set mappedPeerRank p2pOps }

def processRecv (memory : Memory α) (allRecvP2pOps : Dict ℕ (List BuiltOp))
    (entry : ℕ × List CommunicationOperation) : Except TransferError (Dict ℕ (List BuiltOp)) := do
  let recvFromRank ← lookupRank u.trainToInfer entry.1
  if recvFromRank = u.transferRank then .ok allRecvP2pOps
  else do
    let p2pOps ← entry.2.mapM (u.buildRecvOp recvFromRank memory)
    .ok (allRecvP2pOps.set recvFromRank p2pOps)

/-- The one-shot path up to the call of `execute_recursive_partition_stream_transfer`. -/
def buildOneShot (m : Memory α) :
    Except TransferError (Handed × List (CommunicationOperation × CommunicationOperation) × Memory α) := do
  let sends ← u.sendTransferPlan.operations.entries.foldlM (u.processSend cast) ⟨⟨m, .empty⟩, [], .empty⟩
  let allRecvP2pOps ← u.recvTransferPlan.operations.entries.foldlM (u.processRecv sends.workspace.memory)
    .empty
  let (copies, memory) ← u.executeSelfCopies cast sends.tensorsToCopy sends.workspace.memory
  .ok (⟨sends.allSendP2pOps, allRecvP2pOps⟩, copies, memory)

/-- The path of `update_weights_in_colocate_mode` that transfers everything in one go. -/
def runOneShot (l : Link α) : Except TransferError (Outcome α) := do
  let (handed, copies, memory) ← u.buildOneShot cast l.memory
  let l ← u.executeTransfer handed { l with memory := memory }
  .ok ⟨copies, [handed], l⟩

structure SplitSends (α : Type) where
  workspace : Workspace α
  tensorsToCopy : List (CommunicationOperation × Tensor)
  localSelfRecvCollected : List CommunicationOperation
  sendPerPeer : Dict ℕ (List CommunicationOperation)

/-- An operation for the rank itself is copied, unless another training rank sends it. -/
def splitSelfOp (s : SplitSends α) (op : CommunicationOperation) : Except TransferError (SplitSends α) :=
  if (u.inferToTrain.get? u.transferRank).any (op.sendRank ≠ ·) then
    .ok { s with localSelfRecvCollected := s.localSelfRecvCollected ++ [op] }
  else do
    let (sliced, w) ← u.sliceSendOp op s.workspace
    .ok { s with workspace := w, tensorsToCopy := s.tensorsToCopy ++ [sliced] }

def splitSend (s : SplitSends α) (entry : ℕ × List CommunicationOperation) :
    Except TransferError (SplitSends α) :=
  let mappedPeerRank := mapRank u.trainToInfer entry.1
  if mappedPeerRank = u.transferRank then entry.2.foldlM u.splitSelfOp s
  else match entry.2.filter (fun op => u.sendParameters.get? op.sendShardMeta.name = none) with
    | missing :: _ => .error (.keyError missing.sendShardMeta.name)
    | [] => .ok { s with sendPerPeer := s.sendPerPeer.set mappedPeerRank entry.2 }

def splitRecv (recvPerPeer : Dict ℕ (List CommunicationOperation))
    (entry : ℕ × List CommunicationOperation) :
    Except TransferError (Dict ℕ (List CommunicationOperation)) := do
  let recvFromRank ← lookupRank u.trainToInfer entry.1
  .ok (if recvFromRank = u.transferRank then recvPerPeer else recvPerPeer.set recvFromRank entry.2)

def buildLocalSelfRecv (memory : Memory α) (op : CommunicationOperation) :
    Except TransferError (ℕ × BuiltOp) := do
  let actualSendRank := mapRank u.trainToInfer op.sendRank
  let built ← u.buildRecvOp actualSendRank memory op
  .ok (actualSendRank, built)

/-- `ops[start:end]` of a chunk. -/
def chunk {β : Type} (stepSize chunkIdx : ℕ) (ops : List β) : List β :=
  (ops.drop (chunkIdx * stepSize)).take stepSize

def localChunks (stepSize : ℕ) (sendPerPeer recvPerPeer : Dict ℕ (List CommunicationOperation)) : ℕ :=
  max 1 ((max (maxLength sendPerPeer) (maxLength recvPerPeer) + stepSize - 1) / stepSize)

def buildChunkSend (stepSize chunkIdx : ℕ) (s : Workspace α × Dict ℕ (List BuiltOp))
    (entry : ℕ × List CommunicationOperation) :
    Except TransferError (Workspace α × Dict ℕ (List BuiltOp)) :=
  if chunk stepSize chunkIdx entry.2 = [] then .ok s
  else do
    let (p2pOps, w) ← buildEach (u.buildSendOp cast) (chunk stepSize chunkIdx entry.2) s.1
    .ok (w, s.2.set entry.1 p2pOps)

def buildChunkRecv (stepSize chunkIdx : ℕ) (memory : Memory α) (chunkRecvP2pOps : Dict ℕ (List BuiltOp))
    (entry : ℕ × List CommunicationOperation) : Except TransferError (Dict ℕ (List BuiltOp)) :=
  if chunk stepSize chunkIdx entry.2 = [] then .ok chunkRecvP2pOps
  else do
    let p2pOps ← (chunk stepSize chunkIdx entry.2).mapM (u.buildRecvOp entry.1 memory)
    .ok (chunkRecvP2pOps.set entry.1 p2pOps)

/-- What the chunks are cut from. -/
structure ChunkStart (α : Type) where
  sendPerPeer : Dict ℕ (List CommunicationOperation)
  recvPerPeer : Dict ℕ (List CommunicationOperation)
  localSelfRecvBuilt : List (ℕ × BuiltOp)
  copies : List (CommunicationOperation × CommunicationOperation)
  workspace : Workspace α

def splitPlans (m : Memory α) : Except TransferError (ChunkStart α) := do
  let split ← u.sendTransferPlan.operations.entries.foldlM u.splitSend ⟨⟨m, .empty⟩, [], [], .empty⟩
  let recvPerPeer ← u.recvTransferPlan.operations.entries.foldlM u.splitRecv .empty
  let localSelfRecvBuilt ← split.localSelfRecvCollected.mapM (u.buildLocalSelfRecv split.workspace.memory)
  let (copies, memory) ← u.executeSelfCopies cast split.tensorsToCopy split.workspace.memory
  .ok ⟨split.sendPerPeer, recvPerPeer, localSelfRecvBuilt, copies, ⟨memory, split.workspace.sliceContext⟩⟩

structure ChunkState (α : Type) where
  sliceContext : Dict String Tensor
  handed : List Handed
  link : Link α

/-- The operations for the rank itself that other training ranks send are in the first chunk. -/
def buildChunk (stepSize : ℕ) (sendPerPeer recvPerPeer : Dict ℕ (List CommunicationOperation))
    (localSelfRecvBuilt : List (ℕ × BuiltOp)) (w : Workspace α) (chunkIdx : ℕ) :
    Except TransferError (Handed × Workspace α) := do
  let (w, chunkSendP2pOps) ← sendPerPeer.entries.foldlM (u.buildChunkSend cast stepSize chunkIdx) (w, .empty)
  let chunkRecvP2pOps ← recvPerPeer.entries.foldlM (u.buildChunkRecv stepSize chunkIdx w.memory) .empty
  let chunkRecvP2pOps := if chunkIdx = 0 then
      localSelfRecvBuilt.foldl (fun d (rank, built) => d.push rank built) chunkRecvP2pOps
    else chunkRecvP2pOps
  .ok (⟨chunkSendP2pOps, chunkRecvP2pOps⟩, w)

def runChunk (stepSize : ℕ) (sendPerPeer recvPerPeer : Dict ℕ (List CommunicationOperation))
    (localSelfRecvBuilt : List (ℕ × BuiltOp)) (s : ChunkState α) (chunkIdx : ℕ) :
    Except TransferError (ChunkState α) := do
  let (handed, w) ← u.buildChunk cast stepSize sendPerPeer recvPerPeer localSelfRecvBuilt
    ⟨s.link.memory, s.sliceContext⟩ chunkIdx
  let l ← u.executeTransfer handed { s.link with memory := w.memory }
  .ok ⟨w.sliceContext, s.handed ++ [handed], l⟩

def runChunks (stepSize n : ℕ) (c : ChunkStart α) (l : Link α) : Except TransferError (ChunkState α) :=
  (List.range n).foldlM (u.runChunk cast stepSize c.sendPerPeer c.recvPerPeer c.localSelfRecvBuilt)
    ⟨c.workspace.sliceContext, [], { l with memory := c.workspace.memory }⟩

def runChunked (stepSize nChunks : ℕ) (l : Link α) : Except TransferError (Outcome α) := do
  let c ← u.splitPlans cast l.memory
  let s ← u.runChunks cast stepSize nChunks c l
  .ok ⟨c.copies, s.handed, s.link⟩

def updateWeightsInColocateMode (chunks : Option (ℕ × ℕ)) (l : Link α) :
    Except TransferError (Outcome α) := do
  validateRankMappings u.trainToInfer u.inferToTrain
  match chunks with
  | none => u.runOneShot cast l
  | some (stepSize, nChunks) => u.runChunked cast stepSize nChunks l

end Cast

end ColocateUpdate

end Awex
