import Awex.Library.Cycles
import Awex.StreamBatch

namespace Awex

open Cycles

/-- Whether a rank sends (0) or receives (1) in the first phase of a stage. -/
def computeTwoPhasePartition (rank stageIdx worldSize : ℕ) : ℕ :=
  if stageIdx = 0 then 0
  else
    let gcdVal := Nat.gcd worldSize stageIdx
    let reducedWorld := worldSize / gcdVal
    let reducedStage := stageIdx / gcdVal
    let stageInv := modInverse reducedStage reducedWorld
    let cycleBase := rank % gcdVal
    let cycleIndex := (rank - cycleBase) / gcdVal
    let cyclePos := cycleIndex * stageInv % reducedWorld
    cyclePos % 2

structure StageOps where
  stageOffset : ℕ
  sendOps : List BuiltOp
  recvOps : List BuiltOp

variable {α : Type}

structure StageSends (α : Type) where
  workspace : Workspace α
  tensorsToCopy : List Tensor
  p2pSendOps : List BuiltOp

structure StageBuild (α : Type) where
  workspace : Workspace α
  tensorsToCopy : List Tensor
  stages : List StageOps

namespace NcclColocateTransport

variable (u : ColocateUpdate)

def sendToRank (stage : ℕ) : ℕ :=
  let sendToRank := u.transferRank + stage
  if sendToRank ≥ u.worldSize then sendToRank - u.worldSize else sendToRank

def recvFromRank (stage : ℕ) : ℕ :=
  if u.transferRank < stage then u.transferRank + u.worldSize - stage else u.transferRank - stage

/-- What is sent is a copy of the slice, in its own dtype. -/
def buildStageSend (sendToRank : ℕ) (s : StageSends α) (op : CommunicationOperation) :
    Except TransferError (StageSends α) := do
  let ((_, tensorSliced), w) ← u.sliceSendOp op s.workspace
  if sendToRank = u.transferRank then
    .ok { s with workspace := w, tensorsToCopy := s.tensorsToCopy ++ [tensorSliced] }
  else if sendToRank ≠ op.recvRank then .error (.rankUnmatched sendToRank op.recvRank)
  else
    let (cloned, memory) := w.memory.clone tensorSliced
    .ok { s with
      workspace := { w with memory := memory }
      p2pSendOps := s.p2pSendOps ++ [(op, ⟨.send, cloned, op.recvRank⟩)] }

def buildStageRecv (recvFromRank sendRank opSendRank : ℕ) (memory : Memory α) (p2pRecvOps : List BuiltOp)
    (op : CommunicationOperation) : Except TransferError (List BuiltOp) :=
  if recvFromRank = u.transferRank then .ok p2pRecvOps
  else do
    let built ← u.buildRecvOp opSendRank memory op
    if sendRank ≠ op.sendRank then .error (.rankUnmatched sendRank op.sendRank)
    else .ok (p2pRecvOps ++ [built])

def buildStage (b : StageBuild α) (stage : ℕ) : Except TransferError (StageBuild α) := do
  let sendTo := sendToRank u stage
  let recvFrom := recvFromRank u stage
  let sends ← (u.sendTransferPlan.operations.getD sendTo []).foldlM (buildStageSend u sendTo)
    ⟨b.workspace, b.tensorsToCopy, []⟩
  let sendRank ← lookupRank u.inferToTrain recvFrom
  let opSendRank ← lookupRank u.trainToInfer sendRank
  let p2pRecvOps ← (u.recvTransferPlan.operations.getD sendRank []).foldlM
    (buildStageRecv u recvFrom sendRank opSendRank sends.workspace.memory) []
  if (u.sendTransferPlan.operations.get? sendTo).isSome ∧ sendTo ≠ u.transferRank ∧ sends.p2pSendOps = [] then
    .error (.inconsistentSendPlan sendTo)
  else if (u.recvTransferPlan.operations.get? sendRank).isSome ∧ recvFrom ≠ u.transferRank ∧ p2pRecvOps = [] then
    .error (.inconsistentRecvPlan opSendRank)
  else
    .ok ⟨sends.workspace, sends.tensorsToCopy,
      b.stages ++ [⟨stage % u.worldSize, sends.p2pSendOps, p2pRecvOps⟩]⟩

/-- Every list of operations is followed by a barrier of the whole group. -/
def stagePhases (s : StageOps) : Except TransferError (List (List BuiltOp)) :=
  if s.stageOffset = 0 then
    if s.sendOps = [] ∧ s.recvOps = [] then .ok [] else .error .opsAtStageZero
  else if computeTwoPhasePartition u.transferRank s.stageOffset u.worldSize = 0 then
    .ok [s.sendOps, s.recvOps]
  else .ok [s.recvOps, s.sendOps]

section Cast

variable (cast : Dtype → Dtype → α → α)

def copyLocal (tensorsToCopy : List Tensor) (memory : Memory α) : Except TransferError (Memory α) :=
  if tensorsToCopy = [] then .ok memory
  else do
    let sendRank ← lookupRank u.inferToTrain u.transferRank
    let copyOps ← lookupRank u.recvTransferPlan.operations sendRank
    executeTensorsToCopy cast tensorsToCopy copyOps u.recvParameters memory

def preparePhases (memory : Memory α) : Except TransferError (List (List BuiltOp) × Memory α) := do
  validateRankMappings u.trainToInfer u.inferToTrain
  let b ← (List.range u.worldSize).foldlM (buildStage u) ⟨⟨memory, .empty⟩, [], []⟩
  let memory ← copyLocal u cast b.tensorsToCopy b.workspace.memory
  let phases ← b.stages.mapM (stagePhases u)
  .ok (phases.flatten, memory)

/-- `execute_p2p_op_list` sends and receives one tensor after another. -/
def updateWeightsInColocateMode (l : Link α) : Except TransferError (Link α) := do
  let (phases, memory) ← preparePhases u cast l.memory
  phases.flatten.foldlM (fun l built => l.post built.2) { l with memory := memory }

end Cast

end NcclColocateTransport

end Awex
