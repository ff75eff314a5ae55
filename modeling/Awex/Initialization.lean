import Awex.LocalPlan
import Awex.MetaCheck
import Awex.MetaServer
import Awex.RankSpace
import Awex.RecursivePartition
import Awex.Library.Runs
import Mathlib.Data.Finset.Union

namespace Awex

open Runs

inductive InitKey where
  | numInferEngines
  | numInitedInferenceEngines
  | inferConf
  | inferParamsMeta
  | trainingParamsMeta
  | masterInfo
  deriving DecidableEq, Repr

structure MasterInfo where
  address : String
  port : ℕ
  deriving DecidableEq, Repr

/-- Of `infer_conf` the entry that the ranks are numbered with. -/
inductive InitObject where
  | count (n : ℕ)
  | engineRank (e : ℕ)
  | inferConf (inferWorldSize : ℕ)
  | paramsMeta (params : List ParameterMeta)
  | masterInfo (info : MasterInfo)
  deriving DecidableEq

namespace InitObject

def asCount : InitObject → Option ℕ
  | count n => some n
  | _ => none

def asInferConf : InitObject → Option ℕ
  | inferConf inferWorldSize => some inferWorldSize
  | _ => none

def asParamsMeta : InitObject → Option (List ParameterMeta)
  | paramsMeta params => some params
  | _ => none

def asMasterInfo : InitObject → Option MasterInfo
  | masterInfo info => some info
  | _ => none

end InitObject

inductive InitParty where
  | engine (e : ℕ)
  | worker (e i : ℕ)
  | train (t : ℕ)
  deriving DecidableEq, Repr

/-- What the parties bring along. `inferParams e` is what the resolver of engine `e` builds, and
`trainParams` what each training rank builds of the gathered metadata. -/
structure InitSetup where
  numEngines : ℕ
  instanceWorldSize : ℕ
  trainWorldSize : ℕ
  inferWorldSize : ℕ
  inferParams : ℕ → List ParameterMeta
  trainParams : List ParameterMeta
  masterInfo : InitParty → MasterInfo
  raiseException : InitParty → Bool
  strictParamKeyMatch : Bool

inductive InitTask where
  | putNumInferEngines
  | addInitedEngine (e : ℕ)
  | resolveParamsMeta (e : ℕ)
  | putInferConf
  | putInferParamsMeta
  | getInferConf
  | gatherParamsMeta
  | putTrainingParamsMeta
  | getInferParamsMeta
  | broadcastInferParamsMeta
  | getTrainingParamsMeta
  | checkParamsMeta
  | getNumInferEngines
  | startTpWorkers
  | initInTpWorker (e : ℕ)
  | buildTransferPlan
  | shareMasterInfo
  | getMasterInfo
  | initProcessGroup
  | barrier
  | shakeHands
  | batchIsendIrecv
  | setupBarrier
  | awaitTpWorkers (e : ℕ)
  deriving DecidableEq, Repr

/-- `initialize` and `_initialize` of an engine's reader, `_init_in_tp_worker` of its workers and
`_initialize` of a training rank's writer, all without colocation. -/
def initProgram : InitParty → List InitTask
  | .engine e => [.putNumInferEngines, .addInitedEngine e, .resolveParamsMeta e, .putInferConf] ++
      (if e = 0 then [.putInferParamsMeta] else []) ++
      [.getTrainingParamsMeta, .checkParamsMeta, .startTpWorkers, .awaitTpWorkers e]
  | .worker e _ => [.initInTpWorker e, .buildTransferPlan, .shareMasterInfo, .initProcessGroup, .barrier,
      .shakeHands, .batchIsendIrecv, .setupBarrier]
  | .train t => [.getInferConf, .gatherParamsMeta] ++
      (if t = 0 then [.putTrainingParamsMeta, .getInferParamsMeta] else []) ++
      [.broadcastInferParamsMeta, .checkParamsMeta, .getNumInferEngines, .buildTransferPlan, .getMasterInfo,
        .initProcessGroup, .barrier, .shakeHands, .batchIsendIrecv, .setupBarrier]

namespace InitSetup

variable (c : InitSetup)

def engines : Finset InitParty := (Finset.range c.numEngines).image .engine

def workers (e : ℕ) : Finset InitParty := (Finset.range c.instanceWorldSize).image (.worker e)

def trainers : Finset InitParty := (Finset.range c.trainWorldSize).image .train

/-- The members of the process group. -/
def ranks : Finset InitParty := (Finset.range c.numEngines).biUnion c.workers ∪ c.trainers

def parties : Finset InitParty := c.engines ∪ c.ranks

end InitSetup

/-- What a party has found out. -/
structure InitVars where
  inferWorldSize : Option ℕ
  numInferEngines : Option ℕ
  inferParams : Option (List ParameterMeta)
  trainParams : Option (List ParameterMeta)
  transferPlan : Option TransferPlan
  masterInfo : Option MasterInfo
  recvTensor : Option ℕ

def InitVars.empty : InitVars := ⟨none, none, none, none, none, none, none⟩

/-- `transfer_rank` with the sizes that the party has computed it with. -/
structure TransferRank where
  inferWorldSize : ℕ
  trainWorldSize : ℕ
  numInferEngines : ℕ
  rank : ℕ
  deriving DecidableEq, Repr

namespace InitSetup

variable (c : InitSetup)

def transferRank (v : InitVars) : InitParty → Option TransferRank
  | .engine _ => none
  | .worker e i => do
      let infer ← v.inferParams
      let train ← v.trainParams
      return ⟨c.numEngines * recordedWorldSize infer, recordedWorldSize train, c.numEngines,
        e * recordedWorldSize infer + i⟩
  | .train t => do
      let inferWorldSize ← v.inferWorldSize
      let numInferEngines ← v.numInferEngines
      return ⟨inferWorldSize, c.trainWorldSize, numInferEngines, inferWorldSize + t⟩

/-- The rank in the process group and the number of its ranks. -/
def seat (v : InitVars) (p : InitParty) : Option (ℕ × ℕ) :=
  (c.transferRank v p).map fun r => (r.rank, r.trainWorldSize + r.inferWorldSize)

def buildPlan (v : InitVars) (p : InitParty) : Option TransferPlan := do
  let r ← c.transferRank v p
  let infer ← v.inferParams
  let train ← v.trainParams
  let b ← (TransferPlanBuilder.init r.inferWorldSize r.trainWorldSize r.numInferEngines
    c.strictParamKeyMatch).toOption
  (buildLocalTransferPlan b infer train r.rank).toOption

end InitSetup

/-- The operations of `setup_batch_isend_irecv`, each with the rank at the other end. -/
def setupBatchOps (worldSize rank : ℕ) : List (Direction × ℕ) :=
  let midPoint := worldSize / 2
  if worldSize ≤ 1 then []
  else if worldSize % 2 = 0 then
    if rank < midPoint then
      if rank + midPoint < worldSize then [(.recv, rank + midPoint)] else []
    else [(.send, rank - midPoint)]
  else [(.recv, (rank + worldSize - 1) % worldSize), (.send, (rank + 1) % worldSize)]

/-- What the rank at the other end has filled its tensor with. -/
def receivedValue (worldSize rank : ℕ) : Option ℕ :=
  ((setupBatchOps worldSize rank).find? fun op => op.1 = .recv).map Prod.snd

def expectedValue (worldSize rank : ℕ) : Option ℕ :=
  let midPoint := worldSize / 2
  if worldSize ≤ 1 then none
  else if worldSize % 2 = 0 then if rank < midPoint ∧ rank + midPoint < worldSize then some (rank + midPoint) else none
  else some ((rank + worldSize - 1) % worldSize)

structure InitState where
  server : MetaServer InitKey InitObject
  todo : InitParty → List InitTask
  vars : InitParty → InitVars

namespace InitState

variable (s : InitState)

def read {α : Type} (key : InitKey) (get : InitObject → Option α) : Option α :=
  match s.server.storage key with
  | some (.object obj) => get obj
  | _ => none

/-- The party is at the task or through with it. -/
def Arrived (q : InitParty) (t : InitTask) : Prop := t ∈ initProgram q ∧ t ∉ (s.todo q).tail

instance (q : InitParty) (t : InitTask) : Decidable (s.Arrived q t) := inferInstanceAs (Decidable (_ ∧ _))

end InitState

namespace InitSetup

variable (c : InitSetup) (s : InitState)

/-- All ranks of a process group with this master have arrived. -/
def Meets (t : InitTask) (worldSize : ℕ) (info : MasterInfo) : Prop :=
  ∀ k < worldSize, ∃ q ∈ c.ranks, c.seat (s.vars q) q = some (k, worldSize) ∧ (s.vars q).masterInfo = some info ∧
    s.Arrived q t

instance (t : InitTask) (worldSize : ℕ) (info : MasterInfo) : Decidable (c.Meets s t worldSize info) :=
  inferInstanceAs (Decidable (∀ k < worldSize, _))

/-- The rank is there for a point-to-point operation. -/
def Waits (parties : Finset InitParty) (t : InitTask) (rank worldSize : ℕ) : Prop :=
  ∃ q ∈ parties, c.seat (s.vars q) q = some (rank, worldSize) ∧ s.Arrived q t

instance (parties : Finset InitParty) (t : InitTask) (rank worldSize : ℕ) :
    Decidable (c.Waits s parties t rank worldSize) :=
  inferInstanceAs (Decidable (∃ q ∈ parties, _))

def inferRanks : Finset InitParty := (Finset.range c.numEngines).biUnion c.workers

/-- The server and the party's own variables afterwards, or `none` where the task waits for others
or raises. -/
def perform (p : InitParty) : InitTask → Option (MetaServer InitKey InitObject × InitVars)
  | .putNumInferEngines => some (s.server.putObject .numInferEngines (.count c.numEngines), s.vars p)
  | .addInitedEngine e => do
      let server ← (s.server.addObjectToSet .numInitedInferenceEngines (.engineRank e)).toOption
      return (server, s.vars p)
  | .resolveParamsMeta e => some (s.server, { s.vars p with inferParams := some (c.inferParams e) })
  | .putInferConf => some (s.server.putObject .inferConf (.inferConf c.inferWorldSize), s.vars p)
  | .putInferParamsMeta => do
      let params ← (s.vars p).inferParams
      return (s.server.putObject .inferParamsMeta (.paramsMeta params), s.vars p)
  | .getInferConf => do
      let inferWorldSize ← s.read .inferConf InitObject.asInferConf
      return (s.server, { s.vars p with inferWorldSize := some inferWorldSize })
  | .gatherParamsMeta =>
      if ∀ q ∈ c.trainers, s.Arrived q .gatherParamsMeta then
        some (s.server, { s.vars p with trainParams := some c.trainParams })
      else none
  | .putTrainingParamsMeta => do
      let params ← (s.vars p).trainParams
      return (s.server.putObject .trainingParamsMeta (.paramsMeta params), s.vars p)
  | .getInferParamsMeta => do
      let params ← s.read .inferParamsMeta InitObject.asParamsMeta
      return (s.server, { s.vars p with inferParams := some params })
  | .broadcastInferParamsMeta =>
      -- `src=0` has read the metadata when it arrives
      if s.Arrived (.train 0) .broadcastInferParamsMeta then
        some (s.server, { s.vars p with inferParams := (s.vars (.train 0)).inferParams })
      else none
  | .getTrainingParamsMeta => do
      let params ← s.read .trainingParamsMeta InitObject.asParamsMeta
      return (s.server, { s.vars p with trainParams := some params })
  | .checkParamsMeta => do
      let infer ← (s.vars p).inferParams
      let train ← (s.vars p).trainParams
      let _ ← (checkTrainInferParamsMeta train infer (c.raiseException p) c.strictParamKeyMatch).toOption
      return (s.server, s.vars p)
  | .getNumInferEngines => do
      let numInferEngines ← s.read .numInferEngines InitObject.asCount
      return (s.server, { s.vars p with numInferEngines := some numInferEngines })
  | .startTpWorkers => some (s.server, s.vars p)
  | .initInTpWorker e =>
      if s.Arrived (.engine e) (.awaitTpWorkers e) then
        some (s.server, { s.vars p with
          inferParams := (s.vars (.engine e)).inferParams, trainParams := (s.vars (.engine e)).trainParams })
      else none
  | .buildTransferPlan => do
      let plan ← c.buildPlan (s.vars p) p
      return (s.server, { s.vars p with transferPlan := some plan })
  | .shareMasterInfo => do
      let (rank, _) ← c.seat (s.vars p) p
      if rank = 0 then
        return (s.server.putObject .masterInfo (.masterInfo (c.masterInfo p)),
          { s.vars p with masterInfo := some (c.masterInfo p) })
      else
        let info ← s.read .masterInfo InitObject.asMasterInfo
        return (s.server, { s.vars p with masterInfo := some info })
  | .getMasterInfo => do
      let info ← s.read .masterInfo InitObject.asMasterInfo
      return (s.server, { s.vars p with masterInfo := some info })
  | .initProcessGroup => do
      let (_, worldSize) ← c.seat (s.vars p) p
      let info ← (s.vars p).masterInfo
      if c.Meets s .initProcessGroup worldSize info then return (s.server, s.vars p) else none
  | .barrier => do
      let (_, worldSize) ← c.seat (s.vars p) p
      let info ← (s.vars p).masterInfo
      if c.Meets s .barrier worldSize info then return (s.server, s.vars p) else none
  | .shakeHands => do
      let (rank, worldSize) ← c.seat (s.vars p) p
      -- a communicator of two ranks is set up by both, so that the send does not return alone
      if (p ∈ c.inferRanks → rank = 0 → c.Waits s c.trainers .shakeHands (worldSize - 1) worldSize) ∧
          (p ∈ c.trainers → rank = worldSize - 1 → c.Waits s c.inferRanks .shakeHands 0 worldSize) then
        return (s.server, s.vars p)
      else none
  | .batchIsendIrecv => do
      let (rank, worldSize) ← c.seat (s.vars p) p
      if ∀ op ∈ setupBatchOps worldSize rank, c.Waits s c.ranks .batchIsendIrecv op.2 worldSize ∧
          (op.1.opposite, rank) ∈ setupBatchOps worldSize op.2 then
        return (s.server, { s.vars p with recvTensor := receivedValue worldSize rank })
      else none
  | .setupBarrier => do
      let (rank, worldSize) ← c.seat (s.vars p) p
      let info ← (s.vars p).masterInfo
      if c.Meets s .setupBarrier worldSize info ∧
          (expectedValue worldSize rank = none ∨ (s.vars p).recvTensor = expectedValue worldSize rank) then
        return (s.server, s.vars p)
      else none
  | .awaitTpWorkers e => if ∀ q ∈ c.workers e, s.todo q = [] then some (s.server, s.vars p) else none

def step (p : InitParty) : Option InitState :=
  match s.todo p with
  | [] => none
  | t :: rest => (c.perform s p t).map fun r =>
      ⟨r.1, Function.update s.todo p rest, Function.update s.vars p r.2⟩

end InitSetup

def InitState.start : InitState := ⟨⟨fun _ => none⟩, initProgram, fun _ => .empty⟩

def InitStep (c : InitSetup) (s s' : InitState) : Prop := ∃ p ∈ c.parties, c.step s p = some s'

end Awex
