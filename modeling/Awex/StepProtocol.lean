import Awex.Library.Runs
import Awex.MetaServer

namespace Awex

open Runs

/-- The keys of one update in colocate mode. The last three are per device and step. -/
inductive UpdateKey where
  | allTrainingOffloadedOptimizers
  | allTrainingOffloadedWeights
  | finishedWeightsUpdateEngines
  | trainingSerializedWeights (device step : ℕ)
  | weightsUpdateFinished (device step : ℕ)
  | writeFinished (device step : ℕ)
  deriving DecidableEq, Repr

inductive UpdateObject where
  | rank (rank : ℕ)
  | serializedWeights (transferRank : ℕ)
  | flag (value : Bool)
  deriving DecidableEq, Repr

/-- The training ranks, the engines, and the engine whose worker shares a device with a training rank. -/
structure Colocation where
  trainingWorldSize : ℕ
  numEngines : ℕ
  inferWorldSize : ℕ
  engineOf : ℕ → ℕ

def Colocation.transferRank (c : Colocation) (r : ℕ) : ℕ := c.inferWorldSize + r

/-- Where a training rank is in `write_weights`, from the first `dist.barrier` to the last delete. -/
inductive TrainPhase where
  | idle
  | releasing
  | addingOptimizers
  | converting
  | serializing
  | awaitingUpdate
  | clearing
  | written
  | awaitingEngines
  | finishing
  | deletingEngines
  | deletingOptimizers
  | deletingWeights
  deriving DecidableEq, Repr

inductive EnginePhase where
  | idle
  | waiting
  | updating
  deriving DecidableEq, Repr

/-- Where an inference worker is in `_update_weights_in_colocate_mode`. -/
inductive WorkerPhase where
  | idle
  | collecting
  | transferring
  | synchronizing
  | closing
  | deleting
  deriving DecidableEq, Repr

/-- `barriers` counts the calls of `dist.barrier`, `offloaded` is the last step in which the rank
released its weights. -/
structure TrainRank where
  phase : TrainPhase
  step : ℕ
  barriers : ℕ
  offloaded : ℕ
  deriving DecidableEq, Repr

/-- `resumed` is the last step in which the engine resumed its weights for the update. -/
structure EngineState where
  phase : EnginePhase
  step : ℕ
  resumed : ℕ
  deriving DecidableEq, Repr

structure WorkerState where
  phase : WorkerPhase
  step : ℕ
  barriers : ℕ
  deriving DecidableEq, Repr

structure StepState where
  server : MetaServer UpdateKey UpdateObject
  train : ℕ → TrainRank
  engine : ℕ → EngineState
  worker : ℕ → WorkerState

namespace StepState

def serve (s : StepState) (server : MetaServer UpdateKey UpdateObject) : StepState := { s with server := server }

def setTrain (s : StepState) (r : ℕ) (rank : TrainRank) : StepState :=
  { s with train := Function.update s.train r rank }

def setEngine (s : StepState) (e : ℕ) (engine : EngineState) : StepState :=
  { s with engine := Function.update s.engine e engine }

def setWorker (s : StepState) (d : ℕ) (worker : WorkerState) : StepState :=
  { s with worker := Function.update s.worker d worker }

@[simp] theorem setTrain_train (s : StepState) (r r' : ℕ) (rank : TrainRank) :
    (s.setTrain r rank).train r' = if r' = r then rank else s.train r' := by
  simp [setTrain, Function.update_apply]

@[simp] theorem setEngine_engine (s : StepState) (e e' : ℕ) (engine : EngineState) :
    (s.setEngine e engine).engine e' = if e' = e then engine else s.engine e' := by
  simp [setEngine, Function.update_apply]

@[simp] theorem serve_server (s : StepState) (server : MetaServer UpdateKey UpdateObject) :
    (s.serve server).server = server := rfl

@[simp] theorem serve_train (s : StepState) (server : MetaServer UpdateKey UpdateObject) :
    (s.serve server).train = s.train := rfl

@[simp] theorem setTrain_engine (s : StepState) (r : ℕ) (rank : TrainRank) :
    (s.setTrain r rank).engine = s.engine := rfl

@[simp] theorem serve_engine (s : StepState) (server : MetaServer UpdateKey UpdateObject) :
    (s.serve server).engine = s.engine := rfl

def goto (s : StepState) (r : ℕ) (phase : TrainPhase) : StepState := s.setTrain r { s.train r with phase := phase }

def gotoWorker (s : StepState) (d : ℕ) (phase : WorkerPhase) : StepState :=
  s.setWorker d { s.worker d with phase := phase }

end StepState

/-- The next request or `dist.barrier` of a training rank, an engine or a worker. A wait that does
not find what it waits for is tried again. -/
inductive UpdateStep (c : Colocation) : StepState → StepState → Prop where
  | startTrain (s : StepState) (r : ℕ) (hr : r < c.trainingWorldSize) (h : (s.train r).phase = .idle) :
      UpdateStep c s (s.setTrain r
        ⟨.releasing, (s.train r).step + 1, (s.train r).barriers + 1, (s.train r).offloaded⟩)
  | passRelease (s : StepState) (r : ℕ) (h : (s.train r).phase = .releasing)
      (hall : ∀ r' < c.trainingWorldSize, (s.train r).barriers ≤ (s.train r').barriers) :
      UpdateStep c s (s.goto r (if r = 0 then .addingOptimizers else .converting))
  | addOptimizers (s : StepState) (r : ℕ) (server : MetaServer UpdateKey UpdateObject)
      (h : (s.train r).phase = .addingOptimizers)
      (hadd : s.server.addObjectToSet .allTrainingOffloadedOptimizers (.rank r) = .ok server) :
      UpdateStep c s ((s.goto r .converting).serve server)
  | offloadWeights (s : StepState) (r : ℕ) (server : MetaServer UpdateKey UpdateObject)
      (h : (s.train r).phase = .converting)
      (hadd : s.server.addObjectToSet .allTrainingOffloadedWeights (.rank (c.transferRank r)) = .ok server) :
      UpdateStep c s ((s.setTrain r
        ⟨.serializing, (s.train r).step, (s.train r).barriers, (s.train r).step⟩).serve server)
  | putSerialized (s : StepState) (r : ℕ) (h : (s.train r).phase = .serializing) :
      UpdateStep c s ((s.goto r .awaitingUpdate).serve (s.server.putObject
        (.trainingSerializedWeights r (s.train r).step) (.serializedWeights (c.transferRank r))))
  | seeUpdate (s : StepState) (r : ℕ) (h : (s.train r).phase = .awaitingUpdate)
      (hkey : s.server.hasKey (.weightsUpdateFinished r (s.train r).step) = true) :
      UpdateStep c s (s.goto r .clearing)
  | clearUpdate (s : StepState) (r : ℕ) (h : (s.train r).phase = .clearing) :
      UpdateStep c s ((s.goto r .written).serve (s.server.deleteIfExists
        (.weightsUpdateFinished r (s.train r).step)))
  | putWritten (s : StepState) (r : ℕ) (h : (s.train r).phase = .written) :
      UpdateStep c s ((s.goto r .awaitingEngines).serve (s.server.putObject
        (.writeFinished r (s.train r).step) (.flag true)))
  | seeEngines (s : StepState) (r k : ℕ) (h : (s.train r).phase = .awaitingEngines)
      (hlen : lenOf (s.server.getObject .finishedWeightsUpdateEngines (some (.members ∅))) = some k)
      (hk : c.numEngines ≤ k) :
      UpdateStep c s (s.setTrain r
        ⟨.finishing, (s.train r).step, (s.train r).barriers + 1, (s.train r).offloaded⟩)
  | passFinish (s : StepState) (r : ℕ) (h : (s.train r).phase = .finishing)
      (hall : ∀ r' < c.trainingWorldSize, (s.train r).barriers ≤ (s.train r').barriers) :
      UpdateStep c s (s.goto r (if r = 0 then .deletingEngines else .idle))
  | deleteEngines (s : StepState) (r : ℕ) (h : (s.train r).phase = .deletingEngines) :
      UpdateStep c s ((s.goto r .deletingOptimizers).serve
        (s.server.deleteIfExists .finishedWeightsUpdateEngines))
  | deleteOptimizers (s : StepState) (r : ℕ) (h : (s.train r).phase = .deletingOptimizers) :
      UpdateStep c s ((s.goto r .deletingWeights).serve
        (s.server.deleteIfExists .allTrainingOffloadedOptimizers))
  | deleteWeights (s : StepState) (r : ℕ) (h : (s.train r).phase = .deletingWeights) :
      UpdateStep c s ((s.goto r .idle).serve (s.server.deleteIfExists .allTrainingOffloadedWeights))
  | startEngine (s : StepState) (e : ℕ) (he : e < c.numEngines) (h : (s.engine e).phase = .idle) :
      UpdateStep c s (s.setEngine e ⟨.waiting, (s.engine e).step + 1, (s.engine e).resumed⟩)
  | resumeWeights (s : StepState) (e k : ℕ) (h : (s.engine e).phase = .waiting)
      (hlen : lenOf (s.server.getObject .allTrainingOffloadedWeights (some (.members ∅))) = some k)
      (hk : c.trainingWorldSize ≤ k) :
      UpdateStep c s (s.setEngine e ⟨.updating, (s.engine e).step, (s.engine e).step⟩)
  | startWorker (s : StepState) (d : ℕ) (hd : d < c.trainingWorldSize) (h : (s.worker d).phase = .idle)
      (he : (s.engine (c.engineOf d)).phase = .updating)
      (hstep : (s.worker d).step < (s.engine (c.engineOf d)).step) :
      UpdateStep c s (s.setWorker d ⟨.collecting, (s.engine (c.engineOf d)).step, (s.worker d).barriers⟩)
  | collect (s : StepState) (d : ℕ) (h : (s.worker d).phase = .collecting)
      (hkey : s.server.hasKey (.trainingSerializedWeights d (s.worker d).step) = true) :
      UpdateStep c s (s.gotoWorker d .transferring)
  | putUpdated (s : StepState) (d : ℕ) (h : (s.worker d).phase = .transferring) :
      UpdateStep c s ((s.setWorker d ⟨.synchronizing, (s.worker d).step, (s.worker d).barriers + 1⟩).serve
        (s.server.putObject (.weightsUpdateFinished d (s.worker d).step) (.flag true)))
  | passUpdate (s : StepState) (d : ℕ) (h : (s.worker d).phase = .synchronizing)
      (hall : ∀ d' < c.trainingWorldSize, (s.worker d).barriers ≤ (s.worker d').barriers) :
      UpdateStep c s (s.gotoWorker d .closing)
  | seeWritten (s : StepState) (d : ℕ) (h : (s.worker d).phase = .closing)
      (hkey : s.server.hasKey (.writeFinished d (s.worker d).step) = true) :
      UpdateStep c s (s.gotoWorker d .deleting)
  | deleteWritten (s : StepState) (d : ℕ) (server : MetaServer UpdateKey UpdateObject)
      (h : (s.worker d).phase = .deleting)
      (hdelete : s.server.delete (.writeFinished d (s.worker d).step) = .ok server) :
      UpdateStep c s ((s.gotoWorker d .idle).serve server)
  | finishEngine (s : StepState) (e : ℕ) (server : MetaServer UpdateKey UpdateObject)
      (h : (s.engine e).phase = .updating)
      (hworkers : ∀ d < c.trainingWorldSize, c.engineOf d = e →
        (s.worker d).phase = .idle ∧ (s.worker d).step = (s.engine e).step)
      (hadd : s.server.addObjectToSet .finishedWeightsUpdateEngines (.rank e) = .ok server) :
      UpdateStep c s ((s.setEngine e ⟨.idle, (s.engine e).step, (s.engine e).resumed⟩).serve server)

/-- The `dist.barrier` calls of the running step that the phase is still ahead of. -/
def TrainPhase.notCalled : TrainPhase → ℕ
  | .releasing | .addingOptimizers | .converting | .serializing | .awaitingUpdate | .clearing | .written
  | .awaitingEngines => 1
  | _ => 0

def TrainPhase.notPassed : TrainPhase → ℕ
  | .releasing => 2
  | .addingOptimizers | .converting | .serializing | .awaitingUpdate | .clearing | .written
  | .awaitingEngines | .finishing => 1
  | _ => 0

def TrainPhase.notOffloaded : TrainPhase → ℕ
  | .releasing | .addingOptimizers | .converting => 1
  | _ => 0

def TrainRank.cleaned (rank : TrainRank) : ℕ := if rank.phase = .idle then rank.step else rank.step - 1

namespace StepState

structure Fresh (s : StepState) : Prop where
  server : ∀ key, s.server.storage key = none
  train : ∀ r, s.train r = ⟨.idle, 0, 0, 0⟩
  engine : ∀ e, s.engine e = ⟨.idle, 0, 0⟩
  worker : ∀ d, s.worker d = ⟨.idle, 0, 0⟩

/-- An engine has resumed its weights in a step only where all training ranks have offloaded theirs. -/
def Safe (s : StepState) (c : Colocation) : Prop :=
  ∀ e < c.numEngines, ∀ r < c.trainingWorldSize, (s.engine e).resumed ≤ (s.train r).offloaded

structure Exchange (s : StepState) (c : Colocation) : Prop where
  isSet : s.server.IsSetKey .allTrainingOffloadedWeights
  members : ∀ obj ∈ s.server.setAt .allTrainingOffloadedWeights, ∃ r < c.trainingWorldSize,
    obj = .rank (c.transferRank r) ∧ (s.train 0).cleaned < (s.train r).offloaded
  calls : ∀ r, (s.train r).barriers + (s.train r).phase.notCalled = 2 * (s.train r).step
  sync : ∀ r < c.trainingWorldSize, ∀ r' < c.trainingWorldSize,
    2 * (s.train r).step ≤ (s.train r').barriers + (s.train r).phase.notPassed
  offloads : ∀ r, (s.train r).offloaded + (s.train r).phase.notOffloaded = (s.train r).step
  inside : ∀ r, (s.train r).phase ≠ .idle → r < c.trainingWorldSize
  engines : ∀ e, (s.engine e).phase ≠ .idle → e < c.numEngines
  safe : s.Safe c

variable {s s' : StepState} {c : Colocation}

theorem Fresh.exchange (h : s.Fresh) : s.Exchange c := by
  refine ⟨?_, ?_, ?_, ?_, ?_, ?_, ?_, ?_⟩
  · intro obj
    simp [h.server]
  · intro obj hobj
    simp [MetaServer.setAt, h.server] at hobj
  · intro r
    simp [h.train, TrainPhase.notCalled]
  · intro r _ r' _
    simp [h.train]
  · intro r
    simp [h.train, TrainPhase.notOffloaded]
  · intro r hr
    simp [h.train] at hr
  · intro e he
    simp [h.engine] at he
  · intro e _ r _
    simp [h.engine]

theorem setAt_congr {server server' : MetaServer UpdateKey UpdateObject} {key : UpdateKey}
    (h : server'.storage key = server.storage key) : server'.setAt key = server.setAt key := by
  unfold MetaServer.setAt
  rw [h]

theorem Exchange.frame (h : s.Exchange c) (htrain : s'.train = s.train)
    (hserver : s'.server.storage .allTrainingOffloadedWeights = s.server.storage .allTrainingOffloadedWeights)
    (hresumed : ∀ e, (s'.engine e).resumed = (s.engine e).resumed)
    (hengines : ∀ e, (s'.engine e).phase ≠ .idle → e < c.numEngines) : s'.Exchange c := by
  refine ⟨?_, ?_, ?_, ?_, ?_, ?_, hengines, ?_⟩
  · intro obj
    rw [hserver]
    exact h.isSet obj
  · intro obj hobj
    rw [htrain]
    exact h.members obj (setAt_congr hserver ▸ hobj)
  · rw [htrain]
    exact h.calls
  · rw [htrain]
    exact h.sync
  · rw [htrain]
    exact h.offloads
  · rw [htrain]
    exact h.inside
  · intro e he r hr
    rw [htrain, hresumed]
    exact h.safe e he r hr

theorem Exchange.setTrain (h : s.Exchange c) {r : ℕ} (hr : r < c.trainingWorldSize) {rank : TrainRank}
    {server : MetaServer UpdateKey UpdateObject} (hset : server.IsSetKey .allTrainingOffloadedWeights)
    (hmembers : ∀ obj ∈ server.setAt .allTrainingOffloadedWeights, ∃ r' < c.trainingWorldSize,
      obj = .rank (c.transferRank r') ∧
        ((s.setTrain r rank).train 0).cleaned < ((s.setTrain r rank).train r').offloaded)
    (hcalls : rank.barriers + rank.phase.notCalled = 2 * rank.step)
    (hsync : ∀ r' < c.trainingWorldSize, 2 * rank.step ≤ (s.train r').barriers + rank.phase.notPassed)
    (hbarriers : (s.train r).barriers ≤ rank.barriers) (hoffloaded : (s.train r).offloaded ≤ rank.offloaded)
    (hoffloads : rank.offloaded + rank.phase.notOffloaded = rank.step) :
    ((s.setTrain r rank).serve server).Exchange c := by
  have htrain : ∀ r', ((s.setTrain r rank).serve server).train r' = if r' = r then rank else s.train r' := by
    intro r'
    rw [serve_train, setTrain_train]
  have hmono : ∀ r', (s.train r').barriers ≤ (((s.setTrain r rank).serve server).train r').barriers := by
    intro r'
    rw [htrain]
    split_ifs with hrr
    · rwa [hrr]
    · exact le_refl _
  refine ⟨hset, hmembers, ?_, ?_, ?_, ?_, h.engines, ?_⟩
  · intro r'
    rw [htrain]
    split_ifs
    · exact hcalls
    · exact h.calls r'
  · intro r₁ h₁ r₂ h₂
    have hle := hmono r₂
    rw [htrain r₁]
    split_ifs
    · have := hsync r₂ h₂
      omega
    · have := h.sync r₁ h₁ r₂ h₂
      omega
  · intro r'
    rw [htrain]
    split_ifs
    · exact hoffloads
    · exact h.offloads r'
  · intro r' hne
    rw [htrain] at hne
    split_ifs at hne with hrr
    · omega
    · exact h.inside r' hne
  · intro e he r' hr'
    rw [htrain]
    have := h.safe e he r' hr'
    split_ifs with hrr
    · subst hrr
      exact this.trans hoffloaded
    · exact this

theorem Exchange.keep (h : s.Exchange c) {r : ℕ} (hr : r < c.trainingWorldSize) {rank : TrainRank}
    {server : MetaServer UpdateKey UpdateObject}
    (hserver : server.storage .allTrainingOffloadedWeights = s.server.storage .allTrainingOffloadedWeights)
    (hcalls : rank.barriers + rank.phase.notCalled = 2 * rank.step)
    (hsync : ∀ r' < c.trainingWorldSize, 2 * rank.step ≤ (s.train r').barriers + rank.phase.notPassed)
    (hbarriers : (s.train r).barriers ≤ rank.barriers) (hoffloaded : rank.offloaded = (s.train r).offloaded)
    (hoffloads : rank.offloaded + rank.phase.notOffloaded = rank.step)
    (hcleaned : r = 0 → rank.cleaned = (s.train r).cleaned) : ((s.setTrain r rank).serve server).Exchange c := by
  apply h.setTrain hr _ _ hcalls hsync hbarriers hoffloaded.ge hoffloads
  · intro obj
    rw [hserver]
    exact h.isSet obj
  · intro obj hobj
    obtain ⟨r', hr', rfl, hlt⟩ := h.members obj (setAt_congr hserver ▸ hobj)
    have hzero : ((s.setTrain r rank).train 0).cleaned = (s.train 0).cleaned := by
      rw [setTrain_train]
      split_ifs with h0
      · rw [hcleaned h0.symm, h0]
      · rfl
    have hsame : ((s.setTrain r rank).train r').offloaded = (s.train r').offloaded := by
      rw [setTrain_train]
      split_ifs with hrr
      · rw [hoffloaded, hrr]
      · rfl
    rw [hzero]
    exact ⟨r', hr', rfl, hsame.symm ▸ hlt⟩

theorem Exchange.goto (h : s.Exchange c) {r : ℕ} {phase : TrainPhase} {server : MetaServer UpdateKey UpdateObject}
    (hserver : server.storage .allTrainingOffloadedWeights = s.server.storage .allTrainingOffloadedWeights)
    (hfrom : (s.train r).phase ≠ .idle) (hto : phase ≠ .idle)
    (hcalls : phase.notCalled = (s.train r).phase.notCalled)
    (hpassed : phase.notPassed = (s.train r).phase.notPassed)
    (hoffloads : phase.notOffloaded = (s.train r).phase.notOffloaded) :
    ((s.goto r phase).serve server).Exchange c := by
  have hr := h.inside r hfrom
  apply h.keep hr hserver
  · have := h.calls r
    dsimp only
    omega
  · intro r' hr'
    have := h.sync r hr r' hr'
    dsimp only
    omega
  · exact le_refl _
  · rfl
  · have := h.offloads r
    dsimp only
    omega
  · simp [TrainRank.cleaned, hfrom, hto]

theorem Exchange.pass (h : s.Exchange c) {r : ℕ} {phase : TrainPhase} (hfrom : (s.train r).phase ≠ .idle)
    (hall : ∀ r' < c.trainingWorldSize, (s.train r).barriers ≤ (s.train r').barriers)
    (hto : r = 0 → phase ≠ .idle) (hcalls : phase.notCalled = (s.train r).phase.notCalled)
    (hpassed : phase.notPassed = phase.notCalled)
    (hoffloads : phase.notOffloaded = (s.train r).phase.notOffloaded) : (s.goto r phase).Exchange c := by
  have hr := h.inside r hfrom
  have hcount := h.calls r
  apply h.keep hr rfl
  · dsimp only
    omega
  · intro r' hr'
    have := hall r' hr'
    dsimp only
    omega
  · exact le_refl _
  · rfl
  · have := h.offloads r
    dsimp only
    omega
  · intro h0
    simp [TrainRank.cleaned, hfrom, hto h0]

theorem Exchange.cleaned_lt (h : s.Exchange c) {r : ℕ} (hphase : (s.train r).phase = .converting) :
    (s.train 0).cleaned < (s.train r).step := by
  have hr : r < c.trainingWorldSize := h.inside r (by simp [hphase])
  have hsync := h.sync 0 (by omega) r hr
  have hcalls := h.calls r
  simp only [hphase, TrainPhase.notCalled] at hcalls
  have hpassed : (s.train 0).phase.notPassed ≤ if (s.train 0).phase = .idle then 0 else 2 := by
    cases (s.train 0).phase <;> simp [TrainPhase.notPassed]
  unfold TrainRank.cleaned
  split_ifs at hpassed ⊢ <;> omega

theorem Exchange.offloadWeights (h : s.Exchange c) {r : ℕ} {server : MetaServer UpdateKey UpdateObject}
    (hphase : (s.train r).phase = .converting)
    (hadd : s.server.addObjectToSet .allTrainingOffloadedWeights (.rank (c.transferRank r)) = .ok server) :
    ((s.setTrain r ⟨.serializing, (s.train r).step, (s.train r).barriers, (s.train r).step⟩).serve
      server).Exchange c := by
  have hr : r < c.trainingWorldSize := h.inside r (by simp [hphase])
  have hlt := h.cleaned_lt hphase
  have hcalls := h.calls r
  have hoffloads := h.offloads r
  simp only [hphase, TrainPhase.notCalled] at hcalls
  simp only [hphase, TrainPhase.notOffloaded] at hoffloads
  obtain ⟨server', hserver', hset, hadded, _⟩ :=
    MetaServer.addObjectToSet_spec h.isSet (.rank (c.transferRank r))
  obtain rfl : server' = server := Except.ok.inj (hserver'.symm.trans hadd)
  have hzero : ((s.setTrain r ⟨.serializing, (s.train r).step, (s.train r).barriers,
      (s.train r).step⟩).train 0).cleaned = (s.train 0).cleaned := by
    rw [setTrain_train]
    split_ifs with h0
    · simp [TrainRank.cleaned, h0, hphase]
    · rfl
  apply h.setTrain hr hset
  · intro obj hobj
    rw [hzero]
    rw [hadded, Finset.mem_insert] at hobj
    rcases hobj with rfl | hobj
    · refine ⟨r, hr, rfl, ?_⟩
      simpa using hlt
    · obtain ⟨r', hr', rfl, hlt'⟩ := h.members obj hobj
      refine ⟨r', hr', rfl, ?_⟩
      rw [setTrain_train]
      split_ifs
      · exact hlt
      · exact hlt'
  · exact hcalls
  · intro r' hr'
    have hsync := h.sync r hr r' hr'
    simp only [hphase, TrainPhase.notPassed] at hsync
    exact hsync
  · exact le_refl _
  · dsimp only
    omega
  · rfl

theorem Exchange.deleteWeights (h : s.Exchange c) {r : ℕ} (hphase : (s.train r).phase = .deletingWeights) :
    ((s.goto r .idle).serve (s.server.deleteIfExists .allTrainingOffloadedWeights)).Exchange c := by
  have hr : r < c.trainingWorldSize := h.inside r (by simp [hphase])
  have hcalls := h.calls r
  have hoffloads := h.offloads r
  simp only [hphase, TrainPhase.notCalled] at hcalls
  simp only [hphase, TrainPhase.notOffloaded] at hoffloads
  apply h.setTrain hr (MetaServer.deleteIfExists_isSetKey _ _)
  · intro obj hobj
    rw [MetaServer.deleteIfExists_setAt] at hobj
    simp at hobj
  · exact hcalls
  · intro r' hr'
    have hsync := h.sync r hr r' hr'
    simp only [hphase, TrainPhase.notPassed] at hsync
    exact hsync
  · exact le_refl _
  · exact le_refl _
  · exact hoffloads

theorem Exchange.all_offloaded (h : s.Exchange c) {k : ℕ}
    (hlen : lenOf (s.server.getObject .allTrainingOffloadedWeights (some (.members ∅))) = some k)
    (hk : c.trainingWorldSize ≤ k) : ∀ r < c.trainingWorldSize, (s.train 0).cleaned < (s.train r).offloaded := by
  intro r hr
  have hinj : Function.Injective fun r => UpdateObject.rank (c.transferRank r) := by
    intro r₁ r₂ heq
    have := UpdateObject.rank.inj heq
    unfold Colocation.transferRank at this
    omega
  have hmem := MetaServer.mem_setAt_of_card hinj h.isSet
    (fun obj hobj => by
      obtain ⟨r', hr', rfl, _⟩ := h.members obj hobj
      exact ⟨r', hr', rfl⟩) hlen hk r hr
  obtain ⟨r', _, heq, hlt⟩ := h.members _ hmem
  obtain rfl := hinj heq
  exact hlt

end StepState

/-- An engine sees all training ranks offloaded only after rank 0 has deleted the entries of the
steps before the engine's. -/
def ResumesAfterCleaning (s s' : StepState) : Prop :=
  ∀ e, (s.engine e).phase = .waiting → (s'.engine e).phase = .updating →
    (s.engine e).step ≤ (s.train 0).cleaned + 1

namespace StepState

variable {s s' : StepState} {c : Colocation}

theorem Exchange.step (h : s.Exchange c) (hstep : Under (UpdateStep c) ResumesAfterCleaning s s') :
    s'.Exchange c := by
  obtain ⟨hstep, hafter⟩ := hstep
  cases hstep with
  | startTrain r hr hphase =>
    have hcalls := h.calls r
    have hoffloads := h.offloads r
    simp only [hphase, TrainPhase.notCalled] at hcalls
    simp only [hphase, TrainPhase.notOffloaded] at hoffloads
    apply h.keep hr rfl
    · simp only [TrainPhase.notCalled]
      omega
    · intro r' hr'
      have hsync := h.sync r hr r' hr'
      simp only [hphase, TrainPhase.notPassed] at hsync ⊢
      omega
    · simp
    · rfl
    · simp only [TrainPhase.notOffloaded]
      omega
    · simp [TrainRank.cleaned, hphase]
  | passRelease r hphase hall =>
    split_ifs <;> apply h.pass _ hall <;>
      simp [hphase, TrainPhase.notCalled, TrainPhase.notPassed, TrainPhase.notOffloaded]
  | addOptimizers r server hphase hadd =>
    apply h.goto (MetaServer.addObjectToSet_of_ne hadd (by simp)) <;>
      simp [hphase, TrainPhase.notCalled, TrainPhase.notPassed, TrainPhase.notOffloaded]
  | offloadWeights r server hphase hadd => exact h.offloadWeights hphase hadd
  | putSerialized r hphase =>
    apply h.goto (MetaServer.storage_store_of_ne _ (by simp) _) <;>
      simp [hphase, TrainPhase.notCalled, TrainPhase.notPassed, TrainPhase.notOffloaded]
  | seeUpdate r hphase _ =>
    apply h.goto rfl <;>
      simp [hphase, TrainPhase.notCalled, TrainPhase.notPassed, TrainPhase.notOffloaded]
  | clearUpdate r hphase =>
    apply h.goto (MetaServer.deleteIfExists_of_ne _ (by simp)) <;>
      simp [hphase, TrainPhase.notCalled, TrainPhase.notPassed, TrainPhase.notOffloaded]
  | putWritten r hphase =>
    apply h.goto (MetaServer.storage_store_of_ne _ (by simp) _) <;>
      simp [hphase, TrainPhase.notCalled, TrainPhase.notPassed, TrainPhase.notOffloaded]
  | seeEngines r k hphase _ _ =>
    have hr := h.inside r (by simp [hphase])
    have hcalls := h.calls r
    have hoffloads := h.offloads r
    simp only [hphase, TrainPhase.notCalled] at hcalls
    simp only [hphase, TrainPhase.notOffloaded] at hoffloads
    apply h.keep hr rfl
    · exact hcalls
    · intro r' hr'
      have hsync := h.sync r hr r' hr'
      simp only [hphase, TrainPhase.notPassed] at hsync
      exact hsync
    · simp
    · rfl
    · exact hoffloads
    · simp [TrainRank.cleaned, hphase]
  | passFinish r hphase hall =>
    split_ifs with h0
    · apply h.pass _ hall <;>
        simp [hphase, TrainPhase.notCalled, TrainPhase.notPassed, TrainPhase.notOffloaded]
    · apply h.pass _ hall <;>
        simp [hphase, h0, TrainPhase.notCalled, TrainPhase.notPassed, TrainPhase.notOffloaded]
  | deleteEngines r hphase =>
    apply h.goto (MetaServer.deleteIfExists_of_ne _ (by simp)) <;>
      simp [hphase, TrainPhase.notCalled, TrainPhase.notPassed, TrainPhase.notOffloaded]
  | deleteOptimizers r hphase =>
    apply h.goto (MetaServer.deleteIfExists_of_ne _ (by simp)) <;>
      simp [hphase, TrainPhase.notCalled, TrainPhase.notPassed, TrainPhase.notOffloaded]
  | deleteWeights r hphase => exact h.deleteWeights hphase
  | startEngine e he hphase =>
    refine h.frame ?_ ?_ ?_ ?_
    · rfl
    · rfl
    · intro e'
      rw [setEngine_engine]
      split_ifs with hee
      · rw [hee]
      · rfl
    · intro e' hne
      rw [setEngine_engine] at hne
      split_ifs at hne with hee
      · omega
      · exact h.engines e' hne
  | resumeWeights e k hphase hlen hk =>
    have hstep := hafter e hphase (by simp)
    have hall := h.all_offloaded hlen hk
    refine ⟨h.isSet, h.members, h.calls, h.sync, h.offloads, h.inside, ?_, ?_⟩
    · intro e' hne
      rw [setEngine_engine] at hne
      split_ifs at hne with hee
      · rw [hee]
        exact h.engines e (by simp [hphase])
      · exact h.engines e' hne
    · intro e' he' r hr
      rw [setEngine_engine]
      split_ifs
      · have := hall r hr
        exact hstep.trans this
      · exact h.safe e' he' r hr
  | startWorker d _ _ _ _ => exact h.frame rfl rfl (fun _ => rfl) h.engines
  | collect d _ _ => exact h.frame rfl rfl (fun _ => rfl) h.engines
  | putUpdated d _ =>
    exact h.frame rfl (MetaServer.storage_store_of_ne _ (by simp) _) (fun _ => rfl) h.engines
  | passUpdate d _ _ => exact h.frame rfl rfl (fun _ => rfl) h.engines
  | seeWritten d _ _ => exact h.frame rfl rfl (fun _ => rfl) h.engines
  | deleteWritten d server _ hdelete =>
    exact h.frame rfl (MetaServer.delete_of_ne hdelete (by simp)) (fun _ => rfl) h.engines
  | finishEngine e server hphase _ hadd =>
    refine h.frame ?_ ?_ ?_ ?_
    · rfl
    · exact MetaServer.addObjectToSet_of_ne hadd (by simp)
    · intro e'
      rw [serve_engine, setEngine_engine]
      split_ifs with hee
      · rw [hee]
      · rfl
    · intro e' hne
      rw [serve_engine, setEngine_engine] at hne
      split_ifs at hne
      · simp at hne
      · exact h.engines e' hne

theorem Exchange.resumes_after_cleaning (h : s.Exchange c) (hT : 0 < c.trainingWorldSize)
    (hstep : UpdateStep c s s') (hsafe : s'.Safe c) : ResumesAfterCleaning s s' := by
  intro e hwaiting hupdating
  have he : e < c.numEngines := h.engines e (by simp [hwaiting])
  have hoffloads := h.offloads 0
  have hcleaned : (s.train 0).step ≤ (s.train 0).cleaned + 1 := by
    unfold TrainRank.cleaned
    split_ifs <;> omega
  have hresumed := hsafe e he 0 hT
  cases hstep with
  | resumeWeights e' k hphase _ _ =>
    rw [setEngine_engine] at hupdating hresumed
    split_ifs at hupdating hresumed with hee
    · rw [hee]
      change (s.engine e').step ≤ (s.train 0).offloaded at hresumed
      omega
    · simp [hwaiting] at hupdating
  | startEngine e' _ _ | finishEngine e' _ _ _ _ =>
    first
      | rw [serve_engine] at hupdating
      | skip
    rw [setEngine_engine] at hupdating
    split_ifs at hupdating
    simp [hwaiting] at hupdating
  | _ => exact absurd (hwaiting.symm.trans hupdating) (by simp)

def initial : StepState :=
  ⟨⟨fun _ => none⟩, fun _ => ⟨.idle, 0, 0, 0⟩, fun _ => ⟨.idle, 0, 0⟩, fun _ => ⟨.idle, 0, 0⟩⟩

theorem initial_fresh : initial.Fresh := ⟨fun _ => rfl, fun _ => rfl, fun _ => rfl, fun _ => rfl⟩

end StepState

def oneDevice : Colocation := ⟨1, 1, 1, fun _ => 0⟩

end Awex
