import Awex.ServerKeys
import Awex.UpdateMilestones

namespace Awex

open EventGraph Rounds

/-- What has to have happened in a step before a phase is left. Between two parties it is a
`dist.barrier` or a key of the server. -/
inductive UpdateNeeds (c : Colocation) : Milestone → Milestone → ℕ → Prop where
  | train (r : ℕ) (p : TrainPhase) (hp : p.Reaches (r = 0)) :
      UpdateNeeds c (.train r p) (.train r (p.previous (r = 0))) (if p = .idle then 1 else 0)
  | release (r r' : ℕ) (hr : r < c.trainingWorldSize) (hr' : r' < c.trainingWorldSize) :
      UpdateNeeds c (.train r .releasing) (.train r' .idle) 0
  | seeUpdate (d : ℕ) : UpdateNeeds c (.train d .awaitingUpdate) (.worker d .transferring) 0
  | seeEngines (r e : ℕ) (hr : r < c.trainingWorldSize) (he : e < c.numEngines) :
      UpdateNeeds c (.train r .awaitingEngines) (.engine e .updating) 0
  | finish (r r' : ℕ) (hr : r < c.trainingWorldSize) (hr' : r' < c.trainingWorldSize) :
      UpdateNeeds c (.train r .finishing) (.train r' .awaitingEngines) 0
  | engine (e : ℕ) (p : EnginePhase) :
      UpdateNeeds c (.engine e p) (.engine e p.previous) (if p = .idle then 1 else 0)
  | finishEngine (d : ℕ) (hd : d < c.trainingWorldSize) :
      UpdateNeeds c (.engine (c.engineOf d) .updating) (.worker d .deleting) 0
  | worker (d : ℕ) (p : WorkerPhase) :
      UpdateNeeds c (.worker d p) (.worker d p.previous) (if p = .idle then 1 else 0)
  | startWorker (d : ℕ) (hd : d < c.trainingWorldSize) :
      UpdateNeeds c (.worker d .idle) (.engine (c.engineOf d) .waiting) 0
  | collect (d : ℕ) : UpdateNeeds c (.worker d .collecting) (.train d .serializing) 0
  | synchronize (d d' : ℕ) (hd : d < c.trainingWorldSize) (hd' : d' < c.trainingWorldSize) :
      UpdateNeeds c (.worker d .synchronizing) (.worker d' .transferring) 0
  | close (d : ℕ) : UpdateNeeds c (.worker d .closing) (.train d .written) 0

/-- The request that goes with leaving a phase in step `k`. -/
def request (c : Colocation) (server : MetaServer UpdateKey UpdateObject) (k : ℕ) :
    Milestone → Except (MetaServerError UpdateKey) (MetaServer UpdateKey UpdateObject)
  | .train r .addingOptimizers => server.addObjectToSet .allTrainingOffloadedOptimizers (.rank r)
  | .train r .converting => server.addObjectToSet .allTrainingOffloadedWeights (.rank (c.transferRank r))
  | .train r .serializing =>
    .ok (server.putObject (.trainingSerializedWeights r k) (.serializedWeights (c.transferRank r)))
  | .train r .clearing => .ok (server.deleteIfExists (.weightsUpdateFinished r k))
  | .train r .written => .ok (server.putObject (.writeFinished r k) (.flag true))
  | .train _ .deletingEngines => .ok (server.deleteIfExists .finishedWeightsUpdateEngines)
  | .train _ .deletingOptimizers => .ok (server.deleteIfExists .allTrainingOffloadedOptimizers)
  | .train _ .deletingWeights => .ok (server.deleteIfExists .allTrainingOffloadedWeights)
  | .engine e .updating => server.addObjectToSet .finishedWeightsUpdateEngines (.rank e)
  | .worker d .transferring => .ok (server.putObject (.weightsUpdateFinished d k) (.flag true))
  | .worker d .deleting => server.delete (.writeFinished d k)
  | _ => .ok server

/-- What the server holds, in terms of what has happened. -/
structure Keys (c : Colocation) (n : Milestone → ℕ) (server : MetaServer UpdateKey UpdateObject) : Prop where
  serialized : server.DeviceKeys .trainingSerializedWeights (fun _ => 0) (fun d => n (.train d .serializing))
  updated : server.DeviceKeys .weightsUpdateFinished (fun d => n (.train d .clearing))
    (fun d => n (.worker d .transferring))
  written : server.DeviceKeys .writeFinished (fun d => n (.worker d .deleting)) (fun d => n (.train d .written))
  optimizers : server.IsSetKey .allTrainingOffloadedOptimizers
  weights : server.MemberSet .allTrainingOffloadedWeights (fun r => .rank (c.transferRank r)) c.trainingWorldSize
    (n (.train 0 .deletingWeights)) (fun r => n (.train r .converting))
  engines : server.MemberSet .finishedWeightsUpdateEngines .rank c.numEngines
    (n (.train 0 .deletingEngines)) (fun e => n (.engine e .updating))

section Chains

variable {c : Colocation} {n : Milestone → ℕ} (h : Respects (UpdateNeeds c) n)
include h

theorem train_le {r : ℕ} {p q : TrainPhase} (hp : p.Reaches (r = 0)) (hq : q.Reaches (r = 0))
    (hle : p.index ≤ q.index) : n (.train r q) ≤ n (.train r p) := by
  induction hk : q.index using Nat.strong_induction_on generalizing q with
  | _ k ih =>
    obtain heq | hlt := hle.eq_or_lt
    · rw [TrainPhase.index_inj.mp heq]
    · have hidle : q ≠ .idle := by
        rintro rfl
        cases hlt
      have hstep := h _ _ _ (.train r q hq)
      rw [if_neg hidle] at hstep
      exact hstep.trans (ih _ (hk ▸ TrainPhase.previous_index_lt _ q hidle) (TrainPhase.previous_reaches _ q hq)
        (TrainPhase.le_previous _ p q hp (.inr hlt)) rfl)

theorem train_le_succ {r : ℕ} {p q : TrainPhase} (hp : p.Reaches (r = 0)) (hq : q.Reaches (r = 0)) :
    n (.train r p) ≤ n (.train r q) + 1 := by
  have hfirst : n (.train r p) ≤ n (.train r .idle) := train_le h (.inr rfl) hp (Nat.zero_le _)
  have hagain := h _ _ _ (.train r .idle (.inr rfl))
  have hlast : n (.train r (TrainPhase.idle.previous (r = 0))) ≤ n (.train r q) :=
    train_le h hq (TrainPhase.previous_reaches _ _ (.inr rfl)) (TrainPhase.le_previous _ q _ hq (.inl rfl))
  rw [if_pos rfl] at hagain
  omega

theorem worker_le (d : ℕ) : n (.worker d .deleting) ≤ n (.train d .written) ∧
    n (.train d .clearing) ≤ n (.worker d .transferring) := by
  have hdeleting := h _ _ _ (.worker d .deleting)
  have hclose := h _ _ _ (.close d)
  have hclearing : n (.train d .clearing) ≤ n (.train d .awaitingUpdate) :=
    train_le h (.inr rfl) (.inr rfl) (Nat.le_of_ble_eq_true rfl)
  have hsee := h _ _ _ (.seeUpdate d)
  simp only [WorkerPhase.previous, reduceCtorEq, ↓reduceIte] at hdeleting
  omega

end Chains

/-- The parties that there are, in the phases that they go through. -/
def Milestone.Inside (c : Colocation) : Milestone → Prop
  | .train r p => r < c.trainingWorldSize ∧ p.Reaches (r = 0)
  | .engine e _ => e < c.numEngines
  | .worker d _ => d < c.trainingWorldSize

/-- Every engine has a device, and every device an engine. -/
structure Colocation.Covered (c : Colocation) : Prop where
  engine_lt : ∀ d < c.trainingWorldSize, c.engineOf d < c.numEngines
  device : ∀ e < c.numEngines, ∃ d < c.trainingWorldSize, c.engineOf d = e

section Keys

variable {c : Colocation} {n : Milestone → ℕ} {server server' : MetaServer UpdateKey UpdateObject}

/-- What the keys depend on. -/
def Milestone.Recorded : Milestone → Prop
  | .train _ p => p ∈ [.serializing, .clearing, .written, .converting, .deletingEngines, .deletingWeights]
  | .engine _ p => p = .updating
  | .worker _ p => p = .transferring ∨ p = .deleting

theorem transferRank_injective (c : Colocation) :
    Function.Injective (fun r => UpdateObject.rank (c.transferRank r)) := by
  intro r r' heq
  have := UpdateObject.rank.inj heq
  unfold Colocation.transferRank at this
  omega

section Frame

variable {m : Milestone} {touched : UpdateKey → Prop} (h : Keys c n server)
  (hs : ∀ key, ¬ touched key → server'.storage key = server.storage key)
include h hs

theorem Keys.serialized_frame (htouched : ∀ d j, ¬ touched (.trainingSerializedWeights d j))
    (hm : ∀ d, .train d .serializing ≠ m) : server'.DeviceKeys .trainingSerializedWeights (fun _ => 0)
      (fun d => fire n m (.train d .serializing)) :=
  h.serialized.congr (fun d j => hs _ (htouched d j)) (fun _ => rfl) (fun d => fire_of_ne (hm d))

theorem Keys.updated_frame (htouched : ∀ d j, ¬ touched (.weightsUpdateFinished d j))
    (hm : ∀ d, .train d .clearing ≠ m) (hm' : ∀ d, .worker d .transferring ≠ m) :
    server'.DeviceKeys .weightsUpdateFinished (fun d => fire n m (.train d .clearing))
      (fun d => fire n m (.worker d .transferring)) :=
  h.updated.congr (fun d j => hs _ (htouched d j)) (fun d => fire_of_ne (hm d)) (fun d => fire_of_ne (hm' d))

theorem Keys.written_frame (htouched : ∀ d j, ¬ touched (.writeFinished d j))
    (hm : ∀ d, .worker d .deleting ≠ m) (hm' : ∀ d, .train d .written ≠ m) :
    server'.DeviceKeys .writeFinished (fun d => fire n m (.worker d .deleting))
      (fun d => fire n m (.train d .written)) :=
  h.written.congr (fun d j => hs _ (htouched d j)) (fun d => fire_of_ne (hm d)) (fun d => fire_of_ne (hm' d))

theorem Keys.optimizers_frame (htouched : ¬ touched .allTrainingOffloadedOptimizers) :
    server'.IsSetKey .allTrainingOffloadedOptimizers := by
  intro obj
  rw [hs _ htouched]
  exact h.optimizers obj

theorem Keys.weights_frame (htouched : ¬ touched .allTrainingOffloadedWeights)
    (hm : .train 0 .deletingWeights ≠ m) (hm' : ∀ r, .train r .converting ≠ m) :
    server'.MemberSet .allTrainingOffloadedWeights (fun r => .rank (c.transferRank r)) c.trainingWorldSize
      (fire n m (.train 0 .deletingWeights)) (fun r => fire n m (.train r .converting)) :=
  h.weights.congr (hs _ htouched) (fire_of_ne hm) (fun r => fire_of_ne (hm' r))

theorem Keys.engines_frame (htouched : ¬ touched .finishedWeightsUpdateEngines)
    (hm : .train 0 .deletingEngines ≠ m) (hm' : ∀ e, .engine e .updating ≠ m) :
    server'.MemberSet .finishedWeightsUpdateEngines .rank c.numEngines
      (fire n m (.train 0 .deletingEngines)) (fun e => fire n m (.engine e .updating)) :=
  h.engines.congr (hs _ htouched) (fire_of_ne hm) (fun e => fire_of_ne (hm' e))

end Frame

theorem Keys.fire_serializing (h : Keys c n server) (r : ℕ) (obj : UpdateObject) :
    Keys c (fire n (.train r .serializing))
      (server.putObject (.trainingSerializedWeights r (n (.train r .serializing) + 1)) obj) := by
  have hs : ∀ key, ¬ (∃ j, key = .trainingSerializedWeights r j) → (server.putObject
      (.trainingSerializedWeights r (n (.train r .serializing) + 1)) obj).storage key = server.storage key :=
    fun key hne => MetaServer.storage_store_of_ne _ (fun heq => hne ⟨_, heq⟩) _
  constructor
  · apply h.serialized.put _ (Nat.zero_le _) obj (fun _ => rfl)
    · simp [fire_apply]
    · simp
  · apply h.updated_frame hs <;> simp
  · apply h.written_frame hs <;> simp
  · apply h.optimizers_frame hs
    simp
  · apply h.weights_frame hs <;> simp
  · apply h.engines_frame hs <;> simp

theorem Keys.fire_clearing (h : Keys c n server) (r : ℕ) : Keys c (fire n (.train r .clearing))
    (server.deleteIfExists (.weightsUpdateFinished r (n (.train r .clearing) + 1))) := by
  have hs : ∀ key, ¬ (∃ j, key = .weightsUpdateFinished r j) → (server.deleteIfExists
      (.weightsUpdateFinished r (n (.train r .clearing) + 1))).storage key = server.storage key :=
    fun key hne => MetaServer.deleteIfExists_of_ne _ (fun heq => hne ⟨_, heq⟩)
  constructor
  · apply h.serialized_frame hs <;> simp
  · apply h.updated.remove <;> simp [fire_apply]
  · apply h.written_frame hs <;> simp
  · apply h.optimizers_frame hs
    simp
  · apply h.weights_frame hs <;> simp
  · apply h.engines_frame hs <;> simp

theorem Keys.fire_written (h : Keys c n server) (hn : Respects (UpdateNeeds c) n) (r : ℕ) (obj : UpdateObject) :
    Keys c (fire n (.train r .written)) (server.putObject (.writeFinished r (n (.train r .written) + 1)) obj) := by
  have hs : ∀ key, ¬ (∃ j, key = .writeFinished r j) → (server.putObject
      (.writeFinished r (n (.train r .written) + 1)) obj).storage key = server.storage key :=
    fun key hne => MetaServer.storage_store_of_ne _ (fun heq => hne ⟨_, heq⟩) _
  constructor
  · apply h.serialized_frame hs <;> simp
  · apply h.updated_frame hs <;> simp
  · apply h.written.put _ (worker_le hn r).1 obj <;> simp [fire_apply]
  · apply h.optimizers_frame hs
    simp
  · apply h.weights_frame hs <;> simp
  · apply h.engines_frame hs <;> simp

theorem Keys.fire_transferring (h : Keys c n server) (hn : Respects (UpdateNeeds c) n) (d : ℕ) (obj : UpdateObject) :
    Keys c (fire n (.worker d .transferring))
      (server.putObject (.weightsUpdateFinished d (n (.worker d .transferring) + 1)) obj) := by
  have hs : ∀ key, ¬ (∃ j, key = .weightsUpdateFinished d j) → (server.putObject
      (.weightsUpdateFinished d (n (.worker d .transferring) + 1)) obj).storage key = server.storage key :=
    fun key hne => MetaServer.storage_store_of_ne _ (fun heq => hne ⟨_, heq⟩) _
  constructor
  · apply h.serialized_frame hs <;> simp
  · apply h.updated.put _ (worker_le hn d).2 obj <;> simp [fire_apply]
  · apply h.written_frame hs <;> simp
  · apply h.optimizers_frame hs
    simp
  · apply h.weights_frame hs <;> simp
  · apply h.engines_frame hs <;> simp

theorem Keys.fire_deleting (h : Keys c n server) (d : ℕ) : Keys c (fire n (.worker d .deleting))
    (server.deleteIfExists (.writeFinished d (n (.worker d .deleting) + 1))) := by
  have hs : ∀ key, ¬ (∃ j, key = .writeFinished d j) → (server.deleteIfExists
      (.writeFinished d (n (.worker d .deleting) + 1))).storage key = server.storage key :=
    fun key hne => MetaServer.deleteIfExists_of_ne _ (fun heq => hne ⟨_, heq⟩)
  constructor
  · apply h.serialized_frame hs <;> simp
  · apply h.updated_frame hs <;> simp
  · apply h.written.remove <;> simp [fire_apply]
  · apply h.optimizers_frame hs
    simp
  · apply h.weights_frame hs <;> simp
  · apply h.engines_frame hs <;> simp

theorem Keys.fire_converting (h : Keys c n server) (hn : Respects (UpdateNeeds c) n) {r : ℕ}
    (hr : r < c.trainingWorldSize)
    (hadd : server.addObjectToSet .allTrainingOffloadedWeights (.rank (c.transferRank r)) = .ok server') :
    Keys c (fire n (.train r .converting)) server' := by
  have hs : ∀ key, ¬ (key = .allTrainingOffloadedWeights) → server'.storage key = server.storage key :=
    fun key hne => MetaServer.addObjectToSet_of_ne hadd hne
  -- rank 0 has not deleted the set in this step: that comes after all ranks have seen the engines
  have hle : n (.train 0 .deletingWeights) ≤ n (.train r .converting) := by
    have hdeleting : n (.train 0 .deletingWeights) ≤ n (.train 0 .finishing) :=
      train_le hn (.inr rfl) (.inl rfl) (Nat.le_of_ble_eq_true rfl)
    have hfinish := hn _ _ _ (.finish 0 r (Nat.zero_lt_of_lt hr) hr)
    have hengines : n (.train r .awaitingEngines) ≤ n (.train r .converting) :=
      train_le hn (.inr rfl) (.inr rfl) (Nat.le_of_ble_eq_true rfl)
    omega
  constructor
  · apply h.serialized_frame hs <;> simp
  · apply h.updated_frame hs <;> simp
  · apply h.written_frame hs <;> simp
  · apply h.optimizers_frame hs
    simp
  · apply h.weights.add (transferRank_injective c) hr hadd hle <;> simp [fire_apply]
  · apply h.engines_frame hs <;> simp

theorem Keys.fire_deletingWeights (h : Keys c n server) (hn : Respects (UpdateNeeds c) n)
    (hT : 0 < c.trainingWorldSize) : Keys c (fire n (.train 0 .deletingWeights))
      (server.deleteIfExists .allTrainingOffloadedWeights) := by
  have hs : ∀ key, ¬ (key = .allTrainingOffloadedWeights) →
      (server.deleteIfExists .allTrainingOffloadedWeights).storage key = server.storage key :=
    fun key hne => MetaServer.deleteIfExists_of_ne _ hne
  constructor
  · apply h.serialized_frame hs <;> simp
  · apply h.updated_frame hs <;> simp
  · apply h.written_frame hs <;> simp
  · apply h.optimizers_frame hs
    simp
  · apply MetaServer.MemberSet.clear
    intro r hr
    have hreleased : n (.train r .converting) ≤ n (.train r .releasing) :=
      train_le hn (.inr rfl) (.inr rfl) (Nat.le_of_ble_eq_true rfl)
    have hrelease := hn _ _ _ (.release r 0 hr hT)
    have hlast : n (.train 0 .idle) ≤ n (.train 0 .deletingWeights) + 1 := train_le_succ hn (.inr rfl) (.inl rfl)
    rw [fire_self, fire_of_ne (by simp)]
    omega
  · apply h.engines_frame hs <;> simp

theorem Keys.fire_updating (h : Keys c n server) (hn : Respects (UpdateNeeds c) n) (hT : 0 < c.trainingWorldSize)
    {e : ℕ} (he : e < c.numEngines)
    (hadd : server.addObjectToSet .finishedWeightsUpdateEngines (.rank e) = .ok server') :
    Keys c (fire n (.engine e .updating)) server' := by
  have hs : ∀ key, ¬ (key = .finishedWeightsUpdateEngines) → server'.storage key = server.storage key :=
    fun key hne => MetaServer.addObjectToSet_of_ne hadd hne
  have hle : n (.train 0 .deletingEngines) ≤ n (.engine e .updating) := by
    have hdeleting : n (.train 0 .deletingEngines) ≤ n (.train 0 .awaitingEngines) :=
      train_le hn (.inr rfl) (.inl rfl) (Nat.le_of_ble_eq_true rfl)
    have hengines := hn _ _ _ (.seeEngines 0 e hT he)
    omega
  constructor
  · apply h.serialized_frame hs <;> simp
  · apply h.updated_frame hs <;> simp
  · apply h.written_frame hs <;> simp
  · apply h.optimizers_frame hs
    simp
  · apply h.weights_frame hs <;> simp
  · apply h.engines.add (fun _ _ heq => UpdateObject.rank.inj heq) he hadd hle <;> simp [fire_apply]

theorem Keys.fire_deletingEngines (h : Keys c n server) (hn : Respects (UpdateNeeds c) n) (hc : c.Covered)
    (hT : 0 < c.trainingWorldSize) : Keys c (fire n (.train 0 .deletingEngines))
      (server.deleteIfExists .finishedWeightsUpdateEngines) := by
  have hs : ∀ key, ¬ (key = .finishedWeightsUpdateEngines) →
      (server.deleteIfExists .finishedWeightsUpdateEngines).storage key = server.storage key :=
    fun key hne => MetaServer.deleteIfExists_of_ne _ hne
  constructor
  · apply h.serialized_frame hs <;> simp
  · apply h.updated_frame hs <;> simp
  · apply h.written_frame hs <;> simp
  · apply h.optimizers_frame hs
    simp
  · apply h.weights_frame hs <;> simp
  · apply MetaServer.MemberSet.clear
    intro e he
    -- an engine has finished no step that a rank it serves has not written
    obtain ⟨d, hd, rfl⟩ := hc.device e he
    have hfinished := hn _ _ _ (.finishEngine d hd)
    have hdeleted := (worker_le hn d).1
    have hwritten : n (.train d .written) ≤ n (.train d .releasing) :=
      train_le hn (.inr rfl) (.inr rfl) (Nat.le_of_ble_eq_true rfl)
    have hrelease := hn _ _ _ (.release d 0 hd hT)
    have hlast : n (.train 0 .idle) ≤ n (.train 0 .deletingEngines) + 1 := train_le_succ hn (.inr rfl) (.inl rfl)
    rw [fire_self, fire_of_ne (by simp)]
    omega

theorem Keys.of_optimizers (h : Keys c n server) {m : Milestone} (hm : ¬ m.Recorded)
    (hs : ∀ key, key ≠ .allTrainingOffloadedOptimizers → server'.storage key = server.storage key)
    (hset : server'.IsSetKey .allTrainingOffloadedOptimizers) : Keys c (fire n m) server' := by
  have hne : ∀ m' : Milestone, m'.Recorded → m' ≠ m := by
    rintro m' hm' rfl
    exact hm hm'
  constructor
  · apply h.serialized_frame hs
    · simp
    · exact fun d => hne _ (by simp [Milestone.Recorded])
  · apply h.updated_frame hs
    · simp
    · exact fun d => hne _ (by simp [Milestone.Recorded])
    · exact fun d => hne _ (by simp [Milestone.Recorded])
  · apply h.written_frame hs
    · simp
    · exact fun d => hne _ (by simp [Milestone.Recorded])
    · exact fun d => hne _ (by simp [Milestone.Recorded])
  · exact hset
  · apply h.weights_frame hs
    · simp
    · exact hne _ (by simp [Milestone.Recorded])
    · exact fun r => hne _ (by simp [Milestone.Recorded])
  · apply h.engines_frame hs
    · simp
    · exact hne _ (by simp [Milestone.Recorded])
    · exact fun e => hne _ (by simp [Milestone.Recorded])

theorem Keys.of_quiet (h : Keys c n server) {m : Milestone} (hm : ¬ m.Recorded) (hserver : server' = server) :
    Keys c (fire n m) server' :=
  h.of_optimizers hm (fun _ _ => by rw [hserver]) (hserver ▸ h.optimizers)

theorem Keys.fire (h : Keys c n server) (hn : Respects (UpdateNeeds c) n) (hc : c.Covered) {m : Milestone}
    (hm : m.Inside c) (hrequest : request c server (n m + 1) m = .ok server') : Keys c (fire n m) server' := by
  cases m with
  | train r p =>
    obtain ⟨hr, hp⟩ := hm
    have hT := Nat.zero_lt_of_lt hr
    cases p with
    | addingOptimizers =>
      obtain ⟨added, hok, hset, -, hs⟩ := MetaServer.addObjectToSet_spec h.optimizers (.rank r)
      obtain rfl := Except.ok.inj (hok.symm.trans hrequest)
      exact h.of_optimizers (by simp [Milestone.Recorded]) hs hset
    | converting => exact h.fire_converting hn hr hrequest
    | serializing =>
      obtain rfl := Except.ok.inj hrequest
      exact h.fire_serializing r _
    | clearing =>
      obtain rfl := Except.ok.inj hrequest
      exact h.fire_clearing r
    | written =>
      obtain rfl := Except.ok.inj hrequest
      exact h.fire_written hn r _
    | deletingEngines =>
      obtain rfl : r = 0 := by simpa [TrainPhase.Reaches, TrainPhase.ofFirst] using hp
      obtain rfl := Except.ok.inj hrequest
      exact h.fire_deletingEngines hn hc hT
    | deletingOptimizers =>
      obtain rfl := Except.ok.inj hrequest
      exact h.of_optimizers (by simp [Milestone.Recorded]) (fun _ hne => MetaServer.deleteIfExists_of_ne _ hne)
        (MetaServer.deleteIfExists_isSetKey _ _)
    | deletingWeights =>
      obtain rfl : r = 0 := by simpa [TrainPhase.Reaches, TrainPhase.ofFirst] using hp
      obtain rfl := Except.ok.inj hrequest
      exact h.fire_deletingWeights hn hT
    | _ => exact h.of_quiet (by simp [Milestone.Recorded]) (Except.ok.inj hrequest).symm
  | engine e p =>
    cases p with
    | updating =>
      obtain ⟨d, hd, -⟩ := hc.device e hm
      exact h.fire_updating hn (Nat.zero_lt_of_lt hd) hm hrequest
    | _ => exact h.of_quiet (by simp [Milestone.Recorded]) (Except.ok.inj hrequest).symm
  | worker d p =>
    cases p with
    | transferring =>
      obtain rfl := Except.ok.inj hrequest
      exact h.fire_transferring hn d _
    | deleting =>
      rw [← MetaServer.deleteIfExists_of_delete hrequest]
      exact h.fire_deleting d
    | _ => exact h.of_quiet (by simp [Milestone.Recorded]) (Except.ok.inj hrequest).symm

end Keys

end Awex
