import Awex.UpdateHandoff

namespace Awex

open EventGraph Rounds Runs

/-- As long as no engine is ahead of the ranks, an engine resumes its weights when all ranks have
offloaded theirs in the same step. -/
inductive UpdateWaits (c : Colocation) : Milestone → Milestone → ℕ → Prop where
  | needs (m m' : Milestone) (lag : ℕ) (h : UpdateNeeds c m m' lag) : UpdateWaits c m m' lag
  | resume (e r : ℕ) (hr : r < c.trainingWorldSize) : UpdateWaits c (.engine e .waiting) (.train r .converting) 0

/-- An order within one step in which every party finds what it waits for. -/
def Milestone.rank : Milestone → ℕ
  | .train _ .idle => 0
  | .train _ .releasing => 1
  | .train _ .addingOptimizers => 2
  | .train _ .converting => 3
  | .train _ .serializing => 4
  | .engine _ .idle => 0
  | .engine _ .waiting => 4
  | .worker _ .idle => 5
  | .worker _ .collecting => 6
  | .worker _ .transferring => 7
  | .worker _ .synchronizing => 8
  | .train _ .awaitingUpdate => 8
  | .train _ .clearing => 9
  | .train _ .written => 10
  | .worker _ .closing => 11
  | .worker _ .deleting => 12
  | .engine _ .updating => 13
  | .train _ .awaitingEngines => 14
  | .train _ .finishing => 15
  | .train _ .deletingEngines => 16
  | .train _ .deletingOptimizers => 17
  | .train _ .deletingWeights => 18

theorem TrainPhase.rank_previous (r : ℕ) (p : TrainPhase) (hp : p ≠ .idle) :
    (Milestone.train r (p.previous (r = 0))).rank < (Milestone.train r p).rank := by
  revert hp
  by_cases hr : r = 0 <;> cases p <;> simp [hr, TrainPhase.previous, Milestone.rank]

theorem EnginePhase.rank_previous (e : ℕ) (p : EnginePhase) (hp : p ≠ .idle) :
    (Milestone.engine e p.previous).rank < (Milestone.engine e p).rank := by
  revert hp
  cases p <;> simp [EnginePhase.previous, Milestone.rank]

theorem WorkerPhase.rank_previous (d : ℕ) (p : WorkerPhase) (hp : p ≠ .idle) :
    (Milestone.worker d p.previous).rank < (Milestone.worker d p).rank := by
  revert hp
  cases p <;> simp [WorkerPhase.previous, Milestone.rank]

theorem UpdateWaits.rank_lt {c : Colocation} {m m' : Milestone} (h : UpdateWaits c m m' 0) : m'.rank < m.rank := by
  generalize hlag : 0 = lag at h
  cases h with
  | resume => simp [Milestone.rank]
  | needs _ _ _ h =>
    cases h with
    | train r p hp =>
      apply TrainPhase.rank_previous
      rintro rfl
      cases hlag
    | engine e p =>
      apply EnginePhase.rank_previous
      rintro rfl
      cases hlag
    | worker d p =>
      apply WorkerPhase.rank_previous
      rintro rfl
      cases hlag
    | _ => simp [Milestone.rank]

def TrainPhase.all : List TrainPhase :=
  [.idle, .releasing, .addingOptimizers, .converting, .serializing, .awaitingUpdate, .clearing, .written,
    .awaitingEngines, .finishing, .deletingEngines, .deletingOptimizers, .deletingWeights]

def EnginePhase.all : List EnginePhase := [.idle, .waiting, .updating]

def WorkerPhase.all : List WorkerPhase := [.idle, .collecting, .transferring, .synchronizing, .closing, .deleting]

/-- The milestones of one update, each once. -/
def updateMilestones (c : Colocation) : Finset Milestone :=
  ((Finset.range c.trainingWorldSize).biUnion (fun r =>
      ((TrainPhase.all.filter (·.Reaches (r = 0))).map (Milestone.train r)).toFinset) ∪
    (Finset.range c.numEngines).biUnion (fun e => (EnginePhase.all.map (Milestone.engine e)).toFinset)) ∪
    (Finset.range c.trainingWorldSize).biUnion (fun d => (WorkerPhase.all.map (Milestone.worker d)).toFinset)

theorem mem_updateMilestones {c : Colocation} {m : Milestone} : m ∈ updateMilestones c ↔ m.Inside c := by
  have htrain : ∀ p : TrainPhase, p ∈ TrainPhase.all := by
    intro p
    cases p <;> decide
  have hengine : ∀ p : EnginePhase, p ∈ EnginePhase.all := by
    intro p
    cases p <;> decide
  have hworker : ∀ p : WorkerPhase, p ∈ WorkerPhase.all := by
    intro p
    cases p <;> decide
  cases m <;> simp [updateMilestones, Milestone.Inside, htrain, hengine, hworker]

theorem card_updateMilestones (c : Colocation) :
    (updateMilestones c).card ≤ 19 * c.trainingWorldSize + 3 * c.numEngines := by
  have htrain := Finset.card_biUnion_le_card_mul (Finset.range c.trainingWorldSize)
    (fun r => ((TrainPhase.all.filter (·.Reaches (r = 0))).map (Milestone.train r)).toFinset) 13 (fun r _ => by
      apply (List.toFinset_card_le _).trans
      rw [List.length_map]
      exact List.length_filter_le _ TrainPhase.all)
  have hengine := Finset.card_biUnion_le_card_mul (Finset.range c.numEngines)
    (fun e => (EnginePhase.all.map (Milestone.engine e)).toFinset) 3 (fun e _ => List.toFinset_card_le _)
  have hworker := Finset.card_biUnion_le_card_mul (Finset.range c.trainingWorldSize)
    (fun d => (WorkerPhase.all.map (Milestone.worker d)).toFinset) 6 (fun d _ => List.toFinset_card_le _)
  rw [Finset.card_range] at htrain hengine hworker
  unfold updateMilestones
  have hunion := Finset.card_union_le ((Finset.range c.trainingWorldSize).biUnion (fun r =>
      ((TrainPhase.all.filter (·.Reaches (r = 0))).map (Milestone.train r)).toFinset) ∪
    (Finset.range c.numEngines).biUnion (fun e => (EnginePhase.all.map (Milestone.engine e)).toFinset))
    ((Finset.range c.trainingWorldSize).biUnion (fun d => (WorkerPhase.all.map (Milestone.worker d)).toFinset))
  have hunion' := Finset.card_union_le ((Finset.range c.trainingWorldSize).biUnion (fun r =>
      ((TrainPhase.all.filter (·.Reaches (r = 0))).map (Milestone.train r)).toFinset))
    ((Finset.range c.numEngines).biUnion (fun e => (EnginePhase.all.map (Milestone.engine e)).toFinset))
  omega

theorem UpdateWaits.inside {c : Colocation} (hc : c.Covered) {m m' : Milestone} {lag : ℕ} (h : UpdateWaits c m m' lag)
    (hm : m.Inside c) : m'.Inside c := by
  cases h with
  | resume e r hr => exact ⟨hr, .inr rfl⟩
  | needs _ _ _ h =>
    cases h with
    | train r p hp => exact ⟨hm.1, TrainPhase.previous_reaches _ p hp⟩
    | release _ r' _ hr' => exact ⟨hr', .inr rfl⟩
    | seeUpdate d => exact hm.1
    | seeEngines r e _ he => exact he
    | finish _ r' _ hr' => exact ⟨hr', .inr rfl⟩
    | engine e p => exact hm
    | finishEngine d hd => exact hd
    | worker d p => exact hm
    | startWorker d hd => exact hc.engine_lt d hd
    | collect d => exact ⟨hm, .inr rfl⟩
    | synchronize _ d' _ hd' => exact hd'
    | close d => exact ⟨hm, .inr rfl⟩

namespace StepState

/-- No more than `K` updates are asked for. -/
structure Requested (K : ℕ) (s : StepState) : Prop where
  train : ∀ r, (s.train r).step ≤ K
  engine : ∀ e, (s.engine e).step ≤ K

/-- All parties are through with `K` updates. -/
structure Completed (K : ℕ) (c : Colocation) (s : StepState) : Prop where
  train : ∀ r < c.trainingWorldSize, (s.train r).phase = .idle ∧ (s.train r).step = K
  engine : ∀ e < c.numEngines, (s.engine e).phase = .idle ∧ (s.engine e).step = K
  worker : ∀ d < c.trainingWorldSize, (s.worker d).phase = .idle ∧ (s.worker d).step = K

variable {s : StepState} {c : Colocation} {K : ℕ}

theorem Requested.setTrain (h : s.Requested K) {r : ℕ} {rank : TrainRank} (hstep : rank.step ≤ K)
    (server : MetaServer UpdateKey UpdateObject) : ((s.setTrain r rank).serve server).Requested K := by
  constructor
  · intro r'
    rw [serve_train, setTrain_train]
    split_ifs
    · exact hstep
    · exact h.train r'
  · exact h.engine

theorem Requested.setEngine (h : s.Requested K) {e : ℕ} {engine : EngineState} (hstep : engine.step ≤ K)
    (server : MetaServer UpdateKey UpdateObject) : ((s.setEngine e engine).serve server).Requested K := by
  constructor
  · exact h.train
  · intro e'
    rw [serve_engine, setEngine_engine]
    split_ifs
    · exact hstep
    · exact h.engine e'

section Takes

variable (h : s.InStep c) (hK : s.Requested K)
include h

theorem InStep.train_at {r : ℕ} {p : TrainPhase} (hp : p.Reaches (r = 0))
    (henabled : Enabled (UpdateWaits c) s.count (.train r p)) : (s.train r).phase = p := by
  -- a rank that has left the phase before a phase once more is in that phase
  have hlt := henabled _ _ (.needs _ _ _ (.train r p hp))
  simp only [count, if_pos hp, if_pos (TrainPhase.previous_reaches _ p hp)] at hlt
  by_cases hidle : p = .idle
  · subst hidle
    rw [if_pos rfl] at hlt
    apply TrainPhase.index_eq_zero.mp
    apply between_of_left _ _ hlt
    · exact fun h0 => (h.parties.train_inside r (fun heq => h0 (TrainPhase.index_eq_zero.mpr heq))).2
    · exact TrainPhase.le_previous _ _ _ (h.parties.train_reaches r) (.inl rfl)
  · rw [if_neg hidle] at hlt
    apply TrainPhase.index_inj.mp
    refine at_of_left ?_ hlt
    by_cases hle : p.index ≤ (s.train r).phase.index
    · exact .inr hle
    · exact .inl (TrainPhase.le_previous _ _ _ (h.parties.train_reaches r) (.inr (not_le.mp hle)))

theorem InStep.engine_at {e : ℕ} {p : EnginePhase} (henabled : Enabled (UpdateWaits c) s.count (.engine e p)) :
    (s.engine e).phase = p := by
  have hlt := henabled _ _ (.needs _ _ _ (.engine e p))
  simp only [count] at hlt
  by_cases hidle : p = .idle
  · subst hidle
    rw [if_pos rfl] at hlt
    apply EnginePhase.index_inj.mp
    apply between_of_left _ _ hlt
    · exact fun h0 => (h.parties.engine_inside e (fun heq => h0 (by rw [heq]; rfl))).2
    · cases (s.engine e).phase <;> decide
  · rw [if_neg hidle] at hlt
    apply EnginePhase.index_inj.mp
    refine at_of_left ?_ hlt
    revert hidle
    cases p <;> cases (s.engine e).phase <;> decide

theorem InStep.worker_at {d : ℕ} {p : WorkerPhase} (henabled : Enabled (UpdateWaits c) s.count (.worker d p)) :
    (s.worker d).phase = p := by
  have hlt := henabled _ _ (.needs _ _ _ (.worker d p))
  simp only [count] at hlt
  by_cases hidle : p = .idle
  · subst hidle
    rw [if_pos rfl] at hlt
    apply WorkerPhase.index_inj.mp
    apply between_of_left _ _ hlt
    · exact fun h0 => (h.parties.worker_inside d (fun heq => h0 (by rw [heq]; rfl))).2
    · cases (s.worker d).phase <;> decide
  · rw [if_neg hidle] at hlt
    apply WorkerPhase.index_inj.mp
    refine at_of_left ?_ hlt
    revert hidle
    cases p <;> cases (s.worker d).phase <;> decide

theorem InStep.engines_listed (hT : 0 < c.trainingWorldSize) {r : ℕ} (hr : r < c.trainingWorldSize)
    (hall : ∀ e < c.numEngines, s.count (.train r .awaitingEngines) < s.count (.engine e .updating)) :
    ∃ k, lenOf (s.server.getObject .finishedWeightsUpdateEngines (some (.members ∅))) = some k ∧ c.numEngines ≤ k := by
  refine ⟨_, MetaServer.lenOf_getObject h.keys.engines.isSet, ?_⟩
  apply h.keys.engines.le_card (fun _ _ heq => UpdateObject.rank.inj heq)
  intro e he
  have hdeleted : s.count (.train 0 .deletingEngines) ≤ s.count (.train 0 .finishing) :=
    train_le h.order (.inr rfl) (.inl rfl) (Nat.le_of_ble_eq_true rfl)
  have hfinish := h.order _ _ _ (.finish 0 r hT hr)
  have := hall e he
  omega

theorem InStep.weights_listed (hT : 0 < c.trainingWorldSize) {e : ℕ} (he : e < c.numEngines)
    (hall : ∀ r < c.trainingWorldSize, s.count (.engine e .waiting) < s.count (.train r .converting)) :
    ∃ k, lenOf (s.server.getObject .allTrainingOffloadedWeights (some (.members ∅))) = some k ∧
      c.trainingWorldSize ≤ k := by
  refine ⟨_, MetaServer.lenOf_getObject h.keys.weights.isSet, ?_⟩
  apply h.keys.weights.le_card (transferRank_injective c)
  intro r hr
  have hdeleted : s.count (.train 0 .deletingWeights) ≤ s.count (.train 0 .awaitingEngines) :=
    train_le h.order (.inr rfl) (.inl rfl) (Nat.le_of_ble_eq_true rfl)
  have hsee := h.order _ _ _ (.seeEngines 0 e hT he)
  have hupdating := h.order _ _ _ (.engine e .updating)
  have := hall r hr
  simp only [EnginePhase.previous, reduceCtorEq, ↓reduceIte] at hupdating
  omega

include hK

theorem InStep.train_takes {r : ℕ} {p : TrainPhase} (hr : r < c.trainingWorldSize) (hp : p.Reaches (r = 0))
    (hlt : s.count (.train r p) < K) (henabled : Enabled (UpdateWaits c) s.count (.train r p)) :
    ∃ s', UpdateStep c s s' ∧ s'.Requested K := by
  have hT := Nat.zero_lt_of_lt hr
  have hphase := h.train_at hp henabled
  have hkeep : ∀ (rank : TrainRank) (server : MetaServer UpdateKey UpdateObject), rank.step = (s.train r).step →
      ((s.setTrain r rank).serve server).Requested K := by
    intro rank server hsame
    exact hK.setTrain (hsame ▸ hK.train r) server
  cases p with
  | idle =>
    rw [count_idle] at hlt
    refine ⟨_, .startTrain s r hr hphase, ?_⟩
    apply hK.setTrain _ s.server
    exact hlt
  | releasing =>
    refine ⟨_, .passRelease s r hphase ?_, hkeep _ _ rfl⟩
    intro r' hr'
    exact (h.barriers_releasing hphase).mpr (henabled _ _ (.needs _ _ _ (.release r r' hr hr')))
  | addingOptimizers =>
    obtain ⟨server, hadd, -⟩ := MetaServer.addObjectToSet_spec h.keys.optimizers (.rank r)
    exact ⟨_, .addOptimizers s r server hphase hadd, hkeep _ _ rfl⟩
  | converting =>
    obtain ⟨server, hadd, -⟩ := MetaServer.addObjectToSet_spec h.keys.weights.isSet (.rank (c.transferRank r))
    exact ⟨_, .offloadWeights s r server hphase hadd, hkeep _ _ rfl⟩
  | serializing => exact ⟨_, .putSerialized s r hphase, hkeep _ _ rfl⟩
  | awaitingUpdate =>
    refine ⟨_, .seeUpdate s r hphase ?_, hkeep _ _ rfl⟩
    have hcount := h.parties.count_train hphase (by simp)
    have hupdated := henabled _ _ (.needs _ _ _ (.seeUpdate r))
    have hcleared : s.count (.train r .clearing) ≤ s.count (.train r .awaitingUpdate) :=
      train_le h.order (.inr rfl) (.inr rfl) (Nat.le_of_ble_eq_true rfl)
    apply (h.keys.updated r _).mpr
    dsimp only
    omega
  | clearing => exact ⟨_, .clearUpdate s r hphase, hkeep _ _ rfl⟩
  | written => exact ⟨_, .putWritten s r hphase, hkeep _ _ rfl⟩
  | awaitingEngines =>
    obtain ⟨k, hlen, hk⟩ := h.engines_listed hT hr
      (fun e he => henabled _ _ (.needs _ _ _ (.seeEngines r e hr he)))
    exact ⟨_, .seeEngines s r k hphase hlen hk, hkeep _ _ rfl⟩
  | finishing =>
    refine ⟨_, .passFinish s r hphase ?_, hkeep _ _ rfl⟩
    intro r' hr'
    exact (h.barriers_finishing hphase).mpr (henabled _ _ (.needs _ _ _ (.finish r r' hr hr')))
  | deletingEngines => exact ⟨_, .deleteEngines s r hphase, hkeep _ _ rfl⟩
  | deletingOptimizers => exact ⟨_, .deleteOptimizers s r hphase, hkeep _ _ rfl⟩
  | deletingWeights => exact ⟨_, .deleteWeights s r hphase, hkeep _ _ rfl⟩

theorem InStep.engine_takes (hT : 0 < c.trainingWorldSize) {e : ℕ} {p : EnginePhase} (he : e < c.numEngines)
    (hlt : s.count (.engine e p) < K) (henabled : Enabled (UpdateWaits c) s.count (.engine e p)) :
    ∃ s', UpdateStep c s s' ∧ s'.Requested K := by
  have hphase := h.engine_at henabled
  have hkeep : ∀ (engine : EngineState) (server : MetaServer UpdateKey UpdateObject),
      engine.step = (s.engine e).step → ((s.setEngine e engine).serve server).Requested K := by
    intro engine server hsame
    exact hK.setEngine (hsame ▸ hK.engine e) server
  cases p with
  | idle =>
    have hidle : s.count (.engine e .idle) = (s.engine e).step := left_zero _ _
    rw [hidle] at hlt
    refine ⟨_, .startEngine s e he hphase, ?_⟩
    apply hK.setEngine _ s.server
    exact hlt
  | waiting =>
    obtain ⟨k, hlen, hk⟩ := h.weights_listed hT he (fun r hr => henabled _ _ (.resume e r hr))
    exact ⟨_, .resumeWeights s e k hphase hlen hk, hkeep _ _ rfl⟩
  | updating =>
    obtain ⟨server, hadd, -⟩ := MetaServer.addObjectToSet_spec h.keys.engines.isSet (.rank e)
    refine ⟨_, .finishEngine s e server hphase ?_ hadd, hkeep _ _ rfl⟩
    intro d hd hde
    have hcount := h.parties.count_engine hphase (by simp)
    have hfinish := henabled (.worker d .deleting) 0 (.needs _ _ _ (hde ▸ .finishEngine d hd))
    have hstart := h.order _ _ _ (.startWorker d hd)
    have hwaiting : s.count (.engine (c.engineOf d) .waiting) ≤ (s.engine (c.engineOf d)).step := left_le _ _ _
    have hidle : s.count (.worker d .idle) = (s.worker d).step := left_zero _ _
    have hdeleting : s.count (.worker d .deleting) ≤ (s.worker d).step := left_le _ _ _
    rw [hde] at hstart hwaiting
    have hstep : (s.worker d).step = (s.engine e).step := by
      omega
    refine ⟨?_, hstep⟩
    by_contra hbusy
    have hpos := (h.parties.worker_inside d hbusy).2
    have hbehind : s.count (.worker d .deleting) = (s.worker d).step - 1 := by
      apply left_of_le (WorkerPhase.index_ne_zero hbusy)
      cases (s.worker d).phase <;> decide
    omega

theorem InStep.worker_takes {d : ℕ} {p : WorkerPhase} (hd : d < c.trainingWorldSize)
    (henabled : Enabled (UpdateWaits c) s.count (.worker d p)) : ∃ s', UpdateStep c s s' ∧ s'.Requested K := by
  have hphase := h.worker_at henabled
  have hK' : ∀ (worker : WorkerState) (server : MetaServer UpdateKey UpdateObject),
      ((s.setWorker d worker).serve server).Requested K := fun _ _ => ⟨hK.train, hK.engine⟩
  cases p with
  | idle =>
    have hidle : s.count (.worker d .idle) = (s.worker d).step := left_zero _ _
    have hdeleting : s.count (.worker d .deleting) ≤ (s.worker d).step := left_le _ _ _
    have hstart := henabled _ _ (.needs _ _ _ (.startWorker d hd))
    have hfinish := h.order _ _ _ (.finishEngine d hd)
    have hwaiting : s.count (.engine (c.engineOf d) .waiting) ≤ (s.engine (c.engineOf d)).step := left_le _ _ _
    have hlt : left (s.engine (c.engineOf d)).step (s.engine (c.engineOf d)).phase.index EnginePhase.updating.index <
        left (s.engine (c.engineOf d)).step (s.engine (c.engineOf d)).phase.index EnginePhase.waiting.index := by
      simp only [count] at hstart hfinish hidle hdeleting
      omega
    have hupdating : (s.engine (c.engineOf d)).phase.index = EnginePhase.updating.index := by
      refine at_of_left ?_ hlt
      cases (s.engine (c.engineOf d)).phase <;> decide
    exact ⟨_, .startWorker s d hd hphase (EnginePhase.index_inj.mp hupdating) (by omega), hK' _ s.server⟩
  | collecting =>
    refine ⟨_, .collect s d hphase ?_, hK' _ s.server⟩
    have hcount := h.parties.count_worker hphase (by simp)
    have hcollect := henabled _ _ (.needs _ _ _ (.collect d))
    apply (h.keys.serialized d _).mpr
    dsimp only
    omega
  | transferring => exact ⟨_, .putUpdated s d hphase, hK' _ _⟩
  | synchronizing =>
    refine ⟨_, .passUpdate s d hphase ?_, hK' _ s.server⟩
    intro d' hd'
    exact (h.barriers_synchronizing hphase).mpr (henabled _ _ (.needs _ _ _ (.synchronize d d' hd hd')))
  | closing =>
    refine ⟨_, .seeWritten s d hphase ?_, hK' _ s.server⟩
    have hcount := h.parties.count_worker hphase (by simp)
    have hclose := henabled _ _ (.needs _ _ _ (.close d))
    have hdeleting : s.count (.worker d .deleting) ≤ s.count (.worker d .closing) := by
      simpa [WorkerPhase.previous] using h.order _ _ _ (.worker d .deleting)
    apply (h.keys.written d _).mpr
    dsimp only
    omega
  | deleting =>
    obtain ⟨server, hdelete⟩ := h.handedOver.deletes d hphase
    exact ⟨_, .deleteWritten s d server hphase hdelete, hK' _ server⟩

end Takes

theorem InStep.count_le (h : s.InStep c) (hK : s.Requested K) {m : Milestone} (hm : m.Inside c) : s.count m ≤ K := by
  cases m with
  | train r p =>
    simp only [count, if_pos hm.2]
    exact (left_le _ _ _).trans (hK.train r)
  | engine e p => exact (left_le _ _ _).trans (hK.engine e)
  | worker d p =>
    have hleft : s.count (.worker d p) ≤ (s.worker d).step := left_le _ _ _
    have hidle : s.count (.worker d .idle) = (s.worker d).step := left_zero _ _
    have hstart := h.order _ _ _ (.startWorker d hm)
    have hwaiting : s.count (.engine (c.engineOf d) .waiting) ≤ (s.engine (c.engineOf d)).step := left_le _ _ _
    have := hK.engine (c.engineOf d)
    omega

theorem InStep.completed (h : s.InStep c) (hK : s.Requested K) (hall : ∀ m ∈ updateMilestones c, K ≤ s.count m) :
    s.Completed K c := by
  constructor
  · intro r hr
    have hlast : K ≤ s.count (.train r (TrainPhase.idle.previous (r = 0))) :=
      hall _ (mem_updateMilestones.mpr ⟨hr, TrainPhase.previous_reaches _ _ (.inr rfl)⟩)
    have hstep := hK.train r
    simp only [count, if_pos (TrainPhase.previous_reaches (decide (r = 0)) .idle (.inr rfl))] at hlast
    have hle := left_le (s.train r).step (s.train r).phase.index (TrainPhase.idle.previous (r = 0)).index
    refine ⟨?_, by omega⟩
    by_contra hbusy
    have hpos := (h.parties.train_inside r hbusy).2
    rw [left_of_le (fun h0 => hbusy (TrainPhase.index_eq_zero.mp h0))
      (TrainPhase.le_previous _ _ _ (h.parties.train_reaches r) (.inl rfl))] at hlast
    omega
  · intro e he
    have hlast : K ≤ left (s.engine e).step (s.engine e).phase.index EnginePhase.updating.index :=
      hall (.engine e .updating) (mem_updateMilestones.mpr he)
    have hstep := hK.engine e
    have hle := left_le (s.engine e).step (s.engine e).phase.index EnginePhase.updating.index
    refine ⟨?_, by omega⟩
    by_contra hbusy
    have hpos := (h.parties.engine_inside e hbusy).2
    rw [left_of_le (EnginePhase.index_ne_zero hbusy) (by cases (s.engine e).phase <;> decide)] at hlast
    omega
  · intro d hd
    have hinside : (Milestone.worker d .deleting).Inside c := hd
    have hlast : K ≤ left (s.worker d).step (s.worker d).phase.index WorkerPhase.deleting.index :=
      hall _ (mem_updateMilestones.mpr hinside)
    have hidle : s.count (.worker d .idle) = (s.worker d).step := left_zero _ _
    have hstep := h.count_le hK (show (Milestone.worker d .idle).Inside c from hd)
    have hle := left_le (s.worker d).step (s.worker d).phase.index WorkerPhase.deleting.index
    refine ⟨?_, by omega⟩
    by_contra hbusy
    have hpos := (h.parties.worker_inside d hbusy).2
    rw [left_of_le (WorkerPhase.index_ne_zero hbusy) (by cases (s.worker d).phase <;> decide)] at hlast
    omega

/-- What the parties do while `K` updates are asked for, none of them validated against a checkpoint, and no wait runs
into its time-out. -/
def UpdateStepWithin (c : Colocation) (K : ℕ) : StepState → StepState → Prop :=
  Under (UpdateStep c) (fun _ s' => s'.Requested K)

theorem driven (hc : c.Covered) (hT : 0 < c.trainingWorldSize) (K : ℕ) :
    Driven (UpdateStepWithin c K) (fun s => s.InStep c ∧ s.Requested K) count (UpdateWaits c) (updateMilestones c) K := by
  constructor
  · rintro s s' ⟨h, -⟩ ⟨hstep, hK'⟩
    exact ⟨h.step hc hstep, hK'⟩
  · rintro s s' ⟨h, -⟩ ⟨hstep, hK'⟩
    obtain ⟨m, hfires⟩ := h.fires hstep
    refine ⟨m, mem_updateMilestones.mpr hfires.inside, ?_, hfires.count⟩
    have hle := (h.step hc hstep).count_le hK' hfires.inside
    rw [hfires.count, fire_self] at hle
    exact hle
  · rintro s ⟨h, hK⟩ m hm hlt henabled
    have hinside := mem_updateMilestones.mp hm
    have htakes : ∃ s', UpdateStep c s s' ∧ s'.Requested K := by
      cases m with
      | train r p => exact h.train_takes hK hinside.1 hinside.2 hlt henabled
      | engine e p => exact h.engine_takes hK hT hinside hlt henabled
      | worker d p => exact h.worker_takes hK hinside henabled
    obtain ⟨s', hstep, hK'⟩ := htakes
    exact ⟨s', hstep, hK'⟩

end StepState

open StepState

/-- The parties never wait for one another in a circle: whatever they have done of `K` updates, they
can go on until all are through, and they are through after a bounded number of steps. -/
theorem updates_complete {c : Colocation} (hc : c.Covered) (hT : 0 < c.trainingWorldSize) (K : ℕ)
    {start s : StepState} (hstart : start.Fresh) (hrun : Run (UpdateStepWithin c K) start s) :
    (s.Completed K c ∨ ∃ s', UpdateStepWithin c K s s') ∧
      (∃ s', Run (UpdateStepWithin c K) s s' ∧ s'.Completed K c) ∧
      ∀ (path : ℕ → StepState) (l : ℕ), path 0 = s → (∀ i < l, UpdateStepWithin c K (path i) (path (i + 1))) →
        l ≤ (19 * c.trainingWorldSize + 3 * c.numEngines) * K := by
  have hdriven := driven hc hT K
  have hinv : s.InStep c ∧ s.Requested K := by
    apply hrun.invariant (fun s => s.InStep c ∧ s.Requested K)
    · refine ⟨hstart.inStep, fun r => ?_, fun e => ?_⟩
      · rw [hstart.train]
        exact Nat.zero_le K
      · rw [hstart.engine]
        exact Nat.zero_le K
    · exact hdriven.keeps
  have hclosed : ∀ m ∈ updateMilestones c, ∀ m' lag, UpdateWaits c m m' lag → m' ∈ updateMilestones c := by
    intro m hm m' lag hneeds
    exact mem_updateMilestones.mpr (hneeds.inside hc (mem_updateMilestones.mp hm))
  have hrank : ∀ m m', UpdateWaits c m m' 0 → m'.rank < m.rank := fun _ _ hneeds => hneeds.rank_lt
  refine ⟨?_, ?_, ?_⟩
  · rcases hdriven.progress Milestone.rank hrank hclosed hinv with hdone | hstep
    · exact .inl (hinv.1.completed hinv.2 hdone)
    · exact .inr hstep
  · obtain ⟨s', hrun', hdone⟩ := hdriven.completes Milestone.rank hrank hclosed hinv
    have hinv' := hrun'.invariant (fun s => s.InStep c ∧ s.Requested K) hinv hdriven.keeps
    exact ⟨s', hrun', hinv'.1.completed hinv'.2 hdone⟩
  · rintro path l rfl hpath
    have hlength := hdriven.length_le path hinv hpath
    have hsum : remaining (updateMilestones c) K (path 0).count ≤ (updateMilestones c).card * K := by
      apply Finset.sum_le_card_nsmul
      intro m _
      omega
    have hcard := Nat.mul_le_mul_right K (card_updateMilestones c)
    omega

theorem updates_complete_oneDevice : ∃ s, Run (UpdateStepWithin oneDevice 2) initial s ∧ s.Completed 2 oneDevice :=
  (updates_complete oneDevice_covered Nat.one_pos 2 initial_fresh .refl).2.1

end Awex
