import Awex.UpdateOrder
import Awex.ValidatedUpdates

namespace Awex

open EventGraph Rounds Runs

namespace StepState

/-- Each party is where its step and its barriers say. -/
structure Parties (s : StepState) (c : Colocation) : Prop where
  train_inside : ∀ r, (s.train r).phase ≠ .idle → r < c.trainingWorldSize ∧ 0 < (s.train r).step
  train_reaches : ∀ r, (s.train r).phase.Reaches (r = 0)
  calls : ∀ r, (s.train r).barriers =
    (s.train r).step + left (s.train r).step (s.train r).phase.index TrainPhase.awaitingEngines.index
  engine_inside : ∀ e, (s.engine e).phase ≠ .idle → e < c.numEngines ∧ 0 < (s.engine e).step
  worker_inside : ∀ d, (s.worker d).phase ≠ .idle → d < c.trainingWorldSize ∧ 0 < (s.worker d).step
  worker_calls : ∀ d, (s.worker d).barriers =
    left (s.worker d).step (s.worker d).phase.index WorkerPhase.transferring.index

structure InStep (s : StepState) (c : Colocation) : Prop where
  parties : s.Parties c
  order : Respects (UpdateNeeds c) s.count
  keys : Keys c s.count s.server

section Parties

variable {s : StepState} {c : Colocation} (h : s.Parties c)
include h

theorem Parties.train_step {r : ℕ} {rank : TrainRank} {p : TrainPhase} (hr : r < c.trainingWorldSize)
    (hphase : (s.train r).phase = p) (hnext : rank.phase = p.next (r = 0))
    (hstep : rank.step = (s.train r).step + if p = .idle then 1 else 0)
    (hbarriers : rank.barriers = (s.train r).barriers + if p = .idle ∨ p = .awaitingEngines then 1 else 0)
    (server : MetaServer UpdateKey UpdateObject) : ((s.setTrain r rank).serve server).Parties c ∧
      ((s.setTrain r rank).serve server).count = fire s.count (.train r p) := by
  have hreaches : p.Reaches (r = 0) := hphase ▸ h.train_reaches r
  have hleft : ∀ q : TrainPhase, q.Reaches (r = 0) → left rank.step rank.phase.index q.index =
      left (s.train r).step (s.train r).phase.index q.index + if q.index = p.index then 1 else 0 := by
    intro q hq
    rw [hnext, hphase]
    by_cases hidle : p = .idle
    · subst hidle
      rw [hstep, if_pos rfl]
      exact left_start _ _
    · rw [hstep, if_neg hidle]
      apply left_move
      · exact (h.train_inside r (hphase ▸ hidle)).2
      · exact fun h0 => hidle (TrainPhase.index_eq_zero.mp h0)
      · exact TrainPhase.index_next _ p
      · exact TrainPhase.next_skips _ p q hq hidle
  constructor
  · constructor
    · intro r' hne
      rw [serve_train, setTrain_train] at hne ⊢
      split_ifs at hne ⊢ with hrr
      · subst hrr
        refine ⟨hr, ?_⟩
        by_cases hidle : p = .idle
        · rw [hstep, if_pos hidle]
          omega
        · rw [hstep, if_neg hidle]
          exact (h.train_inside r' (hphase ▸ hidle)).2
      · exact h.train_inside r' hne
    · intro r'
      rw [serve_train, setTrain_train]
      split_ifs with hrr
      · subst hrr
        rw [hnext]
        exact TrainPhase.next_reaches _ p hreaches
      · exact h.train_reaches r'
    · intro r'
      rw [serve_train, setTrain_train]
      split_ifs with hrr
      · subst hrr
        have hcalls := h.calls r'
        have hpassed := hleft .awaitingEngines (.inr rfl)
        simp only [TrainPhase.index_inj, @eq_comm _ TrainPhase.awaitingEngines] at hpassed
        rw [hpassed, hbarriers, hstep, hcalls]
        by_cases hidle : p = .idle
        · subst hidle
          simp only [reduceCtorEq, ↓reduceIte, true_or]
          omega
        · simp only [hidle, ↓reduceIte, false_or]
          omega
      · exact h.calls r'
    · exact h.engine_inside
    · exact h.worker_inside
    · exact h.worker_calls
  · rw [count_serve]
    exact count_setTrain hreaches hleft

theorem Parties.engine_step {e : ℕ} {engine : EngineState} (he : e < c.numEngines)
    (hphase : (s.engine e).phase = engine.phase.previous)
    (hstep : engine.step = (s.engine e).step + if engine.phase.previous = .idle then 1 else 0)
    (server : MetaServer UpdateKey UpdateObject) : ((s.setEngine e engine).serve server).Parties c ∧
      ((s.setEngine e engine).serve server).count = fire s.count (.engine e engine.phase.previous) := by
  have hpos : engine.phase ≠ .idle → 0 < engine.step := by
    intro hne
    by_cases hidle : engine.phase.previous = .idle
    · rw [hstep, if_pos hidle]
      omega
    · have := (h.engine_inside e (hphase ▸ hidle)).2
      omega
  have hleft : ∀ q : EnginePhase, left engine.step engine.phase.index q.index =
      left (s.engine e).step (s.engine e).phase.index q.index +
        if q.index = engine.phase.previous.index then 1 else 0 := by
    intro q
    rw [hphase]
    by_cases hidle : engine.phase.previous = .idle
    · rw [hidle, hstep, if_pos hidle, EnginePhase.eq_waiting hidle]
      exact left_start _ _
    · rw [hstep, if_neg hidle]
      apply left_move
      · exact (h.engine_inside e (hphase ▸ hidle)).2
      · exact EnginePhase.index_ne_zero hidle
      · exact EnginePhase.previous_index _
      · exact EnginePhase.previous_skips q hidle
  constructor
  · refine ⟨h.train_inside, h.train_reaches, h.calls, ?_, h.worker_inside, h.worker_calls⟩
    intro e' hne
    rw [serve_engine, setEngine_engine] at hne ⊢
    split_ifs at hne ⊢ with hee
    · rw [hee]
      exact ⟨he, hpos hne⟩
    · exact h.engine_inside e' hne
  · rw [count_serve]
    exact count_setEngine hleft

theorem Parties.worker_step {d : ℕ} {worker : WorkerState} (hd : d < c.trainingWorldSize)
    (hphase : (s.worker d).phase = worker.phase.previous)
    (hstep : worker.step = (s.worker d).step + if worker.phase.previous = .idle then 1 else 0)
    (hbarriers : worker.barriers = (s.worker d).barriers + if worker.phase.previous = .transferring then 1 else 0)
    (server : MetaServer UpdateKey UpdateObject) : ((s.setWorker d worker).serve server).Parties c ∧
      ((s.setWorker d worker).serve server).count = fire s.count (.worker d worker.phase.previous) := by
  have hworker : ∀ d', ((s.setWorker d worker).serve server).worker d' = if d' = d then worker else s.worker d' := by
    intro d'
    simp [serve, setWorker, Function.update_apply]
  have hpos : worker.phase ≠ .idle → 0 < worker.step := by
    intro hne
    by_cases hidle : worker.phase.previous = .idle
    · rw [hstep, if_pos hidle]
      omega
    · have := (h.worker_inside d (hphase ▸ hidle)).2
      omega
  have hleft : ∀ q : WorkerPhase, left worker.step worker.phase.index q.index =
      left (s.worker d).step (s.worker d).phase.index q.index +
        if q.index = worker.phase.previous.index then 1 else 0 := by
    intro q
    rw [hphase]
    by_cases hidle : worker.phase.previous = .idle
    · rw [hidle, hstep, if_pos hidle, WorkerPhase.eq_collecting hidle]
      exact left_start _ _
    · rw [hstep, if_neg hidle]
      apply left_move
      · exact (h.worker_inside d (hphase ▸ hidle)).2
      · exact WorkerPhase.index_ne_zero hidle
      · exact WorkerPhase.previous_index _
      · exact WorkerPhase.previous_skips q hidle
  constructor
  · refine ⟨h.train_inside, h.train_reaches, h.calls, h.engine_inside, ?_, ?_⟩
    · intro d' hne
      rw [hworker] at hne ⊢
      split_ifs at hne ⊢ with hdd
      · rw [hdd]
        exact ⟨hd, hpos hne⟩
      · exact h.worker_inside d' hne
    · intro d'
      rw [hworker]
      split_ifs with hdd
      · have hpassed := hleft .transferring
        have hcalls := h.worker_calls d
        simp only [WorkerPhase.index_inj, @eq_comm _ WorkerPhase.transferring] at hpassed
        rw [hpassed, hbarriers, hcalls]
      · exact h.worker_calls d'
  · rw [count_serve]
    exact count_setWorker hleft

end Parties

section Enabled

variable {s : StepState} {c : Colocation} (h : s.Parties c)
include h

theorem Parties.train_previous {r : ℕ} {p : TrainPhase} (hphase : (s.train r).phase = p) :
    s.count (.train r p) < s.count (.train r (p.previous (r = 0))) + if p = .idle then 1 else 0 := by
  have hreaches : p.Reaches (r = 0) := hphase ▸ h.train_reaches r
  simp only [count, if_pos hreaches, if_pos (TrainPhase.previous_reaches _ p hreaches), hphase]
  split_ifs with hidle
  · subst hidle
    simp only [TrainPhase.index, left_between]
    omega
  · have hpos := (h.train_inside r (hphase ▸ hidle)).2
    rw [left_of_le (fun h0 => hidle (TrainPhase.index_eq_zero.mp h0)) le_rfl,
      left_of_lt (TrainPhase.previous_index_lt _ p hidle)]
    omega

theorem Parties.count_train {r : ℕ} {p : TrainPhase} (hphase : (s.train r).phase = p) (hp : p ≠ .idle) :
    s.count (.train r p) + 1 = (s.train r).step := by
  have hreaches : p.Reaches (r = 0) := hphase ▸ h.train_reaches r
  have hpos := (h.train_inside r (hphase ▸ hp)).2
  simp only [count, if_pos hreaches, hphase]
  rw [left_of_le (fun h0 => hp (TrainPhase.index_eq_zero.mp h0)) le_rfl]
  omega

theorem Parties.count_engine {e : ℕ} {p : EnginePhase} (hphase : (s.engine e).phase = p) (hp : p ≠ .idle) :
    s.count (.engine e p) + 1 = (s.engine e).step := by
  have hpos := (h.engine_inside e (hphase ▸ hp)).2
  simp only [count, hphase]
  rw [left_of_le (EnginePhase.index_ne_zero hp) le_rfl]
  omega

theorem Parties.count_worker {d : ℕ} {p : WorkerPhase} (hphase : (s.worker d).phase = p) (hp : p ≠ .idle) :
    s.count (.worker d p) + 1 = (s.worker d).step := by
  have hpos := (h.worker_inside d (hphase ▸ hp)).2
  simp only [count, hphase]
  rw [left_of_le (WorkerPhase.index_ne_zero hp) le_rfl]
  omega

theorem Parties.engine_previous {e : ℕ} {p : EnginePhase} (hphase : (s.engine e).phase = p) :
    s.count (.engine e p) < s.count (.engine e p.previous) + if p = .idle then 1 else 0 := by
  split_ifs with hidle
  · subst hidle
    simp only [count, hphase, EnginePhase.index, left_between]
    omega
  · have := h.count_engine hphase hidle
    have hprevious : s.count (.engine e p.previous) = (s.engine e).step := by
      simp only [count, hphase]
      exact left_of_lt (EnginePhase.previous_index_lt hidle)
    omega

theorem Parties.worker_previous {d : ℕ} {p : WorkerPhase} (hphase : (s.worker d).phase = p) :
    s.count (.worker d p) < s.count (.worker d p.previous) + if p = .idle then 1 else 0 := by
  split_ifs with hidle
  · subst hidle
    simp only [count, hphase, WorkerPhase.index, left_between]
    omega
  · have := h.count_worker hphase hidle
    have hprevious : s.count (.worker d p.previous) = (s.worker d).step := by
      simp only [count, hphase]
      exact left_of_lt (WorkerPhase.previous_index_lt hidle)
    omega

end Enabled

/-- What a step does, in terms of what happens and of the request that goes with it. -/
structure Fires (s s' : StepState) (c : Colocation) (m : Milestone) : Prop where
  inside : m.Inside c
  enabled : Enabled (UpdateNeeds c) s.count m
  parties : s'.Parties c
  count : s'.count = fire s.count m
  request : request c s.server (s.count m + 1) m = .ok s'.server

section Fires

variable {s s' : StepState} {c : Colocation}

theorem InStep.train_fires (h : s.InStep c) {r : ℕ} {rank : TrainRank} {p : TrainPhase}
    {server : MetaServer UpdateKey UpdateObject} (hr : r < c.trainingWorldSize) (hphase : (s.train r).phase = p)
    (hnext : rank.phase = p.next (r = 0)) (hstep : rank.step = (s.train r).step + if p = .idle then 1 else 0)
    (hbarriers : rank.barriers = (s.train r).barriers + if p = .idle ∨ p = .awaitingEngines then 1 else 0)
    (hrequest : Awex.request c s.server (s.count (.train r p) + 1) (.train r p) = .ok server)
    (henabled : s.count (.train r p) < s.count (.train r (p.previous (r = 0))) + (if p = .idle then 1 else 0) →
      Enabled (UpdateNeeds c) s.count (.train r p)) : s.Fires ((s.setTrain r rank).serve server) c (.train r p) := by
  obtain ⟨hparties, hcount⟩ := h.parties.train_step hr hphase hnext hstep hbarriers server
  exact ⟨⟨hr, hphase ▸ h.parties.train_reaches r⟩, henabled (h.parties.train_previous hphase), hparties, hcount,
    hrequest⟩

theorem InStep.engine_fires (h : s.InStep c) {e : ℕ} {engine : EngineState} {p : EnginePhase}
    {server : MetaServer UpdateKey UpdateObject} (he : e < c.numEngines) (hphase : (s.engine e).phase = p)
    (hnext : engine.phase.previous = p) (hstep : engine.step = (s.engine e).step + if p = .idle then 1 else 0)
    (hrequest : Awex.request c s.server (s.count (.engine e p) + 1) (.engine e p) = .ok server)
    (henabled : s.count (.engine e p) < s.count (.engine e p.previous) + (if p = .idle then 1 else 0) →
      Enabled (UpdateNeeds c) s.count (.engine e p)) :
    s.Fires ((s.setEngine e engine).serve server) c (.engine e p) := by
  subst hnext
  obtain ⟨hparties, hcount⟩ := h.parties.engine_step he hphase hstep server
  exact ⟨he, henabled (h.parties.engine_previous hphase), hparties, hcount, hrequest⟩

theorem InStep.worker_fires (h : s.InStep c) {d : ℕ} {worker : WorkerState} {p : WorkerPhase}
    {server : MetaServer UpdateKey UpdateObject} (hd : d < c.trainingWorldSize) (hphase : (s.worker d).phase = p)
    (hnext : worker.phase.previous = p) (hstep : worker.step = (s.worker d).step + if p = .idle then 1 else 0)
    (hbarriers : worker.barriers = (s.worker d).barriers + if p = .transferring then 1 else 0)
    (hrequest : Awex.request c s.server (s.count (.worker d p) + 1) (.worker d p) = .ok server)
    (henabled : s.count (.worker d p) < s.count (.worker d p.previous) + (if p = .idle then 1 else 0) →
      Enabled (UpdateNeeds c) s.count (.worker d p)) :
    s.Fires ((s.setWorker d worker).serve server) c (.worker d p) := by
  subst hnext
  obtain ⟨hparties, hcount⟩ := h.parties.worker_step hd hphase hstep hbarriers server
  exact ⟨hd, henabled (h.parties.worker_previous hphase), hparties, hcount, hrequest⟩

theorem InStep.train_fires_alone (h : s.InStep c) {r : ℕ} {rank : TrainRank} {p : TrainPhase}
    {server : MetaServer UpdateKey UpdateObject} (hphase : (s.train r).phase = p) (hp : p ∈ [.addingOptimizers,
      .converting, .serializing, .clearing, .written, .deletingEngines, .deletingOptimizers, .deletingWeights])
    (hnext : rank.phase = p.next (r = 0)) (hstep : rank.step = (s.train r).step)
    (hbarriers : rank.barriers = (s.train r).barriers)
    (hrequest : Awex.request c s.server (s.train r).step (.train r p) = .ok server) :
    s.Fires ((s.setTrain r rank).serve server) c (.train r p) := by
  have hidle : p ≠ .idle := by
    rintro rfl
    simp at hp
  have hawaiting : p ≠ .awaitingEngines := by
    rintro rfl
    simp at hp
  apply h.train_fires (h.parties.train_inside r (hphase ▸ hidle)).1 hphase hnext
  · rw [if_neg hidle]
    exact hstep
  · rw [if_neg (not_or.mpr ⟨hidle, hawaiting⟩)]
    exact hbarriers
  · rw [h.parties.count_train hphase hidle]
    exact hrequest
  · intro hprevious m' lag hneeds
    cases hneeds with
    | train => exact hprevious
    | _ => simp at hp

theorem InStep.train_inside (h : s.InStep c) {r : ℕ} {p : TrainPhase} (hphase : (s.train r).phase = p)
    (hp : p ≠ .idle) : r < c.trainingWorldSize :=
  (h.parties.train_inside r (hphase ▸ hp)).1

theorem count_idle (s : StepState) (r : ℕ) : s.count (.train r .idle) = (s.train r).step :=
  (if_pos (.inr rfl)).trans (left_zero _ _)

theorem count_awaitingEngines (s : StepState) (r : ℕ) : s.count (.train r .awaitingEngines) =
    left (s.train r).step (s.train r).phase.index TrainPhase.awaitingEngines.index :=
  if_pos (.inr rfl)

theorem InStep.barriers_releasing (h : s.InStep c) {r r' : ℕ} (hphase : (s.train r).phase = .releasing) :
    (s.train r).barriers ≤ (s.train r').barriers ↔ s.count (.train r .releasing) < s.count (.train r' .idle) := by
  have hown := h.parties.calls r
  have hother := h.parties.calls r'
  have hcount := h.parties.count_train hphase (by simp)
  have hle := left_le (s.train r').step (s.train r').phase.index TrainPhase.awaitingEngines.index
  have hge := le_left_succ (s.train r').step (s.train r').phase.index TrainPhase.awaitingEngines.index
  rw [hphase, left_of_le (by decide) (by decide)] at hown
  rw [count_idle]
  omega

theorem InStep.barriers_finishing (h : s.InStep c) {r r' : ℕ} (hphase : (s.train r).phase = .finishing) :
    (s.train r).barriers ≤ (s.train r').barriers ↔
      s.count (.train r .finishing) < s.count (.train r' .awaitingEngines) := by
  have hown := h.parties.calls r
  have hother := h.parties.calls r'
  have hcount := h.parties.count_train hphase (by simp)
  have hle := left_le (s.train r').step (s.train r').phase.index TrainPhase.awaitingEngines.index
  have hge := le_left_succ (s.train r').step (s.train r').phase.index TrainPhase.awaitingEngines.index
  rw [hphase, left_of_lt (by decide)] at hown
  rw [count_awaitingEngines]
  omega

theorem InStep.barriers_synchronizing (h : s.InStep c) {d d' : ℕ} (hphase : (s.worker d).phase = .synchronizing) :
    (s.worker d).barriers ≤ (s.worker d').barriers ↔
      s.count (.worker d .synchronizing) < s.count (.worker d' .transferring) := by
  have hown := h.parties.worker_calls d
  have hother : (s.worker d').barriers = s.count (.worker d' .transferring) := h.parties.worker_calls d'
  have hcount := h.parties.count_worker hphase (by simp)
  rw [hphase, left_of_lt (by decide)] at hown
  omega

theorem InStep.fires (h : s.InStep c) (hstep : UpdateStep c s s') : ∃ m, s.Fires s' c m := by
  cases hstep with
  | startTrain r hr hphase =>
    refine ⟨_, h.train_fires hr hphase rfl rfl rfl rfl ?_⟩
    intro hprevious m' lag hneeds
    cases hneeds
    exact hprevious
  | passRelease r hphase hall =>
    refine ⟨_, h.train_fires (h.train_inside hphase (by simp)) hphase ?_ rfl rfl rfl ?_⟩
    · simp [TrainPhase.next]
    · intro hprevious m' lag hneeds
      cases hneeds with
      | train => exact hprevious
      | release _ r' _ hr' => exact (h.barriers_releasing hphase).mp (hall r' hr')
  | addOptimizers r server hphase hadd =>
    exact ⟨_, h.train_fires_alone hphase (by simp) rfl rfl rfl hadd⟩
  | offloadWeights r server hphase hadd =>
    exact ⟨_, h.train_fires_alone hphase (by simp) rfl rfl rfl hadd⟩
  | putSerialized r hphase => exact ⟨_, h.train_fires_alone hphase (by simp) rfl rfl rfl rfl⟩
  | seeUpdate r hphase hkey =>
    refine ⟨_, h.train_fires (h.train_inside hphase (by simp)) hphase rfl rfl rfl rfl ?_⟩
    intro hprevious m' lag hneeds
    cases hneeds with
    | train => exact hprevious
    | seeUpdate =>
      have hcount := h.parties.count_train hphase (by simp)
      have hupdated : (s.train r).step ≤ s.count (.worker r .transferring) := ((h.keys.updated r _).mp hkey).2
      omega
  | clearUpdate r hphase => exact ⟨_, h.train_fires_alone hphase (by simp) rfl rfl rfl rfl⟩
  | putWritten r hphase => exact ⟨_, h.train_fires_alone hphase (by simp) rfl rfl rfl rfl⟩
  | seeEngines r k hphase hlen hk =>
    have hr := h.train_inside hphase (by simp)
    refine ⟨_, h.train_fires hr hphase rfl rfl rfl rfl ?_⟩
    intro hprevious m' lag hneeds
    cases hneeds with
    | train => exact hprevious
    | seeEngines _ e _ he =>
      have hmem := MetaServer.mem_setAt_of_card (fun _ _ heq => UpdateObject.rank.inj heq) h.keys.engines.isSet
        h.keys.engines.sub hlen hk e he
      have hengine := (h.keys.engines.mem e he).mp hmem
      -- the set is the one of this step, since rank 0 has deleted those of the steps before
      have hcount := h.parties.count_train hphase (by simp)
      have hreleased : s.count (.train r .awaitingEngines) < s.count (.train r .releasing) := by
        have hreleasing : s.count (.train r .releasing) = (s.train r).step := by
          simp only [StepState.count, hphase]
          exact (if_pos (.inr rfl)).trans (left_of_lt (by decide))
        omega
      have hrelease := h.order _ _ _ (.release r 0 hr (Nat.zero_lt_of_lt hr))
      have hlast : s.count (.train 0 .idle) ≤ s.count (.train 0 .deletingEngines) + 1 :=
        train_le_succ h.order (.inr rfl) (.inl rfl)
      omega
  | passFinish r hphase hall =>
    refine ⟨_, h.train_fires (h.train_inside hphase (by simp)) hphase ?_ rfl rfl rfl ?_⟩
    · simp [TrainPhase.next]
    · intro hprevious m' lag hneeds
      cases hneeds with
      | train => exact hprevious
      | finish _ r' _ hr' => exact (h.barriers_finishing hphase).mp (hall r' hr')
  | deleteEngines r hphase => exact ⟨_, h.train_fires_alone hphase (by simp) rfl rfl rfl rfl⟩
  | deleteOptimizers r hphase => exact ⟨_, h.train_fires_alone hphase (by simp) rfl rfl rfl rfl⟩
  | deleteWeights r hphase => exact ⟨_, h.train_fires_alone hphase (by simp) rfl rfl rfl rfl⟩
  | startEngine e he hphase =>
    refine ⟨_, h.engine_fires he hphase rfl rfl rfl ?_⟩
    intro hprevious m' lag hneeds
    cases hneeds
    exact hprevious
  | resumeWeights e k hphase _ _ =>
    refine ⟨_, h.engine_fires (h.parties.engine_inside e (by simp [hphase])).1 hphase rfl rfl rfl ?_⟩
    intro hprevious m' lag hneeds
    cases hneeds
    exact hprevious
  | finishEngine e server hphase hworkers hadd =>
    refine ⟨_, h.engine_fires (h.parties.engine_inside e (by simp [hphase])).1 hphase rfl rfl hadd ?_⟩
    intro hprevious m' lag hneeds
    cases hneeds with
    | engine => exact hprevious
    | finishEngine d hd =>
      have hcount := h.parties.count_engine hphase (by simp)
      obtain ⟨hidle, hsame⟩ := hworkers d hd rfl
      have hdeleted : s.count (.worker d .deleting) = (s.worker d).step := by
        simp only [StepState.count, hidle, WorkerPhase.index, left_between]
      omega
  | startWorker d hd hphase he hlt =>
    have hfinished := h.order _ _ _ (.finishEngine d hd)
    have hcount := h.parties.count_engine he (by simp)
    have hdeleted : s.count (.worker d .deleting) = (s.worker d).step := by
      simp only [StepState.count, hphase, WorkerPhase.index, left_between]
    refine ⟨_, h.worker_fires hd hphase rfl ?_ rfl rfl ?_⟩
    · rw [if_pos rfl]
      dsimp only
      omega
    · intro hprevious m' lag hneeds
      cases hneeds with
      | worker => exact hprevious
      | startWorker =>
        have hwaiting : s.count (.engine (c.engineOf d) .waiting) = (s.engine (c.engineOf d)).step := by
          simp only [StepState.count, he]
          exact left_of_lt (by decide)
        have hidle : s.count (.worker d .idle) = (s.worker d).step := left_zero _ _
        omega
  | collect d hphase hkey =>
    refine ⟨_, h.worker_fires (h.parties.worker_inside d (by simp [hphase])).1 hphase rfl rfl rfl rfl ?_⟩
    intro hprevious m' lag hneeds
    cases hneeds with
    | worker => exact hprevious
    | collect =>
      have hcount := h.parties.count_worker hphase (by simp)
      have hserialized : (s.worker d).step ≤ s.count (.train d .serializing) :=
        ((h.keys.serialized d _).mp hkey).2
      omega
  | putUpdated d hphase =>
    have hcount := h.parties.count_worker hphase (by simp)
    refine ⟨_, h.worker_fires (h.parties.worker_inside d (by simp [hphase])).1 hphase rfl rfl rfl ?_ ?_⟩
    · rw [hcount]
      rfl
    · intro hprevious m' lag hneeds
      cases hneeds
      exact hprevious
  | passUpdate d hphase hall =>
    refine ⟨_, h.worker_fires (h.parties.worker_inside d (by simp [hphase])).1 hphase rfl rfl rfl rfl ?_⟩
    intro hprevious m' lag hneeds
    cases hneeds with
    | worker => exact hprevious
    | synchronize _ d' _ hd' => exact (h.barriers_synchronizing hphase).mp (hall d' hd')
  | seeWritten d hphase hkey =>
    refine ⟨_, h.worker_fires (h.parties.worker_inside d (by simp [hphase])).1 hphase rfl rfl rfl rfl ?_⟩
    intro hprevious m' lag hneeds
    cases hneeds with
    | worker => exact hprevious
    | close =>
      have hcount := h.parties.count_worker hphase (by simp)
      have hwritten : (s.worker d).step ≤ s.count (.train d .written) := ((h.keys.written d _).mp hkey).2
      omega
  | deleteWritten d server hphase hdelete =>
    have hcount := h.parties.count_worker hphase (by simp)
    refine ⟨_, h.worker_fires (h.parties.worker_inside d (by simp [hphase])).1 hphase rfl rfl rfl ?_ ?_⟩
    · rw [hcount]
      exact hdelete
    · intro hprevious m' lag hneeds
      cases hneeds
      exact hprevious

theorem InStep.step (h : s.InStep c) (hc : c.Covered) (hstep : UpdateStep c s s') : s'.InStep c := by
  obtain ⟨m, hfires⟩ := h.fires hstep
  constructor
  · exact hfires.parties
  · rw [hfires.count]
    exact h.order.fire hfires.enabled
  · rw [hfires.count]
    exact h.keys.fire h.order hc hfires.inside hfires.request

end Fires

theorem Fresh.inStep {s : StepState} {c : Colocation} (h : s.Fresh) : s.InStep c := by
  have hcount : ∀ m, s.count m = 0 := by
    intro m
    cases m with
    | train r p =>
      simp only [count, h.train, TrainPhase.index, left_between, ite_self]
    | engine e p => simp only [count, h.engine, EnginePhase.index, left_between]
    | worker d p => simp only [count, h.worker, WorkerPhase.index, left_between]
  have hkeys : ∀ key, s.server.hasKey key = false := by
    intro key
    rw [MetaServer.hasKey, h.server]
    rfl
  have hsets : ∀ key, s.server.IsSetKey key := by
    intro key obj
    simp [h.server]
  have hempty : ∀ key, s.server.setAt key = ∅ := by
    intro key
    simp [MetaServer.setAt, h.server]
  constructor
  · constructor
    · intro r hr
      simp [h.train] at hr
    · intro r
      rw [h.train]
      exact .inr rfl
    · intro r
      simp [h.train, TrainPhase.index]
    · intro e he
      simp [h.engine] at he
    · intro d hd
      simp [h.worker] at hd
    · intro d
      simp [h.worker, WorkerPhase.index]
  · intro m m' lag _
    rw [hcount, hcount]
    exact Nat.zero_le _
  · constructor
    · intro d j
      simp [hkeys, hcount]
      omega
    · intro d j
      simp [hkeys, hcount]
      omega
    · intro d j
      simp [hkeys, hcount]
      omega
    · exact hsets _
    · exact ⟨hsets _, by simp [hempty, hcount], by simp [hempty]⟩
    · exact ⟨hsets _, by simp [hempty, hcount], by simp [hempty]⟩

theorem InStep.of_run {s start : StepState} {c : Colocation} (hc : c.Covered) (hstart : start.Fresh)
    (hrun : Run (UpdateStep c) start s) : s.InStep c :=
  hrun.invariant (·.InStep c) hstart.inStep (fun _ _ h hstep => h.step hc hstep)

/-- How training ranks, engines and workers hand over the weights of one update after the other. -/
structure HandedOver (s : StepState) (c : Colocation) : Prop where
  memory_held : ∀ d, (s.worker d).phase = .transferring →
    (s.train d).phase = .awaitingUpdate ∧ (s.train d).step = (s.worker d).step
  deletes : ∀ d, (s.worker d).phase = .deleting →
    ∃ server, s.server.delete (.writeFinished d (s.worker d).step) = .ok server
  one_update : ∀ d j, s.server.hasKey (.weightsUpdateFinished d j) = true → j = (s.train d).step
  one_write : ∀ d j, s.server.hasKey (.writeFinished d j) = true → j = (s.worker d).step
  serialized_kept : ∀ d j, s.server.hasKey (.trainingSerializedWeights d j) = true ↔
    0 < j ∧ j ≤ s.count (.train d .serializing)
  ranks_after_engines : ∀ r < c.trainingWorldSize, (s.train r).phase = .idle → ∀ e < c.numEngines,
    (s.train r).step ≤ s.count (.engine e .updating)
  engines_after_ranks : ∀ d < c.trainingWorldSize, s.count (.engine (c.engineOf d) .updating) ≤ s.count (.train d .written)

section Handoff

variable {s : StepState} {c : Colocation} (h : s.InStep c)
include h

theorem InStep.memory_held {d : ℕ} (hphase : (s.worker d).phase = .transferring) :
    (s.train d).phase = .awaitingUpdate ∧ (s.train d).step = (s.worker d).step := by
  -- a worker only reads the handles of a step in which the rank has published them and has not yet seen that they
  -- were read
  have hcount := h.parties.count_worker hphase (by simp)
  have hcollected : s.count (.worker d .collecting) = (s.worker d).step := by
    simp only [count, hphase]
    exact left_of_lt (by decide)
  have hcollect := h.order _ _ _ (.collect d)
  have hsee := h.order _ _ _ (.seeUpdate d)
  have hserialized : s.count (.train d .serializing) =
      left (s.train d).step (s.train d).phase.index TrainPhase.serializing.index := if_pos (.inr rfl)
  have hawaiting : s.count (.train d .awaitingUpdate) =
      left (s.train d).step (s.train d).phase.index TrainPhase.awaitingUpdate.index := if_pos (.inr rfl)
  have hlt : left (s.train d).step (s.train d).phase.index TrainPhase.awaitingUpdate.index <
      left (s.train d).step (s.train d).phase.index TrainPhase.serializing.index := by
    omega
  have hindex : (s.train d).phase.index = TrainPhase.awaitingUpdate.index := by
    refine at_of_left ?_ hlt
    cases (s.train d).phase <;> decide
  have hle := left_le (s.train d).step (s.train d).phase.index TrainPhase.serializing.index
  have hge := le_left_succ (s.train d).step (s.train d).phase.index TrainPhase.awaitingUpdate.index
  exact ⟨TrainPhase.index_inj.mp hindex, by omega⟩

theorem InStep.handedOver : s.HandedOver c := by
  constructor
  · intro d hphase
    exact h.memory_held hphase
  · intro d hphase
    apply MetaServer.delete_isOk
    apply (h.keys.written d _).mpr
    have hcount := h.parties.count_worker hphase (by simp)
    have hclosed : s.count (.worker d .closing) = (s.worker d).step := by
      simp only [count, hphase]
      exact left_of_lt (by decide)
    have hclose := h.order _ _ _ (.close d)
    dsimp only
    omega
  · intro d j hkey
    obtain ⟨hlo, hhi⟩ : s.count (.train d .clearing) < j ∧ j ≤ s.count (.worker d .transferring) :=
      (h.keys.updated d j).mp hkey
    have hcleared : s.count (.train d .idle) ≤ s.count (.train d .clearing) + 1 :=
      train_le_succ h.order (.inr rfl) (.inr rfl)
    have htransferring := h.order _ _ _ (.worker d .transferring)
    have hcollect := h.order _ _ _ (.collect d)
    have hstarted : s.count (.train d .serializing) ≤ s.count (.train d .idle) :=
      train_le h.order (.inr rfl) (.inr rfl) (Nat.zero_le _)
    rw [count_idle] at hcleared hstarted
    simp only [WorkerPhase.previous, reduceCtorEq, ↓reduceIte] at htransferring
    omega
  · intro d j hkey
    obtain ⟨hlo, hhi⟩ : s.count (.worker d .deleting) < j ∧ j ≤ s.count (.train d .written) :=
      (h.keys.written d j).mp hkey
    have hseen : s.count (.train d .written) ≤ s.count (.train d .awaitingUpdate) :=
      train_le h.order (.inr rfl) (.inr rfl) (Nat.le_of_ble_eq_true rfl)
    have hsee := h.order _ _ _ (.seeUpdate d)
    have hle : s.count (.worker d .transferring) ≤ (s.worker d).step := left_le _ _ _
    have hge : (s.worker d).step ≤ s.count (.worker d .deleting) + 1 := le_left_succ _ _ _
    omega
  · exact h.keys.serialized
  · intro r hr hphase e he
    have hseen : s.count (.train r .awaitingEngines) = (s.train r).step := by
      rw [count_awaitingEngines, hphase]
      exact left_between _ _
    have hsee := h.order _ _ _ (.seeEngines r e hr he)
    omega
  · intro d hd
    have hfinish := h.order _ _ _ (.finishEngine d hd)
    have hdeleted := (worker_le h.order d).1
    omega

end Handoff

end StepState

open StepState

/-- The weights are handed over in the same order where checkpoint validations come between the requests. -/
theorem validated_handedOver {c : Colocation} {validates : ℕ → Bool} (hc : c.Covered) {start w : ValidatedState}
    (hstart : start.update.Fresh) (hrun : Run (ValidatedStep c validates) start w) : w.update.HandedOver c :=
  (InStep.of_run hc hstart (validated_run_update hrun)).handedOver

/-- In every run of the updates in colocate mode, however the parties interleave, the weights are
handed over in this order. -/
theorem update_handedOver {c : Colocation} (hc : c.Covered) {start s : StepState} (hstart : start.Fresh)
    (hrun : Run (UpdateStep c) start s) : s.HandedOver c :=
  (InStep.of_run hc hstart hrun).handedOver

theorem oneDevice_covered : oneDevice.Covered := by
  constructor
  · intro d _
    exact Nat.one_pos
  · intro e he
    exact ⟨0, Nat.one_pos, (Nat.lt_one_iff.mp he).symm⟩

theorem update_handedOver_oneDevice : ∃ s, Run (UpdateStep oneDevice) initial s ∧
    (s.worker 0).phase = .transferring ∧ (s.train 0).phase = .awaitingUpdate := by
  have hoffloaded := (((Relation.ReflTransGen.single
    (.startTrain initial 0 Nat.one_pos rfl : UpdateStep oneDevice _ _)).tail
    (.passRelease _ 0 rfl (by decide))).tail (.addOptimizers _ 0 _ rfl rfl)).tail (.offloadWeights _ 0 _ rfl rfl)
  have hresumed := (hoffloaded.tail (.startEngine _ 0 Nat.one_pos rfl)).tail (.resumeWeights _ 0 1 rfl rfl le_rfl)
  have hcollected := ((hresumed.tail (.putSerialized _ 0 rfl)).tail (.startWorker _ 0 Nat.one_pos rfl rfl
    (by decide))).tail (.collect _ 0 rfl rfl)
  exact ⟨_, hcollected, rfl, ((update_handedOver oneDevice_covered initial_fresh hcollected).memory_held 0 rfl).1⟩

end Awex
