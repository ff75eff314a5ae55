import Awex.StepProtocol
import Awex.ValidationRendezvous

namespace Awex

open Runs

/-- Where a training rank is in `_validate_weights` of its step, before it offloads its weights: it saves the
checkpoint, waits in the barrier after it, meets the engines (rank 0), and waits in the last barrier. -/
inductive CheckPhase where
  | saving
  | saved
  | meeting
  | closing
  | validated
  deriving DecidableEq, Repr

/-- `barriers` counts the calls of `dist.barrier` in `_validate_weights`, `resumed` is the last step in which the engine
resumed its weights to load the checkpoint. -/
structure ValidatedState where
  update : StepState
  rendezvous : RendezvousState
  check : ℕ → CheckPhase
  barriers : ℕ → ℕ
  resumed : ℕ → ℕ

namespace ValidatedState

/-- Who starts a step has its validation before it, if there is one. -/
def enter (validates : ℕ → Bool) (w : ValidatedState) (update : StepState) : ValidatedState :=
  ⟨update,
    ⟨w.rendezvous.server, w.rendezvous.writer, fun e =>
      if (update.engine e).step = (w.update.engine e).step then w.rendezvous.engine e
      else bif validates (update.engine e).step then .waiting else .left⟩,
    fun r =>
      if (update.train r).step = (w.update.train r).step then w.check r
      else bif validates (update.train r).step then .saving else .validated,
    w.barriers, w.resumed⟩

def setCheck (w : ValidatedState) (r : ℕ) (phase : CheckPhase) : ValidatedState :=
  { w with check := Function.update w.check r phase }

def call (w : ValidatedState) (r : ℕ) : ValidatedState :=
  { w with barriers := Function.update w.barriers r (w.barriers r + 1) }

def meet (w : ValidatedState) (rendezvous : RendezvousState) : ValidatedState := { w with rendezvous := rendezvous }

def resume (w : ValidatedState) (e : ℕ) : ValidatedState :=
  { w with resumed := Function.update w.resumed e (w.update.engine e).step }

@[simp] theorem enter_update (validates : ℕ → Bool) (w : ValidatedState) (update : StepState) :
    (w.enter validates update).update = update := rfl

theorem enter_engine (validates : ℕ → Bool) (w : ValidatedState) (update : StepState) (e : ℕ) :
    (w.enter validates update).rendezvous.engine e =
      if (update.engine e).step = (w.update.engine e).step then w.rendezvous.engine e
      else bif validates (update.engine e).step then .waiting else .left := rfl

theorem enter_check (validates : ℕ → Bool) (w : ValidatedState) (update : StepState) (r : ℕ) :
    (w.enter validates update).check r = if (update.train r).step = (w.update.train r).step then w.check r
      else bif validates (update.train r).step then .saving else .validated := rfl

@[simp] theorem setCheck_check (w : ValidatedState) (r r' : ℕ) (phase : CheckPhase) :
    (w.setCheck r phase).check r' = if r' = r then phase else w.check r' := by
  simp [setCheck, Function.update_apply]

@[simp] theorem setCheck_update (w : ValidatedState) (r : ℕ) (phase : CheckPhase) :
    (w.setCheck r phase).update = w.update := rfl

@[simp] theorem setCheck_rendezvous (w : ValidatedState) (r : ℕ) (phase : CheckPhase) :
    (w.setCheck r phase).rendezvous = w.rendezvous := rfl

@[simp] theorem setCheck_resumed (w : ValidatedState) (r : ℕ) (phase : CheckPhase) :
    (w.setCheck r phase).resumed = w.resumed := rfl

@[simp] theorem call_check (w : ValidatedState) (r : ℕ) : (w.call r).check = w.check := rfl

@[simp] theorem call_update (w : ValidatedState) (r : ℕ) : (w.call r).update = w.update := rfl

@[simp] theorem call_rendezvous (w : ValidatedState) (r : ℕ) : (w.call r).rendezvous = w.rendezvous := rfl

@[simp] theorem call_resumed (w : ValidatedState) (r : ℕ) : (w.call r).resumed = w.resumed := rfl

@[simp] theorem meet_check (w : ValidatedState) (rendezvous : RendezvousState) :
    (w.meet rendezvous).check = w.check := rfl

@[simp] theorem meet_update (w : ValidatedState) (rendezvous : RendezvousState) :
    (w.meet rendezvous).update = w.update := rfl

@[simp] theorem meet_rendezvous (w : ValidatedState) (rendezvous : RendezvousState) :
    (w.meet rendezvous).rendezvous = rendezvous := rfl

@[simp] theorem meet_resumed (w : ValidatedState) (rendezvous : RendezvousState) :
    (w.meet rendezvous).resumed = w.resumed := rfl

end ValidatedState

/-- The requests of a colocated update with those of the checkpoint validations before it. `validates` holds of the
steps that come with a checkpoint path and that the counters of both sides select. Every training rank makes its
`dist.barrier` calls in the same order, so those of the validations are counted apart. -/
inductive ValidatedStep (c : Colocation) (validates : ℕ → Bool) : ValidatedState → ValidatedState → Prop where
  | update (w : ValidatedState) (u : StepState) (h : UpdateStep c w.update u)
      (hoffload : ∀ r, (w.update.train r).phase = .converting → (u.train r).phase = .serializing →
        w.check r = .validated)
      (hresume : ∀ e, (w.update.engine e).phase = .waiting → (u.engine e).phase = .updating →
        w.rendezvous.engine e = .left) :
      ValidatedStep c validates w (w.enter validates u)
  | saveCheckpoint (w : ValidatedState) (r : ℕ) (hphase : (w.update.train r).phase = .converting)
      (h : w.check r = .saving) : ValidatedStep c validates w ((w.setCheck r .saved).call r)
  | passSave (w : ValidatedState) (h : w.check 0 = .saved)
      (hall : ∀ r < c.trainingWorldSize, w.barriers 0 ≤ w.barriers r) :
      ValidatedStep c validates w ((w.setCheck 0 .meeting).meet (w.rendezvous.write .saved))
  | passSaveOther (w : ValidatedState) (r : ℕ) (hr : r ≠ 0) (h : w.check r = .saved)
      (hall : ∀ r' < c.trainingWorldSize, w.barriers r ≤ w.barriers r') :
      ValidatedStep c validates w ((w.setCheck r .closing).call r)
  | rendezvous (w : ValidatedState) (rendezvous : RendezvousState)
      (h : RendezvousStep c.numEngines w.rendezvous rendezvous)
      (hload : ∀ e, w.rendezvous.engine e = .loading → rendezvous.engine e = .reading →
        w.resumed e = (w.update.engine e).step) :
      ValidatedStep c validates w (w.meet rendezvous)
  | resumeForValidation (w : ValidatedState) (e : ℕ) (h : w.rendezvous.engine e = .loading)
      (hnew : w.resumed e ≠ (w.update.engine e).step)
      (hkey : w.update.server.hasKey .allTrainingOffloadedOptimizers = true) :
      ValidatedStep c validates w (w.resume e)
  | leaveMeeting (w : ValidatedState) (h : w.check 0 = .meeting) (hwriter : w.rendezvous.writer = .left) :
      ValidatedStep c validates w ((w.setCheck 0 .closing).call 0)
  | passClose (w : ValidatedState) (r : ℕ) (h : w.check r = .closing)
      (hall : ∀ r' < c.trainingWorldSize, w.barriers r ≤ w.barriers r') :
      ValidatedStep c validates w (w.setCheck r .validated)

/-- The phases of a step before the weights are offloaded. -/
def TrainPhase.Early (phase : TrainPhase) : Prop :=
  phase = .releasing ∨ phase = .addingOptimizers ∨ phase = .converting

section Moves

open StepState

variable {c : Colocation} {s s' : StepState}

/-- What a request does to the step of a training rank. -/
inductive TrainRank.Moves (rank rank' : TrainRank) : Prop where
  | start (hidle : rank.phase = .idle) (hphase : rank'.phase = .releasing) (hstep : rank'.step = rank.step + 1)
      (hoffloaded : rank'.offloaded = rank.offloaded)
  | offload (hconverting : rank.phase = .converting) (hphase : rank'.phase = .serializing)
      (hstep : rank'.step = rank.step) (hoffloaded : rank'.offloaded = rank.step)
  | stay (hstep : rank'.step = rank.step) (hoffloaded : rank'.offloaded = rank.offloaded)
      (hearly : rank.phase.Early → rank'.phase.Early)

theorem TrainRank.Moves.refl (rank : TrainRank) : rank.Moves rank := .stay rfl rfl id

theorem UpdateStep.train_moves (h : UpdateStep c s s') (r : ℕ) : (s.train r).Moves (s'.train r) := by
  have hset : ∀ {r' : ℕ} {rank : TrainRank}, (s.train r').Moves rank →
      (s.train r).Moves ((s.setTrain r' rank).train r) := by
    intro r' rank hmoves
    rw [setTrain_train]
    split_ifs with hr
    · rw [hr]
      exact hmoves
    · exact .refl _
  cases h with
  | startTrain r' _ hphase => exact hset (.start hphase rfl rfl rfl)
  | offloadWeights r' server hphase _ => exact hset (.offload hphase rfl rfl rfl)
  | passRelease r' hphase _ =>
    have hearly : (if r' = 0 then TrainPhase.addingOptimizers else .converting).Early := by
      split_ifs <;> simp [TrainPhase.Early]
    exact hset (.stay rfl rfl fun _ => hearly)
  | addOptimizers r' server hphase _ => exact hset (.stay rfl rfl fun _ => by simp [TrainPhase.Early])
  | putSerialized r' hphase | clearUpdate r' hphase | putWritten r' hphase | deleteEngines r' hphase
  | deleteOptimizers r' hphase | deleteWeights r' hphase =>
    exact hset (.stay rfl rfl fun hearly => by simp [TrainPhase.Early, hphase] at hearly)
  | seeUpdate r' hphase _ | passFinish r' hphase _ =>
    exact hset (.stay rfl rfl fun hearly => by simp [TrainPhase.Early, hphase] at hearly)
  | seeEngines r' k hphase _ _ =>
    exact hset (.stay rfl rfl fun hearly => by simp [TrainPhase.Early, hphase] at hearly)
  | _ => exact .refl _

inductive EngineState.Moves (engine engine' : EngineState) : Prop where
  | start (hidle : engine.phase = .idle) (hphase : engine'.phase = .waiting) (hstep : engine'.step = engine.step + 1)
  | resume (hwaiting : engine.phase = .waiting) (hphase : engine'.phase = .updating)
      (hstep : engine'.step = engine.step)
  | stay (hstep : engine'.step = engine.step) (hwaiting : engine.phase = .waiting → engine'.phase = .waiting)

theorem UpdateStep.engine_moves (h : UpdateStep c s s') (e : ℕ) : (s.engine e).Moves (s'.engine e) := by
  have hset : ∀ {e' : ℕ} {engine : EngineState}, (s.engine e').Moves engine →
      (s.engine e).Moves ((s.setEngine e' engine).engine e) := by
    intro e' engine hmoves
    rw [setEngine_engine]
    split_ifs with he
    · rw [he]
      exact hmoves
    · exact .stay rfl id
  cases h with
  | startEngine e' _ hphase => exact hset (.start hphase rfl rfl)
  | resumeWeights e' k hphase _ _ => exact hset (.resume hphase rfl rfl)
  | finishEngine e' server hphase _ _ => exact hset (.stay rfl fun hwaiting => by simp [hphase] at hwaiting)
  | _ => exact .stay rfl id

end Moves

theorem firstRead_added (numEngines : ℕ) (readyEngines : Option (Stored ReadyObject)) :
    firstRead numEngines readyEngines ≠ .waiting ∧ firstRead numEngines readyEngines ≠ .loading := by
  unfold firstRead
  split
  · simp
  · split_ifs <;> simp

theorem nextRead_added (numEngines : ℕ) (newReadyEngines : Option (Stored ReadyObject)) :
    nextRead numEngines newReadyEngines ≠ .waiting ∧ nextRead numEngines newReadyEngines ≠ .loading := by
  unfold nextRead
  split
  · simp
  · split
    · simp
    · split_ifs <;> simp

namespace ValidatedState

/-- The engine is past adding itself in the validation of this step. -/
def Added (w : ValidatedState) (e m : ℕ) : Prop :=
  m < (w.update.engine e).step ∨ m = (w.update.engine e).step ∧ w.rendezvous.Added e

/-- Rank 0 has deleted the set in the validation of its step. -/
def Met (w : ValidatedState) : Prop :=
  w.check 0 = .meeting ∧ w.rendezvous.Deleted ∨ w.check 0 = .closing ∨ w.check 0 = .validated

def Deleted (validates : ℕ → Bool) (w : ValidatedState) (m : ℕ) : Prop :=
  validates m = true ∧ 0 < m ∧ (m < (w.update.train 0).step ∨ m = (w.update.train 0).step ∧ w.Met)

/-- No engine has resumed its weights in a step, for the update or for its validation, before all training ranks have
offloaded theirs in this step. -/
def Safe (w : ValidatedState) (c : Colocation) : Prop :=
  w.update.Safe c ∧ ∀ e < c.numEngines, ∀ r < c.trainingWorldSize, w.resumed e ≤ (w.update.train r).offloaded

structure Fresh (w : ValidatedState) : Prop where
  update : w.update.Fresh
  send : w.rendezvous.server.storage sendKey = none
  writer : w.rendezvous.writer = .left
  engine : ∀ e, w.rendezvous.engine e = .left
  check : ∀ r, w.check r = .validated
  resumed : ∀ e, w.resumed e = 0

structure Validation (c : Colocation) (validates : ℕ → Bool) (w : ValidatedState) : Prop where
  exchange : w.update.Exchange c
  reader : ∀ e, w.rendezvous.engine e ≠ .left → (w.update.engine e).phase = .waiting ∧
    validates (w.update.engine e).step = true ∧ 0 < (w.update.engine e).step
  check : w.check 0 ≠ .validated → (w.update.train 0).phase.Early ∧ validates (w.update.train 0).step = true ∧
    0 < (w.update.train 0).step
  writer : w.rendezvous.writer ≠ .left → w.check 0 = .meeting
  isSet : w.rendezvous.server.IsSetKey sendKey
  members : ∀ obj ∈ w.rendezvous.server.setAt sendKey, ∃ e < c.numEngines, obj = .engine e ∧
    ∃ m, validates m = true ∧ 0 < m ∧ w.Added e m ∧ ¬ w.Deleted validates m
  full : w.rendezvous.writer = .deletingSend → ∀ e < c.numEngines, w.Added e (w.update.train 0).step
  deleted : ∀ m, w.Deleted validates m → ∀ e < c.numEngines, w.Added e m
  resumed : ∀ e < c.numEngines, ∀ r < c.trainingWorldSize, w.resumed e ≤ (w.update.train r).offloaded

variable {c : Colocation} {validates : ℕ → Bool} {w w' : ValidatedState}

theorem Fresh.validation (h : w.Fresh) : w.Validation c validates := by
  refine ⟨h.update.exchange, ?_, ?_, ?_, ?_, ?_, ?_, ?_, ?_⟩
  · intro e hne
    exact absurd (h.engine e) hne
  · intro hne
    exact absurd (h.check 0) hne
  · intro hne
    exact absurd h.writer hne
  · intro obj
    simp [h.send]
  · intro obj hobj
    simp [MetaServer.setAt, h.send] at hobj
  · intro hdeleting
    simp [h.writer] at hdeleting
  · rintro m ⟨-, hpos, hm⟩
    simp [h.update.train] at hm
    omega
  · intro e _ r _
    simp [h.resumed]

theorem Validation.safe (h : w.Validation c validates) : w.Safe c := ⟨h.exchange.safe, h.resumed⟩

theorem Added.enter {u : StepState} (hstep : UpdateStep c w.update u) {e m : ℕ} (h : w.Added e m) :
    (w.enter validates u).Added e m := by
  -- an engine that starts a step is past the validations of all steps before
  unfold ValidatedState.Added
  rw [enter_update]
  rcases h with hlt | ⟨rfl, hadded⟩
  · left
    rcases hstep.engine_moves e with ⟨-, -, hstep⟩ | ⟨-, -, hstep⟩ | ⟨hstep, -⟩ <;> omega
  · rcases hstep.engine_moves e with ⟨-, -, hstep⟩ | ⟨-, -, hstep⟩ | ⟨hstep, -⟩
    · left
      omega
    all_goals
      refine .inr ⟨hstep.symm, ?_⟩
      rw [RendezvousState.Added, enter_engine, if_pos hstep]
      exact hadded

theorem Validation.same_step (h : w.Validation c validates) {u : StepState} (hstep : UpdateStep c w.update u)
    (hne : w.check 0 ≠ .validated) : (u.train 0).step = (w.update.train 0).step := by
  have hearly := (h.check hne).1
  rcases hstep.train_moves 0 with ⟨hidle, -, -, -⟩ | ⟨-, -, hsame, -⟩ | ⟨hsame, -, -⟩
  · rw [TrainPhase.Early, hidle] at hearly
    simp at hearly
  · exact hsame
  · exact hsame

theorem Validation.enter_deleted (h : w.Validation c validates) {u : StepState} (hstep : UpdateStep c w.update u)
    (m : ℕ) : (w.enter validates u).Deleted validates m ↔ w.Deleted validates m := by
  have hwriter : (w.enter validates u).rendezvous.Deleted ↔ w.rendezvous.Deleted := Iff.rfl
  unfold Deleted Met
  rw [hwriter, enter_check, enter_update]
  by_cases hsame : (u.train 0).step = (w.update.train 0).step
  · rw [if_pos hsame, hsame]
  · -- rank 0 starts its next step, so it is through with the validation of the last one
    have hvalidated : w.check 0 = .validated := by
      by_contra hne
      exact hsame (h.same_step hstep hne)
    have hnext : (u.train 0).step = (w.update.train 0).step + 1 := by
      rcases hstep.train_moves 0 with ⟨-, -, hnext, -⟩ | ⟨-, -, hstay, -⟩ | ⟨hstay, -, -⟩
      · exact hnext
      · exact absurd hstay hsame
      · exact absurd hstay hsame
    rw [if_neg hsame, hnext, hvalidated]
    refine and_congr_right fun hvalidates => and_congr_right fun _ => ?_
    constructor
    · rintro (hlt | ⟨rfl, hmet⟩)
      · have := Nat.lt_or_eq_of_le (Nat.le_of_lt_succ hlt)
        simpa using this
      · simp [hvalidates] at hmet
    · intro hold
      omega

theorem Validation.update (h : w.Validation c validates) {u : StepState} (hstep : UpdateStep c w.update u)
    (hoffload : ∀ r, (w.update.train r).phase = .converting → (u.train r).phase = .serializing →
      w.check r = .validated)
    (hresume : ∀ e, (w.update.engine e).phase = .waiting → (u.engine e).phase = .updating →
      w.rendezvous.engine e = .left) (hafter : ResumesAfterCleaning w.update u) :
    (w.enter validates u).Validation c validates := by
  have hdeleted := h.enter_deleted hstep
  have hadded : ∀ {e m}, w.Added e m → (w.enter validates u).Added e m := fun hadded => hadded.enter hstep
  refine ⟨h.exchange.step ⟨hstep, hafter⟩, ?_, ?_, ?_, h.isSet, ?_, ?_, ?_, ?_⟩
  · intro e hne
    rw [enter_engine] at hne
    rw [enter_update]
    rcases hstep.engine_moves e with ⟨-, hphase, hnext⟩ | ⟨hwaiting, hupdating, hsame⟩ | ⟨hsame, hwaiting⟩
    · rw [if_neg (by omega)] at hne
      refine ⟨hphase, ?_, by omega⟩
      by_contra hnot
      simp [Bool.eq_false_of_not_eq_true hnot] at hne
    · rw [if_pos hsame] at hne
      exact absurd (hresume e hwaiting hupdating) hne
    · rw [if_pos hsame] at hne
      rw [hsame]
      exact ⟨hwaiting (h.reader e hne).1, (h.reader e hne).2⟩
  · intro hne
    rw [enter_check] at hne
    rw [enter_update]
    rcases hstep.train_moves 0 with
      ⟨-, hphase, hnext, -⟩ | ⟨hconverting, hserializing, hsame, -⟩ | ⟨hsame, -, hearly⟩
    · rw [if_neg (by omega)] at hne
      refine ⟨.inl hphase, ?_, by omega⟩
      by_contra hnot
      simp [Bool.eq_false_of_not_eq_true hnot] at hne
    · rw [if_pos hsame] at hne
      exact absurd (hoffload 0 hconverting hserializing) hne
    · rw [if_pos hsame] at hne
      rw [hsame]
      exact ⟨hearly (h.check hne).1, (h.check hne).2⟩
  · intro hne
    have hmeeting := h.writer hne
    have hsame := h.same_step hstep (by simp [hmeeting])
    rw [enter_check, if_pos hsame, hmeeting]
  · intro obj hobj
    obtain ⟨e, he, rfl, m, hm, hpos, hin, hnot⟩ := h.members obj hobj
    exact ⟨e, he, rfl, m, hm, hpos, hadded hin, fun hdel => hnot ((hdeleted m).mp hdel)⟩
  · intro hdeleting e he
    have hmeeting := h.writer (by rw [show w.rendezvous.writer = .deletingSend from hdeleting]; simp)
    have hsame := h.same_step hstep (by simp [hmeeting])
    rw [enter_update, hsame]
    exact hadded (h.full hdeleting e he)
  · intro m hdel e he
    exact hadded (h.deleted m ((hdeleted m).mp hdel) e he)
  · intro e he r hr
    have hle := h.resumed e he r hr
    have hoffloads := h.exchange.offloads r
    rw [enter_update]
    change w.resumed e ≤ _
    rcases hstep.train_moves r with ⟨-, -, -, hsame⟩ | ⟨-, -, -, hnew⟩ | ⟨-, hsame, -⟩ <;> omega

theorem Validation.advance (h : w.Validation c validates) (hupdate : w'.update = w.update)
    (hsend : w'.rendezvous.server.storage sendKey = w.rendezvous.server.storage sendKey)
    (hengine : w'.rendezvous.engine = w.rendezvous.engine) (hresumed : w'.resumed = w.resumed)
    (hcheck : w'.check 0 ≠ .validated → w.check 0 ≠ .validated) (hmet : w'.Met ↔ w.Met)
    (hwriter : w'.rendezvous.writer ≠ .left → w'.check 0 = .meeting)
    (hfull : w'.rendezvous.writer = .deletingSend → ∀ e < c.numEngines, w.Added e (w.update.train 0).step) :
    w'.Validation c validates := by
  have hset : w'.rendezvous.server.setAt sendKey = w.rendezvous.server.setAt sendKey := by
    unfold MetaServer.setAt
    rw [hsend]
  have hadded : ∀ e m, w'.Added e m ↔ w.Added e m := by
    intro e m
    unfold Added RendezvousState.Added
    rw [hupdate, hengine]
  have hdeleted : ∀ m, w'.Deleted validates m ↔ w.Deleted validates m := by
    intro m
    unfold Deleted
    rw [hupdate, hmet]
  refine ⟨hupdate ▸ h.exchange, ?_, ?_, hwriter, ?_, ?_, ?_, ?_, ?_⟩
  · rw [hupdate, hengine]
    exact h.reader
  · rw [hupdate]
    exact fun hne => h.check (hcheck hne)
  · intro obj
    rw [hsend]
    exact h.isSet obj
  · intro obj hobj
    obtain ⟨e, he, rfl, m, hm, hpos, hin, hnot⟩ := h.members obj (hset ▸ hobj)
    exact ⟨e, he, rfl, m, hm, hpos, (hadded e m).mpr hin, fun hdel => hnot ((hdeleted m).mp hdel)⟩
  · intro hdeleting e he
    rw [hadded, hupdate]
    exact hfull hdeleting e he
  · intro m hdel e he
    exact (hadded e m).mpr (h.deleted m ((hdeleted m).mp hdel) e he)
  · rw [hupdate, hresumed]
    exact h.resumed

theorem Validation.setCheck (h : w.Validation c validates) {r : ℕ} {phase : CheckPhase}
    (hcheck : r = 0 → phase ≠ .validated → w.check 0 ≠ .validated) (hmet : (w.setCheck r phase).Met ↔ w.Met)
    (hwriter : r = 0 → w.rendezvous.writer = .left) : (w.setCheck r phase).Validation c validates := by
  refine h.advance rfl rfl rfl rfl ?_ hmet ?_ h.full
  · intro hne
    rw [setCheck_check] at hne
    split_ifs at hne with h0
    · exact hcheck h0.symm hne
    · exact hne
  · intro hne
    rw [setCheck_check]
    split_ifs with h0
    · exact absurd (hwriter h0.symm) hne
    · exact h.writer hne

theorem Validation.call (h : w.Validation c validates) (r : ℕ) : (w.call r).Validation c validates :=
  h.advance rfl rfl rfl rfl id Iff.rfl h.writer h.full

theorem Validation.saveCheckpoint (h : w.Validation c validates) {r : ℕ} (hcheck : w.check r = .saving) :
    ((w.setCheck r .saved).call r).Validation c validates := by
  apply Validation.call
  apply h.setCheck
  · rintro rfl _
    simp [hcheck]
  · unfold Met
    rw [setCheck_check]
    split_ifs with h0
    · rw [← h0] at hcheck
      simp [hcheck]
    · rfl
  · rintro rfl
    by_contra hne
    simp [h.writer hne] at hcheck

theorem Validation.passSave (h : w.Validation c validates) (hcheck : w.check 0 = .saved) :
    ((w.setCheck 0 .meeting).meet (w.rendezvous.write .saved)).Validation c validates := by
  refine h.advance ?_ ?_ ?_ ?_ ?_ ?_ ?_ ?_
  · rfl
  · rfl
  · rfl
  · rfl
  · simp [hcheck]
  · simp [Met, hcheck, RendezvousState.Deleted, RendezvousState.write]
  · simp
  · intro hdeleting
    simp [RendezvousState.write] at hdeleting

theorem Validation.passSaveOther (h : w.Validation c validates) {r : ℕ} (hr : r ≠ 0) :
    ((w.setCheck r .closing).call r).Validation c validates := by
  apply Validation.call
  apply h.setCheck
  · exact fun h0 => absurd h0 hr
  · unfold Met
    rw [setCheck_check, if_neg hr.symm]
    rfl
  · exact fun h0 => absurd h0 hr

theorem Validation.leaveMeeting (h : w.Validation c validates) (hcheck : w.check 0 = .meeting)
    (hwriter : w.rendezvous.writer = .left) : ((w.setCheck 0 .closing).call 0).Validation c validates := by
  apply Validation.call
  apply h.setCheck
  · simp [hcheck]
  · simp [Met, hcheck, RendezvousState.Deleted, hwriter]
  · exact fun _ => hwriter

theorem Validation.passClose (h : w.Validation c validates) {r : ℕ} (hcheck : w.check r = .closing) :
    (w.setCheck r .validated).Validation c validates := by
  apply h.setCheck
  · exact fun _ hne => absurd rfl hne
  · unfold Met
    rw [setCheck_check]
    split_ifs with h0
    · rw [← h0] at hcheck
      simp [hcheck]
    · rfl
  · rintro rfl
    by_contra hne
    simp [h.writer hne] at hcheck

theorem Validation.all_added (h : w.Validation c validates)
    (hlen : lenOf (w.rendezvous.server.getObject sendKey (some (.members ∅))) = some c.numEngines) :
    ∀ e < c.numEngines, w.Added e (w.update.train 0).step := by
  -- where rank 0 finds as many members as there are engines, none of them is left from a step before
  intro e he
  have hmem := MetaServer.mem_setAt_of_card (f := ReadyObject.engine) (fun _ _ => ReadyObject.engine.inj) h.isSet
    (fun obj hobj => by
      obtain ⟨e', he', rfl, _⟩ := h.members obj hobj
      exact ⟨e', he', rfl⟩) hlen le_rfl e he
  obtain ⟨e', _, heq, m, hm, hpos, hadded, hnot⟩ := h.members _ hmem
  obtain rfl := ReadyObject.engine.inj heq
  have hge : (w.update.train 0).step ≤ m := by
    by_contra hlt
    exact hnot ⟨hm, hpos, .inl (by omega)⟩
  rcases hge.eq_or_lt with hsame | hlt
  · rwa [hsame]
  · left
    rcases hadded with hm | ⟨rfl, -⟩ <;> omega

theorem Validation.deleteSend (h : w.Validation c validates) (hwriter : w.rendezvous.writer = .deletingSend) :
    (w.meet ((w.rendezvous.write .deletingLoad).serve
      (w.rendezvous.server.deleteIfExists sendKey))).Validation c validates := by
  have hmeeting : w.check 0 = .meeting := h.writer (by simp [hwriter])
  refine ⟨h.exchange, h.reader, h.check, fun _ => hmeeting, MetaServer.deleteIfExists_isSetKey _ _, ?_, ?_, ?_,
    h.resumed⟩
  · intro obj hobj
    have hempty := w.rendezvous.server.deleteIfExists_setAt sendKey
    rw [meet_rendezvous, RendezvousState.serve_server, hempty] at hobj
    simp at hobj
  · intro hdeleting
    simp [RendezvousState.write, RendezvousState.serve] at hdeleting
  · rintro m ⟨hm, hpos, hlt | ⟨rfl, _⟩⟩ e he
    · exact h.deleted m ⟨hm, hpos, .inl hlt⟩ e he
    · exact h.full hwriter e he

theorem Validation.goto (h : w.Validation c validates) {e : ℕ} {phase : ReaderPhase}
    {server : MetaServer String ReadyObject} (hfrom : w.rendezvous.engine e ≠ .left)
    (hadded : w.rendezvous.Added e → phase ≠ .waiting ∧ phase ≠ .loading) (hset : server.IsSetKey sendKey)
    (hmembers : ∀ obj ∈ server.setAt sendKey, obj ∈ w.rendezvous.server.setAt sendKey ∨
      obj = .engine e ∧ w.rendezvous.engine e = .loading ∧ phase = .reading) :
    (w.meet ((w.rendezvous.goto e phase).serve server)).Validation c validates := by
  have hengine : ∀ e', (w.meet ((w.rendezvous.goto e phase).serve server)).rendezvous.engine e' =
      if e' = e then phase else w.rendezvous.engine e' := by
    intro e'
    rw [meet_rendezvous, RendezvousState.serve_engine, RendezvousState.goto_engine]
  have hmono : ∀ {e' m}, w.Added e' m → (w.meet ((w.rendezvous.goto e phase).serve server)).Added e' m := by
    rintro e' m (hlt | ⟨hm, hin⟩)
    · exact .inl hlt
    · refine .inr ⟨hm, ?_⟩
      unfold RendezvousState.Added
      rw [hengine]
      split_ifs with he
      · exact hadded (he ▸ hin)
      · exact hin
  obtain ⟨hwaiting, hvalidates, hpos⟩ := h.reader e hfrom
  refine ⟨h.exchange, ?_, h.check, h.writer, hset, ?_, ?_, ?_, h.resumed⟩
  · intro e' hne
    rw [hengine] at hne
    split_ifs at hne with he
    · rw [he]
      exact h.reader e hfrom
    · exact h.reader e' hne
  · intro obj hobj
    rcases hmembers obj hobj with hold | ⟨rfl, hloading, rfl⟩
    · obtain ⟨e', he', rfl, m, hm, hpos', hin, hnot⟩ := h.members obj hold
      exact ⟨e', he', rfl, m, hm, hpos', hmono hin, hnot⟩
    · -- rank 0 cannot have deleted the set of this step, as the engine was not in it
      have he : e < c.numEngines := h.exchange.engines e (by simp [hwaiting])
      refine ⟨e, he, rfl, (w.update.engine e).step, hvalidates, hpos, .inr ⟨rfl, ?_⟩, ?_⟩
      · unfold RendezvousState.Added
        rw [hengine, if_pos rfl]
        simp
      · intro hdel
        rcases h.deleted _ hdel e he with hlt | ⟨-, hin⟩
        · exact lt_irrefl _ hlt
        · exact hin.2 hloading
  · intro hdeleting e' he'
    exact hmono (h.full hdeleting e' he')
  · intro m hdel e' he'
    exact hmono (h.deleted m hdel e' he')

theorem Validation.read (h : w.Validation c validates) {e : ℕ} {phase : ReaderPhase}
    (hfrom : w.rendezvous.engine e ≠ .left) (hphase : phase ≠ .waiting ∧ phase ≠ .loading) :
    (w.meet (w.rendezvous.goto e phase)).Validation c validates :=
  h.goto hfrom (fun _ => hphase) h.isSet fun _ hobj => .inl hobj

theorem Validation.meet (h : w.Validation c validates) {rendezvous : RendezvousState}
    (hstep : RendezvousStep c.numEngines w.rendezvous rendezvous) : (w.meet rendezvous).Validation c validates := by
  cases hstep with
  | put hwriter =>
    have hmeeting := h.writer (by simp [hwriter])
    refine h.advance rfl ?_ rfl rfl id ?_ (fun _ => hmeeting) ?_
    · exact MetaServer.storage_store_of_ne _ (by decide) _
    · simp [Met, RendezvousState.Deleted, RendezvousState.write, RendezvousState.serve, hwriter]
    · simp [RendezvousState.write, RendezvousState.serve]
  | poll k hwriter hlen =>
    have hmeeting := h.writer (by simp [hwriter])
    refine h.advance rfl rfl rfl rfl id ?_ (fun _ => hmeeting) ?_
    · split_ifs <;> simp [Met, RendezvousState.Deleted, RendezvousState.write, hwriter]
    · split_ifs with hk
      · exact fun _ => h.all_added (hk ▸ hlen)
      · simp [RendezvousState.write]
  | deleteSend hwriter => exact h.deleteSend hwriter
  | deleteLoad hwriter =>
    refine h.advance rfl ?_ rfl rfl id ?_ ?_ ?_
    · exact MetaServer.deleteIfExists_of_ne _ (by decide)
    · simp [Met, RendezvousState.Deleted, RendezvousState.write, RendezvousState.serve, hwriter]
    · simp [RendezvousState.write, RendezvousState.serve]
    · simp [RendezvousState.write, RendezvousState.serve]
  | found e he hphase _ =>
    apply h.goto (by simp [hphase]) _ h.isSet fun _ hobj => .inl hobj
    intro hadded
    exact absurd hphase hadded.1
  | add e server hphase hadd =>
    obtain ⟨server', hserver', hset, hmembers, _⟩ := MetaServer.addObjectToSet_spec h.isSet (.engine e)
    obtain rfl : server' = server := Except.ok.inj (hserver'.symm.trans hadd)
    apply h.goto (by simp [hphase]) (by simp) hset
    intro obj hobj
    rw [hmembers, Finset.mem_insert] at hobj
    rcases hobj with rfl | hobj
    · exact .inr ⟨rfl, hphase, rfl⟩
    · exact .inl hobj
  | read e hphase => exact h.read (by simp [hphase]) (firstRead_added _ _)
  | reread e hphase => exact h.read (by simp [hphase]) (nextRead_added _ _)

end ValidatedState

/-- An engine resumes its weights only for the update, and then on entries that rank 0 has not still to delete. -/
def ResumesForUpdate (w w' : ValidatedState) : Prop :=
  ResumesAfterCleaning w.update w'.update ∧ w'.resumed = w.resumed

theorem ResumesAfterCleaning.refl (s : StepState) : ResumesAfterCleaning s s := by
  intro e hwaiting hupdating
  simp [hwaiting] at hupdating

theorem ValidatedStep.update_eq_or {c : Colocation} {validates : ℕ → Bool} {w w' : ValidatedState}
    (h : ValidatedStep c validates w w') : UpdateStep c w.update w'.update ∨ w'.update = w.update := by
  cases h with
  | update u hstep _ _ => exact .inl hstep
  | _ => exact .inr rfl

theorem validated_run_update {c : Colocation} {validates : ℕ → Bool} {start w : ValidatedState}
    (h : Run (ValidatedStep c validates) start w) : Run (UpdateStep c) start.update w.update := by
  refine Relation.ReflTransGen.lift' ValidatedState.update ?_ _ _ h
  intro w w' hstep
  change Relation.ReflTransGen (UpdateStep c) w.update w'.update
  rcases hstep.update_eq_or with hupdate | hsame
  · exact .single hupdate
  · rw [hsame]

namespace ValidatedState

variable {c : Colocation} {validates : ℕ → Bool} {w w' : ValidatedState}

theorem Validation.step (h : w.Validation c validates)
    (hstep : Under (ValidatedStep c validates) ResumesForUpdate w w') : w'.Validation c validates := by
  obtain ⟨hstep, hafter, hresumed⟩ := hstep
  cases hstep with
  | update u hupdate hoffload hresume => exact h.update hupdate hoffload hresume hafter
  | saveCheckpoint r _ hcheck => exact h.saveCheckpoint hcheck
  | passSave hcheck _ => exact h.passSave hcheck
  | passSaveOther r hr _ _ => exact h.passSaveOther hr
  | rendezvous rendezvous hmeet _ => exact h.meet hmeet
  | resumeForValidation e _ hnew _ =>
    have hsame := congrFun hresumed e
    simp only [resume, Function.update_self] at hsame
    exact absurd hsame.symm hnew
  | leaveMeeting hcheck hwriter => exact h.leaveMeeting hcheck hwriter
  | passClose r hcheck _ => exact h.passClose hcheck

theorem Validation.offloaded_lt (h : w.Validation c validates) {e : ℕ} (hloading : w.rendezvous.engine e = .loading) :
    (w.update.train 0).offloaded < (w.update.engine e).step := by
  -- while an engine is to load the checkpoint of its step, rank 0 waits for it and has not offloaded its weights
  obtain ⟨hwaiting, hvalidates, hpos⟩ := h.reader e (by simp [hloading])
  have he : e < c.numEngines := h.exchange.engines e (by simp [hwaiting])
  have hnot : ¬ w.Deleted validates (w.update.engine e).step := by
    intro hdel
    rcases h.deleted _ hdel e he with hlt | ⟨-, hadded⟩
    · exact lt_irrefl _ hlt
    · exact hadded.2 hloading
  by_contra hle
  have hoffloads := h.exchange.offloads 0
  apply hnot
  refine ⟨hvalidates, hpos, ?_⟩
  by_cases hlt : (w.update.engine e).step < (w.update.train 0).step
  · exact .inl hlt
  · -- rank 0 has offloaded the weights in its running step, which it does after the validation
    refine .inr ⟨by omega, .inr (.inr ?_)⟩
    by_contra hne
    have hearly := (h.check hne).1
    have : (w.update.train 0).phase.notOffloaded = 1 := by
      rcases hearly with hphase | hphase | hphase <;> simp [hphase, TrainPhase.notOffloaded]
    omega

theorem Validation.resumes_for_update (h : w.Validation c validates) (hT : 0 < c.trainingWorldSize)
    (hstep : ValidatedStep c validates w w') (hsafe : w'.Safe c) : ResumesForUpdate w w' := by
  cases hstep with
  | update u hupdate _ _ => exact ⟨h.exchange.resumes_after_cleaning hT hupdate hsafe.1, rfl⟩
  | resumeForValidation e hloading _ _ =>
    have hlt := h.offloaded_lt hloading
    have he : e < c.numEngines := h.exchange.engines e (by simp [(h.reader e (by simp [hloading])).1])
    have hle := hsafe.2 e he 0 hT
    simp only [resume, Function.update_self] at hle
    omega
  | _ => exact ⟨.refl _, rfl⟩

/-- No rank and no engine is in a validation. -/
structure Unvalidated (w : ValidatedState) : Prop where
  check : ∀ r, w.check r = .validated
  engine : ∀ e, w.rendezvous.engine e = .left

theorem Unvalidated.enter (h : w.Unvalidated) (u : StepState) : (w.enter (fun _ => false) u).Unvalidated := by
  constructor
  · intro r
    rw [enter_check, h.check, cond_false, ite_self]
  · intro e
    rw [enter_engine, h.engine, cond_false, ite_self]

theorem Unvalidated.run (h : w.Unvalidated) {Q : StepState → StepState → Prop} {s : StepState}
    (hrun : Run (Under (UpdateStep c) Q) w.update s) : ∃ w', Run (Under (ValidatedStep c fun _ => false)
      fun w w' => Q w.update w'.update ∧ w'.resumed = w.resumed) w w' ∧ w'.Unvalidated ∧ w'.update = s := by
  induction hrun with
  | refl => exact ⟨w, .refl, h, rfl⟩
  | @tail s s' _ hlast ih =>
    obtain ⟨w', hrun, hunvalidated, rfl⟩ := ih
    refine ⟨w'.enter (fun _ => false) s', hrun.tail ⟨?_, hlast.2, rfl⟩, hunvalidated.enter s', rfl⟩
    apply ValidatedStep.update _ _ hlast.1
    · intro r _ _
      exact hunvalidated.check r
    · intro e _ _
      exact hunvalidated.engine e

def initial : ValidatedState :=
  ⟨.initial, ⟨⟨fun _ => none⟩, .left, fun _ => .left⟩, fun _ => .validated, fun _ => 0, fun _ => 0⟩

theorem initial_fresh : initial.Fresh :=
  ⟨StepState.initial_fresh, rfl, rfl, fun _ => rfl, fun _ => rfl, fun _ => rfl⟩

theorem initial_unvalidated : initial.Unvalidated := ⟨fun _ => rfl, fun _ => rfl⟩

end ValidatedState

theorem UpdateStep.validated {c : Colocation} {validates : ℕ → Bool} {w : ValidatedState} {u : StepState}
    (h : UpdateStep c w.update u) (hoffload : ∀ r, (u.train r).phase ≠ .serializing)
    (hresume : ∀ e, (u.engine e).phase ≠ .updating) : ValidatedStep c validates w (w.enter validates u) :=
  .update w u h (fun r _ hr => absurd hr (hoffload r)) fun e _ he => absurd he (hresume e)

/-- The runs in which every engine resumes its weights after all training ranks have offloaded theirs are those in which
no engine reads the entries of a step that rank 0 has still to delete, and none resumes its weights to load a
checkpoint. -/
theorem update_safe_iff {c : Colocation} {validates : ℕ → Bool} (hT : 0 < c.trainingWorldSize)
    {start : ValidatedState} (hstart : start.Fresh) {path : List ValidatedState}
    (hrun : (start :: path).IsChain (ValidatedStep c validates)) :
    (∀ w ∈ start :: path, w.Safe c) ↔ (start :: path).IsChain ResumesForUpdate := by
  apply chain_iff (I := (ValidatedState.Validation c validates ·)) _ _ _ hstart.validation hrun
  · intro w h
    exact h.safe
  · intro w w' h hstep hresumes
    exact h.step ⟨hstep, hresumes⟩
  · intro w w' h hstep hsafe
    exact h.resumes_for_update hT hstep hsafe

open ValidatedState

theorem update_safe_iff_oneDevice : ∃ path, (ValidatedState.initial :: path).IsChain
      (ValidatedStep oneDevice fun _ => false) ∧ (∀ w ∈ ValidatedState.initial :: path, w.Safe oneDevice) ∧
    ∃ w ∈ ValidatedState.initial :: path, (w.update.engine 0).resumed = 1 := by
  obtain ⟨s, hrun, hs⟩ : ∃ s, Run (Under (UpdateStep oneDevice) ResumesAfterCleaning) StepState.initial s ∧
      (s.engine 0).resumed = 1 := by
    refine ⟨_, .tail (.tail (.tail (.tail (.tail (.single ⟨.startTrain _ 0 Nat.one_pos rfl, ?_⟩)
      ⟨.passRelease _ 0 rfl (by decide), ?_⟩) ⟨.addOptimizers _ 0 _ rfl rfl, ?_⟩)
      ⟨.offloadWeights _ 0 _ rfl rfl, ?_⟩) ⟨.startEngine _ 0 Nat.one_pos rfl, ?_⟩)
      ⟨.resumeWeights _ 0 1 rfl rfl le_rfl, ?_⟩, rfl⟩
    case refine_6 =>
      intro e hwaiting _
      obtain rfl | he := eq_or_ne e 0
      · decide
      · rw [StepState.setEngine_engine, if_neg he] at hwaiting
        cases hwaiting
    case refine_5 =>
      intro e _ hupdating
      rw [StepState.setEngine_engine] at hupdating
      split_ifs at hupdating <;> cases hupdating
    all_goals
      intro e hwaiting _
      cases hwaiting
  obtain ⟨w, hlifted, -, rfl⟩ := initial_unvalidated.run hrun
  obtain ⟨path, hsteps, hresumes, hmem⟩ := hlifted.exists_chain
  exact ⟨path, hsteps, (update_safe_iff Nat.one_pos initial_fresh hsteps).mpr hresumes, w, hmem, hs⟩

theorem update_resumes_early : ¬ ∀ (c : Colocation) (validates : ℕ → Bool) (start w : ValidatedState),
    0 < c.trainingWorldSize → start.Fresh → Run (ValidatedStep c validates) start w → w.Safe c := by
  intro h
  have hoffloaded := (((Relation.ReflTransGen.single
    (.startTrain StepState.initial 0 Nat.one_pos rfl : UpdateStep oneDevice _ _)).tail
    (.passRelease _ 0 rfl (by decide))).tail (.addOptimizers _ 0 _ rfl rfl)).tail (.offloadWeights _ 0 _ rfl rfl)
  have hresumed := (hoffloaded.tail (.startEngine _ 0 Nat.one_pos rfl)).tail (.resumeWeights _ 0 1 rfl rfl le_rfl)
  have hupdated := (((hresumed.tail (.putSerialized _ 0 rfl)).tail (.startWorker _ 0 Nat.one_pos rfl rfl
    (by decide))).tail (.collect _ 0 rfl rfl)).tail (.putUpdated _ 0 rfl)
  have hwritten := ((hupdated.tail (.seeUpdate _ 0 rfl rfl)).tail (.clearUpdate _ 0 rfl)).tail (.putWritten _ 0 rfl)
  have hclosed := ((hwritten.tail (.passUpdate _ 0 rfl (by decide))).tail (.seeWritten _ 0 rfl rfl)).tail
    (.deleteWritten _ 0 _ rfl rfl)
  have hreturned := hclosed.tail (.finishEngine _ 0 _ rfl (by decide) rfl)
  have hagain := (hreturned.tail (.startEngine _ 0 Nat.one_pos rfl)).tail (.resumeWeights _ 0 1 rfl rfl le_rfl)
  have hunder : Run (Under (UpdateStep oneDevice) fun _ _ => True) StepState.initial _ :=
    Run.mono hagain fun _ _ hstep => ⟨hstep, trivial⟩
  obtain ⟨w, hrun, -, hw⟩ := initial_unvalidated.run hunder
  have hsafe := (h oneDevice _ _ w Nat.one_pos initial_fresh (hrun.mono fun _ _ hstep => hstep.1)).1
  rw [hw] at hsafe
  have := hsafe 0 Nat.one_pos 0 Nat.one_pos
  revert this
  decide

theorem validation_resumes_early : ∃ w, Run (ValidatedStep oneDevice fun _ => true) ValidatedState.initial w ∧
    w.resumed 0 = 1 ∧ (w.update.train 0).offloaded = 0 := by
  -- with a checkpoint, the engine resumes its weights in the first step while the training rank still has its own
  have hreleased : Run (ValidatedStep oneDevice fun _ => true) ValidatedState.initial _ :=
    (Relation.ReflTransGen.single (UpdateStep.validated (.startTrain StepState.initial 0 Nat.one_pos rfl) ?_ ?_)).tail
      (UpdateStep.validated (.passRelease _ 0 rfl (by decide)) ?_ ?_)
  have hstarted := (hreleased.tail (UpdateStep.validated (.addOptimizers _ 0 _ rfl rfl) ?_ ?_)).tail
    (UpdateStep.validated (.startEngine _ 0 Nat.one_pos rfl) ?_ ?_)
  have hsaved := (hstarted.tail (.saveCheckpoint _ 0 rfl rfl)).tail (.passSave _ rfl (by decide))
  have hput := hsaved.tail (.rendezvous _ _ (.put _ rfl) fun _ hloading hreading =>
    absurd (hloading.symm.trans hreading) (by decide))
  have hfound := hput.tail (.rendezvous _ _ (.found _ 0 Nat.one_pos rfl rfl) fun e hloading hreading => by
    rw [RendezvousState.goto_engine] at hreading
    by_cases he : e = 0
    · rw [if_pos he] at hreading
      cases hreading
    · rw [if_neg he] at hreading
      exact absurd (hloading.symm.trans hreading) (by decide))
  · exact ⟨_, hfound.tail (.resumeForValidation _ 0 rfl (by decide) rfl), rfl, rfl⟩
  all_goals
    intro i
    obtain rfl | hi := eq_or_ne i 0
    · decide
    · simp [StepState.goto, StepState.setEngine, hi, StepState.initial, ValidatedState.initial]

end Awex
