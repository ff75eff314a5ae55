import Mathlib.Algebra.Order.Ring.Int
import Mathlib.Data.Int.Basic

namespace Awex

structure ValidationConfig where
  weightsValidationSteps : ℤ
  validateWeightsEveryNSteps : ℤ
  deriving DecidableEq, Repr

/-- `validated_steps` and `start_step` of a writer or a reader. -/
structure ValidationCounter where
  validatedSteps : ℤ
  startStep : ℤ
  deriving DecidableEq, Repr

inductive ValidationDecision where
  | validate
  | skip
  | zeroDivision
  deriving DecidableEq, Repr

structure UpdateAttempt where
  stepId : ℤ
  transferred : Bool
  deriving DecidableEq, Repr

def ValidationCounter.init : ValidationCounter := ⟨0, -1⟩

/-- `if self.validated_steps == 0: self.start_step = step_id`. -/
def ValidationCounter.begin (counter : ValidationCounter) (stepId : ℤ) : ValidationCounter :=
  if counter.validatedSteps = 0 then { counter with startStep := stepId } else counter

def ValidationCounter.decide (counter : ValidationCounter) (config : ValidationConfig) (stepId : ℤ) :
    ValidationDecision :=
  if config.weightsValidationSteps ≤ counter.validatedSteps then .skip
  else if config.validateWeightsEveryNSteps = 0 then .zeroDivision
  else if (stepId - counter.startStep).fmod config.validateWeightsEveryNSteps ≠ 0 then .skip
  else .validate

/-- `_validate_weights` of the writer, and of the reader after the transfer. -/
def validateWeights (config : ValidationConfig) (counter : ValidationCounter) (stepId : ℤ) :
    ValidationDecision × ValidationCounter :=
  let counter := counter.begin stepId
  let decision := counter.decide config stepId
  (decision, if decision = .validate then { counter with validatedSteps := counter.validatedSteps + 1 } else counter)

def preValidateWeights (config : ValidationConfig) (counter : ValidationCounter) (stepId : ℤ) :
    ValidationDecision × ValidationCounter :=
  let counter := counter.begin stepId
  (counter.decide config stepId, counter)

/-- `write_weights`: the counter has moved before the transfer. -/
def writeWeights (config : ValidationConfig) (counter : ValidationCounter) (attempt : UpdateAttempt) :
    ValidationDecision × ValidationCounter :=
  validateWeights config counter attempt.stepId

/-- `update_weights`: an exception in `_pre_validate_weights` or in the transfer leaves out
`_validate_weights`. -/
def updateWeights (config : ValidationConfig) (counter : ValidationCounter) (attempt : UpdateAttempt) :
    ValidationDecision × ValidationCounter :=
  let pre := preValidateWeights config counter attempt.stepId
  if pre.1 = .zeroDivision ∨ attempt.transferred = false then pre
  else (pre.1, (validateWeights config pre.2 attempt.stepId).2)

def decisions (config : ValidationConfig) (writer reader : ValidationCounter) :
    List UpdateAttempt → List (ValidationDecision × ValidationDecision)
  | [] => []
  | attempt :: attempts =>
    let write := writeWeights config writer attempt
    let update := updateWeights config reader attempt
    (write.1, update.1) :: decisions config write.2 update.2 attempts

/-- The step is a whole number of periods away from the first one. -/
def ValidationConfig.Due (config : ValidationConfig) (start : ℤ) (attempt : UpdateAttempt) : Prop :=
  config.validateWeightsEveryNSteps ≠ 0 ∧
    (attempt.stepId - start).fmod config.validateWeightsEveryNSteps = 0

instance (config : ValidationConfig) (start : ℤ) (attempt : UpdateAttempt) :
    Decidable (config.Due start attempt) :=
  inferInstanceAs (Decidable (_ ∧ _))

def scheduled (config : ValidationConfig) (attempts : List UpdateAttempt) : List UpdateAttempt :=
  match attempts with
  | [] => []
  | first :: _ => (attempts.filter (config.Due first.stepId ·)).take config.weightsValidationSteps.toNat

@[simp] theorem begin_of_pos {counter : ValidationCounter} (h : 0 < counter.validatedSteps) (stepId : ℤ) :
    counter.begin stepId = counter := by
  unfold ValidationCounter.begin
  rw [if_neg (by omega)]

theorem decide_of_done {config : ValidationConfig} {counter : ValidationCounter}
    (h : config.weightsValidationSteps ≤ counter.validatedSteps) (stepId : ℤ) :
    counter.decide config stepId = .skip := by
  unfold ValidationCounter.decide
  rw [if_pos h]

theorem decide_of_due {config : ValidationConfig} {counter : ValidationCounter} {attempt : UpdateAttempt}
    (h : counter.validatedSteps < config.weightsValidationSteps) (hdue : config.Due counter.startStep attempt) :
    counter.decide config attempt.stepId = .validate := by
  unfold ValidationCounter.decide
  rw [if_neg (by omega), if_neg hdue.1, if_neg (by simpa using hdue.2)]

theorem decide_ne_validate {config : ValidationConfig} {counter : ValidationCounter} {attempt : UpdateAttempt}
    (hdue : ¬ config.Due counter.startStep attempt) : counter.decide config attempt.stepId ≠ .validate := by
  unfold ValidationCounter.decide
  intro h
  split_ifs at h with _ hzero hmod
  exact hdue ⟨hzero, by simpa using hmod⟩

theorem writeWeights_eq {config : ValidationConfig} {counter : ValidationCounter} (h : 0 < counter.validatedSteps)
    (attempt : UpdateAttempt) :
    writeWeights config counter attempt =
      (counter.decide config attempt.stepId, if counter.decide config attempt.stepId = .validate then
        ⟨counter.validatedSteps + 1, counter.startStep⟩ else counter) := by
  simp [writeWeights, validateWeights, begin_of_pos h]

theorem updateWeights_eq {config : ValidationConfig} {counter : ValidationCounter} (h : 0 < counter.validatedSteps)
    (attempt : UpdateAttempt) :
    updateWeights config counter attempt =
      (counter.decide config attempt.stepId,
        if counter.decide config attempt.stepId = .validate ∧ attempt.transferred = true then
          ⟨counter.validatedSteps + 1, counter.startStep⟩ else counter) := by
  unfold updateWeights preValidateWeights validateWeights
  cases hd : counter.decide config attempt.stepId <;> cases ht : attempt.transferred <;>
    simp [begin_of_pos h, hd]

theorem decisions_of_counter {config : ValidationConfig} (counter : ValidationCounter)
    (h : 0 < counter.validatedSteps) (attempts : List UpdateAttempt)
    (hok : ∀ attempt ∈ (attempts.filter (config.Due counter.startStep ·)).take
      (config.weightsValidationSteps - counter.validatedSteps).toNat, attempt.transferred = true) :
    ∀ p ∈ decisions config counter counter attempts, p.1 = p.2 := by
  induction attempts generalizing counter with
  | nil => simp [decisions]
  | cons attempt attempts ih =>
    rw [decisions, writeWeights_eq h, updateWeights_eq h]
    dsimp only
    intro p hp
    rcases List.mem_cons.mp hp with rfl | hp
    · rfl
    · by_cases hdue : config.Due counter.startStep attempt
      · by_cases hdone : config.weightsValidationSteps ≤ counter.validatedSteps
        · rw [decide_of_done hdone] at hp
          apply ih counter h _ p hp
          simp [Int.toNat_of_nonpos (show config.weightsValidationSteps - counter.validatedSteps ≤ 0 by omega)]
        · obtain ⟨n, hn⟩ : ∃ n, (config.weightsValidationSteps - counter.validatedSteps).toNat = n + 1 :=
            ⟨(config.weightsValidationSteps - counter.validatedSteps - 1).toNat, by omega⟩
          have hlast : (config.weightsValidationSteps - (counter.validatedSteps + 1)).toNat = n := by omega
          rw [List.filter_cons_of_pos (by simpa using hdue), hn, List.take_succ_cons] at hok
          have hfirst := hok attempt List.mem_cons_self
          rw [decide_of_due (by omega) hdue, if_pos rfl, if_pos ⟨rfl, hfirst⟩] at hp
          refine ih ⟨counter.validatedSteps + 1, counter.startStep⟩ (by dsimp only; omega) ?_ p hp
          intro a ha
          apply hok a
          apply List.mem_cons_of_mem
          simpa [hlast] using ha
      · rw [if_neg (decide_ne_validate hdue), if_neg (fun hc => decide_ne_validate hdue hc.1)] at hp
        apply ih counter h _ p hp
        simpa [hdue] using hok

theorem decisions_of_never {config : ValidationConfig} {writer reader : ValidationCounter}
    (hconfig : config.weightsValidationSteps ≤ 0 ∨ config.validateWeightsEveryNSteps = 0)
    (hwriter : writer.validatedSteps = 0) (hreader : reader.validatedSteps = 0) (attempts : List UpdateAttempt) :
    ∀ p ∈ decisions config writer reader attempts, p.1 = p.2 := by
  induction attempts generalizing writer reader with
  | nil => simp [decisions]
  | cons attempt attempts ih =>
    have hsame : ∀ {counter : ValidationCounter}, counter.validatedSteps = 0 →
        (counter.begin attempt.stepId).decide config attempt.stepId =
          (if config.weightsValidationSteps ≤ 0 then .skip else .zeroDivision) ∧
        (counter.begin attempt.stepId).validatedSteps = 0 := by
      intro counter h
      have hzero : (counter.begin attempt.stepId).validatedSteps = 0 := by
        simp [ValidationCounter.begin, h]
      refine ⟨?_, hzero⟩
      unfold ValidationCounter.decide
      rw [hzero]
      rcases hconfig with hsteps | hn
      · rw [if_pos hsteps, if_pos hsteps]
      · simp [hn]
    obtain ⟨hw, hw0⟩ := hsame hwriter
    obtain ⟨hr, hr0⟩ := hsame hreader
    obtain ⟨hr', hr0'⟩ := hsame hr0
    have hne : (if config.weightsValidationSteps ≤ 0 then ValidationDecision.skip else .zeroDivision) ≠ .validate := by
      split_ifs <;> simp
    have hwrite : writeWeights config writer attempt =
        (if config.weightsValidationSteps ≤ 0 then .skip else .zeroDivision, writer.begin attempt.stepId) := by
      simp only [writeWeights, validateWeights, hw, if_neg hne]
    have hupdate : (updateWeights config reader attempt).1 =
          (if config.weightsValidationSteps ≤ 0 then .skip else .zeroDivision) ∧
        (updateWeights config reader attempt).2.validatedSteps = 0 := by
      unfold updateWeights preValidateWeights validateWeights
      dsimp only
      rw [hr, hr', if_neg hne]
      split_ifs <;> simp [hr0, hr0']
    intro p hp
    rw [decisions, hwrite] at hp
    rcases List.mem_cons.mp hp with rfl | hp
    · exact hupdate.1.symm
    · exact ih hw0 hupdate.2 p hp

/-- Where the transfer of no scheduled step fails, the writer and the reader decide alike. -/
theorem decisions_agree {config : ValidationConfig} {attempts : List UpdateAttempt}
    (hok : ∀ attempt ∈ scheduled config attempts, attempt.transferred = true) :
    ∀ p ∈ decisions config .init .init attempts, p.1 = p.2 := by
  by_cases hconfig : config.weightsValidationSteps ≤ 0 ∨ config.validateWeightsEveryNSteps = 0
  · exact decisions_of_never hconfig rfl rfl attempts
  obtain ⟨hsteps, hn⟩ := not_or.mp hconfig
  cases attempts with
  | nil => simp [decisions]
  | cons first attempts =>
    have hdue : config.Due first.stepId first := ⟨hn, by simp⟩
    obtain ⟨n, hlast⟩ : ∃ n, config.weightsValidationSteps.toNat = n + 1 :=
      ⟨(config.weightsValidationSteps - 1).toNat, by omega⟩
    rw [scheduled, List.filter_cons_of_pos (by simpa using hdue), hlast, List.take_succ_cons] at hok
    have hfirst := hok first List.mem_cons_self
    have hbegin : ValidationCounter.init.begin first.stepId = ⟨0, first.stepId⟩ := rfl
    have hvalidate : ValidationCounter.decide ⟨0, first.stepId⟩ config first.stepId = .validate :=
      decide_of_due (by dsimp only; omega) hdue
    have hwrite : writeWeights config .init first = (.validate, ⟨1, first.stepId⟩) := by
      simp [writeWeights, validateWeights, hbegin, hvalidate]
    have hupdate : updateWeights config .init first = (.validate, ⟨1, first.stepId⟩) := by
      have hagain : ValidationCounter.begin ⟨0, first.stepId⟩ first.stepId = ⟨0, first.stepId⟩ := rfl
      simp [updateWeights, preValidateWeights, validateWeights, hbegin, hagain, hvalidate, hfirst]
    intro p hp
    rw [decisions, hwrite, hupdate] at hp
    rcases List.mem_cons.mp hp with rfl | hp
    · rfl
    · refine decisions_of_counter ⟨1, first.stepId⟩ Int.one_pos attempts ?_ p hp
      intro a ha
      apply hok a
      apply List.mem_cons_of_mem
      have hcount : (config.weightsValidationSteps - 1).toNat = n := by omega
      simpa [hcount] using ha

theorem decisions_agree_skipped :
    ⟨1, false⟩ ∉ scheduled ⟨2, 2⟩ [⟨0, true⟩, ⟨1, false⟩, ⟨2, true⟩, ⟨4, true⟩] ∧
      ∀ p ∈ decisions ⟨2, 2⟩ .init .init [⟨0, true⟩, ⟨1, false⟩, ⟨2, true⟩, ⟨4, true⟩], p.1 = p.2 :=
  ⟨by decide, decisions_agree (by decide)⟩

theorem decisions_diverge : ¬ ∀ (config : ValidationConfig) (attempts : List UpdateAttempt),
    attempts.Pairwise (fun a b => a.stepId < b.stepId) →
    ∀ p ∈ decisions config .init .init attempts, p.1 = p.2 := by
  intro h
  have := h ⟨1, 1⟩ [⟨0, false⟩, ⟨1, true⟩] (by decide) (.skip, .validate) (by decide)
  revert this
  decide

end Awex
