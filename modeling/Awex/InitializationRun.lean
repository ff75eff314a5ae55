import Awex.InitializationSpec

namespace Awex

open Levels Runs

namespace InitSetup

variable {c : InitSetup} {s : InitState} (hsizes : c.SizesAgree) (h : c.InInit s)
include h

theorem InInit.after {q : InitParty} {t t' : InitTask} (harrived : s.Arrived q t) (hlt : t'.level q < t.level q) :
    t' ∉ s.todo q := by
  intro ht'
  have hle := le_of_arrived (initProgram_sorted q) (h.suffix q) harrived.1 harrived.2 ht'
  omega

include hsizes

theorem InInit.broadcastParams (harrived : s.Arrived (.train 0) .broadcastInferParamsMeta) :
    (s.vars (.train 0)).inferParams = some (c.inferParams 0) := by
  apply (h.gained (.train 0) (train_mem_parties.mpr hsizes.trainers) .getInferParamsMeta _ _).inferParams _ rfl
  · simp [initProgram]
  · apply h.after harrived
    simp [InitTask.level]

omit hsizes in
theorem InInit.engineParams {e : ℕ} (he : e < c.numEngines) (harrived : s.Arrived (.engine e) (.awaitTpWorkers e)) :
    (s.vars (.engine e)).inferParams = some (c.inferParams e) ∧
      (s.vars (.engine e)).trainParams = some c.trainParams := by
  have hengine : .engine e ∈ c.parties := engine_mem_parties.mpr he
  constructor
  · apply (h.gained (.engine e) hengine (.resolveParamsMeta e) _ _).inferParams _ rfl
    · simp [initProgram]
    · apply h.after harrived
      simp [InitTask.level]
  · apply (h.gained (.engine e) hengine .getTrainingParamsMeta _ _).trainParams _ rfl
    · simp [initProgram]
    · apply h.after harrived
      simp [InitTask.level]

/-- A task adds what it gains, whatever the others have done. -/
theorem InInit.perform_spec {p : InitParty} (hp : p ∈ c.parties) {t : InitTask} (ht : t ∈ initProgram p)
    {server' : MetaServer InitKey InitObject} {v' : InitVars} (hperform : c.perform s p t = some (server', v')) :
    v' = (s.vars p).fill (c.gain p t) ∧ c.Grows s.server server' (puts p t) ∧ c.Passed p t := by
  have hbelow := h.below p hp
  have hsame := h.serves.grows_self
  cases t with
  | putNumInferEngines =>
    cases hperform
    exact ⟨rfl, h.serves.grows_put rfl, trivial⟩
  | addInitedEngine e =>
    obtain ⟨added, hadd, hgrows⟩ := h.serves.grows_add (.engineRank e)
    simp only [perform, hadd, Except.toOption] at hperform
    cases hperform
    exact ⟨rfl, hgrows, trivial⟩
  | resolveParamsMeta e =>
    cases hperform
    cases p with
    | engine e' =>
      obtain rfl : e = e' := by simpa [initProgram] using ht
      exact ⟨rfl, hsame, trivial⟩
    | worker e' i => simp [initProgram] at ht
    | train r => simp [initProgram] at ht
  | putInferConf =>
    cases hperform
    exact ⟨rfl, h.serves.grows_put rfl, trivial⟩
  | putInferParamsMeta =>
    simp only [perform, Option.bind_eq_bind, Option.bind_eq_some_iff] at hperform
    obtain ⟨params, hparams, hperform⟩ := hperform
    cases hperform
    obtain rfl := inferParams_eq hbelow hparams
    cases p with
    | engine e =>
      obtain rfl : e = 0 := by simpa [initProgram] using ht
      exact ⟨rfl, h.serves.grows_put rfl, trivial⟩
    | worker e i => simp [initProgram] at ht
    | train r => simp [initProgram] at ht
  | getInferConf =>
    simp only [perform, Option.bind_eq_bind, Option.bind_eq_some_iff] at hperform
    obtain ⟨size, hread, hperform⟩ := hperform
    cases hperform
    obtain rfl : c.inferWorldSize = size := Option.some.inj (h.serves.read_eq hread)
    cases p with
    | engine e => simp [initProgram] at ht
    | worker e i => simp [initProgram] at ht
    | train r => exact ⟨rfl, hsame, trivial⟩
  | gatherParamsMeta =>
    simp only [perform] at hperform
    split_ifs at hperform
    cases hperform
    cases p with
    | engine e => simp [initProgram] at ht
    | worker e i => simp [initProgram] at ht
    | train r => exact ⟨rfl, hsame, trivial⟩
  | putTrainingParamsMeta =>
    simp only [perform, Option.bind_eq_bind, Option.bind_eq_some_iff] at hperform
    obtain ⟨params, hparams, hperform⟩ := hperform
    cases hperform
    obtain rfl := trainParams_eq hbelow hparams
    exact ⟨rfl, h.serves.grows_put rfl, trivial⟩
  | getInferParamsMeta =>
    simp only [perform, Option.bind_eq_bind, Option.bind_eq_some_iff] at hperform
    obtain ⟨params, hread, hperform⟩ := hperform
    cases hperform
    obtain rfl : c.inferParams 0 = params := Option.some.inj (h.serves.read_eq hread)
    cases p with
    | engine e => simp [initProgram] at ht
    | worker e i => simp [initProgram] at ht
    | train r => exact ⟨rfl, hsame, trivial⟩
  | broadcastInferParamsMeta =>
    simp only [perform] at hperform
    split_ifs at hperform with harrived
    rw [h.broadcastParams hsizes harrived] at hperform
    cases hperform
    cases p with
    | engine e => simp [initProgram] at ht
    | worker e i => simp [initProgram] at ht
    | train r => exact ⟨rfl, hsame, trivial⟩
  | getTrainingParamsMeta =>
    simp only [perform, Option.bind_eq_bind, Option.bind_eq_some_iff] at hperform
    obtain ⟨params, hread, hperform⟩ := hperform
    cases hperform
    obtain rfl : c.trainParams = params := Option.some.inj (h.serves.read_eq hread)
    cases p with
    | engine e => exact ⟨rfl, hsame, trivial⟩
    | worker e i => simp [initProgram] at ht
    | train r => simp [initProgram] at ht
  | checkParamsMeta =>
    simp only [perform, Option.bind_eq_bind, Option.bind_eq_some_iff] at hperform
    obtain ⟨infer, hinfer, train, htrain, u, hcheck, hperform⟩ := hperform
    cases hperform
    obtain rfl := inferParams_eq hbelow hinfer
    obtain rfl := trainParams_eq hbelow htrain
    refine ⟨rfl, hsame, ?_⟩
    unfold Passed
    cases hresult : checkTrainInferParamsMeta c.trainParams (c.paramsOf p) (c.raiseException p)
        c.strictParamKeyMatch with
    | error e => simp [hresult, Except.toOption] at hcheck
    | ok u => rfl
  | getNumInferEngines =>
    simp only [perform, Option.bind_eq_bind, Option.bind_eq_some_iff] at hperform
    obtain ⟨engines, hread, hperform⟩ := hperform
    cases hperform
    obtain rfl : c.numEngines = engines := Option.some.inj (h.serves.read_eq hread)
    cases p with
    | engine e => simp [initProgram] at ht
    | worker e i => simp [initProgram] at ht
    | train r => exact ⟨rfl, hsame, trivial⟩
  | startTpWorkers =>
    cases hperform
    exact ⟨rfl, hsame, trivial⟩
  | initInTpWorker e =>
    simp only [perform] at hperform
    split_ifs at hperform with harrived
    cases p with
    | engine e' => simp [initProgram] at ht
    | worker e' i =>
      obtain rfl : e = e' := by simpa [initProgram] using ht
      obtain ⟨hinfer, htrain⟩ := h.engineParams (worker_mem_parties.mp hp).1 harrived
      rw [hinfer, htrain] at hperform
      cases hperform
      exact ⟨rfl, hsame, trivial⟩
    | train r => simp [initProgram] at ht
  | buildTransferPlan =>
    simp only [perform, Option.bind_eq_bind, Option.bind_eq_some_iff] at hperform
    obtain ⟨plan, hplan, hperform⟩ := hperform
    cases hperform
    have hplan := plan_eq hbelow hplan
    refine ⟨?_, hsame, ?_⟩
    · simp [gain, InitVars.fill, InitVars.empty, hplan]
    · simp [Passed, hplan]
  | shareMasterInfo =>
    simp only [perform, Option.bind_eq_bind, Option.bind_eq_some_iff] at hperform
    obtain ⟨⟨rank, worldSize⟩, hseat, hperform⟩ := hperform
    cases seat_known hsizes hp hbelow hseat
    cases p with
    | engine e => simp [initProgram] at ht
    | worker e i =>
      have hrank : c.rank (.worker e i) = 0 ↔ InitParty.worker e i = .worker 0 0 := by
        simp [rank, hsizes.instances.ne']
      dsimp only at hperform
      split_ifs at hperform with hzero
      · cases hperform
        rw [puts, if_pos (hrank.mp hzero)]
        cases hrank.mp hzero
        exact ⟨rfl, h.serves.grows_put rfl, trivial⟩
      · simp only [Option.bind_eq_some_iff] at hperform
        obtain ⟨info, hread, hperform⟩ := hperform
        cases hperform
        obtain rfl : c.master = info := Option.some.inj (h.serves.read_eq hread)
        rw [puts, if_neg fun heq => hzero (hrank.mpr heq)]
        exact ⟨rfl, hsame, trivial⟩
    | train r => simp [initProgram] at ht
  | getMasterInfo =>
    simp only [perform, Option.bind_eq_bind, Option.bind_eq_some_iff] at hperform
    obtain ⟨info, hread, hperform⟩ := hperform
    cases hperform
    obtain rfl : c.master = info := Option.some.inj (h.serves.read_eq hread)
    cases p with
    | engine e => simp [initProgram] at ht
    | worker e i => simp [initProgram] at ht
    | train r => exact ⟨rfl, hsame, trivial⟩
  | initProcessGroup =>
    simp only [perform, Option.bind_eq_bind, Option.bind_eq_some_iff] at hperform
    obtain ⟨⟨rank, worldSize⟩, -, info, -, hperform⟩ := hperform
    split_ifs at hperform
    cases hperform
    exact ⟨rfl, hsame, trivial⟩
  | barrier =>
    simp only [perform, Option.bind_eq_bind, Option.bind_eq_some_iff] at hperform
    obtain ⟨⟨rank, worldSize⟩, -, info, -, hperform⟩ := hperform
    split_ifs at hperform
    cases hperform
    exact ⟨rfl, hsame, trivial⟩
  | shakeHands =>
    simp only [perform, Option.bind_eq_bind, Option.bind_eq_some_iff] at hperform
    obtain ⟨⟨rank, worldSize⟩, -, hperform⟩ := hperform
    dsimp only at hperform
    split_ifs at hperform
    cases hperform
    exact ⟨rfl, hsame, trivial⟩
  | batchIsendIrecv =>
    simp only [perform, Option.bind_eq_bind, Option.bind_eq_some_iff] at hperform
    obtain ⟨⟨rank, worldSize⟩, hseat, hperform⟩ := hperform
    cases seat_known hsizes hp hbelow hseat
    dsimp only at hperform
    split_ifs at hperform
    cases hperform
    refine ⟨?_, hsame, trivial⟩
    cases hvalue : receivedValue c.worldSize (c.rank p) with
    | some value => simp [gain, InitVars.fill, InitVars.empty, hvalue]
    | none =>
      have hnone : (s.vars p).recvTensor = none := by
        cases hrecv : (s.vars p).recvTensor with
        | none => rfl
        | some x => exact absurd (hvalue.symm.trans (hbelow.recvTensor x hrecv)) (by simp)
      simp [gain, InitVars.fill, InitVars.empty, hvalue, hnone]
  | setupBarrier =>
    simp only [perform, Option.bind_eq_bind, Option.bind_eq_some_iff] at hperform
    obtain ⟨⟨rank, worldSize⟩, -, info, -, hperform⟩ := hperform
    split_ifs at hperform
    cases hperform
    exact ⟨rfl, hsame, trivial⟩
  | awaitTpWorkers e =>
    simp only [perform] at hperform
    split_ifs at hperform
    cases hperform
    exact ⟨rfl, hsame, trivial⟩

theorem InInit.step {p : InitParty} (hp : p ∈ c.parties) {s' : InitState} (hstep : c.step s p = some s') :
    c.InInit s' := by
  unfold InitSetup.step at hstep
  cases htodo : s.todo p with
  | nil => simp [htodo] at hstep
  | cons t rest =>
    simp only [htodo, Option.map_eq_some_iff] at hstep
    obtain ⟨⟨server', v'⟩, hperform, rfl⟩ := hstep
    have ht : t ∈ initProgram p := (h.suffix p).subset (by simp [htodo])
    obtain ⟨rfl, hgrows, hpassed⟩ := h.perform_spec hsizes hp ht hperform
    obtain ⟨hmore, hbelow⟩ := (h.below p hp).fill (c.gain_le p t)
    have hvars : ∀ q, (s.vars q).Le (Function.update s.vars p ((s.vars p).fill (c.gain p t)) q) := by
      intro q
      by_cases hq : q = p
      · subst hq
        rw [Function.update_self]
        exact hmore
      · rw [Function.update_of_ne hq]
        exact .refl _
    -- what is done now has been done before, or is the task of this step
    have hdone : ∀ q u, u ∉ Function.update s.todo p rest q → q = p ∧ u = t ∨ u ∉ s.todo q := by
      intro q u hu
      by_cases hq : q = p
      · subst hq
        rw [Function.update_self] at hu
        by_cases hut : u = t
        · exact .inl ⟨rfl, hut⟩
        · right
          simp [htodo, hut, hu]
      · rw [Function.update_of_ne hq] at hu
        exact .inr hu
    constructor
    · intro q
      change Function.update s.todo p rest q <:+ initProgram q
      by_cases hq : q = p
      · subst hq
        rw [Function.update_self]
        exact (htodo ▸ List.suffix_cons t rest).trans (h.suffix q)
      · rw [Function.update_of_ne hq]
        exact h.suffix q
    · intro q hmem
      change (Function.update s.vars p ((s.vars p).fill (c.gain p t)) q).Le (c.finished q)
      by_cases hq : q = p
      · subst hq
        rw [Function.update_self]
        exact hbelow
      · rw [Function.update_of_ne hq]
        exact h.below q hmem
    · exact hgrows.serves
    · intro q hmem u hu hnot
      change (c.gain q u).Le (Function.update s.vars p ((s.vars p).fill (c.gain p t)) q)
      rcases hdone q u hnot with ⟨rfl, rfl⟩ | hbefore
      · rw [Function.update_self]
        exact InitVars.le_fill _ _
      · exact (h.gained q hmem u hu hbefore).trans (hvars q)
    · intro q hmem u hu hnot key hkey
      rcases hdone q u hnot with ⟨rfl, rfl⟩ | hbefore
      · exact hgrows.puts key hkey
      · exact hgrows.keeps key (h.kept q hmem u hu hbefore key hkey)
    · intro q hmem u hu hnot
      rcases hdone q u hnot with ⟨rfl, rfl⟩ | hbefore
      · exact hpassed
      · exact h.passed q hmem u hu hbefore

end InitSetup

end Awex
