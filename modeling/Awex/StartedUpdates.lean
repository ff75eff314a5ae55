import Awex.EnginePlans
import Awex.Initialized

namespace Awex

open Levels Runs Simulation

variable {α : Type}

theorem SyncStep.congr {cast : Dtype → Dtype → α → α} {b : TransferPlanBuilder} {train : List ParameterMeta}
    {plan plan' : ℕ → TransferPlan} {parameters : ℕ → Dict String Parameter}
    (hsends : ∀ g (memory : Memory α), ncclBuildSendOps (parameters g) (plan g) (-1) true memory =
      ncclBuildSendOps (parameters g) (plan' g) (-1) true memory)
    (hrecvs : ∀ g (memory : Memory α), ncclBuildRecvOps (parameters g) (plan g) true memory =
      ncclBuildRecvOps (parameters g) (plan' g) true memory)
    {memory memory' : ℕ → Memory α} {event : SyncEvent α}
    (h : SyncStep cast b train plan parameters memory event memory') :
    SyncStep cast b train plan' parameters memory event memory' := by
  cases h with
  | train _ W hkept htrained => exact .train memory memory' W hkept htrained
  | release _ r hr hkept => exact .release memory memory' r hr hkept
  | update _ hinfer htrain =>
    apply SyncStep.update
    · intro r hr
      have hrun := hinfer r hr
      unfold UpdateRun at hrun ⊢
      simpa only [hsends, hrecvs] using hrun
    · intro t ht htw
      obtain ⟨sent, hsent, hmemory⟩ := htrain t ht htw
      exact ⟨sent, (hsends t (memory t)).symm.trans hsent, hmemory⟩

namespace InitSetup

variable {c : InitSetup} (hsizes : c.SizesAgree) {b : TransferPlanBuilder}
  (hb : TransferPlanBuilder.init c.inferWorldSize c.trainWorldSize c.numEngines c.strictParamKeyMatch = .ok b)
  (hengines : ∀ e < c.numEngines, c.inferParams e = (c.inferParams 0).map (·.onEngine e))
include hsizes hb hengines

theorem plans_iff {plan : ℕ → TransferPlan}
    (hplan : ∀ g, buildLocalTransferPlan b (c.inferParams 0) c.trainParams g = .ok (plan g)) {p : InitParty}
    (hp : p ∈ c.ranks) {held : TransferPlan} : c.Plans p held ↔
      held = if c.rank p < c.inferWorldSize then (plan (c.rank p)).onEngine (c.rank p / c.instanceWorldSize)
        else plan (c.rank p) := by
  have hbuilt : buildLocalTransferPlan b (c.paramsOf p) c.trainParams (c.rank p) =
      .ok (if c.rank p < c.inferWorldSize then (plan (c.rank p)).onEngine (c.rank p / c.instanceWorldSize)
        else plan (c.rank p)) := by
    rcases mem_ranks.mp hp with ⟨e, he, i, hi, rfl⟩ | ⟨t, ht, rfl⟩
    · have hlt : c.rank (.worker e i) < c.inferWorldSize := by
        rw [hsizes.world]
        calc c.rank (.worker e i) < e * c.instanceWorldSize + c.instanceWorldSize := Nat.add_lt_add_left hi _
          _ = (e + 1) * c.instanceWorldSize := (Nat.succ_mul _ _).symm
          _ ≤ c.numEngines * c.instanceWorldSize := Nat.mul_le_mul_right _ he
      have hdiv : c.rank (.worker e i) / c.instanceWorldSize = e := by
        change (e * c.instanceWorldSize + i) / c.instanceWorldSize = e
        rw [Nat.mul_comm, Nat.mul_add_div hsizes.instances, Nat.div_eq_of_lt hi, Nat.add_zero]
      rw [if_pos hlt, hdiv, paramsOf, hengines e he, buildLocalTransferPlan_onEngine, hplan]
      rfl
    · rw [if_neg (by simp [rank]), paramsOf, hplan]
  constructor
  · rintro ⟨b', hb', hheld⟩
    obtain rfl : b = b' := Except.ok.inj (hb.symm.trans hb')
    exact Except.ok.inj (hheld.symm.trans hbuilt)
  · rintro rfl
    exact ⟨b, hb, hbuilt⟩

theorem accepted_of_first {getInferSharding getTrainSharding : String → RankInfo → RawParamMeta → ShardingInfo}
    {rawInfer rawTrain : List RawRankMeta}
    (hpublished : PublishedMeta b getInferSharding getTrainSharding rawInfer rawTrain (c.inferParams 0) c.trainParams) :
    c.Accepted := by
  have hstrict := strictParamKeyMatch_of_init hsizes.engines hb
  have hfirst : ∀ raiseException, checkTrainInferParamsMeta c.trainParams (c.inferParams 0) raiseException
      c.strictParamKeyMatch = .ok () :=
    fun _ => checkTrainInferParamsMeta_of_raised (hstrict ▸ hpublished.accepted)
  constructor
  · intro p hp
    rcases Finset.mem_union.mp hp with hp | hp
    · obtain ⟨e, he, rfl⟩ := Finset.mem_image.mp hp
      rw [paramsOf, hengines e (Finset.mem_range.mp he), checkTrainInferParamsMeta_onEngine]
      exact hfirst _
    · obtain ⟨t, -, rfl⟩ := mem_trainers.mp hp
      exact hfirst _
  · intro p hp
    choose plan hplan using fun g => localPlan_exists (b := b) g hpublished.planned.no_error
    exact ⟨_, (plans_iff hsizes hb hengines hplan hp).mpr rfl⟩

end InitSetup

/-- From the metadata that are published on, whatever the order in which the parties start: the start-up
can always be finished, and the plans that the ranks then hold update the engines with what has been
trained. -/
theorem started_engines_serve_trained (cast : Dtype → Dtype → α → α) (c : InitSetup) (hsizes : c.SizesAgree)
    (b : TransferPlanBuilder)
    (hb : TransferPlanBuilder.init c.inferWorldSize c.trainWorldSize c.numEngines c.strictParamKeyMatch = .ok b)
    (getInferSharding getTrainSharding : String → RankInfo → RawParamMeta → ShardingInfo)
    (rawInfer rawTrain : List RawRankMeta)
    (hpublished : PublishedMeta b getInferSharding getTrainSharding rawInfer rawTrain (c.inferParams 0) c.trainParams)
    (hengines : ∀ e < c.numEngines, c.inferParams e = (c.inferParams 0).map (·.onEngine e))
    (parameters : ℕ → Dict String Parameter) (hloaded : Loaded b rawInfer rawTrain parameters)
    (s : InitState) (hrun : Run (InitStep c) .start s) :
    (∃ s', Run (InitStep c) s s' ∧ Done s'.todo c.parties) ∧
      (Done s.todo c.parties → ∃ plan : ℕ → TransferPlan,
        (∀ p ∈ c.ranks, (s.vars p).transferPlan = some (plan (c.rank p))) ∧
        (∀ memory : ℕ → Memory α,
          ∃ memory', SyncStep cast b c.trainParams plan parameters memory .update memory') ∧
        ∀ (memory memory' : ℕ → Memory α) (served : ServedState α) (events : List (SyncEvent α)),
          Represents b (c.inferParams 0) c.trainParams parameters memory served →
            Trace (SyncStep cast b c.trainParams plan parameters) memory events memory' →
              Represents b (c.inferParams 0) c.trainParams parameters memory'
                (events.foldl ServedState.next served)) := by
  have h : c.InInit s := hrun.invariant c.InInit InitSetup.inInit_start (InitSetup.working hsizes).keeps
  constructor
  · exact (InitSetup.leveled hsizes (InitSetup.accepted_of_first hsizes hb hengines hpublished)).completes h
  · intro hdone
    have hmeta := hpublished.commonMetadata
    have hdeploy := hpublished.deployment hloaded
    choose plan hplan using fun g => localPlan_exists (b := b) g hpublished.planned.no_error
    have hplan' : ∀ g < b.worldSize, buildLocalTransferPlan b (c.inferParams 0) c.trainParams g = .ok (plan g) :=
      fun g _ => hplan g
    -- what is built of a held plan does not depend on the engine
    let held : ℕ → TransferPlan := fun g =>
      if g < c.inferWorldSize then (plan g).onEngine (g / c.instanceWorldSize) else plan g
    have hsends : ∀ g (memory : Memory α), ncclBuildSendOps (parameters g) (held g) (-1) true memory =
        ncclBuildSendOps (parameters g) (plan g) (-1) true memory := by
      intro g memory
      simp only [held]
      split_ifs
      · exact ncclBuildSendOps_onEngine _ _ _ _ _ _
      · rfl
    have hrecvs : ∀ g (memory : Memory α), ncclBuildRecvOps (parameters g) (held g) true memory =
        ncclBuildRecvOps (parameters g) (plan g) true memory := by
      intro g memory
      simp only [held]
      split_ifs
      · exact ncclBuildRecvOps_onEngine _ _ _ _ _
      · rfl
    refine ⟨held, ?_, ?_, ?_⟩
    · intro p hp
      obtain ⟨⟨plan', hplan''⟩, -, -⟩ := h.completed hsizes hdone hp
      have hmade := (InitSetup.plan_iff hsizes hp).mp
        ((h.below p (InitSetup.ranks_subset hp)).transferPlan plan' hplan'')
      rw [hplan'', (InitSetup.plans_iff hsizes hb hengines hplan hp).mp hmade]
    · intro memory
      obtain ⟨memory', hstep⟩ := update_step_exists cast hmeta hplan' hdeploy memory
      exact ⟨memory', hstep.congr (fun g m => (hsends g m).symm) fun g m => (hrecvs g m).symm⟩
    · intro memory memory' served events hrepresents htrace
      have hsimulates : Simulates (SyncStep cast b c.trainParams held parameters) ServedState.next
          (Represents (α := α) b (c.inferParams 0) c.trainParams parameters) := by
        intro m event m' t hR hstep
        exact hpublished.simulates hloaded hplan' m event m' t hR (hstep.congr hsends hrecvs)
      exact hsimulates.trace htrace hrepresents

/-- The setup of two engines that the weights are halved for. -/
def halvedSetup : InitSetup where
  numEngines := 2
  instanceWorldSize := 2
  trainWorldSize := 1
  inferWorldSize := 4
  inferParams e := halvedInfer.map (·.onEngine e)
  trainParams := halvedTrain
  masterInfo _ := ⟨"10.0.0.1", 29500⟩
  raiseException _ := true
  strictParamKeyMatch := false

theorem started_engines_serve_trained_halved : ∃ (s : InitState) (plan : ℕ → TransferPlan) (memory' : ℕ → Memory ℕ),
    Run (InitStep halvedSetup) .start s ∧ Done s.todo halvedSetup.parties ∧
      (∀ p ∈ halvedSetup.ranks, (s.vars p).transferPlan = some (plan (halvedSetup.rank p))) ∧
      SyncStep (fun _ _ a => a) halvedBuilder halvedTrain plan halvedParameters halvedMemory .update memory' ∧
      (memory' 3).cells (.inference 0, 5) = 51 := by
  have hsizes : halvedSetup.SizesAgree := ⟨Nat.two_pos, Nat.two_pos, Nat.one_pos, fun _ _ => rfl, rfl, rfl⟩
  have hfirst : halvedSetup.inferParams 0 = halvedInfer := by decide
  have hpublished := halved_published (b := halvedBuilder) rfl rfl rfl
  have hengines : ∀ e < halvedSetup.numEngines,
      halvedSetup.inferParams e = (halvedSetup.inferParams 0).map (·.onEngine e) := by
    intro e _
    rw [hfirst]
    rfl
  have hstarted := started_engines_serve_trained (α := ℕ) (fun _ _ a => a) halvedSetup hsizes halvedBuilder rfl _ _ _ _
    (hfirst ▸ hpublished) hengines halvedParameters halved_loaded
  obtain ⟨s, hrun, hdone⟩ := (hstarted .start .refl).1
  obtain ⟨plan, hplans, hexists, hserved⟩ := (hstarted s hrun).2 hdone
  obtain ⟨memory', hstep⟩ := hexists halvedMemory
  obtain ⟨-, hserves⟩ := hserved halvedMemory memory' ⟨_, fun _ => none⟩ [.update]
    ⟨halved_trained, fun _ _ _ h => by cases h⟩ (.cons hstep (.nil _))
  rw [hfirst] at hserves
  exact ⟨s, plan, memory', hrun, hdone, hplans, hstep, halved_serves (hserves 3 (by decide) _ rfl)⟩

end Awex
