import Awex.InitializationProgress
import Awex.SyncedWeights
import Mathlib.Algebra.Order.BigOperators.Group.Finset

namespace Awex

open Levels Runs

namespace InitSetup

variable {c : InitSetup}

theorem inInit_start : c.InInit .start := by
  constructor
  · exact fun p => List.suffix_rfl
  · exact fun p _ => InitVars.empty_le _
  · constructor
    · intro key obj hstored
      cases hstored
    · intro key objects hstored
      cases hstored
  · exact fun p _ t ht hdone => absurd ht hdone
  · exact fun p _ t ht hdone => absurd ht hdone
  · exact fun p _ t ht hdone => absurd ht hdone

theorem initProgram_length_le (p : InitParty) :
    (initProgram p).length ≤ match p with | .engine _ => 9 | .worker _ _ => 8 | .train _ => 14 := by
  cases p with
  | engine e =>
    simp only [initProgram]
    split_ifs <;> simp
  | worker e i => simp [initProgram]
  | train t =>
    simp only [initProgram]
    split_ifs <;> simp

theorem left_start_le : left InitState.start.todo c.parties ≤
    9 * c.numEngines + 8 * (c.numEngines * c.instanceWorldSize) + 14 * c.trainWorldSize := by
  have hengines : left InitState.start.todo c.engines ≤ 9 * c.numEngines := by
    apply left_le (Finset.card_image_le.trans (Finset.card_range _).le)
    intro p hp
    obtain ⟨e, -, rfl⟩ := Finset.mem_image.mp hp
    exact initProgram_length_le (.engine e)
  have hworkers : left InitState.start.todo c.inferRanks ≤ 8 * (c.numEngines * c.instanceWorldSize) := by
    apply left_le
    · have hcard := Finset.card_biUnion_le_card_mul (Finset.range c.numEngines) c.workers c.instanceWorldSize
        fun e _ => Finset.card_image_le.trans (Finset.card_range _).le
      rwa [Finset.card_range] at hcard
    · intro p hp
      obtain ⟨e, -, hp⟩ := Finset.mem_biUnion.mp hp
      obtain ⟨i, -, rfl⟩ := mem_workers.mp hp
      exact initProgram_length_le (.worker e i)
  have htrainers : left InitState.start.todo c.trainers ≤ 14 * c.trainWorldSize := by
    apply left_le (Finset.card_image_le.trans (Finset.card_range _).le)
    intro p hp
    obtain ⟨t, -, rfl⟩ := mem_trainers.mp hp
    exact initProgram_length_le (.train t)
  have hparties := left_union_le InitState.start.todo c.engines c.ranks
  have hranks := left_union_le InitState.start.todo c.inferRanks c.trainers
  change left InitState.start.todo c.ranks ≤ _ at hranks
  unfold parties
  omega

section Run

variable (hsizes : c.SizesAgree)
include hsizes

theorem working : Working (InitStep c) c.InInit InitState.todo c.parties := by
  constructor
  · rintro s s' h ⟨p, hp, hstep⟩
    exact h.step hsizes hp hstep
  · rintro s s' h ⟨p, hp, hstep⟩
    unfold InitSetup.step at hstep
    cases htodo : s.todo p with
    | nil => simp [htodo] at hstep
    | cons t rest =>
      simp only [htodo, Option.map_eq_some_iff] at hstep
      obtain ⟨r, -, rfl⟩ := hstep
      refine ⟨p, hp, t, ?_, fun q hq => Function.update_of_ne hq _ _⟩
      rw [htodo]
      exact congrArg (t :: ·) (Function.update_self p rest s.todo).symm

theorem leveled (haccepted : c.Accepted) : Leveled (InitStep c) c.InInit InitState.todo InitTask.level c.parties := by
  refine ⟨working hsizes, ?_, ?_⟩
  · intro s h p _
    exact ((initProgram_sorted p).sublist (h.suffix p).sublist).imp Nat.le_of_lt
  · intro s h p hp t rest htodo hreached
    have ht : t ∈ initProgram p := (h.suffix p).subset (by simp [htodo])
    obtain ⟨r, hperform⟩ := h.performs hsizes hp haccepted ht hreached
    have hstep : ∃ s', c.step s p = some s' := by
      unfold InitSetup.step
      rw [htodo]
      simp only [hperform, Option.map_some]
      exact ⟨_, rfl⟩
    obtain ⟨s', hstep⟩ := hstep
    exact ⟨s', p, hp, hstep⟩

variable {s : InitState} (h : c.InInit s) (hdone : Done s.todo c.parties)
include h hdone

theorem InInit.accepted : c.Accepted := by
  have hnone : ∀ p ∈ c.parties, ∀ t, t ∉ s.todo p := by
    intro p hp t ht
    rw [hdone p hp] at ht
    cases ht
  constructor
  · intro p hp
    rcases Finset.mem_union.mp hp with hp | hp
    · have hparty : p ∈ c.parties := Finset.mem_union_left _ hp
      obtain ⟨e, -, rfl⟩ := Finset.mem_image.mp hp
      exact h.passed _ hparty .checkParamsMeta (by simp [initProgram]) (hnone _ hparty _)
    · have hparty : p ∈ c.parties := ranks_subset (trainers_subset hp)
      obtain ⟨t, -, rfl⟩ := mem_trainers.mp hp
      exact h.passed _ hparty .checkParamsMeta (by simp [initProgram]) (hnone _ hparty _)
  · intro p hp
    have hbuild : .buildTransferPlan ∈ initProgram p := by
      rcases mem_ranks.mp hp with ⟨e, -, i, -, rfl⟩ | ⟨t, -, rfl⟩ <;> simp [initProgram]
    obtain ⟨plan, hplan⟩ := Option.isSome_iff_exists.mp
      (h.passed p (ranks_subset hp) .buildTransferPlan hbuild (hnone p (ranks_subset hp) _))
    exact ⟨plan, (plan_iff hsizes hp).mp hplan⟩

theorem InInit.completed {p : InitParty} (hp : p ∈ c.ranks) :
    (∃ plan, (s.vars p).transferPlan = some plan) ∧ c.seat (s.vars p) p = some (c.rank p, c.worldSize) ∧
      (s.vars p).masterInfo = some c.master := by
  have hparty := ranks_subset hp
  have hreached : Reached s.todo InitTask.level c.parties 22 := by
    intro q hq t ht
    rw [hdone q hq] at ht
    cases ht
  refine ⟨?_, h.seat_eq hreached hsizes hp (by omega), h.master_eq hreached hp (by omega)⟩
  obtain ⟨plan, hplan⟩ := (h.accepted hsizes hdone).plans p hp
  have hbuild : .buildTransferPlan ∈ initProgram p := by
    rcases mem_ranks.mp hp with ⟨e, -, i, -, rfl⟩ | ⟨t, -, rfl⟩ <;> simp [initProgram]
  refine ⟨plan, (h.gained_of_lt hreached hparty hbuild ?_).transferPlan plan ((plan_iff hsizes hp).mpr hplan)⟩
  simp [InitTask.level]

end Run

theorem strictParamKeyMatch_of_init {b : TransferPlanBuilder} (hengines : 0 < c.numEngines)
    (hb : TransferPlanBuilder.init c.inferWorldSize c.trainWorldSize c.numEngines c.strictParamKeyMatch = .ok b) :
    b.strictParamKeyMatch = c.strictParamKeyMatch := by
  unfold TransferPlanBuilder.init at hb
  rw [dif_pos hengines] at hb
  cases hb
  rfl

theorem accepted_of_published {getInferSharding getTrainSharding : String → RankInfo → RawParamMeta → ShardingInfo}
    {rawInfer : ℕ → List RawRankMeta} {rawTrain : List RawRankMeta} {b : TransferPlanBuilder}
    (hb : TransferPlanBuilder.init c.inferWorldSize c.trainWorldSize c.numEngines c.strictParamKeyMatch = .ok b)
    (hraises : ∀ p, c.raiseException p = true) (hengines : 0 < c.numEngines)
    (hpublished : ∀ e < c.numEngines, PublishedMeta b getInferSharding getTrainSharding (rawInfer e) rawTrain
      (c.inferParams e) c.trainParams) : c.Accepted := by
  have hstrict := strictParamKeyMatch_of_init hengines hb
  constructor
  · intro p hp
    rw [hraises, ← hstrict]
    rcases Finset.mem_union.mp hp with hp | hp
    · obtain ⟨e, he, rfl⟩ := Finset.mem_image.mp hp
      exact (hpublished e (Finset.mem_range.mp he)).accepted
    · obtain ⟨t, -, rfl⟩ := mem_trainers.mp hp
      exact (hpublished 0 hengines).accepted
  · intro p hp
    rcases mem_ranks.mp hp with ⟨e, he, i, hi, rfl⟩ | ⟨t, ht, rfl⟩
    · obtain ⟨plan, hplan⟩ := localPlan_exists (b := b) (c.rank (.worker e i)) (hpublished e he).planned.no_error
      exact ⟨plan, b, hb, hplan⟩
    · obtain ⟨plan, hplan⟩ := localPlan_exists (b := b) (c.rank (.train t)) (hpublished 0 hengines).planned.no_error
      exact ⟨plan, b, hb, hplan⟩

end InitSetup

/-- Whichever of the engines, workers and training ranks goes first, the start-up ends iff the checks
and the plans pass, with every rank in its place of one group and its plan built of the same sizes. -/
theorem initialization_completes (c : InitSetup) (hsizes : c.SizesAgree) :
    (∀ s, Run (InitStep c) .start s →
      (∀ p ∈ c.ranks, ∀ plan, (s.vars p).transferPlan = some plan → c.Plans p plan) ∧
      (Done s.todo c.parties → c.Accepted ∧ ∀ p ∈ c.ranks,
        (∃ plan, (s.vars p).transferPlan = some plan) ∧ c.seat (s.vars p) p = some (c.rank p, c.worldSize) ∧
          (s.vars p).masterInfo = some c.master) ∧
      (c.Accepted → (Done s.todo c.parties ∨ ∃ s', InitStep c s s') ∧
        ∃ s', Run (InitStep c) s s' ∧ Done s'.todo c.parties)) ∧
    ∀ (path : ℕ → InitState) (l : ℕ), path 0 = .start → (∀ i < l, InitStep c (path i) (path (i + 1))) →
      l ≤ 9 * c.numEngines + 8 * (c.numEngines * c.instanceWorldSize) + 14 * c.trainWorldSize := by
  constructor
  · intro s hrun
    have h : c.InInit s := hrun.invariant c.InInit InitSetup.inInit_start (InitSetup.working hsizes).keeps
    refine ⟨?_, ?_, ?_⟩
    · intro p hp plan hplan
      exact (InitSetup.plan_iff hsizes hp).mp ((h.below p (InitSetup.ranks_subset hp)).transferPlan plan hplan)
    · intro hdone
      exact ⟨h.accepted hsizes hdone, fun p hp => h.completed hsizes hdone hp⟩
    · intro haccepted
      have hleveled := InitSetup.leveled hsizes haccepted
      exact ⟨hleveled.progress h, hleveled.completes h⟩
  · intro path l hstart hpath
    have hlength := (InitSetup.working hsizes).length_le path (hstart ▸ InitSetup.inInit_start) hpath
    rw [hstart] at hlength
    exact hlength.trans InitSetup.left_start_le

/-- One engine of two workers and one training rank. -/
def upProjSetup : InitSetup where
  numEngines := 1
  instanceWorldSize := 2
  trainWorldSize := 1
  inferWorldSize := 2
  inferParams _ := halvedInfer
  trainParams := halvedTrain
  masterInfo _ := ⟨"10.0.0.1", 29500⟩
  raiseException _ := true
  strictParamKeyMatch := false

theorem initialization_completes_upProj : upProjSetup.SizesAgree ∧ upProjSetup.Accepted ∧
    ∃ s, Run (InitStep upProjSetup) .start s ∧ Done s.todo upProjSetup.parties ∧
      ∀ p ∈ upProjSetup.ranks, ∃ plan, (s.vars p).transferPlan = some plan ∧ upProjSetup.Plans p plan := by
  have hsizes : upProjSetup.SizesAgree := ⟨Nat.one_pos, Nat.two_pos, Nat.one_pos, fun _ _ => rfl, rfl, rfl⟩
  have haccepted : upProjSetup.Accepted := by
    apply InitSetup.accepted_of_published (b := ⟨2, 1, 1, false, Nat.one_pos⟩)
    · rfl
    · exact fun _ => rfl
    · exact Nat.one_pos
    · exact fun _ _ => halved_published rfl rfl rfl
  obtain ⟨hruns, -⟩ := initialization_completes upProjSetup hsizes
  obtain ⟨-, s, hrun, hdone⟩ := (hruns .start .refl).2.2 haccepted
  obtain ⟨hplans, hcompleted, -⟩ := hruns s hrun
  refine ⟨hsizes, haccepted, s, hrun, hdone, fun p hp => ?_⟩
  obtain ⟨plan, hplan⟩ := ((hcompleted hdone).2 p hp).1
  exact ⟨plan, hplan, hplans p hp plan hplan⟩

end Awex
