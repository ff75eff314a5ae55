import Awex.InitializationRun

namespace Awex

open Levels Runs

theorem setupBatchOps_matched {worldSize rank : ℕ} (hrank : rank < worldSize) {op : Direction × ℕ}
    (hop : op ∈ setupBatchOps worldSize rank) :
    op.2 < worldSize ∧ (op.1.opposite, rank) ∈ setupBatchOps worldSize op.2 := by
  unfold setupBatchOps at hop ⊢
  simp only at hop ⊢
  by_cases hsingle : worldSize ≤ 1
  · simp [hsingle] at hop
  · rw [if_neg hsingle] at hop ⊢
    by_cases heven : worldSize % 2 = 0
    · rw [if_pos heven] at hop ⊢
      by_cases hhalf : rank < worldSize / 2
      · rw [if_pos hhalf, if_pos (by omega), List.mem_singleton] at hop
        subst hop
        refine ⟨by omega, ?_⟩
        rw [if_neg (by omega), Nat.add_sub_cancel]
        exact List.mem_singleton.mpr rfl
      · rw [if_neg hhalf, List.mem_singleton] at hop
        subst hop
        refine ⟨by omega, ?_⟩
        rw [if_pos (by omega), if_pos (by omega), Nat.sub_add_cancel (by omega)]
        exact List.mem_singleton.mpr rfl
    · rw [if_neg heven] at hop ⊢
      have hpos : 0 < worldSize := by omega
      simp only [List.mem_cons, List.not_mem_nil, or_false] at hop ⊢
      rcases hop with rfl | rfl
      · refine ⟨Nat.mod_lt _ hpos, .inr ?_⟩
        have hnext : ((rank + worldSize - 1) % worldSize + 1) % worldSize = rank := by
          rcases Nat.eq_zero_or_pos rank with rfl | hr
          · rw [Nat.zero_add, Nat.mod_eq_of_lt (show worldSize - 1 < worldSize by omega), Nat.sub_add_cancel hpos,
              Nat.mod_self]
          · rw [show rank + worldSize - 1 = rank - 1 + worldSize by omega, Nat.add_mod_right,
              Nat.mod_eq_of_lt (show rank - 1 < worldSize by omega), Nat.sub_add_cancel hr, Nat.mod_eq_of_lt hrank]
        rw [hnext]
        rfl
      · refine ⟨Nat.mod_lt _ hpos, .inl ?_⟩
        have hprevious : ((rank + 1) % worldSize + worldSize - 1) % worldSize = rank := by
          by_cases hlast : rank + 1 = worldSize
          · rw [hlast, Nat.mod_self, Nat.zero_add, Nat.mod_eq_of_lt (by omega)]
            omega
          · rw [Nat.mod_eq_of_lt (show rank + 1 < worldSize by omega),
              show rank + 1 + worldSize - 1 = rank + worldSize by omega, Nat.add_mod_right, Nat.mod_eq_of_lt hrank]
        rw [hprevious]
        rfl

theorem receivedValue_eq (worldSize rank : ℕ) : receivedValue worldSize rank = expectedValue worldSize rank := by
  unfold receivedValue expectedValue setupBatchOps
  simp only
  by_cases hsingle : worldSize ≤ 1
  · simp [hsingle]
  · rw [if_neg hsingle, if_neg hsingle]
    by_cases heven : worldSize % 2 = 0
    · rw [if_pos heven, if_pos heven]
      by_cases hhalf : rank < worldSize / 2
      · have hpair : rank + worldSize / 2 < worldSize := by omega
        simp [hhalf, hpair]
      · simp [hhalf]
    · simp [heven]

namespace InitSetup

variable {c : InitSetup}

theorem toOption_eq_some {ε α : Type} {x : Except ε α} {a : α} : x.toOption = some a ↔ x = .ok a := by
  cases x <;> simp [Except.toOption]

variable (c) in
/-- What the plan builder makes of the party's metadata with the sizes of all. -/
def Plans (p : InitParty) (plan : TransferPlan) : Prop :=
  ∃ b, TransferPlanBuilder.init c.inferWorldSize c.trainWorldSize c.numEngines c.strictParamKeyMatch = .ok b ∧
    buildLocalTransferPlan b (c.paramsOf p) c.trainParams (c.rank p) = .ok plan

variable (c) in
/-- No party finds a mismatch or fails to plan. -/
structure Accepted : Prop where
  checks : ∀ p ∈ c.engines ∪ c.trainers,
    checkTrainInferParamsMeta c.trainParams (c.paramsOf p) (c.raiseException p) c.strictParamKeyMatch = .ok ()
  plans : ∀ p ∈ c.ranks, ∃ plan, c.Plans p plan

theorem mem_ranks {p : InitParty} : p ∈ c.ranks ↔
    (∃ e < c.numEngines, ∃ i < c.instanceWorldSize, p = .worker e i) ∨ ∃ t < c.trainWorldSize, p = .train t := by
  simp [ranks, workers, trainers, eq_comm]

theorem ranks_subset {p : InitParty} (hp : p ∈ c.ranks) : p ∈ c.parties :=
  Finset.mem_union_right _ hp

theorem buildPlan_iff {v : InitVars} {p : InitParty}
    (hrank : c.transferRank v p = some ⟨c.inferWorldSize, c.trainWorldSize, c.numEngines, c.rank p⟩)
    (hinfer : v.inferParams = some (c.paramsOf p)) (htrain : v.trainParams = some c.trainParams)
    {plan : TransferPlan} : c.buildPlan v p = some plan ↔ c.Plans p plan := by
  unfold buildPlan Plans
  rw [hrank, hinfer, htrain]
  simp only [Option.bind_eq_bind, Option.bind_some, Option.bind_eq_some_iff, toOption_eq_some]

section Sizes

variable (hsizes : c.SizesAgree)
include hsizes

theorem plan_iff {p : InitParty} (hp : p ∈ c.ranks) {plan : TransferPlan} : c.plan p = some plan ↔ c.Plans p plan := by
  apply buildPlan_iff
  · rcases mem_ranks.mp hp with ⟨e, he, i, hi, rfl⟩ | ⟨t, ht, rfl⟩
    · simp [transferRank, known, hsizes.infer e he, hsizes.train, hsizes.world, rank]
    · rfl
  · cases p <;> rfl
  · cases p <;> rfl

theorem rank_surjective {k : ℕ} (hk : k < c.worldSize) :
    ∃ q ∈ c.ranks, c.rank q = k ∧ if k < c.inferWorldSize then q ∈ c.inferRanks else q ∈ c.trainers := by
  by_cases hinfer : k < c.inferWorldSize
  · have hdiv : k / c.instanceWorldSize < c.numEngines := by
      rw [Nat.div_lt_iff_lt_mul hsizes.instances, ← hsizes.world]
      exact hinfer
    have hmod : k % c.instanceWorldSize < c.instanceWorldSize := Nat.mod_lt k hsizes.instances
    refine ⟨.worker (k / c.instanceWorldSize) (k % c.instanceWorldSize), ?_, ?_, ?_⟩
    · exact mem_ranks.mpr (.inl ⟨_, hdiv, _, hmod, rfl⟩)
    · exact Nat.div_add_mod' k c.instanceWorldSize
    · rw [if_pos hinfer]
      exact Finset.mem_biUnion.mpr ⟨_, Finset.mem_range.mpr hdiv, mem_workers.mpr ⟨_, hmod, rfl⟩⟩
  · have hlt : k - c.inferWorldSize < c.trainWorldSize := by
      unfold worldSize at hk
      omega
    refine ⟨.train (k - c.inferWorldSize), mem_ranks.mpr (.inr ⟨_, hlt, rfl⟩), ?_, ?_⟩
    · change c.inferWorldSize + (k - c.inferWorldSize) = k
      omega
    · rw [if_neg hinfer]
      exact mem_trainers.mpr ⟨_, hlt, rfl⟩

theorem rank_lt {p : InitParty} (hp : p ∈ c.ranks) : c.rank p < c.worldSize := by
  unfold worldSize
  rcases mem_ranks.mp hp with ⟨e, he, i, hi, rfl⟩ | ⟨t, ht, rfl⟩
  · have hle : e * c.instanceWorldSize + c.instanceWorldSize ≤ c.numEngines * c.instanceWorldSize := by
      rw [← Nat.succ_mul]
      exact Nat.mul_le_mul_right _ he
    simp only [rank, hsizes.world]
    omega
  · simp only [rank]
    omega

end Sizes

section Reached

variable {s : InitState} (h : c.InInit s) {l : ℕ} (hreached : Reached s.todo InitTask.level c.parties l)
include hreached

theorem done_of_lt {q : InitParty} (hq : q ∈ c.parties) {u : InitTask} (hlt : u.level q < l) : u ∉ s.todo q := by
  intro hu
  have hle := hreached q hq u hu
  omega

include h

theorem InInit.arrived_of_next {q : InitParty} (hq : q ∈ c.parties) {u : InitTask} (hu : u ∈ initProgram q)
    (hnext : ∀ v ∈ initProgram q, l ≤ v.level q → u.level q ≤ v.level q) : s.Arrived q u := by
  refine ⟨hu, arrived_of_le ((initProgram_sorted q).sublist (h.suffix q).sublist) ?_⟩
  intro v hv
  exact hnext v ((h.suffix q).subset hv) (hreached q hq v hv)

theorem InInit.arrived_of_le {q : InitParty} (hq : q ∈ c.parties) {u : InitTask} (hu : u ∈ initProgram q)
    (hle : u.level q ≤ l) : s.Arrived q u :=
  h.arrived_of_next hreached hq hu fun _ _ hv => hle.trans hv

theorem InInit.gained_of_lt {q : InitParty} (hq : q ∈ c.parties) {u : InitTask} (hu : u ∈ initProgram q)
    (hlt : u.level q < l) : (c.gain q u).Le (s.vars q) :=
  h.gained q hq u hu (done_of_lt hreached hq hlt)

theorem InInit.read_of_lt {q : InitParty} (hq : q ∈ c.parties) {u : InitTask} (hu : u ∈ initProgram q)
    (hlt : u.level q < l) {key : InitKey} (hkey : puts q u = some key) (hne : key ≠ .numInitedInferenceEngines)
    {α : Type} (get : InitObject → Option α) : s.read key get = (c.served key).bind get :=
  h.serves.read_of_hasKey get hne (h.kept q hq u hu (done_of_lt hreached hq hlt) key hkey)

variable (hsizes : c.SizesAgree)
include hsizes

omit hsizes in
theorem InInit.params_eq {p : InitParty} (hp : p ∈ c.ranks) (hl : 12 < l) :
    (s.vars p).inferParams = some (c.paramsOf p) ∧ (s.vars p).trainParams = some c.trainParams := by
  have hparty := ranks_subset hp
  rcases mem_ranks.mp hp with ⟨e, he, i, hi, rfl⟩ | ⟨t, ht, rfl⟩
  · have hgained := h.gained_of_lt hreached hparty (u := .initInTpWorker e) (by simp [initProgram]) hl
    exact ⟨hgained.inferParams _ rfl, hgained.trainParams _ rfl⟩
  · constructor
    · have hlt : InitTask.broadcastInferParamsMeta.level (.train t) < l := by
        simp only [InitTask.level]
        omega
      exact (h.gained_of_lt hreached hparty (by simp [initProgram]) hlt).inferParams _ rfl
    · have hlt : InitTask.gatherParamsMeta.level (.train t) < l := by
        simp only [InitTask.level]
        omega
      exact (h.gained_of_lt hreached hparty (by simp [initProgram]) hlt).trainParams _ rfl

theorem InInit.transferRank_eq {p : InitParty} (hp : p ∈ c.ranks) (hl : 12 < l) :
    c.transferRank (s.vars p) p = some ⟨c.inferWorldSize, c.trainWorldSize, c.numEngines, c.rank p⟩ := by
  have hparty := ranks_subset hp
  obtain ⟨hinfer, htrain⟩ := h.params_eq hreached hp hl
  rcases mem_ranks.mp hp with ⟨e, he, i, hi, rfl⟩ | ⟨t, ht, rfl⟩
  · simp [transferRank, hinfer, htrain, paramsOf, hsizes.infer e he, hsizes.train, rank, hsizes.world]
  · have hworld := (h.gained_of_lt hreached hparty (u := .getInferConf) (by simp [initProgram])
      (by simp only [InitTask.level]; omega)).inferWorldSize _ rfl
    have hengines := (h.gained_of_lt hreached hparty (u := .getNumInferEngines) (by simp [initProgram])
      (by simp only [InitTask.level]; omega)).numInferEngines _ rfl
    simp [transferRank, hworld, hengines, rank]

theorem InInit.seat_eq {p : InitParty} (hp : p ∈ c.ranks) (hl : 12 < l) :
    c.seat (s.vars p) p = some (c.rank p, c.worldSize) := by
  rw [seat, h.transferRank_eq hreached hsizes hp hl]
  rfl

omit hsizes in
theorem InInit.master_eq {p : InitParty} (hp : p ∈ c.ranks) (hl : 15 < l) : (s.vars p).masterInfo = some c.master := by
  have hparty := ranks_subset hp
  rcases mem_ranks.mp hp with ⟨e, he, i, hi, rfl⟩ | ⟨t, ht, rfl⟩
  · apply (h.gained_of_lt hreached hparty (u := .shareMasterInfo) (by simp [initProgram]) _).masterInfo _ rfl
    simp only [InitTask.level]
    split_ifs <;> omega
  · apply (h.gained_of_lt hreached hparty (u := .getMasterInfo) (by simp [initProgram]) _).masterInfo _ rfl
    simp only [InitTask.level]
    omega

theorem InInit.waits {parties : Finset InitParty} (hsub : parties ⊆ c.ranks) (hl : 12 < l) {t : InitTask}
    (ht : ∀ q ∈ c.ranks, t ∈ initProgram q ∧ t.level q ≤ l) {q : InitParty} (hq : q ∈ parties) :
    c.Waits s parties t (c.rank q) c.worldSize :=
  ⟨q, hq, h.seat_eq hreached hsizes (hsub hq) hl,
    h.arrived_of_le hreached (ranks_subset (hsub hq)) (ht q (hsub hq)).1 (ht q (hsub hq)).2⟩

theorem InInit.meets (hl : 15 < l) {t : InitTask} (ht : ∀ q ∈ c.ranks, t ∈ initProgram q ∧ t.level q ≤ l) :
    c.Meets s t c.worldSize c.master := by
  intro k hk
  obtain ⟨q, hq, rfl, -⟩ := rank_surjective hsizes hk
  refine ⟨q, hq, h.seat_eq hreached hsizes hq (by omega), h.master_eq hreached hq hl, ?_⟩
  exact h.arrived_of_le hreached (ranks_subset hq) (ht q hq).1 (ht q hq).2

end Reached

theorem group_mem {q : InitParty} (hq : q ∈ c.ranks) {t : InitTask}
    (ht : t ∈ [InitTask.initProcessGroup, .barrier, .shakeHands, .batchIsendIrecv, .setupBarrier]) :
    t ∈ initProgram q := by
  rcases mem_ranks.mp hq with ⟨e, -, i, -, rfl⟩ | ⟨r, -, rfl⟩
  · simp only [List.mem_cons, List.not_mem_nil, or_false] at ht
    rcases ht with rfl | rfl | rfl | rfl | rfl <;> simp [initProgram]
  · simp only [List.mem_cons, List.not_mem_nil, or_false] at ht
    rcases ht with rfl | rfl | rfl | rfl | rfl <;> simp [initProgram]

theorem rank_of_mem {p : InitParty} (hp : p ∈ c.parties) {t : InitTask} (ht : t ∈ initProgram p)
    (hgroup : t ∈ [InitTask.buildTransferPlan, .shareMasterInfo, .getMasterInfo, .initProcessGroup, .barrier,
      .shakeHands, .batchIsendIrecv, .setupBarrier]) : p ∈ c.ranks := by
  cases p with
  | engine e =>
    simp only [List.mem_cons, List.not_mem_nil, or_false] at hgroup
    rcases hgroup with rfl | rfl | rfl | rfl | rfl | rfl | rfl | rfl <;> simp [initProgram] at ht
  | worker e i =>
    obtain ⟨he, hi⟩ := worker_mem_parties.mp hp
    exact mem_ranks.mpr (.inl ⟨e, he, i, hi, rfl⟩)
  | train r => exact mem_ranks.mpr (.inr ⟨r, train_mem_parties.mp hp, rfl⟩)

theorem engine_awaits (e : ℕ) {v : InitTask} (hv : v ∈ initProgram (.engine e)) (hlate : 12 ≤ v.level (.engine e)) :
    (InitTask.awaitTpWorkers e).level (.engine e) ≤ v.level (.engine e) := by
  cases v <;> simp [initProgram, InitTask.level] at hv hlate ⊢

theorem worker_level {e i : ℕ} {v : InitTask} (hv : v ∈ initProgram (.worker e i)) : v.level (.worker e i) < 21 := by
  simp only [initProgram, List.mem_cons, List.not_mem_nil, or_false] at hv
  rcases hv with rfl | rfl | rfl | rfl | rfl | rfl | rfl | rfl
  all_goals
    simp only [InitTask.level]
    try split_ifs
    all_goals omega

theorem inferRanks_subset : c.inferRanks ⊆ c.ranks := Finset.subset_union_left

theorem trainers_subset : c.trainers ⊆ c.ranks := Finset.subset_union_right

section Performs

variable {s : InitState} (h : c.InInit s) (hsizes : c.SizesAgree) {p : InitParty} (hp : p ∈ c.parties)
include h hsizes hp

theorem InInit.group_ready {t : InitTask} (ht : t ∈ initProgram p)
    (hgroup : t ∈ [InitTask.initProcessGroup, .barrier, .setupBarrier])
    (hreached : Reached s.todo InitTask.level c.parties (t.level p)) :
    c.seat (s.vars p) p = some (c.rank p, c.worldSize) ∧ (s.vars p).masterInfo = some c.master ∧
      c.Meets s t c.worldSize c.master := by
  have hrank : p ∈ c.ranks := rank_of_mem hp ht (List.Sublist.subset (by decide) hgroup)
  have hlevel : 15 < t.level p ∧ ∀ q, t.level q = t.level p := by
    simp only [List.mem_cons, List.not_mem_nil, or_false] at hgroup
    rcases hgroup with rfl | rfl | rfl <;> simp [InitTask.level]
  refine ⟨?_, h.master_eq hreached hrank hlevel.1, ?_⟩
  · apply h.seat_eq hreached hsizes hrank
    omega
  · apply h.meets hreached hsizes hlevel.1
    intro q hq
    exact ⟨group_mem hq (List.Sublist.subset (by decide) hgroup), (hlevel.2 q).le⟩

theorem InInit.performs (haccepted : c.Accepted) {t : InitTask} (ht : t ∈ initProgram p)
    (hreached : Reached s.todo InitTask.level c.parties (t.level p)) : ∃ r, c.perform s p t = some r := by
  have hengine : .engine 0 ∈ c.parties := engine_mem_parties.mpr hsizes.engines
  have htrain : .train 0 ∈ c.parties := train_mem_parties.mpr hsizes.trainers
  have hworker : .worker 0 0 ∈ c.parties := worker_mem_parties.mpr ⟨hsizes.engines, hsizes.instances⟩
  have hputs : puts (.worker 0 0) .shareMasterInfo = some .masterInfo := by simp [puts]
  cases t with
  | putNumInferEngines => exact ⟨_, rfl⟩
  | addInitedEngine e =>
    obtain ⟨added, hadd, -⟩ := h.serves.grows_add (.engineRank e)
    exact ⟨_, by simp only [perform, hadd, Except.toOption]; rfl⟩
  | resolveParamsMeta e => exact ⟨_, rfl⟩
  | putInferConf => exact ⟨_, rfl⟩
  | putInferParamsMeta =>
    cases p with
    | engine e =>
      have hparams := (h.gained_of_lt hreached hp (u := .resolveParamsMeta e) (by simp [initProgram])
        (by simp [InitTask.level])).inferParams _ rfl
      exact ⟨_, by simp only [perform, hparams]; rfl⟩
    | worker e i => simp [initProgram] at ht
    | train r => simp [initProgram] at ht
  | getInferConf =>
    have hread := h.read_of_lt hreached hengine (u := .putInferConf) (by simp [initProgram]) (by simp [InitTask.level])
      rfl (by simp) InitObject.asInferConf
    exact ⟨_, by simp only [perform, hread]; rfl⟩
  | gatherParamsMeta =>
    have harrived : ∀ q ∈ c.trainers, s.Arrived q .gatherParamsMeta := by
      intro q hq
      obtain ⟨r, hr, rfl⟩ := mem_trainers.mp hq
      exact h.arrived_of_le hreached (train_mem_parties.mpr hr) (by simp [initProgram]) le_rfl
    exact ⟨_, by simp only [perform, if_pos harrived]; rfl⟩
  | putTrainingParamsMeta =>
    cases p with
    | engine e => simp [initProgram] at ht
    | worker e i => simp [initProgram] at ht
    | train r =>
      have hparams := (h.gained_of_lt hreached hp (u := .gatherParamsMeta) (by simp [initProgram])
        (by simp [InitTask.level])).trainParams _ rfl
      exact ⟨_, by simp only [perform, hparams]; rfl⟩
  | getInferParamsMeta =>
    have hread := h.read_of_lt hreached hengine (u := .putInferParamsMeta) (by simp [initProgram])
      (by simp [InitTask.level]) rfl (by simp) InitObject.asParamsMeta
    exact ⟨_, by simp only [perform, hread]; rfl⟩
  | broadcastInferParamsMeta =>
    have harrived := h.arrived_of_le hreached htrain (u := .broadcastInferParamsMeta) (by simp [initProgram]) le_rfl
    exact ⟨_, by simp only [perform, if_pos harrived]; rfl⟩
  | getTrainingParamsMeta =>
    have hread := h.read_of_lt hreached htrain (u := .putTrainingParamsMeta) (by simp [initProgram])
      (by simp [InitTask.level]) rfl (by simp) InitObject.asParamsMeta
    exact ⟨_, by simp only [perform, hread]; rfl⟩
  | checkParamsMeta =>
    obtain ⟨hinfer, hparams, hside⟩ : (s.vars p).inferParams = some (c.paramsOf p) ∧
        (s.vars p).trainParams = some c.trainParams ∧ p ∈ c.engines ∪ c.trainers := by
      cases p with
      | engine e =>
        refine ⟨?_, ?_, ?_⟩
        · exact (h.gained_of_lt hreached hp (u := .resolveParamsMeta e) (by simp [initProgram])
            (by simp [InitTask.level])).inferParams _ rfl
        · exact (h.gained_of_lt hreached hp (u := .getTrainingParamsMeta) (by simp [initProgram])
            (by simp [InitTask.level])).trainParams _ rfl
        · simpa [engines, trainers] using engine_mem_parties.mp hp
      | worker e i => simp [initProgram] at ht
      | train r =>
        refine ⟨?_, ?_, ?_⟩
        · exact (h.gained_of_lt hreached hp (u := .broadcastInferParamsMeta) (by simp [initProgram])
            (by simp [InitTask.level])).inferParams _ rfl
        · exact (h.gained_of_lt hreached hp (u := .gatherParamsMeta) (by simp [initProgram])
            (by simp [InitTask.level])).trainParams _ rfl
        · simpa [engines, trainers] using train_mem_parties.mp hp
    have hcheck := haccepted.checks p hside
    exact ⟨_, by simp only [perform, hinfer, hparams, Option.bind_eq_bind, Option.bind_some, hcheck]; rfl⟩
  | getNumInferEngines =>
    have hread := h.read_of_lt hreached hengine (u := .putNumInferEngines) (by simp [initProgram])
      (by simp [InitTask.level]) rfl (by simp) InitObject.asCount
    exact ⟨_, by simp only [perform, hread]; rfl⟩
  | startTpWorkers => exact ⟨_, rfl⟩
  | initInTpWorker e =>
    cases p with
    | engine e' => simp [initProgram] at ht
    | worker e' i =>
      obtain rfl : e = e' := by simpa [initProgram] using ht
      have harrived := h.arrived_of_next hreached (engine_mem_parties.mpr (worker_mem_parties.mp hp).1)
        (u := .awaitTpWorkers e) (by simp [initProgram]) fun v => engine_awaits e
      exact ⟨_, by simp only [perform, if_pos harrived]; rfl⟩
    | train r => simp [initProgram] at ht
  | buildTransferPlan =>
    have hrank := rank_of_mem hp ht (by simp)
    obtain ⟨hinfer, hparams⟩ := h.params_eq hreached hrank (by simp [InitTask.level])
    obtain ⟨plan, hplan⟩ := haccepted.plans p hrank
    have hbuilt := (buildPlan_iff (h.transferRank_eq hreached hsizes hrank (by simp [InitTask.level])) hinfer
      hparams).mpr hplan
    exact ⟨_, by simp only [perform, hbuilt]; rfl⟩
  | shareMasterInfo =>
    have hrank := rank_of_mem hp ht (by simp)
    have hseat := h.seat_eq hreached hsizes hrank (by simp only [InitTask.level]; split_ifs <;> omega)
    by_cases hzero : c.rank p = 0
    · exact ⟨_, by simp only [perform, hseat, Option.bind_eq_bind, Option.bind_some, if_pos hzero]; rfl⟩
    · have hother : p ≠ .worker 0 0 := by
        rintro rfl
        exact hzero (by simp [rank])
      have hread := h.read_of_lt hreached hworker (u := .shareMasterInfo) (by simp [initProgram])
        (by simp [InitTask.level, hother]) hputs (by simp) InitObject.asMasterInfo
      exact ⟨_, by simp only [perform, hseat, Option.bind_eq_bind, Option.bind_some, if_neg hzero, hread]; rfl⟩
  | getMasterInfo =>
    have hread := h.read_of_lt hreached hworker (u := .shareMasterInfo) (by simp [initProgram])
      (by simp [InitTask.level]) hputs (by simp) InitObject.asMasterInfo
    exact ⟨_, by simp only [perform, hread]; rfl⟩
  | initProcessGroup =>
    obtain ⟨hseat, hmaster, hmeets⟩ := h.group_ready hsizes hp ht (by simp) hreached
    exact ⟨_, by simp only [perform, hseat, hmaster, Option.bind_eq_bind, Option.bind_some, if_pos hmeets]; rfl⟩
  | barrier =>
    obtain ⟨hseat, hmaster, hmeets⟩ := h.group_ready hsizes hp ht (by simp) hreached
    exact ⟨_, by simp only [perform, hseat, hmaster, Option.bind_eq_bind, Option.bind_some, if_pos hmeets]; rfl⟩
  | shakeHands =>
    have hrank := rank_of_mem hp ht (by simp)
    have hseat := h.seat_eq hreached hsizes hrank (by simp [InitTask.level])
    have hgroup : ∀ q ∈ c.ranks, .shakeHands ∈ initProgram q ∧
        InitTask.shakeHands.level q ≤ InitTask.shakeHands.level p :=
      fun q hq => ⟨group_mem hq (by simp), le_rfl⟩
    have htrainers := hsizes.trainers
    have hinstances := Nat.mul_pos hsizes.engines hsizes.instances
    rw [← hsizes.world] at hinstances
    -- the last rank is a training rank and the first an inference rank
    have hlast : c.Waits s c.trainers .shakeHands (c.worldSize - 1) c.worldSize := by
      have hlt : c.worldSize - 1 < c.worldSize := by unfold worldSize; omega
      obtain ⟨q, -, hq, hside⟩ := rank_surjective hsizes hlt
      rw [if_neg (by unfold worldSize; omega)] at hside
      exact hq ▸ h.waits hreached hsizes trainers_subset (by simp [InitTask.level]) hgroup hside
    have hfirst : c.Waits s c.inferRanks .shakeHands 0 c.worldSize := by
      have hlt : 0 < c.worldSize := by unfold worldSize; omega
      obtain ⟨q, -, hq, hside⟩ := rank_surjective hsizes hlt
      rw [if_pos hinstances] at hside
      exact hq ▸ h.waits hreached hsizes inferRanks_subset (by simp [InitTask.level]) hgroup hside
    have hready : (p ∈ c.inferRanks → c.rank p = 0 → c.Waits s c.trainers .shakeHands (c.worldSize - 1) c.worldSize) ∧
        (p ∈ c.trainers → c.rank p = c.worldSize - 1 → c.Waits s c.inferRanks .shakeHands 0 c.worldSize) :=
      ⟨fun _ _ => hlast, fun _ _ => hfirst⟩
    exact ⟨_, by simp only [perform, hseat, Option.bind_eq_bind, Option.bind_some, if_pos hready]; rfl⟩
  | batchIsendIrecv =>
    have hrank := rank_of_mem hp ht (by simp)
    have hseat := h.seat_eq hreached hsizes hrank (by simp [InitTask.level])
    have hmatched : ∀ op ∈ setupBatchOps c.worldSize (c.rank p),
        c.Waits s c.ranks .batchIsendIrecv op.2 c.worldSize ∧
          (op.1.opposite, c.rank p) ∈ setupBatchOps c.worldSize op.2 := by
      intro op hop
      obtain ⟨hlt, hopposite⟩ := setupBatchOps_matched (rank_lt hsizes hrank) hop
      refine ⟨?_, hopposite⟩
      obtain ⟨q, hq, hpeer, -⟩ := rank_surjective hsizes hlt
      exact hpeer ▸ h.waits hreached hsizes (fun _ hq => hq) (by simp [InitTask.level])
        (fun q hq => ⟨group_mem hq (by simp), le_rfl⟩) hq
    exact ⟨_, by simp only [perform, hseat, Option.bind_eq_bind, Option.bind_some, if_pos hmatched]; rfl⟩
  | setupBarrier =>
    have hrank := rank_of_mem hp ht (by simp)
    obtain ⟨hseat, hmaster, hmeets⟩ := h.group_ready hsizes hp ht (by simp) hreached
    have hreceived := (h.gained_of_lt hreached hp (u := .batchIsendIrecv) (group_mem hrank (by simp))
      (by simp [InitTask.level])).recvTensor
    have hverified : expectedValue c.worldSize (c.rank p) = none ∨
        (s.vars p).recvTensor = expectedValue c.worldSize (c.rank p) := by
      cases hvalue : expectedValue c.worldSize (c.rank p) with
      | none => exact .inl rfl
      | some x => exact .inr (hreceived x ((receivedValue_eq _ _).trans hvalue))
    exact ⟨_, by simp only [perform, hseat, hmaster, Option.bind_eq_bind, Option.bind_some,
      if_pos (And.intro hmeets hverified)]; rfl⟩
  | awaitTpWorkers e =>
    cases p with
    | engine e' =>
      obtain rfl : e = e' := by simpa [initProgram] using ht
      have hfinished : ∀ q ∈ c.workers e, s.todo q = [] := by
        intro q hq
        obtain ⟨i, hi, rfl⟩ := mem_workers.mp hq
        apply List.eq_nil_iff_forall_not_mem.mpr
        intro u hu
        have hworker := worker_mem_parties.mpr ⟨engine_mem_parties.mp hp, hi⟩
        exact absurd (hreached _ hworker u hu) (worker_level ((h.suffix _).subset hu)).not_ge
      exact ⟨_, by simp only [perform, if_pos hfinished]; rfl⟩
    | worker e' i => simp [initProgram] at ht
    | train r => simp [initProgram] at ht

end Performs

end InitSetup

end Awex
