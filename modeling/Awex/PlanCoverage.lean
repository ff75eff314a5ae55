import Awex.Coverage

namespace Awex

/-- The operation moves a region of the shard of an inference replica, from the training replica
that the replica is assigned to. -/
structure Assigned (b : TransferPlanBuilder) (im tm : ParameterMeta) (op : CommunicationOperation)
    (i e : ℕ) (inference training : ParameterReplicaMeta) : Prop where
  replica : (inferenceReplicas b im)[i]? = some (e, inference)
  assignment : tm.replicas[i % tm.replicas.length]? = some training
  recv_shard : op.recvShardMeta ∈ inference.shards
  send_shard : op.sendShardMeta ∈ training.shards
  recv_rank : op.recvRank = op.recvShardMeta.globalRank + e * b.inferInstanceWorldSize
  send_rank : op.sendRank = op.sendShardMeta.globalRank + b.inferWorldSize

theorem plannedParams_nodup (infer train : List ParameterMeta) : (plannedParams infer train).Nodup := by
  rw [plannedParams, sorted, (List.perm_insertionSort _ _).nodup_iff]
  exact (metaDict infer).nodup.filter _

theorem mem_keys_metaDict (metas : List ParameterMeta) (name : String) :
    name ∈ (metaDict metas).keys ↔ name ∈ metas.map (·.name) := by
  rw [metaDict, Dict.mem_keys_ofList, List.map_map]
  rfl

theorem mem_metaDict {metas : List ParameterMeta} {name : String} {m : ParameterMeta}
    (h : (metaDict metas).get? name = some m) : m ∈ metas ∧ m.name = name := by
  obtain ⟨m', hm', heq⟩ := List.mem_map.mp (Dict.mem_of_get?_ofList _ _ _ h)
  obtain ⟨rfl, rfl⟩ := Prod.mk.inj heq
  exact ⟨hm', rfl⟩

theorem CommonMetadata.mem_keys {b : TransferPlanBuilder} {infer train : List ParameterMeta}
    (h : CommonMetadata b infer train) (name : String) :
    name ∈ (metaDict infer).keys ↔ name ∈ (metaDict train).keys := by
  rw [mem_keys_metaDict, mem_keys_metaDict, h.names]

theorem CommonMetadata.keyMismatch_eq {b : TransferPlanBuilder} {infer train : List ParameterMeta}
    (h : CommonMetadata b infer train) :
    keyMismatch b (metaDict infer).keys (metaDict train).keys = none := by
  have hmissing : (metaDict train).keys.filter (· ∉ (metaDict infer).keys) = [] := by
    apply List.filter_eq_nil_iff.mpr
    intro name hname
    simpa using (h.mem_keys name).mpr hname
  have hextra : (metaDict infer).keys.filter (· ∉ (metaDict train).keys) = [] := by
    apply List.filter_eq_nil_iff.mpr
    intro name hname
    simpa using (h.mem_keys name).mp hname
  unfold keyMismatch
  rw [hmissing, hextra]
  simp

theorem transferRank_lt (b : TransferPlanBuilder) (k e : ℕ) (hk : k < b.inferInstanceWorldSize)
    (he : e < b.numInferEngines) : k + e * b.inferInstanceWorldSize < b.inferWorldSize := by
  have hmul : (e + 1) * b.inferInstanceWorldSize ≤ b.numInferEngines * b.inferInstanceWorldSize :=
    Nat.mul_le_mul_right _ he
  have hdiv : b.numInferEngines * b.inferInstanceWorldSize ≤ b.inferWorldSize :=
    Nat.mul_div_le b.inferWorldSize b.numInferEngines
  rw [Nat.add_mul, Nat.one_mul] at hmul
  omega

theorem checkRanks_ok (b : TransferPlanBuilder) (k recvRank : ℕ) (h : recvRank < b.inferWorldSize) :
    checkRanks b (k + b.inferWorldSize) recvRank = .ok () := by
  unfold checkRanks
  rw [if_neg (by omega), if_neg (by omega), if_neg (by omega)]

theorem scratchLength_eq {replica : ParameterReplicaMeta} {n : ℕ} (hne : replica.shards ≠ [])
    (h : ∀ s ∈ replica.shards, s.shape.length = n) : scratchLength replica = n := by
  obtain ⟨s, ss, hs⟩ := List.exists_cons_of_ne_nil hne
  simpa [scratchLength, hs] using h s (by simp [hs])

theorem replicaOk_of_dims {b : TransferPlanBuilder} {e n : ℕ} {r t : ParameterReplicaMeta} (hn : 0 < n)
    (he : e < b.numInferEngines) (hrne : r.shards ≠ []) (htne : t.shards ≠ [])
    (hr : ∀ s ∈ r.shards, s.globalOffset.length = n ∧ s.shape.length = n)
    (ht : ∀ s ∈ t.shards, s.globalOffset.length = n ∧ s.shape.length = n)
    (hbound : ∀ s ∈ r.shards, s.globalRank < b.inferInstanceWorldSize) : ReplicaOk b none e r t := by
  have hvalid : ∀ s : ParameterShardMeta, s.globalOffset.length = n ∧ s.shape.length = n → ValidShard s :=
    fun s hs => ⟨List.length_pos_iff.mp (hs.1 ▸ hn), hs.1.trans hs.2.symm⟩
  have hscratch : scratchLength t = n := scratchLength_eq htne (fun s hs => (ht s hs).2)
  have hi : ∀ p ∈ keptInference b none e r, p.1 ∈ r.shards ∧
      p.2 = p.1.globalRank + e * b.inferInstanceWorldSize := by
    rw [keptInference_none]
    simp only [List.mem_map]
    rintro _ ⟨s, hs, rfl⟩
    exact ⟨hs, rfl⟩
  have hq : ∀ q ∈ keptTraining b none t, q.1 ∈ t.shards ∧ q.2 = q.1.globalRank + b.inferWorldSize := by
    rw [keptTraining_none]
    simp only [List.mem_map]
    rintro _ ⟨s, hs, rfl⟩
    exact ⟨hs, rfl⟩
  refine ⟨hrne, htne, fun s hs => hvalid s (hr s hs), fun s hs => hvalid s (ht s hs),
    fun p hp => ?_, fun q hqm => ?_, fun p hp q hqm => ?_, fun i hitem => ?_⟩
  · exact (hscratch.trans (hr _ (hi p hp).1).1.symm).ge
  · exact (hscratch.trans (ht _ (hq q hqm).1).1.symm).ge
  · have hp' := hr _ (hi p hp).1
    have hq' := ht _ (hq q hqm).1
    rcases overlapBounds_eq _ _ _ _ (shardEnds_length (hvalid _ hp')).symm
      (shardEnds_length (hvalid _ hq')).symm (hp'.1.trans hq'.1.symm) with ho | ⟨ho, -⟩
    · exact ⟨_, ho⟩
    · exact ⟨_, ho⟩
  · obtain ⟨hip, hiq, -⟩ := mem_replicaItems.mp hitem
    obtain ⟨hps, hprank⟩ := hi _ hip
    obtain ⟨hqs, hqrank⟩ := hq _ hiq
    refine ⟨hscratch.trans (hr _ hps).1.symm, ?_⟩
    rw [hprank, hqrank]
    exact checkRanks_ok b _ _ (transferRank_lt b _ e (hbound _ hps) he)

theorem Layout.replicaOk {b : TransferPlanBuilder} {name : String} {im tm : ParameterMeta}
    (h : Layout b name im tm) {e : ℕ} (he : e < b.numInferEngines) {r t : ParameterReplicaMeta}
    (hr : r ∈ im.replicas) (ht : t ∈ tm.replicas) (hrne : r.shards ≠ []) (htne : t.shards ≠ []) :
    ReplicaOk b none e r t :=
  replicaOk_of_dims h.dims_pos he hrne htne (h.infer_dims r hr) (h.train_dims t ht) (h.infer_bound r hr)

theorem parameterOk_of_replicas {b : TransferPlanBuilder} {im tm : ParameterMeta} (hi : im.replicas ≠ [])
    (ht : tm.replicas ≠ [])
    (h : ∀ a ∈ replicaAssignments b im tm, ReplicaOk b none a.1.1 a.1.2 a.2) : ParameterOk b none im tm := by
  refine ⟨?_, ht, h⟩
  obtain ⟨r, rs, hr⟩ := List.exists_cons_of_ne_nil hi
  apply List.ne_nil_of_mem (a := (0, r))
  rw [mem_inferenceReplicas]
  exact ⟨b.enginesPositive, by simp [hr]⟩

theorem Layout.parameterOk {b : TransferPlanBuilder} {name : String} {im tm : ParameterMeta}
    (h : Layout b name im tm) (hi : im.replicas ≠ []) (his : ∀ r ∈ im.replicas, r.shards ≠ [])
    (ht : tm.replicas ≠ []) (hts : ∀ r ∈ tm.replicas, r.shards ≠ []) : ParameterOk b none im tm := by
  apply parameterOk_of_replicas hi ht
  rintro ⟨⟨e, r⟩, t⟩ ha
  obtain ⟨i, hir, hit⟩ := mem_replicaAssignments b im tm _ ha
  obtain ⟨he, hr⟩ := (mem_inferenceReplicas b im e r).mp (List.mem_of_getElem? hir)
  have htm := List.mem_of_getElem? hit
  exact h.replicaOk he hr htm (his r hr) (hts t htm)

theorem operation_law {b : TransferPlanBuilder} {name : String} {im tm : ParameterMeta}
    (h : Layout b name im tm) (op : CommunicationOperation) (hop : op ∈ parameterOperations b none im tm) :
    (∃ i e r t, Assigned b im tm op i e r t) ∧ SameRegion op := by
  rw [parameterOperations_none] at hop
  obtain ⟨⟨⟨⟨e, r⟩, t⟩, p⟩, hz, hop⟩ := List.mem_flatMap.mp hop
  obtain ⟨ha, hps, hprank⟩ := mem_placements.mp hz
  obtain ⟨s, hs, i, hi, rfl⟩ := mem_placementOperations.mp hop
  obtain ⟨j, hjr, hjt⟩ := mem_replicaAssignments b im tm _ ha
  obtain ⟨-, hr⟩ := (mem_inferenceReplicas b im e r).mp (List.mem_of_getElem? hjr)
  have ht := List.mem_of_getElem? hjt
  obtain ⟨hrecv, hrshard⟩ := itemOperation_recv hi
  obtain ⟨hsend, hsshard⟩ := itemOperation_send hi
  refine ⟨⟨j, e, r, t, hjr, hjt, hrshard ▸ hps, hsshard ▸ hs, ?_, ?_⟩, ?_⟩
  · rw [hrecv, hrshard]
    exact hprank
  · rw [hsend, hsshard]
  · exact itemOperation_sameRegion p _ (h.infer_valid hr hps) (h.train_valid ht hs)
      ((h.infer_dims r hr _ hps).1.trans (h.train_dims t ht s hs).1.symm) i hi

theorem mem_plannedOperations {b : TransferPlanBuilder} {infer train : List ParameterMeta}
    {g : Option ℕ} {op : CommunicationOperation} :
    op ∈ plannedOperations b infer train g ↔ ∃ name im tm, (metaDict infer).get? name = some im ∧
      (metaDict train).get? name = some tm ∧ op ∈ parameterOperations b g im tm := by
  rw [plannedOperations, List.mem_flatMap]
  constructor
  · rintro ⟨name, hname, hop⟩
    obtain ⟨im, tm, hi, ht⟩ := mem_plannedParams.mp hname
    simp only [namedOperations, hi, ht] at hop
    exact ⟨name, im, tm, hi, ht, hop⟩
  · rintro ⟨name, im, tm, hi, ht, hop⟩
    refine ⟨name, mem_plannedParams.mpr ⟨im, tm, hi, ht⟩, ?_⟩
    simpa only [namedOperations, hi, ht] using hop

theorem CommonMetadata.name_of_mem {b : TransferPlanBuilder} {infer train : List ParameterMeta}
    (h : CommonMetadata b infer train) {name : String} {op : CommunicationOperation}
    (hop : op ∈ namedOperations b infer train none name) : op.sendShardMeta.name = name := by
  unfold namedOperations at hop
  split at hop
  · rename_i im tm hi ht
    have hlaw := h.layout name im tm hi ht
    obtain ⟨⟨i, e, r, t, ha⟩, -⟩ := operation_law hlaw op hop
    exact hlaw.train_names t (List.mem_of_getElem? ha.assignment) _ ha.send_shard
  · simp at hop

theorem planned_coverage {b : TransferPlanBuilder} {infer train : List ParameterMeta}
    (h : CommonMetadata b infer train) {name : String} {im tm : ParameterMeta}
    (hi : (metaDict infer).get? name = some im) (ht : (metaDict train).get? name = some tm)
    (htne : tm.replicas ≠ []) (e : ℕ) (he : e < b.numInferEngines) (r : ParameterReplicaMeta)
    (hr : r ∈ im.replicas) (s : ParameterShardMeta) (hs : s ∈ r.shards) (x : List ℕ)
    (hx : x ∈ Box.origin s.shape) :
    (plannedOperations b infer train none).countP (fun op => op.sendShardMeta.name = name ∧
      op.recvRank = s.globalRank + e * b.inferInstanceWorldSize ∧ op.Covers x) = 1 := by
  have hname := mem_plannedParams.mpr ⟨im, tm, hi, ht⟩
  have hops : namedOperations b infer train none name = parameterOperations b none im tm := by
    simp only [namedOperations, hi, ht]
  have hcov := parameter_coverage (h.layout name im tm hi ht) htne e he r hr s hs x hx
  have hone : (plannedParams infer train).filter (fun n => n = name) = [name] :=
    filter_eq_singleton _ id (by simpa using plannedParams_nodup infer train) name hname
  rw [plannedOperations, countP_flatMap_filter _ _ _ (fun n => n = name), hone,
    List.flatMap_singleton, ← hcov, hops]
  · apply List.countP_congr
    intro op hop
    have hnamed := h.name_of_mem (hops.symm ▸ hop)
    simp [hnamed]
  · intro n _ hne
    rw [List.countP_eq_zero]
    intro op hop
    have hnamed := h.name_of_mem hop
    simp [hnamed, hne]

theorem planned_law {b : TransferPlanBuilder} {infer train : List ParameterMeta}
    (h : CommonMetadata b infer train) {op : CommunicationOperation}
    (hop : op ∈ plannedOperations b infer train none) :
    SameRegion op ∧ op.recvRank < b.inferWorldSize ∧ b.inferWorldSize ≤ op.sendRank ∧
      ∃ name im tm i e r t, (metaDict infer).get? name = some im ∧
        (metaDict train).get? name = some tm ∧ Assigned b im tm op i e r t := by
  obtain ⟨name, im, tm, hi, ht, hop⟩ := mem_plannedOperations.mp hop
  have hlaw := h.layout name im tm hi ht
  obtain ⟨⟨i, e, r, t, ha⟩, hsame⟩ := operation_law hlaw op hop
  obtain ⟨he, hr⟩ := (mem_inferenceReplicas b im e r).mp (List.mem_of_getElem? ha.replica)
  have hbound := hlaw.infer_bound r hr _ ha.recv_shard
  refine ⟨hsame, ha.recv_rank ▸ transferRank_lt b _ e hbound he, ?_,
    name, im, tm, i, e, r, t, hi, ht, ha⟩
  rw [ha.send_rank]
  exact Nat.le_add_left _ _

theorem metaDict_singleton (m : ParameterMeta) (name : String) :
    (metaDict [m]).get? name = if m.name = name then some m else none := rfl

theorem of_metaDict_singleton {m m' : ParameterMeta} {name : String} (h : (metaDict [m]).get? name = some m') :
    name = m.name ∧ m' = m := by
  rw [metaDict_singleton] at h
  split_ifs at h with hname
  exact ⟨hname.symm, (Option.some.inj h).symm⟩

theorem commonMetadata_single {b : TransferPlanBuilder} {im tm : ParameterMeta} (hname : im.name = tm.name)
    (h : Layout b im.name im tm) : CommonMetadata b [im] [tm] := by
  constructor
  · intro name
    rw [List.map_singleton, List.map_singleton, hname]
  · intro name im' tm' hi ht
    obtain ⟨rfl, rfl⟩ := of_metaDict_singleton hi
    obtain ⟨-, rfl⟩ := of_metaDict_singleton ht
    exact h

theorem gateProj_commonMetadata : CommonMetadata .twoEngines [gateProjInfer] [gateProjTrain] := by
  refine commonMetadata_single rfl ?_
  refine ⟨by decide, by decide, by decide, ?_, by decide, ?_, by decide, by decide⟩
  · simp only [gateProjTrain, buildParamMeta, List.mem_singleton, forall_eq]
    exact Box.tiles_of_indices _ _ (by decide) (by decide)
  · simp only [gateProjInfer, buildParamMeta, List.mem_singleton, forall_eq]
    intro s hs
    refine Box.inside_of_indices s.box _ ?_
    revert s
    decide

def Populated (metas : List ParameterMeta) : Prop :=
  ∀ name m, (metaDict metas).get? name = some m → m.replicas ≠ [] ∧ ∀ r ∈ m.replicas, r.shards ≠ []

theorem training_replicas_ne {b : TransferPlanBuilder} {infer train : List ParameterMeta} {g : Option ℕ}
    {ops : List CommunicationOperation} (hops : buildWeightsMappingOperations b infer train g = .ok ops)
    {name : String} {im tm : ParameterMeta} (hi : (metaDict infer).get? name = some im)
    (ht : (metaDict train).get? name = some tm) : tm.replicas ≠ [] := by
  have hname := mem_plannedParams.mpr ⟨im, tm, hi, ht⟩
  obtain ⟨hempty | hok, -⟩ := (buildWeightsMappingOperations_ok_iff b infer train g ops).mp hops
  · simp [plannedParams_empty _ _ hempty] at hname
  · exact (hok.params name hname im tm hi ht).training_ne

theorem plan_coverage (b : TransferPlanBuilder) (infer train : List ParameterMeta)
    (h : CommonMetadata b infer train) :
    (Populated infer → Populated train →
      ∃ ops, buildWeightsMappingOperations b infer train none = .ok ops) ∧
    ∀ ops, buildWeightsMappingOperations b infer train none = .ok ops →
      (∀ name im, (metaDict infer).get? name = some im → ∀ e < b.numInferEngines,
        ∀ r ∈ im.replicas, ∀ s ∈ r.shards, ∀ x ∈ Box.origin s.shape,
          ops.countP (fun op => op.sendShardMeta.name = name ∧
            op.recvRank = s.globalRank + e * b.inferInstanceWorldSize ∧ op.Covers x) = 1) ∧
      ∀ op ∈ ops, SameRegion op ∧ op.recvRank < b.inferWorldSize ∧ b.inferWorldSize ≤ op.sendRank ∧
        ∃ name im tm i e r t, (metaDict infer).get? name = some im ∧
          (metaDict train).get? name = some tm ∧ Assigned b im tm op i e r t := by
  constructor
  · intro hpi hpt
    refine ⟨_, (buildWeightsMappingOperations_ok_iff b infer train none _).mpr
      ⟨.inr ⟨h.keyMismatch_eq, ?_⟩, rfl⟩⟩
    intro name _ im tm hi ht
    obtain ⟨hine, his⟩ := hpi name im hi
    obtain ⟨htne, hts⟩ := hpt name tm ht
    exact (h.layout name im tm hi ht).parameterOk hine his htne hts
  · intro ops hops
    obtain ⟨-, rfl⟩ := (buildWeightsMappingOperations_ok_iff b infer train none ops).mp hops
    constructor
    · intro name im hi e he r hr s hs x hx
      have hkey : name ∈ (metaDict train).keys := by
        rw [← h.mem_keys, Dict.mem_keys, hi]
        rfl
      obtain ⟨tm, ht⟩ := Option.isSome_iff_exists.mp ((Dict.mem_keys _ _).mp hkey)
      exact planned_coverage h hi ht (training_replicas_ne hops hi ht) e he r hr s hs x hx
    · exact fun op hop => planned_law h hop

theorem plan_coverage_gateProj : ∃ ops,
    buildWeightsMappingOperations .twoEngines [gateProjInfer] [gateProjTrain] none = .ok ops ∧
      ops.countP (fun op => op.sendShardMeta.name = gateProjInfer.name ∧
        op.recvRank = 1 + 1 * TransferPlanBuilder.twoEngines.inferInstanceWorldSize ∧ op.Covers [4]) = 1 := by
  obtain ⟨hok, hcov⟩ := plan_coverage .twoEngines [gateProjInfer] [gateProjTrain] gateProj_commonMetadata
  have hp : Populated [gateProjInfer] ∧ Populated [gateProjTrain] := by
    constructor <;>
    · intro name m hm
      obtain ⟨-, rfl⟩ := of_metaDict_singleton hm
      decide
  obtain ⟨ops, hops⟩ := hok hp.1 hp.2
  exact ⟨ops, hops, (hcov ops hops).1 _ gateProjInfer rfl 1 (by decide) _ (List.mem_singleton_self _)
    (ShardSpec.shard ⟨1, 3, 5⟩ gateProjInfer.name 2 2) (by decide) [4] (by decide)⟩

end Awex
