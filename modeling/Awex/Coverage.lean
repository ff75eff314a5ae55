import Awex.Geometry
import Awex.Pruning

namespace Awex

/-- Metadata of one parameter in which every training replica is a tiling of the parameter and
the inference shards lie inside it. -/
structure Layout (b : TransferPlanBuilder) (name : String) (im tm : ParameterMeta) : Prop where
  dims_pos : 0 < tm.globalShape.length
  train_names : ∀ r ∈ tm.replicas, ∀ s ∈ r.shards, s.name = name
  train_dims : ∀ r ∈ tm.replicas, ∀ s ∈ r.shards,
    s.globalOffset.length = tm.globalShape.length ∧ s.shape.length = tm.globalShape.length
  train_tiles : ∀ r ∈ tm.replicas, Box.Tiles (r.shards.map (·.box)) tm.globalShape
  infer_dims : ∀ r ∈ im.replicas, ∀ s ∈ r.shards,
    s.globalOffset.length = tm.globalShape.length ∧ s.shape.length = tm.globalShape.length
  infer_inside : ∀ r ∈ im.replicas, ∀ s ∈ r.shards, ∀ x, x ∈ s.box → x ∈ Box.origin tm.globalShape
  infer_ranks : ((im.replicas.flatMap (·.shards)).map (·.globalRank)).Nodup
  infer_bound : ∀ r ∈ im.replicas, ∀ s ∈ r.shards, s.globalRank < b.inferInstanceWorldSize

structure CommonMetadata (b : TransferPlanBuilder) (infer train : List ParameterMeta) : Prop where
  names : ∀ name, name ∈ infer.map (·.name) ↔ name ∈ train.map (·.name)
  layout : ∀ name im tm, (metaDict infer).get? name = some im →
    (metaDict train).get? name = some tm → Layout b name im tm

theorem keptShards_none (b : TransferPlanBuilder) (engineRank : ℕ) (isInfer : Bool)
    (shards : List ParameterShardMeta) :
    keptShards b engineRank isInfer none shards =
      shards.map (fun s => (s, shardRank b engineRank isInfer s)) := by
  simp [keptShards, isOtherRank]

theorem keptInference_none (b : TransferPlanBuilder) (engineRank : ℕ) (r : ParameterReplicaMeta) :
    keptInference b none engineRank r =
      r.shards.map (fun s => (s, s.globalRank + engineRank * b.inferInstanceWorldSize)) :=
  keptShards_none b engineRank true r.shards

theorem keptTraining_none (b : TransferPlanBuilder) (r : ParameterReplicaMeta) :
    keptTraining b none r = r.shards.map (fun s => (s, s.globalRank + b.inferWorldSize)) :=
  keptShards_none b 0 false r.shards

theorem replicaAssignments_fst (b : TransferPlanBuilder) (im tm : ParameterMeta)
    (ht : tm.replicas ≠ []) :
    (replicaAssignments b im tm).map (·.1) = inferenceReplicas b im := by
  rw [replicaAssignments, List.map_filterMap]
  have hsome : ∀ z : (ℕ × ParameterReplicaMeta) × ℕ,
      Option.map (·.1) ((tm.replicas[z.2 % tm.replicas.length]?).map (fun t => (z.1, t))) = some z.1 := by
    intro z
    have hlt := Nat.mod_lt z.2 (List.length_pos_iff.mpr ht)
    simp [List.getElem?_eq_getElem hlt]
  simp only [hsome, List.filterMap_eq_map']
  exact List.zipIdx_map_fst ..

theorem mem_inferenceReplicas (b : TransferPlanBuilder) (im : ParameterMeta) (e : ℕ)
    (r : ParameterReplicaMeta) :
    (e, r) ∈ inferenceReplicas b im ↔ e < b.numInferEngines ∧ r ∈ im.replicas := by
  simp [inferenceReplicas]

theorem mem_replicaAssignments (b : TransferPlanBuilder) (im tm : ParameterMeta)
    (a : (ℕ × ParameterReplicaMeta) × ParameterReplicaMeta) (ha : a ∈ replicaAssignments b im tm) :
    ∃ i, (inferenceReplicas b im)[i]? = some a.1 ∧
      tm.replicas[i % tm.replicas.length]? = some a.2 := by
  obtain ⟨⟨r, i⟩, hz, ha⟩ := List.mem_filterMap.mp ha
  obtain ⟨t, ht, rfl⟩ := Option.map_eq_some_iff.mp ha
  exact ⟨i, List.mem_zipIdx_iff_getElem?.mp hz, ht⟩

theorem replicaAssignments_of_getElem? {b : TransferPlanBuilder} {im tm : ParameterMeta} {i : ℕ}
    {a : ℕ × ParameterReplicaMeta} {t : ParameterReplicaMeta} (ha : (inferenceReplicas b im)[i]? = some a)
    (ht : tm.replicas[i % tm.replicas.length]? = some t) : (a, t) ∈ replicaAssignments b im tm := by
  refine List.mem_filterMap.mpr ⟨(a, i), List.mem_zipIdx_iff_getElem?.mpr ha, ?_⟩
  exact Option.map_eq_some_iff.mpr ⟨t, ht, rfl⟩

def placements (b : TransferPlanBuilder) (im tm : ParameterMeta) :
    List (((ℕ × ParameterReplicaMeta) × ParameterReplicaMeta) × PlacedShard) :=
  (replicaAssignments b im tm).flatMap (fun a =>
    (keptInference b none a.1.1 a.1.2).map (fun p => (a, p)))

def placementOperations (b : TransferPlanBuilder)
    (z : ((ℕ × ParameterReplicaMeta) × ParameterReplicaMeta) × PlacedShard) :
    List CommunicationOperation :=
  ((keptTraining b none z.1.2).filterMap (overlapItem z.2)).map itemOperation

theorem parameterOperations_none (b : TransferPlanBuilder) (im tm : ParameterMeta) :
    parameterOperations b none im tm = (placements b im tm).flatMap (placementOperations b) := by
  simp only [parameterOperations, placements, replicaItems, List.flatMap_assoc, List.flatMap_map,
    List.map_flatMap]
  rfl

theorem mem_placements {b : TransferPlanBuilder} {im tm : ParameterMeta}
    {z : ((ℕ × ParameterReplicaMeta) × ParameterReplicaMeta) × PlacedShard} :
    z ∈ placements b im tm ↔ z.1 ∈ replicaAssignments b im tm ∧ z.2.1 ∈ z.1.1.2.shards ∧
      z.2.2 = z.2.1.globalRank + z.1.1.1 * b.inferInstanceWorldSize := by
  obtain ⟨a, s, k⟩ := z
  simp only [placements, List.mem_flatMap, keptInference_none, List.map_map, List.mem_map,
    Function.comp_apply, Prod.mk.injEq]
  constructor
  · rintro ⟨a, ha, s, hs, rfl, rfl, rfl⟩
    exact ⟨ha, hs, rfl⟩
  · rintro ⟨ha, hs, rfl⟩
    exact ⟨a, ha, s, hs, rfl, rfl, rfl⟩

theorem placements_ranks (b : TransferPlanBuilder) (im tm : ParameterMeta) (ht : tm.replicas ≠ []) :
    (placements b im tm).map (·.2.2) = (List.range b.numInferEngines).flatMap (fun e =>
      ((im.replicas.flatMap (·.shards)).map (·.globalRank)).map (· + e * b.inferInstanceWorldSize)) := by
  have hfst := replicaAssignments_fst b im tm ht
  have hrow : ∀ a : (ℕ × ParameterReplicaMeta) × ParameterReplicaMeta,
      ((keptInference b none a.1.1 a.1.2).map (fun p => (a, p))).map (·.2.2) =
        a.1.2.shards.map (fun s => s.globalRank + a.1.1 * b.inferInstanceWorldSize) := by
    intro a
    simp [keptInference_none]
  rw [placements, List.map_flatMap]
  simp only [hrow]
  have hmap := List.flatMap_map (f := (·.1)) (l := replicaAssignments b im tm)
    (g := fun a : ℕ × ParameterReplicaMeta =>
      a.2.shards.map (fun s => s.globalRank + a.1 * b.inferInstanceWorldSize))
  rw [← hmap, hfst, inferenceReplicas, List.flatMap_assoc]
  simp [List.flatMap_map, List.map_flatMap, Function.comp_def]

theorem placements_nodup_of_ranks {b : TransferPlanBuilder} {im tm : ParameterMeta}
    (hranks : ((im.replicas.flatMap (·.shards)).map (·.globalRank)).Nodup)
    (hlt : ∀ r ∈ im.replicas, ∀ s ∈ r.shards, s.globalRank < b.inferInstanceWorldSize)
    (ht : tm.replicas ≠ []) : ((placements b im tm).map (·.2.2)).Nodup := by
  rw [placements_ranks b im tm ht, List.nodup_flatMap]
  refine ⟨fun e _ => hranks.map (fun _ _ => Nat.add_right_cancel), ?_⟩
  refine List.Nodup.pairwise_of_forall_ne List.nodup_range ?_
  intro e _ e' _ hne x hx hx'
  obtain ⟨k, hk, rfl⟩ := List.mem_map.mp hx
  obtain ⟨k', hk', heq⟩ := List.mem_map.mp hx'
  have hbound : ∀ k ∈ (im.replicas.flatMap (·.shards)).map (·.globalRank),
      k < b.inferInstanceWorldSize := by
    simp only [List.mem_map, List.mem_flatMap]
    rintro _ ⟨s, ⟨r, hr, hs⟩, rfl⟩
    exact hlt r hr s hs
  have hdiv : ∀ k e, k < b.inferInstanceWorldSize →
      (k + e * b.inferInstanceWorldSize) / b.inferInstanceWorldSize = e := by
    intro k e hk
    rw [Nat.add_mul_div_right _ _ (by omega), Nat.div_eq_of_lt hk, Nat.zero_add]
  have he := hdiv k e (hbound k hk)
  have he' := hdiv k' e' (hbound k' hk')
  rw [heq] at he'
  exact hne (he.symm.trans he')

theorem placements_nodup {b : TransferPlanBuilder} {name : String} {im tm : ParameterMeta}
    (h : Layout b name im tm) (ht : tm.replicas ≠ []) : ((placements b im tm).map (·.2.2)).Nodup :=
  placements_nodup_of_ranks h.infer_ranks h.infer_bound ht

theorem Layout.infer_valid {b : TransferPlanBuilder} {name : String} {im tm : ParameterMeta}
    (h : Layout b name im tm) {r : ParameterReplicaMeta} (hr : r ∈ im.replicas)
    {s : ParameterShardMeta} (hs : s ∈ r.shards) : ValidShard s := by
  obtain ⟨h1, h2⟩ := h.infer_dims r hr s hs
  exact ⟨List.length_pos_iff.mp (h1 ▸ h.dims_pos), h1.trans h2.symm⟩

theorem Layout.train_valid {b : TransferPlanBuilder} {name : String} {im tm : ParameterMeta}
    (h : Layout b name im tm) {r : ParameterReplicaMeta} (hr : r ∈ tm.replicas)
    {s : ParameterShardMeta} (hs : s ∈ r.shards) : ValidShard s := by
  obtain ⟨h1, h2⟩ := h.train_dims r hr s hs
  exact ⟨List.length_pos_iff.mp (h1 ▸ h.dims_pos), h1.trans h2.symm⟩

theorem row_covers (p : PlacedShard) (hp : ValidShard p.1) (qs : List PlacedShard)
    (hq : ∀ q ∈ qs, ValidShard q.1 ∧ p.1.globalOffset.length = q.1.globalOffset.length) (x : List ℕ)
    (hx : x ∈ Box.origin p.1.shape) :
    ((qs.filterMap (overlapItem p)).map itemOperation).countP (·.Covers x) =
      (qs.map (·.1.box)).countP (List.zipWith (· + ·) p.1.globalOffset x ∈ ·) := by
  induction qs with
  | nil => rfl
  | cons q qs ih =>
    obtain ⟨⟨hq, hdims⟩, hqs⟩ := List.forall_mem_cons.mp hq
    have hcov := covers_iff_mem p q hp hq hdims x hx
    rw [List.map_cons, List.countP_cons, ← ih hqs]
    cases ho : overlapItem p q with
    | none =>
      rw [ho] at hcov
      simp only [List.filterMap_cons, ho]
      simpa using hcov
    | some i =>
      simp only [ho, Option.some.injEq, exists_eq_left'] at hcov
      rw [List.filterMap_cons, ho, List.map_cons, List.countP_cons]
      simp [hcov]

theorem itemOperation_recv {p q : PlacedShard} {i : PlacedShard × PlacedShard × List ℕ × List ℕ}
    (hi : overlapItem p q = some i) :
    (itemOperation i).recvRank = p.2 ∧ (itemOperation i).recvShardMeta = p.1 := by
  obtain ⟨rfl, -, -⟩ := overlapItem_eq_some.mp hi
  exact ⟨rfl, rfl⟩

theorem itemOperation_send {p q : PlacedShard} {i : PlacedShard × PlacedShard × List ℕ × List ℕ}
    (hi : overlapItem p q = some i) :
    (itemOperation i).sendRank = q.2 ∧ (itemOperation i).sendShardMeta = q.1 := by
  obtain ⟨-, rfl, -⟩ := overlapItem_eq_some.mp hi
  exact ⟨rfl, rfl⟩

theorem mem_placementOperations {b : TransferPlanBuilder}
    {z : ((ℕ × ParameterReplicaMeta) × ParameterReplicaMeta) × PlacedShard}
    {op : CommunicationOperation} :
    op ∈ placementOperations b z ↔ ∃ s ∈ z.1.2.shards, ∃ i,
      overlapItem z.2 (s, s.globalRank + b.inferWorldSize) = some i ∧ itemOperation i = op := by
  simp only [placementOperations, keptTraining_none, List.filterMap_map, List.mem_map,
    List.mem_filterMap, Function.comp_apply]
  constructor
  · rintro ⟨i, ⟨s, hs, hi⟩, rfl⟩
    exact ⟨s, hs, i, hi, rfl⟩
  · rintro ⟨s, hs, i, hi, rfl⟩
    exact ⟨i, ⟨s, hs, hi⟩, rfl⟩

theorem parameter_coverage {b : TransferPlanBuilder} {name : String} {im tm : ParameterMeta}
    (h : Layout b name im tm) (ht : tm.replicas ≠ []) (e : ℕ) (he : e < b.numInferEngines)
    (r : ParameterReplicaMeta) (hr : r ∈ im.replicas) (s : ParameterShardMeta) (hs : s ∈ r.shards)
    (x : List ℕ) (hx : x ∈ Box.origin s.shape) :
    (parameterOperations b none im tm).countP (fun op =>
      op.recvRank = s.globalRank + e * b.inferInstanceWorldSize ∧ op.Covers x) = 1 := by
  obtain ⟨a, ha, hafst⟩ : ∃ a ∈ replicaAssignments b im tm, a.1 = (e, r) := by
    apply List.mem_map.mp
    rw [replicaAssignments_fst b im tm ht, mem_inferenceReplicas]
    exact ⟨he, hr⟩
  obtain ⟨j, -, hj⟩ := mem_replicaAssignments b im tm a ha
  have htr := List.mem_of_getElem? hj
  have hz : (a, s, s.globalRank + e * b.inferInstanceWorldSize) ∈ placements b im tm := by
    rw [mem_placements, hafst]
    exact ⟨ha, hs, rfl⟩
  have hvalid := h.infer_valid hr hs
  rw [parameterOperations_none,
    countP_flatMap_filter _ _ _ (fun z => z.2.2 = s.globalRank + e * b.inferInstanceWorldSize),
    filter_eq_singleton (placements b im tm) (·.2.2) (placements_nodup h ht) _ hz,
    List.flatMap_singleton]
  · have hrank : ∀ op ∈ placementOperations b (a, s, s.globalRank + e * b.inferInstanceWorldSize),
        op.recvRank = s.globalRank + e * b.inferInstanceWorldSize := by
      intro op hop
      obtain ⟨t, -, i, hi, rfl⟩ := mem_placementOperations.mp hop
      exact (itemOperation_recv hi).1
    rw [List.countP_congr (q := fun op => op.Covers x)
      (fun op hop => by simp [hrank op hop])]
    have hrow := row_covers (s, s.globalRank + e * b.inferInstanceWorldSize) hvalid
      (keptTraining b none a.2) (by
        rw [keptTraining_none]
        simp only [List.mem_map]
        rintro _ ⟨t, htm, rfl⟩
        exact ⟨h.train_valid htr htm, (h.infer_dims r hr s hs).1.trans (h.train_dims _ htr t htm).1.symm⟩) x hx
    refine hrow.trans ?_
    have hboxes : (keptTraining b none a.2).map (·.1.box) = a.2.shards.map (·.box) := by
      simp [keptTraining_none]
    rw [hboxes]
    apply (h.train_tiles a.2 htr).count_eq_one
    apply h.infer_inside r hr s hs
    have hlen : x.length = s.shape.length := (Box.within_length hx).2.symm
    exact (Box.add_mem s.box x hvalid.dims hlen).mpr hx
  · intro z _ hne
    rw [List.countP_eq_zero]
    intro op hop
    obtain ⟨t, -, i, hi, rfl⟩ := mem_placementOperations.mp hop
    simp [(itemOperation_recv hi).1, hne]

end Awex
