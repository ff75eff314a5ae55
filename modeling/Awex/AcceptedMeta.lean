import Awex.GatheredMeta
import Awex.Library.Chunks
import Awex.MetaCheck
import Mathlib.Algebra.GroupWithZero.Nat

namespace Awex

/-- Training replica `t` feeds inference replica `r` of engine `e`. -/
def Feeds (b : TransferPlanBuilder) (im tm : ParameterMeta) (e : ℕ) (r t : ParameterReplicaMeta) : Prop :=
  ∃ i < b.numInferEngines * im.replicas.length, e = i / im.replicas.length ∧
    im.replicas[i % im.replicas.length]? = some r ∧ tm.replicas[i % tm.replicas.length]? = some t

/-- The parameter has at least one dimension, the shards that meet have the dimensions of the
parameter, and no inference shard reaches outside the shards that feed it. -/
structure Plannable (b : TransferPlanBuilder) (im tm : ParameterMeta) : Prop where
  dims : im.globalShape ≠ []
  shapes : ∀ e r t, Feeds b im tm e r t → ∀ s, s ∈ r.shards ∨ s ∈ t.shards →
    s.shape.length = im.globalShape.length
  inside : ∀ e r t, Feeds b im tm e r t → ∀ s ∈ r.shards, ∀ x ∈ s.box, ∃ s' ∈ t.shards, x ∈ s'.box

def InferOnlyAlias (infer train : List ParameterMeta) (name : String) : Prop :=
  name ∉ (metaDict train).keys ∧
    isAllowedInferOnlyAlias name (metaDict infer).keys (metaDict train).keys = true

/-- Planning raises nothing on any rank, and the whole plan as well as the plan of the receiving
rank cover every element of the inference parameters. -/
structure Planned (b : TransferPlanBuilder) (infer train : List ParameterMeta) : Prop where
  no_error : ∀ g, ∃ ops, buildWeightsMappingOperations b infer train g = .ok ops
  covered : ∀ im ∈ infer, ¬ InferOnlyAlias infer train im.name → ∀ e < b.numInferEngines,
    ∀ r ∈ im.replicas, ∀ s ∈ r.shards, ∀ x ∈ Box.origin s.shape,
      ∀ g ∈ [none, some (s.globalRank + e * b.inferInstanceWorldSize)],
        ∀ ops, buildWeightsMappingOperations b infer train g = .ok ops → ∃ op ∈ ops,
          op.recvShardMeta = s ∧ op.recvRank = s.globalRank + e * b.inferInstanceWorldSize ∧ op.Covers x

theorem inferenceReplicas_getElem? (b : TransferPlanBuilder) (im : ParameterMeta) (i e : ℕ)
    (r : ParameterReplicaMeta) : (inferenceReplicas b im)[i]? = some (e, r) ↔
      i < b.numInferEngines * im.replicas.length ∧ e = i / im.replicas.length ∧
        im.replicas[i % im.replicas.length]? = some r := by
  have hlen : ∀ j < b.numInferEngines,
      (im.replicas.map (fun replica => (j, replica))).length = im.replicas.length :=
    fun j _ => List.length_map _
  by_cases hi : i < b.numInferEngines * im.replicas.length
  · rw [inferenceReplicas, Chunks.getElem?_flatMap_range hlen hi, List.getElem?_map, Option.map_eq_some_iff]
    simp only [Prod.mk.injEq, hi, true_and]
    constructor
    · rintro ⟨r, hr, rfl, rfl⟩
      exact ⟨rfl, hr⟩
    · rintro ⟨rfl, hr⟩
      exact ⟨r, hr, rfl, rfl⟩
  · have hnone : (inferenceReplicas b im)[i]? = none := by
      rw [List.getElem?_eq_none_iff, inferenceReplicas, Chunks.length_flatMap_range hlen]
      exact not_lt.mp hi
    simp [hnone, hi]

theorem feeds_iff {b : TransferPlanBuilder} {im tm : ParameterMeta} {e : ℕ} {r t : ParameterReplicaMeta} :
    Feeds b im tm e r t ↔ ((e, r), t) ∈ replicaAssignments b im tm := by
  constructor
  · rintro ⟨i, hi, he, hr, ht⟩
    exact replicaAssignments_of_getElem? ((inferenceReplicas_getElem? b im i e r).mpr ⟨hi, he, hr⟩) ht
  · intro h
    obtain ⟨i, hir, hit⟩ := mem_replicaAssignments b im tm _ h
    obtain ⟨hi, he, hr⟩ := (inferenceReplicas_getElem? b im i e r).mp hir
    exact ⟨i, hi, he, hr, hit⟩

section Pair

variable {b : TransferPlanBuilder} {trainWorld : ℕ} {im tm : ParameterMeta} {e : ℕ}
  {r t : ParameterReplicaMeta} (hi : ResolvedParam b.inferInstanceWorldSize im)
  (ht : ResolvedParam trainWorld tm) (hshape : im.globalShape = tm.globalShape)
  (hfeeds : Feeds b im tm e r t)
include hi ht hshape hfeeds

theorem replicaOk_iff : ReplicaOk b none e r t ↔ im.globalShape ≠ [] ∧
    ∀ s, s ∈ r.shards ∨ s ∈ t.shards → s.shape.length = im.globalShape.length := by
  have ha := feeds_iff.mp hfeeds
  obtain ⟨i, hir, hit⟩ := mem_replicaAssignments b im tm _ ha
  obtain ⟨he, hr⟩ := (mem_inferenceReplicas b im e r).mp (List.mem_of_getElem? hir)
  have htm : t ∈ tm.replicas := List.mem_of_getElem? hit
  have hroff := hi.offset_dims r hr
  have htoff := ht.offset_dims t htm
  rw [← hshape] at htoff
  constructor
  · intro h
    obtain ⟨s, hs⟩ := List.exists_mem_of_ne_nil _ h.inference_ne
    have hpos := List.length_pos_iff.mpr (h.inference_valid s hs).offset_ne_nil
    rw [hroff s hs] at hpos
    refine ⟨List.length_pos_iff.mp hpos, ?_⟩
    rintro s (hs | hs)
    · rw [← hroff s hs, (h.inference_valid s hs).dims]
    · rw [← htoff s hs, (h.training_valid s hs).dims]
  · rintro ⟨hne, hdims⟩
    exact replicaOk_of_dims (List.length_pos_iff.mpr hne) he (hi.shards_ne r hr) (ht.shards_ne t htm)
      (fun s hs => ⟨hroff s hs, hdims s (.inl hs)⟩) (fun s hs => ⟨htoff s hs, hdims s (.inr hs)⟩)
      (hi.in_world r hr)

theorem parameterOperations_covers (hok : ReplicaOk b none e r t) {s : ParameterShardMeta}
    (hs : s ∈ r.shards) {x : List ℕ} (hx : x ∈ Box.origin s.shape) :
    (∃ op ∈ parameterOperations b none im tm, op.recvShardMeta = s ∧
      op.recvRank = s.globalRank + e * b.inferInstanceWorldSize ∧ op.Covers x) ↔
      ∃ s' ∈ t.shards, List.zipWith (· + ·) s.globalOffset x ∈ s'.box := by
  have ha := feeds_iff.mp hfeeds
  obtain ⟨i, hir, hit⟩ := mem_replicaAssignments b im tm _ ha
  obtain ⟨-, hr⟩ := (mem_inferenceReplicas b im e r).mp (List.mem_of_getElem? hir)
  have htm : t ∈ tm.replicas := List.mem_of_getElem? hit
  have hz : (((e, r), t), s, s.globalRank + e * b.inferInstanceWorldSize) ∈ placements b im tm :=
    mem_placements.mpr ⟨ha, hs, rfl⟩
  have hcov : ∀ s' ∈ t.shards, (∃ i, overlapItem (s, s.globalRank + e * b.inferInstanceWorldSize)
      (s', s'.globalRank + b.inferWorldSize) = some i ∧ (itemOperation i).Covers x) ↔
      List.zipWith (· + ·) s.globalOffset x ∈ s'.box := by
    intro s' hs'
    have hdims := (hi.offset_dims r hr s hs).trans
      ((congrArg List.length hshape).trans (ht.offset_dims t htm s' hs').symm)
    exact covers_iff_mem _ _ (hok.inference_valid s hs) (hok.training_valid s' hs') hdims x hx
  rw [parameterOperations_none]
  constructor
  · rintro ⟨op, hop, -, hrank, hx⟩
    obtain ⟨z, hz', hop⟩ := List.mem_flatMap.mp hop
    obtain ⟨s', hs', item, hitem, rfl⟩ := mem_placementOperations.mp hop
    -- ranks hold one shard of a parameter, so the operation belongs to this placement
    have hnodup := placements_nodup_of_ranks hi.ranks hi.in_world ht.replicas_ne
    obtain rfl := List.inj_on_of_nodup_map hnodup hz' hz ((itemOperation_recv hitem).1.symm.trans hrank)
    exact ⟨s', hs', (hcov s' hs').mp ⟨item, hitem, hx⟩⟩
  · rintro ⟨s', hs', hmem⟩
    obtain ⟨item, hitem, hx⟩ := (hcov s' hs').mpr hmem
    obtain ⟨hrank, hshard⟩ := itemOperation_recv hitem
    exact ⟨itemOperation item, List.mem_flatMap.mpr ⟨_, hz, mem_placementOperations.mpr ⟨s', hs', item, hitem, rfl⟩⟩,
      hshard, hrank, hx⟩

end Pair

theorem mem_plannedOperations_some {b : TransferPlanBuilder} {infer train : List ParameterMeta} {g : ℕ}
    (hg : g < b.inferWorldSize) {op : CommunicationOperation} :
    op ∈ plannedOperations b infer train (some g) ↔
      op ∈ plannedOperations b infer train none ∧ op.recvRank = g := by
  rw [plannedOperations_some, ownOperations, List.mem_filter, decide_eq_true_eq, ownRank, isTrainRank,
    decide_eq_false (not_le.mpr hg)]
  rfl

theorem recvShardMeta_mem {b : TransferPlanBuilder} {im tm : ParameterMeta} {op : CommunicationOperation}
    (hop : op ∈ parameterOperations b none im tm) : ∃ r ∈ im.replicas, op.recvShardMeta ∈ r.shards := by
  rw [parameterOperations_none] at hop
  obtain ⟨⟨⟨⟨e, r⟩, t⟩, p⟩, hz, hop⟩ := List.mem_flatMap.mp hop
  obtain ⟨s', -, i, hi, rfl⟩ := mem_placementOperations.mp hop
  obtain ⟨ha, hs, -⟩ := mem_placements.mp hz
  obtain ⟨j, hj, -⟩ := mem_replicaAssignments b im tm _ ha
  rw [(itemOperation_recv hi).2]
  exact ⟨r, ((mem_inferenceReplicas b im e r).mp (List.mem_of_getElem? hj)).2, hs⟩

theorem common_of_not_alias {b : TransferPlanBuilder} {infer train : List ParameterMeta}
    (hkeys : keyMismatch b (metaDict infer).keys (metaDict train).keys = none) {im : ParameterMeta}
    (him : im ∈ infer) (halias : ¬ InferOnlyAlias infer train im.name) :
    ∃ tm, (metaDict train).get? im.name = some tm := by
  by_contra hnone
  have hnot : im.name ∉ (metaDict train).keys := by
    rwa [Dict.mem_keys, Option.isSome_iff_exists]
  have hkey : im.name ∈ (metaDict infer).keys := (mem_keys_metaDict infer im.name).mpr (List.mem_map_of_mem him)
  have hextra : im.name ∈ (metaDict infer).keys.filter (· ∉ (metaDict train).keys) :=
    List.mem_filter.mpr ⟨hkey, by simpa using hnot⟩
  have hunsupported : im.name ∈ ((metaDict infer).keys.filter (· ∉ (metaDict train).keys)).filter
      (fun key => ¬ isAllowedInferOnlyAlias key (metaDict infer).keys (metaDict train).keys) := by
    refine List.mem_filter.mpr ⟨hextra, ?_⟩
    simpa using fun halias' => halias ⟨hnot, halias'⟩
  have hmismatch : (if b.strictParamKeyMatch then
      (metaDict train).keys.filter (· ∉ (metaDict infer).keys) ≠ [] ∨
        (metaDict infer).keys.filter (· ∉ (metaDict train).keys) ≠ []
      else (metaDict train).keys.filter (· ∉ (metaDict infer).keys) ≠ [] ∨
        ((metaDict infer).keys.filter (· ∉ (metaDict train).keys)).filter
          (fun key => ¬ isAllowedInferOnlyAlias key (metaDict infer).keys (metaDict train).keys) ≠ []) := by
    split_ifs
    · exact .inr (List.ne_nil_of_mem hextra)
    · exact .inr (List.ne_nil_of_mem hunsupported)
  rw [keyMismatch] at hkeys
  rw [if_pos hmismatch] at hkeys
  exact Option.some_ne_none _ hkeys

section Accepted

variable {b : TransferPlanBuilder}
  {getInferSharding getTrainSharding : String → RankInfo → RawParamMeta → ShardingInfo}
  {rawInfer rawTrain : List RawRankMeta} {infer train : List ParameterMeta}
  (hi : GatheredMeta getInferSharding rawInfer b.inferInstanceWorldSize infer)
  (ht : GatheredMeta getTrainSharding rawTrain b.trainWorldSize train)
include hi

theorem planned_for_param {im tm : ParameterMeta} (him : (metaDict infer).get? im.name = some im)
    (htm : (metaDict train).get? im.name = some tm) {r : ParameterReplicaMeta} (hr : r ∈ im.replicas)
    {op : CommunicationOperation} (hs : op.recvShardMeta ∈ r.shards) :
    op ∈ plannedOperations b infer train none ↔ op ∈ parameterOperations b none im tm := by
  rw [mem_plannedOperations]
  constructor
  · rintro ⟨name, im', tm', him', htm', hop⟩
    obtain ⟨r', hr', hs'⟩ := recvShardMeta_mem hop
    have hmem := (mem_metaDict him).1
    obtain ⟨hmem', rfl⟩ := mem_metaDict him'
    have hname := ((hi.resolvedParam hmem').names r' hr' _ hs').symm.trans
      ((hi.resolvedParam hmem).names r hr _ hs)
    rw [hname, him] at him'
    rw [hname, htm] at htm'
    obtain rfl := Option.some.inj him'
    obtain rfl := Option.some.inj htm'
    exact hop
  · intro hop
    exact ⟨im.name, im, tm, him, htm, hop⟩

include ht

theorem Planned.plannable (h : Planned b infer train) {im tm : ParameterMeta} (him : im ∈ infer)
    (htm : tm ∈ train) (hname : im.name = tm.name) (hshape : im.globalShape = tm.globalShape) :
    Plannable b im tm := by
  have hri := hi.resolvedParam him
  have hrt := ht.resolvedParam htm
  have hgeti := hi.get?_name him
  have hgett := ht.get?_name htm
  rw [← hname] at hgett
  obtain ⟨ops, hops⟩ := h.no_error none
  obtain ⟨hempty | hok, rfl⟩ := (buildWeightsMappingOperations_ok_iff b infer train none ops).mp hops
  · exact absurd hempty (not_or.mpr ⟨hi.nonempty, ht.nonempty⟩)
  have hparam := hok.params im.name (mem_plannedParams.mpr ⟨im, tm, hgeti, hgett⟩) im tm hgeti hgett
  have hreplica : ∀ e r t, Feeds b im tm e r t → ReplicaOk b none e r t := by
    intro e r t hfeeds
    exact hparam.replicas _ (feeds_iff.mp hfeeds)
  have hkey : ¬ InferOnlyAlias infer train im.name := by
    intro halias
    apply halias.1
    rw [Dict.mem_keys, hgett]
    rfl
  refine ⟨?_, ?_, ?_⟩
  · obtain ⟨⟨⟨e, r⟩, t⟩, ha⟩ : ∃ a, a ∈ replicaAssignments b im tm := by
      apply List.exists_mem_of_ne_nil
      intro hnil
      have hfst := replicaAssignments_fst b im tm hrt.replicas_ne
      rw [hnil] at hfst
      exact hparam.inference_ne hfst.symm
    have hfeeds := feeds_iff.mpr ha
    exact ((replicaOk_iff hri hrt hshape hfeeds).mp (hreplica e r t hfeeds)).1
  · intro e r t hfeeds
    exact ((replicaOk_iff hri hrt hshape hfeeds).mp (hreplica e r t hfeeds)).2
  · intro e r t hfeeds s hs y hy
    obtain ⟨i, hir, -⟩ := mem_replicaAssignments b im tm _ (feeds_iff.mp hfeeds)
    obtain ⟨he, hr⟩ := (mem_inferenceReplicas b im e r).mp (List.mem_of_getElem? hir)
    obtain ⟨hx, hadd⟩ := Box.sub_mem s.box y hy
    obtain ⟨op, hop, hshard, hrank, hcov⟩ :=
      h.covered im him hkey e he r hr s hs _ hx none List.mem_cons_self _ hops
    rw [planned_for_param hi hgeti hgett hr (hshard ▸ hs)] at hop
    have hmem := (parameterOperations_covers hri hrt hshape hfeeds (hreplica e r t hfeeds) hs hx).mp
      ⟨op, hop, hshard, hrank, hcov⟩
    rwa [← hadd]

theorem plannable_planned (hkeys : keyMismatch b (metaDict infer).keys (metaDict train).keys = none)
    (hshapes : ∀ im ∈ infer, ∀ tm ∈ train, im.name = tm.name → im.globalShape = tm.globalShape)
    (h : ∀ im ∈ infer, ∀ tm ∈ train, im.name = tm.name → Plannable b im tm) : Planned b infer train := by
  have hreplica : ∀ im ∈ infer, ∀ tm ∈ train, im.name = tm.name → ∀ e r t, Feeds b im tm e r t →
      ReplicaOk b none e r t := by
    intro im him tm htm hname e r t hfeeds
    have hp := h im him tm htm hname
    exact (replicaOk_iff (hi.resolvedParam him) (ht.resolvedParam htm) (hshapes im him tm htm hname) hfeeds).mpr
      ⟨hp.dims, hp.shapes e r t hfeeds⟩
  have hmapping : MappingOk b infer train none := by
    refine ⟨hkeys, fun name _ im tm hgeti hgett => ?_⟩
    obtain ⟨him, hname⟩ := mem_metaDict hgeti
    obtain ⟨htm, hname'⟩ := mem_metaDict hgett
    refine parameterOk_of_replicas (hi.resolvedParam him).replicas_ne (ht.resolvedParam htm).replicas_ne
      (fun a ha => ?_)
    exact hreplica im him tm htm (hname.trans hname'.symm) _ _ _ (feeds_iff.mpr ha)
  constructor
  · intro g
    refine ⟨_, (buildWeightsMappingOperations_ok_iff b infer train g _).mpr ⟨.inr ?_, rfl⟩⟩
    cases g with
    | none => exact hmapping
    | some g => exact hmapping.prune g
  · intro im him halias e he r hr s hs x hx g hg ops hops
    obtain ⟨-, rfl⟩ := (buildWeightsMappingOperations_ok_iff b infer train g ops).mp hops
    obtain ⟨tm, hgett⟩ := common_of_not_alias hkeys him halias
    obtain ⟨htm, hname⟩ := mem_metaDict hgett
    have hri := hi.resolvedParam him
    have hrt := ht.resolvedParam htm
    -- the training replica that feeds the shard
    obtain ⟨i, hir⟩ := List.mem_iff_getElem?.mp ((mem_inferenceReplicas b im e r).mpr ⟨he, hr⟩)
    have hlt := Nat.mod_lt i (List.length_pos_iff.mpr hrt.replicas_ne)
    have hfeeds := feeds_iff.mpr (replicaAssignments_of_getElem? hir (List.getElem?_eq_getElem hlt))
    have hok := hreplica im him tm htm hname.symm e r _ hfeeds
    have hlen : x.length = s.shape.length := (Box.within_length hx).2.symm
    have hbox := (Box.add_mem s.box x (hok.inference_valid s hs).dims hlen).mpr hx
    have hfed := (h im him tm htm hname.symm).inside e r _ hfeeds s hs _ hbox
    obtain ⟨op, hop, hshard, hrank, hcov⟩ := (parameterOperations_covers hri hrt
      (hshapes im him tm htm hname.symm) hfeeds hok hs hx).mpr hfed
    rw [← planned_for_param hi (hi.get?_name him) hgett hr (hshard ▸ hs)] at hop
    refine ⟨op, ?_, hshard, hrank, hcov⟩
    rcases List.mem_cons.mp hg with rfl | hg
    · exact hop
    · rw [List.mem_singleton.mp hg]
      exact (mem_plannedOperations_some (transferRank_lt b _ e (hri.in_world r hr s hs) he)).mpr ⟨hop, hrank⟩

theorem consistent_plannable {im tm : ParameterMeta} (him : im ∈ infer) (htm : tm ∈ train)
    (hshape : im.globalShape = tm.globalShape)
    (hci : Consistent ((shardInfos getInferSharding rawInfer).filter (fun s => s.name = im.name)))
    (hct : Consistent ((shardInfos getTrainSharding rawTrain).filter (fun s => s.name = tm.name))) :
    Plannable b im tm := by
  obtain ⟨hne, hinfer⟩ := hi.consistent_dims him hci
  obtain ⟨-, htrain⟩ := ht.consistent_dims htm hct
  refine ⟨hne, ?_, ?_⟩
  · rintro e r t ⟨i, -, -, hr, ht⟩ s (hs | hs)
    · exact (hinfer r (List.mem_of_getElem? hr)).2 s hs
    · rw [hshape]
      exact (htrain t (List.mem_of_getElem? ht)).2 s hs
  · rintro e r t ⟨i, -, -, hr, ht⟩ s hs x hx
    have hinside := (hinfer r (List.mem_of_getElem? hr)).1.inside _ (List.mem_map_of_mem hs) x hx
    rw [hshape] at hinside
    obtain ⟨box, hbox, hmem⟩ := (htrain t (List.mem_of_getElem? ht)).1.covers x hinside
    obtain ⟨s', hs', rfl⟩ := List.mem_map.mp hbox
    exact ⟨s', hs', hmem⟩

/-- What the check accepts is planned without an error and in full exactly when every common
parameter is plannable, as it is when both sides report consistent shards. -/
theorem accepted_meta_planned_iff
    (hcheck : checkTrainInferParamsMeta train infer true b.strictParamKeyMatch = .ok ()) :
    (Planned b infer train ↔ ∀ im ∈ infer, ∀ tm ∈ train, im.name = tm.name → Plannable b im tm) ∧
      ∀ im ∈ infer, ∀ tm ∈ train, im.name = tm.name →
        Consistent ((shardInfos getInferSharding rawInfer).filter (fun s => s.name = im.name)) →
        Consistent ((shardInfos getTrainSharding rawTrain).filter (fun s => s.name = tm.name)) →
        Plannable b im tm := by
  obtain ⟨hkeys, hcompatible⟩ := (checkTrainInferParamsMeta_ok_iff b infer train).mp hcheck
  have hshapes : ∀ im ∈ infer, ∀ tm ∈ train, im.name = tm.name → im.globalShape = tm.globalShape := by
    intro im him tm htm hname
    have hgett := ht.get?_name htm
    rw [← hname] at hgett
    exact (hcompatible im.name im tm (hi.get?_name him) hgett).shape
  refine ⟨⟨?_, plannable_planned hi ht hkeys hshapes⟩, ?_⟩
  · intro h im him tm htm hname
    exact h.plannable hi ht him htm hname (hshapes im him tm htm hname)
  · intro im him tm htm hname hci hct
    exact consistent_plannable hi ht him htm (hshapes im him tm htm hname) hci hct

end Accepted

/-- Rank `r` of a side with plain tensor parallelism. -/
def tensorParallelRank (r tpSize : ℕ) (isInfer : Bool) : RankInfo where
  tpRank := r
  tpSize := tpSize
  ppRank := 0
  ppSize := 1
  dpSize := 1
  dpRank := 0
  epRank := 0
  epSize := 1
  epTpRank := r
  epTpSize := tpSize
  attnTpRank := r
  attnTpSize := tpSize
  attnDpRank := 0
  worldSize := tpSize
  globalRank := r
  localRank := r
  engineRank := 0
  isInfer := isInfer

def tensorParallelRaw (name : String) (shape : List ℕ) (tpSize : ℕ) (isInfer : Bool) : List RawRankMeta :=
  (List.range tpSize).map (fun r =>
    ⟨tensorParallelRank r tpSize isInfer, [⟨name, shape, shape.prod, .torch .bfloat16⟩]⟩)

def tensorParallelParams (name : String) (shape : List ℕ) (tpSize : ℕ) (isInfer : Bool) : List ParameterMeta :=
  (buildParamsMeta (getExpertShardingStrategy 0) (tensorParallelRaw name shape tpSize isInfer)).toOption.getD []

def halvedBuilder : TransferPlanBuilder := ⟨4, 1, 2, false, Nat.two_pos⟩

def singleBuilder : TransferPlanBuilder := ⟨1, 1, 1, false, by decide⟩

theorem accepted_meta_planned_halved : Planned halvedBuilder
    (tensorParallelParams "mlp.up_proj.weight" [2, 3] 2 true)
    (tensorParallelParams "mlp.up_proj.weight" [4, 3] 1 false) := by
  have hi : GatheredMeta (getExpertShardingStrategy 0) (tensorParallelRaw "mlp.up_proj.weight" [2, 3] 2 true)
      halvedBuilder.inferInstanceWorldSize (tensorParallelParams "mlp.up_proj.weight" [2, 3] 2 true) :=
    ⟨rfl, by decide, by decide, by decide⟩
  have ht : GatheredMeta (getExpertShardingStrategy 0) (tensorParallelRaw "mlp.up_proj.weight" [4, 3] 1 false)
      halvedBuilder.trainWorldSize (tensorParallelParams "mlp.up_proj.weight" [4, 3] 1 false) :=
    ⟨rfl, by decide, by decide, by decide⟩
  have hsame : ∀ s ∈ shardInfos (getExpertShardingStrategy 0)
      (tensorParallelRaw "mlp.up_proj.weight" [2, 3] 2 true),
      s.shape = [2, 3] ∧ (s.shardingType, s.shardingDim, s.numShards) = (.tpSharding, 0, 2) := by
    decide
  have hsame' : ∀ s ∈ shardInfos (getExpertShardingStrategy 0)
      (tensorParallelRaw "mlp.up_proj.weight" [4, 3] 1 false),
      s.shape = [4, 3] ∧ (s.shardingType, s.shardingDim, s.numShards) = (.noSharding, 0, 1) := by
    decide
  obtain ⟨hplanned, hconsistent⟩ := accepted_meta_planned_iff hi ht rfl
  apply hplanned.mpr
  intro im him tm htm hname
  apply hconsistent im him tm htm hname
  · exact consistent_of_same_shape _ [2, 3] (.tpSharding, 0, 2)
      (fun s hs => hsame s (List.mem_of_mem_filter hs)) (by decide)
  · exact consistent_of_same_shape _ [4, 3] (.noSharding, 0, 1)
      (fun s hs => hsame' s (List.mem_of_mem_filter hs)) (by decide)

def scalarRaw (isInfer : Bool) : List RawRankMeta := tensorParallelRaw "model.logit_scale" [] 1 isInfer

def scalarParams (isInfer : Bool) : List ParameterMeta := tensorParallelParams "model.logit_scale" [] 1 isInfer

theorem scalar_accepted_not_planned :
    GatheredMeta (getExpertShardingStrategy 0) (scalarRaw true) singleBuilder.inferInstanceWorldSize
        (scalarParams true) ∧
      GatheredMeta (getExpertShardingStrategy 0) (scalarRaw false) singleBuilder.trainWorldSize
        (scalarParams false) ∧
      checkTrainInferParamsMeta (scalarParams false) (scalarParams true) true
        singleBuilder.strictParamKeyMatch = .ok () ∧
      (∀ g, buildWeightsMappingOperations singleBuilder (scalarParams true) (scalarParams false) g =
        .error .emptyGlobalOffset) ∧
      ¬ Planned singleBuilder (scalarParams true) (scalarParams false) := by
  -- the offset of a tensor without dimensions is the empty tuple, which planning takes for an offset that was
  -- never set
  have herror : ∀ g, buildWeightsMappingOperations singleBuilder (scalarParams true) (scalarParams false) g =
      .error .emptyGlobalOffset := fun _ => rfl
  refine ⟨⟨rfl, by decide, by decide, by decide⟩, ⟨rfl, by decide, by decide, by decide⟩, rfl, herror, ?_⟩
  intro h
  obtain ⟨ops, hops⟩ := h.no_error none
  rw [herror none] at hops
  cases hops

end Awex
