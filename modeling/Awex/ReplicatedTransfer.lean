import Awex.LinearMlaSharding
import Awex.UpdateRun

namespace Awex

open Text McoreConverter

variable {α : Type}

def ReportsShape (raw : List RawRankMeta) (name : String) (shape : List ℕ) : Prop :=
  ∀ rankMeta ∈ raw, ∀ paramMeta ∈ rankMeta.paramsMeta, paramMeta.name = name → paramMeta.shape = shape

def LinearMlaMeta (name : String) (shape : List ℕ) (params : List ParameterMeta) : Prop :=
  ∃ rankInfo superStrategy raw,
    buildParamsMeta (LinearMLASharding.getShardingStrategy rankInfo superStrategy) raw = .ok params ∧
      ReportsShape raw name shape

theorem LinearMlaMeta.whole {name : String} {shape : List ℕ} {params : List ParameterMeta}
    (h : LinearMlaMeta name shape params) (hkey : ∃ key ∈ LinearMLASharding.replicatedParams, Occurs key name.toList)
    {m : ParameterMeta} (hm : (metaDict params).get? name = some m) :
    (∃ replica ∈ m.replicas, ∃ s, replica.shards = [s]) ∧ ∀ replica ∈ m.replicas, ∀ s ∈ replica.shards,
      s.name = name ∧ s.shape = shape ∧ ∃ numDims, s.globalOffset = List.replicate numDims 0 := by
  obtain ⟨rankInfo, superStrategy, raw, hbuild, hreports⟩ := h
  obtain ⟨hmem, rfl⟩ := mem_metaDict hm
  obtain ⟨hne, hshards⟩ := unsharded_replicas hbuild hmem (fun rank paramMeta _ => by
    rw [LinearMLASharding.getShardingStrategy, if_pos hkey])
  constructor
  · obtain ⟨replica, hreplica⟩ := List.exists_mem_of_ne_nil _ hne
    obtain ⟨s, hs⟩ := hshards replica hreplica
    exact ⟨replica, hreplica, s, hs.shards⟩
  · intro replica hreplica s hs
    obtain ⟨s', hone⟩ := hshards replica hreplica
    rw [hone.shards, List.mem_singleton] at hs
    subst hs
    obtain ⟨rankMeta, hrank, paramMeta, hparam, hname, hsname, hshape⟩ := hone.reported
    exact ⟨hsname, hshape.trans (hreports rankMeta hrank paramMeta hparam hname), hone.offset⟩

theorem zipWith_zero_add {n : ℕ} {x : List ℕ} (h : n = x.length) :
    List.zipWith (· + ·) (List.replicate n 0) x = x := by
  subst h
  induction x with
  | nil => rfl
  | cons i x ih => simpa [List.replicate_succ] using ih

section Setting

variable (b : TransferPlanBuilder) (infer train : List ParameterMeta) (plan : ℕ → TransferPlan)
  (parameters : ℕ → Dict String Parameter) (name : String) (shape : List ℕ)

structure ReplicatedParam : Prop where
  common : CommonMetadata b infer train
  plans : ∀ g < b.worldSize, buildLocalTransferPlan b infer train g = .ok (plan g)
  deployed : Deployment b infer train parameters
  infer_meta : LinearMlaMeta name shape infer
  train_meta : LinearMlaMeta name shape train
  engines : 0 < b.numInferEngines
  known : ∃ im tm, (metaDict infer).get? name = some im ∧ (metaDict train).get? name = some tm
  contiguous : ∀ t p, b.inferWorldSize ≤ t → (parameters t).get? name = some p → p.training.IsContiguous

/-- The parameter of inference rank `r`, which the metadata reports. -/
def InferenceTensor (r : ℕ) (q : Parameter) : Prop :=
  ∃ im, (metaDict infer).get? name = some im ∧ ∃ e < b.numInferEngines, ∃ replica ∈ im.replicas,
    ∃ s ∈ replica.shards, r = s.globalRank + e * b.inferInstanceWorldSize ∧ (parameters r).get? name = some q

def TrainingHolds (memory : ℕ → Memory α) (values : List α) : Prop :=
  ∀ t p, b.inferWorldSize ≤ t → (parameters t).get? name = some p → p.training.shape = shape →
    (memory t).read p.training = values

end Setting

section Transfer

variable {b : TransferPlanBuilder} {infer train : List ParameterMeta} {plan : ℕ → TransferPlan}
  {parameters : ℕ → Dict String Parameter} {name : String} {shape : List ℕ}
  (h : ReplicatedParam b infer train plan parameters name shape)
  (hkey : ∃ key ∈ LinearMLASharding.replicatedParams, Occurs key name.toList)
include h

theorem InferenceTensor.lt {r : ℕ} {q : Parameter} (hq : InferenceTensor b infer parameters name r q) :
    r < b.inferWorldSize := by
  obtain ⟨im, hi, e, he, replica, hreplica, s, hs, rfl, -⟩ := hq
  obtain ⟨_, tm, _, ht⟩ := h.known
  have hbound := (h.common.layout name im tm hi ht).infer_bound replica hreplica s hs
  calc s.globalRank + e * b.inferInstanceWorldSize < (e + 1) * b.inferInstanceWorldSize := by
        rw [Nat.succ_mul]
        omega
    _ ≤ b.numInferEngines * b.inferInstanceWorldSize := Nat.mul_le_mul_right _ he
    _ ≤ b.inferWorldSize := Nat.mul_div_le ..

include hkey

theorem ReplicatedParam.inferenceTensor_exists : ∃ r q, InferenceTensor b infer parameters name r q := by
  obtain ⟨im, tm, hi, ht⟩ := h.known
  obtain ⟨replica, hreplica, s, hs⟩ := (h.infer_meta.whole hkey hi).1
  have hmem : s ∈ replica.shards := by
    rw [hs]
    exact List.mem_singleton_self s
  obtain ⟨q, hq, -⟩ := h.deployed.infer_shard name im hi 0 h.engines replica hreplica s hmem
  rw [h.deployed.infer_name name im hi replica hreplica s hmem] at hq
  exact ⟨_, q, im, hi, 0, h.engines, replica, hreplica, s, hmem, rfl, hq⟩

theorem ReplicatedParam.trainingTensor_exists : ∃ t p, b.inferWorldSize ≤ t ∧
    (parameters t).get? name = some p ∧ p.training.shape = shape := by
  obtain ⟨im, tm, hi, ht⟩ := h.known
  obtain ⟨⟨replica, hreplica, s, hs⟩, hwhole⟩ := h.train_meta.whole hkey ht
  have hmem : s ∈ replica.shards := by
    rw [hs]
    exact List.mem_singleton_self s
  obtain ⟨p, hp, hshape⟩ := h.deployed.train_shard name tm ht replica hreplica s hmem
  obtain ⟨hname, hs', -⟩ := hwhole replica hreplica s hmem
  rw [hname] at hp
  exact ⟨_, p, Nat.le_add_left _ _, hp, hshape.trans hs'⟩

theorem ReplicatedParam.element {memory : ℕ → Memory α} {r : ℕ} {q : Parameter}
    (hq : InferenceTensor b infer parameters name r q) {final : Memory α}
    (hupdated : Updated b infer train parameters memory r final) :
    q.inference.shape = shape ∧ ∀ x ∈ Box.origin shape, ∃ t p, b.inferWorldSize ≤ t ∧
      (parameters t).get? name = some p ∧ p.training.shape = shape ∧
      final.cells (q.inference.locate x) = (memory t).cells (p.training.locate x) := by
  obtain ⟨im, hi, e, he, replica, hreplica, s, hs, hrank, hget⟩ := hq
  obtain ⟨_, tm, _, ht⟩ := h.known
  have hlayout := h.common.layout name im tm hi ht
  obtain ⟨hsname, hsshape, n, hoffset⟩ := (h.infer_meta.whole hkey hi).2 replica hreplica s hs
  obtain ⟨q', hq', hshape⟩ := h.deployed.infer_shard name im hi e he replica hreplica s hs
  rw [hsname, ← hrank] at hq'
  obtain rfl := Option.some.inj (hget.symm.trans hq')
  refine ⟨hshape.trans hsshape, fun x hx => ?_⟩
  have hx' : x ∈ Box.origin s.shape := hsshape ▸ hx
  obtain ⟨⟨s', x', hsource⟩, hall⟩ := hupdated.elements name im tm hi ht e he replica hreplica s hs hrank x hx'
  obtain ⟨p, q', hp, hq', hcell⟩ := hall s' x' hsource
  obtain rfl := Option.some.inj (hget.symm.trans hq')
  obtain ⟨⟨i, r', replica', -, hreplica', -, hs'⟩, hinside, hindex⟩ := hsource
  have hreplica' := List.mem_of_getElem? hreplica'
  obtain ⟨hsname', hsshape', n', hoffset'⟩ := (h.train_meta.whole hkey ht).2 replica' hreplica' s' hs'
  obtain ⟨p', hp', hpshape⟩ := h.deployed.train_shard name tm ht replica' hreplica' s' hs'
  rw [hsname'] at hp'
  obtain rfl := Option.some.inj (hp.symm.trans hp')
  have hsame : x' = x := by
    obtain ⟨hdims, hrank⟩ := hlayout.infer_dims replica hreplica s hs
    obtain ⟨hdims', hrank'⟩ := hlayout.train_dims replica' hreplica' s' hs'
    rw [hoffset, List.length_replicate] at hdims
    rw [hoffset', List.length_replicate] at hdims'
    have hlength : s.shape.length = x.length := (Box.within_length hx').2
    have hlength' : s'.shape.length = x'.length := (Box.within_length hinside).2
    have hn : n = x.length := hdims.trans (hrank.symm.trans hlength)
    have hn' : n' = x'.length := hdims'.trans (hrank'.symm.trans hlength')
    rw [hoffset, hoffset', zipWith_zero_add hn, zipWith_zero_add hn'] at hindex
    exact hindex
  rw [hsame] at hcell
  exact ⟨_, p, Nat.le_add_left _ _, hp, hpshape.trans hsshape', hcell⟩

theorem ReplicatedParam.transferred {memory : ℕ → Memory α} {values : List α}
    (hvalues : TrainingHolds b parameters name shape memory values) {r : ℕ} {q : Parameter}
    (hq : InferenceTensor b infer parameters name r q) {final : Memory α}
    (hupdated : Updated b infer train parameters memory r final) : final.read q.inference = values := by
  obtain ⟨hshape, helement⟩ := h.element hkey hq hupdated
  obtain ⟨t₀, p₀, ht₀, hp₀, hshape₀⟩ := h.trainingTensor_exists hkey
  have hread := hvalues t₀ p₀ ht₀ hp₀ hshape₀
  rw [← hread]
  unfold Memory.read Tensor.addresses
  rw [hshape, hshape₀, List.map_map, List.map_map, List.map_inj_left]
  intro x hx
  obtain ⟨t, p, ht, hp, hpshape, hcell⟩ := helement x ((Box.mem_indices shape x).mp hx)
  have hsame := hread.trans (hvalues t p ht hp hpshape).symm
  unfold Memory.read Tensor.addresses at hsame
  rw [hshape₀, hpshape, List.map_map, List.map_map, List.map_inj_left] at hsame
  exact hcell.trans (hsame x hx).symm

end Transfer

end Awex
