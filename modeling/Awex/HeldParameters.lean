import Awex.Library.Windows
import Awex.PlanAgreement

namespace Awex

/-- Ranks hold a parameter for every shard that the metadata reports, and it is as reported. -/
structure Held (b : TransferPlanBuilder) (infer train : List ParameterMeta)
    (reported : ParameterShardMeta → Parameter → Prop) (parameters : ℕ → Dict String Parameter) : Prop where
  train_shard : ∀ name tm, (metaDict train).get? name = some tm → ∀ r ∈ tm.replicas, ∀ s ∈ r.shards,
    ∃ p, (parameters (s.globalRank + b.inferWorldSize)).get? s.name = some p ∧ reported s p
  infer_shard : ∀ name im, (metaDict infer).get? name = some im → ∀ e < b.numInferEngines,
    ∀ r ∈ im.replicas, ∀ s ∈ r.shards,
      ∃ q, (parameters (s.globalRank + e * b.inferInstanceWorldSize)).get? s.name = some q ∧ reported s q

section Planned

variable {b : TransferPlanBuilder} {infer train : List ParameterMeta} {plan : TransferPlan}
  {e : ℕ × List CommunicationOperation} {op : CommunicationOperation}

variable {reported : ParameterShardMeta → Parameter → Prop} {parameters : ℕ → Dict String Parameter}

theorem Held.send (hheld : Held b infer train reported parameters) (hmeta : CommonMetadata b infer train)
    (hop : op ∈ plannedOperations b infer train none) :
    ∃ p, (parameters op.sendRank).get? op.sendShardMeta.name = some p ∧ reported op.sendShardMeta p := by
  obtain ⟨-, -, -, name, im, tm, i, e, r, t, -, ht, ha⟩ := planned_law hmeta hop
  rw [ha.send_rank]
  exact hheld.train_shard name tm ht t (List.mem_of_getElem? ha.assignment) _ ha.send_shard

theorem Held.recv (hheld : Held b infer train reported parameters) (hmeta : CommonMetadata b infer train)
    (hop : op ∈ plannedOperations b infer train none) :
    ∃ q, (parameters op.recvRank).get? op.recvShardMeta.name = some q ∧ reported op.recvShardMeta q := by
  obtain ⟨-, -, -, name, im, tm, i, e, r, t, hi, -, ha⟩ := planned_law hmeta hop
  obtain ⟨he, hr⟩ := (mem_inferenceReplicas b im e r).mp (List.mem_of_getElem? ha.replica)
  rw [ha.recv_rank]
  exact hheld.infer_shard name im hi e he r hr _ ha.recv_shard

theorem Held.imp {reported' : ParameterShardMeta → Parameter → Prop} (hheld : Held b infer train reported parameters)
    (h : ∀ s p, reported s p → reported' s p) : Held b infer train reported' parameters := by
  constructor
  · intro name tm ht r hr s hs
    obtain ⟨p, hp, hreported⟩ := hheld.train_shard name tm ht r hr s hs
    exact ⟨p, hp, h s p hreported⟩
  · intro name im hi e he r hr s hs
    obtain ⟨q, hq, hreported⟩ := hheld.infer_shard name im hi e he r hr s hs
    exact ⟨q, hq, h s q hreported⟩

end Planned

def HasShape (s : ParameterShardMeta) (p : Parameter) : Prop := Strided.sizes p.dims = s.shape

theorem mem_visited_entries {operations : Dict ℕ (List CommunicationOperation)} {e : ℕ × CommunicationOperation} :
    e ∈ visited operations ↔ ∃ entry ∈ operations.entries, entry.1 = e.1 ∧ e.2 ∈ entry.2 := by
  rw [mem_visited, planned, Dict.mem_getD]

section Slices

variable {b : TransferPlanBuilder} {infer train : List ParameterMeta} {parameters : ℕ → Dict String Parameter}
  (hmeta : CommonMetadata b infer train) (hheld : Held b infer train HasShape parameters)

include hmeta hheld

theorem planned_sendSlice {op : CommunicationOperation} (hop : op ∈ plannedOperations b infer train none) :
    ∃ p v, SendSlice (parameters op.sendRank) op p v := by
  obtain ⟨p, hp, hshape⟩ := hheld.send hmeta hop
  obtain ⟨v, hslice, -⟩ := (planned_law hmeta hop).1.sendSlice hp hshape
  exact ⟨p, v, hslice⟩

theorem planned_recvSlice {op : CommunicationOperation} (hop : op ∈ plannedOperations b infer train none) :
    ∃ q v, RecvSlice (parameters op.recvRank) op q v := by
  obtain ⟨q, hq, hshape⟩ := hheld.recv hmeta hop
  obtain ⟨v, hslice, -⟩ := (planned_law hmeta hop).1.recvSlice hq hshape
  exact ⟨q, v, hslice⟩

theorem sendSlice_of_visited {t : ℕ} (ht : b.inferWorldSize ≤ t) {plan : TransferPlan}
    (hplan : buildLocalTransferPlan b infer train t = .ok plan) {e : ℕ × CommunicationOperation}
    (he : e ∈ visited plan.operations) : ∃ p v, SendSlice (parameters t) e.2 p v := by
  obtain ⟨entry, hentry, -, hop⟩ := mem_visited_entries.mp he
  obtain ⟨hplanned, rfl, -⟩ := mem_trainPlan ht hplan hentry hop
  exact planned_sendSlice hmeta hheld hplanned

theorem recvSlice_of_visited {r : ℕ} (hr : r < b.inferWorldSize) {plan : TransferPlan}
    (hplan : buildLocalTransferPlan b infer train r = .ok plan) {e : ℕ × CommunicationOperation}
    (he : e ∈ visited plan.operations) : ∃ q v, RecvSlice (parameters r) e.2 q v := by
  obtain ⟨entry, hentry, -, hop⟩ := mem_visited_entries.mp he
  obtain ⟨hplanned, -, rfl⟩ := mem_inferPlan hr hplan hentry hop
  exact planned_recvSlice hmeta hheld hplanned

end Slices

theorem fits_of_sliceFits {offset shape sizes : List ℕ} (hlen : offset.length = shape.length)
    (h : List.Forall₂ SliceFits (offsetSlices offset shape) sizes) : Strided.Fits shape sizes := by
  induction shape generalizing offset sizes with
  | nil =>
    obtain rfl := List.length_eq_zero_iff.mp hlen
    cases h
    exact .nil
  | cons n shape ih =>
    obtain ⟨o, offset, rfl⟩ := List.exists_cons_of_length_eq_add_one hlen
    cases h with
    | cons hs hrest =>
      refine .cons ?_ (ih (by simpa using hlen) hrest)
      simp only [SliceFits] at hs
      omega

theorem window_extents (dims : List Dim) (slices : List Slice) :
    List.zipWith (fun d s => (⟨s.stop - s.start, d.stride⟩ : Dim)) dims slices =
      Strided.window dims (extents slices) := by
  rw [Strided.window, extents, List.zipWith_map_right]

theorem dims_of_index {t v : Tensor} {offset shape : List ℕ} (hlen : offset.length = shape.length)
    (h : List.Forall₂ SliceFits (offsetSlices offset shape) t.shape)
    (hv : t.index (offsetSlices offset shape) = .ok v) : v.dims = Strided.window t.dims shape := by
  rw [Tensor.index, sliceDims_eq t.dims _ h] at hv
  obtain rfl := Except.ok.inj hv
  dsimp only
  rw [window_extents, extents_offsetSlices offset shape hlen]

structure ShardTensor (s : ParameterShardMeta) (p : Parameter) : Prop where
  shape_eq : Strided.sizes p.dims = s.shape
  dtype_eq : p.dtype = s.dtype

structure ContiguousShard (s : ParameterShardMeta) (p : Parameter) : Prop where
  shape_eq : Strided.sizes p.dims = s.shape
  dense : Strided.Dense p.dims

namespace SameRegion

variable {op : CommunicationOperation} (h : SameRegion op) {q : Parameter}

include h

theorem recv_fits : Strided.Fits op.overlapShape op.recvShardMeta.shape := by
  have hinside := h.recv_inside
  rw [h.recv_slices] at hinside
  exact fits_of_sliceFits h.recv_dims hinside

theorem recv_contiguous_iff (hshard : ContiguousShard op.recvShardMeta q) {v : Tensor}
    (hv : q.inference.index op.infSlices = .ok v) :
    v.IsContiguous ↔ Strided.Consecutive op.overlapShape op.recvShardMeta.shape := by
  have hinside := h.recv_inside
  rw [h.recv_slices, ← hshard.shape_eq] at hinside
  rw [h.recv_slices] at hv
  have hdims : v.dims = Strided.window q.dims op.overlapShape :=
    dims_of_index (t := q.inference) h.recv_dims hinside hv
  have hfits := h.recv_fits
  rw [← hshard.shape_eq] at hfits
  rw [Tensor.IsContiguous, hdims, Strided.dense_window_iff hshard.dense hfits, hshard.shape_eq]

theorem recv_addresses_nodup (hshard : ContiguousShard op.recvShardMeta q) {v : Tensor}
    (hv : q.inference.index op.infSlices = .ok v) : v.addresses.Nodup := by
  have hinside := h.recv_inside
  rw [h.recv_slices, ← hshard.shape_eq] at hinside
  obtain ⟨v', hv', hpart⟩ := index_offsetSlices q.inference _ _ h.recv_dims hinside
  rw [h.recv_slices] at hv
  obtain rfl := Except.ok.inj (hv'.symm.trans hv)
  rw [Tensor.addresses, hpart.shape_eq]
  apply (Box.nodup_indices op.overlapShape).map_on
  intro y hy y' hy' heq
  rw [Box.mem_indices] at hy hy'
  rw [hpart.locate_eq y hy, hpart.locate_eq y' hy'] at heq
  have hwithin : ∀ y ∈ Box.origin op.overlapShape, List.zipWith (· + ·) op.recvOffset y ∈ Box.origin q.inference.shape := by
    intro y hy
    have hcov := (h.covers_iff _).mpr ⟨y, hy, rfl⟩
    change _ ∈ Box.origin (Strided.sizes q.dims)
    rw [hshard.shape_eq]
    exact inSlices_inside h.recv_inside hcov
  have hindex := locate_inj_of_contiguous (t := q.inference) hshard.dense (hwithin y hy) (hwithin y' hy') heq
  apply zipWith_add_left_cancel op.recvOffset y y' _ _ hindex
  · exact (Box.within_length hy).2.symm.trans h.recv_dims.symm
  · exact (Box.within_length hy').2.symm.trans h.recv_dims.symm

end SameRegion

end Awex
