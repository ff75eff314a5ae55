import Awex.PlanCoverage
import Awex.SliceElements

namespace Awex

theorem inSlices_inside {slices : List Slice} {shape x : List ℕ} (h : List.Forall₂ SliceFits slices shape)
    (hx : InSlices slices x) : x ∈ Box.origin shape := by
  simp only [Box.mem_def, Box.origin]
  induction h generalizing x with
  | nil =>
    cases x with
    | nil => trivial
    | cons i x => exact hx.elim
  | cons hs _ ih =>
    cases x with
    | nil => exact hx.elim
    | cons i x => exact ⟨⟨Nat.zero_le _, by have := hs.2; have := hx.1; omega⟩, ih hx.2⟩

theorem eq_of_countP_eq_one {β : Type} {xs : List β} {p : β → Prop} [DecidablePred p]
    (h : xs.countP (p ·) = 1) {x y : β} (hx : x ∈ xs) (hpx : p x) (hy : y ∈ xs) (hpy : p y) : x = y := by
  rw [List.countP_eq_length_filter] at h
  obtain ⟨z, hz⟩ := List.length_eq_one_iff.mp h
  have hmem : ∀ w ∈ xs, p w → w = z := by
    intro w hw hpw
    rw [← List.mem_singleton, ← hz, List.mem_filter]
    exact ⟨hw, by simpa using hpw⟩
  rw [hmem x hx hpx, hmem y hy hpy]

variable {b : TransferPlanBuilder} {infer train : List ParameterMeta}

theorem covered_count (h : CommonMetadata b infer train) {op : CommunicationOperation}
    (hop : op ∈ plannedOperations b infer train none) {x : List ℕ} (hx : op.Covers x) :
    (plannedOperations b infer train none).countP (fun op' =>
      op'.sendShardMeta.name = op.sendShardMeta.name ∧ op'.recvRank = op.recvRank ∧ op'.Covers x) = 1 := by
  obtain ⟨hsame, -, -, name, im, tm, i, e, r, t, hi, ht, ha⟩ := planned_law h hop
  obtain ⟨he, hr⟩ := (mem_inferenceReplicas b im e r).mp (List.mem_of_getElem? ha.replica)
  have hname := (h.layout name im tm hi ht).train_names t (List.mem_of_getElem? ha.assignment) _
    ha.send_shard
  rw [hname, ha.recv_rank]
  exact planned_coverage h hi ht (List.ne_nil_of_mem (List.mem_of_getElem? ha.assignment)) e he r hr _
    ha.recv_shard x (inSlices_inside hsame.recv_inside hx)

theorem planned_unique (h : CommonMetadata b infer train) {op op' : CommunicationOperation}
    (hop : op ∈ plannedOperations b infer train none) (hop' : op' ∈ plannedOperations b infer train none)
    (hname : op'.sendShardMeta.name = op.sendShardMeta.name) (hrank : op'.recvRank = op.recvRank)
    {x : List ℕ} (hx : op.Covers x) (hx' : op'.Covers x) : op = op' :=
  eq_of_countP_eq_one (covered_count h hop hx) hop ⟨rfl, rfl, hx⟩ hop' ⟨hname, hrank, hx'⟩

theorem planned_nodup (h : CommonMetadata b infer train) : (plannedOperations b infer train none).Nodup := by
  rw [List.nodup_iff_count_le_one]
  intro op
  by_cases hop : op ∈ plannedOperations b infer train none
  · obtain ⟨x, hx⟩ := (planned_law h hop).1.covers_nonempty
    rw [← covered_count h hop hx, List.count]
    apply List.countP_mono_left
    intro op' _ heq
    obtain rfl := eq_of_beq heq
    simpa using hx
  · rw [List.count_eq_zero_of_not_mem hop]
    exact Nat.zero_le 1

/-- Element `x'` of the training shard is at the same place of the parameter as element `x` of the
inference shard, in the training replica that the inference replica is assigned to. -/
structure SourceElement (b : TransferPlanBuilder) (im tm : ParameterMeta) (e : ℕ)
    (s : ParameterShardMeta) (x : List ℕ) (s' : ParameterShardMeta) (x' : List ℕ) : Prop where
  assigned : ∃ i r t, (inferenceReplicas b im)[i]? = some (e, r) ∧
    tm.replicas[i % tm.replicas.length]? = some t ∧ s ∈ r.shards ∧ s' ∈ t.shards
  inside : x' ∈ Box.origin s'.shape
  same_index : List.zipWith (· + ·) s'.globalOffset x' = List.zipWith (· + ·) s.globalOffset x

theorem source_exists {name : String} {im tm : ParameterMeta} (h : Layout b name im tm)
    (htne : tm.replicas ≠ []) {e : ℕ} (he : e < b.numInferEngines) {r : ParameterReplicaMeta}
    (hr : r ∈ im.replicas) {s : ParameterShardMeta} (hs : s ∈ r.shards) {x : List ℕ}
    (hx : x ∈ Box.origin s.shape) : ∃ s' x', SourceElement b im tm e s x s' x' := by
  obtain ⟨i, hi⟩ := List.mem_iff_getElem?.mp ((mem_inferenceReplicas b im e r).mpr ⟨he, hr⟩)
  have hlt := Nat.mod_lt i (List.length_pos_iff.mpr htne)
  have ht := List.getElem?_eq_getElem hlt
  have hglobal : List.zipWith (· + ·) s.globalOffset x ∈ Box.origin tm.globalShape := by
    apply h.infer_inside r hr s hs
    exact (Box.add_mem s.box x (h.infer_valid hr hs).dims (Box.within_length hx).2.symm).mpr hx
  obtain ⟨box, hbox, hmem⟩ := (h.train_tiles _ (List.getElem_mem hlt)).covers _ hglobal
  obtain ⟨s', hs', rfl⟩ := List.mem_map.mp hbox
  obtain ⟨hinside, hadd⟩ := Box.sub_mem s'.box _ hmem
  exact ⟨s', _, ⟨i, r, _, hi, ht, hs, hs'⟩, hinside, hadd⟩

theorem zipWith_add_left_cancel (d x y : List ℕ) (hx : x.length = d.length) (hy : y.length = d.length)
    (h : List.zipWith (· + ·) d x = List.zipWith (· + ·) d y) : x = y := by
  induction d generalizing x y with
  | nil => rw [List.length_eq_zero_iff.mp hx, List.length_eq_zero_iff.mp hy]
  | cons d ds ih =>
    obtain ⟨i, x, rfl⟩ := List.exists_cons_of_length_eq_add_one hx
    obtain ⟨j, y, rfl⟩ := List.exists_cons_of_length_eq_add_one hy
    simp only [List.zipWith_cons_cons, List.cons.injEq, Nat.add_left_cancel_iff] at h
    rw [h.1, ih x y (by simpa using hx) (by simpa using hy) h.2]

theorem source_planned (h : CommonMetadata b infer train) {name : String} {im tm : ParameterMeta}
    (hi : (metaDict infer).get? name = some im) (ht : (metaDict train).get? name = some tm) {e : ℕ}
    {s s' : ParameterShardMeta} {x x' : List ℕ} (hx : x ∈ Box.origin s.shape)
    (hsource : SourceElement b im tm e s x s' x') :
    ∃ op ∈ plannedOperations b infer train none, op.recvShardMeta = s ∧ op.sendShardMeta = s' ∧
      op.recvRank = s.globalRank + e * b.inferInstanceWorldSize ∧
      op.sendRank = s'.globalRank + b.inferWorldSize ∧
      ∃ y ∈ Box.origin op.overlapShape, x = List.zipWith (· + ·) op.recvOffset y ∧
        x' = List.zipWith (· + ·) op.sendOffset y := by
  obtain ⟨⟨i, r, t, hir, hit, hs, hs'⟩, hinside, hindex⟩ := hsource
  have hlaw := h.layout name im tm hi ht
  have hassigned := replicaAssignments_of_getElem? hir hit
  obtain ⟨-, hr⟩ := (mem_inferenceReplicas b im e r).mp (List.mem_of_getElem? hir)
  have htm := List.mem_of_getElem? hit
  have hvs := hlaw.infer_valid hr hs
  have hvs' := hlaw.train_valid htm hs'
  have hdims : s.globalOffset.length = s'.globalOffset.length :=
    (hlaw.infer_dims r hr s hs).1.trans (hlaw.train_dims t htm s' hs').1.symm
  have hbox : List.zipWith (· + ·) s.globalOffset x ∈ s'.box := by
    rw [← hindex]
    exact (Box.add_mem s'.box x' hvs'.dims (Box.within_length hinside).2.symm).mpr hinside
  obtain ⟨item, hitem, hcov⟩ := (covers_iff_mem (s, s.globalRank + e * b.inferInstanceWorldSize)
    (s', s'.globalRank + b.inferWorldSize) hvs hvs' hdims x hx).mpr hbox
  obtain ⟨hrecv, hrshard⟩ := itemOperation_recv hitem
  obtain ⟨hsend, hsshard⟩ := itemOperation_send hitem
  dsimp only at hrecv hrshard hsend hsshard
  have hsame := itemOperation_sameRegion _ _ hvs hvs' hdims item hitem
  obtain ⟨y, hy, rfl⟩ := (hsame.covers_iff x).mp hcov
  refine ⟨itemOperation item, ?_, hrshard, hsshard, hrecv, hsend, y, hy, rfl, ?_⟩
  · refine mem_plannedOperations.mpr ⟨name, im, tm, hi, ht, ?_⟩
    rw [parameterOperations_none, List.mem_flatMap]
    exact ⟨(((e, r), t), s, _), mem_placements.mpr ⟨hassigned, hs, rfl⟩,
      mem_placementOperations.mpr ⟨s', hs', item, hitem, rfl⟩⟩
  · have hglobal := hsame.global_eq y
    rw [hsshard, hrshard, ← hindex] at hglobal
    have hlen : ((itemOperation item).sendOffset).length = y.length :=
      hsame.send_dims.trans (Box.within_length hy).2
    have hshape : (itemOperation item).sendOffset.length = s'.shape.length := by
      rw [← hsshard, ← hsame.send_inside.length_eq, hsame.send_slices, offsetSlices, List.length_zipWith,
        hsame.send_dims, Nat.min_self]
    refine (zipWith_add_left_cancel s'.globalOffset _ _ ?_ ?_ hglobal).symm
    · rw [List.length_zipWith, ← hlen, Nat.min_self, hshape, hvs'.dims]
    · exact (Box.within_length hinside).2.symm.trans hvs'.dims.symm

end Awex
