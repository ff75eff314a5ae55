import Awex.Geometry
import Awex.SliceSpec

namespace Awex

def starts (slices : List Slice) : List ℕ := slices.map (·.start)

def extents (slices : List Slice) : List ℕ := slices.map (fun s => s.stop - s.start)

theorem starts_offsetSlices (offset shape : List ℕ) (h : offset.length = shape.length) :
    starts (offsetSlices offset shape) = offset := by
  induction offset generalizing shape with
  | nil => rfl
  | cons o os ih =>
    obtain ⟨n, ns, rfl⟩ := List.exists_cons_of_length_eq_add_one h.symm
    exact congrArg (o :: ·) (ih ns (by simpa using h))

theorem extents_offsetSlices (offset shape : List ℕ) (h : offset.length = shape.length) :
    extents (offsetSlices offset shape) = shape := by
  induction offset generalizing shape with
  | nil => exact (List.length_eq_zero_iff.mp h.symm).symm
  | cons o os ih =>
    obtain ⟨n, ns, rfl⟩ := List.exists_cons_of_length_eq_add_one h.symm
    have hhead : o + n - o = n := by omega
    have ih' := ih ns (by simpa using h)
    simp only [extents, offsetSlices] at ih'
    simp only [extents, offsetSlices, List.zipWith_cons_cons, List.map_cons, hhead, ih']

theorem sliceDims_eq (dims : List Dim) (slices : List Slice)
    (h : List.Forall₂ SliceFits slices (Strided.sizes dims)) :
    Tensor.sliceDims dims slices = .ok (Strided.distance dims (starts slices),
      List.zipWith (fun d s => ⟨s.stop - s.start, d.stride⟩) dims slices) := by
  induction dims generalizing slices with
  | nil =>
    cases h
    rfl
  | cons d dims ih =>
    rw [Strided.sizes, List.map_cons] at h
    cases h with
    | @cons s _ slices _ hs hslices =>
      have hstart : min s.start d.size = s.start := Nat.min_eq_left (hs.1.le.trans hs.2)
      have hstop : max s.start (min s.stop d.size) = s.stop := by
        rw [Nat.min_eq_left hs.2, Nat.max_eq_right hs.1.le]
      simp only [Tensor.sliceDims, ih slices hslices, bind, Except.bind, hstart, hstop]
      rfl

theorem distance_slice (dims : List Dim) (slices : List Slice) (y : List ℕ)
    (hd : slices.length = dims.length) (hy : y.length = slices.length) :
    Strided.distance dims (starts slices) +
        Strided.distance (List.zipWith (fun d s => ⟨s.stop - s.start, d.stride⟩) dims slices) y =
      Strided.distance dims (List.zipWith (· + ·) (starts slices) y) := by
  induction dims generalizing slices y with
  | nil =>
    obtain rfl := List.length_eq_zero_iff.mp hd
    rfl
  | cons d dims ih =>
    obtain ⟨s, slices, rfl⟩ := List.exists_cons_of_length_eq_add_one hd
    obtain ⟨i, y, rfl⟩ := List.exists_cons_of_length_eq_add_one hy
    have ih' := ih slices y (by simpa using hd) (by simpa using hy)
    simp only [starts] at ih'
    simp only [starts, List.map_cons, List.zipWith_cons_cons, Strided.distance, ← ih', Nat.add_mul]
    omega

/-- `v` is the part of `t` of the given shape that starts at `offset`. -/
structure PartOf (t v : Tensor) (offset shape : List ℕ) : Prop where
  dtype_eq : v.dtype = t.dtype
  shape_eq : v.shape = shape
  locate_eq : ∀ y ∈ Box.origin shape, v.locate y = t.locate (List.zipWith (· + ·) offset y)

theorem sizes_slice (dims : List Dim) (slices : List Slice) (h : slices.length = dims.length) :
    Strided.sizes (List.zipWith (fun d s => ⟨s.stop - s.start, d.stride⟩) dims slices) =
      extents slices := by
  induction dims generalizing slices with
  | nil =>
    obtain rfl := List.length_eq_zero_iff.mp h
    rfl
  | cons d dims ih =>
    obtain ⟨s, slices, rfl⟩ := List.exists_cons_of_length_eq_add_one h
    exact congrArg (_ :: ·) (ih slices (by simpa using h))

theorem index_offsetSlices (t : Tensor) (offset shape : List ℕ) (hlen : offset.length = shape.length)
    (h : List.Forall₂ SliceFits (offsetSlices offset shape) t.shape) :
    ∃ v, t.index (offsetSlices offset shape) = .ok v ∧ PartOf t v offset shape := by
  have hdims : (offsetSlices offset shape).length = t.dims.length := by
    rw [h.length_eq, Tensor.shape, Strided.sizes, List.length_map]
  refine ⟨⟨t.buffer, t.offset + Strided.distance t.dims (starts (offsetSlices offset shape)),
    List.zipWith (fun d s => ⟨s.stop - s.start, d.stride⟩) t.dims (offsetSlices offset shape),
    t.dtype⟩, ?_, rfl, ?_, fun y hy => ?_⟩
  · rw [Tensor.index, sliceDims_eq t.dims _ h]
    rfl
  · rw [Tensor.shape, sizes_slice t.dims _ hdims, extents_offsetSlices offset shape hlen]
  · have hy' : y.length = (offsetSlices offset shape).length := by
      rw [← (Box.within_length hy).2, offsetSlices, List.length_zipWith, hlen, Nat.min_self]
      rfl
    have hdist := distance_slice t.dims (offsetSlices offset shape) y hdims hy'
    rw [starts_offsetSlices offset shape hlen] at hdist
    refine Prod.ext rfl ?_
    change t.offset + _ + _ = t.offset + _
    rw [starts_offsetSlices offset shape hlen, Nat.add_assoc, hdist]

theorem zipWith_add_assoc (xs ys zs : List ℕ) :
    List.zipWith (· + ·) (List.zipWith (· + ·) xs ys) zs =
      List.zipWith (· + ·) xs (List.zipWith (· + ·) ys zs) := by
  induction xs generalizing ys zs with
  | nil => rfl
  | cons x xs ih =>
    cases ys with
    | nil => rfl
    | cons y ys =>
      cases zs with
      | nil => rfl
      | cons z zs => simp [ih, Nat.add_assoc]

theorem SameRegion.covers_iff {op : CommunicationOperation} (h : SameRegion op) (x : List ℕ) :
    op.Covers x ↔ ∃ y ∈ Box.origin op.overlapShape, x = List.zipWith (· + ·) op.recvOffset y := by
  rw [CommunicationOperation.Covers, h.recv_slices, inSlices_offsetSlices _ _ _ h.recv_dims]
  constructor
  · intro hx
    obtain ⟨hy, heq⟩ := Box.sub_mem ⟨op.recvOffset, op.overlapShape⟩ x hx
    exact ⟨_, hy, heq.symm⟩
  · rintro ⟨y, hy, rfl⟩
    exact (Box.add_mem ⟨op.recvOffset, op.overlapShape⟩ y h.recv_dims (Box.within_length hy).2.symm).mpr hy

theorem SameRegion.covers_nonempty {op : CommunicationOperation} (h : SameRegion op) :
    ∃ x, op.Covers x := by
  have hfits := h.recv_inside
  unfold CommunicationOperation.Covers
  generalize op.infSlices = slices, op.recvShardMeta.shape = shape at hfits
  induction hfits with
  | nil => exact ⟨[], trivial⟩
  | @cons s n _ _ hs _ ih =>
    obtain ⟨x, hx⟩ := ih
    exact ⟨s.start :: x, ⟨⟨le_rfl, hs.1⟩, hx⟩⟩

theorem SameRegion.global_eq {op : CommunicationOperation} (h : SameRegion op) (y : List ℕ) :
    List.zipWith (· + ·) op.sendShardMeta.globalOffset (List.zipWith (· + ·) op.sendOffset y) =
      List.zipWith (· + ·) op.recvShardMeta.globalOffset (List.zipWith (· + ·) op.recvOffset y) := by
  rw [← zipWith_add_assoc, h.same_start, zipWith_add_assoc]

theorem SameRegion.sendSlice {op : CommunicationOperation} (h : SameRegion op)
    {parameters : Dict String Parameter} {p : Parameter}
    (hp : parameters.get? op.sendShardMeta.name = some p)
    (hshape : p.training.shape = op.sendShardMeta.shape) :
    ∃ v, SendSlice parameters op p v ∧ PartOf p.training v op.sendOffset op.overlapShape := by
  have hfits := h.send_inside
  rw [h.send_slices, ← hshape] at hfits
  obtain ⟨v, hv, hpart⟩ := index_offsetSlices p.training _ _ h.send_dims hfits
  exact ⟨v, ⟨hp, h.send_slices ▸ hv⟩, hpart⟩

theorem SameRegion.recvSlice {op : CommunicationOperation} (h : SameRegion op)
    {parameters : Dict String Parameter} {p : Parameter}
    (hp : parameters.get? op.recvShardMeta.name = some p)
    (hshape : p.inference.shape = op.recvShardMeta.shape) :
    ∃ v, RecvSlice parameters op p v ∧ PartOf p.inference v op.recvOffset op.overlapShape := by
  have hfits := h.recv_inside
  rw [h.recv_slices, ← hshape] at hfits
  obtain ⟨v, hv, hpart⟩ := index_offsetSlices p.inference _ _ h.recv_dims hfits
  exact ⟨v, ⟨hp, h.recv_slices ▸ hv⟩, hpart⟩

end Awex
