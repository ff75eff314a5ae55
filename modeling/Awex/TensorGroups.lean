import Awex.Library.Dict
import Awex.Library.Strided
import Mathlib.Algebra.GroupWithZero.Nat

namespace Awex

inductive MemoryFormat where
  | contiguous
  | channelsLast
  | channelsLast3d
  deriving DecidableEq, Repr

/-- The strides of a new tensor. -/
def MemoryFormat.dims : MemoryFormat → List ℕ → List Dim
  | .channelsLast, [n, c, h, w] => [⟨n, h * (w * c)⟩, ⟨c, 1⟩, ⟨h, w * c⟩, ⟨w, c⟩]
  | .channelsLast3d, [n, c, d, h, w] =>
    [⟨n, d * (h * (w * c))⟩, ⟨c, 1⟩, ⟨d, h * (w * c)⟩, ⟨h, w * c⟩, ⟨w, c⟩]
  | _, shape => Strided.rowMajor shape

theorem MemoryFormat.sizes_dims (format : MemoryFormat) (shape : List ℕ) :
    Strided.sizes (format.dims shape) = shape := by
  unfold dims
  split
  · rfl
  · rfl
  · exact Strided.sizes_rowMajor shape

/-- The loop of `is_channels_last_strides`, over the channels first and the batches last. -/
def channelsFirst (channelStride : ℕ) : ℕ → List Dim → Bool
  | _, [] => true
  | least, [d] => d.size ≠ 0 && least ≤ d.stride && least ≠ channelStride
  | least, d :: dims => d.size ≠ 0 && least ≤ d.stride &&
    channelsFirst channelStride (if 1 < d.size then d.stride * d.size else d.stride) dims

def suggestMemoryFormat : List Dim → MemoryFormat
  | [n, c, h, w] => if c.stride ≠ 0 ∧ channelsFirst c.stride 0 [c, w, h, n] then .channelsLast else .contiguous
  | [n, c, d, h, w] =>
    if c.stride ≠ 0 ∧ channelsFirst c.stride 0 [c, w, h, d, n] then .channelsLast3d else .contiguous
  | _ => .contiguous

/-- The step of `view(-1)`, for the dimensions with more than one element. -/
def viewStride : List Dim → Option ℕ
  | [] => some 1
  | [d] => some d.stride
  | d :: d' :: dims => if d.stride = d'.size * d'.stride then viewStride (d' :: dims) else none

/-- The values stand in the order of their indices, wherever the strides put them in memory. -/
@[ext] structure DenseTensor (δ α : Type) where
  dims : List Dim
  dtype : δ
  values : List α
  length_values : values.length = (Strided.sizes dims).prod

inductive GroupError where
  | emptyCat
  | zeroDimensional
  | catMismatch
  | incompatibleStrides
  | invalidView
  | groupNotFound (groupIdx : ℕ)
  deriving DecidableEq, Repr

structure GroupItem (δ : Type) where
  originalIndex : ℕ
  shape : List ℕ
  dtype : δ
  groupIndex : ℕ
  offset : ℕ
  size : ℕ
  deriving DecidableEq, Repr

variable {δ α : Type}

namespace DenseTensor

def shape (t : DenseTensor δ α) : List ℕ := Strided.sizes t.dims

def numel (t : DenseTensor δ α) : ℕ := t.values.length

theorem numel_eq (t : DenseTensor δ α) : t.numel = t.shape.prod := t.length_values

def contiguous (t : DenseTensor δ α) : DenseTensor δ α :=
  ⟨Strided.rowMajor t.shape, t.dtype, t.values, by rw [Strided.sizes_rowMajor]; exact t.length_values⟩

theorem length_cat {tensors : List (DenseTensor δ α)} {inner : List ℕ}
    (h : ∀ t ∈ tensors, t.shape = t.shape.headD 0 :: inner) :
    (tensors.flatMap values).length = ((tensors.map (fun t => t.shape.headD 0)).sum :: inner).prod := by
  induction tensors with
  | nil => simp
  | cons t tensors ih =>
    obtain ⟨ht, htensors⟩ := List.forall_mem_cons.mp h
    have hprod : (Strided.sizes t.dims).prod = t.shape.headD 0 * inner.prod := by
      change t.shape.prod = _
      rw [ht, List.prod_cons, List.headD_cons]
    rw [List.flatMap_cons, List.length_append, ih htensors, t.length_values, hprod, List.prod_cons, List.prod_cons,
      List.map_cons, List.sum_cons, Nat.add_mul]

/-- The memory format that all tensors have, or else the default one. -/
def catMemoryFormat (tensors : List (DenseTensor δ α)) : MemoryFormat :=
  match tensors with
  | [] => .contiguous
  | first :: rest =>
    if ∀ t ∈ rest, suggestMemoryFormat t.dims = suggestMemoryFormat first.dims then suggestMemoryFormat first.dims
    else .contiguous

/-- `torch.cat(tensors, dim=0)`, for tensors of one element type. `clone()` keeps its strides. -/
def cat [DecidableEq δ] (tensors : List (DenseTensor δ α)) : Except GroupError (DenseTensor δ α) :=
  match tensors with
  | [] => .error .emptyCat
  | first :: rest => match first.shape with
    | [] => .error .zeroDimensional
    | _ :: inner =>
      if h : ∀ t ∈ first :: rest, t.shape = t.shape.headD 0 :: inner ∧ t.dtype = first.dtype then
        .ok ⟨(catMemoryFormat (first :: rest)).dims (((first :: rest).map (fun t => t.shape.headD 0)).sum :: inner),
          first.dtype, (first :: rest).flatMap values, by
            rw [MemoryFormat.sizes_dims]
            exact length_cat fun t ht => (h t ht).1⟩
      else .error .catMismatch

/-- `tensor.view(-1)[start:stop].view(shape)`. -/
def viewSlice (t : DenseTensor δ α) (start stop : ℕ) (shape : List ℕ) : Except GroupError (DenseTensor δ α) :=
  match viewStride (t.dims.filter (·.size ≠ 1)) with
  | none => .error .incompatibleStrides
  | some step =>
    if h : ((t.values.take stop).drop start).length = shape.prod then
      .ok ⟨(Strided.rowMajor shape).map (fun d => ⟨d.size, d.stride * step⟩), t.dtype,
        (t.values.take stop).drop start, by
          have hsizes : Strided.sizes ((Strided.rowMajor shape).map (fun d => ⟨d.size, d.stride * step⟩)) = shape := by
            rw [Strided.sizes, List.map_map]
            exact Strided.sizes_rowMajor shape
          rw [hsizes, h]⟩
    else .error .invalidView

end DenseTensor

def groupItems (groupIndex : ℕ) : ℕ → List (DenseTensor δ α × ℕ) → List (GroupItem δ)
  | _, [] => []
  | offsetElements, (tensor, origIdx) :: rest =>
    ⟨origIdx, tensor.shape, tensor.dtype, groupIndex, offsetElements, tensor.numel⟩ ::
      groupItems groupIndex (offsetElements + tensor.numel) rest

structure GroupState (δ α : Type) where
  finalTensorGroups : List (DenseTensor δ α)
  metadata : List (GroupItem δ)

structure CurrentGroup (δ α : Type) where
  state : GroupState δ α
  tensors : List (DenseTensor δ α × ℕ)
  size : ℤ

variable [DecidableEq δ] (elementSize : δ → ℕ)

def finalizeGroup (state : GroupState δ α) (currentGroup : List (DenseTensor δ α × ℕ)) :
    Except GroupError (GroupState δ α) := do
  let concatenated ← DenseTensor.cat (currentGroup.map Prod.fst)
  .ok ⟨state.finalTensorGroups ++ [concatenated],
    state.metadata ++ groupItems state.finalTensorGroups.length 0 currentGroup⟩

def addToGroup (maxTensorSize : ℤ) (current : CurrentGroup δ α) (entry : DenseTensor δ α × ℕ) :
    Except GroupError (CurrentGroup δ α) :=
  let tensors := current.tensors ++ [entry]
  let size := current.size + (elementSize entry.1.dtype * entry.1.numel : ℕ)
  if size > maxTensorSize then do
    let state ← finalizeGroup current.state tensors
    .ok ⟨state, [], 0⟩
  else .ok ⟨current.state, tensors, size⟩

def splitGroup (maxTensorSize : ℤ) (state : GroupState δ α) (groupTensors : List (DenseTensor δ α × ℕ)) :
    Except GroupError (GroupState δ α) := do
  let sorted := groupTensors.insertionSort (fun x y => x.2 ≤ y.2)
  let current ← sorted.foldlM (addToGroup elementSize maxTensorSize) ⟨state, [], 0⟩
  match current.tensors with
  | [] => .ok current.state
  | _ :: _ => finalizeGroup current.state current.tensors

def groupTensorsByShapeAndDtype (tensors : List (DenseTensor δ α)) (maxTensorSize : ℤ) :
    Except GroupError (GroupState δ α) :=
  (Dict.groupBy (fun entry => (entry.1.shape, entry.1.dtype)) tensors.zipIdx).values.foldlM
    (splitGroup elementSize maxTensorSize) ⟨[], []⟩

def placeItem (groupTensor : DenseTensor δ α) (resultTensors : List (Option (DenseTensor δ α)))
    (item : GroupItem δ) : Except GroupError (List (Option (DenseTensor δ α))) := do
  let tensorData ← groupTensor.viewSlice item.offset (item.offset + item.size) item.shape
  .ok (resultTensors.set item.originalIndex (some tensorData))

def placeGroup (groupMetadata : Dict ℕ (List (GroupItem δ))) (resultTensors : List (Option (DenseTensor δ α)))
    (entry : DenseTensor δ α × ℕ) : Except GroupError (List (Option (DenseTensor δ α))) :=
  match groupMetadata.get? entry.2 with
  | none => .error (.groupNotFound entry.2)
  | some items =>
    if entry.1.numel = 0 then .error (.groupNotFound entry.2)
    else items.foldlM (placeItem entry.1) resultTensors

def reconstructTensorsFromGroups (tensorGroups : List (DenseTensor δ α)) (metadata : List (GroupItem δ)) :
    Except GroupError (List (Option (DenseTensor δ α))) :=
  match metadata with
  | [] => .ok []
  | _ :: _ =>
    let maxIndex := (metadata.map GroupItem.originalIndex).foldr max 0
    let groupMetadata := Dict.groupBy GroupItem.groupIndex metadata
    tensorGroups.zipIdx.foldlM (placeGroup groupMetadata) (List.replicate (maxIndex + 1) none)

end Awex
