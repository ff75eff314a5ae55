import Awex.Tensor

namespace Awex

def Slice.repr (s : Slice) : String := "slice(" ++ s.start.repr ++ ", " ++ s.stop.repr ++ ", None)"

def joinSlices : List Slice → String
  | [] => ")"
  | s :: slices => ", " ++ s.repr ++ joinSlices slices

def slicesRepr : List Slice → String
  | [] => "()"
  | [s] => "(" ++ s.repr ++ ",)"
  | s :: slices => "(" ++ s.repr ++ joinSlices slices

/-- `f"{param_name}-{slices}"`. -/
def sliceKey (paramName : String) (slices : List Slice) : String :=
  paramName ++ "-" ++ slicesRepr slices

/-- The memory of a rank and the `slice_context` of the parameters that it sends. -/
structure Workspace (α : Type) where
  memory : Memory α
  sliceContext : Dict String Tensor

variable {α : Type}

/-- Only training slices are made contiguous; a copy that was made is used again for equal slices
of the parameter. -/
def sliceTensor (tensor : Tensor) (op : CommunicationOperation) (isTrain : Bool) (w : Workspace α) :
    Except TransferError (Tensor × Workspace α) := do
  let slicedTensor ← tensor.index (if isTrain then op.trainSlices else op.infSlices)
  if ¬ isTrain ∨ slicedTensor.IsContiguous then .ok (slicedTensor, w)
  else
    let key := sliceKey op.sendShardMeta.name op.trainSlices
    match w.sliceContext.get? key with
    | some sliced => .ok (sliced, w)
    | none =>
      let (sliced, memory) := w.memory.contiguous slicedTensor
      .ok (sliced, ⟨memory, w.sliceContext.set key sliced⟩)

end Awex
