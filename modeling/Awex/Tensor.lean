import Awex.Library.Store
import Awex.Library.Strided
import Awex.TransferPlan

namespace Awex

/-- The converted training parameters, the inference parameters and what a transfer allocates are
never in the same storage. -/
inductive Buffer where
  | training (n : ℕ)
  | inference (n : ℕ)
  | staging (n : ℕ)
  deriving DecidableEq, Repr

abbrev Address := Buffer × ℕ

structure Tensor where
  buffer : Buffer
  offset : ℕ
  dims : List Dim
  dtype : Dtype
  deriving DecidableEq, Repr

structure Parameter where
  storage : ℕ
  offset : ℕ
  dims : List Dim
  dtype : Dtype
  deriving DecidableEq, Repr

def Parameter.training (p : Parameter) : Tensor := ⟨.training p.storage, p.offset, p.dims, p.dtype⟩

def Parameter.inference (p : Parameter) : Tensor := ⟨.inference p.storage, p.offset, p.dims, p.dtype⟩

inductive TransferError where
  | keyError (key : String)
  | rankKeyError (rank : ℕ)
  | indexError
  | notContiguous
  | wireMismatch
  | notBroadcastable
  | copyCountMismatch (copyOps tensorsToCopy : ℕ)
  | inconsistentMapping (rank mappedRank : ℕ) (mappedBack : Option ℕ)
  | unfinished
  | rankUnmatched (expected actual : ℕ)
  | inconsistentSendPlan (sendToRank : ℕ)
  | inconsistentRecvPlan (opSendRank : ℕ)
  | opsAtStageZero
  deriving DecidableEq, Repr

namespace Tensor

def shape (t : Tensor) : List ℕ := Strided.sizes t.dims

def numel (t : Tensor) : ℕ := t.shape.prod

def locate (t : Tensor) (x : List ℕ) : Address := (t.buffer, t.offset + Strided.distance t.dims x)

def addresses (t : Tensor) : List Address := (Box.indices t.shape).map t.locate

def IsContiguous (t : Tensor) : Prop := Strided.Dense t.dims

instance (t : Tensor) : Decidable t.IsContiguous := inferInstanceAs (Decidable (Strided.Dense _))

/-- The cells that are sent or received for a tensor: as many as it has elements, from the first
one on. -/
def wire (t : Tensor) : List Address := (List.range t.numel).map (fun k => (t.buffer, t.offset + k))

def sliceDims : List Dim → List Slice → Except TransferError (ℕ × List Dim)
  | dims, [] => .ok (0, dims)
  | [], _ :: _ => .error .indexError
  | d :: dims, s :: slices => do
    let start := min s.start d.size
    let stop := max start (min s.stop d.size)
    let (skipped, rest) ← sliceDims dims slices
    .ok (start * d.stride + skipped, ⟨stop - start, d.stride⟩ :: rest)

/-- `tensor[slices]`. -/
def index (t : Tensor) (slices : List Slice) : Except TransferError Tensor := do
  let (skipped, dims) ← sliceDims t.dims slices
  .ok { t with offset := t.offset + skipped, dims := dims }

end Tensor

structure Message (α : Type) where
  dtype : Dtype
  data : List α
  deriving DecidableEq, Repr

structure Memory (α : Type) where
  cells : Address → α
  staged : ℕ

namespace Memory

variable {α : Type}

def read (m : Memory α) (t : Tensor) : List α := t.addresses.map m.cells

def store (m : Memory α) (ws : List (Address × α)) : Memory α :=
  { m with cells := Store.writeAll m.cells ws }

def allocate (m : Memory α) (shape : List ℕ) (dtype : Dtype) (values : List α) : Tensor × Memory α :=
  let t : Tensor := ⟨.staging m.staged, 0, Strided.rowMajor shape, dtype⟩
  (t, ⟨Store.writeAll m.cells (t.addresses.zip values), m.staged + 1⟩)

def clone (m : Memory α) (t : Tensor) : Tensor × Memory α := m.allocate t.shape t.dtype (m.read t)

def contiguous (m : Memory α) (t : Tensor) : Tensor × Memory α :=
  if t.IsContiguous then (t, m) else m.clone t

section Conversion

variable (cast : Dtype → Dtype → α → α)

def convert (source target : Dtype) (a : α) : α := if source = target then a else cast source target a

/-- `tensor.to(dtype)`. -/
def toDtype (m : Memory α) (t : Tensor) (dtype : Dtype) : Tensor × Memory α :=
  if t.dtype = dtype then (t, m)
  else m.allocate t.shape dtype ((m.read t).map (cast t.dtype dtype))

def Broadcasts (source target : List ℕ) : Prop :=
  source.length ≤ target.length ∧
    List.Forall₂ (fun n k => n = 1 ∨ n = k) source (target.drop (target.length - source.length))

instance (source target : List ℕ) : Decidable (Broadcasts source target) :=
  inferInstanceAs (Decidable (_ ∧ _))

def broadcastIndex (source x : List ℕ) : List ℕ :=
  List.zipWith (fun n i => if n = 1 then 0 else i) source (x.drop (x.length - source.length))

/-- `target.copy_(source)`. -/
def copy_ (m : Memory α) (target source : Tensor) : Except TransferError (Memory α) :=
  if Broadcasts source.shape target.shape then
    .ok (m.store ((Box.indices target.shape).map (fun x =>
      (target.locate x, convert cast source.dtype target.dtype
        (m.cells (source.locate (broadcastIndex source.shape x)))))))
  else .error .notBroadcastable

end Conversion

def message (m : Memory α) (t : Tensor) : Except TransferError (Message α) :=
  if t.IsContiguous then .ok ⟨t.dtype, t.wire.map m.cells⟩ else .error .notContiguous

/-- A receiver waits for as many bytes as its own tensor has. -/
def receive (m : Memory α) (t : Tensor) (msg : Message α) : Except TransferError (Memory α) :=
  if ¬ t.IsContiguous then .error .notContiguous
  else if msg.dtype ≠ t.dtype ∨ msg.data.length ≠ t.numel then .error .wireMismatch
  else .ok (m.store (t.wire.zip msg.data))

end Memory

end Awex
