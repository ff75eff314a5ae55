import Awex.Library.ExceptList
import Awex.Library.Fifo
import Awex.NcclComm
import Awex.TensorSpec

namespace Awex

variable {α : Type}

def sendsTo (posted : List P2POp) (peer : ℕ) : List P2POp :=
  posted.filter (fun op => op.op = .send ∧ op.peer = peer)

def receives (posted : List P2POp) : List P2POp := posted.filter (fun op => op.op = .recv)

/-- The messages for `peer`, in the order in which they are posted. -/
def outgoing (m : Memory α) (posted : List P2POp) (peer : ℕ) : Except TransferError (List (Message α)) :=
  (sendsTo posted peer).mapM (fun op => m.message op.tensor)

/-- Messages of one ordered pair of ranks are received in the order in which they were sent. -/
def matchMessages (queues : ℕ → List (Message α)) (posted : List P2POp) :
    Option (List (P2POp × Message α) × (ℕ → List (Message α))) :=
  Fifo.deliver (·.peer) queues (receives posted)

def receiveAll (m : Memory α) (matched : List (P2POp × Message α)) : Except TransferError (Memory α) :=
  matched.foldlM (fun m (op, msg) => m.receive op.tensor msg) m

structure Accepts (t : Tensor) (msg : Message α) : Prop where
  contiguous : t.IsContiguous
  dtype_eq : msg.dtype = t.dtype
  length_eq : msg.data.length = t.numel

def arrivals (matched : List (P2POp × Message α)) : List (Address × α) :=
  matched.flatMap (fun pair => pair.1.tensor.wire.zip pair.2.data)

theorem Memory.receive_eq_ok {m m' : Memory α} {t : Tensor} {msg : Message α} :
    m.receive t msg = .ok m' ↔
      Accepts t msg ∧ m' = m.store (t.wire.zip msg.data) := by
  unfold receive
  by_cases hc : t.IsContiguous
  · by_cases hd : msg.dtype ≠ t.dtype ∨ msg.data.length ≠ t.numel
    · refine iff_of_false (by simp [hc, hd]) ?_
      rintro ⟨⟨-, hdtype, hlength⟩, -⟩
      exact hd.elim (absurd hdtype) (absurd hlength)
    · simp only [hc, not_true_eq_false, ↓reduceIte, hd, Except.ok.injEq]
      simp only [not_or, not_not] at hd
      exact ⟨fun h => ⟨⟨hc, hd.1, hd.2⟩, h.symm⟩, fun h => h.2.symm⟩
  · exact iff_of_false (by simp [hc]) (fun h => hc h.1.contiguous)

theorem receiveAll_eq_ok {m m' : Memory α} {matched : List (P2POp × Message α)} :
    receiveAll m matched = .ok m' ↔ (∀ pair ∈ matched, Accepts pair.1.tensor pair.2) ∧
      m' = m.store (arrivals matched) := by
  induction matched generalizing m with
  | nil => exact ⟨fun h => ⟨by simp, (Except.ok.inj h).symm⟩, fun h => congrArg Except.ok h.2.symm⟩
  | cons pair matched ih =>
    obtain ⟨op, msg⟩ := pair
    rw [receiveAll, List.foldlM_cons, Except.bind_eq_ok, List.forall_mem_cons]
    simp only [Memory.receive_eq_ok]
    constructor
    · rintro ⟨m₁, ⟨ha, rfl⟩, h⟩
      obtain ⟨has, rfl⟩ := ih.mp h
      exact ⟨⟨ha, has⟩, (m.store_append _ _).symm⟩
    · rintro ⟨⟨ha, has⟩, rfl⟩
      exact ⟨_, ⟨ha, rfl⟩, ih.mpr ⟨has, m.store_append _ _⟩⟩

end Awex
