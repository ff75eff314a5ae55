import Awex.ColocatePrepare

namespace Awex

variable {α : Type}

theorem broadcast_within (source target x : List ℕ)
    (h : List.Forall₂ (fun n k => n = 1 ∨ n = k) source target) (hx : x ∈ Box.origin target) :
    List.zipWith (fun n i => if n = 1 then 0 else i) source x ∈ Box.origin source := by
  simp only [Box.mem_def, Box.origin] at hx ⊢
  induction h generalizing x with
  | nil =>
    cases x with
    | nil => trivial
    | cons i x => exact hx.elim
  | @cons n k _ _ hnk _ ih =>
    cases x with
    | nil => exact hx.elim
    | cons i x =>
      obtain ⟨⟨-, hi⟩, hx⟩ := hx
      refine ⟨⟨Nat.zero_le _, ?_⟩, ih x hx⟩
      dsimp only
      split_ifs with hn
      · omega
      · have hk := hnk.resolve_left hn
        omega

theorem origin_drop (shape x : List ℕ) (j : ℕ) (hx : x ∈ Box.origin shape) :
    x.drop j ∈ Box.origin (shape.drop j) := by
  simp only [Box.mem_def, Box.origin] at hx ⊢
  induction j generalizing shape x with
  | zero => exact hx
  | succ j ih =>
    cases shape with
    | nil =>
      cases x with
      | nil => trivial
      | cons i x => exact hx.elim
    | cons n shape =>
      cases x with
      | nil => exact hx.elim
      | cons i x => exact ih shape x hx.2

theorem broadcastIndex_mem {source target x : List ℕ} (h : Memory.Broadcasts source target)
    (hx : x ∈ Box.origin target) : Memory.broadcastIndex source x ∈ Box.origin source := by
  have hlen : target.length = x.length := (Box.within_length hx).2
  rw [Memory.broadcastIndex, ← hlen]
  exact broadcast_within source _ _ h.2 (origin_drop target x _ hx)

theorem Carries.cells_eq {m : Memory α} {t v : Tensor} (h : Carries m t v) {y : List ℕ}
    (hy : y ∈ Box.origin v.shape) : m.cells (t.locate y) = m.cells (v.locate y) := by
  have hread := h.read_eq
  rw [Memory.read, Memory.read, Tensor.addresses, Tensor.addresses, h.shape_eq, List.map_map,
    List.map_map] at hread
  exact List.map_inj_left.mp hread y ((Box.mem_indices _ _).mpr hy)

namespace ColocateUpdate

variable (u : ColocateUpdate) (cast : Dtype → Dtype → α → α)

def copyWrites (m₀ : Memory α) (v target : Tensor) : List (Address × α) :=
  (Box.indices target.shape).map (fun x => (target.locate x,
    Memory.convert cast v.dtype target.dtype (m₀.cells (v.locate (Memory.broadcastIndex v.shape x)))))

def copyEntry (m₀ : Memory α) (entry : Tensor × CommunicationOperation) :
    Except TransferError (List (Address × α)) := do
  let p ← lookup u.recvParameters entry.2.recvShardMeta.name
  let target ← p.inference.index entry.2.infSlices
  if Memory.Broadcasts entry.1.shape target.shape then .ok (copyWrites cast m₀ entry.1 target)
  else .error .notBroadcastable

def copyPlan (m₀ : Memory α) :
    List (Tensor × CommunicationOperation) → Except TransferError (List (Address × α))
  | [] => .ok []
  | entry :: rest => do
    let ws ← u.copyEntry cast m₀ entry
    let ws' ← copyPlan m₀ rest
    .ok (ws ++ ws')

theorem copyEntry_inferenceOnly {m₀ : Memory α} {entry : Tensor × CommunicationOperation}
    {ws : List (Address × α)} (h : u.copyEntry cast m₀ entry = .ok ws) : InferenceOnly ws := by
  obtain ⟨p, -, h⟩ := Except.bind_eq_ok.mp h
  obtain ⟨target, htarget, h⟩ := Except.bind_eq_ok.mp h
  split_ifs at h
  obtain rfl := Except.ok.inj h
  intro w hw
  obtain ⟨x, -, rfl⟩ := List.mem_map.mp hw
  exact ⟨p.storage, (Tensor.index_buffer htarget).1⟩

theorem copyPlan_inferenceOnly {m₀ : Memory α} {entries : List (Tensor × CommunicationOperation)}
    {ws : List (Address × α)} (h : u.copyPlan cast m₀ entries = .ok ws) : InferenceOnly ws := by
  induction entries generalizing ws with
  | nil =>
    obtain rfl := Except.ok.inj h
    intro w hw
    simp at hw
  | cons entry entries ih =>
    obtain ⟨ws₁, h₁, h⟩ := Except.bind_eq_ok.mp h
    obtain ⟨ws₂, h₂, h⟩ := Except.bind_eq_ok.mp h
    obtain rfl := Except.ok.inj h
    intro w hw
    rcases List.mem_append.mp hw with hw | hw
    · exact u.copyEntry_inferenceOnly cast h₁ w hw
    · exact ih h₂ w hw

theorem copy_carried {m₀ m : Memory α} {t v : Tensor} (hm : m₀.Keeps m) (h : Carries m t v)
    (hl : v.Live m₀) (hv : ¬ v.IsInference) (target : Tensor) :
    m.copy_ cast target t = if Memory.Broadcasts v.shape target.shape then
      .ok (m.store (copyWrites cast m₀ v target)) else .error .notBroadcastable := by
  rw [Memory.copy_, h.shape_eq, h.dtype_eq]
  split_ifs with hb
  · congr 2
    apply List.map_congr_left
    intro x hx
    have hy := broadcastIndex_mem hb ((Box.mem_indices _ _).mp hx)
    rw [h.cells_eq hy, hm.cells_eq _ (fun n hn => hv ⟨n, hn⟩) (fun n hn => hl n hn)]
  · rfl

/-- One round of the loop in `execute_tensors_to_copy`. -/
def copySlice (memory : Memory α) (entry : Tensor × CommunicationOperation) :
    Except TransferError (Memory α) := do
  let recvTensor ← lookup u.recvParameters entry.2.recvShardMeta.name
  let (recvTensorSliced, _) ← sliceTensor recvTensor.inference entry.2 false ⟨memory, .empty⟩
  memory.copy_ cast recvTensorSliced entry.1

theorem copySlice_eq {m₀ m : Memory α} (hm : m₀.Keeps m) {op copyOp : CommunicationOperation}
    {e : CommunicationOperation × Tensor} (h : u.SlicedFor m op e) :
    u.copySlice cast m (e.2, copyOp) = (u.copyEntry cast m₀ (u.sendView op, copyOp)).map m.store := by
  rw [copySlice, copyEntry]
  cases lookup u.recvParameters copyOp.recvShardMeta.name with
  | error err => rfl
  | ok p =>
    simp only [sliceTensor_infer, Except.ok_bind]
    cases p.inference.index copyOp.infSlices with
    | error err => rfl
    | ok target =>
      simp only [Except.ok_bind, Except.map_ok]
      rw [copy_carried cast hm h.carries (h.can.live m₀) h.can.not_inference]
      split_ifs <;> rfl

theorem copySlices_eq {m₀ m : Memory α} (hm : m₀.Keeps m) (ops : List CommunicationOperation)
    {sliced : List (CommunicationOperation × Tensor)} (h : List.Forall₂ (u.SlicedFor m) ops sliced)
    (copyOps : List CommunicationOperation) :
    ((sliced.map Prod.snd).zip copyOps).foldlM (u.copySlice cast) m =
      (u.copyPlan cast m₀ ((ops.map u.sendView).zip copyOps)).map m.store := by
  induction ops generalizing m sliced copyOps with
  | nil =>
    cases h
    rfl
  | cons op ops ih =>
    cases h with
    | @cons _ e _ sliced he hrest =>
      cases copyOps with
      | nil => rfl
      | cons copyOp copyOps =>
        simp only [List.map_cons, List.zip_cons_cons, List.foldlM_cons, copyPlan]
        rw [u.copySlice_eq cast hm he]
        cases hws : u.copyEntry cast m₀ (u.sendView op, copyOp) with
        | error err => rfl
        | ok ws =>
          have hkeeps := m.keeps_store ws (u.copyEntry_inferenceOnly cast hws)
          change ((sliced.map Prod.snd).zip copyOps).foldlM (u.copySlice cast) (m.store ws) = _
          rw [ih (hm.trans hkeeps) (hrest.imp (fun _ _ hs => hs.keep u hkeeps)) copyOps]
          change _ = Except.map _ (u.copyPlan cast m₀ _ >>= _)
          cases u.copyPlan cast m₀ ((ops.map u.sendView).zip copyOps) with
          | error err => rfl
          | ok ws' => exact congrArg Except.ok (m.store_append _ _).symm

def selfPlan (m₀ : Memory α) :
    Except TransferError (List (CommunicationOperation × CommunicationOperation) × List (Address × α)) :=
  if u.selfOps = [] then .ok ([], [])
  else do
    let sendRank ← lookupRank u.inferToTrain u.transferRank
    let copyOps ← lookupRank u.recvTransferPlan.operations sendRank
    if copyOps.length ≠ u.selfOps.length then
      .error (.copyCountMismatch copyOps.length u.selfOps.length)
    else
      let ws ← u.copyPlan cast m₀ ((u.selfOps.map u.sendView).zip copyOps)
      .ok (u.selfOps.zip copyOps, ws)

theorem SlicedFor.ops_eq {m : Memory α} {ops : List CommunicationOperation}
    {sliced : List (CommunicationOperation × Tensor)} (h : List.Forall₂ (u.SlicedFor m) ops sliced) :
    sliced.map Prod.fst = ops := by
  rw [← List.map_id ops]
  exact (map_eq_of_forall₂ (h.imp (fun _ _ hs => hs.op_eq.symm))).symm

theorem executeSelfCopies_eq {m₀ m : Memory α} (hm : m₀.Keeps m)
    {sliced : List (CommunicationOperation × Tensor)}
    (h : List.Forall₂ (u.SlicedFor m) u.selfOps sliced) :
    u.executeSelfCopies cast sliced m = (u.selfPlan cast m₀).map (fun r => (r.1, m.store r.2)) := by
  have hlength := h.length_eq
  have hnil : sliced = [] ↔ u.selfOps = [] := by
    rw [← List.length_eq_zero_iff, ← List.length_eq_zero_iff, hlength]
  rw [executeSelfCopies, selfPlan]
  simp only [hnil]
  split_ifs with hself
  · rfl
  · cases lookupRank u.inferToTrain u.transferRank with
    | error err => rfl
    | ok sendRank =>
      simp only [Except.ok_bind]
      cases lookupRank u.recvTransferPlan.operations sendRank with
      | error err => rfl
      | ok copyOps =>
        simp only [Except.ok_bind]
        rw [executeTensorsToCopy, List.length_map, ← hlength]
        split_ifs with hcount
        · rfl
        · change (((sliced.map Prod.snd).zip copyOps).foldlM (u.copySlice cast) m >>= _) =
            Except.map _ (_ >>= _)
          rw [u.copySlices_eq cast hm u.selfOps h copyOps, SlicedFor.ops_eq u h]
          cases u.copyPlan cast m₀ ((u.selfOps.map u.sendView).zip copyOps) with
          | error err => rfl
          | ok ws => rfl

theorem selfPlan_inferenceOnly {m₀ : Memory α}
    {r : List (CommunicationOperation × CommunicationOperation) × List (Address × α)}
    (h : u.selfPlan cast m₀ = .ok r) : InferenceOnly r.2 := by
  unfold selfPlan at h
  split_ifs at h
  · obtain rfl := Except.ok.inj h
    intro w hw
    simp at hw
  · obtain ⟨sendRank, -, h⟩ := Except.bind_eq_ok.mp h
    obtain ⟨copyOps, -, h⟩ := Except.bind_eq_ok.mp h
    split_ifs at h
    obtain ⟨ws, hws, h⟩ := Except.bind_eq_ok.mp h
    obtain rfl := Except.ok.inj h
    exact u.copyPlan_inferenceOnly cast hws

end ColocateUpdate

end Awex
