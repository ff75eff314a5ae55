import Awex.Library.DictLists
import Awex.LinkSpec
import Awex.SliceSpec

namespace Awex

variable {α : Type}

theorem buildEach_visits {β γ σ : Type} {f : β → σ → Except TransferError (γ × σ)} {xs : List β} {s : σ}
    {r : List γ × σ} (h : buildEach f xs s = .ok r) {x : β} (hx : x ∈ xs) : ∃ s r, f x s = .ok r := by
  induction xs generalizing s r with
  | nil => simp at hx
  | cons y ys ih =>
    rw [buildEach, Except.bind_eq_ok] at h
    obtain ⟨r₁, hr₁, hrest⟩ := h
    obtain ⟨r₂, hr₂, -⟩ := Except.bind_eq_ok.mp hrest
    rcases List.mem_cons.mp hx with rfl | hx
    · exact ⟨s, r₁, hr₁⟩
    · exact ih hr₂ hx

theorem buildEach_exists {β γ σ : Type} {f : β → σ → Except TransferError (γ × σ)} (I : σ → Prop)
    (le : σ → σ → Prop) (R : σ → β → γ → Prop) (hrefl : ∀ s, le s s)
    (htrans : ∀ r s t, le r s → le s t → le r t)
    (hmono : ∀ s s' x y, le s s' → R s x y → R s' x y) (xs : List β)
    (hstep : ∀ x ∈ xs, ∀ s, I s → ∃ y s', f x s = .ok (y, s') ∧ I s' ∧ le s s' ∧ R s' x y) (s : σ)
    (hs : I s) : ∃ ys s', buildEach f xs s = .ok (ys, s') ∧ I s' ∧ le s s' ∧ List.Forall₂ (R s') xs ys := by
  induction xs generalizing s with
  | nil => exact ⟨[], s, rfl, hs, hrefl s, .nil⟩
  | cons x xs ih =>
    obtain ⟨hx, hxs⟩ := List.forall_mem_cons.mp hstep
    obtain ⟨y, s₁, hy, hs₁, hle₁, hR₁⟩ := hx s hs
    obtain ⟨ys, s₂, hys, hs₂, hle₂, hR₂⟩ := ih hxs s₁ hs₁
    refine ⟨y :: ys, s₂, ?_, hs₂, htrans _ _ _ hle₁ hle₂, .cons (hmono _ _ _ _ hle₂ hR₁) hR₂⟩
    exact Except.bind_eq_ok.mpr ⟨(y, s₁), hy, Except.bind_eq_ok.mpr ⟨(ys, s₂), hys, rfl⟩⟩

namespace ColocateUpdate

variable (u : ColocateUpdate)

def sendView (op : CommunicationOperation) : Tensor :=
  ((lookup u.sendParameters op.sendShardMeta.name >>= fun p =>
    p.training.index op.trainSlices).toOption).getD ⟨.training 0, 0, [], .bool⟩

def recvView (op : CommunicationOperation) : Tensor :=
  ((lookup u.recvParameters op.recvShardMeta.name >>= fun p =>
    p.inference.index op.infSlices).toOption).getD ⟨.inference 0, 0, [], .bool⟩

def CanSend (op : CommunicationOperation) : Prop :=
  ∃ p, SendSlice u.sendParameters op p (u.sendView op)

def CanRecv (op : CommunicationOperation) : Prop :=
  ∃ p, RecvSlice u.recvParameters op p (u.recvView op)

theorem canSend_iff {op : CommunicationOperation} :
    u.CanSend op ↔ ∃ p v, SendSlice u.sendParameters op p v := by
  constructor
  · rintro ⟨p, h⟩
    exact ⟨p, _, h⟩
  · rintro ⟨p, v, hp, hv⟩
    have hview : u.sendView op = v := by
      rw [sendView, lookup_eq_ok.mpr hp]
      change ((p.training.index op.trainSlices).toOption).getD _ = v
      rw [hv]
      rfl
    exact ⟨p, hp, hview.symm ▸ hv⟩

theorem canRecv_iff {op : CommunicationOperation} :
    u.CanRecv op ↔ ∃ p v, RecvSlice u.recvParameters op p v := by
  constructor
  · rintro ⟨p, h⟩
    exact ⟨p, _, h⟩
  · rintro ⟨p, v, hp, hv⟩
    have hview : u.recvView op = v := by
      rw [recvView, lookup_eq_ok.mpr hp]
      change ((p.inference.index op.infSlices).toOption).getD _ = v
      rw [hv]
      rfl
    exact ⟨p, hp, hview.symm ▸ hv⟩

variable {u}

theorem CanSend.live {op : CommunicationOperation} (h : u.CanSend op) (m : Memory α) :
    (u.sendView op).Live m := by
  obtain ⟨p, hslice⟩ := h
  exact Parameter.training_live hslice.index m

theorem CanSend.not_inference {op : CommunicationOperation} (h : u.CanSend op) :
    ¬ (u.sendView op).IsInference := by
  obtain ⟨p, hslice⟩ := h
  exact Parameter.training_not_inference hslice.index

theorem CanRecv.inference {op : CommunicationOperation} (h : u.CanRecv op) :
    (u.recvView op).IsInference := by
  obtain ⟨p, hslice⟩ := h
  exact ⟨p.storage, (Tensor.index_buffer hslice.index).1⟩

variable (u)

/-- The workspace of a rank that started from `m₀`. -/
structure Ready (m₀ : Memory α) (w : Workspace α) : Prop where
  keeps : m₀.Keeps w.memory
  context : ContextOk u.sendParameters w

theorem ready_init (m : Memory α) : u.Ready m ⟨m, .empty⟩ := ⟨.refl m, contextOk_empty _ m⟩

structure SlicedFor (m : Memory α) (op : CommunicationOperation) (e : CommunicationOperation × Tensor) :
    Prop where
  can : u.CanSend op
  op_eq : e.1 = op
  carries : Carries m e.2 (u.sendView op)
  not_inference : ¬ e.2.IsInference

theorem SlicedFor.keep {m m' : Memory α} {op : CommunicationOperation}
    {e : CommunicationOperation × Tensor} (h : u.SlicedFor m op e) (hm : m.Keeps m') :
    u.SlicedFor m' op e :=
  ⟨h.can, h.op_eq, h.carries.keep hm h.not_inference (h.can.live m) h.can.not_inference, h.not_inference⟩

theorem sliceSendOp_exists {m₀ : Memory α} {w : Workspace α} (hw : u.Ready m₀ w)
    {op : CommunicationOperation} (h : u.CanSend op) :
    ∃ e w', u.sliceSendOp op w = .ok (e, w') ∧ u.Ready m₀ w' ∧ w.memory.Extends w'.memory ∧
      u.SlicedFor w'.memory op e := by
  obtain ⟨p, hp, hv⟩ := id h
  obtain ⟨t, w', ht, hext, hcontext, hcarries, hi⟩ := sliceTensor_train hw.context hp hv
  refine ⟨(op, t), w', ?_, ⟨hw.keeps.trans hext.keeps, hcontext⟩, hext, h, rfl, hcarries, hi⟩
  exact Except.bind_eq_ok.mpr ⟨p, lookup_eq_ok.mpr hp, Except.bind_eq_ok.mpr ⟨_, ht, rfl⟩⟩

theorem canSend_of_slice {op : CommunicationOperation} {w : Workspace α}
    {r : (CommunicationOperation × Tensor) × Workspace α} (h : u.sliceSendOp op w = .ok r) : u.CanSend op := by
  obtain ⟨p, hp, h⟩ := Except.bind_eq_ok.mp h
  obtain ⟨⟨t, w'⟩, ht, -⟩ := Except.bind_eq_ok.mp h
  obtain ⟨v, hv⟩ := sliceTensor_train_isOk ht
  exact (u.canSend_iff).mpr ⟨p, v, lookup_eq_ok.mp hp, hv⟩

section Cast

variable (cast : Dtype → Dtype → α → α)

def planMessage (m₀ : Memory α) (op : CommunicationOperation) : Message α :=
  ⟨op.recvShardMeta.dtype,
    (m₀.read (u.sendView op)).map (Memory.convert cast (u.sendView op).dtype op.recvShardMeta.dtype)⟩

structure SentAs (m₀ m : Memory α) (op : CommunicationOperation) (built : BuiltOp) : Prop where
  op_eq : built.1 = op
  send : built.2.op = .send
  peer : built.2.peer = mapRank u.trainToInfer op.recvRank
  contiguous : built.2.tensor.IsContiguous
  live : built.2.tensor.Live m
  not_inference : ¬ built.2.tensor.IsInference
  message : (⟨built.2.tensor.dtype, m.read built.2.tensor⟩ : Message α) = u.planMessage cast m₀ op

theorem SentAs.keep {m₀ m m' : Memory α} {op : CommunicationOperation} {built : BuiltOp}
    (h : u.SentAs cast m₀ m op built) (hm : m.Keeps m') : u.SentAs cast m₀ m' op built :=
  ⟨h.op_eq, h.send, h.peer, h.contiguous, fun n hn => (h.live n hn).trans_le hm.staged_le,
    h.not_inference, by rw [hm.read_eq h.live h.not_inference, h.message]⟩

theorem toDtype_spec (m : Memory α) (t : Tensor) (dtype : Dtype) (hc : t.IsContiguous) (hl : t.Live m)
    (hi : ¬ t.IsInference) :
    m.Extends (m.toDtype cast t dtype).2 ∧ (m.toDtype cast t dtype).1.IsContiguous ∧
      (m.toDtype cast t dtype).1.Live (m.toDtype cast t dtype).2 ∧
      ¬ (m.toDtype cast t dtype).1.IsInference ∧ (m.toDtype cast t dtype).1.dtype = dtype ∧
      (m.toDtype cast t dtype).2.read (m.toDtype cast t dtype).1 =
        (m.read t).map (Memory.convert cast t.dtype dtype) := by
  unfold Memory.toDtype
  split_ifs with hdtype
  · refine ⟨.refl m, hc, hl, hi, hdtype, ?_⟩
    have hid : Memory.convert cast t.dtype dtype = id := by
      funext a
      exact if_pos hdtype
    rw [hid, List.map_id]
  · obtain ⟨hext, hdense, hlive, -, hread⟩ := m.allocate_spec t.shape dtype
      ((m.read t).map (cast t.dtype dtype)) (by rw [List.length_map, m.length_read]; rfl)
    have hconvert : Memory.convert cast t.dtype dtype = cast t.dtype dtype := by
      funext a
      exact if_neg hdtype
    refine ⟨hext, hdense, hlive, staging_not_inference ⟨_, rfl⟩, rfl, ?_⟩
    rw [hread, hconvert]

theorem buildSendOp_exists {m₀ : Memory α} {w : Workspace α} (hw : u.Ready m₀ w)
    {op : CommunicationOperation} (h : u.CanSend op) :
    ∃ built w', u.buildSendOp cast op w = .ok (built, w') ∧ u.Ready m₀ w' ∧
      w.memory.Extends w'.memory ∧ u.SentAs cast m₀ w'.memory op built := by
  obtain ⟨⟨op', t⟩, w₁, hslice, hw₁, hext₁, hsliced⟩ := u.sliceSendOp_exists hw h
  have hcarries := hsliced.carries
  obtain ⟨hext₂, hclone⟩ := w₁.memory.clone_spec t hcarries.live
  have hview : (w₁.memory.clone t).2.read (w₁.memory.clone t).1 = m₀.read (u.sendView op) := by
    rw [hclone.read_eq, hext₂.read_eq hcarries.live, hcarries.read_eq,
      hw₁.keeps.read_eq (h.live m₀) h.not_inference]
  obtain ⟨hext₃, hdense, hlive, hni, hdtype, hread⟩ := toDtype_spec cast (w₁.memory.clone t).2
    (w₁.memory.clone t).1 op.recvShardMeta.dtype hclone.contiguous hclone.live
    (staging_not_inference ⟨_, w₁.memory.clone_staging t⟩)
  generalize hconverted : (w₁.memory.clone t).2.toDtype cast (w₁.memory.clone t).1
    op.recvShardMeta.dtype = converted at hext₃ hdense hlive hni hdtype hread
  have hext : w₁.memory.Extends converted.2 := hext₂.trans hext₃
  refine ⟨(op, ⟨.send, converted.1, mapRank u.trainToInfer op.recvRank⟩), ⟨converted.2, w₁.sliceContext⟩,
    Except.bind_eq_ok.mpr ⟨_, hslice, ?_⟩, ⟨hw₁.keeps.trans hext.keeps, hw₁.context.mono hext⟩,
    hext₁.trans hext, rfl, rfl, rfl, hdense, hlive, hni, ?_⟩
  · dsimp only
    rw [hconverted]
  · rw [planMessage, hread, hview, hdtype, hclone.dtype_eq, hcarries.dtype_eq]

theorem canSend_of_build {op : CommunicationOperation} {w : Workspace α} {r : BuiltOp × Workspace α}
    (h : u.buildSendOp cast op w = .ok r) : u.CanSend op := by
  obtain ⟨⟨e, w'⟩, he, -⟩ := Except.bind_eq_ok.mp h
  exact u.canSend_of_slice he

end Cast

/-- A receive lands in the parameter slice itself. -/
def recvBuilt (p : ℕ) (op : CommunicationOperation) : BuiltOp := (op, ⟨.recv, u.recvView op, p⟩)

theorem buildRecvOp_eq_ok {p : ℕ} {m : Memory α} {op : CommunicationOperation} {built : BuiltOp} :
    u.buildRecvOp p m op = .ok built ↔ u.CanRecv op ∧ built = u.recvBuilt p op := by
  simp only [buildRecvOp, Except.bind_eq_ok, lookup_eq_ok, sliceTensor_infer, Except.map_eq_ok,
    Except.ok.injEq]
  constructor
  · rintro ⟨q, hq, ⟨v, w⟩, ⟨v', hv, heq⟩, rfl⟩
    obtain ⟨rfl, -⟩ := Prod.mk.inj heq
    have hcan : u.CanRecv op := (u.canRecv_iff).mpr ⟨q, v', hq, hv⟩
    obtain ⟨q', hslice⟩ := id hcan
    obtain rfl := Option.some.inj (hq.symm.trans hslice.parameter)
    obtain rfl := Except.ok.inj (hv.symm.trans hslice.index)
    exact ⟨hcan, rfl⟩
  · rintro ⟨⟨q, hq, hv⟩, rfl⟩
    exact ⟨q, hq, _, ⟨_, hv, rfl⟩, rfl⟩

theorem mapM_buildRecvOp {p : ℕ} {m : Memory α} {ops : List CommunicationOperation}
    (h : ∀ op ∈ ops, u.CanRecv op) : ops.mapM (u.buildRecvOp p m) = .ok (ops.map (u.recvBuilt p)) :=
  Except.mapM_of_forall_ok (fun op hop => u.buildRecvOp_eq_ok.mpr ⟨h op hop, rfl⟩)

end ColocateUpdate

end Awex
