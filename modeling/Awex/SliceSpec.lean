import Awex.BuildLoop
import Awex.SliceKey
import Awex.TensorSpec

namespace Awex

variable {α : Type}

theorem Tensor.index_buffer {t v : Tensor} {slices : List Slice} (h : t.index slices = .ok v) :
    v.buffer = t.buffer ∧ v.dtype = t.dtype := by
  rw [index, Except.bind_eq_ok] at h
  obtain ⟨cut, -, h⟩ := h
  obtain rfl := Except.ok.inj h
  exact ⟨rfl, rfl⟩

theorem Parameter.training_live {p : Parameter} {v : Tensor} {slices : List Slice}
    (h : p.training.index slices = .ok v) (m : Memory α) : v.Live m := by
  intro n hn
  rw [(Tensor.index_buffer h).1] at hn
  simp [training] at hn

theorem Parameter.inference_live {p : Parameter} {v : Tensor} {slices : List Slice}
    (h : p.inference.index slices = .ok v) (m : Memory α) : v.Live m := by
  intro n hn
  rw [(Tensor.index_buffer h).1] at hn
  simp [inference] at hn

theorem Parameter.training_not_inference {p : Parameter} {v : Tensor} {slices : List Slice}
    (h : p.training.index slices = .ok v) : ¬ v.IsInference := by
  rintro ⟨n, hn⟩
  rw [(Tensor.index_buffer h).1] at hn
  simp [training] at hn

/-- Every slice in the context has the contents of the slice that its key stands for, in a tensor
of its own. -/
structure ContextOk (parameters : Dict String Parameter) (w : Workspace α) : Prop where
  carries : ∀ name slices p v t, w.sliceContext.get? (sliceKey name slices) = some t →
    parameters.get? name = some p → p.training.index slices = .ok v → Carries w.memory t v
  staged : ∀ key t, w.sliceContext.get? key = some t → ∃ n, t.buffer = .staging n

theorem contextOk_empty (parameters : Dict String Parameter) (m : Memory α) :
    ContextOk parameters ⟨m, .empty⟩ := by
  refine ⟨?_, ?_⟩
  · intro name slices p v t h
    simp at h
  · intro key t h
    simp at h

theorem staging_not_inference {t : Tensor} (h : ∃ n, t.buffer = .staging n) : ¬ t.IsInference := by
  obtain ⟨n, hn⟩ := h
  rintro ⟨k, hk⟩
  rw [hn] at hk
  simp at hk

theorem ContextOk.keep {parameters : Dict String Parameter} {w : Workspace α}
    (h : ContextOk parameters w) {m : Memory α} (hm : w.memory.Keeps m) :
    ContextOk parameters ⟨m, w.sliceContext⟩ :=
  ⟨fun name slices p v t ht hp hv => (h.carries name slices p v t ht hp hv).keep hm
      (staging_not_inference (h.staged _ t ht)) (Parameter.training_live hv w.memory)
      (Parameter.training_not_inference hv), h.staged⟩

theorem ContextOk.mono {parameters : Dict String Parameter} {w : Workspace α}
    (h : ContextOk parameters w) {m : Memory α} (hm : w.memory.Extends m) :
    ContextOk parameters ⟨m, w.sliceContext⟩ := h.keep hm.keeps

theorem ContextOk.set {parameters : Dict String Parameter} {w : Workspace α}
    (h : ContextOk parameters w) {name : String} {slices : List Slice} {p : Parameter} {v t : Tensor}
    (hp : parameters.get? name = some p) (hv : p.training.index slices = .ok v)
    (ht : Carries w.memory t v) (hs : ∃ n, t.buffer = .staging n) :
    ContextOk parameters ⟨w.memory, w.sliceContext.set (sliceKey name slices) t⟩ := by
  refine ⟨?_, ?_⟩
  · intro name' slices' p' v' t' ht' hp' hv'
    rw [Dict.get?_set] at ht'
    split_ifs at ht' with hkey
    · obtain ⟨rfl, rfl⟩ := sliceKey_inj hkey
      obtain rfl := Option.some.inj (hp.symm.trans hp')
      obtain rfl := Except.ok.inj (hv.symm.trans hv')
      obtain rfl := Option.some.inj ht'
      exact ht
    · exact h.carries name' slices' p' v' t' ht' hp' hv'
  · intro key t' ht'
    rw [Dict.get?_set] at ht'
    split_ifs at ht' with hkey
    · obtain rfl := Option.some.inj ht'
      exact hs
    · exact h.staged key t' ht'

theorem sliceTensor_train {parameters : Dict String Parameter} {w : Workspace α}
    (h : ContextOk parameters w) {op : CommunicationOperation} {p : Parameter} {v : Tensor}
    (hp : parameters.get? op.sendShardMeta.name = some p)
    (hv : p.training.index op.trainSlices = .ok v) :
    ∃ t w', sliceTensor p.training op true w = .ok (t, w') ∧ w.memory.Extends w'.memory ∧
      ContextOk parameters w' ∧ Carries w'.memory t v ∧ ¬ t.IsInference := by
  have hlive := Parameter.training_live hv w.memory
  simp only [sliceTensor, ↓reduceIte, hv, not_true_eq_false, false_or, bind, Except.bind]
  by_cases hc : v.IsContiguous
  · rw [if_pos hc]
    exact ⟨v, w, rfl, .refl _, h, ⟨hc, hlive, rfl, rfl, rfl⟩, Parameter.training_not_inference hv⟩
  · rw [if_neg hc]
    cases hkey : w.sliceContext.get? (sliceKey op.sendShardMeta.name op.trainSlices) with
    | some t =>
      exact ⟨t, w, rfl, .refl _, h, h.carries _ _ p v t hkey hp hv,
        staging_not_inference (h.staged _ t hkey)⟩
    | none =>
      obtain ⟨hext, hcarries⟩ := w.memory.contiguous_spec v hlive
      have hstaged : ∃ n, (w.memory.contiguous v).1.buffer = .staging n := by
        rw [Memory.contiguous, if_neg hc]
        exact ⟨_, w.memory.clone_staging v⟩
      exact ⟨_, _, rfl, hext, (h.mono hext).set hp hv hcarries hstaged, hcarries,
        staging_not_inference hstaged⟩

theorem sliceTensor_train_isOk {w w' : Workspace α} {op : CommunicationOperation} {p : Parameter}
    {t : Tensor} (h : sliceTensor p.training op true w = .ok (t, w')) :
    ∃ v, p.training.index op.trainSlices = .ok v := by
  rw [sliceTensor, Except.bind_eq_ok] at h
  obtain ⟨v, hv, -⟩ := h
  exact ⟨v, hv⟩

structure SendSlice (parameters : Dict String Parameter) (op : CommunicationOperation)
    (p : Parameter) (v : Tensor) : Prop where
  parameter : parameters.get? op.sendShardMeta.name = some p
  index : p.training.index op.trainSlices = .ok v

structure RecvSlice (parameters : Dict String Parameter) (op : CommunicationOperation)
    (p : Parameter) (v : Tensor) : Prop where
  parameter : parameters.get? op.recvShardMeta.name = some p
  index : p.inference.index op.infSlices = .ok v

end Awex
