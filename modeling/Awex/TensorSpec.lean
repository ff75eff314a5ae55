import Awex.Tensor

namespace Awex

variable {α : Type}

theorem Memory.store_append (m : Memory α) (ws ws' : List (Address × α)) :
    m.store (ws ++ ws') = (m.store ws).store ws' := by
  rw [store, Store.writeAll_append]
  rfl

def Tensor.Live (t : Tensor) (m : Memory α) : Prop := ∀ n, t.buffer = .staging n → n < m.staged

structure Memory.Extends (m m' : Memory α) : Prop where
  staged_le : m.staged ≤ m'.staged
  cells_eq : ∀ a : Address, (∀ n, a.1 = .staging n → n < m.staged) → m'.cells a = m.cells a

theorem Memory.Extends.refl (m : Memory α) : m.Extends m := ⟨le_rfl, fun _ _ => rfl⟩

theorem Memory.Extends.trans {m₁ m₂ m₃ : Memory α} (h : m₁.Extends m₂) (h' : m₂.Extends m₃) :
    m₁.Extends m₃ := by
  refine ⟨h.staged_le.trans h'.staged_le, fun a ha => ?_⟩
  rw [h'.cells_eq a (fun n hn => (ha n hn).trans_le h.staged_le), h.cells_eq a ha]

theorem Tensor.Live.mono {t : Tensor} {m m' : Memory α} (h : t.Live m) (hm : m.Extends m') : t.Live m' :=
  fun n hn => (h n hn).trans_le hm.staged_le

theorem Memory.Extends.map_cells {m m' : Memory α} (h : m.Extends m') {t : Tensor} (ht : t.Live m)
    {as : List Address} (has : ∀ a ∈ as, a.1 = t.buffer) : as.map m'.cells = as.map m.cells := by
  apply List.map_congr_left
  intro a ha
  exact h.cells_eq a (fun n hn => ht n ((has a ha).symm.trans hn))

namespace Tensor

theorem addresses_buffer (t : Tensor) : ∀ a ∈ t.addresses, a.1 = t.buffer := by
  intro a ha
  obtain ⟨x, -, rfl⟩ := List.mem_map.mp ha
  rfl

theorem wire_buffer (t : Tensor) : ∀ a ∈ t.wire, a.1 = t.buffer := by
  intro a ha
  obtain ⟨k, -, rfl⟩ := List.mem_map.mp ha
  rfl

theorem wire_nodup (t : Tensor) : t.wire.Nodup := by
  apply List.Nodup.map _ List.nodup_range
  intro i j hij
  have hoffset := (Prod.mk.inj hij).2
  omega

theorem length_addresses (t : Tensor) : t.addresses.length = t.numel := by
  rw [addresses, List.length_map, Strided.length_indices]
  rfl

theorem wire_eq_addresses {t : Tensor} (h : t.IsContiguous) : t.wire = t.addresses := by
  rw [wire, addresses, numel, shape, ← Strided.distances_of_dense t.dims h, List.map_map]
  rfl

theorem IsContiguous.addresses_nodup {t : Tensor} (h : t.IsContiguous) : t.addresses.Nodup := by
  rw [← wire_eq_addresses h]
  exact t.wire_nodup

end Tensor

theorem Memory.Extends.read_eq {m m' : Memory α} (h : m.Extends m') {t : Tensor} (ht : t.Live m) :
    m'.read t = m.read t := h.map_cells ht t.addresses_buffer

theorem Memory.length_read (m : Memory α) (t : Tensor) : (m.read t).length = t.numel := by
  rw [read, List.length_map, t.length_addresses]

def Tensor.IsInference (t : Tensor) : Prop := ∃ n, t.buffer = .inference n

structure Memory.Keeps (m m' : Memory α) : Prop where
  staged_le : m.staged ≤ m'.staged
  cells_eq : ∀ a : Address, (∀ n, a.1 ≠ .inference n) → (∀ n, a.1 = .staging n → n < m.staged) →
    m'.cells a = m.cells a

theorem Memory.Keeps.refl (m : Memory α) : m.Keeps m := ⟨le_rfl, fun _ _ _ => rfl⟩

theorem Memory.Keeps.trans {m₁ m₂ m₃ : Memory α} (h : m₁.Keeps m₂) (h' : m₂.Keeps m₃) : m₁.Keeps m₃ := by
  refine ⟨h.staged_le.trans h'.staged_le, fun a hi hs => ?_⟩
  rw [h'.cells_eq a hi (fun n hn => (hs n hn).trans_le h.staged_le), h.cells_eq a hi hs]

theorem Memory.Extends.keeps {m m' : Memory α} (h : m.Extends m') : m.Keeps m' :=
  ⟨h.staged_le, fun a _ hs => h.cells_eq a hs⟩

theorem Memory.Keeps.read_eq {m m' : Memory α} (h : m.Keeps m') {t : Tensor} (ht : t.Live m)
    (hi : ¬ t.IsInference) : m'.read t = m.read t := by
  apply List.map_congr_left
  intro a ha
  have hbuffer := t.addresses_buffer a ha
  exact h.cells_eq a (fun n hn => hi ⟨n, hbuffer.symm.trans hn⟩)
    (fun n hn => ht n (hbuffer.symm.trans hn))

/-- `t` is a contiguous tensor with the elements of `v`. -/
structure Carries (m : Memory α) (t v : Tensor) : Prop where
  contiguous : t.IsContiguous
  live : t.Live m
  shape_eq : t.shape = v.shape
  dtype_eq : t.dtype = v.dtype
  read_eq : m.read t = m.read v

theorem Carries.mono {m m' : Memory α} {t v : Tensor} (h : Carries m t v) (hm : m.Extends m')
    (hv : v.Live m) : Carries m' t v :=
  ⟨h.contiguous, h.live.mono hm, h.shape_eq, h.dtype_eq, by rw [hm.read_eq h.live, hm.read_eq hv, h.read_eq]⟩

theorem Carries.keep {m m' : Memory α} {t v : Tensor} (h : Carries m t v) (hm : m.Keeps m')
    (hi : ¬ t.IsInference) (hv : v.Live m) (hvi : ¬ v.IsInference) : Carries m' t v := by
  refine ⟨h.contiguous, fun n hn => (h.live n hn).trans_le hm.staged_le, h.shape_eq, h.dtype_eq, ?_⟩
  rw [hm.read_eq h.live hi, hm.read_eq hv hvi, h.read_eq]

theorem Carries.message {m : Memory α} {t v : Tensor} (h : Carries m t v) :
    m.message t = .ok ⟨v.dtype, m.read v⟩ := by
  rw [Memory.message, if_pos h.contiguous, Tensor.wire_eq_addresses h.contiguous, h.dtype_eq, ← h.read_eq]
  rfl

theorem Memory.allocate_spec (m : Memory α) (shape : List ℕ) (dtype : Dtype) (values : List α)
    (hl : values.length = shape.prod) :
    m.Extends (m.allocate shape dtype values).2 ∧ (m.allocate shape dtype values).1.IsContiguous ∧
      (m.allocate shape dtype values).1.Live (m.allocate shape dtype values).2 ∧
      (m.allocate shape dtype values).1.shape = shape ∧
      (m.allocate shape dtype values).2.read (m.allocate shape dtype values).1 = values := by
  have hdense : (m.allocate shape dtype values).1.IsContiguous := Strided.dense_rowMajor shape
  have hshape : (m.allocate shape dtype values).1.shape = shape := Strided.sizes_rowMajor shape
  have hbuffer : (m.allocate shape dtype values).1.buffer = .staging m.staged := rfl
  refine ⟨⟨Nat.le_succ _, fun a ha => ?_⟩, hdense, fun n hn => ?_, hshape, ?_⟩
  · apply Store.writeAll_of_not_mem
    intro hmem
    obtain ⟨⟨a', x⟩, hw, rfl⟩ := List.mem_map.mp hmem
    have hfresh := Tensor.addresses_buffer _ a' (List.of_mem_zip hw).1
    exact absurd (ha m.staged hfresh) (lt_irrefl _)
  · rw [hbuffer] at hn
    obtain rfl := Buffer.staging.inj hn
    exact Nat.lt_succ_self _
  · apply Store.map_writeAll_zip
    · exact hdense.addresses_nodup
    · rw [Tensor.length_addresses, Tensor.numel, hl]
      exact congrArg List.prod hshape

theorem Memory.clone_spec (m : Memory α) (v : Tensor) (hv : v.Live m) :
    m.Extends (m.clone v).2 ∧ Carries (m.clone v).2 (m.clone v).1 v := by
  obtain ⟨hext, hdense, hlive, hshape, hread⟩ := m.allocate_spec v.shape v.dtype (m.read v) (m.length_read v)
  exact ⟨hext, hdense, hlive, hshape, rfl, hread.trans (hext.read_eq hv).symm⟩

theorem Memory.clone_staging (m : Memory α) (v : Tensor) : (m.clone v).1.buffer = .staging m.staged := rfl

theorem Memory.contiguous_spec (m : Memory α) (v : Tensor) (hv : v.Live m) :
    m.Extends (m.contiguous v).2 ∧ Carries (m.contiguous v).2 (m.contiguous v).1 v := by
  unfold contiguous
  split_ifs with hdense
  · exact ⟨.refl m, hdense, hv, rfl, rfl, rfl⟩
  · exact m.clone_spec v hv

end Awex
