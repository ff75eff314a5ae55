import Awex.MetaServer

namespace Awex

namespace MetaServer

variable {κ β : Type} [DecidableEq κ] (server : MetaServer κ β)

theorem hasKey_putObject (key key' : κ) (obj : β) :
    (server.putObject key obj).hasKey key' = true ↔ key' = key ∨ server.hasKey key' = true := by
  unfold hasKey putObject
  obtain rfl | hne := eq_or_ne key' key
  · simp
  · rw [server.storage_store_of_ne hne]
    simp [hne]

theorem hasKey_deleteIfExists (key key' : κ) :
    (server.deleteIfExists key).hasKey key' = true ↔ key' ≠ key ∧ server.hasKey key' = true := by
  unfold hasKey
  obtain rfl | hne := eq_or_ne key' key
  · simp
  · rw [server.deleteIfExists_of_ne hne]
    simp [hne]

variable {server}

theorem delete_isOk {key : κ} (h : server.hasKey key = true) : ∃ server', server.delete key = .ok server' :=
  ⟨_, if_pos h⟩

theorem deleteIfExists_of_delete {server' : MetaServer κ β} {key : κ} (h : server.delete key = .ok server') :
    server.deleteIfExists key = server' := by
  unfold deleteIfExists
  rw [h]

section Families

variable {server server' : MetaServer κ β}

/-- The keys of device `d` that are there are those of the steps after `lo d` up to `hi d`. -/
def DeviceKeys (server : MetaServer κ β) (key : ℕ → ℕ → κ) (lo hi : ℕ → ℕ) : Prop :=
  ∀ d j, server.hasKey (key d j) = true ↔ lo d < j ∧ j ≤ hi d

/-- The set under the key has the members `f i` with more than `lo` done. -/
structure MemberSet (server : MetaServer κ β) (key : κ) (f : ℕ → β) (N lo : ℕ) (hi : ℕ → ℕ) : Prop where
  isSet : server.IsSetKey key
  mem : ∀ i < N, f i ∈ server.setAt key ↔ lo < hi i
  sub : ∀ obj ∈ server.setAt key, ∃ i < N, obj = f i

variable {key : ℕ → ℕ → κ} {lo hi lo' hi' : ℕ → ℕ}

omit [DecidableEq κ] in
theorem DeviceKeys.congr (h : server.DeviceKeys key lo hi)
    (hstorage : ∀ d j, server'.storage (key d j) = server.storage (key d j)) (hlo : ∀ d, lo' d = lo d) (hhi : ∀ d, hi' d = hi d) : server'.DeviceKeys key lo' hi' := by
  intro d j
  rw [hlo, hhi, ← h d j, hasKey, hasKey, hstorage]

theorem DeviceKeys.put (h : server.DeviceKeys key lo hi)
    (hkey : ∀ d j d' j', key d j = key d' j' → d = d' ∧ j = j') {r : ℕ} (hle : lo r ≤ hi r) (obj : β)
    (hlo : ∀ d, lo' d = lo d) (hhi : ∀ d, hi' d = if d = r then hi r + 1 else hi d) :
    (server.putObject (key r (hi r + 1)) obj).DeviceKeys key lo' hi' := by
  intro d j
  rw [hasKey_putObject, h d j, hlo, hhi]
  constructor
  · rintro (heq | hold)
    · obtain ⟨rfl, rfl⟩ := hkey _ _ _ _ heq
      rw [if_pos rfl]
      omega
    · split_ifs with hd
      · subst hd
        omega
      · exact hold
  · intro hnew
    split_ifs at hnew with hd
    · subst hd
      by_cases hj : j = hi d + 1
      · exact .inl (by rw [hj])
      · exact .inr (by omega)
    · exact .inr hnew

theorem DeviceKeys.remove (h : server.DeviceKeys key lo hi)
    (hkey : ∀ d j d' j', key d j = key d' j' → d = d' ∧ j = j') {r : ℕ} (hlo : ∀ d, lo' d = if d = r then lo r + 1 else lo d) (hhi : ∀ d, hi' d = hi d) :
    (server.deleteIfExists (key r (lo r + 1))).DeviceKeys key lo' hi' := by
  intro d j
  rw [hasKey_deleteIfExists, h d j, hlo, hhi]
  constructor
  · rintro ⟨hne, hold⟩
    split_ifs with hd
    · subst hd
      have : j ≠ lo d + 1 := fun hj => hne (by rw [hj])
      omega
    · exact hold
  · intro hnew
    split_ifs at hnew with hd
    · subst hd
      refine ⟨fun heq => ?_, by omega⟩
      have := (hkey _ _ _ _ heq).2
      omega
    · exact ⟨fun heq => hd (hkey _ _ _ _ heq).1, hnew⟩

variable {set : κ} {f : ℕ → β} {N low low' : ℕ} {high high' : ℕ → ℕ}

omit [DecidableEq κ] in
theorem MemberSet.congr (h : server.MemberSet set f N low high) (hstorage : server'.storage set = server.storage set)
    (hlow : low' = low) (hhigh : ∀ i, high' i = high i) : server'.MemberSet set f N low' high' := by
  have hsame : server'.setAt set = server.setAt set := by
    unfold setAt
    rw [hstorage]
  constructor
  · intro obj
    rw [hstorage]
    exact h.isSet obj
  · intro i hi
    rw [hsame, hlow, hhigh]
    exact h.mem i hi
  · rw [hsame]
    exact h.sub

omit [DecidableEq κ] in
theorem MemberSet.le_card (h : server.MemberSet set f N low high) (hf : Function.Injective f)
    (hall : ∀ i < N, low < high i) : N ≤ (server.setAt set).card := by
  classical
  have himage : (Finset.range N).image f ⊆ server.setAt set := by
    intro obj hobj
    obtain ⟨i, hi, rfl⟩ := Finset.mem_image.mp hobj
    rw [Finset.mem_range] at hi
    exact (h.mem i hi).mpr (hall i hi)
  have hcard := Finset.card_le_card himage
  rwa [Finset.card_image_of_injective _ hf, Finset.card_range] at hcard

theorem MemberSet.add [DecidableEq β] (h : server.MemberSet set f N low high) (hf : Function.Injective f) {i : ℕ} (hi : i < N)
    (hadd : server.addObjectToSet set (f i) = .ok server') (hle : low ≤ high i) (hlow : low' = low)
    (hhigh : ∀ k, high' k = if k = i then high i + 1 else high k) : server'.MemberSet set f N low' high' := by
  obtain ⟨added, hok, hset, hinsert, -⟩ := addObjectToSet_spec h.isSet (f i)
  obtain rfl := Except.ok.inj (hok.symm.trans hadd)
  constructor
  · exact hset
  · intro k hk
    rw [hinsert, Finset.mem_insert, h.mem k hk, hlow, hhigh, hf.eq_iff]
    split_ifs <;> omega
  · intro obj hobj
    rw [hinsert, Finset.mem_insert] at hobj
    rcases hobj with rfl | hobj
    · exact ⟨i, hi, rfl⟩
    · exact h.sub obj hobj

theorem MemberSet.clear (hle : ∀ i < N, high' i ≤ low') : (server.deleteIfExists set).MemberSet set f N low' high' := by
  constructor
  · exact server.deleteIfExists_isSetKey set
  · intro i hi
    rw [deleteIfExists_setAt]
    have := hle i hi
    simp only [Finset.notMem_empty, false_iff, not_lt]
    exact this
  · intro obj hobj
    rw [deleteIfExists_setAt] at hobj
    cases hobj

end Families

end MetaServer

end Awex
