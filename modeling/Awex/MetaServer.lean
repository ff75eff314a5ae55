import Mathlib.Data.Finset.Card
import Mathlib.Data.Finset.Range
import Mathlib.Logic.Function.Basic

namespace Awex

/-- What the server keeps under a key: an object that was put there, or a set that grows. -/
inductive Stored (β : Type) where
  | object (obj : β)
  | members (objects : Finset β)

inductive MetaServerError (κ : Type) where
  | notFound (key : κ)
  | notASet (key : κ)
  deriving DecidableEq, Repr

structure MetaServer (κ β : Type) where
  storage : κ → Option (Stored β)

namespace MetaServer

variable {κ β : Type} [DecidableEq κ]

def store (server : MetaServer κ β) (key : κ) (stored : Option (Stored β)) : MetaServer κ β :=
  ⟨Function.update server.storage key stored⟩

@[simp] theorem storage_store (server : MetaServer κ β) (key : κ) (stored : Option (Stored β)) :
    (server.store key stored).storage key = stored := Function.update_self ..

theorem storage_store_of_ne (server : MetaServer κ β) {key key' : κ} (h : key' ≠ key)
    (stored : Option (Stored β)) : (server.store key stored).storage key' = server.storage key' :=
  Function.update_of_ne h ..

def hasKey (server : MetaServer κ β) (key : κ) : Bool := (server.storage key).isSome

def putObject (server : MetaServer κ β) (key : κ) (obj : β) : MetaServer κ β :=
  server.store key (some (.object obj))

def addObjectToSet [DecidableEq β] (server : MetaServer κ β) (key : κ) (obj : β) :
    Except (MetaServerError κ) (MetaServer κ β) :=
  match server.storage key with
  | none => .ok (server.store key (some (.members {obj})))
  | some (.members objects) => .ok (server.store key (some (.members (insert obj objects))))
  | some (.object _) => .error (.notASet key)

def delete (server : MetaServer κ β) (key : κ) : Except (MetaServerError κ) (MetaServer κ β) :=
  if server.hasKey key then .ok (server.store key none) else .error (.notFound key)

def deleteIfExists (server : MetaServer κ β) (key : κ) : MetaServer κ β :=
  match server.delete key with
  | .ok server => server
  | .error _ => server

/-- A key that is not there gives the default value. -/
def getObject (server : MetaServer κ β) (key : κ) (default : Option (Stored β)) : Option (Stored β) :=
  match server.storage key with
  | some stored => some stored
  | none => default

@[simp] theorem deleteIfExists_eq (server : MetaServer κ β) (key : κ) :
    (server.deleteIfExists key).storage key = none := by
  unfold deleteIfExists delete hasKey
  cases h : server.storage key with
  | none => simpa using h
  | some stored => simp

theorem deleteIfExists_of_ne (server : MetaServer κ β) {key key' : κ} (h : key' ≠ key) :
    (server.deleteIfExists key).storage key' = server.storage key' := by
  unfold deleteIfExists delete
  cases server.hasKey key
  · rfl
  · exact server.storage_store_of_ne h none

end MetaServer

/-- `len(get_object(...))`, which raises where there is no set. -/
def lenOf {β : Type} : Option (Stored β) → Option ℕ
  | some (.members objects) => some objects.card
  | _ => none

def MetaServer.setAt {κ β : Type} (server : MetaServer κ β) (key : κ) : Finset β :=
  match server.storage key with
  | some (.members objects) => objects
  | _ => ∅

def MetaServer.IsSetKey {κ β : Type} (server : MetaServer κ β) (key : κ) : Prop :=
  ∀ obj, server.storage key ≠ some (.object obj)

namespace MetaServer

variable {κ β : Type} {server : MetaServer κ β} {key : κ}

@[simp] theorem getObject_none (server : MetaServer κ β) (key : κ) :
    server.getObject key none = server.storage key := by
  unfold getObject
  cases server.storage key <;> rfl

theorem lenOf_getObject (h : server.IsSetKey key) :
    lenOf (server.getObject key (some (.members ∅))) = some (server.setAt key).card := by
  unfold getObject setAt
  cases hs : server.storage key with
  | none => rfl
  | some stored =>
    cases stored with
    | object obj => exact absurd hs (h obj)
    | members objects => rfl

theorem storage_eq_of_mem {obj : β} (h : obj ∈ server.setAt key) :
    server.storage key = some (.members (server.setAt key)) := by
  unfold setAt at h ⊢
  cases hs : server.storage key with
  | none => simp [hs] at h
  | some stored =>
    cases stored with
    | object obj => simp [hs] at h
    | members objects => rfl

theorem mem_setAt_of_card [DecidableEq β] {f : ℕ → β} (hf : Function.Injective f) {n k : ℕ}
    (h : server.IsSetKey key) (hsub : ∀ obj ∈ server.setAt key, ∃ i < n, obj = f i)
    (hlen : lenOf (server.getObject key (some (.members ∅))) = some k) (hk : n ≤ k) :
    ∀ i < n, f i ∈ server.setAt key := by
  rw [lenOf_getObject h] at hlen
  obtain rfl := Option.some.inj hlen
  have himage : server.setAt key ⊆ (Finset.range n).image f := by
    intro obj hobj
    obtain ⟨i, hi, rfl⟩ := hsub obj hobj
    exact Finset.mem_image_of_mem f (Finset.mem_range.mpr hi)
  have heq : server.setAt key = (Finset.range n).image f := by
    apply Finset.eq_of_subset_of_card_le himage
    rw [Finset.card_image_of_injective _ hf, Finset.card_range]
    exact hk
  intro i hi
  rw [heq]
  exact Finset.mem_image_of_mem f (Finset.mem_range.mpr hi)

variable [DecidableEq κ]

theorem addObjectToSet_spec [DecidableEq β] (h : server.IsSetKey key) (obj : β) :
    ∃ server', server.addObjectToSet key obj = .ok server' ∧ server'.IsSetKey key ∧
      server'.setAt key = insert obj (server.setAt key) ∧
      ∀ key' ≠ key, server'.storage key' = server.storage key' := by
  unfold addObjectToSet
  cases hs : server.storage key with
  | none =>
    refine ⟨_, rfl, fun obj => by simp, ?_, fun key' hne => server.storage_store_of_ne hne _⟩
    simp [setAt, hs]
  | some stored =>
    cases stored with
    | object obj => exact absurd hs (h obj)
    | members objects =>
      refine ⟨_, rfl, fun obj => by simp, ?_, fun key' hne => server.storage_store_of_ne hne _⟩
      simp [setAt, hs]

theorem addObjectToSet_of_ne [DecidableEq β] {server' : MetaServer κ β} {obj : β}
    (h : server.addObjectToSet key obj = .ok server') {key' : κ} (hne : key' ≠ key) :
    server'.storage key' = server.storage key' := by
  unfold addObjectToSet at h
  split at h
  · obtain rfl := Except.ok.inj h
    exact server.storage_store_of_ne hne _
  · obtain rfl := Except.ok.inj h
    exact server.storage_store_of_ne hne _
  · simp at h

theorem delete_of_ne {server' : MetaServer κ β} (h : server.delete key = .ok server') {key' : κ}
    (hne : key' ≠ key) : server'.storage key' = server.storage key' := by
  unfold delete at h
  split_ifs at h
  obtain rfl := Except.ok.inj h
  exact server.storage_store_of_ne hne _

theorem deleteIfExists_isSetKey (server : MetaServer κ β) (key : κ) :
    (server.deleteIfExists key).IsSetKey key := by
  intro obj
  rw [deleteIfExists_eq]
  simp

theorem deleteIfExists_setAt (server : MetaServer κ β) (key : κ) :
    (server.deleteIfExists key).setAt key = ∅ := by
  rw [setAt, deleteIfExists_eq]

end MetaServer

end Awex
