import Awex.Library.Runs
import Awex.MetaServer

namespace Awex

open Runs

/-- What is kept under `weights_ready_for_load` and `weights_ready_for_send`. -/
inductive ReadyObject where
  | flag (value : Bool)
  | engine (rank : ℕ)
  deriving DecidableEq, Repr

def loadKey : String := "weights_ready_for_load"

def sendKey : String := "weights_ready_for_send"

/-- Where writer rank 0 is in `_validate_weights`, its checkpoint being on disk. -/
inductive WriterPhase where
  | saved
  | polling
  | deletingSend
  | deletingLoad
  | left
  deriving DecidableEq, Repr

/-- Where an engine is in `_pre_validate_weights`: before a poll of the load key, before it adds
itself, before its first read of the send key, in the loop after it, or out of it. -/
inductive ReaderPhase where
  | waiting
  | loading
  | reading
  | rereading
  | left
  | raised
  deriving DecidableEq, Repr

/-- `while len(ready_engines) != self.num_engines` after the first read. -/
def firstRead (numEngines : ℕ) (readyEngines : Option (Stored ReadyObject)) : ReaderPhase :=
  match lenOf readyEngines with
  | none => .raised
  | some k => if k = numEngines then .left else .rereading

def nextRead (numEngines : ℕ) (newReadyEngines : Option (Stored ReadyObject)) : ReaderPhase :=
  match newReadyEngines with
  | none => .left
  | some stored =>
    match lenOf (some stored) with
    | none => .raised
    | some k => if k = 0 ∨ k = numEngines then .left else .rereading

structure RendezvousState where
  server : MetaServer String ReadyObject
  writer : WriterPhase
  engine : ℕ → ReaderPhase

namespace RendezvousState

def write (s : RendezvousState) (writer : WriterPhase) : RendezvousState := { s with writer := writer }

def goto (s : RendezvousState) (e : ℕ) (phase : ReaderPhase) : RendezvousState :=
  { s with engine := Function.update s.engine e phase }

def serve (s : RendezvousState) (server : MetaServer String ReadyObject) : RendezvousState :=
  { s with server := server }

@[simp] theorem goto_engine (s : RendezvousState) (e e' : ℕ) (phase : ReaderPhase) :
    (s.goto e phase).engine e' = if e' = e then phase else s.engine e' := by
  simp [goto, Function.update_apply]

@[simp] theorem serve_engine (s : RendezvousState) (server : MetaServer String ReadyObject) :
    (s.serve server).engine = s.engine := rfl

@[simp] theorem serve_server (s : RendezvousState) (server : MetaServer String ReadyObject) :
    (s.serve server).server = server := rfl

end RendezvousState

inductive RendezvousStep (numEngines : ℕ) : RendezvousState → RendezvousState → Prop where
  | put (s : RendezvousState) (h : s.writer = .saved) :
      RendezvousStep numEngines s ((s.write .polling).serve (s.server.putObject loadKey (.flag true)))
  | poll (s : RendezvousState) (k : ℕ) (h : s.writer = .polling)
      (hlen : lenOf (s.server.getObject sendKey (some (.members ∅))) = some k) :
      RendezvousStep numEngines s (s.write (if k = numEngines then .deletingSend else .polling))
  | deleteSend (s : RendezvousState) (h : s.writer = .deletingSend) :
      RendezvousStep numEngines s ((s.write .deletingLoad).serve (s.server.deleteIfExists sendKey))
  | deleteLoad (s : RendezvousState) (h : s.writer = .deletingLoad) :
      RendezvousStep numEngines s ((s.write .left).serve (s.server.deleteIfExists loadKey))
  | found (s : RendezvousState) (e : ℕ) (he : e < numEngines) (h : s.engine e = .waiting)
      (hkey : s.server.hasKey loadKey = true) : RendezvousStep numEngines s (s.goto e .loading)
  | add (s : RendezvousState) (e : ℕ) (server : MetaServer String ReadyObject) (h : s.engine e = .loading)
      (hadd : s.server.addObjectToSet sendKey (.engine e) = .ok server) :
      RendezvousStep numEngines s ((s.goto e .reading).serve server)
  | read (s : RendezvousState) (e : ℕ) (h : s.engine e = .reading) :
      RendezvousStep numEngines s (s.goto e (firstRead numEngines (s.server.getObject sendKey none)))
  | reread (s : RendezvousState) (e : ℕ) (h : s.engine e = .rereading) :
      RendezvousStep numEngines s (s.goto e (nextRead numEngines (s.server.getObject sendKey none)))

namespace RendezvousState

structure Fresh (s : RendezvousState) : Prop where
  load : s.server.storage loadKey = none
  send : s.server.storage sendKey = none
  writer : s.writer = .saved
  engine : ∀ e, s.engine e = .waiting

def Added (s : RendezvousState) (e : ℕ) : Prop := s.engine e ≠ .waiting ∧ s.engine e ≠ .loading

def Deleted (s : RendezvousState) : Prop := s.writer = .deletingLoad ∨ s.writer = .left

/-- No engine has raised an error, and nobody has left before all engines have added themselves. -/
structure Safe (s : RendezvousState) (numEngines : ℕ) : Prop where
  raised : ∀ e < numEngines, s.engine e ≠ .raised
  early : (s.writer = .left ∨ ∃ e < numEngines, s.engine e = .left) → ∀ e < numEngines, s.Added e

structure Rendezvous (s : RendezvousState) (numEngines : ℕ) : Prop where
  isSet : s.server.IsSetKey sendKey
  members : ∀ obj ∈ s.server.setAt sendKey, ∃ e < numEngines, obj = .engine e ∧ s.Added e
  kept : ¬ s.Deleted → ∀ e, s.Added e → .engine e ∈ s.server.setAt sendKey
  gone : s.Deleted → s.server.storage sendKey = none
  all : s.Deleted ∨ s.writer = .deletingSend ∨ (∃ e, s.engine e = .left) → ∀ e < numEngines, s.Added e
  inside : ∀ e, s.engine e ≠ .waiting → e < numEngines
  raised : ∀ e, s.engine e ≠ .raised

variable {s s' : RendezvousState} {numEngines : ℕ}

theorem Fresh.rendezvous (h : s.Fresh) : s.Rendezvous numEngines := by
  refine ⟨?_, ?_, ?_, ?_, ?_, ?_, ?_⟩
  · intro obj
    simp [h.send]
  · intro obj hobj
    simp [MetaServer.setAt, h.send] at hobj
  · intro _ e he
    exact absurd (h.engine e) he.1
  · intro _
    exact h.send
  · rintro (hdeleted | hdeleting | ⟨e, he⟩)
    · simp [Deleted, h.writer] at hdeleted
    · simp [h.writer] at hdeleting
    · simp [h.engine] at he
  · intro e he
    exact absurd (h.engine e) he
  · intro e
    simp [h.engine]

theorem Rendezvous.safe (h : s.Rendezvous numEngines) : s.Safe numEngines := by
  refine ⟨fun e _ => h.raised e, ?_⟩
  rintro (hleft | ⟨e, _, he⟩)
  · exact h.all (Or.inl (Or.inr hleft))
  · exact h.all (Or.inr (Or.inr ⟨e, he⟩))

theorem Rendezvous.write (h : s.Rendezvous numEngines) {writer : WriterPhase} {server : MetaServer String ReadyObject}
    (hsend : server.storage sendKey = s.server.storage sendKey)
    (hdeleted : ((s.write writer).serve server).Deleted ↔ s.Deleted)
    (hall : writer = .deletingSend → ∀ e < numEngines, s.Added e) :
    ((s.write writer).serve server).Rendezvous numEngines := by
  have hset : server.setAt sendKey = s.server.setAt sendKey := by
    unfold MetaServer.setAt
    rw [hsend]
  refine ⟨?_, ?_, ?_, ?_, ?_, h.inside, h.raised⟩
  · intro obj
    rw [serve_server, hsend]
    exact h.isSet obj
  · intro obj hobj
    exact h.members obj (hset ▸ hobj)
  · intro hnot e he
    apply hset.symm ▸ h.kept _ e he
    rwa [← hdeleted]
  · intro hdel
    exact hsend.trans (h.gone (hdeleted.mp hdel))
  · rintro (hdel | hdeleting | hleft)
    · exact h.all (Or.inl (hdeleted.mp hdel))
    · exact hall hdeleting
    · exact h.all (Or.inr (Or.inr hleft))

theorem Rendezvous.deleteSend (h : s.Rendezvous numEngines) (hwriter : s.writer = .deletingSend) :
    ((s.write .deletingLoad).serve (s.server.deleteIfExists sendKey)).Rendezvous numEngines := by
  have hall := h.all (Or.inr (Or.inl hwriter))
  refine ⟨MetaServer.deleteIfExists_isSetKey _ _, ?_, ?_, ?_, ?_, h.inside, h.raised⟩
  · intro obj hobj
    have hempty := s.server.deleteIfExists_setAt sendKey
    rw [serve_server, hempty] at hobj
    simp at hobj
  · intro hnot
    exact absurd (Or.inl rfl) hnot
  · intro _
    exact s.server.deleteIfExists_eq sendKey
  · intro _
    exact hall

theorem Rendezvous.goto (h : s.Rendezvous numEngines) {e : ℕ} {phase : ReaderPhase} (he : e < numEngines)
    (hadded : (phase ≠ .waiting ∧ phase ≠ .loading) ↔ s.Added e)
    (hleft : phase = .left → ∀ e < numEngines, s.Added e) (hraised : phase ≠ .raised) :
    (s.goto e phase).Rendezvous numEngines := by
  have hsame : ∀ e', (s.goto e phase).Added e' ↔ s.Added e' := by
    intro e'
    unfold Added
    rw [goto_engine]
    split_ifs with hee
    · rw [hee]
      exact hadded
    · exact Iff.rfl
  refine ⟨h.isSet, ?_, ?_, h.gone, ?_, ?_, ?_⟩
  · intro obj hobj
    obtain ⟨e', he', rfl, hadd⟩ := h.members obj hobj
    exact ⟨e', he', rfl, (hsame e').mpr hadd⟩
  · intro hnot e' hadd
    exact h.kept hnot e' ((hsame e').mp hadd)
  · rintro hcase e' he'
    apply (hsame e').mpr
    rcases hcase with hdel | hdeleting | ⟨e'', hout⟩
    · exact h.all (Or.inl hdel) e' he'
    · exact h.all (Or.inr (Or.inl hdeleting)) e' he'
    · rw [goto_engine] at hout
      split_ifs at hout
      · exact hleft hout e' he'
      · exact h.all (Or.inr (Or.inr ⟨e'', hout⟩)) e' he'
  · intro e' hne
    rw [goto_engine] at hne
    split_ifs at hne with hee
    · omega
    · exact h.inside e' hne
  · intro e'
    rw [goto_engine]
    split_ifs
    · exact hraised
    · exact h.raised e'

theorem Rendezvous.add (h : s.Rendezvous numEngines) {e : ℕ} {server : MetaServer String ReadyObject}
    (hphase : s.engine e = .loading) (hadd : s.server.addObjectToSet sendKey (.engine e) = .ok server) :
    ((s.goto e .reading).serve server).Rendezvous numEngines := by
  have he : e < numEngines := h.inside e (by simp [hphase])
  have hnotAdded : ¬ s.Added e := fun hadded => hadded.2 hphase
  have hnot : ¬ (s.Deleted ∨ s.writer = .deletingSend ∨ ∃ e, s.engine e = .left) :=
    fun hcase => hnotAdded (h.all hcase e he)
  have hsame : ∀ e', ((s.goto e .reading).serve server).Added e' ↔ e' = e ∨ s.Added e' := by
    intro e'
    unfold Added
    rw [serve_engine, goto_engine]
    split_ifs with hee
    · simp [hee]
    · simp [hee]
  obtain ⟨server', hserver', hset, hmembers, _⟩ := MetaServer.addObjectToSet_spec h.isSet (.engine e)
  obtain rfl : server' = server := Except.ok.inj (hserver'.symm.trans hadd)
  refine ⟨hset, ?_, ?_, ?_, ?_, ?_, ?_⟩
  · intro obj hobj
    rw [serve_server, hmembers, Finset.mem_insert] at hobj
    rcases hobj with rfl | hobj
    · exact ⟨e, he, rfl, (hsame e).mpr (Or.inl rfl)⟩
    · obtain ⟨e', he', rfl, hadded⟩ := h.members obj hobj
      exact ⟨e', he', rfl, (hsame e').mpr (Or.inr hadded)⟩
  · intro hdel e' hadded
    rw [serve_server, hmembers, Finset.mem_insert]
    rcases (hsame e').mp hadded with rfl | hadded
    · exact Or.inl rfl
    · exact Or.inr (h.kept hdel e' hadded)
  · intro hdel
    exact absurd (Or.inl hdel) hnot
  · rintro (hdel | hdeleting | ⟨e', hout⟩)
    · exact absurd (Or.inl hdel) hnot
    · exact absurd (Or.inr (Or.inl hdeleting)) hnot
    · rw [serve_engine, goto_engine] at hout
      split_ifs at hout
      exact absurd (Or.inr (Or.inr ⟨e', hout⟩)) hnot
  · intro e' hne
    by_cases hee : e' = e
    · omega
    · apply h.inside e'
      simpa [serve, hee] using hne
  · intro e'
    rw [serve_engine, goto_engine]
    split_ifs
    · simp
    · exact h.raised e'

theorem Rendezvous.all_added (h : s.Rendezvous numEngines)
    (hlen : lenOf (s.server.getObject sendKey (some (.members ∅))) = some numEngines) :
    ∀ e < numEngines, s.Added e := by
  intro e he
  have hmem := MetaServer.mem_setAt_of_card (f := ReadyObject.engine) (fun _ _ => ReadyObject.engine.inj) h.isSet
    (fun obj hobj => by
      obtain ⟨e', he', rfl, _⟩ := h.members obj hobj
      exact ⟨e', he', rfl⟩) hlen le_rfl e he
  obtain ⟨e', _, heq, hadded⟩ := h.members _ hmem
  obtain rfl := ReadyObject.engine.inj heq
  exact hadded

theorem Rendezvous.lenOf_storage (h : s.Rendezvous numEngines) {e : ℕ} (hadded : s.Added e) (hnot : ¬ s.Deleted) :
    ∃ k, lenOf (s.server.storage sendKey) = some k ∧ 0 < k ∧ (k = numEngines → ∀ e < numEngines, s.Added e) := by
  have hmem := h.kept hnot e hadded
  have hlen : lenOf (s.server.storage sendKey) = some (s.server.setAt sendKey).card := by
    rw [MetaServer.storage_eq_of_mem hmem]
    rfl
  refine ⟨_, hlen, Finset.card_pos.mpr ⟨_, hmem⟩, ?_⟩
  intro hfull
  apply h.all_added
  rw [MetaServer.lenOf_getObject h.isSet, hfull]

theorem Rendezvous.read (h : s.Rendezvous numEngines) {e : ℕ} (hphase : s.engine e = .reading) (hnot : ¬ s.Deleted) :
    (s.goto e (firstRead numEngines (s.server.getObject sendKey none))).Rendezvous numEngines := by
  have hadded : s.Added e := by simp [Added, hphase]
  obtain ⟨k, hlen, _, hfull⟩ := h.lenOf_storage hadded hnot
  have hfirst : firstRead numEngines (s.server.getObject sendKey none) =
      if k = numEngines then .left else .rereading := by
    rw [MetaServer.getObject_none]
    simp [firstRead, hlen]
  have he : e < numEngines := h.inside e (by simp [hphase])
  rw [hfirst]
  split_ifs with hk
  · apply h.goto he <;> simp [hadded]
    exact hfull hk
  · apply h.goto he <;> simp [hadded]

theorem Rendezvous.reread (h : s.Rendezvous numEngines) {e : ℕ} (hphase : s.engine e = .rereading) :
    (s.goto e (nextRead numEngines (s.server.getObject sendKey none))).Rendezvous numEngines := by
  have hadded : s.Added e := by simp [Added, hphase]
  have he : e < numEngines := h.inside e (by simp [hphase])
  rw [MetaServer.getObject_none]
  by_cases hdel : s.Deleted
  · rw [h.gone hdel]
    apply h.goto he <;> simp [nextRead, hadded]
    exact h.all (Or.inl hdel)
  · obtain ⟨k, hlen, hpos, hfull⟩ := h.lenOf_storage hadded hdel
    have hnext : nextRead numEngines (s.server.storage sendKey) =
        if k = 0 ∨ k = numEngines then .left else .rereading := by
      unfold nextRead
      cases hstorage : s.server.storage sendKey with
      | none => simp [hstorage, lenOf] at hlen
      | some stored =>
        rw [hstorage] at hlen
        simp [hlen]
    rw [hnext]
    split_ifs with hk
    · apply h.goto he <;> simp [hadded]
      exact hfull (by omega)
    · apply h.goto he <;> simp [hadded]

end RendezvousState

/-- An engine's first read of the send key is served before the writer deletes it. -/
def ReadsBeforeDelete (s s' : RendezvousState) : Prop :=
  ∀ e, s.engine e = .reading → s'.engine e ≠ .reading → ¬ s.Deleted

namespace RendezvousState

variable {s s' : RendezvousState} {numEngines : ℕ}

theorem firstRead_ne_reading (readyEngines : Option (Stored ReadyObject)) :
    firstRead numEngines readyEngines ≠ .reading := by
  unfold firstRead
  split
  · simp
  · split_ifs <;> simp

theorem Rendezvous.step (h : s.Rendezvous numEngines)
    (hstep : Under (RendezvousStep numEngines) ReadsBeforeDelete s s') : s'.Rendezvous numEngines := by
  obtain ⟨hstep, hreads⟩ := hstep
  cases hstep with
  | put hwriter =>
    apply h.write
    · exact MetaServer.storage_store_of_ne _ (by decide) _
    · simp [Deleted, RendezvousState.write, RendezvousState.serve, hwriter]
    · simp
  | poll k hwriter hlen =>
    split_ifs with hk
    · show ((s.write .deletingSend).serve s.server).Rendezvous numEngines
      apply h.write rfl
      · simp [Deleted, RendezvousState.write, RendezvousState.serve, hwriter]
      · intro _
        exact h.all_added (hk ▸ hlen)
    · show ((s.write .polling).serve s.server).Rendezvous numEngines
      apply h.write rfl
      · simp [Deleted, RendezvousState.write, RendezvousState.serve, hwriter]
      · simp
  | deleteSend hwriter => exact h.deleteSend hwriter
  | deleteLoad hwriter =>
    apply h.write
    · exact MetaServer.deleteIfExists_of_ne _ (by decide)
    · simp [Deleted, RendezvousState.write, RendezvousState.serve, hwriter]
    · simp
  | found e he hphase _ => apply h.goto he <;> simp [Added, hphase]
  | add e server hphase hadd => exact h.add hphase hadd
  | read e hphase =>
    apply h.read hphase
    apply hreads e hphase
    simpa using firstRead_ne_reading _
  | reread e hphase => exact h.reread hphase

theorem Rendezvous.reads_before_delete (h : s.Rendezvous numEngines) (hstep : RendezvousStep numEngines s s')
    (hsafe : s'.Safe numEngines) : ReadsBeforeDelete s s' := by
  intro e hreading hnext hdel
  have he : e < numEngines := h.inside e (by simp [hreading])
  have hraised := hsafe.raised e he
  cases hstep with
  | read e' hphase =>
    rw [goto_engine] at hnext hraised
    split_ifs at hnext hraised
    · rw [MetaServer.getObject_none, h.gone hdel] at hraised
      exact hraised rfl
    · exact hnext hreading
  | put _ | poll k _ _ | deleteSend _ | deleteLoad _ => exact hnext hreading
  | found e' _ hphase _ | reread e' hphase =>
    rw [goto_engine] at hnext
    split_ifs at hnext with hee
    · subst hee
      simp [hreading] at hphase
    · exact hnext hreading
  | add e' server hphase _ =>
    rw [serve_engine, goto_engine] at hnext
    split_ifs at hnext
    · exact hnext rfl
    · exact hnext hreading

def initial : RendezvousState := ⟨⟨fun _ => none⟩, .saved, fun _ => .waiting⟩

theorem initial_fresh : initial.Fresh := ⟨rfl, rfl, rfl, fun _ => rfl⟩

end RendezvousState

/-- The runs in which no engine raises an error and nobody leaves too early are those in which every
engine does its first read before the writer deletes the send key. -/
theorem rendezvous_safe_iff {numEngines : ℕ} {start : RendezvousState} (hstart : start.Fresh)
    {path : List RendezvousState} (hrun : (start :: path).IsChain (RendezvousStep numEngines)) :
    (∀ s ∈ start :: path, s.Safe numEngines) ↔ (start :: path).IsChain ReadsBeforeDelete := by
  apply chain_iff (I := (RendezvousState.Rendezvous · numEngines)) _ _ _ hstart.rendezvous hrun
  · intro s h
    exact h.safe
  · intro s s' h hstep hreads
    exact h.step ⟨hstep, hreads⟩
  · intro s s' h hstep hsafe
    exact h.reads_before_delete hstep hsafe

open RendezvousState

theorem rendezvous_safe_iff_one : ∃ path, (initial :: path).IsChain (RendezvousStep 1) ∧
    (∀ s ∈ initial :: path, s.Safe 1) ∧ ∃ s ∈ initial :: path, s.writer = .deletingLoad ∧ s.engine 0 = .left := by
  obtain ⟨s, hrun, hs⟩ : ∃ s, Run (Under (RendezvousStep 1) ReadsBeforeDelete) initial s ∧
      s.writer = .deletingLoad ∧ s.engine 0 = .left := by
    refine ⟨_, .tail (.tail (.tail (.tail (.tail (.single
      ⟨.put initial rfl, ?_⟩) ⟨.found _ 0 Nat.one_pos rfl rfl, ?_⟩) ⟨.add _ 0 _ rfl rfl, ?_⟩)
      ⟨.read _ 0 rfl, ?_⟩) ⟨.poll _ 1 rfl rfl, ?_⟩) ⟨.deleteSend _ rfl, ?_⟩, rfl, rfl⟩
    all_goals
      rintro e _ _ (h | h) <;> cases h
  obtain ⟨path, hsteps, hreads, hmem⟩ := hrun.exists_chain
  exact ⟨path, hsteps, (rendezvous_safe_iff initial_fresh hsteps).mpr hreads, s, hmem, hs⟩

theorem rendezvous_raises : ¬ ∀ numEngines ≥ 1, ∀ start s : RendezvousState, start.Fresh →
    Run (RendezvousStep numEngines) start s → s.Safe numEngines := by
  intro h
  have hrun := (((((Relation.ReflTransGen.single (.put initial rfl : RendezvousStep 1 _ _)).tail
    (.found _ 0 Nat.one_pos rfl rfl)).tail (.add _ 0 _ rfl rfl)).tail (.poll _ 1 rfl rfl)).tail
    (.deleteSend _ rfl)).tail (.read _ 0 rfl)
  exact (h 1 le_rfl initial _ initial_fresh hrun).raised 0 Nat.one_pos rfl

end Awex
