import Awex.Library.Runs
import Awex.MetaServer

namespace Awex

open Runs

/-- Where a client is in `barrier`: outside of it, before its `add_object_to_set`, before the next
`has_key` or `get_binary` of `wait_set_until_size`, before its `delete_if_exists`, or out of it with
a `TimeoutError`. -/
inductive BarrierPhase where
  | outside
  | adding
  | polling
  | reading
  | cleaning
  | failed
  deriving DecidableEq, Repr

structure BarrierState where
  server : MetaServer String ℕ
  phase : ℕ → BarrierPhase
  entered : ℕ → ℕ
  returned : ℕ → ℕ

namespace BarrierState

def goto (s : BarrierState) (i : ℕ) (phase : BarrierPhase) : BarrierState :=
  { s with phase := Function.update s.phase i phase }

def leave (s : BarrierState) (i : ℕ) : BarrierState :=
  { s.goto i .outside with returned := Function.update s.returned i (s.returned i + 1) }

def call (s : BarrierState) (i : ℕ) : BarrierState :=
  { s.goto i .adding with entered := Function.update s.entered i (s.entered i + 1) }

def serve (s : BarrierState) (server : MetaServer String ℕ) : BarrierState :=
  { s with server := server }

@[simp] theorem goto_phase (s : BarrierState) (i j : ℕ) (phase : BarrierPhase) :
    (s.goto i phase).phase j = if j = i then phase else s.phase j := by
  simp [goto, Function.update_apply]

@[simp] theorem goto_entered (s : BarrierState) (i : ℕ) (phase : BarrierPhase) :
    (s.goto i phase).entered = s.entered := rfl

@[simp] theorem goto_returned (s : BarrierState) (i : ℕ) (phase : BarrierPhase) :
    (s.goto i phase).returned = s.returned := rfl

@[simp] theorem leave_entered (s : BarrierState) (i : ℕ) : (s.leave i).entered = s.entered := rfl

@[simp] theorem leave_phase (s : BarrierState) (i j : ℕ) :
    (s.leave i).phase j = if j = i then .outside else s.phase j := by
  simp [leave]

@[simp] theorem leave_returned (s : BarrierState) (i j : ℕ) :
    (s.leave i).returned j = if j = i then s.returned i + 1 else s.returned j := by
  simp [leave, Function.update_apply]

@[simp] theorem call_phase (s : BarrierState) (i j : ℕ) :
    (s.call i).phase j = if j = i then .adding else s.phase j := by
  simp [call]

@[simp] theorem call_entered (s : BarrierState) (i j : ℕ) :
    (s.call i).entered j = if j = i then s.entered i + 1 else s.entered j := by
  simp [call, Function.update_apply]

@[simp] theorem call_returned (s : BarrierState) (i : ℕ) : (s.call i).returned = s.returned := rfl

@[simp] theorem serve_phase (s : BarrierState) (server : MetaServer String ℕ) : (s.serve server).phase = s.phase := rfl

@[simp] theorem serve_entered (s : BarrierState) (server : MetaServer String ℕ) :
    (s.serve server).entered = s.entered := rfl

@[simp] theorem serve_returned (s : BarrierState) (server : MetaServer String ℕ) :
    (s.serve server).returned = s.returned := rfl

@[simp] theorem serve_server (s : BarrierState) (server : MetaServer String ℕ) : (s.serve server).server = server := rfl

end BarrierState

/-- A client's next request, or its next call of `barrier`. A poll that does not find the key, or
not enough clients under it, is tried again until the time is over. -/
inductive BarrierStep (worldSize : ℕ) (key : String) : BarrierState → BarrierState → Prop where
  | enter (s : BarrierState) (i : ℕ) (hi : i < worldSize) (h : s.phase i = .outside) :
      BarrierStep worldSize key s (s.call i)
  | add (s : BarrierState) (i : ℕ) (server : MetaServer String ℕ) (h : s.phase i = .adding)
      (hadd : s.server.addObjectToSet key i = .ok server) :
      BarrierStep worldSize key s ((s.goto i .polling).serve server)
  | found (s : BarrierState) (i : ℕ) (h : s.phase i = .polling) (hkey : s.server.hasKey key = true) :
      BarrierStep worldSize key s (s.goto i .reading)
  | retry (s : BarrierState) (i n : ℕ) (h : s.phase i = .reading)
      (hlen : lenOf (s.server.getObject key (some (.members ∅))) = some n) (hn : n < worldSize) :
      BarrierStep worldSize key s (s.goto i .polling)
  | expire (s : BarrierState) (i : ℕ) (h : s.phase i = .polling) :
      BarrierStep worldSize key s (s.goto i .failed)
  | full (s : BarrierState) (i n : ℕ) (h : s.phase i = .reading)
      (hlen : lenOf (s.server.getObject key (some (.members ∅))) = some n) (hn : worldSize ≤ n) :
      BarrierStep worldSize key s (if i = 0 then s.goto i .cleaning else s.leave i)
  | clean (s : BarrierState) (h : s.phase 0 = .cleaning) :
      BarrierStep worldSize key s ((s.leave 0).serve (s.server.deleteIfExists key))

namespace BarrierState

/-- No client has called `barrier` yet, and the key is not there. -/
structure Fresh (s : BarrierState) (key : String) : Prop where
  absent : s.server.storage key = none
  outside : ∀ i, s.phase i = .outside
  entered : ∀ i, s.entered i = 0
  returned : ∀ i, s.returned i = 0

def Waiting (s : BarrierState) (i : ℕ) : Prop := s.phase i = .polling ∨ s.phase i = .reading

/-- No client has returned from a call that another one has not entered. -/
def Safe (s : BarrierState) (worldSize : ℕ) : Prop :=
  ∀ i < worldSize, ∀ j < worldSize, s.returned i ≤ s.entered j

def added (s : BarrierState) (i : ℕ) : ℕ :=
  if s.phase i = .adding then s.entered i - 1 else s.entered i

/-- The set under the key has only members of the calls after the last one that was cleaned up. -/
structure Rounds (s : BarrierState) (worldSize : ℕ) (key : String) : Prop where
  isSet : s.server.IsSetKey key
  members : ∀ i ∈ s.server.setAt key, i < worldSize ∧ s.returned 0 < s.added i
  calls : ∀ i < worldSize, s.returned 0 ≤ s.added i
  bound : ∀ i, s.returned i ≤ s.returned 0 + 1
  inside : ∀ i, s.phase i ≠ .outside → i < worldSize
  balance : ∀ i, s.entered i = s.returned i + if s.phase i = .outside then 0 else 1
  observed : ∀ i < worldSize, s.returned i = s.returned 0 + 1 ∨ s.phase 0 = .cleaning →
    ∀ j < worldSize, s.returned 0 < s.added j

variable {s s' : BarrierState} {worldSize : ℕ} {key : String}

theorem Fresh.rounds (h : s.Fresh key) : s.Rounds worldSize key := by
  refine ⟨?_, ?_, ?_, ?_, ?_, ?_, ?_⟩
  · intro obj
    simp [h.absent]
  · intro i hi
    simp [MetaServer.setAt, h.absent] at hi
  · intro i _
    simp [h.returned]
  · intro i
    simp [h.returned]
  · intro i hi
    exact absurd (h.outside i) hi
  · intro i
    simp [h.entered, h.returned, h.outside]
  · rintro i _ (hi | hi)
    · simp [h.returned] at hi
    · simp [h.outside] at hi

theorem Rounds.added_eq (h : s.Rounds worldSize key) (i : ℕ) :
    s.added i = s.returned i + if s.phase i = .outside ∨ s.phase i = .adding then 0 else 1 := by
  have := h.balance i
  unfold added
  split_ifs at * <;> simp_all

theorem added_le (s : BarrierState) (i : ℕ) : s.added i ≤ s.entered i := by
  unfold added
  split_ifs <;> omega

theorem Rounds.safe (h : s.Rounds worldSize key) : s.Safe worldSize := by
  intro i hi j hj
  have hbound := h.bound i
  have hadded := s.added_le j
  by_cases hret : s.returned i = s.returned 0 + 1
  · have := h.observed i hi (Or.inl hret) j hj
    omega
  · have := h.calls j hj
    omega

theorem added_goto (i : ℕ) (phase : BarrierPhase) (h : s.phase i ≠ .adding) (hphase : phase ≠ .adding)
    (j : ℕ) : (s.goto i phase).added j = s.added j := by
  unfold added
  rw [goto_phase, goto_entered]
  by_cases hj : j = i
  · subst hj
    simp [h, hphase]
  · simp [hj]

theorem Rounds.goto (h : s.Rounds worldSize key) {i : ℕ} {phase : BarrierPhase} (hfrom : s.phase i ≠ .adding)
    (hin : s.phase i ≠ .outside) (hphase : phase ≠ .adding) (hto : phase ≠ .outside)
    (hclean : phase = .cleaning → ∀ j < worldSize, s.returned 0 < s.added j) :
    (s.goto i phase).Rounds worldSize key := by
  have hadded := added_goto i phase hfrom hphase
  refine ⟨h.isSet, ?_, ?_, h.bound, ?_, ?_, ?_⟩
  · intro j hj
    rw [hadded]
    exact h.members j hj
  · intro j hj
    rw [hadded]
    exact h.calls j hj
  · intro j hj
    by_cases hji : j = i
    · exact h.inside j (hji ▸ hin)
    · apply h.inside j
      simpa [hji] using hj
  · intro j
    have := h.balance j
    by_cases hji : j = i
    · subst hji
      simpa [hto, hin] using this
    · simpa [hji] using this
  · intro j hj hobserved k hk
    rw [hadded]
    by_cases hcleaning : phase = .cleaning
    · exact hclean hcleaning k hk
    · apply h.observed j hj _ k hk
      rcases hobserved with hret | hphase0
      · exact Or.inl hret
      · rw [goto_phase] at hphase0
        split_ifs at hphase0
        · exact absurd hphase0 hcleaning
        · exact Or.inr hphase0

theorem added_call {i : ℕ} (h : s.phase i = .outside) (j : ℕ) : (s.call i).added j = s.added j := by
  unfold added
  by_cases hj : j = i
  · subst hj
    simp [h]
  · simp [hj]

theorem Rounds.call (h : s.Rounds worldSize key) {i : ℕ} (hi : i < worldSize) (hphase : s.phase i = .outside) :
    (s.call i).Rounds worldSize key := by
  have hadded := added_call hphase
  refine ⟨h.isSet, ?_, ?_, h.bound, ?_, ?_, ?_⟩
  · intro j hj
    rw [hadded]
    exact h.members j hj
  · intro j hj
    rw [hadded]
    exact h.calls j hj
  · intro j hj
    by_cases hji : j = i
    · omega
    · apply h.inside j
      simpa [hji] using hj
  · intro j
    have := h.balance j
    by_cases hji : j = i
    · subst hji
      simpa [hphase] using this
    · simpa [hji] using this
  · intro j hj hobserved k hk
    rw [hadded]
    apply h.observed j hj _ k hk
    rcases hobserved with hret | hcleaning
    · exact Or.inl hret
    · rw [call_phase] at hcleaning
      split_ifs at hcleaning
      exact Or.inr hcleaning

theorem Rounds.add (h : s.Rounds worldSize key) {i : ℕ} {server : MetaServer String ℕ}
    (hphase : s.phase i = .adding) (hadd : s.server.addObjectToSet key i = .ok server) :
    ((s.goto i .polling).serve server).Rounds worldSize key := by
  have hi : i < worldSize := h.inside i (by simp [hphase])
  have hbalance : s.entered i = s.returned i + 1 := by
    have := h.balance i
    simpa [hphase] using this
  have hlast : s.added i = s.returned i := by
    rw [h.added_eq, hphase]
    simp
  have hself : ((s.goto i .polling).serve server).added i = s.added i + 1 := by
    rw [hlast, ← hbalance]
    unfold added
    simp
  have hother : ∀ j ≠ i, ((s.goto i .polling).serve server).added j = s.added j := by
    intro j hj
    unfold added
    simp [hj]
  have hmono : ∀ j, s.added j ≤ ((s.goto i .polling).serve server).added j := by
    intro j
    by_cases hji : j = i
    · subst hji
      omega
    · rw [hother j hji]
  obtain ⟨server', hserver', hset, hmembers, _⟩ := MetaServer.addObjectToSet_spec h.isSet i
  obtain rfl : server' = server := Except.ok.inj (hserver'.symm.trans hadd)
  refine ⟨hset, ?_, ?_, h.bound, ?_, ?_, ?_⟩
  · intro j hj
    rw [serve_server, hmembers, Finset.mem_insert] at hj
    rcases hj with rfl | hj
    · have := h.calls j hi
      exact ⟨hi, by rw [hself]; exact Nat.lt_succ_of_le this⟩
    · obtain ⟨hjW, hlt⟩ := h.members j hj
      exact ⟨hjW, lt_of_lt_of_le hlt (hmono j)⟩
  · intro j hj
    exact (h.calls j hj).trans (hmono j)
  · intro j hj
    by_cases hji : j = i
    · omega
    · apply h.inside j
      simpa [hji] using hj
  · intro j
    have := h.balance j
    by_cases hji : j = i
    · subst hji
      simpa [hphase] using this
    · simpa [hji] using this
  · intro j hj hobserved k hk
    apply lt_of_lt_of_le _ (hmono k)
    apply h.observed j hj _ k hk
    rcases hobserved with hret | hcleaning
    · exact Or.inl hret
    · rw [serve_phase, goto_phase] at hcleaning
      split_ifs at hcleaning
      exact Or.inr hcleaning

theorem Rounds.all_added (h : s.Rounds worldSize key) {n : ℕ}
    (hlen : lenOf (s.server.getObject key (some (.members ∅))) = some n) (hn : worldSize ≤ n) :
    ∀ j < worldSize, s.returned 0 < s.added j := by
  intro j hj
  apply And.right
  apply h.members j
  apply MetaServer.mem_setAt_of_card Function.injective_id h.isSet _ hlen hn j hj
  intro i hi
  exact ⟨i, (h.members i hi).1, rfl⟩

theorem Rounds.leave (h : s.Rounds worldSize key) {i : ℕ} (hi : i ≠ 0) (hphase : s.phase i = .reading)
    (hall : ∀ j < worldSize, s.returned 0 < s.added j) (hafter : s.entered i ≤ s.returned 0 + 1) :
    (s.leave i).Rounds worldSize key := by
  have hadded : ∀ j, (s.leave i).added j = s.added j :=
    added_goto i .outside (by simp [hphase]) (by simp)
  have hret : (s.leave i).returned 0 = s.returned 0 := by
    simp [Ne.symm hi]
  have hbalance : s.entered i = s.returned i + 1 := by
    have := h.balance i
    simpa [hphase] using this
  refine ⟨h.isSet, ?_, ?_, ?_, ?_, ?_, ?_⟩
  · intro j hj
    rw [hadded, hret]
    exact h.members j hj
  · intro j hj
    rw [hadded, hret]
    exact h.calls j hj
  · intro j
    rw [hret, leave_returned]
    split_ifs with hji
    · omega
    · exact h.bound j
  · intro j hj
    by_cases hji : j = i
    · exact h.inside j (by simp [hji, hphase])
    · apply h.inside j
      simpa [hji] using hj
  · intro j
    have := h.balance j
    by_cases hji : j = i
    · subst hji
      simpa [hphase] using this
    · simpa [hji] using this
  · intro j _ _ k hk
    rw [hadded, hret]
    exact hall k hk

theorem Rounds.clean (h : s.Rounds worldSize key) (hphase : s.phase 0 = .cleaning) :
    ((s.leave 0).serve (s.server.deleteIfExists key)).Rounds worldSize key := by
  have hpos : 0 < worldSize := h.inside 0 (by simp [hphase])
  have hall := h.observed 0 hpos (Or.inr hphase)
  have hadded : ∀ j, ((s.leave 0).serve (s.server.deleteIfExists key)).added j = s.added j :=
    added_goto 0 .outside (by simp [hphase]) (by simp)
  have hret : ∀ j, ((s.leave 0).serve (s.server.deleteIfExists key)).returned j =
      if j = 0 then s.returned 0 + 1 else s.returned j := leave_returned s 0
  refine ⟨MetaServer.deleteIfExists_isSetKey _ _, ?_, ?_, ?_, ?_, ?_, ?_⟩
  · intro j hj
    rw [serve_server, MetaServer.deleteIfExists_setAt] at hj
    simp at hj
  · intro j hj
    rw [hadded, hret]
    exact hall j hj
  · intro j
    have := h.bound j
    rw [hret, hret, if_pos rfl]
    split_ifs <;> omega
  · intro j hj
    by_cases hj0 : j = 0
    · omega
    · apply h.inside j
      simpa [hj0] using hj
  · intro j
    have := h.balance j
    by_cases hj0 : j = 0
    · subst hj0
      simpa [hphase] using this
    · simpa [hj0] using this
  · rintro j _ (hnext | hcleaning)
    · have := h.bound j
      rw [hret, hret, if_pos rfl] at hnext
      split_ifs at hnext <;> omega
    · simp at hcleaning

end BarrierState

/-- No client calls `barrier` twice. -/
def OneCall (_ s' : BarrierState) : Prop := ∀ i, s'.entered i ≤ 1

/-- A client finds all members in a call only after client 0 has cleaned up the call before. -/
def ReadsAfterCleaning (s s' : BarrierState) : Prop :=
  ∀ i, s.phase i = .reading → s'.phase i = .outside → s.entered i ≤ s.returned 0 + 1

namespace BarrierState

variable {s s' : BarrierState} {worldSize : ℕ} {key : String}

theorem Rounds.step (h : s.Rounds worldSize key)
    (hstep : Under (BarrierStep worldSize key) ReadsAfterCleaning s s') : s'.Rounds worldSize key := by
  obtain ⟨hstep, hafter⟩ := hstep
  cases hstep with
  | enter i hi hphase => exact h.call hi hphase
  | add i server hphase hadd => exact h.add hphase hadd
  | found i hphase _ => apply h.goto <;> simp [hphase]
  | retry i n hphase _ _ => apply h.goto <;> simp [hphase]
  | expire i hphase => apply h.goto <;> simp [hphase]
  | full i n hphase hlen hn =>
    have hall := h.all_added hlen hn
    split_ifs with hi
    · apply h.goto <;> simp [hphase]
      exact hall
    · apply h.leave hi hphase hall
      apply hafter i hphase
      simp [hi]
  | clean hphase => exact h.clean hphase

theorem Rounds.reads_after_cleaning (h : s.Rounds worldSize key) (hstep : BarrierStep worldSize key s s')
    (hsafe : s'.Safe worldSize) : ReadsAfterCleaning s s' := by
  intro i hreading houtside
  have hi : i < worldSize := h.inside i (by simp [hreading])
  have hzero := h.balance 0
  have hbalance := h.balance i
  rw [if_neg (by simp [hreading])] at hbalance
  cases hstep with
  | full j n hphase _ _ =>
    by_cases hj : j = 0
    · rw [if_pos hj, goto_phase] at houtside
      split_ifs at houtside
      simp [hreading] at houtside
    · rw [if_neg hj] at houtside hsafe
      by_cases hij : i = j
      · subst hij
        have := hsafe i hi 0 (by omega)
        simp only [leave_returned, leave_entered, if_true] at this
        split_ifs at hzero <;> omega
      · simp [hij, hreading] at houtside
  | enter j _ _ =>
    rw [call_phase] at houtside
    split_ifs at houtside
    simp [hreading] at houtside
  | add j _ _ _ =>
    rw [serve_phase, goto_phase] at houtside
    split_ifs at houtside
    simp [hreading] at houtside
  | clean hphase =>
    rw [serve_phase, leave_phase] at houtside
    split_ifs at houtside with hi0
    · subst hi0
      simp [hreading] at hphase
    · simp [hreading] at houtside
  | found j _ _ | retry j _ _ _ _ | expire j _ =>
    rw [goto_phase] at houtside
    split_ifs at houtside
    simp [hreading] at houtside

theorem entered_mono (hstep : BarrierStep worldSize key s s') (i : ℕ) : s.entered i ≤ s'.entered i := by
  cases hstep with
  | enter j _ _ =>
    rw [call_entered]
    split_ifs with hij
    · subst hij
      omega
    · exact le_refl _
  | full j n _ _ _ => split_ifs <;> exact le_refl _
  | _ => exact le_refl _

theorem readsAfterCleaning_of_oneCall (hstep : BarrierStep worldSize key s s') (h : OneCall s s') :
    ReadsAfterCleaning s s' := by
  intro i _ _
  have := entered_mono hstep i
  have := h i
  omega

def initial : BarrierState := ⟨⟨fun _ => none⟩, fun _ => .outside, fun _ => 0, fun _ => 0⟩

theorem initial_fresh (key : String) : initial.Fresh key :=
  ⟨rfl, fun _ => rfl, fun _ => rfl, fun _ => rfl⟩

def oneAdded : BarrierState :=
  ((initial.call 0).goto 0 .polling).serve (initial.server.store "barrier" (some (.members {0})))

def bothAdded : BarrierState :=
  ((oneAdded.call 1).goto 1 .polling).serve (oneAdded.server.store "barrier" (some (.members {1, 0})))

theorem run_bothAdded :
    Run (Under (BarrierStep 2 "barrier") fun s s' => OneCall s s' ∧ s.phase 0 ≠ .cleaning)
      initial bothAdded := by
  have hone : Run (Under (BarrierStep 2 "barrier") fun s s' => OneCall s s' ∧ s.phase 0 ≠ .cleaning)
      initial oneAdded := by
    refine .tail (.single ⟨.enter _ 0 (by decide) rfl, ?_, by decide⟩) ⟨.add _ 0 _ rfl rfl, ?_, by decide⟩
    all_goals
      intro i
      simp [initial, oneAdded]
      split_ifs <;> omega
  refine .tail (.tail hone ⟨.enter _ 1 (by decide) rfl, ?_, by decide⟩) ⟨.add _ 1 _ rfl rfl, ?_, by decide⟩
  all_goals
    intro i
    simp [initial, oneAdded, bothAdded]
    split_ifs <;> omega

end BarrierState

/-- The runs that never let a client out too early are those in which no client finds all members
of a call that client 0 has still to clean up. -/
theorem barrier_safe_iff {worldSize : ℕ} {key : String} {start : BarrierState} (hstart : start.Fresh key)
    {path : List BarrierState} (hrun : (start :: path).IsChain (BarrierStep worldSize key)) :
    (∀ s ∈ start :: path, s.Safe worldSize) ↔ (start :: path).IsChain ReadsAfterCleaning := by
  apply chain_iff (I := (BarrierState.Rounds · worldSize key)) _ _ _ hstart.rounds hrun
  · intro s h
    exact h.safe
  · intro s s' h hstep hafter
    exact h.step ⟨hstep, hafter⟩
  · intro s s' h hstep hsafe
    exact h.reads_after_cleaning hstep hsafe

open BarrierState

theorem barrier_safe_iff_bothAdded : ∃ path, (initial :: path).IsChain (BarrierStep 2 "barrier") ∧
    (∀ s ∈ initial :: path, s.Safe 2) ∧ bothAdded ∈ initial :: path := by
  have hrun : Run (Under (BarrierStep 2 "barrier") ReadsAfterCleaning) initial bothAdded :=
    run_bothAdded.mono fun _ _ h => ⟨h.1, readsAfterCleaning_of_oneCall h.1 h.2.1⟩
  obtain ⟨path, hsteps, hafter, hmem⟩ := hrun.exists_chain
  exact ⟨path, hsteps, (barrier_safe_iff (initial_fresh "barrier") hsteps).mpr hafter, hmem⟩

theorem barrier_reuse_unsafe : ¬ ∀ worldSize ≥ 2, ∀ (key : String) (start s : BarrierState), start.Fresh key →
    Run (BarrierStep worldSize key) start s → s.Safe worldSize := by
  intro h
  have hbase : Run (BarrierStep 2 "barrier") initial bothAdded := run_bothAdded.mono fun _ _ => And.left
  have hrun := ((((((hbase.tail (.found _ 1 rfl rfl)).tail (.full _ 1 2 rfl rfl (by decide))).tail
    (.enter _ 1 (by decide) rfl)).tail (.add _ 1 _ rfl rfl)).tail (.found _ 1 rfl rfl)).tail
    (.full _ 1 2 rfl rfl (by decide)))
  have := h 2 (by decide) "barrier" initial _ (initial_fresh _) hrun 1 (by decide) 0 (by decide)
  revert this
  decide

/-- Client 0 cleans the key up only when no other client is still waiting. -/
def CleansLast (s s' : BarrierState) : Prop :=
  s.phase 0 = .cleaning → s'.phase 0 = .outside → ∀ i, ¬ s.Waiting i

namespace BarrierState

/-- A client that waits while all have added themselves finds the key, and all of them under it. -/
def WakesUp (s : BarrierState) (worldSize : ℕ) (key : String) : Prop :=
  (∀ i < worldSize, 0 < s.added i) → ∀ i, s.Waiting i → s.server.hasKey key = true ∧
    lenOf (s.server.getObject key (some (.members ∅))) = some worldSize

/-- No client has called `barrier` twice, and none is left waiting when the key is cleaned up. -/
structure Once (s : BarrierState) (worldSize : ℕ) (key : String) : Prop where
  rounds : s.Rounds worldSize key
  entered : ∀ i, s.entered i ≤ 1
  kept : s.returned 0 = 0 → ∀ i, 0 < s.added i → i ∈ s.server.setAt key
  cleaned : 0 < s.returned 0 → ∀ i, ¬ s.Waiting i

variable {s s' : BarrierState} {worldSize : ℕ} {key : String}

theorem Fresh.once (h : s.Fresh key) : s.Once worldSize key := by
  refine ⟨h.rounds, ?_, ?_, ?_⟩
  · intro i
    simp [h.entered]
  · intro _ i hi
    simp [added, h.entered] at hi
  · intro hpos
    simp [h.returned] at hpos

theorem returned_zero (hstep : BarrierStep worldSize key s s') :
    s'.returned 0 = s.returned 0 ∨ s.phase 0 = .cleaning ∧ s' = (s.leave 0).serve (s.server.deleteIfExists key) := by
  cases hstep with
  | full j n _ _ _ =>
    left
    split_ifs with hj
    · rfl
    · simp [Ne.symm hj]
  | clean hphase => exact Or.inr ⟨hphase, rfl⟩
  | _ => exact Or.inl rfl

theorem waiting_step (hstep : BarrierStep worldSize key s s') {i : ℕ} (h : s'.Waiting i) :
    s.Waiting i ∨ s.phase i = .adding := by
  unfold Waiting at *
  cases hstep with
  | enter j _ _ =>
    rw [call_phase] at h
    split_ifs at h
    · simp at h
    · exact Or.inl h
  | add j _ hphase _ =>
    rw [serve_phase, goto_phase] at h
    split_ifs at h with hij
    · subst hij
      exact Or.inr hphase
    · exact Or.inl h
  | found j hphase _ | retry j _ hphase _ _ | expire j hphase =>
    rw [goto_phase] at h
    split_ifs at h with hij
    · subst hij
      simp [hphase]
    · exact Or.inl h
  | full j n hphase _ _ =>
    by_cases hij : i = j
    · subst hij
      exact Or.inl (Or.inr hphase)
    · left
      split_ifs at h <;> simpa [hij] using h
  | clean _ =>
    rw [serve_phase, leave_phase] at h
    split_ifs at h
    · simp at h
    · exact Or.inl h

theorem Rounds.kept_step (h : s.Rounds worldSize key) (hstep : BarrierStep worldSize key s s')
    (hzero : s'.returned 0 = 0) (hkept : ∀ i, 0 < s.added i → i ∈ s.server.setAt key) :
    ∀ i, 0 < s'.added i → i ∈ s'.server.setAt key := by
  cases hstep with
  | enter j hj hphase =>
    intro i hi
    rw [added_call hphase] at hi
    exact hkept i hi
  | add j server hphase hadd =>
    obtain ⟨server', hserver', _, hmembers, _⟩ := MetaServer.addObjectToSet_spec h.isSet j
    obtain rfl : server' = server := Except.ok.inj (hserver'.symm.trans hadd)
    intro i hi
    rw [serve_server, hmembers, Finset.mem_insert]
    by_cases hij : i = j
    · exact Or.inl hij
    · right
      apply hkept
      simpa [added, hij] using hi
  | found j hphase _ | retry j _ hphase _ _ | expire j hphase =>
    intro i hi
    rw [added_goto j _ (by simp [hphase]) (by simp)] at hi
    exact hkept i hi
  | full j n hphase _ _ =>
    intro i hi
    split_ifs at hi ⊢ with hj
    · rw [added_goto j _ (by simp [hphase]) (by simp)] at hi
      exact hkept i hi
    · have hadded := added_goto (s := s) j .outside (by simp [hphase]) (by simp) i
      exact hkept i (hadded ▸ hi)
  | clean _ => simp at hzero

theorem Once.step (h : s.Once worldSize key)
    (hstep : Under (Under (BarrierStep worldSize key) OneCall) CleansLast s s') : s'.Once worldSize key := by
  obtain ⟨⟨hstep, hcall⟩, hlast⟩ := hstep
  have hreads := readsAfterCleaning_of_oneCall hstep hcall
  refine ⟨h.rounds.step ⟨hstep, hreads⟩, hcall, ?_, ?_⟩
  · intro hzero
    rcases returned_zero hstep with hsame | ⟨_, rfl⟩
    · exact h.rounds.kept_step hstep hzero (h.kept (hsame ▸ hzero))
    · simp at hzero
  · intro hpos i hwait
    rcases returned_zero hstep with hsame | ⟨hcleaning, rfl⟩
    · rcases waiting_step hstep hwait with hwas | hadding
      · exact h.cleaned (hsame ▸ hpos) i hwas
      · have hi := h.rounds.inside i (by simp [hadding])
        have hcalls := h.rounds.calls i hi
        have := h.entered i
        simp only [added, hadding, if_true] at hcalls
        omega
    · rcases waiting_step hstep hwait with hwas | hadding
      · exact hlast hcleaning (by simp) i hwas
      · have hi := h.rounds.inside i (by simp [hadding])
        have hobserved := h.rounds.observed i hi (Or.inr hcleaning) i hi
        have := h.entered i
        simp only [added, hadding, if_true] at hobserved
        omega

theorem Once.wakes_up (h : s.Once worldSize key) : s.WakesUp worldSize key := by
  intro hadded i hwait
  have hzero : s.returned 0 = 0 := by
    by_contra hne
    exact h.cleaned (by omega) i hwait
  have hset : s.server.setAt key = Finset.range worldSize := by
    apply Finset.ext
    intro j
    rw [Finset.mem_range]
    constructor
    · intro hj
      exact (h.rounds.members j hj).1
    · intro hj
      exact h.kept hzero j (hadded j hj)
  have hi : i < worldSize := by
    apply h.rounds.inside i
    rcases hwait with hp | hp <;> simp [hp]
  have hmem : i ∈ s.server.setAt key := by
    rw [hset]
    exact Finset.mem_range.mpr hi
  constructor
  · simp [MetaServer.hasKey, MetaServer.storage_eq_of_mem hmem]
  · rw [MetaServer.lenOf_getObject h.rounds.isSet, hset, Finset.card_range]

theorem Once.cleans_last (h : s.Once worldSize key) (hstep : BarrierStep worldSize key s s')
    (hwakes : s'.WakesUp worldSize key) : CleansLast s s' := by
  intro hcleaning houtside i hwait
  have hpos : 0 < worldSize := h.rounds.inside 0 (by simp [hcleaning])
  have hall := h.rounds.observed 0 hpos (Or.inr hcleaning)
  rcases returned_zero hstep with hsame | ⟨_, rfl⟩
  · have hbalance := h.rounds.step ⟨hstep, fun j _ _ => by have := h.entered j; omega⟩ |>.balance 0
    have hbalance' := h.rounds.balance 0
    have := entered_mono hstep 0
    rw [if_neg (by simp [hcleaning])] at hbalance'
    rw [if_pos houtside] at hbalance
    omega
  · have hi0 : i ≠ 0 := by
      rintro rfl
      rcases hwait with hp | hp <;> simp [hcleaning] at hp
    have hadded : ∀ j, ((s.leave 0).serve (s.server.deleteIfExists key)).added j = s.added j :=
      added_goto 0 .outside (by simp [hcleaning]) (by simp)
    obtain ⟨hkey, _⟩ := hwakes (fun j hj => by have := hall j hj; rw [hadded]; omega) i
      (by simpa [Waiting, hi0] using hwait)
    simp [MetaServer.hasKey] at hkey

end BarrierState

/-- The runs with one call of each client that keep the full set for all that wait are those in
which client 0 cleans up last. -/
theorem barrier_wakes_up_iff {worldSize : ℕ} {key : String} {start : BarrierState} (hstart : start.Fresh key)
    {path : List BarrierState} (hrun : (start :: path).IsChain (Under (BarrierStep worldSize key) OneCall)) :
    (∀ s ∈ start :: path, s.WakesUp worldSize key) ↔ (start :: path).IsChain CleansLast := by
  apply chain_iff (I := (BarrierState.Once · worldSize key)) _ _ _ hstart.once hrun
  · intro s h
    exact h.wakes_up
  · intro s s' h hstep hlast
    exact h.step ⟨hstep, hlast⟩
  · intro s s' h hstep hwakes
    exact h.cleans_last hstep.1 hwakes

theorem barrier_wakes_up_iff_bothAdded :
    ∃ path, (initial :: path).IsChain (Under (BarrierStep 2 "barrier") OneCall) ∧
      (∀ s ∈ initial :: path, s.WakesUp 2 "barrier") ∧ bothAdded ∈ initial :: path := by
  have hrun : Run (Under (Under (BarrierStep 2 "barrier") OneCall) CleansLast) initial bothAdded :=
    run_bothAdded.mono fun _ _ h => ⟨⟨h.1, h.2.1⟩, fun hcleaning => absurd hcleaning h.2.2⟩
  obtain ⟨path, hsteps, hlast, hmem⟩ := hrun.exists_chain
  exact ⟨path, hsteps, (barrier_wakes_up_iff (initial_fresh "barrier") hsteps).mpr hlast, hmem⟩

theorem barrier_wake_up_lost : ¬ ∀ worldSize ≥ 2, ∀ (key : String) (start s : BarrierState), start.Fresh key →
    Run (Under (BarrierStep worldSize key) OneCall) start s → s.WakesUp worldSize key := by
  intro h
  have hbase : Run (Under (BarrierStep 2 "barrier") OneCall) initial bothAdded :=
    run_bothAdded.mono fun _ _ h => ⟨h.1, h.2.1⟩
  have hentered : OneCall bothAdded bothAdded := by
    intro i
    simp [initial, oneAdded, bothAdded]
    split_ifs <;> omega
  have hrun := ((hbase.tail ⟨.found _ 0 rfl rfl, hentered⟩).tail ⟨.full _ 0 2 rfl rfl (by decide), hentered⟩).tail
    ⟨.clean _ rfl, hentered⟩
  obtain ⟨hkey, _⟩ := h 2 (by decide) "barrier" initial _ (initial_fresh _) hrun (by decide) 1 (Or.inl rfl)
  revert hkey
  decide

end Awex
