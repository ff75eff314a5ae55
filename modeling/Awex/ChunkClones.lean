import Awex.ChunkAgreement
import Awex.Library.Budgets

namespace Awex

open PeerLists

variable {α : Type}

def Handed.cloneSizes (itemsize : Dtype → ℕ) (h : Handed) : List ℕ :=
  h.sendOps.entries.flatMap (fun e => e.2.map (fun built => built.2.tensor.numel * itemsize built.2.tensor.dtype))

/-- No more than `chunkBytes`, or one clone. -/
def StagingBounded (itemsize : Dtype → ℕ) (chunkBytes : ℤ) (h : Handed) : Prop :=
  ((h.cloneSizes itemsize).sum : ℤ) ≤ max chunkBytes ((h.cloneSizes itemsize).foldr max 0 : ℕ)

/-- The largest number of operations, but at least one, such that as many samples of every rank fit
in a chunk. -/
structure ChunkStep (worldSize : ℕ) (chunkBytes : ℤ) (lists : ℕ → PeerLists) (k : ℕ) : Prop where
  pos : 1 ≤ k
  fits : k = 1 ∨ ∀ a < worldSize, SampleFits chunkBytes (lists a) k
  largest : ∀ j, (∀ a < worldSize, SampleFits chunkBytes (lists a) j) → j ≤ k

theorem ChunkStep.unique {worldSize : ℕ} {chunkBytes : ℤ} {lists : ℕ → PeerLists} {k k' : ℕ}
    (h : ChunkStep worldSize chunkBytes lists k) (h' : ChunkStep worldSize chunkBytes lists k') : k = k' := by
  have hpos := h.pos
  have hpos' := h'.pos
  rcases h.fits with hk | hk
  · rcases h'.fits with hk' | hk'
    · omega
    · have := h.largest k' hk'
      omega
  · have hle := h'.largest k hk
    rcases h'.fits with hk' | hk'
    · omega
    · have := h.largest k' hk'
      omega

namespace ColocateUpdate

variable (u : ColocateUpdate) (itemsize : Dtype → ℕ)

def peerLists : PeerLists := ⟨u.sendLists, u.recvLists⟩

def wireBytes (op : CommunicationOperation) : ℕ := (u.sendView op).numel * itemsize op.recvShardMeta.dtype

def windowBytes (stepSize chunkIdx : ℕ) : List ℕ :=
  u.sendLists.keys.flatMap (fun p => (chunk stepSize chunkIdx (u.toPeer p)).map (u.wireBytes itemsize))

variable {u} {cast : Dtype → Dtype → α → α}

theorem SentAs.bytes {m₀ m : Memory α} {op : CommunicationOperation} {built : BuiltOp}
    (h : u.SentAs cast m₀ m op built) :
    built.2.tensor.numel * itemsize built.2.tensor.dtype = u.wireBytes itemsize op := by
  have hmessage := h.message
  rw [planMessage, Message.mk.injEq] at hmessage
  have hlength := congrArg List.length hmessage.2
  rw [m.length_read, List.length_map, m₀.length_read] at hlength
  rw [wireBytes, hmessage.1, hlength]

theorem HandedFor.cloneSizes_perm {m₀ m : Memory α} {recvs : ℕ → List CommunicationOperation} {stepSize chunkIdx : ℕ}
    {handed : Handed} (h : u.HandedFor cast m₀ m (fun p => chunk stepSize chunkIdx (u.toPeer p)) recvs handed) :
    (handed.cloneSizes itemsize).Perm (u.windowBytes itemsize stepSize chunkIdx) := by
  have hpeer : ∀ p, (handed.sendOps.getD p []).map
      (fun built => built.2.tensor.numel * itemsize built.2.tensor.dtype) =
        (chunk stepSize chunkIdx (u.toPeer p)).map (u.wireBytes itemsize) := by
    intro p
    apply (map_eq_of_forall₂ _).symm
    exact (h.send p).imp (fun _ _ hs => (hs.bytes itemsize).symm)
  have hkeys : handed.cloneSizes itemsize = handed.sendOps.keys.flatMap
      (fun p => (chunk stepSize chunkIdx (u.toPeer p)).map (u.wireBytes itemsize)) := by
    rw [Handed.cloneSizes, Dict.keys, List.flatMap_map]
    apply List.flatMap_congr
    intro e he
    rw [← hpeer, Dict.getD, (Dict.get?_eq_some _ e.1 e.2).mpr he, Option.getD_some]
  rw [hkeys, windowBytes]
  apply Budgets.flatMap_perm_of_support handed.sendOps.nodup u.sendLists.nodup
  intro p hp
  have hkey : ∀ {β : Type} (d : Dict ℕ (List β)), d.getD p [] ≠ [] → p ∈ d.keys := by
    intro β d hne
    rw [Dict.mem_keys]
    cases hget : d.get? p with
    | none => simp [Dict.getD, hget] at hne
    | some ops => rfl
  constructor
  · apply hkey
    intro hnil
    rw [← hpeer, hnil] at hp
    exact hp rfl
  · apply hkey
    intro hnil
    rw [toPeer, hnil, chunk_nil] at hp
    exact hp rfl

variable (u) in
/-- The planned bytes of a chunk fit, or belong to one operation. -/
def WindowFits (chunkBytes : ℤ) (stepSize chunkIdx : ℕ) : Prop :=
  ((u.windowBytes itemsize stepSize chunkIdx).sum : ℤ) ≤ chunkBytes ∨
    ((u.windowBytes itemsize stepSize chunkIdx).filter (· ≠ 0)).length ≤ 1

theorem stagingBounded_iff {m₀ m : Memory α} {recvs : ℕ → List CommunicationOperation} {stepSize chunkIdx : ℕ}
    {handed : Handed} (h : u.HandedFor cast m₀ m (fun p => chunk stepSize chunkIdx (u.toPeer p)) recvs handed)
    (chunkBytes : ℤ) :
    StagingBounded itemsize chunkBytes handed ↔ u.WindowFits itemsize chunkBytes stepSize chunkIdx := by
  have hperm := h.cloneSizes_perm itemsize
  rw [StagingBounded, Budgets.sum_le_max_iff, hperm.sum_eq, (hperm.filter _).length_eq, WindowFits]

theorem windowFits_of_covered {stepSize n chunkIdx : ℕ} (hcover : ∀ p, (u.toPeer p).length ≤ n * stepSize)
    (hn : n ≤ chunkIdx) (chunkBytes : ℤ) : u.WindowFits itemsize chunkBytes stepSize chunkIdx := by
  have hnil : u.windowBytes itemsize stepSize chunkIdx = [] := by
    apply List.flatMap_eq_nil_iff.mpr
    intro p _
    have hdrop : (u.toPeer p).drop (chunkIdx * stepSize) = [] :=
      List.drop_eq_nil_of_le ((hcover p).trans (Nat.mul_le_mul_right stepSize hn))
    rw [chunk, hdrop, List.take_nil, List.map_nil]
  right
  rw [hnil]
  exact Nat.zero_le 1

theorem runChunked_bounded_iff (hs : u.Sliceable) (hk : u.SendKeyed) (hp : u.SelfPaired) {stepSize n : ℕ}
    (hcover : ∀ p, (u.toPeer p).length ≤ n * stepSize) {l : Link α} {o : Outcome α}
    (hrun : u.runChunked cast stepSize n l = .ok o) (chunkBytes : ℤ) :
    (∀ h ∈ o.handed, StagingBounded itemsize chunkBytes h) ↔
      ∀ chunkIdx, u.WindowFits itemsize chunkBytes stepSize chunkIdx := by
  obtain ⟨writes, context, -, hdone⟩ := chunked_done hs hk hp hrun
  constructor
  · intro hbounded chunkIdx
    rcases Nat.lt_or_ge chunkIdx n with hlt | hge
    · obtain ⟨handed, hmem, m, hhanded⟩ := exists_of_forall₂_mem hdone.handed (List.mem_range.mpr hlt)
      exact (stagingBounded_iff itemsize hhanded chunkBytes).mp (hbounded handed hmem)
    · exact windowFits_of_covered itemsize hcover hge chunkBytes
  · intro hfits handed hmem
    obtain ⟨chunkIdx, -, m, hhanded⟩ := exists_of_forall₂_mem_right hdone.handed hmem
    exact (stagingBounded_iff itemsize hhanded chunkBytes).mpr (hfits chunkIdx)

variable (u) in
/-- What one operation for every peer can clone. -/
def stepCost : ℕ :=
  (u.sendLists.keys.map (fun p => ((u.toPeer p).map (u.wireBytes itemsize)).foldr max 0)).sum

variable (u) in
/-- The sample is counted with what one operation for every peer can clone. -/
structure SampleCovers (chunkBytes : ℤ) : Prop where
  counted : ∀ op, u.peerLists.sampleOp? = some op → u.stepCost itemsize ≤ perOpBytes op
  single : u.sendLists.keys.length ≤ 1 ∨ (u.stepCost itemsize : ℤ) ≤ chunkBytes

theorem windowBytes_sum_le (stepSize chunkIdx : ℕ) :
    (u.windowBytes itemsize stepSize chunkIdx).sum ≤ stepSize * u.stepCost itemsize := by
  have hpeer : ∀ p, ((chunk stepSize chunkIdx (u.toPeer p)).map (u.wireBytes itemsize)).sum ≤
      stepSize * ((u.toPeer p).map (u.wireBytes itemsize)).foldr max 0 := by
    intro p
    have hbound : ∀ n ∈ (chunk stepSize chunkIdx (u.toPeer p)).map (u.wireBytes itemsize),
        n ≤ ((u.toPeer p).map (u.wireBytes itemsize)).foldr max 0 := by
      intro n hn
      obtain ⟨op, hop, rfl⟩ := List.mem_map.mp hn
      exact le_foldr_max (List.mem_map_of_mem (mem_of_mem_chunk hop))
    have hlength : ((chunk stepSize chunkIdx (u.toPeer p)).map (u.wireBytes itemsize)).length ≤ stepSize := by
      rw [List.length_map]
      exact List.length_take_le stepSize _
    exact (List.sum_le_card_nsmul _ _ hbound).trans (Nat.mul_le_mul_right _ hlength)
  rw [windowBytes, stepCost]
  induction u.sendLists.keys with
  | nil => exact Nat.zero_le _
  | cons p ps ih =>
    rw [List.flatMap_cons, List.sum_append, List.map_cons, List.sum_cons, Nat.mul_add]
    exact Nat.add_le_add (hpeer p) ih

theorem windowFits_of_covers {worldSize : ℕ} {chunkBytes : ℤ} {lists : ℕ → PeerLists} {k : ℕ}
    (hstep : ChunkStep worldSize chunkBytes lists k) {a : ℕ} (ha : a < worldSize) (hlists : lists a = u.peerLists)
    (hcovers : u.SampleCovers itemsize chunkBytes) (chunkIdx : ℕ) : u.WindowFits itemsize chunkBytes k chunkIdx := by
  have hsum := windowBytes_sum_le (u := u) itemsize k chunkIdx
  rcases hstep.fits with rfl | hall
  · rcases hcovers.single with hpeer | hcost
    · have hlength : (u.windowBytes itemsize 1 chunkIdx).length ≤ 1 := by
        rw [windowBytes]
        rcases hkeys : u.sendLists.keys with _ | ⟨p, _ | ⟨q, ps⟩⟩
        · exact Nat.zero_le 1
        · rw [List.flatMap_singleton, List.length_map]
          exact List.length_take_le 1 _
        · simp [hkeys] at hpeer
      exact .inr ((List.length_filter_le _ _).trans hlength)
    · left
      omega
  · left
    obtain ⟨op, hop, hle⟩ := hall a ha
    rw [hlists] at hop
    have hmul : (u.windowBytes itemsize k chunkIdx).sum ≤ k * perOpBytes op :=
      hsum.trans (Nat.mul_le_mul_left k (hcovers.counted op hop))
    have hcast : ((u.windowBytes itemsize k chunkIdx).sum : ℤ) ≤ (k * perOpBytes op : ℕ) := Int.ofNat_le.mpr hmul
    rw [Nat.cast_mul] at hcast
    exact hcast.trans hle

end ColocateUpdate

theorem negotiatedStep_chunkStep {worldSize : ℕ} {allReduce : AllReduce} {env : String} {chunkBytes : ℤ}
    {lists : ℕ → PeerLists} (hreduce : allReduce.Succeeds worldSize) (henv : readChunkOps env = .unset)
    (hfits : ∀ a < worldSize, ¬ SampleFits chunkBytes (lists a) (2 ^ 63)) {a : ℕ} (ha : a < worldSize) :
    ChunkStep worldSize chunkBytes lists (negotiatedStep allReduce env chunkBytes lists a) := by
  obtain ⟨c, hc, hleast, hall⟩ := negotiatedStep_of_fits hreduce henv
    (fun a ha => (not_sampleFits_iff chunkBytes (lists a)).mp (hfits a ha)) (Nat.zero_lt_of_lt ha)
  rw [hall a ha]
  have hpos := localStepSize_pos chunkBytes (lists c)
  refine ⟨hpos, ?_, ?_⟩
  · rcases Nat.lt_or_ge ((lists c).localStepSize chunkBytes) 2 with hone | htwo
    · left
      omega
    · right
      intro b hb
      exact (le_localStepSize_iff chunkBytes (lists b) htwo).mp (hleast b hb)
  · intro j hj
    rcases Nat.lt_or_ge j 2 with hone | htwo
    · omega
    · exact (le_localStepSize_iff chunkBytes (lists c) htwo).mpr (hj c hc)

theorem stagingBounded_windows_iff (itemsize : Dtype → ℕ) (cast : Dtype → Dtype → α → α) {worldSize : ℕ}
    {u : ℕ → ColocateUpdate} {allReduce : AllReduce} {env : String} {chunkBytes : ℤ}
    (hreduce : allReduce.Succeeds worldSize) (henv : readChunkOps env = .unset)
    (hfits : ∀ b < worldSize, ¬ SampleFits chunkBytes (u b).peerLists (2 ^ 63))
    (hlists : ∀ b < worldSize, maxLength (u b).sendLists < 2 ^ 63 ∧ maxLength (u b).recvLists < 2 ^ 63)
    {a : ℕ} (ha : a < worldSize) (hs : (u a).Sliceable) (hk : (u a).SendKeyed) (hp : (u a).SelfPaired)
    {l : Link α} {o : Outcome α}
    (hrun : (u a).runChunked cast (negotiatedStep allReduce env chunkBytes (fun b => (u b).peerLists) a)
      (negotiatedChunks allReduce env chunkBytes (fun b => (u b).peerLists) a) l = .ok o) :
    (∀ h ∈ o.handed, StagingBounded itemsize chunkBytes h) ↔
      ∀ k, ChunkStep worldSize chunkBytes (fun b => (u b).peerLists) k →
        ∀ chunkIdx, (u a).WindowFits itemsize chunkBytes k chunkIdx := by
  have hstep := negotiatedStep_chunkStep hreduce henv hfits ha
  obtain ⟨c, hc, -, hall⟩ := negotiatedStep_of_fits hreduce henv
    (fun b hb => (not_sampleFits_iff chunkBytes (u b).peerLists).mp (hfits b hb)) (Nat.zero_lt_of_lt ha)
  obtain ⟨stepSize, nChunks, -, hagreed⟩ := agreed_of_step hreduce hlists
    (localStepSize_pos chunkBytes (u c).peerLists) hall
  obtain ⟨hstepSize, hnChunks, hcover⟩ := hagreed a ha
  rw [ColocateUpdate.runChunked_bounded_iff itemsize hs hk hp (fun p => by
    rw [hstepSize, hnChunks]
    exact (hcover p).1) hrun chunkBytes]
  constructor
  · intro h k hk
    rwa [hk.unique hstep]
  · intro h
    exact h _ hstep

/-- The bound holds where a step of the sample's counted size covers every peer. What is left is a matter of the sizes
that happen to meet in one chunk. -/
theorem chunkClones_bounded (itemsize : Dtype → ℕ) (cast : Dtype → Dtype → α → α) {worldSize : ℕ}
    {u : ℕ → ColocateUpdate} {allReduce : AllReduce} {env : String} {chunkBytes : ℤ}
    (hreduce : allReduce.Succeeds worldSize) (henv : readChunkOps env = .unset)
    (hfits : ∀ b < worldSize, ¬ SampleFits chunkBytes (u b).peerLists (2 ^ 63))
    (hlists : ∀ b < worldSize, maxLength (u b).sendLists < 2 ^ 63 ∧ maxLength (u b).recvLists < 2 ^ 63)
    {a : ℕ} (ha : a < worldSize) (hs : (u a).Sliceable) (hk : (u a).SendKeyed) (hp : (u a).SelfPaired)
    {l : Link α} {o : Outcome α}
    (hrun : (u a).runChunked cast (negotiatedStep allReduce env chunkBytes (fun b => (u b).peerLists) a)
      (negotiatedChunks allReduce env chunkBytes (fun b => (u b).peerLists) a) l = .ok o) :
    ((u a).SampleCovers itemsize chunkBytes → ∀ h ∈ o.handed, StagingBounded itemsize chunkBytes h) ∧
    ((∀ h ∈ o.handed, StagingBounded itemsize chunkBytes h) ↔
      ∀ k, ChunkStep worldSize chunkBytes (fun b => (u b).peerLists) k →
        ∀ chunkIdx, (u a).WindowFits itemsize chunkBytes k chunkIdx) := by
  have hexact := stagingBounded_windows_iff itemsize cast hreduce henv hfits hlists ha hs hk hp hrun
  refine ⟨fun hcovers => hexact.mpr ?_, hexact⟩
  intro k hstep chunkIdx
  exact ColocateUpdate.windowFits_of_covers itemsize hstep ha rfl hcovers chunkIdx

def rowLink : Link ℕ :=
  ⟨rowMemory 0, fun p => if p = 1 then [⟨.float32, [12]⟩, ⟨.float32, [13]⟩] else [], fun _ => []⟩

theorem chunkClones_rows : ∃ o, (rowUpdate 0).runChunked (fun _ _ => id)
    (negotiatedStep (reduceAll 2) "" 4 (fun b => (rowUpdate b).peerLists) 0)
    (negotiatedChunks (reduceAll 2) "" 4 (fun b => (rowUpdate b).peerLists) 0) rowLink = .ok o ∧
      ∃ h ∈ o.handed, ¬ StagingBounded Dtype.itemsize 4 h := by
  refine ⟨_, rfl, _, List.mem_cons_self, ?_⟩
  unfold StagingBounded
  decide

theorem chunkClones_bounded_rows : ∃ o, (rowUpdate 0).runChunked (fun _ _ => id)
    (negotiatedStep (reduceAll 2) "" 4 (fun b => (rowUpdate b).peerLists) 0)
    (negotiatedChunks (reduceAll 2) "" 4 (fun b => (rowUpdate b).peerLists) 0) rowLink = .ok o ∧
      ((rowUpdate 0).SampleCovers Dtype.itemsize 4 → ∀ h ∈ o.handed, StagingBounded Dtype.itemsize 4 h) ∧
      ((∀ h ∈ o.handed, StagingBounded Dtype.itemsize 4 h) ↔
        ∀ k, ChunkStep 2 4 (fun b => (rowUpdate b).peerLists) k →
          ∀ chunkIdx, (rowUpdate 0).WindowFits Dtype.itemsize 4 k chunkIdx) := by
  obtain ⟨o, ho⟩ : ∃ o, (rowUpdate 0).runChunked (fun _ _ => id)
      (negotiatedStep (reduceAll 2) "" 4 (fun b => (rowUpdate b).peerLists) 0)
      (negotiatedChunks (reduceAll 2) "" 4 (fun b => (rowUpdate b).peerLists) 0) rowLink = .ok o := ⟨_, rfl⟩
  obtain ⟨o', ho'⟩ : ∃ o', (rowUpdate 0).runOneShot (fun _ _ => id) rowLink = .ok o' := ⟨_, rfl⟩
  have hfits : ∀ b < 2, ¬ SampleFits 4 (rowUpdate b).peerLists (2 ^ 63) := by
    rintro b - ⟨op, -, hle⟩
    have hpos : 1 ≤ perOpBytes op := le_max_right _ _
    push_cast at hle
    omega
  exact ⟨o, ho, chunkClones_bounded Dtype.itemsize _ (reduceAll_succeeds 2) (by decide) hfits (by decide) (by decide)
    (ColocateUpdate.sliceable_of_oneShot ho') (rowUpdate_family.keyed 0 (by decide))
    (ColocateFamily.selfPaired rowUpdate_family (by decide)) ho⟩

end Awex
