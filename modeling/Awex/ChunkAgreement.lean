import Awex.ChunkNegotiation
import Awex.ChunkedTransfer
import Mathlib.Order.Bounds.Basic

namespace Awex

open PeerLists

def contributed (worldSize : ℕ) (contributions : ℕ → Option ℤ) : Set ℤ :=
  {x | ∃ b < worldSize, contributions b = some x}

/-- `all_reduce` succeeds whenever all ranks take part in it. -/
structure AllReduce.Succeeds (worldSize : ℕ) (allReduce : AllReduce) : Prop where
  min : ∀ contributions, (∀ b < worldSize, (contributions b).isSome) → ∀ a < worldSize,
    ∃ r, allReduce .min contributions a = some r ∧ IsLeast (contributed worldSize contributions) r
  max : ∀ contributions, (∀ b < worldSize, (contributions b).isSome) → ∀ a < worldSize,
    ∃ r, allReduce .max contributions a = some r ∧ IsGreatest (contributed worldSize contributions) r

/-- The ranks leave the negotiation with one step size and one number of chunks, which cover all
lists. -/
def ChunksAgreed (worldSize : ℕ) (allReduce : AllReduce) (env : String) (chunkBytes : ℤ) (lists : ℕ → PeerLists) : Prop :=
  ∃ stepSize nChunks, 1 ≤ stepSize ∧ ∀ a < worldSize,
    negotiatedStep allReduce env chunkBytes lists a = stepSize ∧
      negotiatedChunks allReduce env chunkBytes lists a = nChunks ∧
      ∀ p, ((lists a).sendPerPeer.getD p []).length ≤ nChunks * stepSize ∧
        ((lists a).recvPerPeer.getD p []).length ≤ nChunks * stepSize

/-- `k` operations of the size of the rank's sample fit in a chunk. -/
def SampleFits (chunkBytes : ℤ) (lists : PeerLists) (k : ℕ) : Prop :=
  ∃ op, lists.sampleOp? = some op ∧ k * perOpBytes op ≤ chunkBytes

/-- As many samples of one rank as of any other fit in a chunk, where less than one counts as one. -/
def SameFit (worldSize : ℕ) (chunkBytes : ℤ) (lists : ℕ → PeerLists) : Prop :=
  ∀ a < worldSize, ∀ b < worldSize, ∀ k, 2 ≤ k →
    (SampleFits chunkBytes (lists a) k ↔ SampleFits chunkBytes (lists b) k)

section Step

variable (chunkBytes : ℤ) (lists : PeerLists)

theorem localStepSize_pos : 1 ≤ lists.localStepSize chunkBytes := by
  unfold localStepSize
  split <;> omega

theorem le_localStepSize_iff {k : ℕ} (hk : 2 ≤ k) : k ≤ lists.localStepSize chunkBytes ↔ SampleFits chunkBytes lists k := by
  unfold localStepSize SampleFits
  cases hop : lists.sampleOp? with
  | none =>
    refine iff_of_false (Nat.not_le.mpr (Nat.lt_of_succ_le hk)) ?_
    rintro ⟨op, h, -⟩
    cases h
  | some op =>
    have hpos : 0 < (perOpBytes op : ℤ) := by
      have : 0 < perOpBytes op := Nat.lt_of_lt_of_le Nat.zero_lt_one (le_max_right _ _)
      exact_mod_cast this
    have hdiv : k ≤ (max 1 (chunkBytes / perOpBytes op)).toNat ↔ (k : ℤ) ≤ chunkBytes / perOpBytes op := by omega
    dsimp only
    rw [hdiv, Int.le_ediv_iff_mul_le hpos]
    simp

theorem localStepSize_eq_iff (chunkBytes : ℤ) (lists lists' : PeerLists) :
    lists.localStepSize chunkBytes = lists'.localStepSize chunkBytes ↔
      ∀ k, 2 ≤ k → (SampleFits chunkBytes lists k ↔ SampleFits chunkBytes lists' k) := by
  constructor
  · intro heq k hk
    rw [← le_localStepSize_iff chunkBytes lists hk, ← le_localStepSize_iff chunkBytes lists' hk, heq]
  · intro hall
    have hle : ∀ l l' : PeerLists, (∀ k, 2 ≤ k → (SampleFits chunkBytes l k → SampleFits chunkBytes l' k)) →
        l.localStepSize chunkBytes ≤ l'.localStepSize chunkBytes := by
      intro l l' h
      rcases Nat.lt_or_ge (l.localStepSize chunkBytes) 2 with hone | htwo
      · have := localStepSize_pos chunkBytes l'
        omega
      · exact (le_localStepSize_iff chunkBytes l' htwo).mpr
          (h _ htwo ((le_localStepSize_iff chunkBytes l htwo).mp le_rfl))
    exact Nat.le_antisymm (hle lists lists' (fun k hk => (hall k hk).mp)) (hle lists' lists (fun k hk => (hall k hk).mpr))

theorem int64?_of_lt {n : ℕ} (h : n < 2 ^ 63) : int64? n = some (n : ℤ) := by
  apply if_pos
  omega

theorem int64?_of_ge {n : ℕ} (h : 2 ^ 63 ≤ n) : int64? n = none := by
  apply if_neg
  omega

end Step

section Chunks

variable {worldSize : ℕ} {allReduce : AllReduce} {env : String} {chunkBytes : ℤ} {lists : ℕ → PeerLists}

theorem localChunks_le {stepSize : ℕ} (hstep : 1 ≤ stepSize) (send recv : Dict ℕ (List CommunicationOperation)) :
    ColocateUpdate.localChunks stepSize send recv ≤ max 1 (max (maxLength send) (maxLength recv)) := by
  unfold ColocateUpdate.localChunks
  generalize max (maxLength send) (maxLength recv) = n
  have hdiv : (n + stepSize - 1) / stepSize ≤ n := by
    rw [Nat.div_le_iff_le_mul_add_pred hstep]
    have hmul : n ≤ stepSize * n := Nat.le_mul_of_pos_left n hstep
    omega
  omega

theorem agreed_of_step (hreduce : allReduce.Succeeds worldSize)
    (hlists : ∀ a < worldSize, maxLength (lists a).sendPerPeer < 2 ^ 63 ∧ maxLength (lists a).recvPerPeer < 2 ^ 63)
    {stepSize : ℕ} (hstep : 1 ≤ stepSize)
    (h : ∀ a < worldSize, negotiatedStep allReduce env chunkBytes lists a = stepSize) :
    ChunksAgreed worldSize allReduce env chunkBytes lists := by
  have hown : ∀ a < worldSize, ownChunks allReduce env chunkBytes lists a =
      ColocateUpdate.localChunks stepSize (lists a).sendPerPeer (lists a).recvPerPeer := by
    intro a ha
    rw [ownChunks, h a ha]
  have hint : ∀ a < worldSize, int64? (ownChunks allReduce env chunkBytes lists a) =
      some (ownChunks allReduce env chunkBytes lists a : ℤ) := by
    intro a ha
    have hle := localChunks_le hstep (lists a).sendPerPeer (lists a).recvPerPeer
    have hlt := hlists a ha
    apply int64?_of_lt
    rw [hown a ha]
    omega
  have hsome : ∀ b < worldSize, (int64? (ownChunks allReduce env chunkBytes lists b)).isSome := by
    intro b hb
    rw [hint b hb]
    rfl
  have hrank := hreduce.max _ hsome
  rcases Nat.eq_zero_or_pos worldSize with hzero | hpos
  · exact ⟨1, 0, le_rfl, fun a ha => absurd ha (by omega)⟩
  obtain ⟨r, -, hr⟩ := hrank 0 hpos
  refine ⟨stepSize, r.toNat, hstep, ?_⟩
  intro a ha
  obtain ⟨r', hr', hgreatest⟩ := hrank a ha
  obtain rfl := hgreatest.unique hr
  refine ⟨h a ha, ?_, ?_⟩
  · unfold negotiatedChunks
    dsimp only
    rw [hint a ha, hr']
  · intro p
    have hle : (ownChunks allReduce env chunkBytes lists a : ℤ) ≤ r' := hgreatest.2 ⟨a, ha, hint a ha⟩
    have hmul : ColocateUpdate.localChunks stepSize (lists a).sendPerPeer (lists a).recvPerPeer * stepSize ≤
        r'.toNat * stepSize := by
      apply Nat.mul_le_mul_right
      rw [hown a ha] at hle
      omega
    have hcover := ColocateUpdate.length_le_localChunks hstep (lists a).sendPerPeer (lists a).recvPerPeer p
    exact ⟨hcover.1.trans hmul, hcover.2.trans hmul⟩

theorem negotiatedStep_of_fits (hreduce : allReduce.Succeeds worldSize) (henv : readChunkOps env = .unset)
    (hfits : ∀ a < worldSize, (lists a).localStepSize chunkBytes < 2 ^ 63) (hpos : 0 < worldSize) :
    ∃ c < worldSize, (∀ a < worldSize, (lists c).localStepSize chunkBytes ≤ (lists a).localStepSize chunkBytes) ∧
      ∀ a < worldSize, negotiatedStep allReduce env chunkBytes lists a = (lists c).localStepSize chunkBytes := by
  have hint : ∀ a < worldSize, int64? ((lists a).localStepSize chunkBytes) =
      some ((lists a).localStepSize chunkBytes : ℤ) := by
    intro a ha
    exact int64?_of_lt (hfits a ha)
  have hrank := hreduce.min (fun b => int64? ((lists b).localStepSize chunkBytes)) (by
    intro b hb
    rw [hint b hb]
    rfl)
  obtain ⟨r, -, hr⟩ := hrank 0 hpos
  obtain ⟨c, hc, hrc⟩ := hr.1
  obtain rfl := Option.some.inj ((hint c hc).symm.trans hrc)
  refine ⟨c, hc, ?_, ?_⟩
  · intro a ha
    exact Int.ofNat_le.mp (hr.2 ⟨a, ha, hint a ha⟩)
  · intro a ha
    obtain ⟨r', hr', hleast⟩ := hrank a ha
    obtain rfl := hleast.unique hr
    have hpos := localStepSize_pos chunkBytes (lists c)
    unfold negotiatedStep
    rw [henv]
    dsimp only
    rw [hint a ha, hr']
    dsimp only
    omega

end Chunks

def reduceAll (worldSize : ℕ) : AllReduce := fun op contributions _ =>
  if ∀ b ∈ List.range worldSize, (contributions b).isSome then
    match op with
    | .min => ((List.range worldSize).map (fun b => (contributions b).getD 0)).min?
    | .max => ((List.range worldSize).map (fun b => (contributions b).getD 0)).max?
  else none

section ReduceAll

variable {worldSize : ℕ} {contributions : ℕ → Option ℤ}

theorem reduceAll_eq_none {c : ℕ} (hc : c < worldSize) (h : contributions c = none) (op : ReduceOp) (a : ℕ) :
    reduceAll worldSize op contributions a = none := by
  apply if_neg
  intro hall
  have hsome := hall c (List.mem_range.mpr hc)
  rw [h] at hsome
  cases hsome

theorem mem_values_iff (h : ∀ b < worldSize, (contributions b).isSome) (x : ℤ) :
    x ∈ (List.range worldSize).map (fun b => (contributions b).getD 0) ↔ x ∈ contributed worldSize contributions := by
  rw [List.mem_map]
  constructor
  · rintro ⟨b, hb, rfl⟩
    obtain ⟨x, hx⟩ := Option.isSome_iff_exists.mp (h b (List.mem_range.mp hb))
    exact ⟨b, List.mem_range.mp hb, by rw [hx, Option.getD_some]⟩
  · rintro ⟨b, hb, hx⟩
    exact ⟨b, List.mem_range.mpr hb, by rw [hx, Option.getD_some]⟩

theorem reduceAll_succeeds (worldSize : ℕ) : (reduceAll worldSize).Succeeds worldSize := by
  have hne : ∀ (contributions : ℕ → Option ℤ) (a : ℕ), a < worldSize →
      (List.range worldSize).map (fun b => (contributions b).getD 0) ≠ [] := by
    intro contributions a ha hnil
    rw [List.map_eq_nil_iff, List.range_eq_nil] at hnil
    omega
  constructor
  · intro contributions h a ha
    obtain ⟨r, hr⟩ := Option.isSome_iff_exists.mp (List.isSome_min?_of_ne_nil (hne contributions a ha))
    have hspec := List.min?_eq_some_iff.mp hr
    refine ⟨r, ?_, (mem_values_iff h r).mp hspec.1, ?_⟩
    · rw [reduceAll, if_pos (fun b hb => h b (List.mem_range.mp hb)), hr]
    · intro x hx
      exact hspec.2 x ((mem_values_iff h x).mpr hx)
  · intro contributions h a ha
    obtain ⟨r, hr⟩ := Option.isSome_iff_exists.mp (List.isSome_max?_of_ne_nil (hne contributions a ha))
    have hspec := List.max?_eq_some_iff.mp hr
    refine ⟨r, ?_, (mem_values_iff h r).mp hspec.1, ?_⟩
    · rw [reduceAll, if_pos (fun b hb => h b (List.mem_range.mp hb)), hr]
    · intro x hx
      exact hspec.2 x ((mem_values_iff h x).mpr hx)

end ReduceAll

section Negotiation

variable {worldSize : ℕ} {env : String} {chunkBytes : ℤ} {lists : ℕ → PeerLists}

theorem negotiatedStep_unparsable (allReduce : AllReduce) (henv : readChunkOps env = .unparsable) (a : ℕ) :
    negotiatedStep allReduce env chunkBytes lists a = (lists a).localStepSize chunkBytes := by
  unfold negotiatedStep
  rw [henv]

theorem negotiatedStep_forced (allReduce : AllReduce) {n : ℤ} (henv : readChunkOps env = .forced n) (a : ℕ) :
    negotiatedStep allReduce env chunkBytes lists a = (max 1 n).toNat := by
  unfold negotiatedStep
  rw [henv]

theorem negotiatedStep_overflow (henv : readChunkOps env = .unset) {c : ℕ} (hc : c < worldSize)
    (hlarge : 2 ^ 63 ≤ (lists c).localStepSize chunkBytes) (a : ℕ) :
    negotiatedStep (reduceAll worldSize) env chunkBytes lists a = (lists a).localStepSize chunkBytes := by
  unfold negotiatedStep
  rw [henv]
  dsimp only
  rw [reduceAll_eq_none hc (int64?_of_ge hlarge)]
  split <;> rfl

theorem sameFit_iff : SameFit worldSize chunkBytes lists ↔
    ∀ a < worldSize, ∀ b < worldSize, (lists a).localStepSize chunkBytes = (lists b).localStepSize chunkBytes := by
  constructor
  · intro h a ha b hb
    exact (localStepSize_eq_iff chunkBytes _ _).mpr (h a ha b hb)
  · intro h a ha b hb
    exact (localStepSize_eq_iff chunkBytes _ _).mp (h a ha b hb)

theorem not_sampleFits_iff (chunkBytes : ℤ) (lists : PeerLists) :
    ¬ SampleFits chunkBytes lists (2 ^ 63) ↔ lists.localStepSize chunkBytes < 2 ^ 63 := by
  rw [← le_localStepSize_iff chunkBytes lists (by norm_num), Nat.not_le]

theorem agreed_of_sameFit {allReduce : AllReduce} (hreduce : allReduce.Succeeds worldSize)
    (hlists : ∀ a < worldSize, maxLength (lists a).sendPerPeer < 2 ^ 63 ∧ maxLength (lists a).recvPerPeer < 2 ^ 63)
    (henv : readChunkOps env = .unparsable ∨ readChunkOps env = .unset) (hpos : 0 < worldSize)
    (h : SameFit worldSize chunkBytes lists) : ChunksAgreed worldSize allReduce env chunkBytes lists := by
  rw [sameFit_iff] at h
  rcases henv with henv | henv
  · apply agreed_of_step hreduce hlists (localStepSize_pos chunkBytes (lists 0))
    intro a ha
    rw [negotiatedStep_unparsable allReduce henv, h a ha 0 hpos]
  · rcases Nat.lt_or_ge ((lists 0).localStepSize chunkBytes) (2 ^ 63) with hsmall | hlarge
    · obtain ⟨c, -, -, hall⟩ := negotiatedStep_of_fits hreduce henv
        (fun a ha => h a ha 0 hpos ▸ hsmall) hpos
      exact agreed_of_step hreduce hlists (localStepSize_pos chunkBytes (lists c)) hall
    · apply agreed_of_step hreduce hlists (localStepSize_pos chunkBytes (lists 0))
      intro a ha
      have hover := int64?_of_ge hlarge
      rw [← h a ha 0 hpos] at hover
      unfold negotiatedStep
      rw [henv]
      dsimp only
      rw [hover]
      exact h a ha 0 hpos

theorem chunkNegotiation_iff (worldSize : ℕ) (env : String) (chunkBytes : ℤ) (lists : ℕ → PeerLists)
    (hlists : ∀ a < worldSize, maxLength (lists a).sendPerPeer < 2 ^ 63 ∧ maxLength (lists a).recvPerPeer < 2 ^ 63) :
    (∀ allReduce : AllReduce, allReduce.Succeeds worldSize → ChunksAgreed worldSize allReduce env chunkBytes lists) ↔
      (∃ n, readChunkOps env = .forced n) ∨
        (readChunkOps env = .unset ∧ ∀ a < worldSize, ¬ SampleFits chunkBytes (lists a) (2 ^ 63)) ∨
          SameFit worldSize chunkBytes lists := by
  rcases Nat.eq_zero_or_pos worldSize with rfl | hpos
  · refine iff_of_true (fun _ _ => ⟨1, 0, le_rfl, fun a ha => absurd ha a.not_lt_zero⟩) (.inr (.inr ?_))
    exact fun a ha => absurd ha a.not_lt_zero
  constructor
  · intro h
    have hsteps := h (reduceAll worldSize) (reduceAll_succeeds worldSize)
    obtain ⟨stepSize, nChunks, -, hagreed⟩ := hsteps
    have hsame : (∀ a, negotiatedStep (reduceAll worldSize) env chunkBytes lists a =
        (lists a).localStepSize chunkBytes) → SameFit worldSize chunkBytes lists := by
      intro hown
      rw [sameFit_iff]
      intro a ha b hb
      rw [← hown a, ← hown b, (hagreed a ha).1, (hagreed b hb).1]
    cases henv : readChunkOps env with
    | forced n => exact .inl ⟨n, rfl⟩
    | unparsable => exact .inr (.inr (hsame (negotiatedStep_unparsable _ henv)))
    | unset =>
      by_cases hfits : ∀ a < worldSize, ¬ SampleFits chunkBytes (lists a) (2 ^ 63)
      · exact .inr (.inl ⟨rfl, hfits⟩)
      · push Not at hfits
        obtain ⟨c, hc, hlarge⟩ := hfits
        have hge : 2 ^ 63 ≤ (lists c).localStepSize chunkBytes :=
          (le_localStepSize_iff chunkBytes (lists c) (by norm_num)).mpr hlarge
        exact .inr (.inr (hsame (negotiatedStep_overflow henv hc hge)))
  · rintro (⟨n, henv⟩ | ⟨henv, hfits⟩ | hsame) allReduce hreduce
    · have hstep : 1 ≤ (max 1 n).toNat := by omega
      exact agreed_of_step hreduce hlists hstep (fun a _ => negotiatedStep_forced allReduce henv a)
    · obtain ⟨c, -, -, hall⟩ := negotiatedStep_of_fits hreduce henv
        (fun a ha => (not_sampleFits_iff chunkBytes (lists a)).mp (hfits a ha)) hpos
      exact agreed_of_step hreduce hlists (localStepSize_pos chunkBytes (lists c)) hall
    · cases henv : readChunkOps env with
      | forced n =>
        have hstep : 1 ≤ (max 1 n).toNat := by omega
        exact agreed_of_step hreduce hlists hstep (fun a _ => negotiatedStep_forced allReduce henv a)
      | unparsable => exact agreed_of_sameFit hreduce hlists (.inl henv) hpos hsame
      | unset => exact agreed_of_sameFit hreduce hlists (.inr henv) hpos hsame

end Negotiation

def unequalLists (a : ℕ) : PeerLists :=
  let row := rowOperation 2 1 0
  let rows := { rowOperation 3 0 0 with overlapShape := [4, 1], trainSlices := [⟨0, 4⟩], infSlices := [⟨0, 4⟩] }
  if a = 0 then ⟨Dict.ofList [(1, [row])], Dict.ofList [(1, [rows])]⟩
  else ⟨Dict.ofList [(0, [rows])], Dict.ofList [(0, [row])]⟩

theorem chunkNegotiation_unset : ChunksAgreed 2 (reduceAll 2) "" 1048576 unequalLists := by
  apply (chunkNegotiation_iff 2 "" 1048576 unequalLists (by decide)).mpr _ _ (reduceAll_succeeds 2)
  refine .inr (.inl ⟨by decide, ?_⟩)
  rintro a ha ⟨op, hop, hle⟩
  have hpos : 1 ≤ perOpBytes op := le_max_right _ _
  push_cast at hle
  omega

theorem chunkNegotiation_auto :
    ∃ allReduce : AllReduce, allReduce.Succeeds 2 ∧ ¬ ChunksAgreed 2 allReduce "auto" 1048576 unequalLists := by
  -- a value that is no number leaves the two ranks with different step sizes
  refine ⟨reduceAll 2, reduceAll_succeeds 2, ?_⟩
  rintro ⟨stepSize, nChunks, -, hagreed⟩
  have hsame : negotiatedStep (reduceAll 2) "auto" 1048576 unequalLists 0 =
      negotiatedStep (reduceAll 2) "auto" 1048576 unequalLists 1 :=
    (hagreed 0 (by decide)).1.trans (hagreed 1 (by decide)).1.symm
  exact absurd hsame (by decide)

end Awex
