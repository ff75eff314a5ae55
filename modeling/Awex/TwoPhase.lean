import Awex.Library.Phases
import Awex.NcclColocate
import Awex.OneByOne

namespace Awex

open Cycles Rendezvous

/-- The cycle of the sender is even, or the step does not close it. -/
def Alternates (rank stage worldSize : ℕ) : Prop :=
  Even (worldSize / Nat.gcd worldSize stage) ∨ Nat.gcd worldSize stage ≤ (rank + stage) % worldSize

instance (rank stage worldSize : ℕ) : Decidable (Alternates rank stage worldSize) :=
  inferInstanceAs (Decidable (_ ∨ _))

/-- The phase in which a rank sends. -/
def stageSendPhase (rank stage worldSize : ℕ) : ℕ :=
  if computeTwoPhasePartition rank stage worldSize = 0 then 1 else 2

def stageRecvPhase (rank stage worldSize : ℕ) : ℕ :=
  if computeTwoPhasePartition rank stage worldSize = 0 then 2 else 1

section Colours

theorem computeTwoPhasePartition_eq {stage : ℕ} (hstage : 0 < stage) (rank worldSize : ℕ) :
    computeTwoPhasePartition rank stage worldSize =
      position (stage / Nat.gcd worldSize stage) (worldSize / Nat.gcd worldSize stage)
        (rank / Nat.gcd worldSize stage) % 2 := by
  unfold computeTwoPhasePartition
  dsimp only
  rw [if_neg hstage.ne', ← Nat.div_eq_sub_mod_div, position]

theorem partition_cases (rank stage worldSize : ℕ) :
    computeTwoPhasePartition rank stage worldSize = 0 ∨ computeTwoPhasePartition rank stage worldSize = 1 := by
  rcases Nat.eq_zero_or_pos stage with rfl | hstage
  · exact .inl rfl
  · rw [computeTwoPhasePartition_eq hstage]
    omega

theorem partition_ne_iff {worldSize stage : ℕ} (hstage : 0 < stage) (hlt : stage < worldSize) (rank : ℕ) :
    computeTwoPhasePartition rank stage worldSize ≠
        computeTwoPhasePartition ((rank + stage) % worldSize) stage worldSize ↔
      Alternates rank stage worldSize := by
  have hg : 0 < Nat.gcd worldSize stage := Nat.gcd_pos_of_pos_right _ hstage
  obtain ⟨n, hn⟩ := Nat.gcd_dvd_left worldSize stage
  obtain ⟨t, ht⟩ := Nat.gcd_dvd_right worldSize stage
  have hcoprime := Nat.coprime_div_gcd_div_gcd hg
  rw [computeTwoPhasePartition_eq hstage, computeTwoPhasePartition_eq hstage, Alternates]
  generalize Nat.gcd worldSize stage = g at *
  subst hn ht
  rw [Nat.mul_div_cancel_left _ hg, Nat.mul_div_cancel_left _ hg] at *
  have hn2 : 2 ≤ n := by
    have ht : 0 < t := Nat.pos_of_mul_pos_left hstage
    have htn : t < n := Nat.lt_of_mul_lt_mul_left hlt
    omega
  have hnext : (rank + g * t) % (g * n) / g = (rank / g + t) % n := by
    rw [Nat.mod_mul_right_div_self, Nat.add_mul_div_left _ _ hg]
  have hclose : (rank / g + t) % n ≠ 0 ↔ g ≤ (rank + g * t) % (g * n) := by
    rw [← hnext, Nat.div_ne_zero_iff]
    omega
  rw [hnext, parity_ne_iff hcoprime.symm (by omega) hn2, hclose]

theorem stagePhase_eq_iff (rank peer stage worldSize : ℕ) :
    stageSendPhase rank stage worldSize = stageRecvPhase peer stage worldSize ↔
      computeTwoPhasePartition rank stage worldSize ≠ computeTwoPhasePartition peer stage worldSize := by
  rcases partition_cases rank stage worldSize with h | h <;>
    rcases partition_cases peer stage worldSize with h' | h' <;> simp [stageSendPhase, stageRecvPhase, h, h']

end Colours

end Awex
