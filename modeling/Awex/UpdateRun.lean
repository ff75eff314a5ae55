import Awex.SeparateTransfer

namespace Awex

variable {α : Type}

/-- A run of the separated transfer that ends at rank `r`: all ranks post, every message meets its
receive, and the receives complete in some order. -/
def UpdateRun (cast : Dtype → Dtype → α → α) (b : TransferPlanBuilder) (plan : ℕ → TransferPlan)
    (parameters : ℕ → Dict String Parameter) (memory : ℕ → Memory α) (r : ℕ) (final : Memory α) : Prop :=
  ∃ (sent : ℕ → SendOps α) (posted : RecvOps α) (queues : ℕ → List (Message α))
    (matched completed : List (P2POp × Message α)),
    (∀ t, b.inferWorldSize ≤ t → t < b.worldSize →
      ncclBuildSendOps (parameters t) (plan t) (-1) true (memory t) = .ok (sent t)) ∧
    ncclBuildRecvOps (parameters r) (plan r) true (memory r) = .ok posted ∧
    (∀ t, inbox b sent r t = .ok (queues t)) ∧
    matchMessages queues (batchSendRecv [] posted.p2pOpList) = some (matched, fun _ => []) ∧
    completed.Perm matched ∧ finishUpdate cast posted completed = .ok final

section Runs

variable {b : TransferPlanBuilder} {infer train : List ParameterMeta} {plan : ℕ → TransferPlan}
  {parameters : ℕ → Dict String Parameter} (cast : Dtype → Dtype → α → α) (hmeta : CommonMetadata b infer train)
  (hplan : ∀ g < b.worldSize, buildLocalTransferPlan b infer train g = .ok (plan g))
  (hdeploy : Deployment b infer train parameters) (memory : ℕ → Memory α) {r : ℕ} (hr : r < b.inferWorldSize)
include hmeta hplan hdeploy hr

theorem updateRun_exists : ∃ final, UpdateRun cast b plan parameters memory r final := by
  obtain ⟨sent, hsent⟩ := sends_posted hmeta hplan hdeploy memory
  obtain ⟨posted, landings, hposted⟩ := recvs_posted hmeta hplan hdeploy memory r hr
  obtain ⟨source, hsource⟩ := sources_exist hmeta hdeploy
  obtain ⟨matched, hmatched, hperm⟩ := matching hplan hr hposted source
  obtain ⟨final, hfinal, -⟩ := update_finishes cast hmeta hplan hdeploy hr hposted hsource hperm
  exact ⟨final, sent, posted, _, matched, matched, fun t ht htw => (hsent t ht htw).built, hposted.built,
    inbox_eq hmeta hplan hdeploy hsource hsent r, hmatched, List.Perm.refl matched, hfinal⟩

variable {cast memory}

theorem UpdateRun.updated {final : Memory α} (h : UpdateRun cast b plan parameters memory r final) :
    Updated b infer train parameters memory r final := by
  obtain ⟨sent, posted, queues, matched, completed, hbuilt, hrecv, hinbox, hmatched, hcompleted, hfinal⟩ := h
  obtain ⟨sent', hsent'⟩ := sends_posted hmeta hplan hdeploy memory
  obtain ⟨posted', landings, hposted⟩ := recvs_posted hmeta hplan hdeploy memory r hr
  obtain ⟨source, hsource⟩ := sources_exist hmeta hdeploy
  obtain ⟨matched', hmatched', hperm⟩ := matching hplan hr hposted source
  -- each part of the run is what the ranks compute
  obtain rfl := Except.ok.inj (hrecv.symm.trans hposted.built)
  have hqueues : queues = fun t =>
      (pairOperations (plannedOperations b infer train none) t r).map (sliceMessage memory source) := by
    funext t
    have hsame : inbox b sent r t = inbox b sent' r t := by
      unfold inbox
      split_ifs with ht
      · rw [Except.ok.inj ((hbuilt t ht.1 ht.2).symm.trans (hsent' t ht.1 ht.2).built)]
      · rfl
    exact Except.ok.inj ((hinbox t).symm.trans (hsame.trans
      (inbox_eq hmeta hplan hdeploy hsource hsent' r t)))
  rw [hqueues, hmatched'] at hmatched
  obtain ⟨rfl, -⟩ := Prod.mk.inj (Option.some.inj hmatched)
  obtain ⟨final', hfinal', hupdated⟩ := update_finishes cast hmeta hplan hdeploy hr hposted hsource
    (hcompleted.trans hperm)
  obtain rfl := Except.ok.inj (hfinal.symm.trans hfinal')
  exact hupdated

end Runs

end Awex
