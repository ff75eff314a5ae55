import Awex.ReceivedSlices

namespace Awex

/-- A device of the group that is training rank `t` and inference rank `r`. -/
structure ColocatedDevice (b : TransferPlanBuilder) (infer train : List ParameterMeta)
    (parameters : ℕ → Dict String Parameter) (t r : ℕ) (u : ColocateUpdate) : Prop where
  planned : PlannedUpdate b infer train t r u
  train_rank : b.inferWorldSize ≤ t
  infer_rank : r < b.inferWorldSize
  in_group : r < u.worldSize
  send_parameters : u.sendParameters = parameters t
  recv_parameters : u.recvParameters = parameters r

namespace ColocatedDevice

variable {b : TransferPlanBuilder} {infer train : List ParameterMeta} {parameters : ℕ → Dict String Parameter}
  {t r : ℕ} {u : ColocateUpdate} (hdevice : ColocatedDevice b infer train parameters t r u)

include hdevice

theorem slices (hmeta : CommonMetadata b infer train) (hheld : Held b infer train HasShape parameters) :
    u.Slices := by
  constructor
  · intro e he op hop
    obtain ⟨hplanned, rfl, -⟩ := mem_trainPlan hdevice.train_rank hdevice.planned.send_plan he hop
    exact u.canSend_iff.mpr (hdevice.send_parameters ▸ planned_sendSlice hmeta hheld hplanned)
  · intro e he op hop
    obtain ⟨hplanned, -, rfl⟩ := mem_inferPlan hdevice.infer_rank hdevice.planned.recv_plan he hop
    exact u.canRecv_iff.mpr (hdevice.recv_parameters ▸ planned_recvSlice hmeta hheld hplanned)

theorem sendKeyed : u.SendKeyed := by
  intro e he op hop
  exact (mem_trainPlan hdevice.train_rank hdevice.planned.send_plan he hop).2.2

theorem sends_eq (p : ℕ) : u.sendTransferPlan.operations.getD p [] =
    pairOperations (plannedOperations b infer train none) t p :=
  getD_pairOperations (trainPlan_get? b infer train t p hdevice.train_rank _ hdevice.planned.send_plan)

theorem toPeer_eq {p : ℕ} (hne : p ≠ r) :
    u.toPeer p = pairOperations (plannedOperations b infer train none) t p := by
  rw [ColocateUpdate.toPeer_eq _ (hdevice.planned.rank ▸ hne), hdevice.sends_eq]
  intro e he
  by_contra hmapped
  obtain ⟨q, hq⟩ := Option.ne_none_iff_exists'.mp hmapped
  have hlt := trainPlan_entry_lt hdevice.train_rank hdevice.planned.send_plan he
  exact absurd (hdevice.planned.training e.1 q hq) (by omega)

theorem fromPeer_eq (hvalid : validateRankMappings u.trainToInfer u.inferToTrain = .ok ()) {t' p : ℕ}
    (hmapped : u.inferToTrain.get? p = some t') (hne : p ≠ r) :
    u.fromPeer p = pairOperations (plannedOperations b infer train none) t' r := by
  rw [ColocateUpdate.fromPeer_eq hvalid (validateRankMappings_get? hvalid hmapped) (hdevice.planned.rank ▸ hne)]
  exact getD_pairOperations (inferPlan_get? b infer train t' r hdevice.infer_rank _ hdevice.planned.recv_plan)

end ColocatedDevice

end Awex
