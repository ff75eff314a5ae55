import Awex.CopyBack
import Awex.UpdateRun

namespace Awex

variable {α : Type}

/-- The two memories agree outside the tensors that were made on the way. -/
def Memory.SameParameters (m m' : Memory α) : Prop := ∀ a : Address, (∀ n, a.1 ≠ .staging n) → m'.cells a = m.cells a

section Receive

variable (cast : Dtype → Dtype → α → α)

theorem Memory.copy_cells {m m' : Memory α} {target source : Tensor} (h : m.copy_ cast target source = .ok m')
    {a : Address} (ha : a ∉ target.addresses) : m'.cells a = m.cells a := by
  unfold copy_ at h
  split_ifs at h
  obtain rfl := Except.ok.inj h
  apply Store.writeAll_of_not_mem
  rwa [List.map_map]

theorem stageRecv_extends (opDist : P2POp) (m : Memory α) (hlive : opDist.tensor.Live m) :
    m.Extends (stageRecv opDist m).2 :=
  (m.contiguous_spec opDist.tensor hlive).1

theorem stageRecv_addresses {opDist : P2POp} {m : Memory α} {a : Address} (ha : ∀ n, a.1 ≠ .staging n)
    (hmem : a ∈ (stageRecv opDist m).1.tensor.addresses) : a ∈ opDist.tensor.addresses := by
  by_cases hc : opDist.tensor.IsContiguous
  · have hsame : (stageRecv opDist m).1.tensor = opDist.tensor := congrArg Prod.fst (if_pos hc)
    rwa [hsame] at hmem
  · have hfresh : (stageRecv opDist m).1.tensor.buffer = .staging m.staged := by
      have hclone : (stageRecv opDist m).1.tensor = (m.clone opDist.tensor).1 := congrArg Prod.fst (if_neg hc)
      rw [hclone, m.clone_staging]
    exact absurd ((Tensor.addresses_buffer _ a hmem).trans hfresh) (ha m.staged)

theorem recvOne_frame {l l' : Link α} {opDist : P2POp} (h : recvOne cast l opDist = .ok l') (hop : opDist.op = .recv)
    (hlive : opDist.tensor.Live l.memory) {a : Address} (ha : ∀ n, a.1 ≠ .staging n)
    (hview : a ∉ opDist.tensor.addresses) : l'.memory.cells a = l.memory.cells a := by
  rw [recvOne_eq, Except.bind_eq_ok] at h
  obtain ⟨l₁, hpost, hback⟩ := h
  have hrecv : (stageRecv opDist l.memory).1.op = .recv := hop
  obtain ⟨msg, rest, -, hmsg, rfl⟩ := (post_recv_eq_ok hrecv).mp hpost
  have hposted : ((stageRecv opDist l.memory).2.store
      ((stageRecv opDist l.memory).1.tensor.wire.zip msg.data)).cells a = l.memory.cells a := by
    rw [← (stageRecv_extends opDist l.memory hlive).cells_eq a fun n hn => absurd hn (ha n)]
    apply Store.writeAll_of_not_mem
    intro hmem
    obtain ⟨w, hw, rfl⟩ := List.mem_map.mp hmem
    have haddress := (List.of_mem_zip hw).1
    rw [Tensor.wire_eq_addresses hmsg.contiguous] at haddress
    exact hview (stageRecv_addresses ha haddress)
  split_ifs at hback with hc
  · obtain rfl := Except.ok.inj hback
    exact hposted
  · obtain ⟨m, hcopy, hl'⟩ := Except.bind_eq_ok.mp hback
    obtain rfl := Except.ok.inj hl'
    exact (Memory.copy_cells cast hcopy hview).trans hposted

/-- What the reader does with a message that has come for `opDist`. -/
def receiveOne (memory : Memory α) (opDist : P2POp) (msg : Message α) : Except TransferError (Memory α) :=
  (recvOne cast ⟨memory, fun _ => [msg], fun _ => []⟩ opDist).map (·.memory)

/-- The receive for a landing as `_send_recv_one_by_one` posts it: the slice itself. -/
def Landing.direct (l : Landing) : P2POp := ⟨.recv, l.view, l.peer⟩

variable {parameters : Dict String Parameter} {payload : Landing → Message α}

theorem receiveOne_spec {l : Landing} (hok : LandingOk parameters l) (hpayload : PayloadOk payload l)
    (hn : l.view.addresses.Nodup) (m : Memory α) : ∃ m', receiveOne cast m l.direct (payload l) = .ok m' ∧
      m'.read l.view = (payload l).data ∧
      ∀ a : Address, (∀ n, a.1 ≠ .staging n) → a ∉ l.view.addresses → m'.cells a = m.cells a := by
  obtain ⟨hshape, hdtype⟩ := m.contiguous_shape l.view
  have haccepts : Accepts (stageRecv l.direct m).1.tensor (payload l) := by
    refine ⟨stageRecv_contiguous l.direct m, hpayload.dtype_eq.trans hdtype.symm, ?_⟩
    exact hpayload.length_eq.trans (congrArg List.prod hshape).symm
  have hop : l.direct.op = .recv := rfl
  obtain ⟨l', hrecv, hread⟩ := recvOne_read cast (l := ⟨m, fun _ => [payload l], fun _ => []⟩) hop hn rfl haccepts
  refine ⟨l'.memory, ?_, hread, fun a ha hview => ?_⟩
  · rw [receiveOne, hrecv]
    rfl
  · obtain ⟨n, hview'⟩ := hok.view_buffer
    have hlive : l.direct.tensor.Live m := by
      intro k hk
      rw [show l.direct.tensor.buffer = .inference n from hview'] at hk
      simp at hk
    exact recvOne_frame cast hrecv rfl hlive ha hview

def receiveDirectly (payload : Landing → Message α) (m : Memory α) (landings : List Landing) :
    Except TransferError (Memory α) :=
  landings.foldlM (fun m l => receiveOne cast m l.direct (payload l)) m

theorem ViewsApart.nodup {landings : List Landing} (h : ViewsApart landings) {l : Landing} (hl : l ∈ landings) :
    l.view.addresses.Nodup := by
  apply List.Nodup.map_on
  · intro x hx y hy heq
    exact (h l hl l hl x ((Box.mem_indices _ _).mp hx) y ((Box.mem_indices _ _).mp hy) heq).2
  · exact Box.nodup_indices _

theorem ViewsApart.disjoint {landings : List Landing} (h : ViewsApart landings) {l l' : Landing} (hl : l ∈ landings)
    (hl' : l' ∈ landings) {a : Address} (ha : a ∈ l.view.addresses) (ha' : a ∈ l'.view.addresses) : l = l' := by
  obtain ⟨x, hx, rfl⟩ := List.mem_map.mp ha
  obtain ⟨y, hy, heq⟩ := List.mem_map.mp ha'
  exact (h l hl l' hl' x ((Box.mem_indices _ _).mp hx) y ((Box.mem_indices _ _).mp hy) heq.symm).1

theorem receiveDirectly_spec {landings : List Landing} (hok : ∀ l ∈ landings, LandingOk parameters l)
    (hpayload : ∀ l ∈ landings, PayloadOk payload l) (hviews : ViewsApart landings) (m : Memory α) :
    ∃ m', receiveDirectly cast payload m landings = .ok m' ∧
      (∀ l ∈ landings, m'.read l.view = (payload l).data) ∧
      ∀ a : Address, (∀ n, a.1 ≠ .staging n) → (∀ l ∈ landings, a ∉ l.view.addresses) → m'.cells a = m.cells a := by
  induction landings generalizing m with
  | nil => exact ⟨m, rfl, by simp, fun _ _ _ => rfl⟩
  | cons l landings ih =>
    obtain ⟨hl, hrest⟩ := List.forall_mem_cons.mp hok
    obtain ⟨hpl, hprest⟩ := List.forall_mem_cons.mp hpayload
    obtain ⟨m₁, hone, hread, hframe⟩ := receiveOne_spec cast hl hpl (hviews.nodup List.mem_cons_self) m
    obtain ⟨m', hmore, hreads, hframes⟩ := ih hrest hprest (fun l₁ h₁ l₂ h₂ => hviews l₁ (List.mem_cons_of_mem _ h₁) l₂
      (List.mem_cons_of_mem _ h₂)) m₁
    refine ⟨m', ?_, ?_, ?_⟩
    · rw [receiveDirectly, List.foldlM_cons, hone]
      exact hmore
    · intro l' hl'
      by_cases hmem : l' ∈ landings
      · exact hreads l' hmem
      · obtain rfl := (List.mem_cons.mp hl').resolve_right hmem
        rw [← hread]
        apply List.map_congr_left
        intro a ha
        apply hframes
        · intro n hn
          obtain ⟨k, hk⟩ := hl.view_buffer
          rw [Tensor.addresses_buffer _ a ha, hk] at hn
          simp at hn
        · intro l₂ hl₂ ha₂
          obtain rfl := hviews.disjoint List.mem_cons_self (List.mem_cons_of_mem _ hl₂) ha ha₂
          exact hmem hl₂
    · intro a ha hnot
      rw [hframes a ha fun l' hl' => hnot l' (List.mem_cons_of_mem _ hl')]
      exact hframe a ha (hnot l List.mem_cons_self)

end Receive

section Agree

variable {b : TransferPlanBuilder} {infer train : List ParameterMeta} {plan : ℕ → TransferPlan}
  {parameters : ℕ → Dict String Parameter} {memory : ℕ → Memory α} {r : ℕ}

theorem Updated.congr {final final' : Memory α} (h : Updated b infer train parameters memory r final)
    (hsame : final.SameParameters final') : Updated b infer train parameters memory r final' := by
  constructor
  · intro name im tm hi ht e he replica hreplica s hs hrank x hx
    obtain ⟨hexists, hvalue⟩ := h.elements name im tm hi ht e he replica hreplica s hs hrank x hx
    refine ⟨hexists, fun s' x' hsource => ?_⟩
    obtain ⟨p, q, hp, hq, hcell⟩ := hvalue s' x' hsource
    refine ⟨p, q, hp, hq, ?_⟩
    rw [← hcell]
    exact hsame _ fun n hn => by simp [Tensor.locate, Parameter.inference] at hn
  · intro a ha houtside
    rw [hsame a ha]
    exact h.others a ha houtside

theorem Updated.unique (hmeta : CommonMetadata b infer train) (hdeploy : Deployment b infer train parameters)
    {final final' : Memory α} (h : Updated b infer train parameters memory r final)
    (h' : Updated b infer train parameters memory r final') : final.SameParameters final' := by
  intro a ha
  by_cases hcovered : ∃ op ∈ plannedOperations b infer train none, op.recvRank = r ∧ ∃ q,
      (parameters r).get? op.recvShardMeta.name = some q ∧ ∃ x, op.Covers x ∧ a = q.inference.locate x
  · obtain ⟨op, hop, hrecv, q, hq, x, hx, rfl⟩ := hcovered
    obtain ⟨hsame, -, -, name, im, tm, i, e, replica, t, hi, ht, hassigned⟩ := planned_law hmeta hop
    obtain ⟨he, hreplica⟩ := (mem_inferenceReplicas b im e replica).mp (List.mem_of_getElem? hassigned.replica)
    have hname := hdeploy.infer_name name im hi replica hreplica _ hassigned.recv_shard
    have hrank := hrecv.symm.trans hassigned.recv_rank
    have hinside := inSlices_inside hsame.recv_inside hx
    obtain ⟨⟨s', x', hsource⟩, hvalue⟩ :=
      h.elements name im tm hi ht e he replica hreplica _ hassigned.recv_shard hrank x hinside
    obtain ⟨-, hvalue'⟩ := h'.elements name im tm hi ht e he replica hreplica _ hassigned.recv_shard hrank x hinside
    obtain ⟨p₁, q₁, hp₁, hq₁, hcell₁⟩ := hvalue s' x' hsource
    obtain ⟨p₂, q₂, hp₂, hq₂, hcell₂⟩ := hvalue' s' x' hsource
    rw [hname] at hq
    obtain rfl := Option.some.inj (hq₁.symm.trans hq)
    obtain rfl := Option.some.inj (hq₂.symm.trans hq)
    obtain rfl := Option.some.inj (hp₁.symm.trans hp₂)
    rw [hcell₁, hcell₂]
  · rw [h.others a ha, h'.others a ha]
    all_goals exact fun op hop hrecv q hq x hx heq => hcovered ⟨op, hop, hrecv, q, hq, x, hx, heq⟩

end Agree

end Awex
