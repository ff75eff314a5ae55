import Awex.Barrier
import Awex.StoreRefinement

namespace Awex

open Runs Retry

variable {Obj Json : Type} [DecidableEq Obj]

abbrev StoreSystem (Obj : Type) :=
  System (MetaServer String Obj) (StoreRequest Obj) (StoreAnswer Obj) Empty StoreError (StoreValue Obj)

section Phases

variable (rt : Runtime Obj Json) (key : String) (worldSize i : ℕ)

/-- `barrier` from `wait_set_until_size` on. -/
def barrierRest (wait : StoreClient Obj Unit) : StoreClient Obj (StoreValue Obj) :=
  ((wait.bind (fun _ => if false then StoreClient.deleteIfExists key else StoreClient.ok ())).bind (fun _ =>
    if i = 0 then StoreClient.deleteIfExists key else StoreClient.ok ())).bind (fun _ => StoreClient.ok .none)

/-- What is left of the wait after a round that has found too few ranks. -/
inductive WaitsAgain : StoreClient Obj Unit → Prop where
  | expire : WaitsAgain (StoreClient.raise (.setTimeout key worldSize))
  | round (polls : ℕ) {retry : StoreClient Obj Unit} (h : WaitsAgain retry) :
      WaitsAgain (StoreClient.waitRound (objectLength rt) key worldSize polls retry)

/-- What a client in the phase has still to do. -/
inductive InPhase : BarrierPhase → StoreClient Obj (StoreValue Obj) → Prop where
  | outside (value : StoreValue Obj) : InPhase .outside (StoreClient.ok value)
  | adding (polls : ℕ) (rounds : List ℕ) : InPhase .adding
      (StoreOperation.program (objectLength rt) rt.intObject (.barrier key i worldSize polls rounds))
  | polling (polls : ℕ) {retry : StoreClient Obj Unit} (h : WaitsAgain rt key worldSize retry) : InPhase .polling
      (barrierRest key i (StoreClient.waitRound (objectLength rt) key worldSize polls retry))
  | reading {retry : StoreClient Obj Unit} (h : WaitsAgain rt key worldSize retry) : InPhase .reading
      (barrierRest key i ((StoreClient.fetchObject key (some (.members ∅))).bind
        (StoreClient.ifFull (objectLength rt) worldSize retry)))
  | cleaning (h : i = 0) : InPhase .cleaning
      ((StoreClient.deleteIfExists key).bind (fun _ => StoreClient.ok .none))
  | failed : InPhase .failed (StoreClient.raise (.setTimeout key worldSize))

def storedRanks : Stored ℕ → Stored Obj
  | .object rank => .object (rt.intObject rank)
  | .members ranks => .members (ranks.image rt.intObject)

/-- The clients of the store are in the phases of the protocol, whose server keeps the same ranks. -/
structure Meets (t : StoreSystem Obj) (b : BarrierState) : Prop where
  stored : t.server.storage key = (b.server.storage key).map (storedRanks rt)
  ranks : ∀ stored, b.server.storage key = some stored → ∃ ranks : Finset ℕ, stored = .members ranks ∧
    ranks.Nonempty ∧ ∀ rank ∈ ranks, rank < worldSize
  client : ∀ i, InPhase rt key worldSize i (b.phase i) (t.client i)

end Phases

variable {rt : Runtime Obj Json} {key : String} {worldSize i : ℕ}

omit [DecidableEq Obj] in
theorem waitsAgain_waitSet (rt : Runtime Obj Json) (key : String) (worldSize polls : ℕ) (rounds : List ℕ) :
    ∃ retry, WaitsAgain rt key worldSize retry ∧
    StoreClient.waitSet (objectLength rt) key worldSize polls rounds =
      StoreClient.waitRound (objectLength rt) key worldSize polls retry := by
  induction rounds generalizing polls with
  | nil => exact ⟨_, .expire, rfl⟩
  | cons polls' rounds ih =>
    obtain ⟨retry, hretry, heq⟩ := ih polls'
    refine ⟨_, .round polls' hretry, ?_⟩
    rw [StoreClient.waitSet, heq]

section Serve

variable {t : StoreSystem Obj} {retry : StoreClient Obj Unit}

theorem serve_answered {r : StoreRequest Obj} {server : MetaServer String Obj} {a : StoreAnswer Obj}
    {client : StoreClient Obj (StoreValue Obj)}
    (hsend : ∃ next, t.client i = Client.send r next ∧ next (.ok a) = client)
    (hanswer : t.server.answer r = (server, a)) :
    t.serve MetaServer.answer i = ⟨server, (t.goto i client).client⟩ := by
  obtain ⟨next, hclient, hnext⟩ := hsend
  rw [System.serve_running hclient, hanswer, hnext]

theorem serve_adding {polls : ℕ} {rounds : List ℕ} {server : MetaServer String Obj}
    (h : t.client i = StoreOperation.program (objectLength rt) rt.intObject (.barrier key i worldSize polls rounds))
    (hadd : t.server.addObjectToSet key (rt.intObject i) = .ok server) :
    t.serve MetaServer.answer i = ⟨server, (t.goto i (barrierRest key i
      (StoreClient.waitSet (objectLength rt) key worldSize polls rounds))).client⟩ := by
  apply serve_answered (a := .done) ⟨_, h, rfl⟩
  simp only [MetaServer.answer, hadd]

theorem serve_polling {polls : ℕ}
    (h : t.client i = barrierRest key i (StoreClient.waitRound (objectLength rt) key worldSize polls retry)) :
    t.serve MetaServer.answer i = t.goto i (barrierRest key i
      (if t.server.hasKey key then (StoreClient.fetchObject key (some (.members ∅))).bind
          (StoreClient.ifFull (objectLength rt) worldSize retry)
        else match polls with
          | 0 => StoreClient.ifFull (objectLength rt) worldSize retry (some (.members ∅))
          | polls + 1 => StoreClient.waitRound (objectLength rt) key worldSize polls retry)) := by
  refine serve_answered (r := .hasKey key) ?_ rfl
  generalize t.server.hasKey key = found
  cases polls with
  | zero => cases found <;> exact ⟨_, h, rfl⟩
  | succ polls => cases found <;> exact ⟨_, h, rfl⟩

theorem serve_reading
    (h : t.client i = barrierRest key i ((StoreClient.fetchObject key (some (.members ∅))).bind
      (StoreClient.ifFull (objectLength rt) worldSize retry))) :
    t.serve MetaServer.answer i = t.goto i (barrierRest key i (StoreClient.ifFull (objectLength rt) worldSize retry
      (some ((t.server.storage key).getD (.members ∅))))) := by
  refine serve_answered (r := .getObject key) (a := .stored (t.server.storage key)) ?_ ?_
  · generalize t.server.storage key = stored
    cases stored <;> exact ⟨_, h, rfl⟩
  · simp only [MetaServer.answer, MetaServer.getObject_none]

theorem serve_cleaning
    (h : t.client i = (StoreClient.deleteIfExists key).bind (fun _ => StoreClient.ok .none)) :
    t.serve MetaServer.answer i = ⟨t.server.deleteIfExists key, (t.goto i (StoreClient.ok .none)).client⟩ := by
  unfold MetaServer.deleteIfExists
  cases hdelete : t.server.delete key with
  | ok server =>
    apply serve_answered (a := .done) ⟨_, h, rfl⟩
    simp only [MetaServer.answer, hdelete]
  | error e =>
    apply serve_answered (a := .error e) ⟨_, h, rfl⟩
    simp only [MetaServer.answer, hdelete]

end Serve

section Meets

variable {t : StoreSystem Obj} {b b' : BarrierState} {client : StoreClient Obj (StoreValue Obj)} {phase : BarrierPhase}

theorem Meets.move (h : Meets rt key worldSize t b) (hclient : InPhase rt key worldSize i phase client)
    (hserver : b'.server = b.server) (hphase : ∀ j, b'.phase j = if j = i then phase else b.phase j) :
    Meets rt key worldSize (t.goto i client) b' := by
  refine ⟨hserver ▸ h.stored, hserver ▸ h.ranks, ?_⟩
  intro j
  rw [System.goto_client, hphase]
  split_ifs with hj
  · exact hj ▸ hclient
  · exact h.client j

theorem Meets.goto (h : Meets rt key worldSize t b) (hclient : InPhase rt key worldSize i phase client) :
    Meets rt key worldSize (t.goto i client) (b.goto i phase) :=
  h.move hclient rfl (b.goto_phase i · phase)

theorem Meets.read (h : Meets rt key worldSize t b) : ∃ ranks : Finset ℕ, (∀ rank ∈ ranks, rank < worldSize) ∧
    (t.server.storage key).getD (.members ∅) = .members (ranks.image rt.intObject) ∧
      lenOf (b.server.getObject key (some (.members ∅))) = some ranks.card := by
  have hstored := h.stored
  unfold MetaServer.getObject
  cases hb : b.server.storage key with
  | none =>
    rw [hb] at hstored
    exact ⟨∅, by simp, by rw [hstored]; rfl, rfl⟩
  | some stored =>
    obtain ⟨ranks, rfl, -, hranks⟩ := h.ranks _ hb
    rw [hb] at hstored
    exact ⟨ranks, hranks, by rw [hstored]; rfl, rfl⟩

theorem Meets.hasKey (h : Meets rt key worldSize t b) : t.server.hasKey key = b.server.hasKey key := by
  unfold MetaServer.hasKey
  rw [h.stored, Option.isSome_map]

/-- The calls of `barrier` are the same after the step. -/
def SameCalls (b b' : BarrierState) : Prop := b'.entered = b.entered

theorem Meets.stay (h : Meets rt key worldSize t b) (hclient : InPhase rt key worldSize i (b.phase i) client) :
    Meets rt key worldSize (t.goto i client) b := by
  apply h.move hclient rfl
  intro j
  split_ifs with hj
  · rw [hj]
  · rfl

theorem Meets.add (h : Meets rt key worldSize t b) (hi : i < worldSize)
    (hclient : InPhase rt key worldSize i .polling client) : ∃ server server',
      t.server.addObjectToSet key (rt.intObject i) = .ok server ∧ b.server.addObjectToSet key i = .ok server' ∧
        Meets rt key worldSize ⟨server, (t.goto i client).client⟩ ((b.goto i .polling).serve server') := by
  have hgoto := h.goto hclient
  have hstored := h.stored
  unfold MetaServer.addObjectToSet
  cases hb : b.server.storage key with
  | none =>
    rw [hb] at hstored
    rw [hstored]
    refine ⟨_, _, rfl, rfl, ?_, ?_, hgoto.client⟩
    · simp [storedRanks]
    · intro stored hstored'
      rw [BarrierState.serve_server, MetaServer.storage_store] at hstored'
      obtain rfl := Option.some.inj hstored'
      exact ⟨{i}, rfl, Finset.singleton_nonempty i, by simpa using hi⟩
  | some stored =>
    obtain ⟨ranks, rfl, -, hranks⟩ := h.ranks _ hb
    rw [hb] at hstored
    rw [hstored]
    refine ⟨_, _, rfl, rfl, ?_, ?_, hgoto.client⟩
    · simp [storedRanks, Finset.image_insert]
    · intro stored hstored'
      rw [BarrierState.serve_server, MetaServer.storage_store] at hstored'
      obtain rfl := Option.some.inj hstored'
      refine ⟨insert i ranks, rfl, Finset.insert_nonempty i ranks, ?_⟩
      intro rank hrank
      rcases Finset.mem_insert.mp hrank with rfl | hrank
      · exact hi
      · exact hranks rank hrank

theorem Meets.clean (h : Meets rt key worldSize t b) (hclient : InPhase rt key worldSize 0 .outside client) :
    Meets rt key worldSize ⟨t.server.deleteIfExists key, (t.goto 0 client).client⟩
      ((b.leave 0).serve (b.server.deleteIfExists key)) := by
  have hgoto := h.goto hclient
  refine ⟨?_, ?_, hgoto.client⟩
  · simp
  · simp

theorem Meets.again {retry : StoreClient Obj Unit} (h : Meets rt key worldSize t b)
    (hretry : WaitsAgain rt key worldSize retry) (hphase : b.phase i = .polling) :
    ∃ b', Run (Under (BarrierStep worldSize key) SameCalls) b b' ∧
      Meets rt key worldSize (t.goto i (barrierRest key i retry)) b' := by
  cases hretry with
  | expire => exact ⟨_, .single ⟨.expire b i hphase, rfl⟩, h.goto .failed⟩
  | round polls hretry => exact ⟨b, .refl, h.stay (hphase ▸ .polling polls hretry)⟩

omit [DecidableEq Obj] in
theorem ifFull_members (objects : Finset Obj) (retry : StoreClient Obj Unit) :
    StoreClient.ifFull (objectLength rt) worldSize retry (some (.members objects)) =
      if worldSize ≤ objects.card then StoreClient.ok () else retry := rfl

omit [DecidableEq Obj] in
theorem ifFull_empty (hpos : 0 < worldSize) (retry : StoreClient Obj Unit) :
    StoreClient.ifFull (objectLength rt) worldSize retry (some (.members ∅)) = retry := by
  rw [ifFull_members]
  exact if_neg (by simpa using hpos.ne')

theorem Meets.full (h : Meets rt key worldSize t b) {n : ℕ} (hphase : b.phase i = .reading)
    (hlen : lenOf (b.server.getObject key (some (.members ∅))) = some n) (hn : worldSize ≤ n) :
    ∃ b', Run (Under (BarrierStep worldSize key) SameCalls) b b' ∧
      Meets rt key worldSize (t.goto i (barrierRest key i (StoreClient.ok ()))) b' := by
  have hfull := BarrierStep.full b i n hphase hlen hn
  by_cases hzero : i = 0
  · rw [if_pos hzero] at hfull
    refine ⟨_, .single ⟨hfull, rfl⟩, ?_⟩
    have hclient : barrierRest key i (StoreClient.ok () : StoreClient Obj Unit) =
        (StoreClient.deleteIfExists key).bind (fun _ => StoreClient.ok .none) := by
      subst hzero
      rfl
    rw [hclient]
    exact h.goto (.cleaning hzero)
  · rw [if_neg hzero] at hfull
    refine ⟨_, .single ⟨hfull, rfl⟩, ?_⟩
    have hclient : barrierRest key i (StoreClient.ok () : StoreClient Obj Unit) = StoreClient.ok .none := by
      unfold barrierRest
      simp only [if_neg hzero]
      rfl
    rw [hclient]
    exact h.move (.outside .none) rfl (b.leave_phase i)

theorem Meets.tooFew {retry : StoreClient Obj Unit} (h : Meets rt key worldSize t b) {n : ℕ}
    (hphase : b.phase i = .reading) (hlen : lenOf (b.server.getObject key (some (.members ∅))) = some n)
    (hn : n < worldSize) (hretry : WaitsAgain rt key worldSize retry) :
    ∃ b', Run (Under (BarrierStep worldSize key) SameCalls) b b' ∧
      Meets rt key worldSize (t.goto i (barrierRest key i retry)) b' := by
  have hpolling : (b.goto i .polling).phase i = .polling := by simp
  obtain ⟨b', hrun, hmeets⟩ := (h.goto (.polling 0 hretry)).again hretry hpolling
  rw [System.goto_goto] at hmeets
  exact ⟨b', .head ⟨.retry b i n hphase hlen hn, rfl⟩ hrun, hmeets⟩

theorem Meets.serve (hinj : ∀ rank < worldSize, ∀ rank' < worldSize, rt.intObject rank = rt.intObject rank' →
    rank = rank') (hinside : ∀ i, b.phase i ≠ .outside → i < worldSize) (h : Meets rt key worldSize t b) (i : ℕ) :
    ∃ b', Run (Under (BarrierStep worldSize key) SameCalls) b b' ∧
      Meets rt key worldSize (t.serve MetaServer.answer i) b' := by
  -- a request of a client is a step of the protocol, or two when its time is over, or none
  have hclient := h.client i
  generalize hphase : b.phase i = phase at hclient
  generalize hi : t.client i = client at hclient
  cases hclient with
  | outside value => exact ⟨b, .refl, by rwa [System.serve_done hi]⟩
  | failed => exact ⟨b, .refl, by rwa [System.serve_done hi]⟩
  | adding polls rounds =>
    obtain ⟨retry, hretry, hwait⟩ := waitsAgain_waitSet rt key worldSize polls rounds
    obtain ⟨server, server', hadd, hadd', hmeets⟩ := h.add (hinside i (by simp [hphase])) (.polling polls hretry)
    refine ⟨_, .single ⟨.add b i server' hphase hadd', rfl⟩, ?_⟩
    rwa [serve_adding hi hadd, hwait]
  | polling polls hretry =>
    rw [serve_polling hi]
    by_cases hkey : t.server.hasKey key = true
    · rw [if_pos hkey]
      exact ⟨_, .single ⟨.found b i hphase (h.hasKey ▸ hkey), rfl⟩, h.goto (.reading hretry)⟩
    · rw [if_neg hkey]
      cases polls with
      | zero =>
        have hpos : 0 < worldSize := Nat.zero_lt_of_lt (hinside i (by simp [hphase]))
        rw [ifFull_empty hpos]
        exact h.again hretry hphase
      | succ polls => exact ⟨b, .refl, h.stay (hphase ▸ .polling polls hretry)⟩
  | reading hretry =>
    obtain ⟨ranks, hranks, hget, hlen⟩ := h.read
    have hcard : (ranks.image rt.intObject).card = ranks.card :=
      Finset.card_image_of_injOn fun rank hrank rank' hrank' => hinj rank (hranks _ hrank) rank' (hranks _ hrank')
    rw [serve_reading hi, hget, ifFull_members, hcard]
    split_ifs with hn
    · exact h.full hphase hlen hn
    · exact h.tooFew hphase hlen (Nat.not_le.mp hn) hretry
  | cleaning hzero =>
    subst hzero
    rw [serve_cleaning hi]
    exact ⟨_, .single ⟨.clean b hphase, rfl⟩, h.clean (.outside .none)⟩

end Meets

section Runs

/-- Clients below the world size call this barrier and nothing else. -/
def OnlyBarrier (key : String) (worldSize : ℕ) : ClientEvent (StoreOperation Obj) → Prop
  | .call i op => i < worldSize ∧ ∃ polls rounds, op = .barrier key i worldSize polls rounds
  | .serve _ => True

def calls (i : ℕ) (events : List (ClientEvent (StoreOperation Obj))) : ℕ :=
  events.countP fun
    | .call j _ => j = i
    | .serve _ => false

/-- Where the clients are after the events, each of them having called `barrier` at most once. -/
structure MeetsOnce (rt : Runtime Obj Json) (key : String) (worldSize : ℕ) (t : StoreSystem Obj) (b : BarrierState)
    (events : List (ClientEvent (StoreOperation Obj))) : Prop where
  meets : Meets rt key worldSize t b
  rounds : b.Rounds worldSize key
  entered : ∀ i, b.entered i = calls i events

variable {t : StoreSystem Obj} {b b' : BarrierState} {events : List (ClientEvent (StoreOperation Obj))}

omit [DecidableEq Obj] in
theorem sameCalls_rounds (h : b.Rounds worldSize key) (honce : ∀ i, b.entered i ≤ 1)
    (hrun : Run (Under (BarrierStep worldSize key) SameCalls) b b') :
    b'.Rounds worldSize key ∧ b'.entered = b.entered := by
  apply hrun.invariant (fun s => s.Rounds worldSize key ∧ s.entered = b.entered) ⟨h, rfl⟩
  rintro s s' ⟨hs, hentered⟩ ⟨hstep, hsame⟩
  have hsame' : s'.entered = b.entered := hsame.trans hentered
  refine ⟨hs.step ⟨hstep, ?_⟩, hsame'⟩
  apply BarrierState.readsAfterCleaning_of_oneCall hstep
  intro i
  rw [hsame']
  exact honce i

omit [DecidableEq Obj] in
theorem calls_call (i j : ℕ) (op : StoreOperation Obj) :
    calls j (events ++ [.call i op]) = calls j events + if i = j then 1 else 0 := by
  unfold calls
  rw [List.countP_append, List.countP_singleton]
  simp

omit [DecidableEq Obj] in
theorem calls_serve (i j : ℕ) : calls j (events ++ [.serve i]) = calls j events := by
  unfold calls
  rw [List.countP_append, List.countP_singleton]
  simp

omit [DecidableEq Obj] in
theorem lt_of_called (honly : ∀ event ∈ events, OnlyBarrier key worldSize event) (hcalled : 0 < calls i events) :
    i < worldSize := by
  obtain ⟨event, hevent, hcall⟩ := List.countP_pos_iff.mp hcalled
  cases event with
  | call j op =>
    have hj := (honly _ hevent).1
    rwa [of_decide_eq_true hcall] at hj
  | serve j => cases hcall

theorem MeetsOnce.call (h : MeetsOnce rt key worldSize t b events) {op : StoreOperation Obj}
    (honly : OnlyBarrier key worldSize (.call i op)) (hfirst : calls i events = 0) :
    MeetsOnce rt key worldSize (t.call i (op.program (objectLength rt) rt.intObject)) (b.call i)
      (events ++ [.call i op]) := by
  obtain ⟨hi, polls, rounds, rfl⟩ := honly
  have houtside : b.phase i = .outside := by
    have hbalance := h.rounds.balance i
    rw [h.entered, hfirst] at hbalance
    split_ifs at hbalance with hphase
    exact hphase
  have hclient := h.meets.client i
  rw [houtside] at hclient
  generalize hdone : t.client i = client at hclient
  cases hclient with
  | outside value =>
    rw [System.call_returned hdone]
    refine ⟨h.meets.move (.adding polls rounds) rfl (b.call_phase i), h.rounds.call hi houtside, ?_⟩
    intro j
    rw [BarrierState.call_entered, calls_call]
    split_ifs with hji hij hij
    · rw [hji, h.entered]
    · exact absurd hji.symm hij
    · exact absurd hij.symm hji
    · exact h.entered j

theorem meetsOnce_runStore (hinj : ∀ rank < worldSize, ∀ rank' < worldSize, rt.intObject rank = rt.intObject rank' →
    rank = rank') {store : MetaServer String Obj} (hfree : store.storage key = none)
    (events : List (ClientEvent (StoreOperation Obj))) (honly : ∀ event ∈ events, OnlyBarrier key worldSize event)
    (honce : ∀ i, calls i events ≤ 1) : ∃ b, MeetsOnce rt key worldSize (runStore rt store events) b events := by
  induction events using List.reverseRecOn with
  | nil =>
    have hfresh := BarrierState.initial_fresh key
    refine ⟨BarrierState.initial, ⟨?_, ?_, fun i => .outside .none⟩, hfresh.rounds, fun _ => rfl⟩
    · rw [hfresh.absent]
      exact hfree
    · rw [hfresh.absent]
      simp
  | append_singleton events event ih =>
    have hmono : ∀ i, calls i events ≤ calls i (events ++ [event]) := by
      intro i
      unfold calls
      rw [List.countP_append]
      omega
    obtain ⟨b, hb⟩ := ih (fun event' hevent => honly event' (List.mem_append_left _ hevent))
      (fun i => (hmono i).trans (honce i))
    have hlast := honly event (List.mem_append_right _ (List.mem_singleton_self event))
    have hrun : runStore rt store (events ++ [event]) = (runStore rt store events).next MetaServer.answer
        (StoreOperation.program (objectLength rt) rt.intObject) event := List.foldl_concat ..
    rw [hrun]
    cases event with
    | call i op =>
      have hfirst := honce i
      rw [calls_call, if_pos rfl] at hfirst
      exact ⟨b.call i, hb.call hlast (by omega)⟩
    | serve i =>
      have hentered : ∀ j, b.entered j ≤ 1 := by
        intro j
        rw [hb.entered]
        exact (hmono j).trans (honce j)
      obtain ⟨b', hrun', hmeets⟩ := hb.meets.serve hinj hb.rounds.inside i
      obtain ⟨hrounds, hsame⟩ := sameCalls_rounds hb.rounds hentered hrun'
      refine ⟨b', hmeets, hrounds, ?_⟩
      intro j
      rw [hsame, hb.entered, calls_serve]

omit [DecidableEq Obj] in
theorem InPhase.running_or {phase : BarrierPhase} {client : StoreClient Obj (StoreValue Obj)}
    (h : InPhase rt key worldSize i phase client) : client.Running ∨
      (phase = .outside ∧ ∃ value, client = StoreClient.ok value) ∨
        client = StoreClient.raise (.setTimeout key worldSize) := by
  cases h with
  | outside value => exact Or.inr (Or.inl ⟨rfl, value, rfl⟩)
  | failed => exact Or.inr (Or.inr rfl)
  | polling polls => cases polls <;> exact Or.inl trivial
  | _ => exact Or.inl trivial

omit [DecidableEq Obj] in
theorem InPhase.of_returned {phase : BarrierPhase} {value : StoreValue Obj}
    (h : InPhase rt key worldSize i phase (Client.done (.ok value))) : phase = .outside := by
  rcases h.running_or with hrunning | ⟨hphase, -⟩ | hraised
  · exact hrunning.elim
  · exact hphase
  · cases hraised

omit [DecidableEq Obj] in
theorem InPhase.of_raised {phase : BarrierPhase} {e : StoreError}
    (h : InPhase rt key worldSize i phase (Client.done (.error e))) : e = .setTimeout key worldSize := by
  rcases h.running_or with hrunning | ⟨-, value, hreturned⟩ | hraised
  · exact hrunning.elim
  · cases hreturned
  · cases hraised
    rfl

theorem MeetsOnce.returned (h : MeetsOnce rt key worldSize t b events) (honce : calls i events ≤ 1)
    (hcalled : 0 < calls i events) {value : StoreValue Obj} (hdone : t.client i = .done (.ok value)) :
    b.returned i = 1 := by
  have hphase : b.phase i = .outside := InPhase.of_returned (hdone ▸ h.meets.client i)
  have hbalance := h.rounds.balance i
  rw [h.entered, if_pos hphase] at hbalance
  omega

theorem MeetsOnce.cleaned (h : MeetsOnce rt key worldSize t b events) (honce : ∀ i, calls i events ≤ 1)
    (hreturned : b.returned 0 = 1) : t.server.storage key = none := by
  rw [h.meets.stored]
  cases hb : b.server.storage key with
  | none => rfl
  | some stored =>
    obtain ⟨ranks, rfl, ⟨rank, hrank⟩, -⟩ := h.meets.ranks _ hb
    have hmem : rank ∈ b.server.setAt key := by
      unfold MetaServer.setAt
      rwa [hb]
    have hadded := (h.rounds.members rank hmem).2
    have hentered := b.added_le rank
    have hcalls := honce rank
    rw [h.entered] at hentered
    omega

end Runs

/-- Clients that run `barrier` against the meta server, whose requests interleave in any way: a client that returns
has waited for all of them, and client 0 leaves nothing behind. -/
theorem barrier_clients_meet (rt : Runtime Obj Json) (members : Finset Obj) (hrt : rt.Lossless)
    (hmembers : rt.Collects members) (key : String) (worldSize : ℕ)
    (hranks : ∀ rank < worldSize, rt.intObject rank ∈ members)
    (hinj : ∀ rank < worldSize, ∀ rank' < worldSize, rt.intObject rank = rt.intObject rank' → rank = rank')
    (server : ServerState Obj) (store : MetaServer String Obj) (h : KeepsStore rt members server store)
    (hfree : server.get? key = none) (events : List (ClientEvent (StoreOperation Obj)))
    (honly : ∀ event ∈ events, OnlyBarrier key worldSize event) (honce : ∀ i, calls i events ≤ 1) :
    (∀ i e, (runClients rt server events).client i = .done (.error e) → e = .setTimeout key worldSize) ∧
      ∀ i, 0 < calls i events → (∃ value, (runClients rt server events).client i = .done (.ok value)) →
        (∀ j < worldSize, 0 < calls j events) ∧
          (i = 0 → (runClients rt server events).server.get? key = none) := by
  have hfits : ∀ i op, .call i op ∈ events → op.Fits rt members := by
    intro i op hop
    obtain ⟨hi, polls, rounds, rfl⟩ := honly _ hop
    exact hranks i hi
  have hstore : store.storage key = none := by
    have hkey := h.isSome key
    rw [hfree] at hkey
    simpa [MetaServer.hasKey] using hkey.symm
  obtain ⟨b, hb⟩ := meetsOnce_runStore hinj hstore events honly honce
  obtain ⟨hserver, hclients⟩ := runClients_refines hrt hmembers h hfits
  constructor
  · intro i e hraised
    have hends := (hclients i).endsLike
    rw [hraised] at hends
    generalize hclient : (runStore rt store events).client i = client at hends
    cases hends with
    | raised hreports =>
      obtain rfl := InPhase.of_raised (hclient ▸ hb.meets.client i)
      cases hreports
      rfl
  · rintro i hcalled ⟨value, hdone⟩
    have hends := (hclients i).endsLike
    rw [hdone] at hends
    generalize hclient : (runStore rt store events).client i = client at hends
    cases hends with
    | returned _ =>
      have hreturned := hb.returned (honce i) hcalled hclient
      have hi : i < worldSize := lt_of_called honly hcalled
      constructor
      · intro j hj
        have hsafe := hb.rounds.safe i hi j hj
        rw [hreturned, hb.entered] at hsafe
        exact hsafe
      · rintro rfl
        have hgone := hb.cleaned honce hreturned
        have hkey := hserver.isSome key
        rw [MetaServer.hasKey, hgone] at hkey
        simpa using hkey

theorem barrier_clients_meet_twoRanks :
    (∀ i e, (runClients rankRuntime freshServer barrierEvents).client i = .done (.error e) →
      e = .setTimeout "key" 2) ∧
    (∀ i, 0 < calls i barrierEvents →
      (∃ value, (runClients rankRuntime freshServer barrierEvents).client i = .done (.ok value)) →
        (∀ j < 2, 0 < calls j barrierEvents) ∧
          (i = 0 → (runClients rankRuntime freshServer barrierEvents).server.get? "key" = none)) := by
  refine barrier_clients_meet rankRuntime twoRanks rankRuntime_lossless rankRuntime_collects "key" 2 (by decide)
    (by decide) freshServer ⟨fun _ => none⟩ (fun _ => .absent) rfl barrierEvents ?_ ?_
  · simp [barrierEvents, OnlyBarrier]
  · intro i
    simp only [calls, barrierEvents, List.countP_cons, List.countP_nil]
    split_ifs <;> simp_all

end Awex
