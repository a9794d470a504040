import EventBus.Spec.ClientSubscribe
import EventBus.Spec.ManagerClients

/-!
# Subscriptions over reconnects

`connect` sets `c.current` and copies `c.topics` in one section, and `Subscribe` enters its topic
and reads `c.current` in one section. A topic is therefore in the copy that is subscribed on the
new client, or it is subscribed by the call that has read the new client, and not by both.

## Key results

- `entered_inv`: where a call of `Subscribe` stands after its section
- `todo_inv`, `connected_sent`: what `connect` has subscribed
- `subscriptions_survive`: no topic is missed and none is subscribed twice
-/

namespace EventBus

variable {call call' : ManagerCall} {topic : Bytes} {reader : Option ClientId}
  {log obs os : List ManagerObs} {pc pc' : ManagerPc} {op : ClientOp} {m : ConnectionManager}
  {a : ManagerAction} {taken : Option (ClientId × ClientAction)} {client : ClientId}
  {clientCall : ClientCall} {clients : List Client} {o : ManagerObs} {starting : Bool}
  {rest : List Bytes} {after : AfterMethod}

/-! ## Calls of Subscribe -/

/-- Where a call of `Subscribe(topic)` stands that has read `reader` as `c.current`. -/
inductive Entered (call : ManagerCall) (topic : Bytes) (reader : Option ClientId)
    (log : List ManagerObs) : ManagerPc → Prop
  | method {client : ClientId} : reader = some client →
      Entered call topic reader log (.method client (.subscribe topic) .reply)
  | wait {client : ClientId} {clientCall : ClientCall} : reader = some client →
      .client client (.invoked clientCall (.subscribe topic)) ∈ log →
      Entered call topic reader log (.wait client (.subscribe topic) clientCall .reply)
  | failed {err : ManagerErr} : .returned call (.failed err) ∈ log →
      Entered call topic reader log (.returned (.failed err))
  | ok {client : ClientId} : reader = some client →
      SubscribeSent topic (clientLogOf client log) →
      Entered call topic reader log (.returned .ok)

theorem Entered.append (h : Entered call topic reader log pc) (os : List ManagerObs) :
    Entered call topic reader (log ++ os) pc := by
  cases h with
  | method hr => exact .method hr
  | wait hr ho => exact .wait hr (List.mem_append_left _ ho)
  | failed ho => exact .failed (List.mem_append_left _ ho)
  | ok hr hsent =>
    refine .ok hr ?_
    rw [clientLogOf_append]
    exact hsent.append _

/-- What is known of a call of `Subscribe`. -/
structure EnteredInv (call : ManagerCall) (log : List ManagerObs) (m : ConnectionManager) :
    Prop where
  asked : ∀ topic, m.calls call = some (.subscribe topic) →
    .invoked call (.subscribe topic) ∈ log
  entered : ∀ topic reader, .entered call topic reader ∈ log →
    .invoked call (.subscribe topic) ∈ log ∧
      ∃ pc, m.calls call = some pc ∧ Entered call topic reader log pc
  method : ∀ client topic after,
    m.calls call = some (.method client (.subscribe topic) after) →
    .entered call topic (some client) ∈ log

theorem ManagerOp.start_ne {op : ManagerOp} :
    (∀ topic, op.start = .subscribe topic → op = .subscribe topic) ∧
      ∀ client clientOp after, op.start ≠ .method client clientOp after := by
  cases op with
  | publish event random =>
    cases random with
    | ok => exact ⟨nofun, nofun⟩
    | error =>
      unfold ManagerOp.start
      dsimp only
      split
      · exact ⟨nofun, nofun⟩
      · exact ⟨nofun, nofun⟩
  | subscribe topic =>
    refine ⟨fun topic' heq => ?_, nofun⟩
    obtain rfl := ManagerPc.subscribe.inj heq
    rfl
  | acknowledge => exact ⟨nofun, nofun⟩

theorem ConnectionManager.onCurrent_cases (m : ConnectionManager) (op : ClientOp) :
    (m.current = none ∧ m.onCurrent op = .returned (.failed .noBrokerAvailable)) ∨
      ∃ client, m.current = some client ∧ m.onCurrent op = .method client op .reply := by
  unfold ConnectionManager.onCurrent
  cases m.current with
  | none => exact .inl ⟨rfl, rfl⟩
  | some client => exact .inr ⟨client, rfl, rfl⟩

/-- A method gets to its section at its start only, and to `client.Subscribe` by the section. -/
theorem MethodMove.next (h : MethodMove m call a pc pc' taken obs) :
    (∀ topic, pc' ≠ .subscribe topic) ∧
      ∀ client topic after, pc' = .method client (.subscribe topic) after →
        .entered call topic (some client) ∈ obs := by
  cases h with
  | @subscribe topic =>
    obtain ⟨-, heq⟩ | ⟨client, hcur, heq⟩ := m.onCurrent_cases (.subscribe topic)
    · rw [heq]
      exact ⟨nofun, nofun⟩
    · rw [heq]
      refine ⟨nofun, fun client' topic' after heq => ?_⟩
      obtain ⟨rfl, hop, -⟩ := ManagerPc.method.inj heq
      obtain rfl := ClientOp.subscribe.inj hop
      rw [hcur]
      exact List.mem_cons_self
  | @acknowledge eventID =>
    obtain ⟨-, heq⟩ | ⟨client, -, heq⟩ := m.onCurrent_cases (.acknowledge eventID)
    · rw [heq]
      exact ⟨nofun, nofun⟩
    · rw [heq]
      exact ⟨nofun, nofun⟩
  | @result _ _ after _ ret => cases after <;> cases ret <;> exact ⟨nofun, nofun⟩
  | @retry event attempt =>
    unfold nextPublish
    split
    · exact ⟨nofun, nofun⟩
    · exact ⟨nofun, nofun⟩
  | _ => exact ⟨nofun, nofun⟩

section Calls

variable {ctx : Ctx} {endpoints : List Bytes} {clientID : Bytes}
  {G : ConnectionManager → ManagerAction → Prop} {m' : ConnectionManager}

/-- A method of a client that the manager has called has returned. -/
theorem methodResult_reach {ret : ClientRet}
    (h : (ConnectionManager.lts ctx endpoints clientID).Reach G log m)
    (hret : m.methodResult client clientCall = some ret)
    (ho : .client client (.invoked clientCall (.subscribe topic)) ∈ log) :
    (∃ err, ret = .failed err) ∨
      (ret = .ok ∧ SubscribeSent topic (clientLogOf client log)) := by
  unfold ConnectionManager.methodResult at hret
  split at hret
  · rename_i c hc
    split at hret
    · rename_i hpc
      cases hret
      obtain ⟨pc, hpc', hst⟩ :=
        subscribing_inv (ConnectionManager.reach_client h hc) (mem_clientLogOf.mpr ho)
      obtain rfl := Option.some.inj (hpc.symm.trans hpc')
      cases hst with
      | failed => exact .inl ⟨_, rfl⟩
      | ok hsent => exact .inr ⟨rfl, hsent⟩
    · cases hret
  · cases hret

/-- A client reports the call of its method. -/
theorem ClientsChange.invoked {clients' : List Client}
    (h : ClientsChange clients (some (client, .invoke clientCall op)) clients' os) :
    .client client (.invoked clientCall op) ∈ os := by
  cases h with
  | step _ hstep =>
    cases client_step_effect hstep with
    | invoke => exact List.mem_map_of_mem List.mem_cons_self

/-- A call of `Subscribe` that has entered its topic goes on. -/
theorem Entered.move (h : (ConnectionManager.lts ctx endpoints clientID).Reach G log m)
    {cos : List ManagerObs} (hst : Entered call topic reader log pc)
    (hm : MethodMove m call a pc pc' taken obs) (hch : ClientsChange m.clients taken clients cos) :
    Entered call topic reader
      (log ++ (cos ++ (obs ++ ConnectionManager.returnObs call pc'))) pc' := by
  cases hst with
  | method hr =>
    cases hm with
    | method => exact .wait hr (List.mem_append_right _ (List.mem_append_left _ hch.invoked))
  | wait hr ho =>
    cases hm with
    | result hret =>
      obtain ⟨err, rfl⟩ | ⟨rfl, hsent⟩ := methodResult_reach h hret ho
      · exact .failed (List.mem_append_right _ (List.mem_append_right _ List.mem_cons_self))
      · refine .ok hr ?_
        rw [clientLogOf_append]
        exact hsent.append _
  | failed | ok => cases hm

theorem entered_inv (h : (ConnectionManager.lts ctx endpoints clientID).Reach G log m)
    (call : ManagerCall) : EnteredInv call log m := by
  refine h.induct_reach (P := fun log m => EnteredInv call log m) ?_ ?_
  · rintro _ rfl
    constructor
    · exact fun topic hpc => nomatch hpc
    · exact fun topic reader ho => nomatch ho
    · exact fun client topic after hpc => nomatch hpc
  intro log m a m' os hr ih _ hstep
  obtain ⟨hsame, hinvoked, hentered⟩ | ⟨op, hnone, hpc', rfl⟩ |
    ⟨pc, pc', taken, obs, clients, cos, hpc, hm, hch, hpc', rfl⟩ :=
    (manager_step_effect hstep).cases_call call
  · constructor
    · exact fun topic hpc => List.mem_append_left _ (ih.asked topic (hsame ▸ hpc))
    · intro topic reader ho
      obtain ⟨hasked, pc, hpc, hst⟩ :=
        ih.entered topic reader ((List.mem_append.mp ho).resolve_right (hentered topic reader))
      exact ⟨List.mem_append_left _ hasked, pc, hsame.trans hpc, hst.append os⟩
    · exact fun client topic after hpc =>
        List.mem_append_left _ (ih.method client topic after (hsame ▸ hpc))
  · constructor
    · intro topic hpc
      have hop := ManagerOp.start_ne.1 topic (Option.some.inj (hpc'.symm.trans hpc))
      exact List.mem_append_right _ (hop ▸ List.mem_cons_self)
    · -- a call that is made now has entered nothing
      intro topic reader ho
      obtain hold | hnew := List.mem_append.mp ho
      · obtain ⟨-, pc, hpc, -⟩ := ih.entered topic reader hold
        exact nomatch hnone.symm.trans hpc
      · simp at hnew
    · exact fun client topic after hpc =>
        absurd (Option.some.inj (hpc'.symm.trans hpc)) (ManagerOp.start_ne.2 _ _ _)
  · obtain ⟨hsub, hmethod⟩ := hm.next
    constructor
    · exact fun topic hpc => absurd (Option.some.inj (hpc'.symm.trans hpc)) (hsub topic)
    · intro topic reader ho
      obtain hold | hnew := List.mem_append.mp ho
      · obtain ⟨hasked, pc₀, hpc₀, hst⟩ := ih.entered topic reader hold
        obtain rfl := Option.some.inj (hpc.symm.trans hpc₀)
        exact ⟨List.mem_append_left _ hasked, pc', hpc', hst.move hr hm hch⟩
      · -- the section itself
        have hobs : .entered call topic reader ∈ obs := by
          simpa using hch.mem_own hnew nofun
        obtain ⟨topic', rfl, rfl, -, heq⟩ := hm.mem_obs hobs
        obtain ⟨-, rfl, rfl⟩ := ManagerObs.entered.inj heq
        refine ⟨List.mem_append_left _ (ih.asked topic hpc), _, hpc', ?_⟩
        obtain ⟨-, heq⟩ | ⟨client, hcur, heq⟩ := m.onCurrent_cases (.subscribe topic)
        · rw [heq]
          refine .failed (List.mem_append_right _ (List.mem_append_right _ ?_))
          exact List.mem_append_right _ List.mem_cons_self
        · rw [heq]
          exact .method hcur
    · intro client topic after hpc₁
      obtain rfl := Option.some.inj (hpc'.symm.trans hpc₁)
      have hobs := hmethod client topic after rfl
      exact List.mem_append_right _ (List.mem_append_right _ (List.mem_append_left _ hobs))

/-- A call that has entered its topic is not before its section. -/
theorem entered_ne_asked (h : (ConnectionManager.lts ctx endpoints clientID).Reach G log m)
    {topic' : Bytes} (ho : .entered call topic reader ∈ log)
    (hpc : m.calls call' = some (.subscribe topic')) :
    call ≠ call' := by
  rintro rfl
  obtain ⟨-, pc, hpc', hst⟩ := (entered_inv h call).entered topic reader ho
  obtain rfl := Option.some.inj (hpc.symm.trans hpc')
  cases hst

end Calls

/-! ## Steps of connect -/

/-- The topics that `connect` has still to subscribe on the client, with the one under way. -/
def MainPc.todo? : MainPc → Option (ClientId × List Bytes)
  | .connect _ (.subscribe client topics _) => some (client, topics)
  | .connect _ (.subscribeWait client topic _ topics _) => some (client, topic :: topics)
  | _ => none

/-- The observations of `connect`. -/
def ManagerObs.ofConnect : ManagerObs → Bool
  | .dialed .. | .installed .. | .connected _ => true
  | _ => false

section Steps

variable {m' : ConnectionManager}

/-- An observation of the manager itself is one of the move. -/
theorem ManagerEffect.mem_move (h : ManagerEffect m a m' os) (ho : o ∈ os)
    (hne : ∀ client o', o ≠ .client client o') : ∃ out clients cos, ManagerMove m a out ∧
      ClientsChange out.manager.clients out.client clients cos ∧
      m' = { out.manager with clients := clients } ∧ os = cos ++ out.obs ∧ o ∈ out.obs := by
  cases h with
  | @mk out clients cos hm hch =>
    exact ⟨out, clients, cos, hm, hch, rfl, rfl, hch.mem_own ho hne⟩

/-- What `connect` reports is reported by a step of the goroutine of `run`. -/
theorem ManagerEffect.mem_main (h : ManagerEffect m a m' os) (ho : o ∈ os)
    (hconnect : o.ofConnect = true) : ∃ pc out clients cos, m.main = pc ∧ MainMove m a pc out ∧
      ClientsChange out.manager.clients out.client clients cos ∧
      m' = { out.manager with clients := clients } ∧ os = cos ++ out.obs ∧ o ∈ out.obs := by
  obtain ⟨out, clients, cos, hm, hch, hm', hos, hobs⟩ :=
    h.mem_move ho (by rintro client o' rfl; exact nomatch hconnect)
  cases hm with
  | @main _ pc _ hpc hm => exact ⟨pc, _, clients, cos, hpc, hm, hch, hm', hos, hobs⟩
  | close _ hm => cases hm <;> exact nomatch hobs
  | invoke =>
    obtain rfl | hret := List.mem_cons.mp hobs
    · cases hconnect
    · obtain ⟨ret, -, rfl⟩ := ConnectionManager.mem_returnObs.mp hret
      cases hconnect
  | method _ hm =>
    obtain hobs | hret := List.mem_append.mp hobs
    · obtain ⟨_, -, -, -, rfl⟩ := hm.mem_obs hobs
      cases hconnect
    · obtain ⟨ret, -, rfl⟩ := ConnectionManager.mem_returnObs.mp hret
      cases hconnect
  | _ => cases hobs

theorem ManagerEffect.installed (h : ManagerEffect m a m' os) {topics : List Bytes}
    (ho : .installed client topics ∈ os) :
    (∃ starting rest, m.main = .connect starting (.install client rest) ∧
      m'.main = .connect starting (.subscribe client topics rest)) ∧
    topics.Perm m.topics.keys ∧ m'.topics = m.topics ∧ os = [.installed client topics] := by
  obtain ⟨pc, out, clients, cos, hpc, hm, hch, rfl, rfl, hobs⟩ := h.mem_main ho rfl
  clear ho h
  cases hm with
  | @install starting client' rest order hperm =>
    obtain ⟨rfl, rfl⟩ := ManagerObs.installed.inj (List.mem_singleton.mp hobs)
    cases hch
    exact ⟨⟨starting, rest, hpc, rfl⟩, hperm, rfl, rfl⟩
  | _ => simp at hobs

theorem ManagerEffect.connected (h : ManagerEffect m a m' os) (ho : .connected client ∈ os) :
    m.main.todo? = some (client, []) ∧ os = [.connected client] := by
  obtain ⟨pc, out, clients, cos, hpc, hm, hch, rfl, rfl, hobs⟩ := h.mem_main ho rfl
  clear ho h
  cases hm with
  | complete =>
    obtain rfl := ManagerObs.connected.inj (List.mem_singleton.mp hobs)
    cases hch
    rw [hpc]
    exact ⟨rfl, rfl⟩
  | _ => simp at hobs

theorem ManagerEffect.entered (h : ManagerEffect m a m' os) (ho : .entered call topic reader ∈ os) :
    m.calls call = some (.subscribe topic) ∧ reader = m.current ∧ m'.main = m.main ∧
      ∀ o ∈ os, o = .entered call topic reader ∨ ∃ ret, o = .returned call ret := by
  obtain ⟨out, clients, cos, hm, hch, rfl, rfl, hobs⟩ := h.mem_move ho nofun
  clear ho h
  cases hm with
  | main _ hm => cases hm <;> simp at hobs
  | close _ hm => cases hm <;> simp at hobs
  | @method _ call' pc pc' taken obs hpc hm =>
    obtain hobs | hobs := List.mem_append.mp hobs
    · obtain ⟨topic', rfl, rfl, rfl, heq⟩ := hm.mem_obs hobs
      obtain ⟨rfl, rfl, rfl⟩ := ManagerObs.entered.inj heq
      cases hch
      refine ⟨hpc, rfl, rfl, fun o ho => ?_⟩
      rw [List.nil_append] at ho
      obtain ho | ho := List.mem_append.mp ho
      · obtain ⟨topic', heq, -, -, rfl⟩ := hm.mem_obs ho
        obtain rfl := ManagerPc.subscribe.inj heq
        exact .inl rfl
      · obtain ⟨ret, -, rfl⟩ := ConnectionManager.mem_returnObs.mp ho
        exact .inr ⟨ret, rfl⟩
    · simp at hobs
  | _ => simp at hobs

/-- `connect` alone sets `c.current`. -/
theorem ManagerEffect.current (h : ManagerEffect m a m' os) (hcur : m'.current = some client) :
    m.current = some client ∨ ∃ topics, .installed client topics ∈ os := by
  cases h with
  | @mk out clients cos hm hch =>
    replace hcur : out.manager.current = some client := hcur
    cases hm with
    | main hpc hm =>
      cases hm with
      | install =>
        cases hcur
        exact .inr ⟨_, List.mem_append_right _ List.mem_cons_self⟩
      | clear => cases hcur
      | release =>
        -- `c.current` is kept, or reset
        simp only [Option.ite_none_left_eq_some] at hcur
        exact .inl hcur.2
      | _ => exact .inl hcur
    | close _ hm =>
      cases hm with
      | take => cases hcur
      | _ => exact .inl hcur
    | _ => exact .inl hcur

/-- `Subscribe` alone enters topics. -/
theorem ManagerEffect.topics (h : ManagerEffect m a m' os) :
    (∀ topic ∈ m.topics, topic ∈ m'.topics) ∧
      ∀ topic ∈ m'.topics, topic ∈ m.topics ∨ ∃ call, .entered call topic m.current ∈ os := by
  cases h with
  | @mk out clients cos hm hch =>
    show (∀ topic ∈ m.topics, topic ∈ out.manager.topics) ∧
      ∀ topic ∈ out.manager.topics, topic ∈ m.topics ∨ _
    cases hm with
    | main _ hm => cases hm <;> exact ⟨fun _ => id, fun _ => .inl⟩
    | close _ hm => cases hm <;> exact ⟨fun _ => id, fun _ => .inl⟩
    | @method _ call pc pc' taken obs hpc hm =>
      cases hm with
      | @subscribe topic =>
        refine ⟨fun topic' hmem => (AList.mem_insert _).mpr (.inr hmem), fun topic' hmem => ?_⟩
        obtain rfl | hold := (AList.mem_insert _).mp hmem
        · exact .inr ⟨call, List.mem_append_right _ List.mem_cons_self⟩
        · exact .inl hold
      | _ => exact ⟨fun _ => id, fun _ => .inl⟩
    | _ => exact ⟨fun _ => id, fun _ => .inl⟩

/-- A client that is about to be installed was so before, or is new. -/
theorem ManagerEffect.installing (h : ManagerEffect m a m' os)
    (hpc : m'.main = .connect starting (.install client rest)) :
    m.main = .connect starting (.install client rest) ∨ client = m.clients.length := by
  cases h with
  | @mk out clients cos hm hch =>
    replace hpc : out.manager.main = .connect starting (.install client rest) := hpc
    cases hm with
    | main _ hm =>
      cases hm with
      | dial =>
        obtain ⟨-, heq⟩ := MainPc.connect.inj hpc
        exact .inr (ConnectPc.install.inj heq).1.symm
      | connectClose | closeClient => exact .inl hpc
      | _ => cases hpc
    | close _ hm => cases hm <;> exact .inl hpc
    | _ => exact .inl hpc

/-- How the list of topics to subscribe comes about. -/
theorem ManagerEffect.todo (h : ManagerEffect m a m' os) {topics : List Bytes}
    (hpc : m'.main.todo? = some (client, topics)) :
    m.main.todo? = some (client, topics) ∨ .installed client topics ∈ os ∨
    ∃ starting topic call rest ret,
      m.main = .connect starting (.subscribeWait client topic call topics rest) ∧
      m.methodResult client call = some ret ∧ ∀ err, ret ≠ .failed err := by
  cases h with
  | @mk out clients cos hm hch =>
    replace hpc : out.manager.main.todo? = some (client, topics) := hpc
    cases hm with
    | main hmain hm =>
      cases hm with
      | install =>
        cases hpc
        exact .inr (.inl (List.mem_append_right _ List.mem_cons_self))
      | subscribe =>
        rw [hmain]
        exact .inl hpc
      | subscribed hret hok =>
        cases hpc
        exact .inr (.inr ⟨_, _, _, _, _, hmain, hret, hok⟩)
      | connectClose | closeClient => exact .inl hpc
      | _ => cases hpc
    | close _ hm => cases hm <;> exact .inl hpc
    | _ => exact .inl hpc

/-- Who calls a method of a client. -/
theorem ManagerEffect.client_invoked (h : ManagerEffect m a m' os)
    (ho : .client client (.invoked clientCall op) ∈ os) :
    (∃ starting topic topics rest, a = .connect (.subscribe clientCall) ∧ op = .subscribe topic ∧
      m.main = .connect starting (.subscribe client (topic :: topics) rest) ∧
      m'.main = .connect starting (.subscribeWait client topic clientCall topics rest) ∧
      m'.calls = m.calls) ∨
    (∃ call after, a = .method call clientCall ∧ m.calls call = some (.method client op after) ∧
      m'.main = m.main ∧ m'.calls call = some (.wait client op clientCall after) ∧
      ∀ call', call' ≠ call → m'.calls call' = m.calls call') := by
  cases h with
  | @mk out clients cos hm hch =>
    have hcos : .client client (.invoked clientCall op) ∈ cos :=
      (List.mem_append.mp ho).resolve_right (hm.no_client client _)
    -- the client takes the step of the invocation
    have htaken : out.client = some (client, .invoke clientCall op) := by
      generalize out.client = taken at hch
      cases hch with
      | stay => cases hcos
      | step _ hstep =>
        obtain ⟨o, ho, heq⟩ := List.mem_map.mp hcos
        obtain ⟨rfl, rfl⟩ := ManagerObs.client.inj heq
        obtain ⟨-, hnot, -⟩ | ⟨op', rfl, -, -, rfl⟩ | ⟨_, _, _, -, -, hmove, -, rfl⟩ :=
          (client_step_effect hstep).cases_call clientCall
        · exact absurd ho (hnot op)
        · obtain rfl : op = op' := by simpa using ho
          rfl
        · exact absurd ho (hmove.not_invoked _ _)
    cases hm with
    | client hext =>
      cases htaken
      cases hext
    | main hpc hm =>
      cases hm with
      | subscribe =>
        obtain ⟨rfl, heq⟩ := Prod.mk.inj (Option.some.inj htaken)
        obtain ⟨rfl, rfl⟩ := ClientAction.invoke.inj heq
        exact .inl ⟨_, _, _, _, rfl, rfl, hpc, rfl, rfl⟩
      | _ => cases htaken
    | close _ hm => cases hm <;> exact nomatch htaken
    | @method _ call _ _ _ _ hpc hm =>
      cases hm with
      | method =>
        obtain ⟨rfl, heq⟩ := Prod.mk.inj (Option.some.inj htaken)
        obtain ⟨rfl, rfl⟩ := ClientAction.invoke.inj heq
        exact .inr ⟨call, _, rfl, hpc, rfl, ConnectionManager.setCall_self _ _ _,
          fun call' hne => ConnectionManager.setCall_of_ne hne⟩
      | _ => cases htaken
    | _ => cases htaken

/-- One step calls one method of a client. -/
theorem ManagerEffect.client_invoked_unique (h : ManagerEffect m a m' os) {client' : ClientId}
    {call call' : ClientCall} {op' : ClientOp} (ho : .client client (.invoked call op) ∈ os)
    (ho' : .client client' (.invoked call' op') ∈ os) : call = call' := by
  obtain ⟨_, _, _, _, ha, -⟩ | ⟨_, _, ha, -⟩ := h.client_invoked ho
  · obtain ⟨_, _, _, _, ha', -⟩ | ⟨_, _, ha', -⟩ := h.client_invoked ho'
    · exact ConnectAction.subscribe.inj (ManagerAction.connect.inj (ha.symm.trans ha'))
    · exact nomatch ha.symm.trans ha'
  · obtain ⟨_, _, _, _, ha', -⟩ | ⟨_, _, ha', -⟩ := h.client_invoked ho'
    · exact nomatch ha.symm.trans ha'
    · exact (ManagerAction.method.inj (ha.symm.trans ha')).2

/-- `connect` waits for the call it has made. -/
theorem ManagerEffect.waits (h : ManagerEffect m a m' os) {call : ClientCall}
    {topics : List Bytes}
    (hpc : m'.main = .connect starting (.subscribeWait client topic call topics rest)) :
    m.main = .connect starting (.subscribeWait client topic call topics rest) ∨
      .client client (.invoked call (.subscribe topic)) ∈ os := by
  cases h with
  | @mk out clients cos hm hch =>
    replace hpc : out.manager.main =
      .connect starting (.subscribeWait client topic call topics rest) := hpc
    cases hm with
    | main _ hm =>
      cases hm with
      | subscribe =>
        obtain ⟨-, heq⟩ := MainPc.connect.inj hpc
        obtain ⟨rfl, rfl, rfl, -, -⟩ := ConnectPc.subscribeWait.inj heq
        exact .inr (List.mem_append_left _ hch.invoked)
      | connectClose | closeClient => exact .inl hpc
      | _ => cases hpc
    | close _ hm => cases hm <;> exact .inl hpc
    | _ => exact .inl hpc

/-- The topics for which `connect` has not called `client.Subscribe` yet. -/
def MainPc.remaining? : MainPc → Option (ClientId × List Bytes)
  | .connect _ (.subscribe client topics _) => some (client, topics)
  | .connect _ (.subscribeWait client _ _ topics _) => some (client, topics)
  | _ => none

theorem MainPc.remaining_todo {pc : MainPc} {topics : List Bytes}
    (h : pc.remaining? = some (client, topics)) :
    ∃ todo, pc.todo? = some (client, todo) ∧ ∀ topic ∈ topics, topic ∈ todo := by
  unfold MainPc.remaining? at h
  split at h
  · cases h
    exact ⟨_, rfl, fun _ => id⟩
  · cases h
    exact ⟨_, rfl, fun _ => List.mem_cons_of_mem _⟩
  · cases h

/-- A topic that remains has remained before, or the client has just been installed. -/
theorem ManagerEffect.remaining (h : ManagerEffect m a m' os) {topics : List Bytes}
    (hpc : m'.main.remaining? = some (client, topics)) :
    (∃ before, m.main.remaining? = some (client, before) ∧ ∀ topic ∈ topics, topic ∈ before) ∨
      .installed client topics ∈ os := by
  cases h with
  | @mk out clients cos hm hch =>
    replace hpc : out.manager.main.remaining? = some (client, topics) := hpc
    cases hm with
    | main hmain hm =>
      cases hm with
      | install =>
        cases hpc
        exact .inr (List.mem_append_right _ List.mem_cons_self)
      | subscribe =>
        cases hpc
        rw [hmain]
        exact .inl ⟨_, rfl, fun _ => List.mem_cons_of_mem _⟩
      | subscribed =>
        rw [hmain]
        exact .inl ⟨topics, hpc, fun _ => id⟩
      | connectClose | closeClient => exact .inl ⟨topics, hpc, fun _ => id⟩
      | _ => cases hpc
    | close _ hm => cases hm <;> exact .inl ⟨topics, hpc, fun _ => id⟩
    | _ => exact .inl ⟨topics, hpc, fun _ => id⟩

end Steps

/-! ## What connect subscribes -/

section Runs

variable {ctx : Ctx} {endpoints : List Bytes} {clientID : Bytes}
  {G : ConnectionManager → ManagerAction → Prop}

/-- A recorded topic has been entered by a call of `Subscribe`. -/
theorem topic_entered (h : (ConnectionManager.lts ctx endpoints clientID).Reach G log m)
    (hmem : topic ∈ m.topics) : ∃ call reader, .entered call topic reader ∈ log := by
  refine h.invariant (P := fun log m => topic ∈ m.topics →
    ∃ call reader, .entered call topic reader ∈ log) ?_ ?_ hmem
  · rintro _ rfl hmem
    exact absurd hmem (AList.notMem_empty topic)
  intro log m a m' os ih _ hstep hmem
  obtain hold | ⟨call, ho⟩ := (manager_step_effect hstep).topics.2 topic hmem
  · obtain ⟨call, reader, ho⟩ := ih hold
    exact ⟨call, reader, List.mem_append_left _ ho⟩
  · exact ⟨call, m.current, List.mem_append_right _ ho⟩

/-- A client that has been installed is not about to be installed. -/
theorem installed_known (h : (ConnectionManager.lts ctx endpoints clientID).Reach G log m)
    {topics : List Bytes} (ho : .installed client topics ∈ log) :
    client < m.clients.length ∧
      ∀ starting rest, m.main ≠ .connect starting (.install client rest) := by
  refine h.induct_reach (P := fun log m => .installed client topics ∈ log →
    client < m.clients.length ∧
      ∀ starting rest, m.main ≠ .connect starting (.install client rest)) (by simp) ?_ ho
  intro log m a m' os hr ih _ hstep ho
  have heff := manager_step_effect hstep
  obtain hold | hnew := List.mem_append.mp ho
  · obtain ⟨hlt, hne⟩ := ih hold
    refine ⟨Nat.lt_of_lt_of_le hlt heff.length_le, fun starting rest hpc => ?_⟩
    obtain hsame | hnew := heff.installing hpc
    · exact hne _ _ hsame
    · exact Nat.lt_irrefl _ (hnew ▸ hlt)
  · obtain ⟨⟨starting, rest, hpc, hpc'⟩, -⟩ := heff.installed hnew
    have hlen := (clients_inv hr).last client (hpc ▸ rfl)
    have hlt : client < m.clients.length := hlen ▸ Nat.lt_succ_self client
    refine ⟨Nat.lt_of_lt_of_le hlt heff.length_le, ?_⟩
    rw [hpc']
    exact nofun

/-- `connect` copies recorded topics, each once. -/
theorem installed_topics (h : (ConnectionManager.lts ctx endpoints clientID).Reach G log m)
    {topics : List Bytes} (ho : .installed client topics ∈ log) :
    topics.Nodup ∧ ∀ topic ∈ topics, topic ∈ m.topics := by
  refine h.invariant (P := fun log m => .installed client topics ∈ log →
    topics.Nodup ∧ ∀ topic ∈ topics, topic ∈ m.topics) (by simp) ?_ ho
  intro log m a m' os ih _ hstep ho
  have heff := manager_step_effect hstep
  obtain hold | hnew := List.mem_append.mp ho
  · obtain ⟨hnodup, hmem⟩ := ih hold
    exact ⟨hnodup, fun topic ht => heff.topics.1 topic (hmem topic ht)⟩
  · obtain ⟨-, hperm, hsame, -⟩ := heff.installed hnew
    refine ⟨hperm.nodup_iff.mpr m.topics.keys_nodup, fun topic ht => ?_⟩
    rw [hsame]
    exact AList.mem_keys.mpr (hperm.mem_iff.mp ht)

/-- Every recorded topic was copied when the current client was installed, or has been entered
    by a call that has read the current client. -/
theorem current_topics (h : (ConnectionManager.lts ctx endpoints clientID).Reach G log m)
    (hcur : m.current = some client) : ∃ topics, .installed client topics ∈ log ∧
      ∀ topic ∈ m.topics, topic ∈ topics ∨ ∃ call, .entered call topic (some client) ∈ log := by
  refine h.invariant (P := fun log m => m.current = some client →
    ∃ topics, .installed client topics ∈ log ∧ ∀ topic ∈ m.topics, topic ∈ topics ∨
      ∃ call, .entered call topic (some client) ∈ log) ?_ ?_ hcur
  · rintro _ rfl hcur
    cases hcur
  intro log m a m' os ih _ hstep hcur'
  have heff := manager_step_effect hstep
  obtain hcur | ⟨topics, ho⟩ := heff.current hcur'
  · obtain ⟨topics, ho, hall⟩ := ih hcur
    refine ⟨topics, List.mem_append_left _ ho, fun topic hmem => ?_⟩
    obtain hold | ⟨call, ho⟩ := heff.topics.2 topic hmem
    · obtain hcopied | ⟨call, ho⟩ := hall topic hold
      · exact .inl hcopied
      · exact .inr ⟨call, List.mem_append_left _ ho⟩
    · exact .inr ⟨call, List.mem_append_right _ (hcur ▸ ho)⟩
  · -- the copy has all topics
    obtain ⟨-, hperm, hsame, -⟩ := heff.installed ho
    refine ⟨topics, List.mem_append_right _ ho, fun topic hmem => .inl ?_⟩
    rw [hsame] at hmem
    exact hperm.mem_iff.mpr (AList.mem_keys.mp hmem)

/-- A client that a call has read has been installed. -/
theorem entered_installed (h : (ConnectionManager.lts ctx endpoints clientID).Reach G log m)
    (ho : .entered call topic (some client) ∈ log) :
    ∃ topics, .installed client topics ∈ log := by
  refine h.induct_reach (P := fun log _ => .entered call topic (some client) ∈ log →
    ∃ topics, .installed client topics ∈ log) (by simp) ?_ ho
  intro log m a m' os hr ih _ hstep ho
  obtain hold | hnew := List.mem_append.mp ho
  · obtain ⟨topics, ho⟩ := ih hold
    exact ⟨topics, List.mem_append_left _ ho⟩
  · obtain ⟨-, hcur, -⟩ := (manager_step_effect hstep).entered hnew
    obtain ⟨topics, ho, -⟩ := current_topics hr hcur.symm
    exact ⟨topics, List.mem_append_left _ ho⟩

/-- `connect` waits for a call that it has made. -/
theorem wait_invoked (h : (ConnectionManager.lts ctx endpoints clientID).Reach G log m)
    {call : ClientCall} {topics : List Bytes}
    (hpc : m.main = .connect starting (.subscribeWait client topic call topics rest)) :
    .client client (.invoked call (.subscribe topic)) ∈ log := by
  refine h.invariant (P := fun log m =>
    m.main = .connect starting (.subscribeWait client topic call topics rest) →
    .client client (.invoked call (.subscribe topic)) ∈ log) ?_ ?_ hpc
  · rintro _ rfl hpc
    unfold newConnectionManager at hpc
    dsimp only at hpc
    split at hpc <;> exact nomatch hpc
  intro log m a m' os ih _ hstep hpc
  obtain hsame | ho := (manager_step_effect hstep).waits hpc
  · exact List.mem_append_left _ (ih hsame)
  · exact List.mem_append_right _ ho

/-- The copied topics are subscribed, but for those that `connect` has still to do. -/
structure TodoInv (client : ClientId) (todo : List Bytes) (log : List ManagerObs) : Prop where
  nodup : todo.Nodup
  copied : ∃ topics, .installed client topics ∈ log ∧ ∀ topic ∈ todo, topic ∈ topics
  sent : ∀ topics, .installed client topics ∈ log → ∀ topic ∈ topics,
    topic ∈ todo ∨ SubscribeSent topic (clientLogOf client log)

/-- Nothing is installed in a step: the topics that are subscribed stay so. -/
theorem TodoInv.append {todo : List Bytes} (h : TodoInv client todo log)
    (hnot : ∀ topics, .installed client topics ∉ os) : TodoInv client todo (log ++ os) := by
  obtain ⟨topics, ho, hsub⟩ := h.copied
  refine ⟨h.nodup, ⟨topics, List.mem_append_left _ ho, hsub⟩, fun topics' ho' topic hmem => ?_⟩
  rw [clientLogOf_append]
  have hold := (List.mem_append.mp ho').resolve_right (hnot topics')
  exact (h.sent topics' hold topic hmem).imp_right fun hsent => hsent.append _

theorem todo_inv (h : (ConnectionManager.lts ctx endpoints clientID).Reach G log m)
    {todo : List Bytes} (hpc : m.main.todo? = some (client, todo)) : TodoInv client todo log := by
  refine h.induct_reach (P := fun log m => ∀ todo, m.main.todo? = some (client, todo) →
    TodoInv client todo log) ?_ ?_ todo hpc
  · rintro _ rfl todo hpc
    unfold newConnectionManager at hpc
    dsimp only at hpc
    split at hpc <;> exact nomatch hpc
  intro log m a m' os hr ih _ hstep todo hpc'
  have heff := manager_step_effect hstep
  -- a client is not installed again while `connect` subscribes its topics
  have hnot : ∀ {todo}, m.main.todo? = some (client, todo) →
      ∀ topics, .installed client topics ∉ os := by
    intro todo hpc topics ho
    obtain ⟨⟨starting, rest, hinstall, -⟩, -⟩ := heff.installed ho
    rw [hinstall] at hpc
    cases hpc
  obtain hpc | ho | ⟨starting, topic, call, rest, ret, hpc, hret, hok⟩ := heff.todo hpc'
  · exact (ih todo hpc).append (hnot hpc)
  · -- `connect` has just copied the topics: all are to do
    obtain ⟨⟨starting, rest, hpc, -⟩, hperm, -, rfl⟩ := heff.installed ho
    refine ⟨hperm.nodup_iff.mpr m.topics.keys_nodup,
      ⟨todo, List.mem_append_right _ ho, fun _ => id⟩, fun topics ho' topic hmem => .inl ?_⟩
    obtain hold | hnew := List.mem_append.mp ho'
    · exact absurd hpc ((installed_known hr hold).2 starting rest)
    · obtain ⟨-, rfl⟩ := ManagerObs.installed.inj (List.mem_singleton.mp hnew)
      exact hmem
  · -- `client.Subscribe` has returned: one topic less to do
    have hpc₁ : m.main.todo? = some (client, topic :: todo) := by
      rw [hpc]
      rfl
    have hbefore := ih _ hpc₁
    obtain ⟨err, rfl⟩ | ⟨-, hsent⟩ := methodResult_reach hr hret (wait_invoked hr hpc)
    · exact absurd rfl (hok err)
    have hdone : TodoInv client todo log := by
      obtain ⟨topics, ho, hsub⟩ := hbefore.copied
      refine ⟨(List.nodup_cons.mp hbefore.nodup).2,
        ⟨topics, ho, fun topic' hmem => hsub topic' (List.mem_cons_of_mem _ hmem)⟩,
        fun topics' ho' topic' hmem => ?_⟩
      obtain htodo | hsent' := hbefore.sent topics' ho' topic' hmem
      · obtain rfl | htodo := List.mem_cons.mp htodo
        · exact .inr hsent
        · exact .inl htodo
      · exact .inr hsent'
    exact hdone.append (hnot hpc₁)

/-- When `connect` has returned success, the topics that it has copied are subscribed. -/
theorem connected_sent (h : (ConnectionManager.lts ctx endpoints clientID).Reach G log m)
    (hconn : .connected client ∈ log) : TodoInv client [] log := by
  refine h.induct_reach (P := fun log _ => .connected client ∈ log → TodoInv client [] log)
    (by simp) ?_ hconn
  intro log m a m' os hr ih _ hstep hconn
  have heff := manager_step_effect hstep
  obtain hold | hnew := List.mem_append.mp hconn
  · refine (ih hold).append fun topics ho => ?_
    -- the client has been installed before
    obtain ⟨⟨starting, rest, hpc, -⟩, -⟩ := heff.installed ho
    obtain ⟨topics', ho', -⟩ := (ih hold).copied
    exact (installed_known hr ho').2 starting rest hpc
  · obtain ⟨hpc, rfl⟩ := heff.connected hnew
    exact (todo_inv hr hpc).append (by simp)

/-! ## No topic is subscribed twice -/

/-- One call of `Subscribe` at most is for the topic. -/
def SubscribedOnce (topic : Bytes) (log : List ManagerObs) : Prop :=
  ∀ call call', .invoked call (.subscribe topic) ∈ log →
    .invoked call' (.subscribe topic) ∈ log → call = call'

theorem SubscribedOnce.of_append (h : SubscribedOnce topic (log ++ os)) :
    SubscribedOnce topic log :=
  fun call call' ho ho' => h call call' (List.mem_append_left _ ho) (List.mem_append_left _ ho')

/-- Two calls that have entered the topic are the same. -/
theorem SubscribedOnce.entered_eq (hone : SubscribedOnce topic log)
    (h : (ConnectionManager.lts ctx endpoints clientID).Reach G log m) {reader' : Option ClientId}
    (ho : .entered call topic reader ∈ log) (ho' : .entered call' topic reader' ∈ log) :
    call = call' :=
  hone call call' ((entered_inv h call).entered topic reader ho).1
    ((entered_inv h call').entered topic reader' ho').1

/-- No call has entered the topic before one that is about to. -/
theorem SubscribedOnce.not_entered (hone : SubscribedOnce topic log)
    (h : (ConnectionManager.lts ctx endpoints clientID).Reach G log m)
    (hpc : m.calls call = some (.subscribe topic)) (call' : ManagerCall)
    (reader : Option ClientId) : .entered call' topic reader ∉ log := by
  intro ho
  have hasked := (entered_inv h call).asked topic hpc
  have hentered := ((entered_inv h call').entered topic reader ho).1
  exact entered_ne_asked h ho hpc (hone call' call hentered hasked)

/-- A topic that was copied for a client is not entered by a call that has read this client. -/
theorem SubscribedOnce.not_both (hone : SubscribedOnce topic log)
    (h : (ConnectionManager.lts ctx endpoints clientID).Reach G log m) {topics : List Bytes}
    (hinst : .installed client topics ∈ log) (hmem : topic ∈ topics) (call : ManagerCall) :
    .entered call topic (some client) ∉ log := by
  intro ho
  refine h.induct_reach (P := fun log _ => SubscribedOnce topic log →
    .installed client topics ∈ log → .entered call topic (some client) ∈ log → False)
    (by simp) ?_ hone hinst ho
  intro log m a m' os hr ih _ hstep hone hinst ho
  have heff := manager_step_effect hstep
  obtain hinst | hinst := List.mem_append.mp hinst
  · obtain ho | ho := List.mem_append.mp ho
    · exact ih hone.of_append hinst ho
    · -- the topic was recorded before the call entered it
      obtain ⟨hpc, -⟩ := heff.entered ho
      obtain ⟨call', reader, ho'⟩ := topic_entered hr ((installed_topics hr hinst).2 topic hmem)
      exact hone.of_append.not_entered hr hpc call' reader ho'
  · obtain ⟨⟨starting, rest, hpc, -⟩, -, -, rfl⟩ := heff.installed hinst
    obtain ho | ho := List.mem_append.mp ho
    · -- a client that a call has read is not about to be installed
      obtain ⟨topics', ho'⟩ := entered_installed hr ho
      exact (installed_known hr ho').2 starting rest hpc
    · simp at ho

/-- A client is asked to subscribe to a topic that was copied for it, or by a call that has read
    it. -/
theorem client_invoked_for (h : (ConnectionManager.lts ctx endpoints clientID).Reach G log m)
    (ho : .client client (.invoked clientCall (.subscribe topic)) ∈ log) :
    (∃ topics, .installed client topics ∈ log ∧ topic ∈ topics) ∨
      ∃ call, .entered call topic (some client) ∈ log := by
  refine h.induct_reach (P := fun log _ =>
    .client client (.invoked clientCall (.subscribe topic)) ∈ log →
    (∃ topics, .installed client topics ∈ log ∧ topic ∈ topics) ∨
      ∃ call, .entered call topic (some client) ∈ log) (by simp) ?_ ho
  intro log m a m' os hr ih _ hstep ho
  obtain hold | hnew := List.mem_append.mp ho
  · obtain ⟨topics, ho, hmem⟩ | ⟨call, ho⟩ := ih hold
    · exact .inl ⟨topics, List.mem_append_left _ ho, hmem⟩
    · exact .inr ⟨call, List.mem_append_left _ ho⟩
  obtain ⟨_, topic', topics, rest, -, hop, hpc, -⟩ | ⟨call, after, -, hpc, -⟩ :=
    (manager_step_effect hstep).client_invoked hnew
  · obtain rfl := ClientOp.subscribe.inj hop
    have htodo : m.main.todo? = some (client, topic :: topics) := by
      rw [hpc]
      rfl
    obtain ⟨copied, ho, hsub⟩ := (todo_inv hr htodo).copied
    exact .inl ⟨copied, List.mem_append_left _ ho, hsub topic List.mem_cons_self⟩
  · have ho := (entered_inv hr call).method client topic after hpc
    exact .inr ⟨call, List.mem_append_left _ ho⟩

/-- The client has been asked once at most to subscribe to the topic, and not at all while
    `connect` or a call of `Subscribe` has still to ask it. -/
structure OnceInv (client : ClientId) (topic : Bytes) (log : List ManagerObs)
    (m : ConnectionManager) : Prop where
  one : ∀ call call', .client client (.invoked call (.subscribe topic)) ∈ log →
    .client client (.invoked call' (.subscribe topic)) ∈ log → call = call'
  remaining : ∀ topics, m.main.remaining? = some (client, topics) → topic ∈ topics →
    ∀ call, .client client (.invoked call (.subscribe topic)) ∉ log
  method : ∀ call after, m.calls call = some (.method client (.subscribe topic) after) →
    ∀ clientCall, .client client (.invoked clientCall (.subscribe topic)) ∉ log

/-- A topic that `connect` has still to subscribe is not in the hands of a call. -/
theorem SubscribedOnce.not_remaining (hone : SubscribedOnce topic log)
    (h : (ConnectionManager.lts ctx endpoints clientID).Reach G log m) {topics : List Bytes}
    (hpc : m.main.remaining? = some (client, topics)) (hmem : topic ∈ topics)
    (call : ManagerCall) (after : AfterMethod) :
    m.calls call ≠ some (.method client (.subscribe topic) after) := by
  intro hcall
  obtain ⟨todo, htodo, hsub⟩ := MainPc.remaining_todo hpc
  obtain ⟨copied, ho, hcopied⟩ := (todo_inv h htodo).copied
  exact hone.not_both h ho (hcopied topic (hsub topic hmem)) call
    ((entered_inv h call).method client topic after hcall)

/-- A client that has been asked to subscribe to the topic has been installed, and a call has
    entered the topic. -/
theorem client_invoked_known (h : (ConnectionManager.lts ctx endpoints clientID).Reach G log m)
    (ho : .client client (.invoked clientCall (.subscribe topic)) ∈ log) :
    (∃ topics, .installed client topics ∈ log) ∧
      ∃ call reader, .entered call topic reader ∈ log := by
  obtain ⟨topics, hinst, hmem⟩ | ⟨call, hentered⟩ := client_invoked_for h ho
  · exact ⟨⟨topics, hinst⟩, topic_entered h ((installed_topics h hinst).2 topic hmem)⟩
  · exact ⟨entered_installed h hentered, call, some client, hentered⟩

section Once

variable {m' : ConnectionManager}

/-- Whoever asks the client now is the first to do so. -/
theorem OnceInv.first (hinv : OnceInv client topic log m) (heff : ManagerEffect m a m' os)
    {call : ClientCall} (ho : .client client (.invoked call (.subscribe topic)) ∈ os)
    (call' : ClientCall) : .client client (.invoked call' (.subscribe topic)) ∉ log := by
  obtain ⟨_, topic', topics, _, -, hop, hpc, -⟩ | ⟨call₁, after, -, hpc, -⟩ :=
    heff.client_invoked ho
  · obtain rfl := ClientOp.subscribe.inj hop
    exact hinv.remaining (topic :: topics) (by rw [hpc]; rfl) List.mem_cons_self call'
  · exact hinv.method call₁ after hpc call'

theorem OnceInv.one_step (hinv : OnceInv client topic log m) (heff : ManagerEffect m a m' os)
    {call call' : ClientCall}
    (ho : .client client (.invoked call (.subscribe topic)) ∈ log ++ os)
    (ho' : .client client (.invoked call' (.subscribe topic)) ∈ log ++ os) : call = call' := by
  obtain hold | hnew := List.mem_append.mp ho
  · obtain hold' | hnew' := List.mem_append.mp ho'
    · exact hinv.one call call' hold hold'
    · exact absurd hold (hinv.first heff hnew' call)
  · obtain hold' | hnew' := List.mem_append.mp ho'
    · exact absurd hold' (hinv.first heff hnew call')
    · exact heff.client_invoked_unique hnew hnew'

theorem OnceInv.remaining_step (hinv : OnceInv client topic log m)
    (h : (ConnectionManager.lts ctx endpoints clientID).Reach G log m)
    (hone : SubscribedOnce topic log) (heff : ManagerEffect m a m' os) {topics : List Bytes}
    (hpc' : m'.main.remaining? = some (client, topics)) (hmem : topic ∈ topics)
    (call : ClientCall) : .client client (.invoked call (.subscribe topic)) ∉ log ++ os := by
  intro ho
  obtain hold | hnew := List.mem_append.mp ho
  · obtain ⟨before, hpc, hsub⟩ | hinst := heff.remaining hpc'
    · exact hinv.remaining before hpc (hsub topic hmem) call hold
    · -- the client has just been installed: nobody knows it
      obtain ⟨⟨starting, rest, hpc, -⟩, -⟩ := heff.installed hinst
      obtain ⟨⟨topics', hinst'⟩, -⟩ := client_invoked_known h hold
      exact (installed_known h hinst').2 starting rest hpc
  · obtain ⟨starting, topic', topics', rest, -, hop, hpc, hwait, -⟩ |
      ⟨call₁, after, -, hcall, hsame, -⟩ := heff.client_invoked hnew
    · -- `connect` asks for the first of the topics, which has no copy among the others
      obtain rfl := ClientOp.subscribe.inj hop
      have htodo : m.main.todo? = some (client, topic :: topics') := by
        rw [hpc]
        rfl
      rw [hwait] at hpc'
      obtain ⟨-, rfl⟩ := Prod.mk.inj (Option.some.inj hpc')
      exact (List.nodup_cons.mp (todo_inv h htodo).nodup).1 hmem
    · exact hone.not_remaining h (hsame ▸ hpc') hmem call₁ after hcall

/-- A call that stays before `client.Subscribe` is the only one that can make this call. -/
theorem OnceInv.method_stays (hinv : OnceInv client topic log m)
    (h : (ConnectionManager.lts ctx endpoints clientID).Reach G log m)
    (hone : SubscribedOnce topic log) (heff : ManagerEffect m a m' os)
    (hsame : m'.calls call = m.calls call)
    (hcall : m.calls call = some (.method client (.subscribe topic) after))
    (clientCall : ClientCall) :
    .client client (.invoked clientCall (.subscribe topic)) ∉ log ++ os := by
  intro ho
  obtain hold | hnew := List.mem_append.mp ho
  · exact hinv.method call after hcall clientCall hold
  obtain ⟨_, topic', topics, _, -, hop, hpc, -⟩ | ⟨call₁, after₁, -, hpc, -, hwait, -⟩ :=
    heff.client_invoked hnew
  · obtain rfl := ClientOp.subscribe.inj hop
    have hremains : m.main.remaining? = some (client, topic :: topics) := by
      rw [hpc]
      rfl
    exact hone.not_remaining h hremains List.mem_cons_self call after hcall
  · -- both calls have entered the topic, but this one does not move
    have heq := hone.entered_eq h ((entered_inv h call).method client topic after hcall)
      ((entered_inv h call₁).method client topic after₁ hpc)
    subst heq
    exact nomatch (hsame.trans hcall).symm.trans hwait

theorem OnceInv.method_step (hinv : OnceInv client topic log m)
    (h : (ConnectionManager.lts ctx endpoints clientID).Reach G log m)
    (hone : SubscribedOnce topic log) (heff : ManagerEffect m a m' os)
    (hcall' : m'.calls call = some (.method client (.subscribe topic) after))
    (clientCall : ClientCall) :
    .client client (.invoked clientCall (.subscribe topic)) ∉ log ++ os := by
  obtain ⟨hsame, -⟩ | ⟨op, -, hstart, -⟩ | ⟨pc, pc', _, obs, _, cos, hpc, hm, hch, hpc', rfl⟩ :=
    heff.cases_call call
  · exact hinv.method_stays h hone heff hsame (hsame ▸ hcall') clientCall
  · exact absurd (Option.some.inj (hstart.symm.trans hcall')) (ManagerOp.start_ne.2 _ _ _)
  · -- the section of this call, before which no call has entered the topic
    obtain rfl := Option.some.inj (hpc'.symm.trans hcall')
    have hentered := hm.next.2 client topic after rfl
    obtain ⟨topic', rfl, -, rfl, heq⟩ := hm.mem_obs hentered
    obtain ⟨-, rfl, -⟩ := ManagerObs.entered.inj heq
    intro ho
    obtain hold | hnew := List.mem_append.mp ho
    · obtain ⟨-, call', reader, hbefore⟩ := client_invoked_known h hold
      exact hone.not_entered h hpc call' reader hbefore
    · -- no client takes a step
      cases hch
      obtain hnew | hnew := List.mem_append.mp (List.nil_append _ ▸ hnew)
      · obtain ⟨_, -, -, -, heq⟩ := hm.mem_obs hnew
        cases heq
      · simp at hnew

end Once

theorem once_inv (h : (ConnectionManager.lts ctx endpoints clientID).Reach G log m)
    (hone : SubscribedOnce topic log) : OnceInv client topic log m := by
  refine h.induct_reach (P := fun log m => SubscribedOnce topic log → OnceInv client topic log m)
    ?_ ?_ hone
  · rintro _ rfl -
    constructor
    · exact fun call call' ho => nomatch ho
    · exact fun topics _ _ call ho => nomatch ho
    · exact fun call after _ clientCall ho => nomatch ho
  intro log m a m' os hr ih _ hstep hone'
  have hone := hone'.of_append
  have heff := manager_step_effect hstep
  have hinv := ih hone
  constructor
  · exact fun call call' ho ho' => hinv.one_step heff ho ho'
  · exact fun topics hpc hmem => hinv.remaining_step hr hone heff hpc hmem
  · exact fun call after hcall => hinv.method_step hr hone heff hcall

end Runs

/-- A call of `Subscribe` for the topic. -/
def ManagerObs.subscribes (topic : Bytes) : ManagerObs → Bool
  | .invoked _ (.subscribe topic') => topic' = topic
  | _ => false

theorem subscribedOnce_of_count (h : log.countP (ManagerObs.subscribes topic) ≤ 1) :
    SubscribedOnce topic log := by
  intro call call' ho ho'
  have heq := List.eq_of_countP_le_one h ho (by simp [ManagerObs.subscribes]) ho'
    (by simp [ManagerObs.subscribes])
  exact (ManagerObs.invoked.inj heq).1

theorem count_clientLogOf (client : ClientId) (o : ClientObs) (log : List ManagerObs) :
    log.count (.client client o) = (clientLogOf client log).count o := by
  induction log with
  | nil => rfl
  | cons o' log ih =>
    have hlog : clientLogOf client (o' :: log) =
        clientLogOf client [o'] ++ clientLogOf client log := clientLogOf_append client [o'] log
    rw [List.count_cons, ih, hlog, List.count_append, Nat.add_comm]
    congr 1
    cases o' with
    | client client' o' =>
      by_cases hclient : client' = client
      · subst hclient
        by_cases ho : o' = o <;> simp [clientLogOf, ManagerObs.client?, ho]
      · simp [clientLogOf, ManagerObs.client?, hclient]
    | _ => simp [clientLogOf, ManagerObs.client?, List.filterMap_cons]

/-- If `connect` has returned success for the current client, every recorded topic has had a
    SUBSCRIBE frame written on it, or the call that has read this client for the topic still
    executes or has returned an error. A topic that is passed to `Subscribe` once has one
    SUBSCRIBE frame at most on any client. -/
theorem subscriptions_survive (ctx : Ctx) (endpoints : List Bytes) (clientID : Bytes)
    (log : List ManagerObs) (m : ConnectionManager)
    (h : (ConnectionManager.lts ctx endpoints clientID).Reach Lts.Always log m) :
    (∀ client topic, .connected client ∈ log → m.current = some client → topic ∈ m.topics →
      (∃ payload, encodeTopic ⟨topic⟩ = .ok payload ∧
        .client client (.sent ⟨typeSubscribe, payload⟩) ∈ log) ∨
      ∃ call, .entered call topic (some client) ∈ log ∧
        ((∃ pc, m.calls call = some pc ∧ ∀ ret, pc ≠ .returned ret) ∨
          ∃ err, .returned call (.failed err) ∈ log)) ∧
    ∀ client topic payload, log.countP (ManagerObs.subscribes topic) ≤ 1 →
      encodeTopic ⟨topic⟩ = .ok payload →
      log.count (.client client (.sent ⟨typeSubscribe, payload⟩)) ≤ 1 := by
  have hsent : ∀ {client topic}, SubscribeSent topic (clientLogOf client log) →
      ∃ payload, encodeTopic ⟨topic⟩ = .ok payload ∧
        .client client (.sent ⟨typeSubscribe, payload⟩) ∈ log := by
    rintro client topic ⟨payload, henc, ho⟩
    exact ⟨payload, henc, mem_clientLogOf.mp ho⟩
  constructor
  · intro client topic hconn hcur hmem
    obtain ⟨topics, hinst, hall⟩ := current_topics h hcur
    -- the topic was copied by `connect`, or entered by a call that has read the client
    obtain hcopied | ⟨call, ho⟩ := hall topic hmem
    · obtain htodo | hs := (connected_sent h hconn).sent topics hinst topic hcopied
      · cases htodo
      · exact .inl (hsent hs)
    · obtain ⟨-, pc, hpc, hst⟩ := (entered_inv h call).entered topic (some client) ho
      cases hst with
      | method | wait => exact .inr ⟨call, ho, .inl ⟨_, hpc, nofun⟩⟩
      | failed hret => exact .inr ⟨call, ho, .inr ⟨_, hret⟩⟩
      | ok hreader hs =>
        cases hreader
        exact .inl (hsent hs)
  · intro client topic payload hcount henc
    rw [count_clientLogOf]
    cases hc : m.clients[client]? with
    | none =>
      rw [ConnectionManager.clientLogOf_eq_nil h (List.getElem?_eq_none_iff.mp hc)]
      exact Nat.zero_le 1
    | some c =>
      have hinv : OnceInv client topic log m := once_inv h (subscribedOnce_of_count hcount)
      exact subscribe_once (ConnectionManager.reach_client h hc) henc fun call call' ho ho' =>
        hinv.one call call' (mem_clientLogOf.mp ho) (mem_clientLogOf.mp ho')

/-- The client writes the SUBSCRIBE frame of one of its calls. -/
def subscribeFrameRun (client : ClientId) (call : ClientCall) : List ManagerAction :=
  [.client client (.call call .check), .client client (.call call .write)]

/-- A topic is subscribed on the first client and another one is entered between the clients:
    both are subscribed on the second client. -/
private def failoverRun : List ManagerAction :=
  connectRun ++ [ManagerAction.invoke 0 (.subscribe [116]), .enter 0, .method 0 0] ++
    subscribeFrameRun 0 0 ++ .result 0 :: breakRun 0 ++
    [ManagerAction.watchShutdown, .handOff, .release, .clientClosed, .check, .connect .copy,
      .connect .dial, .invoke 1 (.subscribe [117]), .enter 1,
      .connect (.install [[116], [117]]), .connect (.subscribe 0)] ++ subscribeFrameRun 1 0 ++
    [ManagerAction.connect .subscribed, .connect (.subscribe 1)] ++ subscribeFrameRun 1 1 ++
    [ManagerAction.connect .subscribed, .connect .complete]

set_option maxRecDepth 2048 in
/-- The topic of the first client is subscribed on the second one, and once. -/
theorem subscriptions_survive_failover :
    ∃ log m, (ConnectionManager.lts .background [[1]] []).Reach Lts.Always log m ∧
      .connected 1 ∈ log ∧ m.current = some 1 ∧ [116] ∈ m.topics ∧
      ((∃ payload, encodeTopic ⟨[116]⟩ = .ok payload ∧
        .client 1 (.sent ⟨typeSubscribe, payload⟩) ∈ log) ∨
      ∃ call, .entered call [116] (some 1) ∈ log ∧
        ((∃ pc, m.calls call = some pc ∧ ∀ ret, pc ≠ .returned ret) ∨
          ∃ err, .returned call (.failed err) ∈ log)) ∧
      log.countP (ManagerObs.subscribes [116]) ≤ 1 ∧
      log.count (.client 1 (.sent ⟨typeSubscribe, [0, 1, 116]⟩)) ≤ 1 := by
  obtain ⟨log, m, hreach, hconn, hcur, hmem, hcount⟩ :=
    Lts.reach_of_runWhere (M := ConnectionManager.lts .background [[1]] []) (G := Lts.Always) rfl
      failoverRun
      (Q := fun r => .connected 1 ∈ r.2 ∧ r.1.current = some 1 ∧ [116] ∈ r.1.topics.keys ∧
        r.2.countP (ManagerObs.subscribes [116]) ≤ 1) (by decide)
  have htopic : [116] ∈ m.topics := AList.mem_keys.mpr hmem
  obtain ⟨hsubscribed, honce⟩ := subscriptions_survive .background [[1]] [] log m hreach
  exact ⟨log, m, hreach, hconn, hcur, htopic, hsubscribed 1 [116] hconn hcur htopic, hcount,
    honce 1 [116] [0, 1, 116] hcount (by decide)⟩

end EventBus
