import EventBus.Spec.ManagerTopics

/-!
# The endpoint that a connection manager connects to

`prefer` moves the endpoint of a redirect to the front of `c.endpoints`, and `connect` tries
the endpoints in their order until one can be dialed and subscribes all topics. Which ones do is
given by `Outcomes`; a run of `connect` agrees with them if each `Dial` and each
`client.Subscribe` comes to what they say.

## Key results

- `endpoints_inv`: the endpoints are the redirects, the latest first, and then the others
- `connect_inv`: what is known of the endpoints that `connect` has tried
- `connect_returns`: every assignment that the messages allow has a run of `connect`
- `endpoint_selection`: `connect` takes the first endpoint that serves all recorded topics
-/

namespace EventBus

variable {ctx : Ctx} {clientID endpoint topic : Bytes} {m : ConnectionManager} {ret : ClientRet}
  {o : Outcomes} {topics topics' : AList fun _ : Bytes => Unit} {tried rest todo : List Bytes}
  {out : ManagerOut} {client : ClientId} {call n : ClientCall} {pc : ConnectPc} {c : Client}
  {obs : List ManagerObs}

/-! ## The list of endpoints -/

/-- The endpoint that a step prefers. -/
def ManagerObs.preferred? : ManagerObs → Option Bytes
  | .preferred endpoint => some endpoint
  | _ => none

/-- The redirects that a run has applied. -/
def redirectsOf (log : List ManagerObs) : List Bytes := log.filterMap ManagerObs.preferred?

@[simp] theorem redirectsOf_append (log log' : List ManagerObs) :
    redirectsOf (log ++ log') = redirectsOf log ++ redirectsOf log' := List.filterMap_append

/-- `prefer` moves the endpoint to the front of the list. -/
theorem ConnectionManager.prefer_endpoints (m : ConnectionManager) (endpoint : Bytes) :
    (m.prefer endpoint).endpoints = m.endpoints.moveToFront endpoint := rfl

theorem ConnectionManager.foldl_prefer (m : ConnectionManager) (redirects : List Bytes) :
    (redirects.foldl ConnectionManager.prefer m).endpoints =
      redirects.foldl List.moveToFront m.endpoints := by
  induction redirects generalizing m with
  | nil => rfl
  | cons endpoint redirects ih =>
    rw [List.foldl_cons, List.foldl_cons, ih, ConnectionManager.prefer_endpoints]

section Step

variable {m' : ConnectionManager} {a : ManagerAction} {os : List ManagerObs}

/-- Clients do not change the endpoints. -/
theorem ClientsChange.redirectsOf_nil {clients clients' : List Client}
    {taken : Option (ClientId × ClientAction)} (h : ClientsChange clients taken clients' os) :
    redirectsOf os = [] := by
  refine List.filterMap_eq_nil_iff.mpr fun o ho => ?_
  obtain ⟨client, o', rfl⟩ := h.mem_obs ho
  rfl

theorem redirectsOf_returnObs (call : ManagerCall) (pc : ManagerPc) :
    redirectsOf (ConnectionManager.returnObs call pc) = [] := by
  cases pc <;> rfl

/-- Only `prefer` changes the endpoints. -/
theorem ManagerMove.endpoints (h : ManagerMove m a out) :
    out.manager.endpoints = (redirectsOf out.obs).foldl List.moveToFront m.endpoints := by
  cases h with
  | main _ hm => cases hm <;> rfl
  | close _ hm => cases hm <;> rfl
  | invoke =>
    show m.endpoints = List.foldl _ _ (redirectsOf (ConnectionManager.returnObs _ _))
    rw [redirectsOf_returnObs]
    rfl
  | method _ hm =>
    rw [redirectsOf_append, redirectsOf_returnObs, List.append_nil]
    cases hm <;> rfl
  | _ => rfl

/-- A step changes the endpoints only by a redirect. -/
theorem ManagerEffect.endpoints (h : ManagerEffect m a m' os) :
    m'.endpoints = (redirectsOf os).foldl List.moveToFront m.endpoints := by
  cases h with
  | mk hm hch =>
    rw [redirectsOf_append, hch.redirectsOf_nil, List.nil_append]
    exact hm.endpoints

end Step

/-- The endpoints are those of the start, with each redirect moved to the front in turn. -/
theorem endpoints_inv {endpoints : List Bytes} {G : ConnectionManager → ManagerAction → Prop}
    {log : List ManagerObs} (h : (ConnectionManager.lts ctx endpoints clientID).Reach G log m) :
    m.endpoints = (redirectsOf log).foldl List.moveToFront endpoints := by
  refine h.invariant (P := fun log m =>
    m.endpoints = (redirectsOf log).foldl List.moveToFront endpoints) ?_ ?_
  · rintro _ rfl
    rfl
  · intro log m a m' os ih _ hstep
    rw [(manager_step_effect hstep).endpoints, ih, redirectsOf_append, List.foldl_append]

/-! ## Outcomes of Dial and Subscribe -/

/-- What `Dial` and `client.Subscribe` come to at each endpoint. -/
structure Outcomes where
  dials : Bytes → Bool
  /-- `accepts endpoint topic` -/
  accepts : Bytes → Bytes → Bool

/-- The endpoint can be dialed and accepts the topics. -/
def Outcomes.Serves (o : Outcomes) (topics : AList fun _ : Bytes => Unit) (endpoint : Bytes) :
    Prop :=
  o.dials endpoint = true ∧ ∀ topic ∈ topics, o.accepts endpoint topic = true

/-- `client.Subscribe` has returned no error. -/
def ClientRet.succeeded : ClientRet → Bool
  | .failed _ => false
  | _ => true

theorem ClientRet.succeeded_of_ne (h : ∀ err, ret ≠ .failed err) :
    ret.succeeded = true := by
  cases ret with
  | failed err => exact absurd rfl (h err)
  | _ => rfl

/-- The endpoint that `connect` is trying: the one before those that are left. -/
def ConnectionManager.trying? (m : ConnectionManager) (rest : List Bytes) : Option Bytes :=
  m.endpoints.reverse[rest.length]?

/-- A step beside `Close`, while `connect` stands at this place: `Dial` and `client.Subscribe`
    come to what `o` says. -/
def Outcomes.allows (o : Outcomes) (m : ConnectionManager) : ConnectPc → ManagerAction → Bool
  | .dial (endpoint :: _), .connect .dial => o.dials endpoint
  | .dial (endpoint :: _), .connect .dialFails => !o.dials endpoint
  | .subscribeWait client topic call _ rest, .connect .subscribed =>
    match m.methodResult client call, m.trying? rest with
    | some ret, some endpoint => ret.succeeded == o.accepts endpoint topic
    | _, _ => false
  | _, .close | _, .closeCurrent | _, .closeBody | _, .closeReturn => false
  | _, _ => true

/-- A step of a run of `connect` that agrees with `o`, without `Close`. -/
def Outcomes.agrees (o : Outcomes) (m : ConnectionManager) (a : ManagerAction) : Bool :=
  match m.main with
  | .connect _ pc => o.allows m pc a
  | _ => false

/-- An endpoint that accepts more topics accepts fewer. -/
theorem Outcomes.Serves.mono (h : o.Serves topics' endpoint)
    (hsub : ∀ topic ∈ topics, topic ∈ topics') :
    o.Serves topics endpoint :=
  ⟨h.1, fun topic hmem => h.2 topic (hsub topic hmem)⟩

theorem ConnectionManager.trying_eq (h : m.endpoints = tried ++ endpoint :: rest) :
    m.trying? rest = some endpoint := by
  simp [ConnectionManager.trying?, h]

section Agrees

variable {a : ManagerAction} {starting : Bool}

theorem Outcomes.agrees_at (hpc : m.main = .connect starting pc) :
    o.agrees m a = o.allows m pc a := by
  rw [Outcomes.agrees, hpc]

theorem Outcomes.agrees_connect (h : o.agrees m a = true) :
    ∃ starting pc, m.main = .connect starting pc := by
  unfold Outcomes.agrees at h
  split at h
  · rename_i hpc
    exact ⟨_, _, hpc⟩
  · cases h

/-- There is no step of `Close`. -/
theorem Outcomes.agrees_no_close {closing : ManagerClosing} (h : o.agrees m a = true)
    (hm : CloseBodyMove m a closing out) : False := by
  obtain ⟨starting, pc, hpc⟩ := Outcomes.agrees_connect h
  rw [Outcomes.agrees_at hpc] at h
  cases hm <;> cases pc <;> simp [Outcomes.allows] at h

/-- What `client.Subscribe` has come to. -/
theorem Outcomes.agrees_subscribed {topics : List Bytes}
    (h : o.agrees m (.connect .subscribed) = true)
    (hpc : m.main = .connect starting (.subscribeWait client topic call topics rest))
    (hret : m.methodResult client call = some ret)
    (hend : m.endpoints = tried ++ endpoint :: rest) :
    ret.succeeded = o.accepts endpoint topic := by
  rw [Outcomes.agrees_at hpc] at h
  simpa [Outcomes.allows, hret, ConnectionManager.trying_eq hend] using h

end Agrees

/-! ## What connect has tried -/

/-- The endpoints that `connect` has tried, and those that are left. -/
structure Tried (o : Outcomes) (endpoints : List Bytes) (topics : AList fun _ : Bytes => Unit)
    (tried rest : List Bytes) : Prop where
  split : endpoints = tried ++ rest
  none_serves : ∀ endpoint ∈ tried, ¬o.Serves topics endpoint

theorem Tried.mono {endpoints : List Bytes} (h : Tried o endpoints topics tried rest)
    (hsub : ∀ topic ∈ topics, topic ∈ topics') : Tried o endpoints topics' tried rest :=
  ⟨h.split, fun endpoint hmem hserves => h.none_serves endpoint hmem (hserves.mono hsub)⟩

/-- One more endpoint has been tried. -/
theorem Tried.next {endpoints : List Bytes}
    (h : Tried o endpoints topics tried (endpoint :: rest)) (hnot : ¬o.Serves topics endpoint) :
    Tried o endpoints topics (tried ++ [endpoint]) rest := by
  refine ⟨by simp [h.split], fun endpoint' hmem => ?_⟩
  obtain hold | hnew := List.mem_append.mp hmem
  · exact h.none_serves endpoint' hold
  · rw [List.mem_singleton.mp hnew]
    exact hnot

/-- `connect` has a client of the endpoint, which has accepted the topics that were recorded
    at its start but for those that are to do. -/
structure Holding (o : Outcomes) (m₀ : ConnectionManager) (log : List ManagerObs)
    (m : ConnectionManager) (client : ClientId) (todo rest : List Bytes) (endpoint : Bytes) :
    Prop where
  tried : ∃ tried, Tried o m₀.endpoints m.topics tried (endpoint :: rest)
  dials : o.dials endpoint = true
  dialed : .dialed client endpoint ∈ log
  current : m.current = some client
  recorded : ∀ topic ∈ todo, topic ∈ m.topics
  accepted : ∀ topic ∈ m₀.topics, topic ∈ todo ∨ o.accepts endpoint topic = true

/-- How far a call of `connect` has got that was made in state `m₀`. -/
inductive ConnectState (o : Outcomes) (m₀ : ConnectionManager) (starting : Bool)
    (log : List ManagerObs) (m : ConnectionManager) : MainPc → Prop
  | start : m.current = none → ConnectState o m₀ starting log m (.connect starting .start)
  | dial {tried rest : List Bytes} : Tried o m₀.endpoints m.topics tried rest →
      m.current = none → ConnectState o m₀ starting log m (.connect starting (.dial rest))
  | install {tried rest : List Bytes} {endpoint : Bytes} {client : ClientId} :
      Tried o m₀.endpoints m.topics tried (endpoint :: rest) → o.dials endpoint = true →
      .dialed client endpoint ∈ log →
      ConnectState o m₀ starting log m (.connect starting (.install client rest))
  | subscribe {client : ClientId} {todo rest : List Bytes} {endpoint : Bytes} :
      Holding o m₀ log m client todo rest endpoint →
      ConnectState o m₀ starting log m (.connect starting (.subscribe client todo rest))
  | wait {client : ClientId} {topic : Bytes} {call : ClientCall} {todo rest : List Bytes}
      {endpoint : Bytes} : Holding o m₀ log m client (topic :: todo) rest endpoint →
      ConnectState o m₀ starting log m
        (.connect starting (.subscribeWait client topic call todo rest))
  | close {tried rest : List Bytes} {client : ClientId} :
      Tried o m₀.endpoints m.topics tried rest →
      ConnectState o m₀ starting log m (.connect starting (.close client rest))
  | clear {tried rest : List Bytes} {client : ClientId} :
      Tried o m₀.endpoints m.topics tried rest →
      ConnectState o m₀ starting log m (.connect starting (.clear client rest))
  | connected {client : ClientId} {rest : List Bytes} {endpoint : Bytes} :
      Holding o m₀ log m client [] rest endpoint → ConnectState o m₀ starting log m .loop
  | failed {tried : List Bytes} : Tried o m₀.endpoints m.topics tried [] → m.current = none →
      ConnectState o m₀ starting log m (.timer starting)

section Connect

variable {m₀ m' : ConnectionManager} {starting : Bool} {log os : List ManagerObs}
  {a : ManagerAction} {pc : MainPc}

/-- Topics that are recorded meanwhile leave this as it is. -/
theorem Holding.mono (h : Holding o m₀ log m client todo rest endpoint)
    (hcurrent : m'.current = m.current) (htopics : ∀ topic ∈ m.topics, topic ∈ m'.topics) :
    Holding o m₀ (log ++ os) m' client todo rest endpoint := by
  obtain ⟨tried, htried⟩ := h.tried
  exact ⟨⟨tried, htried.mono htopics⟩, h.dials, List.mem_append_left _ h.dialed,
    hcurrent.trans h.current, fun topic hmem => htopics topic (h.recorded topic hmem), h.accepted⟩

/-- The rest of the manager may record more topics. -/
theorem ConnectState.mono (h : ConnectState o m₀ starting log m pc)
    (hcurrent : m'.current = m.current) (htopics : ∀ topic ∈ m.topics, topic ∈ m'.topics) :
    ConnectState o m₀ starting (log ++ os) m' pc := by
  cases h with
  | start hnone => exact .start (hcurrent.trans hnone)
  | dial htried hnone => exact .dial (htried.mono htopics) (hcurrent.trans hnone)
  | install htried hdials ho =>
    exact .install (htried.mono htopics) hdials (List.mem_append_left _ ho)
  | subscribe hhold => exact .subscribe (hhold.mono hcurrent htopics)
  | wait hhold => exact .wait (hhold.mono hcurrent htopics)
  | close htried => exact .close (htried.mono htopics)
  | clear htried => exact .clear (htried.mono htopics)
  | connected hhold => exact .connected (hhold.mono hcurrent htopics)
  | failed htried hnone => exact .failed (htried.mono htopics) (hcurrent.trans hnone)

/-- A step of `connect`. -/
theorem ConnectState.main (h : ConnectState o m₀ starting log m pc) (os : List ManagerObs)
    (hpc : m.main = pc) (hend : m.endpoints = m₀.endpoints)
    (htopics : ∀ topic ∈ m₀.topics, topic ∈ m.topics) (hg : o.agrees m a = true)
    (hm : MainMove m a pc out) :
    ConnectState o m₀ starting (log ++ (os ++ out.obs)) out.manager out.manager.main := by
  obtain ⟨starting', pc', hconnect⟩ := Outcomes.agrees_connect hg
  cases hm with
  | copy =>
    cases h with
    | start hnone =>
      exact .dial ⟨hend.symm.trans (List.nil_append _).symm, fun _ hmem => nomatch hmem⟩ hnone
  | dial =>
    rw [Outcomes.agrees_at hpc] at hg
    cases h with
    | dial htried hnone =>
      refine .install htried hg ?_
      exact List.mem_append_right _ (List.mem_append_right _ List.mem_cons_self)
  | dialFails =>
    rw [Outcomes.agrees_at hpc] at hg
    cases h with
    | dial htried hnone =>
      -- an endpoint that cannot be dialed serves no topics
      refine .dial (htried.next fun hserves => ?_) hnone
      rw [Outcomes.allows, hserves.1] at hg
      cases hg
  | exhausted =>
    cases h with
    | dial htried hnone => exact .failed htried hnone
  | install hperm =>
    cases h with
    | install htried hdials ho =>
      refine .subscribe ⟨⟨_, htried⟩, hdials, List.mem_append_left _ ho, rfl, fun topic hmem => ?_,
        fun topic hmem => .inl ?_⟩
      · exact AList.mem_keys.mpr (hperm.mem_iff.mp hmem)
      · exact hperm.mem_iff.mpr (AList.mem_keys.mp (htopics topic hmem))
  | subscribe =>
    cases h with
    | subscribe hhold => exact .wait (hhold.mono rfl fun _ => id)
  | complete =>
    cases h with
    | subscribe hhold => exact .connected (hhold.mono rfl fun _ => id)
  | subscribeFailed hret =>
    cases h with
    | wait hhold =>
      -- a refused topic is a recorded one, so that the endpoint does not serve
      obtain ⟨tried, htried⟩ := hhold.tried
      have hrefused := Outcomes.agrees_subscribed hg hpc hret (hend.trans htried.split)
      refine .close (htried.next fun hserves => ?_)
      rw [hserves.2 _ (hhold.recorded _ List.mem_cons_self)] at hrefused
      cases hrefused
  | subscribed hret hok =>
    cases h with
    | wait hhold =>
      obtain ⟨tried, htried⟩ := hhold.tried
      have haccepted := Outcomes.agrees_subscribed hg hpc hret (hend.trans htried.split)
      refine .subscribe ⟨hhold.tried, hhold.dials, List.mem_append_left _ hhold.dialed,
        hhold.current, fun topic hmem => hhold.recorded topic (List.mem_cons_of_mem _ hmem),
        fun topic hmem => ?_⟩
      obtain htodo | hdone := hhold.accepted topic hmem
      · obtain rfl | htodo := List.mem_cons.mp htodo
        · rw [ClientRet.succeeded_of_ne hok] at haccepted
          exact .inr haccepted.symm
        · exact .inl htodo
      · exact .inr hdone
  | connectClose => exact hpc ▸ h.mono rfl fun _ => id
  | connectClosed =>
    cases h with
    | close htried => exact .clear htried
  | clear =>
    cases h with
    | clear htried => exact .dial htried rfl
  -- the other moves of `run` are not in `connect`
  | redirected hwait | ended hwait => cases hwait <;> exact nomatch hpc.symm.trans hconnect
  | _ => exact nomatch hpc.symm.trans hconnect

/-- `connect` leaves the endpoints as they are. -/
theorem MainMove.connect_endpoints {pc : ConnectPc}
    (hm : MainMove m a (.connect starting pc) out) : out.manager.endpoints = m.endpoints := by
  cases hm with
  | redirected hwait | ended hwait => cases hwait
  | _ => rfl

/-- What is known of a call of `connect` that was made in state `m₀`. -/
structure ConnectInv (o : Outcomes) (m₀ : ConnectionManager) (starting : Bool)
    (log : List ManagerObs) (m : ConnectionManager) : Prop where
  endpoints : m.endpoints = m₀.endpoints
  topics : ∀ topic ∈ m₀.topics, topic ∈ m.topics
  state : ConnectState o m₀ starting log m m.main

/-- A step of the run keeps what `connect` has tried. -/
theorem ConnectInv.step (h : ConnectInv o m₀ starting log m) (hg : o.agrees m a = true)
    (heff : ManagerEffect m a m' os) : ConnectInv o m₀ starting (log ++ os) m' := by
  have htopics := heff.topics.1
  obtain ⟨starting', pc, hconnect⟩ := Outcomes.agrees_connect hg
  cases heff with
  | @mk out clients cos hm hch =>
    have hclients : ∀ {log}, ConnectState o m₀ starting log out.manager out.manager.main →
        ConnectState o m₀ starting log { out.manager with clients := clients }
          out.manager.main := by
      intro log hst
      have hst' : ConnectState o m₀ starting (log ++ []) { out.manager with clients := clients }
          out.manager.main := hst.mono rfl fun _ => id
      rwa [List.append_nil] at hst'
    have hsub : ∀ topic ∈ m₀.topics, topic ∈ out.manager.topics :=
      fun topic hmem => htopics topic (h.topics topic hmem)
    cases hm with
    | main hpc hm =>
      have hst := (hpc ▸ h.state).main cos hpc h.endpoints h.topics hg hm
      refine ⟨Eq.trans ?_ h.endpoints, hsub, hclients hst⟩
      obtain rfl := hpc.symm.trans hconnect
      exact hm.connect_endpoints
    | close _ hm => exact (Outcomes.agrees_no_close hg hm).elim
    | _ => exact ⟨h.endpoints, hsub, h.state.mono rfl htopics⟩

/-- What `connect` has tried, at every point of its run. -/
theorem connect_inv {ctx : Ctx} {endpoints : List Bytes} {clientID : Bytes}
    (h : (ConnectionManager.lts ctx endpoints clientID).Steps (fun m a => o.agrees m a = true)
      m₀ log m) (hpc : m₀.main = .connect starting .start) (hnone : m₀.current = none) :
    ConnectInv o m₀ starting log m := by
  refine h.invariant (P := ConnectInv o m₀ starting) ?_ ?_
  · exact ⟨rfl, fun _ => id, hpc ▸ .start hnone⟩
  · exact fun log m a m' os ih hg hstep => ih.step hg (manager_step_effect hstep)

/-! ## How connect returns -/

/-- `connect` has returned success: the current client is that of the first endpoint that serves
    the recorded topics, and all others are closed. -/
def Outcomes.Connected (o : Outcomes) (m₀ : ConnectionManager) (log : List ManagerObs)
    (m : ConnectionManager) : Prop :=
  ∃ tried endpoint rest client, m₀.endpoints = tried ++ endpoint :: rest ∧
    o.Serves m₀.topics endpoint ∧ (∀ endpoint' ∈ tried, ¬o.Serves m.topics endpoint') ∧
    m.current = some client ∧ .dialed client endpoint ∈ log ∧
    ∀ (other : ClientId) (c : Client), m.clients[other]? = some c → other ≠ client →
      c.closing = .closed

/-- `connect` has returned an error: no endpoint serves the recorded topics, there is no current
    client, and all are closed. -/
def Outcomes.Exhausted (o : Outcomes) (m₀ m : ConnectionManager) : Prop :=
  (∀ endpoint ∈ m₀.endpoints, ¬o.Serves m.topics endpoint) ∧ m.current = none ∧
    AllClosed m.clients

/-- `connect` returns nil with a client that has accepted the topics. -/
theorem ConnectInv.connected (h : ConnectInv o m₀ starting log m) (hclients : m.ClientsInv)
    (hpc : m.main = .loop) : o.Connected m₀ log m := by
  have hst := h.state
  rw [hpc] at hst
  cases hst with
  | @connected client rest endpoint hhold =>
    obtain ⟨tried, htried⟩ := hhold.tried
    refine ⟨tried, endpoint, rest, client, htried.split, ⟨hhold.dials, fun topic hmem => ?_⟩,
      htried.none_serves, hhold.current, hhold.dialed, fun other c hc hne => ?_⟩
    · exact (hhold.accepted topic hmem).resolve_left List.not_mem_nil
    · have hlast := (hclients.current client hhold.current).2
      exact hclients.older other c hc fun heq => hne (Nat.succ.inj (heq.symm.trans hlast))

/-- `connect` fails when every endpoint has failed. -/
theorem ConnectInv.exhausted (h : ConnectInv o m₀ starting log m) (hclients : m.ClientsInv)
    (hpc : m.main = .timer starting) : o.Exhausted m₀ m := by
  have hst := h.state
  rw [hpc] at hst
  cases hst with
  | failed htried hnone =>
    refine ⟨fun endpoint hmem => htried.none_serves endpoint ?_, hnone, ?_⟩
    · rwa [htried.split, List.append_nil] at hmem
    · exact hclients.between (hpc ▸ rfl)

/-- `connect` is under way, or it has returned. -/
theorem ConnectInv.returned (h : ConnectInv o m₀ starting log m)
    (hpc : ∀ pc, m.main ≠ .connect starting pc) : m.main = .loop ∨ m.main = .timer starting := by
  have hst := h.state
  generalize hmain : m.main = pc at hst
  cases hst with
  | connected => exact .inl rfl
  | failed => exact .inr rfl
  | _ => exact absurd hmain (hpc _)

end Connect

/-! ## A run of connect -/

/-- The messages allow the outcomes: what is sent has an encoding. -/
structure Outcomes.Realisable (o : Outcomes) (m : ConnectionManager) : Prop where
  dials : ∀ endpoint ∈ m.endpoints, o.dials endpoint = true → m.clientID.length ≤ maxStringSize
  accepts : ∀ endpoint ∈ m.endpoints, ∀ topic ∈ m.topics, o.accepts endpoint topic = true →
    topic.length ≤ maxStringSize

/-- The client is open, and no call has a number from `n` on. -/
structure Client.Idle (c : Client) (n : ClientCall) : Prop where
  reader : c.reader = .reading
  closing : c.closing = .fresh
  calls : ∀ call, n ≤ call → c.calls call = none

theorem Client.Idle.setCall {k : ClientCall} (h : c.Idle k) (hk : k ≤ n + 1) (pc : ClientPc) :
    (c.setCall n pc).Idle (n + 1) := by
  refine ⟨h.reader, h.closing, fun call hle => ?_⟩
  show Function.update c.calls n (some pc) call = none
  rw [Function.update_of_ne (Nat.ne_of_gt hle)]
  exact h.calls call (Nat.le_trans hk hle)

/-- A step of a call, as a step of the client. -/
theorem Client.step_call {c' : Client} {a : CallAction} {pc pc' : ClientPc} {obs : List ClientObs}
    (hpc : c.calls call = some pc) (hstep : c.callStep call pc a = some ⟨c', pc', obs⟩) :
    c.step (.call call a) = some (c'.setCall call pc', obs ++ Client.returnObs call pc') := by
  show c.stepCall call a = _
  simp only [Client.stepCall, hpc, hstep]
  rfl

/-- `Dial` yields such a client. -/
theorem newClient_dial (h : clientID.length ≤ maxStringSize) :
    ∃ c os, newClient.step (.dial clientID) = some (c, os) ∧ c.Idle 0 := by
  obtain ⟨payload, henc⟩ := (writeString_encodes clientID).mpr h
  have henc' : encodeConnect ⟨clientID⟩ = .ok payload := henc
  refine ⟨{ newClient with reader := .reading }, [.sent ⟨typeConnect, payload⟩], ?_,
    rfl, rfl, fun _ _ => rfl⟩
  show newClient.dial clientID = _
  simp only [Client.dial, henc']
  rfl

/-- `WriteFrame` accepts every SUBSCRIBE frame. -/
theorem writeFrame_subscribe {payload : Bytes} (henc : encodeTopic ⟨topic⟩ = .ok payload) :
    ∃ bytes, writeFrame ⟨typeSubscribe, payload⟩ = .ok bytes := by
  obtain ⟨hlen, rfl⟩ := (writeString_ok_iff topic payload).mp henc
  refine ⟨_, (writeFrame_ok_iff _ _).mpr ⟨(by decide : typeSubscribe ≠ 0), ?_, rfl⟩⟩
  simp only [List.length_append, BigEndian.put_length, maxStringSize, maxPayloadSize] at hlen ⊢
  omega

/-- A step of the goroutines of a client. -/
def ClientAction.Own (_ : Client) (a : ClientAction) : Prop := a.external = true

/-- `c.send` can come to any result. -/
theorem Client.Idle.send {frame : Frame} {bytes : Bytes} (h : c.Idle (n + 1))
    (hpc : c.calls n = some (.check frame .subscribe)) (hwrite : writeFrame frame = .ok bytes)
    (accepted : Bool) :
    ∃ log c' ret, Client.lts.Steps ClientAction.Own c log c' ∧ c'.Idle (n + 1) ∧
      c'.calls n = some (.returned ret) ∧ ret.succeeded = accepted := by
  have hcheck : c.callStep n (.check frame .subscribe) .check =
      some ⟨c, .write frame .subscribe, []⟩ := by
    simp [Client.callStep, Client.isDone, h.closing]
  obtain ⟨c₁, hstart, hidle, hpc₁⟩ : ∃ c₁, Client.lts.Steps ClientAction.Own c [] c₁ ∧
      c₁.Idle (n + 1) ∧ c₁.calls n = some (.write frame .subscribe) :=
    ⟨_, .single (a := .call n .check) rfl (Client.step_call hpc hcheck),
      h.setCall (Nat.le_refl _) _, Client.setCall_self _ _ _⟩
  -- the answer is whether the write succeeds
  cases accepted with
  | true =>
    have hsent : c₁.callStep n (.write frame .subscribe) .write =
        some ⟨c₁, .returned .ok, [.sent frame]⟩ := by
      simp [Client.callStep, Client.netClosed, hidle.closing, hwrite, AfterClientSend.pc]
    exact ⟨_, _, .ok, hstart.snoc (a := .call n .write) rfl (Client.step_call hpc₁ hsent),
      hidle.setCall (Nat.le_refl _) _, Client.setCall_self _ _ _, rfl⟩
  | false =>
    have hfails : c₁.callStep n (.write frame .subscribe) (.writeFails []) =
        some ⟨c₁, .returned (.failed (.write [])), []⟩ := rfl
    exact ⟨_, _, .failed (.write []), hstart.snoc (a := .call n (.writeFails [])) rfl
      (Client.step_call hpc₁ hfails), hidle.setCall (Nat.le_refl _) _,
      Client.setCall_self _ _ _, rfl⟩

/-- A call of `Subscribe` can come to any result that the topic allows. -/
theorem Client.Idle.subscribe (h : c.Idle n) {accepted : Bool}
    (hfits : accepted = true → topic.length ≤ maxStringSize) :
    ∃ c₁ os, c.step (.invoke n (.subscribe topic)) = some (c₁, os) ∧
      ∃ log c₂ ret, Client.lts.Steps ClientAction.Own c₁ log c₂ ∧ c₂.Idle (n + 1) ∧
        c₂.calls n = some (.returned ret) ∧ ret.succeeded = accepted := by
  have hinvoke : c.step (.invoke n (.subscribe topic)) =
      some (c.setCall n (ClientOp.subscribe topic).start, .invoked n (.subscribe topic) ::
        Client.returnObs n (ClientOp.subscribe topic).start) := by
    show c.invoke n (.subscribe topic) = _
    simp only [Client.invoke, h.reader, h.calls n (Nat.le_refl n)]
    rfl
  refine ⟨_, _, hinvoke, ?_⟩
  have hidle := h.setCall (Nat.le_succ n) (ClientOp.subscribe topic).start
  by_cases hlen : topic.length ≤ maxStringSize
  · obtain ⟨payload, henc⟩ := (writeString_encodes topic).mpr hlen
    have hstart : (ClientOp.subscribe topic).start =
        .check ⟨typeSubscribe, payload⟩ .subscribe := by
      show startSend typeSubscribe (writeString topic) .subscribe = _
      rw [henc]
      rfl
    obtain ⟨bytes, hwrite⟩ := writeFrame_subscribe henc
    refine hidle.send ?_ hwrite accepted
    rw [hstart, Client.setCall_self]
  · -- the topic is too long for a SUBSCRIBE frame
    obtain ⟨err, henc⟩ := (topic_codec.fails ⟨topic⟩).mpr hlen
    have hstart : (ClientOp.subscribe topic).start = .returned (.failed (.message err)) := by
      show startSend typeSubscribe (encodeTopic ⟨topic⟩) .subscribe = _
      rw [henc]
      rfl
    refine ⟨[], _, .failed (.message err), .refl _, hidle, ?_, ?_⟩
    · rw [hstart, Client.setCall_self]
    · exact (Bool.eq_false_iff.mpr fun htrue => hlen (hfits htrue)).symm

/-- The manager stands at `pc`, with the endpoints and the topics of `m₀`. -/
structure ConnectionManager.At (m₀ m : ConnectionManager) (pc : MainPc) : Prop where
  endpoints : m.endpoints = m₀.endpoints
  topics : m.topics = m₀.topics
  clientID : m.clientID = m₀.clientID
  main : m.main = pc

theorem Outcomes.allows_client (o : Outcomes) (m : ConnectionManager) (pc : ConnectPc)
    (client : ClientId) (a : ClientAction) : o.allows m pc (.client client a) = true := by
  cases pc <;> simp [Outcomes.allows]

section Run

variable {endpoints : List Bytes} {m₀ m₁ : ConnectionManager} {starting : Bool} {c' : Client}

/-- A run of `connect` that agrees with `o`. -/
def ConnectionManager.Run (ctx : Ctx) (endpoints : List Bytes) (clientID : Bytes) (o : Outcomes)
    (m : ConnectionManager) (log : List ManagerObs) (m' : ConnectionManager) : Prop :=
  (ConnectionManager.lts ctx endpoints clientID).Steps (fun m a => o.agrees m a = true) m log m'

/-- A step of `connect` that no client takes part in. -/
theorem connect_own {a : ConnectAction} (hpc : m.main = .connect starting pc)
    (hallows : o.allows m pc (.connect a) = true)
    (hact : m.connectStep starting pc a = some ⟨m₁, none, obs⟩) :
    ConnectionManager.Run ctx endpoints clientID o m obs m₁ := by
  refine .single (a := .connect a) (Outcomes.agrees_at hpc ▸ hallows) ?_
  show m.step (.connect a) = _
  simp [ConnectionManager.step, ConnectionManager.act, ConnectionManager.connect, hpc, hact]

/-- A step of `connect` that a client takes along. -/
theorem connect_along {a : ConnectAction} {b : ClientAction} {os : List ClientObs}
    (hpc : m.main = .connect starting pc) (hallows : o.allows m pc (.connect a) = true)
    (hact : m.connectStep starting pc a = some ⟨m₁, some (client, b), obs⟩)
    (hc : m₁.clients[client]? = some c) (hb : c.step b = some (c', os)) :
    ConnectionManager.Run ctx endpoints clientID o m (os.map (.client client) ++ obs)
      { m₁ with clients := m₁.clients.set client c' } := by
  refine .single (a := .connect a) (Outcomes.agrees_at hpc ▸ hallows) ?_
  show m.step (.connect a) = _
  simp [ConnectionManager.step, ConnectionManager.act, ConnectionManager.connect, hpc, hact, hc,
    hb]

/-- The goroutines of a client run while `connect` stays where it is. -/
theorem connect_client (hat : m₀.At m (.connect starting pc)) (hc : m.clients[client]? = some c)
    {log : List ClientObs} (h : Client.lts.Steps ClientAction.Own c log c') :
    ∃ log' m', ConnectionManager.Run ctx endpoints clientID o m log' m' ∧
      m₀.At m' (.connect starting pc) ∧ m'.clients[client]? = some c' := by
  induction h with
  | refl => exact ⟨[], m, .refl _, hat, hc⟩
  | @snoc c₁ c₂ log os a _ hext hstep ih =>
    obtain ⟨log', m₁, hrun, hat₁, hc₁⟩ := ih
    have hlt := (List.getElem?_eq_some_iff.mp hc₁).1
    have hstep₁ : m₁.step (.client client a) =
        some ({ m₁ with clients := m₁.clients.set client c₂ }, os.map (.client client)) := by
      have hext' : a.external = true := hext
      have hstep' : c₁.step a = some (c₂, os) := hstep
      simp [ConnectionManager.step, ConnectionManager.act, ConnectionManager.stepping, hext', hc₁,
        hstep']
    have hagrees : o.agrees m₁ (.client client a) = true :=
      (Outcomes.agrees_at hat₁.main).trans (o.allows_client _ _ _ _)
    exact ⟨_, _, .snoc hrun hagrees hstep₁,
      ⟨hat₁.endpoints, hat₁.topics, hat₁.clientID, hat₁.main⟩, List.getElem?_set_self hlt⟩

/-- `connect` subscribes one topic. -/
theorem connect_subscribe
    (hat : m₀.At m (.connect starting (.subscribe client (topic :: todo) rest)))
    (hc : m.clients[client]? = some c) (hidle : c.Idle n)
    (hend : m₀.endpoints = tried ++ endpoint :: rest)
    (hfits : o.accepts endpoint topic = true → topic.length ≤ maxStringSize) :
    ∃ log m' c', ConnectionManager.Run ctx endpoints clientID o m log m' ∧
      m'.clients[client]? = some c' ∧ c'.Idle (n + 1) ∧
      m₀.At m' (.connect starting (if o.accepts endpoint topic then .subscribe client todo rest
        else .close client rest)) := by
  obtain ⟨c₁, os, hinvoke, log, c₂, ret, hcalls, hidle₂, hret, hok⟩ := hidle.subscribe hfits
  have hlt := (List.getElem?_eq_some_iff.mp hc).1
  -- `connect` calls `client.Subscribe`, and the client runs it
  obtain ⟨log₁, m₁, hrun₁, hat₁, hc₁⟩ : ∃ log₁ m₁,
      ConnectionManager.Run ctx endpoints clientID o m log₁ m₁ ∧
      m₀.At m₁ (.connect starting (.subscribeWait client topic n todo rest)) ∧
      m₁.clients[client]? = some c₁ :=
    ⟨_, _, connect_along (a := .subscribe n) hat.main (by simp [Outcomes.allows]) rfl hc hinvoke,
      ⟨hat.endpoints, hat.topics, hat.clientID, rfl⟩, List.getElem?_set_self hlt⟩
  obtain ⟨log₂, m₂, hrun₂, hat₂, hc₂⟩ : ∃ log₂ m₂,
      ConnectionManager.Run ctx endpoints clientID o m₁ log₂ m₂ ∧
      m₀.At m₂ (.connect starting (.subscribeWait client topic n todo rest)) ∧
      m₂.clients[client]? = some c₂ := connect_client hat₁ hc₁ hcalls
  have hresult : m₂.methodResult client n = some ret := by
    simp [ConnectionManager.methodResult, hc₂, hret]
  have hallows : o.allows m₂ (.subscribeWait client topic n todo rest) (.connect .subscribed) =
      true := by
    simp [Outcomes.allows, hresult, ConnectionManager.trying_eq (hat₂.endpoints.trans hend), hok]
  -- the result decides whether `connect` goes on with the client
  have hact : m₂.connectStep starting (.subscribeWait client topic n todo rest) .subscribed =
      some ⟨m₂.goto (.connect starting (if o.accepts endpoint topic then
        .subscribe client todo rest else .close client rest)), none, []⟩ := by
    rw [← hok]
    cases ret <;> simp [ConnectionManager.connectStep, hresult, ConnectionManager.stepped,
      ClientRet.succeeded]
  exact ⟨_, _, c₂, (hrun₁.trans hrun₂).trans (connect_own hat₂.main hallows hact), hc₂, hidle₂,
    hat₂.endpoints, hat₂.topics, hat₂.clientID, rfl⟩

/-- `connect` closes a client and goes on with the next endpoint. -/
theorem connect_close (hat : m₀.At m (.connect starting (.close client rest)))
    (hc : m.clients[client]? = some c) (hidle : c.Idle n) :
    ∃ log m', ConnectionManager.Run ctx endpoints clientID o m log m' ∧
      m₀.At m' (.connect starting (.dial rest)) := by
  have hlt := (List.getElem?_eq_some_iff.mp hc).1
  have hclose : c.step .close = some ({ c with closing := .done }, [.closed]) := by
    show c.close = _
    simp only [Client.close, hidle.reader, hidle.closing]
    rfl
  obtain ⟨log₁, m₁, hrun₁, hat₁, hc₁⟩ : ∃ log₁ m₁,
      ConnectionManager.Run ctx endpoints clientID o m log₁ m₁ ∧
      m₀.At m₁ (.connect starting (.close client rest)) ∧
      m₁.clients[client]? = some { c with closing := .done } :=
    ⟨_, _, connect_along (a := .close) hat.main (by simp [Outcomes.allows]) rfl hc hclose,
      ⟨hat.endpoints, hat.topics, hat.clientID, hat.main⟩, List.getElem?_set_self hlt⟩
  have hconn : Client.lts.Steps ClientAction.Own { c with closing := .done } []
      { c with closing := .closed } := .single (a := .closeConn) rfl rfl
  obtain ⟨log₂, m₂, hrun₂, hat₂, hc₂⟩ : ∃ log₂ m₂,
      ConnectionManager.Run ctx endpoints clientID o m₁ log₂ m₂ ∧
      m₀.At m₂ (.connect starting (.close client rest)) ∧
      m₂.clients[client]? = some { c with closing := .closed } := connect_client hat₁ hc₁ hconn
  have hclosed : m₂.connectStep starting (.close client rest) .closed =
      some ⟨m₂.goto (.connect starting (.clear client rest)), none, []⟩ := by
    simp [ConnectionManager.connectStep, ConnectionManager.isClosed, hc₂, ConnectionManager.stepped]
  have hrun₃ : ConnectionManager.Run ctx endpoints clientID o m₂ []
      (m₂.goto (.connect starting (.clear client rest))) :=
    connect_own hat₂.main (by simp [Outcomes.allows]) hclosed
  exact ⟨_, _, ((hrun₁.trans hrun₂).trans hrun₃).trans
    (connect_own (a := .clear) rfl (by simp [Outcomes.allows]) rfl),
    hat₂.endpoints, hat₂.topics, hat₂.clientID, rfl⟩

/-- `connect` subscribes all topics, or closes the client. -/
theorem connect_topics (hreal : o.Realisable m₀) (hend : m₀.endpoints = tried ++ endpoint :: rest)
    (htodo : ∀ topic ∈ todo, topic ∈ m₀.topics)
    (hat : m₀.At m (.connect starting (.subscribe client todo rest)))
    (hc : m.clients[client]? = some c) (hidle : c.Idle n) :
    ∃ log m', ConnectionManager.Run ctx endpoints clientID o m log m' ∧
      (m₀.At m' .loop ∨ m₀.At m' (.connect starting (.dial rest))) := by
  induction todo generalizing m c n with
  | nil =>
    exact ⟨_, _, connect_own (a := .complete) hat.main (by simp [Outcomes.allows]) rfl,
      .inl ⟨hat.endpoints, hat.topics, hat.clientID, rfl⟩⟩
  | cons topic todo ih =>
    have hfits := hreal.accepts endpoint (by simp [hend]) topic (htodo topic List.mem_cons_self)
    obtain ⟨log₁, m₁, c₁, hrun₁, hc₁, hidle₁, hat₁⟩ := connect_subscribe hat hc hidle hend hfits
    split at hat₁
    · obtain ⟨log₂, m₂, hrun₂, hend₂⟩ :=
        ih (fun topic hmem => htodo topic (List.mem_cons_of_mem _ hmem)) hat₁ hc₁ hidle₁
      exact ⟨_, m₂, hrun₁.trans hrun₂, hend₂⟩
    · obtain ⟨log₂, m₂, hrun₂, hat₂⟩ := connect_close hat₁ hc₁ hidle₁
      exact ⟨_, m₂, hrun₁.trans hrun₂, .inr hat₂⟩

/-- `connect` dials an endpoint and sets `c.current`. -/
theorem connect_dial (hreal : o.Realisable m₀) (hend : m₀.endpoints = tried ++ endpoint :: rest)
    (hdials : o.dials endpoint = true)
    (hat : m₀.At m (.connect starting (.dial (endpoint :: rest)))) :
    ∃ log m' client c, ConnectionManager.Run ctx endpoints clientID o m log m' ∧
      m₀.At m' (.connect starting (.subscribe client m₀.topics.keys rest)) ∧
      m'.clients[client]? = some c ∧ c.Idle 0 := by
  have hfits := hreal.dials endpoint (by simp [hend]) hdials
  obtain ⟨c, os, hdial, hidle⟩ := newClient_dial (hat.clientID ▸ hfits)
  obtain ⟨log₁, m₁, hrun₁, hat₁, hc₁⟩ : ∃ log₁ m₁,
      ConnectionManager.Run ctx endpoints clientID o m log₁ m₁ ∧
      m₀.At m₁ (.connect starting (.install m.clients.length rest)) ∧
      m₁.clients[m.clients.length]? = some c :=
    ⟨_, _, connect_along (a := .dial) hat.main hdials rfl (by simp) hdial,
      ⟨hat.endpoints, hat.topics, hat.clientID, rfl⟩, List.getElem?_set_self (by simp)⟩
  have hinstall : m₁.connectStep starting (.install m.clients.length rest)
      (.install m₀.topics.keys) = some ⟨{ m₁ with
        current := some m.clients.length
        main := .connect starting (.subscribe m.clients.length m₀.topics.keys rest) }, none,
        [.installed m.clients.length m₀.topics.keys]⟩ := by
    simp [ConnectionManager.connectStep, hat₁.topics, ConnectionManager.stepped]
  exact ⟨_, _, m.clients.length, c,
    hrun₁.trans (connect_own hat₁.main (by simp [Outcomes.allows]) hinstall),
    ⟨hat₁.endpoints, hat₁.topics, hat₁.clientID, rfl⟩, hc₁, hidle⟩

/-- `connect` tries the endpoints that are left. -/
theorem connect_endpoints (hreal : o.Realisable m₀) (hend : m₀.endpoints = tried ++ rest)
    (hat : m₀.At m (.connect starting (.dial rest))) :
    ∃ log m', ConnectionManager.Run ctx endpoints clientID o m log m' ∧
      (m₀.At m' .loop ∨ m₀.At m' (.timer starting)) := by
  induction rest generalizing m tried with
  | nil =>
    exact ⟨_, _, connect_own (a := .exhausted) hat.main (by simp [Outcomes.allows]) rfl,
      .inr ⟨hat.endpoints, hat.topics, hat.clientID, rfl⟩⟩
  | cons endpoint rest ih =>
    have hend' : m₀.endpoints = (tried ++ [endpoint]) ++ rest := by simp [hend]
    -- it is enough to get to the next endpoint
    have hnext : ∀ {log m₁}, ConnectionManager.Run ctx endpoints clientID o m log m₁ →
        m₀.At m₁ (.connect starting (.dial rest)) →
        ∃ log m', ConnectionManager.Run ctx endpoints clientID o m log m' ∧
          (m₀.At m' .loop ∨ m₀.At m' (.timer starting)) := by
      intro log m₁ hrun hat₁
      obtain ⟨log', m', hrun', hret⟩ := ih hend' hat₁
      exact ⟨_, m', hrun.trans hrun', hret⟩
    by_cases hdials : o.dials endpoint = true
    · obtain ⟨log₁, m₁, client, c, hrun₁, hat₁, hc₁, hidle₁⟩ := connect_dial hreal hend hdials hat
      obtain ⟨log₂, m₂, hrun₂, hloop | hat₂⟩ := connect_topics hreal hend
        (fun topic hmem => AList.mem_keys.mpr hmem) hat₁ hc₁ hidle₁
      · exact ⟨_, m₂, hrun₁.trans hrun₂, .inl hloop⟩
      · exact hnext (hrun₁.trans hrun₂) hat₂
    · refine hnext (connect_own (a := .dialFails) hat.main ?_ rfl)
        ⟨hat.endpoints, hat.topics, hat.clientID, rfl⟩
      simpa [Outcomes.allows] using hdials

/-- Every assignment that the messages allow has a run of `connect` that returns. -/
theorem connect_returns (hreal : o.Realisable m) (hpc : m.main = .connect starting .start) :
    ∃ log m', ConnectionManager.Run ctx endpoints clientID o m log m' ∧
      (m.At m' .loop ∨ m.At m' (.timer starting)) := by
  obtain ⟨log, m', hrun, hret⟩ := connect_endpoints hreal (List.nil_append _).symm
    (m := m.goto (.connect starting (.dial m.endpoints))) ⟨rfl, rfl, rfl, rfl⟩
  exact ⟨_, m', (connect_own (a := .copy) hpc (by simp [Outcomes.allows]) rfl).trans hrun, hret⟩

end Run

/-- The endpoints are the redirects, the latest first and each once, and then the initial endpoints
    that are no redirects, in their order. A call of `connect`, beside which `Close` is not called,
    succeeds if and only if some endpoint can be dialed and accepts the recorded topics: the
    current client is then that of the first such endpoint, and all others are closed. Otherwise
    there is no current client and all are closed. -/
theorem endpoint_selection (ctx : Ctx) (endpoints : List Bytes) (clientID : Bytes) :
    (∀ (m : ConnectionManager) (redirects : List Bytes),
      (redirects.foldl ConnectionManager.prefer m).endpoints =
        redirects.dedup.reverse ++ m.endpoints.filter (· ∉ redirects)) ∧
    ∀ (log : List ManagerObs) (m : ConnectionManager),
      (ConnectionManager.lts ctx endpoints clientID).Reach Lts.Always log m →
      m.endpoints =
        (redirectsOf log).dedup.reverse ++ endpoints.filter (· ∉ redirectsOf log) ∧
      (∀ endpoint ∈ endpoints, endpoint ∈ m.endpoints) ∧
      ∀ (o : Outcomes) (starting : Bool), m.main = .connect starting .start →
        m.current = none ∧
        (∀ (log' : List ManagerObs) (m' : ConnectionManager),
          ConnectionManager.Run ctx endpoints clientID o m log' m' →
          (∀ pc, m'.main ≠ .connect starting pc) →
          (m'.main = .loop ∧ o.Connected m log' m' ∨
            m'.main = .timer starting ∧ o.Exhausted m m') ∧
          -- what is recorded meanwhile is subscribed by the calls that record it
          ((∀ topic ∈ m'.topics, topic ∈ m.topics) →
            (m'.main = .loop ↔ ∃ endpoint ∈ m.endpoints, o.Serves m.topics endpoint))) ∧
        (o.Realisable m → ∃ log' m', ConnectionManager.Run ctx endpoints clientID o m log' m' ∧
          (m'.main = .loop ∨ m'.main = .timer starting) ∧ m'.topics = m.topics) := by
  refine ⟨fun m redirects => ?_, fun log m h => ?_⟩
  · rw [m.foldl_prefer]
    convert List.foldl_moveToFront m.endpoints redirects
  have hendpoints : m.endpoints =
      (redirectsOf log).dedup.reverse ++ endpoints.filter (· ∉ redirectsOf log) := by
    rw [endpoints_inv h]
    convert List.foldl_moveToFront endpoints (redirectsOf log)
  refine ⟨hendpoints, fun endpoint hmem => ?_, fun o starting hpc => ?_⟩
  · rw [hendpoints]
    by_cases hredirect : endpoint ∈ redirectsOf log
    · simp [hredirect]
    · simp [hredirect, hmem]
  have hnone : m.current = none :=
    Option.eq_none_iff_forall_ne_some.mpr fun client hcur => (clients_inv h).serves_at hpc hcur
  refine ⟨hnone, fun log' m' hrun hreturned => ?_, fun hreal => ?_⟩
  · have hinv := connect_inv hrun hpc hnone
    have hclients := clients_inv (h.trans (hrun.mono fun _ _ _ => trivial))
    have hcases : m'.main = .loop ∧ o.Connected m log' m' ∨
        m'.main = .timer starting ∧ o.Exhausted m m' :=
      (hinv.returned hreturned).imp (fun hloop => ⟨hloop, hinv.connected hclients hloop⟩)
        fun htimer => ⟨htimer, hinv.exhausted hclients htimer⟩
    refine ⟨hcases, fun htopics => ?_⟩
    obtain ⟨hloop, tried, endpoint, rest, _, hsplit, hserves, -⟩ | ⟨htimer, hno, -⟩ := hcases
    · have hmem : endpoint ∈ m.endpoints := by simp [hsplit]
      exact ⟨fun _ => ⟨endpoint, hmem, hserves⟩, fun _ => hloop⟩
    · constructor
      · intro hloop
        exact nomatch htimer.symm.trans hloop
      · intro ⟨endpoint, hmem, hserves⟩
        exact absurd (hserves.mono htopics) (hno endpoint hmem)
  · obtain ⟨log', m', hrun, hat | hat⟩ := connect_returns hreal hpc
    · exact ⟨log', m', hrun, .inl hat.main, hat.topics⟩
    · exact ⟨log', m', hrun, .inr hat.main, hat.topics⟩

/-- The redirect can be dialed and refuses every topic, the first endpoint cannot be dialed, and
    the second one refuses no topic. -/
private def secondServes : Outcomes where
  dials endpoint := endpoint ≠ [1]
  accepts endpoint _ := endpoint = [2]

/-- A topic is subscribed on the first client, which is then redirected to `b`. -/
private def redirectedRun : List ManagerAction :=
  connectRun ++ [ManagerAction.invoke 0 (.subscribe [116]), .enter 0, .method 0 0] ++
    subscribeFrameRun 0 0 ++ .result 0 :: shutdownFrameRun 0 ++
    [ManagerAction.watchShutdown, .handOff, .notify, .release, .closeClient, .client 0 .closeConn,
      .clientClosed, .check]

/-- `b` is dialed and its client closed, because the write of the SUBSCRIBE frame fails; the first
    endpoint cannot be dialed; the topic is subscribed on the client of the second one. -/
private def secondRun : List ManagerAction :=
  [.connect .copy, .connect .dial, .connect (.install [[116]]), .connect (.subscribe 0),
    .client 1 (.call 0 .check), .client 1 (.call 0 (.writeFails [])), .connect .subscribed,
    .connect .close, .client 1 .closeConn, .connect .closed, .connect .clear, .connect .dialFails,
    .connect .dial, .connect (.install [[116]]), .connect (.subscribe 0)] ++
    subscribeFrameRun 2 0 ++ [ManagerAction.connect .subscribed, .connect .complete]

/-- After a redirect, `connect` gets to the second of the initial endpoints. -/
theorem endpoint_selection_second :
    ∃ log m log' m', (ConnectionManager.lts .background [[1], [2]] []).Reach Lts.Always log m ∧
      redirectsOf log = [[98]] ∧ m.endpoints = [[98], [1], [2]] ∧ [116] ∈ m.topics ∧
      ConnectionManager.Run .background [[1], [2]] [] secondServes m log' m' ∧
      m'.main = .loop ∧ secondServes.Connected m log' m' := by
  obtain ⟨⟨m, log⟩, hpre, hredirects, hmem, hpc, ⟨m', log'⟩, hrun, hloop⟩ :
      ∃ r ∈ (ConnectionManager.lts .background [[1], [2]] []).runWhere Lts.Always
          (newConnectionManager .background [[1], [2]] []) redirectedRun,
        redirectsOf r.2 = [[98]] ∧ [116] ∈ r.1.topics.keys ∧ r.1.main = .connect false .start ∧
        ∃ r' ∈ (ConnectionManager.lts .background [[1], [2]] []).runWhere
            (fun m a => secondServes.agrees m a = true) r.1 secondRun, r'.1.main = .loop := by
    decide
  have hreach : (ConnectionManager.lts .background [[1], [2]] []).Reach Lts.Always log m :=
    ⟨_, rfl, Lts.steps_of_runWhere _ _ _ _ hpre⟩
  have hsteps := Lts.steps_of_runWhere _ _ _ _ hrun
  obtain ⟨hendpoints, -, hselects⟩ :=
    (endpoint_selection .background [[1], [2]] []).2 log m hreach
  obtain ⟨-, hreturns, -⟩ := hselects secondServes false hpc
  have hreturned : ∀ pc, m'.main ≠ .connect false pc := by
    intro pc hpc
    exact nomatch hloop.symm.trans hpc
  obtain ⟨-, hconnected⟩ | ⟨htimer, -⟩ := (hreturns log' m' hsteps hreturned).1
  · refine ⟨log, m, log', m', hreach, hredirects, ?_, AList.mem_keys.mpr hmem, hsteps, hloop,
      hconnected⟩
    rw [hendpoints, hredirects]
    decide
  · exact nomatch hloop.symm.trans htimer

end EventBus
