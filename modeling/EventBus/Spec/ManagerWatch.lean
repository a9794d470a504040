import EventBus.Spec.ClientChannels
import EventBus.Spec.ManagerClients

/-!
# What watch returns and what it forwards

As long as `Close` has not been called, `watch` returns the redirect that `readLoop` has put on
`c.shutdowns`, or reports that `readLoop` has ended without one. The events it has received it
has forwarded; those that are still in the buffer when it returns are lost.

## Key results

- `watch_inv`: what is known of the client while it is watched and when `watch` returns
- `disconnect_told_apart`: `watch` tells a graceful disconnect from an abrupt one
- `handoff_forwards_all`: what `watch` forwards before it returns a redirect
-/

namespace EventBus

variable {log os : List ManagerObs} {c : Client} {a : ManagerAction} {redirect clientID : Bytes}
  {graceful : Bool} {out : ManagerOut} {client : ClientId} {m : ConnectionManager} {ctx : Ctx}
  {endpoints : List Bytes}

/-- `watch` has not returned for this client, which is not released either. -/
def ConnectionManager.Unwatched (m : ConnectionManager) (client : ClientId) : Prop :=
  match m.main with
  | .connect _ (.install client' _) | .connect _ (.subscribe client' _ _)
  | .connect _ (.subscribeWait client' _ _ _ _) | .connect _ (.close client' _)
  | .connect _ (.clear client' _) => client' = client
  | .watch client' | .forward client' _ | .last client' => client' = client
  | .loop => m.current = some client
  | _ => False

/-- What the result of `watch` says about what `readLoop` has done. -/
def WatchResult (log : List ClientObs) (c : Client) (redirect : Bytes) (graceful : Bool) : Prop :=
  (graceful = true ∧ redirects log = [redirect]) ∨
    (graceful = false ∧ redirect = [] ∧ redirects log = [] ∧ c.shutdowns.closed = true)

/-- The result of `watch` stays true of the client. -/
theorem WatchResult.step {G : Client → ClientAction → Prop} {log os : List ClientObs}
    {c' : Client} {a : ClientAction} (h : WatchResult log c redirect graceful)
    (hr : Client.lts.Reach G log c) (heff : ClientEffect c a c' os) :
    WatchResult (log ++ os) c' redirect graceful := by
  have hinv := redirect_inv hr
  have hleft : c.reader.left = true := by
    obtain ⟨-, hred⟩ | ⟨-, -, -, hclosed⟩ := h
    · exact hinv.left (by simp [hred])
    · exact hinv.closed hclosed
  have hnone := (heff.left_quiet hleft).2.2
  unfold WatchResult
  rw [redirects_append, hnone, List.append_nil]
  obtain hred | ⟨hgraceful, hempty, hred, hclosed⟩ := h
  · exact .inl hred
  · exact .inr ⟨hgraceful, hempty, hred, heff.shutdowns_closed.1 hclosed⟩

/-- `c.done` stays closed. -/
theorem ManagerMove.isDone (h : ManagerMove m a out) (hopen : out.manager.isDone = false) :
    m.isDone = false := by
  cases h with
  | main _ hm => cases hm <;> exact hopen
  | close _ hm =>
    cases hm with
    | client => exact hopen
    | _ => cases hopen
  | _ => exact hopen

/-- A client that is not watched yet was not before, or is new. -/
theorem ManagerMove.unwatched (h : ManagerMove m a out) (hinv : m.ClientsInv)
    (hun : out.manager.Unwatched client) : m.Unwatched client ∨ m.clients.length = client := by
  cases h with
  | main hpc hm =>
    cases hm with
    | dial => exact .inr hun
    | complete =>
      -- the current client is the one that `connect` has subscribed
      have hserves := (hinv.current client hun).1
      rw [hpc] at hserves
      left
      rw [ConnectionManager.Unwatched, hpc]
      exact hserves
    | loopSome hcur =>
      left
      rw [ConnectionManager.Unwatched, hpc]
      exact hcur.trans (congrArg some hun)
    | redirected hwait | ended hwait => exact hun.elim
    | connectClose | closeClient => exact .inl hun
    | install | subscribe | subscribeFailed | subscribed | connectClosed | event | eventsEnd
    | watchDone | forward =>
      left
      rw [ConnectionManager.Unwatched, hpc]
      exact hun
    | _ => exact hun.elim
  | close _ hm =>
    cases hm with
    | take =>
      left
      unfold ConnectionManager.Unwatched at hun ⊢
      revert hun
      -- only at the head of the loop does `c.current` count
      dsimp only
      split <;> intro hun
      all_goals first | exact hun | exact nomatch hun
    | _ => exact .inl hun
  | _ => exact .inl hun

/-- Only `watch` receives a redirect, and it returns then. -/
theorem ManagerMove.takes_redirect (h : ManagerMove m a out)
    (hb : out.client = some (client, .receiveShutdown)) : ¬out.manager.Unwatched client := by
  cases h with
  | client hext =>
    cases hb
    cases hext
  | main _ hm =>
    cases hm with
    | redirected => exact id
    | _ => cases hb
  | close _ hm => cases hm <;> exact nomatch hb
  | method _ hm => cases hm <;> exact nomatch hb
  | _ => cases hb

/-- How `watch` comes to have returned. -/
theorem ManagerMove.watched (h : ManagerMove m a out)
    (hpc : out.manager.main = .watched client redirect graceful)
    (hopen : out.manager.isDone = false) :
    (m.main = .watched client redirect graceful ∧ out.manager.clients = m.clients) ∨
    (m.Unwatched client ∧ out.manager.clients = m.clients ∧ ∃ c, m.clients[client]? = some c ∧
      ((graceful = true ∧ AwaitsRedirect client a m.main ∧
          ∃ shutdowns, c.shutdowns.receive = .done (some redirect, shutdowns)) ∨
        (graceful = false ∧ redirect = [] ∧ c.shutdowns.buf = [] ∧
          c.shutdowns.closed = true))) := by
  have hopen' := h.isDone hopen
  cases h with
  | main hmain hm =>
    cases hm with
    | @redirected a pc client' c redirect' shutdowns hwait hc hrecv =>
      obtain ⟨rfl, rfl, rfl⟩ := MainPc.watched.inj hpc
      right
      refine ⟨?_, rfl, c, hc, .inl ⟨rfl, hmain ▸ hwait, shutdowns, hrecv⟩⟩
      rw [ConnectionManager.Unwatched, hmain]
      cases hwait <;> rfl
    | @ended a pc client' c shutdowns hwait hc hrecv =>
      obtain ⟨rfl, rfl, rfl⟩ := MainPc.watched.inj hpc
      obtain ⟨hbuf, hclosed, -⟩ := Chan.receive_none hrecv
      right
      refine ⟨?_, rfl, c, hc, .inr ⟨rfl, rfl, hbuf, hclosed⟩⟩
      rw [ConnectionManager.Unwatched, hmain]
      cases hwait <;> rfl
    | stop hdone | stopForward hdone => exact nomatch hopen'.symm.trans hdone
    | connectClose | closeClient => exact .inl ⟨hpc, rfl⟩
    | _ => cases hpc
  | close _ hm => cases hm <;> exact .inl ⟨hpc, rfl⟩
  | _ => exact .inl ⟨hpc, rfl⟩

/-- What is known of a client while it is watched and when `watch` returns. -/
structure ConnectionManager.WatchInv (log : List ManagerObs) (m : ConnectionManager) : Prop where
  unread : ∀ client c, m.clients[client]? = some c → m.Unwatched client →
    c.shutdowns.buf = redirects (clientLogOf client log)
  result : ∀ client redirect graceful c, m.main = .watched client redirect graceful →
    m.clients[client]? = some c → m.isDone = false →
    WatchResult (clientLogOf client log) c redirect graceful

section Reach

variable {G : ConnectionManager → ManagerAction → Prop}

/-- Nothing is taken from `c.shutdowns` of a client that is not watched yet. -/
theorem ConnectionManager.WatchInv.unread_move (hinv : m.WatchInv log)
    (h : (ConnectionManager.lts ctx endpoints clientID).Reach G log m) (hm : ManagerMove m a out)
    (hc : out.manager.clients[client]? = some c) (hun : out.manager.Unwatched client) :
    c.shutdowns.buf = redirects (clientLogOf client log) := by
  have hold : m.clients[client]? = some c →
      c.shutdowns.buf = redirects (clientLogOf client log) := by
    intro hc
    obtain hun' | hlen := hm.unwatched (clients_inv h) hun
    · exact hinv.unread client c hc hun'
    · have hlt := (List.getElem?_eq_some_iff.mp hc).1
      exact absurd hlen (Nat.ne_of_gt hlt)
  obtain hsame | ⟨hnew, -⟩ := hm.clients
  · exact hold (hsame ▸ hc)
  · rw [hnew] at hc
    obtain hc | ⟨rfl, rfl⟩ := List.getElem?_concat_cases hc
    · exact hold hc
    · -- `Dial` has just made the client
      rw [ConnectionManager.clientLogOf_eq_nil h (Nat.le_refl _)]
      rfl

/-- What `watch` returns is true of the client as it finds it. -/
theorem ConnectionManager.WatchInv.result_move (hinv : m.WatchInv log)
    (h : (ConnectionManager.lts ctx endpoints clientID).Reach G log m) (hm : ManagerMove m a out)
    (hpc : out.manager.main = .watched client redirect graceful)
    (hc : out.manager.clients[client]? = some c) (hopen : out.manager.isDone = false) :
    m.clients[client]? = some c ∧ WatchResult (clientLogOf client log) c redirect graceful := by
  obtain ⟨hmain, hsame⟩ | ⟨hun, hsame, c₁, hc₁, hres⟩ := hm.watched hpc hopen
  · rw [hsame] at hc
    exact ⟨hc, hinv.result client redirect graceful c hmain hc (hm.isDone hopen)⟩
  · rw [hsame] at hc
    obtain rfl := Option.some.inj (hc₁.symm.trans hc)
    have hbuf := hinv.unread client c₁ hc hun
    obtain ⟨rfl, -, shutdowns, hrecv⟩ | ⟨rfl, rfl, hempty, hclosed⟩ := hres
    · -- there is one redirect at most, so that the channel is empty now
      have honce := (redirect_inv (ConnectionManager.reach_client h hc)).once
      rw [← hbuf, (Chan.receive_some hrecv).1, List.length_cons] at honce
      have hrest : shutdowns.buf = [] := List.eq_nil_of_length_eq_zero (by omega)
      refine ⟨hc, .inl ⟨rfl, ?_⟩⟩
      rw [← hbuf, (Chan.receive_some hrecv).1, hrest]
    · exact ⟨hc, .inr ⟨rfl, rfl, hbuf ▸ hempty, hclosed⟩⟩

theorem watch_inv (h : (ConnectionManager.lts ctx endpoints clientID).Reach G log m) :
    m.WatchInv log := by
  refine h.induct_reach (P := fun log m => m.WatchInv log) ?_ ?_
  · rintro _ rfl
    constructor
    · exact fun client c hc => nomatch hc
    · exact fun client redirect graceful c _ hc => nomatch hc
  intro log m a m' os hr ih _ hstep
  cases manager_step_effect hstep with
  | @mk out clients cos hm hch =>
    have hlog : ∀ client, clientLogOf client (log ++ (cos ++ out.obs)) =
        clientLogOf client log ++ clientLogOf client cos := by
      intro client
      rw [clientLogOf_append, clientLogOf_append, hm.clientLogOf_nil, List.append_nil]
    -- the move of the manager comes first, and then the step of one of its clients
    constructor
    · intro client c' hc' hun
      rw [hlog]
      obtain ⟨c, hc, hcase⟩ := hch.cases_client hc'
      have hbefore := ih.unread_move hr hm hc hun
      obtain ⟨rfl, hnil, -⟩ | ⟨b, hb, hcstep⟩ := hcase
      · rw [hnil, List.append_nil]
        exact hbefore
      · have hne : b ≠ .receiveShutdown := fun heq => hm.takes_redirect (heq ▸ hb) hun
        rw [(client_step_effect hcstep).shutdowns_buf hne, hbefore, redirects_append]
    · intro client redirect graceful c' hpc hc' hopen
      rw [hlog]
      obtain ⟨c, hc, hcase⟩ := hch.cases_client hc'
      obtain ⟨hc, hbefore⟩ := ih.result_move hr hm hpc hc hopen
      obtain ⟨rfl, hnil, -⟩ | ⟨b, -, hcstep⟩ := hcase
      · rw [hnil, List.append_nil]
        exact hbefore
      · exact hbefore.step (ConnectionManager.reach_client hr hc) (client_step_effect hcstep)

/-- The client for which `watch` has returned. -/
theorem ConnectionManager.watched_client
    (h : (ConnectionManager.lts ctx endpoints clientID).Reach G log m)
    (hpc : m.main = .watched client redirect graceful) :
    ∃ c, m.clients[client]? = some c := by
  have hlen := (clients_inv h).last client (hpc ▸ rfl)
  exact ⟨_, List.getElem?_eq_getElem (hlen ▸ Nat.lt_succ_self client)⟩

end Reach

/-- If `watch` returns and `Close` has not been called, it returns a redirect exactly if
    `readLoop` has put it on `c.shutdowns`, and it reports an abrupt end exactly if `readLoop` has
    left its loop and has put none. -/
theorem disconnect_told_apart (ctx : Ctx) (endpoints : List Bytes) (clientID : Bytes)
    (log : List ManagerObs) (m : ConnectionManager)
    (h : (ConnectionManager.lts ctx endpoints clientID).Reach Lts.Always log m)
    (client : ClientId) (redirect : Bytes) (graceful : Bool)
    (hpc : m.main = .watched client redirect graceful) (hopen : m.isDone = false) :
    (∀ r, (redirect = r ∧ graceful = true) ↔ .client client (.redirected r) ∈ log) ∧
    ((redirect = [] ∧ graceful = false) ↔ ∃ c, m.clients[client]? = some c ∧
      c.reader.left = true ∧ ∀ r, .client client (.redirected r) ∉ log) := by
  obtain ⟨c, hc⟩ := ConnectionManager.watched_client h hpc
  have hredirected : ∀ r, .client client (.redirected r) ∈ log ↔
      r ∈ redirects (clientLogOf client log) := by
    intro r
    rw [mem_redirects, mem_clientLogOf]
  simp only [hredirected]
  obtain ⟨rfl, hred⟩ | ⟨rfl, rfl, hred, hclosed⟩ :=
    (watch_inv h).result client redirect graceful c hpc hc hopen
  · rw [hred]
    constructor
    · intro r
      rw [List.mem_singleton]
      exact ⟨fun hr => hr.1.symm, fun hr => ⟨hr.symm, rfl⟩⟩
    · constructor
      · exact fun hr => nomatch hr.2
      · rintro ⟨-, -, -, hnone⟩
        exact absurd List.mem_cons_self (hnone redirect)
  · have hleft := (redirect_inv (ConnectionManager.reach_client h hc)).closed hclosed
    rw [hred]
    constructor
    · intro r
      constructor
      · exact fun hr => nomatch hr.2
      · exact fun hr => nomatch hr
    · exact ⟨fun _ => ⟨c, hc, hleft, fun r => List.not_mem_nil⟩, fun _ => ⟨rfl, rfl⟩⟩

/-- `watch` sees `client.Done()` first and still returns the redirect. -/
theorem disconnect_told_apart_done :
    ∃ log m, (ConnectionManager.lts .background [[1]] []).Reach Lts.Always log m ∧
      m.main = .watched 0 [98] true ∧ m.isDone = false ∧
      (∀ r, ([98] = r ∧ true = true) ↔ .client 0 (.redirected r) ∈ log) ∧
      (([98] = ([] : Bytes) ∧ true = false) ↔ ∃ c, m.clients[0]? = some c ∧
        c.reader.left = true ∧ ∀ r, .client 0 (.redirected r) ∉ log) := by
  obtain ⟨log, m, hreach, hpc, hopen⟩ :=
    Lts.reach_of_runWhere (M := ConnectionManager.lts .background [[1]] []) (G := Lts.Always) rfl
      (connectRun ++ shutdownFrameRun 0 ++ [ManagerAction.client 0 .readClose, .watchDone, .last])
      (Q := fun r => r.1.main = .watched 0 [98] true ∧ r.1.isDone = false) (by decide)
  exact ⟨log, m, hreach, hpc, hopen,
    disconnect_told_apart .background [[1]] [] log m hreach 0 [98] true hpc hopen⟩

/-! ## Forwarding -/

/-- An event of the client that `watch` has put on `c.events`. -/
def ManagerObs.forwarded? (client : ClientId) : ManagerObs → Option Event
  | .forwarded client' event => if client' = client then some event else none
  | _ => none

/-- The events of the client that `watch` has put on `c.events`. -/
def forwardedFrom (client : ClientId) (log : List ManagerObs) : List Event :=
  log.filterMap (ManagerObs.forwarded? client)

@[simp] theorem forwardedFrom_append (client : ClientId) (log log' : List ManagerObs) :
    forwardedFrom client (log ++ log') = forwardedFrom client log ++ forwardedFrom client log' :=
  List.filterMap_append

theorem forwardedFrom_eq_nil (h : ∀ event, .forwarded client event ∉ os) :
    forwardedFrom client os = [] := by
  refine List.filterMap_eq_nil_iff.mpr fun o ho => ?_
  cases o with
  | forwarded client' event =>
    by_cases heq : client' = client
    · exact absurd (heq ▸ ho) (h event)
    · exact if_neg heq
  | _ => rfl

theorem ClientsChange.forwarded_nil {clients clients' : List Client}
    {taken : Option (ClientId × ClientAction)} (h : ClientsChange clients taken clients' os)
    (client : ClientId) :
    forwardedFrom client os = [] := by
  refine forwardedFrom_eq_nil fun event ho => ?_
  cases h with
  | stay => cases ho
  | step =>
    obtain ⟨o, -, heq⟩ := List.mem_map.mp ho
    cases heq

/-- The event that `watch` has received and not put on `c.events` yet. -/
def MainPc.inHand (client : ClientId) : MainPc → List Event
  | .forward client' event => if client' = client then [event] else []
  | _ => []

/-- A step of `watch` that receives an event or forwards one, or another step. -/
theorem ManagerMove.forwards (h : ManagerMove m a out) (hopen : m.isDone = false) :
    (∃ client c event events, m.main = .watch client ∧ m.clients[client]? = some c ∧
      c.events.receive = .done (some event, events) ∧
      out = ⟨m.goto (.forward client event), some (client, .receive), []⟩) ∨
    (∃ client event, m.main = .forward client event ∧ out.manager.main = .watch client ∧
      out.client = none ∧ out.obs = [.forwarded client event]) ∨
    ((∀ client, out.manager.main.inHand client = m.main.inHand client) ∧
      (∀ client event, .forwarded client event ∉ out.obs) ∧
      ∀ client, out.client ≠ some (client, .receive)) := by
  cases h with
  | @client _ b hext =>
    refine .inr (.inr ⟨fun _ => rfl, by simp, fun client heq => ?_⟩)
    obtain ⟨-, rfl⟩ := Prod.mk.inj (Option.some.inj heq)
    cases hext
  | main hpc hm =>
    cases hm with
    | event hc hrecv => exact .inl ⟨_, _, _, _, hpc, hc, hrecv, rfl⟩
    | forward => exact .inr (.inl ⟨_, _, hpc, rfl, rfl, rfl⟩)
    | stopForward hdone => exact nomatch hopen.symm.trans hdone
    | redirected hwait | ended hwait =>
      refine .inr (.inr ⟨fun client => ?_, by simp, by simp⟩)
      rw [hpc]
      cases hwait <;> rfl
    | connectClose | closeClient => exact .inr (.inr ⟨fun _ => rfl, by simp, by simp⟩)
    | _ =>
      refine .inr (.inr ⟨fun client => ?_, by simp, by simp⟩)
      rw [hpc]
      rfl
  | close _ hm => cases hm <;> exact .inr (.inr ⟨fun _ => rfl, by simp, by simp⟩)
  | method _ hm => cases hm <;> exact .inr (.inr ⟨fun _ => rfl, by simp, by simp⟩)
  | _ => exact .inr (.inr ⟨fun _ => rfl, by simp, by simp⟩)

section Reach

variable {G : ConnectionManager → ManagerAction → Prop}

/-- Until `Close` is called, `watch` has forwarded what it has received, in order, up to the
    event in hand. -/
theorem forwarded_eq (h : (ConnectionManager.lts ctx endpoints clientID).Reach G log m)
    (client : ClientId) (hopen : m.isDone = false) :
    receivedEvents (clientLogOf client log) =
      forwardedFrom client log ++ m.main.inHand client := by
  refine h.invariant (P := fun log m => m.isDone = false →
    receivedEvents (clientLogOf client log) =
      forwardedFrom client log ++ m.main.inHand client) ?_ ?_ hopen
  · rintro _ rfl -
    unfold newConnectionManager
    dsimp only
    split <;> rfl
  intro log m a m' os ih _ hstep hopen
  cases manager_step_effect hstep with
  | @mk out clients cos hm hch =>
    have hopen' := hm.isDone hopen
    replace ih := ih hopen'
    rw [clientLogOf_append, clientLogOf_append, hm.clientLogOf_nil, List.append_nil,
      receivedEvents_append, ih, forwardedFrom_append, forwardedFrom_append, hch.forwarded_nil,
      List.nil_append]
    show _ = _ ++ out.manager.main.inHand client
    obtain ⟨client', c, event, events, hpc, hc, hrecv, rfl⟩ |
      ⟨client', event, hpc, hpc', hb, hobs⟩ | ⟨hhand, hnone, hb⟩ := hm.forwards hopen'
    · -- `watch` takes the event out of the client's buffer
      cases hch with
      | @step _ _ c₁ c' os hc₁ hcstep =>
        obtain rfl := Option.some.inj (hc.symm.trans hc₁)
        have heff := client_step_effect hcstep
        cases heff with
        | receive hrecv' =>
          obtain ⟨⟨rfl⟩, -⟩ := Prod.mk.inj (Attempt.done.inj (hrecv.symm.trans hrecv'))
          by_cases hclient : client = client'
          · subst hclient
            rw [clientLogOf_map_self, hpc]
            simp [MainPc.inHand, forwardedFrom, receivedEvents, ConnectionManager.goto]
          · rw [clientLogOf_map_of_ne hclient, hpc]
            simp [MainPc.inHand, forwardedFrom, receivedEvents, ConnectionManager.goto,
              Ne.symm hclient]
    · -- the event in hand is put on `c.events`
      rw [hb] at hch
      cases hch
      rw [hpc, hpc', hobs]
      by_cases hclient : client' = client <;>
        simp [MainPc.inHand, forwardedFrom, ManagerObs.forwarded?, receivedEvents, clientLogOf,
          hclient]
    · -- any other step receives nothing and forwards nothing
      have hreceived : receivedEvents (clientLogOf client cos) = [] := by
        generalize out.client = taken at hb hch
        cases hch with
        | stay => rfl
        | @step client' b c c' os hc hcstep =>
          by_cases hclient : client = client'
          · subst hclient
            rw [clientLogOf_map_self]
            exact (client_step_effect hcstep).received_nil fun heq => hb client (heq ▸ rfl)
          · rw [clientLogOf_map_of_ne hclient]
            rfl
      rw [hreceived, hhand, forwardedFrom_eq_nil (hnone client), List.append_nil, List.append_nil]

end Reach

/-- When `watch` receives a redirect, it has received the events before it. -/
def ConnectionManager.drainedFirst (m : ConnectionManager) (a : ManagerAction) : Bool :=
  match a, m.main with
  | .watchShutdown, .watch client | .last, .last client =>
    match m.clients[client]? with
    | some c => c.shutdowns.buf = [] ∨ c.events.buf = []
    | none => true
  | _, _ => true

/-- The guard of runs in which `watch` receives all events before it receives a redirect. -/
def DrainedFirst (m : ConnectionManager) (a : ManagerAction) : Prop := m.drainedFirst a = true

instance (m : ConnectionManager) (a : ManagerAction) : Decidable (DrainedFirst m a) :=
  inferInstanceAs (Decidable (_ = true))

theorem DrainedFirst.events_nil (h : DrainedFirst m a) (hwait : AwaitsRedirect client a m.main)
    (hc : m.clients[client]? = some c) (hne : c.shutdowns.buf ≠ []) : c.events.buf = [] := by
  unfold DrainedFirst ConnectionManager.drainedFirst at h
  generalize m.main = pc at h hwait
  cases hwait with
  | watch | last =>
    simp only [hc, decide_eq_true_eq] at h
    exact h.resolve_left hne

/-- In such a run the buffer of the client is empty when `watch` has returned a redirect. -/
theorem drained_inv (h : (ConnectionManager.lts ctx endpoints clientID).Reach DrainedFirst log m)
    (hpc : m.main = .watched client redirect true) (hc : m.clients[client]? = some c)
    (hopen : m.isDone = false) : c.events.buf = [] := by
  refine h.induct_reach (P := fun _ m => ∀ c, m.main = .watched client redirect true →
    m.clients[client]? = some c → m.isDone = false → c.events.buf = []) ?_ ?_ c hpc hc hopen
  · rintro _ rfl c - hc
    cases hc
  intro log m a m' os hr ih hg hstep c' hpc hc' hopen
  cases manager_step_effect hstep with
  | @mk out clients cos hm hch =>
    obtain ⟨c, hc, hcase⟩ := hch.cases_client hc'
    -- `readLoop` has left its loop and put nothing more on the channel
    have hbefore : c.events.buf = [] ∧ c.reader.left = true := by
      obtain ⟨hmain, hsame⟩ | ⟨hun, hsame, c₁, hc₁, hres⟩ := hm.watched hpc hopen
      · rw [hsame] at hc
        have hopen' := hm.isDone hopen
        refine ⟨ih c hmain hc hopen', ?_⟩
        obtain ⟨-, hred⟩ | ⟨hfalse, -⟩ :=
          (watch_inv hr).result client redirect true c hmain hc hopen'
        · exact (redirect_inv (ConnectionManager.reach_client hr hc)).left (by simp [hred])
        · cases hfalse
      · rw [hsame] at hc
        obtain rfl := Option.some.inj (hc₁.symm.trans hc)
        obtain ⟨-, hwait, shutdowns, hrecv⟩ | ⟨hfalse, -⟩ := hres
        · have hne : c₁.shutdowns.buf ≠ [] := by
            rw [(Chan.receive_some hrecv).1]
            exact List.cons_ne_nil _ _
          refine ⟨hg.events_nil hwait hc hne, ?_⟩
          rw [(watch_inv hr).unread client c₁ hc hun] at hne
          exact (redirect_inv (ConnectionManager.reach_client hr hc)).left hne
        · cases hfalse
    obtain ⟨rfl, -, -⟩ | ⟨b, -, hcstep⟩ := hcase
    · exact hbefore.1
    · have heff := client_step_effect hcstep
      have hfifo := heff.events_fifo
      rw [hbefore.1, (heff.left_quiet hbefore.2).2.1] at hfifo
      exact (List.append_eq_nil_iff.mp hfifo.symm).2

/-- If `watch` receives the events in the client's buffer before it receives a redirect, it has
    forwarded all events of the client, in order, when it returns the redirect. -/
theorem handoff_forwards_all (ctx : Ctx) (endpoints : List Bytes) (clientID : Bytes)
    (log : List ManagerObs) (m : ConnectionManager)
    (h : (ConnectionManager.lts ctx endpoints clientID).Reach DrainedFirst log m)
    (client : ClientId) (redirect : Bytes) (hpc : m.main = .watched client redirect true)
    (hopen : m.isDone = false) :
    forwardedFrom client log = exposedEvents (clientLogOf client log) := by
  obtain ⟨c, hc⟩ := ConnectionManager.watched_client h hpc
  have hforwarded := forwarded_eq h client hopen
  rw [hpc] at hforwarded
  rw [exposed_eq (ConnectionManager.reach_client h hc), drained_inv h hpc hc hopen,
    List.append_nil, hforwarded]
  exact (List.append_nil _).symm

/-- `watch` forwards the event and then receives the redirect. -/
theorem handoff_forwards_all_one :
    ∃ log m, (ConnectionManager.lts .background [[1]] []).Reach DrainedFirst log m ∧
      m.main = .watched 0 [98] true ∧ m.isDone = false ∧
      exposedEvents (clientLogOf 0 log) = [⟨[1], [], [116], [], []⟩] ∧
      forwardedFrom 0 log = exposedEvents (clientLogOf 0 log) := by
  obtain ⟨log, m, hreach, hpc, hopen, hput⟩ :=
    Lts.reach_of_runWhere (M := ConnectionManager.lts .background [[1]] []) (G := DrainedFirst) rfl
      (connectRun ++ eventFrameRun 0 ++ shutdownFrameRun 0 ++
        [ManagerAction.watchEvent, .forward, .watchShutdown])
      (Q := fun r => r.1.main = .watched 0 [98] true ∧ r.1.isDone = false ∧
        exposedEvents (clientLogOf 0 r.2) = [⟨[1], [], [116], [], []⟩]) (by decide)
  exact ⟨log, m, hreach, hpc, hopen, hput,
    handoff_forwards_all .background [[1]] [] log m hreach 0 [98] hpc hopen⟩

/-- An event and a redirect are both there to be received, and `watch` receives the redirect: the
    event has not been forwarded when it returns. -/
theorem handoff_drops_event :
    ∃ log m, (ConnectionManager.lts .background [[1]] []).Reach Lts.Always log m ∧
      m.main = .watched 0 [98] true ∧ m.isDone = false ∧
      (List.Precedes log (.client 0 (.put ⟨[1], [], [116], [], []⟩))
        (.client 0 (.read ⟨typeShutdown, [0, 1, 98]⟩))) ∧
      forwardedFrom 0 log = [] := by
  obtain ⟨⟨m, log⟩, hrun, hpc, hopen, hlog, hnone⟩ :
      ∃ r ∈ (ConnectionManager.lts .background [[1]] []).runWhere Lts.Always
          (newConnectionManager .background [[1]] [])
          (connectRun ++ eventFrameRun 0 ++ shutdownFrameRun 0 ++ [ManagerAction.watchShutdown]),
        r.1.main = .watched 0 [98] true ∧ r.1.isDone = false ∧
        (.client 0 (.put ⟨[1], [], [116], [], []⟩) ∈ r.2.take 6 ∧
          .client 0 (.read ⟨typeShutdown, [0, 1, 98]⟩) ∈ r.2.drop 6) ∧
        forwardedFrom 0 r.2 = [] := by decide
  refine ⟨log, m, ⟨_, rfl, Lts.steps_of_runWhere _ _ _ _ hrun⟩, hpc, hopen, ?_, hnone⟩
  exact ⟨log.take 6, log.drop 6, (List.take_append_drop 6 log).symm, hlog.1, hlog.2⟩

end EventBus
