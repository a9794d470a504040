import EventBus.Spec.ManagerStep

/-!
# The clients of a connection manager

Every client that `Dial` has returned is closed before the next one is dialed. Until then it is
`c.current`, or in the hands of `run` or of `Close`, one of which closes it.

## Key results

- `clients_inv`: who closes a client that is not closed yet
- `no_client_leaked`: one open client at most, and none in the end
-/

namespace EventBus

variable {c : Client} {m : ConnectionManager} {client : ClientId} {pc : MainPc}

/-- The client that `connect` or `run` has in hand. -/
def MainPc.client? : MainPc → Option ClientId
  | .connect _ (.install client _) | .connect _ (.subscribe client _ _)
  | .connect _ (.subscribeWait client _ _ _ _) | .connect _ (.close client _)
  | .connect _ (.clear client _) => some client
  | .watch client | .forward client _ | .last client | .watched client _ _ | .notify client _
  | .release client | .close client => some client
  | _ => none

/-- `connect` or `run` closes the client in any case: `c.current` need not tell of it. -/
def MainPc.holds (client : ClientId) : MainPc → Prop
  | .connect _ (.install client' _) | .connect _ (.close client' _) | .close client' =>
    client' = client
  | _ => False

/-- `c.current` may be the client. -/
def MainPc.serves (client : ClientId) : MainPc → Prop
  | .connect _ (.subscribe client' _ _) | .connect _ (.subscribeWait client' _ _ _ _)
  | .connect _ (.close client' _) | .connect _ (.clear client' _) => client' = client
  | .watch client' | .forward client' _ | .last client' | .watched client' _ _
  | .notify client' _ | .release client' => client' = client
  | .loop => True
  | _ => False

/-- There is no client in hand, and there may be a new one next. -/
def MainPc.between : MainPc → Bool
  | .connect _ .start | .connect _ (.dial _) | .connect _ (.clear _ _) => true
  | .timer _ | .failed _ => true
  | _ => false

/-- All clients are closed. -/
def AllClosed (clients : List Client) : Prop :=
  ∀ (client : ClientId) (c : Client), clients[client]? = some c → c.closing = .closed

/-- Who closes a client that is not closed yet. -/
structure ConnectionManager.ClientsInv (m : ConnectionManager) : Prop where
  older : ∀ (client : ClientId) (c : Client), m.clients[client]? = some c →
    m.clients.length ≠ client + 1 → c.closing = .closed
  tracked : ∀ (client : ClientId) (c : Client), m.clients[client]? = some c →
    c.closing = .closed ∨ m.closing = .client client ∨ m.current = some client ∨ m.main.holds client
  current : ∀ client, m.current = some client →
    m.main.serves client ∧ m.clients.length = client + 1
  last : ∀ client, m.main.client? = some client → m.clients.length = client + 1
  between : m.main.between = true → AllClosed m.clients

/-- A closed client stays closed. -/
theorem ClientEffect.closed_stable {c' : Client} {a : ClientAction} {os : List ClientObs}
    (h : ClientEffect c a c' os) (hclosed : c.closing = .closed) : c'.closing = .closed := by
  cases h with
  | @call _ _ _ out _ hm | @readAcknowledge _ _ out _ hm =>
    obtain ⟨_, _, _, _, heq⟩ := hm.client_eq
    show out.client.closing = _
    rw [heq]
    exact hclosed
  | readClose _ hfresh | close _ hfresh => exact nomatch hclosed.symm.trans hfresh
  | closeConn => rfl
  | _ => exact hclosed

theorem ConnectionManager.isClosed_iff :
    m.isClosed client = true ↔ ∃ c, m.clients[client]? = some c ∧ c.closing = .closed := by
  simp [ConnectionManager.isClosed, Option.any_eq_true]

theorem ConnectionManager.closed_of_isClosed (hclosed : m.isClosed client = true)
    (hc : m.clients[client]? = some c) :
    c.closing = .closed := by
  obtain ⟨c₁, hc₁, hclosed⟩ := ConnectionManager.isClosed_iff.mp hclosed
  exact Option.some.inj (hc₁.symm.trans hc) ▸ hclosed

section Step

variable {m' : ConnectionManager} {a : ManagerAction} {out : ManagerOut} {os : List ManagerObs}

/-- A step of a client. -/
theorem ConnectionManager.ClientsInv.change (h : m.ClientsInv) {clients : List Client}
    {taken : Option (ClientId × ClientAction)} (hch : ClientsChange m.clients taken clients os) :
    { m with clients := clients }.ClientsInv := by
  -- a client was there before, and if it was closed it still is
  have hback : ∀ {client : ClientId} {c' : Client}, clients[client]? = some c' →
      ∃ c, m.clients[client]? = some c ∧ (c.closing = .closed → c'.closing = .closed) := by
    intro client c' hc'
    obtain ⟨c, hc, ⟨rfl, -, -⟩ | ⟨b, -, hstep⟩⟩ := hch.cases_client hc'
    · exact ⟨c', hc, id⟩
    · exact ⟨c, hc, (client_step_effect hstep).closed_stable⟩
  have hlen := hch.length_eq
  constructor
  · intro client c' hc' hne
    obtain ⟨c, hc, hstable⟩ := hback hc'
    exact hstable (h.older client c hc (hlen ▸ hne))
  · intro client c' hc'
    obtain ⟨c, hc, hstable⟩ := hback hc'
    exact (h.tracked client c hc).imp_left hstable
  · intro client hcur
    obtain ⟨hserves, hlast⟩ := h.current client hcur
    exact ⟨hserves, hlen ▸ hlast⟩
  · intro client hpc
    exact hlen ▸ h.last client hpc
  · intro hpc client c' hc'
    obtain ⟨c, hc, hstable⟩ := hback hc'
    exact hstable (h.between hpc client c hc)

/-- Who closes a client, where `connect` or `run` stands. -/
theorem ConnectionManager.ClientsInv.tracked_at (h : m.ClientsInv) (hpc : m.main = pc)
    (hc : m.clients[client]? = some c) :
    c.closing = .closed ∨ m.closing = .client client ∨ m.current = some client ∨
      pc.holds client := by
  subst hpc
  exact h.tracked client c hc

/-- Where `connect` or `run` stands, `c.current` may be the client that it is. -/
theorem ConnectionManager.ClientsInv.serves_at (h : m.ClientsInv) (hpc : m.main = pc)
    (hcur : m.current = some client) :
    pc.serves client := by
  subst hpc
  exact (h.current client hcur).1

/-- A step of `connect` or `run` that neither dials nor changes `c.current`. -/
theorem ConnectionManager.ClientsInv.goto (h : m.ClientsInv) (hpc : m.main = pc)
    (hclients : m'.clients = m.clients) (hclosing : m'.closing = m.closing)
    (hcurrent : m'.current = m.current)
    (hholds : ∀ client, pc.holds client → m'.main.holds client ∨ m.isClosed client = true)
    (hserves : ∀ client, m.current = some client → pc.serves client → m'.main.serves client)
    (hlast : ∀ client, m'.main.client? = some client → m.clients.length = client + 1)
    (hbetween : m'.main.between = true → AllClosed m.clients) : m'.ClientsInv := by
  constructor
  · rw [hclients]
    exact h.older
  · rw [hclients, hclosing, hcurrent]
    intro client c hc
    obtain hclosed | htaken | hcur | hheld := h.tracked_at hpc hc
    · exact .inl hclosed
    · exact .inr (.inl htaken)
    · exact .inr (.inr (.inl hcur))
    · obtain hheld | hclosed := hholds client hheld
      · exact .inr (.inr (.inr hheld))
      · exact .inl (ConnectionManager.closed_of_isClosed hclosed hc)
  · rw [hclients, hcurrent]
    intro client hcur
    exact ⟨hserves client hcur (h.serves_at hpc hcur), (h.current client hcur).2⟩
  · rw [hclients]
    exact hlast
  · rw [hclients]
    exact hbetween

/-- A step between two places that deal with the same client. -/
theorem ConnectionManager.ClientsInv.along (h : m.ClientsInv) (hpc : m.main = pc)
    (hclients : m'.clients = m.clients) (hclosing : m'.closing = m.closing)
    (hcurrent : m'.current = m.current)
    (hholds : ∀ client, pc.holds client → m'.main.holds client)
    (hserves : ∀ client, pc.serves client → m'.main.serves client)
    (hlast : ∀ client, m'.main.client? = some client → pc.client? = some client)
    (hbetween : m'.main.between = true → pc.between = true) : m'.ClientsInv := by
  subst hpc
  exact h.goto rfl hclients hclosing hcurrent (fun client hheld => .inl (hholds client hheld))
    (fun client _ => hserves client) (fun client hpc => h.last client (hlast client hpc))
    fun hpc => h.between (hbetween hpc)

/-- A step of `Close` that leaves `c.current` alone. -/
theorem ConnectionManager.ClientsInv.closingStep (h : m.ClientsInv)
    (hclients : m'.clients = m.clients) (hcurrent : m'.current = m.current)
    (hmain : m'.main = m.main)
    (htaken : ∀ client, m.closing = .client client → m.isClosed client = true) :
    m'.ClientsInv := by
  constructor
  · rw [hclients]
    exact h.older
  · rw [hclients, hcurrent, hmain]
    intro client c hc
    obtain hclosed | hclosing | hrest := h.tracked client c hc
    · exact .inl hclosed
    · exact .inl (ConnectionManager.closed_of_isClosed (htaken client hclosing) hc)
    · exact .inr (.inr hrest)
  · rw [hclients, hcurrent, hmain]
    exact h.current
  · rw [hclients, hmain]
    exact h.last
  · rw [hclients, hmain]
    exact h.between

/-- If the last client is closed, all are. -/
theorem ConnectionManager.ClientsInv.all_closed (h : m.ClientsInv)
    (hlast : m.clients.length = client + 1) (hclosed : m.isClosed client = true) :
    AllClosed m.clients := by
  intro client' c' hc'
  by_cases heq : m.clients.length = client' + 1
  · have hsame : client' = client := Nat.succ.inj (heq.symm.trans hlast)
    exact ConnectionManager.closed_of_isClosed (hsame ▸ hclosed) hc'
  · exact h.older client' c' hc' heq

theorem ConnectionManager.ClientsInv.main (h : m.ClientsInv) (hpc : m.main = pc)
    (hm : MainMove m a pc out) : out.manager.ClientsInv := by
  cases hm with
  | dial =>
    have hall : AllClosed m.clients := h.between (hpc ▸ rfl)
    constructor
    · intro client c hc hne
      obtain hold | ⟨rfl, -⟩ := List.getElem?_concat_cases hc
      · exact hall client c hold
      · exact absurd (by simp) hne
    · intro client c hc
      obtain hold | ⟨rfl, -⟩ := List.getElem?_concat_cases hc
      · exact .inl (hall client c hold)
      · exact .inr (.inr (.inr rfl))
    · -- there is no current client where `connect` dials
      exact fun client hcur => (h.serves_at hpc hcur).elim
    · rintro client ⟨⟩
      simp
    · exact nofun
  | @install starting client =>
    have hlast := h.last client (hpc ▸ rfl)
    refine ⟨h.older, fun client' c hc => ?_, ?_, fun client' heq => ?_, nofun⟩
    · obtain hclosed | htaken | hcur | hheld := h.tracked_at hpc hc
      · exact .inl hclosed
      · exact .inr (.inl htaken)
      · exact (h.serves_at hpc hcur).elim
      · exact .inr (.inr (.inl (congrArg some hheld)))
    · rintro client' ⟨⟩
      exact ⟨rfl, hlast⟩
    · exact Option.some.inj heq ▸ hlast
  | @clear _ client =>
    have hall : AllClosed m.clients := h.between (hpc ▸ rfl)
    exact ⟨h.older, fun client c hc => .inl (hall client c hc), nofun, nofun, fun _ => hall⟩
  | @release client =>
    have hlast := h.last client (hpc ▸ rfl)
    -- `c.current` is this client, unless `Close` has taken it
    have hnone : (if m.current = some client then none else m.current) = none := by
      split
      · rfl
      · rename_i hne
        cases hcur : m.current with
        | none => rfl
        | some client' =>
          have hsame : client = client' := h.serves_at hpc hcur
          exact absurd (hcur.trans (congrArg some hsame.symm)) hne
    refine ⟨h.older, fun client' c hc => ?_, fun client' hcur => ?_, fun client' heq => ?_, nofun⟩
    · obtain hclosed | htaken | hcur | hheld := h.tracked_at hpc hc
      · exact .inl hclosed
      · exact .inr (.inl htaken)
      · exact .inr (.inr (.inr (h.serves_at hpc hcur)))
      · exact hheld.elim
    · exact nomatch hnone.symm.trans hcur
    · exact Option.some.inj heq ▸ hlast
  | @connectClosed _ client _ hclosed =>
    have hlast := h.last client (hpc ▸ rfl)
    refine h.goto hpc rfl rfl rfl (fun client' hheld => .inr ?_) (fun _ _ => id) ?_
      fun _ => h.all_closed hlast hclosed
    · exact hheld ▸ hclosed
    · rintro client' ⟨⟩
      exact hlast
  | @clientClosed client hclosed =>
    refine h.goto hpc rfl rfl rfl (fun client' hheld => .inr ?_) (fun _ _ => False.elim)
      nofun nofun
    exact hheld ▸ hclosed
  | loopNone hnone =>
    refine h.goto hpc rfl rfl rfl (fun _ => False.elim) (fun client hcur => ?_) nofun nofun
    exact nomatch hnone.symm.trans hcur
  | @loopSome client hcur =>
    refine h.goto hpc rfl rfl rfl (fun _ => False.elim) (fun client' hcur' _ => ?_) ?_ nofun
    · exact Option.some.inj (hcur.symm.trans hcur')
    · rintro client' ⟨⟩
      exact (h.current client hcur).2
  | check hopen =>
    refine h.goto hpc rfl rfl rfl (fun _ => False.elim) (fun _ _ => False.elim) nofun
      fun _ client c hc => ?_
    -- with `c.done` open, `Close` has taken no client
    obtain hclosed | htaken | hcur | hheld := h.tracked_at hpc hc
    · exact hclosed
    · rw [ConnectionManager.isDone, htaken] at hopen
      cases hopen
    · exact (h.serves_at hpc hcur).elim
    · exact hheld.elim
  | connectClose | closeClient => exact h
  | subscribeFailed =>
    exact h.along hpc rfl rfl rfl (fun _ => False.elim) (fun _ => id) (fun _ => id) nofun
  | redirected hwait | ended hwait =>
    cases hwait with
    | watch | last =>
      exact h.along hpc rfl rfl rfl (fun _ => False.elim) (fun _ => id) (fun _ => id) nofun
  | complete =>
    exact h.along hpc rfl rfl rfl (fun _ => False.elim) (fun _ _ => trivial) nofun nofun
  | retryCheck | timerDone | checkDone | closeShutdowns | closeEvents =>
    exact h.along hpc rfl rfl rfl (fun _ => False.elim) (fun _ => False.elim) nofun nofun
  | _ => exact h.along hpc rfl rfl rfl (fun _ => id) (fun _ => id) (fun _ => id) id

theorem ConnectionManager.ClientsInv.closeBody (h : m.ClientsInv) {closing : ManagerClosing}
    (hpc : m.closing = closing) (hm : CloseBodyMove m a closing out) :
    out.manager.ClientsInv := by
  cases hm with
  | close | takeNone =>
    exact h.closingStep rfl rfl rfl fun client htaken => nomatch hpc.symm.trans htaken
  | @take client hcur =>
    -- `Close` has the client in hand that was the current one
    refine ⟨h.older, fun client' c hc => ?_, nofun, h.last, h.between⟩
    obtain hclosed | htaken | hcur' | hheld := h.tracked client' c hc
    · exact .inl hclosed
    · exact nomatch hpc.symm.trans htaken
    · exact .inr (.inl (congrArg _ (Option.some.inj (hcur.symm.trans hcur'))))
    · exact .inr (.inr (.inr hheld))
  | client => exact h
  | @returned client hclosed =>
    refine h.closingStep rfl rfl rfl fun client' htaken => ?_
    obtain rfl := ManagerClosing.client.inj (hpc.symm.trans htaken)
    exact hclosed

theorem ConnectionManager.ClientsInv.move (h : m.ClientsInv) (hm : ManagerMove m a out) :
    out.manager.ClientsInv := by
  cases hm with
  | main hpc hm => exact h.main hpc hm
  | close hpc hm => exact h.closeBody hpc hm
  | client => exact h
  | _ => exact ⟨h.older, h.tracked, h.current, h.last, h.between⟩

end Step

theorem clients_inv {ctx : Ctx} {endpoints : List Bytes} {clientID : Bytes}
    {G : ConnectionManager → ManagerAction → Prop} {log : List ManagerObs}
    (h : (ConnectionManager.lts ctx endpoints clientID).Reach G log m) :
    m.ClientsInv := by
  refine h.invariant (P := fun _ m => m.ClientsInv) ?_ ?_
  · rintro _ rfl
    constructor
    · exact fun client c hc => nomatch hc
    · exact fun client c hc => nomatch hc
    · exact fun client hcur => nomatch hcur
    · intro client hpc
      unfold newConnectionManager at hpc
      dsimp only at hpc
      split at hpc <;> exact nomatch hpc
    · exact fun _ client c hc => nomatch hc
  · intro log m a m' os ih _ hstep
    cases manager_step_effect hstep with
    | mk hm hch => exact (ih.move hm).change hch

/-- In every reachable state at most one client of the manager is not closed, and once `run` and
    `Close` have returned all are closed and there is no current one. -/
theorem no_client_leaked (ctx : Ctx) (endpoints : List Bytes) (clientID : Bytes)
    (log : List ManagerObs) (m : ConnectionManager)
    (h : (ConnectionManager.lts ctx endpoints clientID).Reach Lts.Always log m) :
    (∀ (i j : ClientId) (c d : Client), m.clients[i]? = some c → m.clients[j]? = some d →
      c.closing ≠ .closed → d.closing ≠ .closed → i = j) ∧
    (m.main = .finished → m.closing = .closed →
      (∀ c ∈ m.clients, c.closing = .closed) ∧ m.current = none) := by
  have hinv := clients_inv h
  constructor
  · intro i j c d hi hj hc hd
    -- both are the last one
    have hlast : ∀ {i : Nat} {c : Client}, m.clients[i]? = some c → c.closing ≠ .closed →
        m.clients.length = i + 1 := by
      intro i c hi hc
      by_contra hne
      exact hc (hinv.older i c hi hne)
    exact Nat.succ.inj ((hlast hi hc).symm.trans (hlast hj hd))
  · intro hmain hclosing
    have hnone : ∀ client, m.current ≠ some client := fun client => hinv.serves_at hmain
    refine ⟨fun c hmem => ?_, Option.eq_none_iff_forall_ne_some.mpr hnone⟩
    obtain ⟨i, hi⟩ := List.mem_iff_getElem?.mp hmem
    obtain hclosed | htaken | hcur | hheld := hinv.tracked_at hmain hi
    · exact hclosed
    · exact nomatch hclosing.symm.trans htaken
    · exact absurd hcur (hnone i)
    · exact hheld.elim

/-- `Close` runs while `connect` is about to dial: the client that it then installs is closed
    by `run`. -/
theorem no_client_leaked_late :
    ∃ log m, (ConnectionManager.lts .background [[1]] []).Reach Lts.Always log m ∧
      m.main = .finished ∧ m.closing = .closed ∧ m.clients.length = 2 ∧
      (∀ c ∈ m.clients, c.closing = .closed) ∧ m.current = none := by
  obtain ⟨log, m, hreach, hmain, hclosing, hlen⟩ :=
    Lts.reach_of_runWhere (M := ConnectionManager.lts .background [[1]] []) (G := Lts.Always) rfl
      (connectRun ++ breakRun 0 ++
        [ManagerAction.watchShutdown, .handOff, .release, .clientClosed, .check, .close,
          .closeCurrent] ++ connectRun ++
        [ManagerAction.watchStop, .handOff, .release, .closeClient, .client 1 .closeConn,
          .clientClosed, .check, .closeShutdowns, .closeEvents])
      (Q := fun r => r.1.main = .finished ∧ r.1.closing = .closed ∧ r.1.clients.length = 2)
      (by decide)
  exact ⟨log, m, hreach, hmain, hclosing, hlen,
    (no_client_leaked .background [[1]] [] log m hreach).2 hmain hclosing⟩

end EventBus
