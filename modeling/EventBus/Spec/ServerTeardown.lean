import EventBus.Spec.ServerShutdown

/-!
# What a closed connection leaves behind

A subscription of a connection that is registered can be found: in the hands of `serve`, in
`c.subs`, or among those that a call of `close` has still to close (`tracked_inv`). `close`
empties `c.subs`, and what `subscribe` stores after that nobody closes (`subscription_leaked`).
Where nothing is stored in a closed connection, its teardown is complete
(`teardown_complete`).

## Key results

- `close_inv`: `Close` and `GracefulShutdown` exclude each other, and close a connection once
- `tracked_inv`: where a registered subscription of a connection is
- `teardown_complete`, `subscription_leaked`: what is registered after `close`
-/

namespace EventBus

variable {c c' : Connection} {act : ConnAction} {out : Out} {closer : Closer} {k : ConnId}
  {config : Config} {G : Server → ServerAction → Prop} {log : List ServerObs} {s : Server}
  {pc pc' : ServePc} {bus b : Option Action} {obs : List ConnObs} {w w' : Bus} {sub : SubPtr}
  {a : ServerAction} {topic : Bytes}

/-! ## Who closes a connection -/

/-- The connections that `Close` of the server has still to close. -/
def Ctl.toClose : Ctl → List ConnId
  | .close todo | .closeWait _ todo => todo
  | _ => []

/-- `Close` closes a connection once, and not in a server that drains. -/
structure Server.CloseInv (s : Server) : Prop where
  nodup : s.ctl.toClose.Nodup
  idle : ∀ k ∈ s.ctl.toClose, ∀ c, s.connections k = some c → c.closing .server = .idle
  closes : s.ctl.toClose ≠ [] → s.draining = false
  drains : s.ctl.pending ≠ [] → s.draining = true
  unclosed : s.closed = false → s.draining = false ∧ s.ctl.toClose = [] ∧ s.ctl.pending = []
  fresh : s.closed = false → ∀ k c, s.connections k = some c → c.closing .server = .idle
  server : ∀ k c, s.connections k = some c → c.closing .server ≠ .idle → s.draining = false
  graceful : ∀ k c, s.connections k = some c → c.graceful ≠ .idle → s.draining = true

section Close

variable {s' : Server} {os : List ServerObs}

/-- Only `abort` and `gracefulClose` start a call of `close` on their own connection. -/
theorem ConnMove.closing_idle (h : ConnMove s c act out) (hidle : c.closing closer = .idle) :
    out.conn.closing closer = .idle ∨
      (closer = .serve ∧ c.serve = .abort ∧ out.conn.serve = .closing) ∨
      (closer = .graceful ∧ out.conn.graceful = .closing) := by
  -- a call of `close` that moves has been started
  have hset : ∀ {closer' pc}, c.closing closer' ≠ .idle →
      (c.setClosing closer' pc).closing closer = .idle := by
    intro closer' pc hne
    have hcl : closer ≠ closer' := by
      rintro rfl
      exact hne hidle
    rw [Connection.setClosing_of_ne hcl, hidle]
  cases h with
  | close hpc hm =>
    refine .inl (hset ?_)
    rw [hpc]
    cases hm <;> simp
  | closeStart hpc | closeNet hpc => exact .inl (hset (by rw [hpc]; simp))
  | abort hpc =>
    by_cases hcl : closer = .serve
    · exact .inr (.inl ⟨hcl, hpc, rfl⟩)
    · exact .inl ((Connection.setClosing_of_ne hcl).trans hidle)
  | drainFailed =>
    by_cases hcl : closer = .graceful
    · exact .inr (.inr ⟨hcl, rfl⟩)
    · exact .inl ((Connection.setClosing_of_ne hcl).trans hidle)
  | _ => exact .inl hidle

/-- Only `Close` of the server starts its call of `close`, on the next connection of its list. -/
theorem ServerEffect.server_idle (h : ServerEffect s a s' os) (hc' : s'.connections k = some c')
    (hidle : ∀ c, s.connections k = some c → c.closing .server = .idle) :
    c'.closing .server = .idle ∨ ∃ todo, s.ctl = .close (k :: todo) ∧ a = .closeConn := by
  rcases h.conn_cases hc' with ⟨-, rfl, -⟩ | ⟨c, _, hc, -, hch⟩
  · exact .inl rfl
  have hbefore := hidle c hc
  cases hch with
  | move hm =>
    rcases hm.closing_idle hbefore with hsame | ⟨heq, -⟩ | ⟨heq, -⟩
    · exact .inl hsame
    · cases heq
    · cases heq
  | close hctl => exact .inr ⟨_, hctl, rfl⟩
  | _ => exact .inl hbefore

/-- A step of a server that stays open or closed, and draining or not. -/
theorem Server.CloseInv.next (h : s.CloseInv) (heff : ServerEffect s a s' os)
    (hctl : s'.ctl.toClose.Sublist s.ctl.toClose)
    (hpending : s'.ctl.pending.Sublist s.ctl.pending)
    (hrest : ∀ k todo, s.ctl = .close (k :: todo) → a = .closeConn → s'.ctl.toClose = todo)
    (hclosed : s'.closed = s.closed) (hdraining : s'.draining = s.draining) : s'.CloseInv where
  nodup := h.nodup.sublist hctl
  idle k hk c' hc' := by
    rcases heff.server_idle hc' (h.idle k (hctl.subset hk)) with hidle | ⟨todo, hclose, ha⟩
    · exact hidle
    · -- the connection that is closed next is not met again
      have hnodup := h.nodup
      rw [hrest k todo hclose ha] at hk
      rw [hclose] at hnodup
      exact absurd hk (List.nodup_cons.mp hnodup).1
  closes hne := by
    rw [hdraining]
    refine h.closes fun hnil => hne ?_
    rw [hnil] at hctl
    exact List.sublist_nil.mp hctl
  drains hne := by
    rw [hdraining]
    refine h.drains fun hnil => hne ?_
    rw [hnil] at hpending
    exact List.sublist_nil.mp hpending
  unclosed hopen := by
    obtain ⟨hd, hnil, hnil'⟩ := h.unclosed (hclosed ▸ hopen)
    rw [hnil] at hctl
    rw [hnil'] at hpending
    exact ⟨hdraining.trans hd, List.sublist_nil.mp hctl, List.sublist_nil.mp hpending⟩
  fresh hopen k c' hc' := by
    rw [hclosed] at hopen
    rcases heff.server_idle hc' (h.fresh hopen k) with hidle | ⟨todo, hclose, -⟩
    · exact hidle
    · have hnil := (h.unclosed hopen).2.1
      rw [hclose] at hnil
      cases hnil
  server k c' hc' hne := by
    rw [hdraining]
    by_contra hd
    -- only `Close`, which does not drain, starts this closer
    have hidle : ∀ c, s.connections k = some c → c.closing .server = .idle :=
      fun c hc => by_contra fun hne => hd (h.server k c hc hne)
    rcases heff.server_idle hc' hidle with hidle' | ⟨todo, hclose, -⟩
    · exact hne hidle'
    · exact hd (h.closes (by rw [hclose]; simp [Ctl.toClose]))
  graceful k c' hc' hne := by
    rw [hdraining]
    by_contra hd
    -- only `GracefulShutdown` starts `gracefulClose`
    have hidle : ∀ c, s.connections k = some c → c.graceful = .idle :=
      fun c hc => by_contra fun hne => hd (h.graceful k c hc hne)
    rcases heff.graceful_idle hc' hidle with hidle' | ⟨conns, todo, hdrain, -⟩
    · exact hne hidle'
    · exact hd (h.drains (by rw [hdrain]; simp [Ctl.pending]))

end Close

/-- `Close` closes a connection once, and not in a server that drains, in every run. -/
theorem close_inv (h : (Server.lts config).Reach G log s) : s.CloseInv := by
  refine h.induct_reach (P := fun _ s => s.CloseInv) ?_ ?_
  · rintro _ rfl
    constructor
    · exact .nil
    · simp [newServer, Ctl.toClose]
    · simp [newServer, Ctl.toClose]
    · simp [newServer, Ctl.pending]
    · simp [newServer, Ctl.toClose, Ctl.pending]
    · simp [newServer]
    · simp [newServer]
    · simp [newServer]
  intro log s a s' os hr ih _ hstep
  have heff := server_step_effect hstep
  have hnext := ih.next heff
  cases heff with
  | bus | accept | peerSend | conn | connBus | removeConnection =>
    exact hnext (.refl _) (.refl _) (by simp) rfl rfl
  | beginShutdown hctl | beginReturn hctl | drainReturn hctl | closeConnReturn hctl
  | closeReturn hctl =>
    refine hnext ?_ ?_ (by simp) rfl rfl
    · rw [hctl]
      exact .refl _
    · rw [hctl]
      exact .refl _
  | drainConn hctl =>
    refine hnext ?_ ?_ (by simp) rfl rfl
    · rw [hctl]
      exact .refl _
    · rw [hctl]
      exact List.sublist_cons_self _ _
  | closeConn hctl =>
    refine hnext ?_ ?_ (fun k todo hclose _ => ?_) rfl rfl
    · rw [hctl]
      exact List.sublist_cons_self _ _
    · rw [hctl]
      exact .refl _
    · rw [hctl, Ctl.close.injEq, List.cons.injEq] at hclose
      exact hclose.2
  | gracefulShutdown hopen =>
    -- the call finds `s.closed` unset, so that `Close` has started nothing
    refine ⟨.nil, by simp [Ctl.toClose], by simp [Ctl.toClose], fun _ => rfl, by simp, by simp, ?_,
      fun _ _ _ _ => rfl⟩
    exact fun k c hc hne => absurd (ih.fresh hopen k c hc) hne
  | close hopen hperm =>
    obtain ⟨hd, -⟩ := ih.unclosed hopen
    exact ⟨hperm.nodup_iff.mpr (pending_inv hr).conns, fun k _ => ih.fresh hopen k, fun _ => hd,
      by simp [Ctl.pending], by simp, by simp, fun _ _ _ _ => hd, ih.graceful⟩

/-! ## Calls of close -/

/-- Each caller of `close` calls it once, and waits for it. -/
structure Connection.ClosersInv (c : Connection) : Prop where
  serve : c.closing .serve ≠ .idle → c.serve = .closing ∨ c.serve = .finished
  served : c.serve = .finished → c.closing .serve = .idle ∨ c.closing .serve = .finished
  graceful : c.closing .graceful ≠ .idle → c.graceful = .closing ∨ c.graceful = .finished
  closed : ∀ closer, c.closing closer ≠ .idle → c.closing closer ≠ .start → c.closed = true

/-- `serve` ends after its `abort`, or when its `close` has returned. -/
theorem ServeMove.finishes (h : ServeMove s c act pc pc' bus obs) (hpc' : pc' = .finished) :
    pc = .abort ∨ (pc = .closing ∧ c.closing .serve = .finished) := by
  have hplain : ∀ {pc : ServePc}, pc.plain = true → pc ≠ .finished := by
    rintro _ hp rfl
    cases hp
  cases h with
  | abortDraining => exact .inl rfl
  | closed hfin => exact .inr ⟨rfl, hfin⟩
  | subscribe | ackInvalid | unsupported | publishDraining | publishAllowed | subscribeError
  | publishReturn | send | sendReport | sendIgnore => exact absurd hpc' (hplain (by simp))
  | _ => cases hpc'

/-- `serve` returns without a call of `close`, or when its call has returned. -/
theorem ConnMove.finishes (h : ConnMove s c act out) (hfin : out.conn.serve = .finished) :
    c.serve = .finished ∨ (out.conn.closing = c.closing ∧
      (c.serve = .abort ∨ (c.serve = .closing ∧ c.closing .serve = .finished))) := by
  cases h with
  | serve hpc hm =>
    subst hpc
    exact .inr ⟨rfl, hm.finishes hfin⟩
  | connect =>
    have hplain := plain_connectNext (by assumption)
    rw [show connectNext _ = .finished from hfin] at hplain
    cases hplain
  | read | store | replaced | spawn | acknowledge | unsubscribe | abort => cases hfin
  | _ => exact .inl hfin

/-- `serve` does not do anything more after its deferred `abort`. -/
theorem ConnMove.serve_closing (h : ConnMove s c act out)
    (hpc : c.serve = .closing ∨ c.serve = .finished) :
    out.conn.serve = .closing ∨ out.conn.serve = .finished := by
  have hnot : ∀ pc, c.serve = pc → pc ≠ .closing → pc ≠ .finished → False := by
    rintro _ rfl hclosing hfin
    exact hpc.elim hclosing hfin
  cases h with
  | serve hpc' hm =>
    cases hm with
    | closed => exact .inr rfl
    | _ => exact (hnot _ hpc' (by simp) (by simp)).elim
  | connect _ hpc' | read _ hpc' | store hpc' | replaced hpc' | spawn hpc' | acknowledge hpc'
  | unsubscribe hpc' | abort hpc' => exact (hnot _ hpc' (by simp) (by simp)).elim
  | _ => exact hpc

/-- A drain that has failed is not taken up again. -/
theorem ConnMove.graceful_closing (h : ConnMove s c act out)
    (hpc : c.graceful = .closing ∨ c.graceful = .finished) :
    out.conn.graceful = .closing ∨ out.conn.graceful = .finished := by
  have hnot : ∀ pc, c.graceful = pc → pc ≠ .closing → pc ≠ .finished → False := by
    rintro _ rfl hclosing hfin
    exact hpc.elim hclosing hfin
  cases h with
  | graceful hpc' hm =>
    cases hm with
    | already | closed => exact .inr rfl
    | _ => exact (hnot _ hpc' (by simp) (by simp)).elim
  | gracefulStart hpc' | drainFailed hpc' | closeTransport hpc' | gracefulNet hpc' =>
    exact (hnot _ hpc' (by simp) (by simp)).elim
  | _ => exact hpc

/-- A call of `close` that has returned is not made again. -/
theorem ConnMove.closing_finished (h : ConnMove s c act out) (hinv : c.ClosersInv)
    (hfin : c.closing closer = .finished) : out.conn.closing closer = .finished := by
  have hset : ∀ {closer' pc}, c.closing closer' ≠ .finished →
      (c.setClosing closer' pc).closing closer = .finished := by
    intro closer' pc hne
    have hcl : closer ≠ closer' := by
      rintro rfl
      exact hne hfin
    rw [Connection.setClosing_of_ne hcl, hfin]
  cases h with
  | close hpc hm =>
    refine hset ?_
    rw [hpc]
    cases hm <;> simp
  | closeStart hpc | closeNet hpc => exact hset (by rw [hpc]; simp)
  | abort hpc =>
    refine hset fun hserve => ?_
    rcases hinv.serve (by rw [hserve]; simp) with h | h <;> (rw [hpc] at h; cases h)
  | drainFailed hpc =>
    refine hset fun hgraceful => ?_
    rcases hinv.graceful (by rw [hgraceful]; simp) with h | h <;> (rw [hpc] at h; cases h)
  | _ => exact hfin

/-- A call of `close` that has just been started is before its `c.mu` section. -/
theorem Connection.ClosersInv.closed_of_start {closer' : Closer} (h : c.ClosersInv)
    (hidle : (c.setClosing closer' .start).closing closer ≠ .idle)
    (hstart : (c.setClosing closer' .start).closing closer ≠ .start) : c.closed = true := by
  by_cases hcl : closer = closer'
  · subst hcl
    exact absurd (Connection.setClosing_self c closer .start) hstart
  · rw [Connection.setClosing_of_ne hcl] at hidle hstart
    exact h.closed closer hidle hstart

/-- A call of `close` that is past its `c.mu` section has set `c.closed`, or has found it set. -/
theorem ConnMove.closing_closed (h : ConnMove s c act out) (hinv : c.ClosersInv)
    (hidle : out.conn.closing closer ≠ .idle) (hstart : out.conn.closing closer ≠ .start) :
    out.conn.closed = true := by
  cases h with
  | close hpc hm =>
    cases hm with
    | already _ hcl => exact hcl
    | sub | subReturn => exact hinv.closed _ (by rw [hpc]; simp) (by rw [hpc]; simp)
  | closeStart | closeTransport => rfl
  | closeNet hpc => exact hinv.closed _ (by rw [hpc]; simp) (by rw [hpc]; simp)
  | abort | drainFailed => exact hinv.closed_of_start hidle hstart
  | _ => exact hinv.closed closer hidle hstart

/-- A step of the connection keeps who closes it. -/
theorem ConnMove.closersInv (h : ConnMove s c act out) (hinv : c.ClosersInv) :
    out.conn.ClosersInv where
  serve hne := by
    by_cases hidle : c.closing .serve = .idle
    · rcases h.closing_idle hidle with hsame | ⟨-, -, hpc⟩ | ⟨heq, -⟩
      · exact absurd hsame hne
      · exact .inl hpc
      · cases heq
    · exact h.serve_closing (hinv.serve hidle)
  served hfin := by
    rcases h.finishes hfin with hbefore | ⟨hsame, hpc | ⟨-, hclosed⟩⟩
    · rcases hinv.served hbefore with hidle | hdone
      · rcases h.closing_idle hidle with hsame | ⟨-, hpc, -⟩ | ⟨heq, -⟩
        · exact .inl hsame
        · rw [hbefore] at hpc
          cases hpc
        · cases heq
      · exact .inr (h.closing_finished hinv hdone)
    · refine .inl (by_contra fun hne => ?_)
      rw [hsame] at hne
      rcases hinv.serve hne with h | h <;> (rw [hpc] at h; cases h)
    · rw [hsame]
      exact .inr hclosed
  graceful hne := by
    by_cases hidle : c.closing .graceful = .idle
    · rcases h.closing_idle hidle with hsame | ⟨heq, -⟩ | ⟨-, hpc⟩
      · exact absurd hsame hne
      · cases heq
      · exact .inl hpc
    · exact h.graceful_closing (hinv.graceful hidle)
  closed closer hidle hstart := h.closing_closed hinv hidle hstart

/-- Who closes a connection, in every run. -/
theorem closers_inv (h : (Server.lts config).Reach G log s) (hc : s.connections k = some c) :
    c.ClosersInv := by
  refine Server.conn_induct h hc (I := fun _ _ c => c.ClosersInv) ?_ ?_
  · exact fun _ => ⟨fun h => absurd rfl h, by simp [newConnection], fun h => absurd rfl h,
      fun _ h => absurd rfl h⟩
  intro log s a s' os c c' obs b hr _ hc _ _ _ hch hinv
  cases hch with
  | move hm => exact hm.closersInv hinv
  | drain hctl =>
    have hidle := (pending_inv hr).idle k (by rw [hctl]; exact List.mem_cons_self) c hc
    refine ⟨hinv.serve, hinv.served, fun hne => ?_, hinv.closed⟩
    rcases hinv.graceful hne with h | h <;> (rw [hidle] at h; cases h)
  | close =>
    refine ⟨fun hne => hinv.serve ?_, fun hfin => ?_, fun hne => hinv.graceful ?_,
      fun _ => hinv.closed_of_start⟩
    · rwa [Connection.setClosing_of_ne (by simp)] at hne
    · rw [Connection.setClosing_of_ne (by simp)]
      exact hinv.served hfin
    · rwa [Connection.setClosing_of_ne (by simp)] at hne
  | _ => exact ⟨hinv.serve, hinv.served, hinv.graceful, hinv.closed⟩

/-! ## Where a subscription is -/

/-- A closed subscription is out of the registry. -/
theorem Bus.unregistered_of_closed (hreg : w.RegistryInv)
    (hinv : ∀ p sub, w.subs[p]? = some sub → w.SubInv p sub) (h : w.Closed sub) :
    w.Unregistered sub := by
  obtain ⟨subscription, hs, hcl⟩ := h
  refine hreg.entered sub subscription hs fun hfresh => ?_
  rw [(hinv sub subscription hs).fresh hfresh] at hcl
  cases hcl

/-- `serve` is to store `sub`, or it is stored, or `unsubscribe` or `close` is to close it. -/
def Connection.Tracked (c : Connection) (w : Bus) (sub : SubPtr) : Prop :=
  (c.Holds w sub ∧ c.serve ≠ .subscribeSpawn sub) ∨ (∃ topic, c.subs.lookup topic = some sub) ∨
    c.serve.removing = some sub ∨ ∃ closer, sub ∈ (c.closing closer).remaining

section Tracked

variable {s' : Server} {os : List Obs}

theorem Connection.Holds.frame (h : c.Holds w sub) (hb : BusStep w b w' os)
    (hserve : c'.serve = c.serve) : c'.Holds w' sub := by
  unfold Connection.Holds
  rw [hserve]
  rcases h with hheld | ⟨call, hcall, hret⟩
  · exact .inl hheld
  · exact .inr ⟨call, hcall, hb.returned hret⟩

/-- `serve` keeps the subscription it has been given, and goes on to store it. -/
theorem ConnMove.holding (h : ConnMove s c act out) (hb : BusStep s.bus out.bus s'.bus os)
    (hh : c.Holds s.bus sub) (hne : c.serve ≠ .subscribeSpawn sub) :
    out.conn.Holds s'.bus sub ∧ (out.conn.serve ≠ .subscribeSpawn sub ∨
      ∃ topic, out.conn.subs.lookup topic = some sub) := by
  -- `serve` holds nothing at its other program counters
  have hnot : ∀ pc, c.serve = pc → pc.held = none → pc.awaited = none → False := by
    rintro _ rfl hheld hawaited
    rcases hh with h | ⟨call, h, -⟩
    · rw [hheld] at h
      cases h
    · rw [hawaited] at h
      cases h
  have hheld : ∀ pc, c.serve = pc → pc.awaited = none → pc.held = some sub := by
    rintro _ rfl hawaited
    rcases hh with h | ⟨call, h, -⟩
    · exact h
    · rw [hawaited] at h
      cases h
  cases h with
  | serve hpc hm =>
    cases hm with
    | subscribeReturn hret =>
      rcases hh with h | ⟨call, h, hr⟩
      · rw [hpc] at h
        cases h
      · rw [hpc] at h
        cases h
        rw [hret, Option.some.injEq, Pc.returned.injEq, Ret.subscribed.injEq] at hr
        exact ⟨.inl (by rw [← hr]; rfl), .inl (by simp)⟩
    | subscribeFailed hret =>
      rcases hh with h | ⟨call, h, hr⟩
      · rw [hpc] at h
        cases h
      · rw [hpc] at h
        cases h
        rw [hret] at hr
        cases hr
    | subscribeOld | subscribeReplace =>
      have hsame := hheld _ hpc rfl
      exact ⟨.inl hsame, .inl (by simp)⟩
    | _ => exact (hnot _ hpc rfl rfl).elim
  | connect _ hpc | read _ hpc | acknowledge hpc | unsubscribe hpc | abort hpc =>
    exact (hnot _ hpc rfl rfl).elim
  | store hpc | replaced hpc =>
    obtain rfl := Option.some.inj (hheld _ hpc rfl)
    exact ⟨.inl rfl, .inr ⟨_, AList.lookup_insert _⟩⟩
  | spawn hpc =>
    obtain rfl := Option.some.inj (hheld _ hpc rfl)
    exact absurd hpc hne
  | _ => exact ⟨hh.frame hb rfl, .inl hne⟩

/-- A call of `close` goes through the subscriptions it has taken, and closes each. -/
theorem ConnMove.remaining_closed (h : ConnMove s c act out) (hclosers : c.ClosersInv)
    (hcalls : c.CallsInv s.bus)
    (hinv : ∀ p sub, s.bus.subs[p]? = some sub → s.bus.SubInv p sub)
    (hmem : sub ∈ (c.closing closer).remaining) :
    sub ∈ (out.conn.closing closer).remaining ∨ s.bus.Closed sub := by
  -- a step of one closer leaves what the other has to do
  have hset : ∀ {closer' pc}, (closer = closer' → sub ∈ pc.remaining ∨ s.bus.Closed sub) →
      sub ∈ ((c.setClosing closer' pc).closing closer).remaining ∨ s.bus.Closed sub := by
    intro closer' pc hpc
    by_cases hcl : closer = closer'
    · subst hcl
      rw [Connection.setClosing_self]
      exact hpc rfl
    · rw [Connection.setClosing_of_ne hcl]
      exact .inl hmem
  cases h with
  | close hpc hm =>
    refine hset ?_
    rintro rfl
    rw [hpc] at hmem
    cases hm with
    | already => cases hmem
    | sub => exact .inl hmem
    | subReturn hret =>
      rcases List.mem_cons.mp hmem with rfl | hrest
      · -- `sub.Close` has returned, which closes the subscription
        exact .inr (Bus.closed_of_ended hinv ((hcalls.close _ _ _ _ hpc).closed hret))
      · exact .inl hrest
  | closeStart hpc | closeNet hpc =>
    refine hset ?_
    rintro rfl
    rw [hpc] at hmem
    cases hmem
  | abort hpc =>
    refine hset ?_
    rintro rfl
    -- a closer that starts now had nothing left to close
    have hidle : c.closing .serve = .idle := by
      by_contra hne
      rcases hclosers.serve hne with h | h <;> (rw [hpc] at h; cases h)
    rw [hidle] at hmem
    cases hmem
  | drainFailed hpc =>
    refine hset ?_
    rintro rfl
    have hidle : c.closing .graceful = .idle := by
      by_contra hne
      rcases hclosers.graceful hne with h | h <;> (rw [hpc] at h; cases h)
    rw [hidle] at hmem
    cases hmem
  | _ => exact .inl hmem

/-- A step of the connection leaves a subscription where it can be found, unless it is closed. -/
theorem ConnMove.tracked (h : ConnMove s c act out) (hb : BusStep s.bus out.bus s'.bus os)
    (hclosers : c.ClosersInv) (hcalls : c.CallsInv s.bus)
    (hinv : ∀ p sub, s.bus.subs[p]? = some sub → s.bus.SubInv p sub)
    (ht : c.Tracked s.bus sub) : out.conn.Tracked s'.bus sub ∨ s.bus.Closed sub := by
  rcases ht with ⟨hh, hne⟩ | ⟨topic, hl⟩ | hrem | ⟨closer, hmem⟩
  · obtain ⟨hh', hne' | hstored⟩ := h.holding hb hh hne
    · exact .inl (.inl ⟨hh', hne'⟩)
    · exact .inl (.inr (.inl hstored))
  · rcases h.kept hcalls hinv hl with hl' | hrem | ⟨-, hmem⟩ | hcl
    · exact .inl (.inr (.inl ⟨topic, hl'⟩))
    · exact .inl (.inr (.inr (.inl hrem)))
    · exact .inl (.inr (.inr (.inr hmem)))
    · exact .inr hcl
  · rcases h.removing hcalls hinv hrem with hrem' | hcl
    · exact .inl (.inr (.inr (.inl hrem')))
    · exact .inr hcl
  · rcases h.remaining_closed hclosers hcalls hinv hmem with hmem' | hcl
    · exact .inl (.inr (.inr (.inr ⟨closer, hmem'⟩)))
    · exact .inr hcl

theorem ConnChange.held {bos : List Obs} (h : ConnChange s s' bos k c a c' obs)
    (hheld : c'.serve.held = some sub) :
    c.Holds s.bus sub := by
  cases h with
  | move hm => exact hm.held hheld
  | _ => exact .inl hheld

/-- Where `serve` does not move and no call of `close` loses a subscription. -/
theorem Connection.Tracked.frame {w w' : Bus} {b : Option Action} (h : c.Tracked w sub)
    (hb : BusStep w b w' os) (hserve : c'.serve = c.serve) (hsubs : c'.subs = c.subs)
    (hclosing : ∀ closer, sub ∈ (c.closing closer).remaining →
      sub ∈ (c'.closing closer).remaining) : c'.Tracked w' sub := by
  rcases h with ⟨hh, hne⟩ | hstored | hrem | ⟨closer, hmem⟩
  · exact .inl ⟨hh.frame hb hserve, by rw [hserve]; exact hne⟩
  · exact .inr (.inl (by rw [hsubs]; exact hstored))
  · exact .inr (.inr (.inl (by rw [hserve]; exact hrem)))
  · exact .inr (.inr (.inr ⟨closer, hclosing closer hmem⟩))

end Tracked

/-- A subscription of a connection is not registered, or somebody is to close it. -/
theorem tracked_inv (h : (Server.lts config).Reach G log s) (hc : s.connections k = some c)
    (ho : c.Owns s.bus sub) : s.bus.Unregistered sub ∨ c.Tracked s.bus sub := by
  refine Server.conn_induct h hc
    (I := fun _ w c => ∀ sub, c.Owns w sub → w.Unregistered sub ∨ c.Tracked w sub) ?_ ?_ sub ho
  · exact fun w sub ho => absurd ho (Connection.not_owns_new w sub)
  intro log s a s' os c c' obs b hr _ hc _ _ hb hch hbefore sub ho
  have hbus := Server.reach_bus hr
  have hsub : ∀ p sub, s.bus.subs[p]? = some sub → s.bus.SubInv p sub := fun p sub => sub_inv hbus
  -- what `serve` holds is tracked until it is stored
  by_cases hheld : c'.Holds s'.bus sub ∧ c'.serve ≠ .subscribeSpawn sub
  · exact .inr (.inl hheld)
  have hown : c.Owns s.bus sub := by
    rcases ho with hh | hdel
    · have hspawn : c'.serve = .subscribeSpawn sub := by_contra fun hne => hheld ⟨hh, hne⟩
      exact .inl (hch.held (by rw [hspawn]; rfl))
    · exact hch.owns_of_delivery hdel
  have halloc := (own_inv hr).alloc k c sub hc hown
  rcases hbefore sub hown with hun | ht
  · exact .inl (hb.unregistered halloc hun)
  cases hch with
  | move hm hmb =>
    rcases hm.tracked hmb (closers_inv hr hc) (calls_inv hr hc) hsub ht with ht' | hcl
    · exact .inr ht'
    · have hun := Bus.unregistered_of_closed (registry_inv hbus) hsub hcl
      exact .inl (hb.unregistered halloc hun)
  | close hctl =>
    have hidle := (close_inv hr).idle k (by rw [hctl]; exact List.mem_cons_self) c hc
    refine .inr (ht.frame hb rfl rfl fun closer hmem => ?_)
    have hne : closer ≠ .server := by
      rintro rfl
      rw [hidle] at hmem
      cases hmem
    rw [Connection.setClosing_of_ne hne]
    exact hmem
  | _ => exact .inr (ht.frame hb rfl rfl fun _ => id)

/-! ## Subscriptions that a connection has created -/

section Created

variable {s' : Server} {os : List Obs} {call : CallId}

/-- What a connection has subscribed stays its own. -/
theorem ConnMove.owns_next (h : ConnMove s c act out) (hb : BusStep s.bus out.bus s'.bus os)
    (ho : c.Owns s.bus sub) : out.conn.Owns s'.bus sub := by
  rcases ho with hh | hdel
  · by_cases hspawn : c.serve = .subscribeSpawn sub
    · rcases h.spawned hspawn with hsame | hran
      · exact .inl (.inl (by rw [hsame]; rfl))
      · exact .inr (by rw [hran]; simp)
    · exact .inl (h.holding hb hh hspawn).1
  · exact .inr ((h.deliveryStep _).known hdel)

/-- `serve` waits for `broker.Subscribe` until the call has returned. -/
theorem ConnMove.awaited_next (h : ConnMove s c act out) (hcall : c.serve.awaited = some call) :
    out.conn.serve.awaited = some call ∨ ∃ r, s.bus.calls call = some (.returned r) := by
  have hnot : ∀ pc, c.serve = pc → pc.awaited = none → False := by
    rintro _ rfl hnone
    rw [hnone] at hcall
    cases hcall
  cases h with
  | serve hpc hm =>
    cases hm with
    | subscribeReturn hret | subscribeFailed hret =>
      rw [hpc] at hcall
      cases hcall
      exact .inr ⟨_, hret⟩
    | _ => exact (hnot _ hpc rfl).elim
  | connect _ hpc | read _ hpc | store hpc | replaced hpc | spawn hpc | acknowledge hpc
  | unsubscribe hpc | abort hpc => exact (hnot _ hpc rfl).elim
  | _ => exact .inl hcall

theorem ConnMove.subscribing_awaited (h : ConnMove s c act out)
    (ho : .subscribing topic call ∈ out.obs) : out.conn.serve.awaited = some call := by
  cases h with
  | serve _ hm =>
    cases hm with
    | subscribeCall =>
      obtain ⟨-, rfl⟩ := ConnObs.subscribing.inj (List.mem_singleton.mp ho)
      rfl
    | _ => simp at ho
  | deliver _ hm =>
    cases hm with
    | _ => simp at ho
  | graceful _ hm =>
    cases hm with
    | _ => simp at ho
  | _ => simp at ho

variable {bos : List Obs}

/-- A connection goes on owning its subscriptions. -/
theorem ConnChange.owns_next (h : ConnChange s s' bos k c a c' obs)
    (hb : BusStep s.bus b s'.bus os) (ho : c.Owns s.bus sub) : c'.Owns s'.bus sub := by
  have hsame : c'.serve = c.serve → c'.deliveries = c.deliveries → c'.Owns s'.bus sub := by
    intro hserve hdel
    rcases ho with hh | hne
    · exact .inl (hh.frame hb hserve)
    · exact .inr (by rw [hdel]; exact hne)
  cases h with
  | move hm hmb => exact hm.owns_next hmb ho
  | _ => exact hsame rfl rfl

theorem ConnChange.awaited_next (h : ConnChange s s' bos k c a c' obs)
    (hcall : c.serve.awaited = some call) :
    c'.serve.awaited = some call ∨ ∃ r, s.bus.calls call = some (.returned r) := by
  cases h with
  | move hm => exact hm.awaited_next hcall
  | _ => exact .inl hcall

theorem ConnChange.subscribing_awaited (h : ConnChange s s' bos k c a c' obs)
    (ho : .subscribing topic call ∈ obs) : c'.serve.awaited = some call := by
  cases h with
  | move hm => exact hm.subscribing_awaited ho
  | _ => cases ho

end Created

/-- A subscription that was returned to the connection is its own. -/
theorem created_owns (h : (Server.lts config).Reach G log s) (hc : s.connections k = some c)
    (hcreated : FromCall (connLog k log) s.bus sub) : c.Owns s.bus sub := by
  have hinv : ∀ topic call, .subscribing topic call ∈ connLog k log →
      c.serve.awaited = some call ∨ ((∃ r, s.bus.calls call = some (.returned r)) ∧
        ∀ sub, s.bus.calls call = some (.returned (.subscribed sub)) → c.Owns s.bus sub) := by
    refine Server.conn_induct h hc (I := fun L w c => ∀ topic call, .subscribing topic call ∈ L →
      c.serve.awaited = some call ∨ ((∃ r, w.calls call = some (.returned r)) ∧
        ∀ sub, w.calls call = some (.returned (.subscribed sub)) → c.Owns w sub)) (by simp) ?_
    intro log s a s' os c c' obs b _ _ _ _ _ hb hch hbefore topic call ho
    rcases List.mem_append.mp ho with hold | hnew
    · -- a call that has returned is remembered with what it has returned
      have hreturned : ∀ r, s.bus.calls call = some (.returned r) →
          (∀ sub, r = .subscribed sub → c.Owns s.bus sub) →
          (∃ r, s'.bus.calls call = some (.returned r)) ∧
            ∀ sub, s'.bus.calls call = some (.returned (.subscribed sub)) → c'.Owns s'.bus sub := by
        intro r hr howns
        refine ⟨⟨r, hb.returned hr⟩, fun sub hsub => hch.owns_next hb (howns sub ?_)⟩
        simpa using (hb.returned hr).symm.trans hsub
      rcases hbefore topic call hold with hawaited | ⟨⟨r, hr⟩, howns⟩
      · rcases hch.awaited_next hawaited with hawaited' | ⟨r, hr⟩
        · exact .inl hawaited'
        · refine .inr (hreturned r hr ?_)
          rintro sub rfl
          exact .inl (.inr ⟨call, hawaited, hr⟩)
      · refine .inr (hreturned r hr ?_)
        rintro sub rfl
        exact howns sub hr
    · exact .inl (hch.subscribing_awaited hnew)
  obtain ⟨call, subscription, -, ho, hret⟩ := hcreated
  rcases hinv _ call ho with hawaited | ⟨-, howns⟩
  · exact .inl (.inr ⟨call, hawaited, hret⟩)
  · exact howns sub hret

/-! ## Teardown -/

/-- The connection whose `subscribe` is to store its subscription with this step. -/
def ServerAction.stores : ServerAction → Option ConnId
  | .conn k .subscribeStore => some k
  | _ => none

/-- `subscribe` does not come to store a subscription in a connection that is closed. -/
def StoresOpen (s : Server) (a : ServerAction) : Prop :=
  ∀ k ∈ a.stores, ∀ c ∈ s.connections k, c.closed = false

instance (s : Server) (a : ServerAction) : Decidable (StoresOpen s a) :=
  inferInstanceAs (Decidable (∀ k ∈ a.stores, ∀ c ∈ s.connections k, c.closed = false))

/-- A closed connection has no subscriptions left, unless `closeTransport` has closed it. -/
structure Connection.EmptiedInv (c : Connection) : Prop where
  locked : c.serve.replaces ≠ none → c.closed = false
  emptied : c.closed = true → c.subs = ∅ ∨
    (c.closing .graceful = .idle ∧ (c.graceful = .closeNet ∨ c.graceful = .finished))

theorem Connection.replaces_of_free (h : c.muHeld = false) :
    c.serve.replaces = none := by
  unfold Connection.muHeld at h
  cases hpc : c.serve <;> first | rfl | (rw [hpc] at h; cases h)

theorem ServeMove.locks (h : ServeMove s c act pc pc' bus obs) (hpc' : pc'.replaces ≠ none) :
    pc.replaces ≠ none ∨ act = .subscribeStore := by
  cases h with
  | subscribeOld => exact .inr rfl
  | subscribeReplace => exact .inl hpc'
  | subscribe | ackInvalid | unsupported | publishDraining | publishAllowed | subscribeError
  | publishReturn | send | sendReport | sendIgnore =>
    exact absurd (ServePc.replaces_of_plain (by simp)) hpc'
  | _ => exact absurd rfl hpc'

/-- A step of the connection keeps what a closed one has left in `c.subs`. -/
theorem ConnMove.emptiedInv (h : ConnMove s c act out) (hclosers : c.ClosersInv)
    (hguard : act = .subscribeStore → c.closed = false) (hinv : c.EmptiedInv) :
    out.conn.EmptiedInv where
  locked hne := by
    cases h with
    | serve hpc hm =>
      subst hpc
      rcases hm.locks hne with hlocked | hact
      · exact hinv.locked hlocked
      · exact hguard hact
    | connect => exact absurd (ServePc.replaces_of_plain (plain_connectNext _)) hne
    | read | store | replaced | spawn | acknowledge | unsubscribe | abort => exact absurd rfl hne
    | closeTransport _ hfree | closeStart _ hfree =>
      exact absurd (Connection.replaces_of_free hfree) hne
    | _ => exact hinv.locked hne
  emptied hcl := by
    -- where `closeTransport` has closed it, `gracefulClose` only has to close the socket
    have hlate : ∀ pc, c.graceful = pc → pc ≠ .closeNet → pc ≠ .finished →
        c.closed = true → c.subs = ∅ := by
      rintro _ rfl hnet hfin hcl
      rcases hinv.emptied hcl with hempty | ⟨-, h | h⟩
      · exact hempty
      · exact absurd h hnet
      · exact absurd h hfin
    have hopen : c.closed = false → c.closed = true → False := by
      intro hopen hcl
      rw [hopen] at hcl
      cases hcl
    have hidle := fun hidle : c.closing .graceful = .idle => h.closing_idle hidle
    cases h with
    | store => exact (hopen (hguard rfl) hcl).elim
    | replaced hpc => exact (hopen (hinv.locked (by rw [hpc]; simp [ServePc.replaces])) hcl).elim
    | unsubscribe _ _ _ hl =>
      rcases hinv.emptied hcl with hempty | hlate'
      · rw [hempty] at hl
        cases hl
      · exact .inr hlate'
    | closeStart => exact .inl rfl
    | closeTransport hpc =>
      refine .inr ⟨by_contra fun hne => ?_, .inl rfl⟩
      rcases hclosers.graceful hne with h | h <;> (rw [hpc] at h; cases h)
    | gracefulNet =>
      rcases hinv.emptied hcl with hempty | ⟨hnot, -⟩
      · exact .inl hempty
      · exact .inr ⟨hnot, .inr rfl⟩
    | graceful hpc hm => cases hm <;> exact .inl (hlate _ hpc (by simp) (by simp) hcl)
    | gracefulStart hpc | drainFailed hpc => exact .inl (hlate _ hpc (by simp) (by simp) hcl)
    | close | closeNet | abort =>
      rcases hinv.emptied hcl with hempty | ⟨hnot, hpc⟩
      · exact .inl hempty
      · rcases hidle hnot with hsame | ⟨heq, -⟩ | ⟨-, hclosing⟩
        · exact .inr ⟨hsame, hpc⟩
        · cases heq
        · rcases hpc with h | h <;> (rw [show c.graceful = _ from hclosing] at h; cases h)
    | _ => exact hinv.emptied hcl

/-- What a closed connection has left in `c.subs`, where `subscribe` stores only in open ones. -/
theorem emptied_inv (h : (Server.lts config).Reach StoresOpen log s)
    (hc : s.connections k = some c) : c.EmptiedInv := by
  refine Server.conn_induct h hc (I := fun _ _ c => c.EmptiedInv) ?_ ?_
  · exact fun _ => ⟨fun h => absurd rfl h, by simp [newConnection]⟩
  intro log s a s' os c c' obs b hr _ hc _ hg _ hch hinv
  cases hch with
  | move hm =>
    refine hm.emptiedInv (closers_inv hr hc) ?_ hinv
    rintro rfl
    exact hg k rfl c hc
  | drain hctl =>
    have hidle := (pending_inv hr).idle k (by rw [hctl]; exact List.mem_cons_self) c hc
    refine ⟨hinv.locked, fun hcl => ?_⟩
    rcases hinv.emptied hcl with hempty | ⟨-, h | h⟩
    · exact .inl hempty
    · rw [hidle] at h
      cases h
    · rw [hidle] at h
      cases h
  | close =>
    refine ⟨hinv.locked, fun hcl => ?_⟩
    rw [Connection.setClosing_of_ne (by simp)]
    exact hinv.emptied hcl
  | _ => exact ⟨hinv.locked, hinv.emptied⟩

/-- `Close` of the server and a drain that failed do not both close a connection. -/
theorem Server.CloseInv.other_idle (h : s.CloseInv) (hclosers : c.ClosersInv)
    (hc : s.connections k = some c) :
    (c.closing .server ≠ .idle → c.graceful = .idle ∧ c.closing .graceful = .idle) ∧
      (c.closing .graceful ≠ .idle → c.closing .server = .idle) := by
  have hgraceful : c.closing .graceful ≠ .idle → c.graceful ≠ .idle := by
    intro hne hidle
    rcases hclosers.graceful hne with h | h <;> (rw [hidle] at h; cases h)
  have hexcl : c.closing .server ≠ .idle → c.graceful = .idle := by
    intro hserver
    by_contra hne
    have hd := h.server k c hc hserver
    rw [h.graceful k c hc hne] at hd
    cases hd
  refine ⟨fun hserver => ⟨hexcl hserver, ?_⟩, fun hne => ?_⟩
  · by_contra hne
    exact hgraceful hne (hexcl hserver)
  · by_contra hserver
    exact hgraceful hne (hexcl hserver)

/-- Where nothing is stored in a closed connection, no subscription that a connection has
    created is registered once `serve` has returned and the call of `close` made by `Close` of
    the server, or by `gracefulClose` after a failed drain, has returned too. -/
theorem teardown_complete (h : (Server.lts config).Reach StoresOpen log s)
    (hc : s.connections k = some c) {closer : Closer} (hcloser : closer ≠ .serve)
    (hclosed : c.closing closer = .finished) (hserve : c.serve = .finished)
    (hcreated : FromCall (connLog k log) s.bus sub) : sub ∉ s.bus.broker.allRegistered := by
  have hclosers := closers_inv h hc
  obtain ⟨hserver, hgraceful⟩ := (close_inv h).other_idle hclosers hc
  -- no call of `close` has a subscription left to close
  have hdone : ∀ closer', (c.closing closer').remaining = [] := by
    have hidle : ∀ {closer'}, c.closing closer' = .idle → (c.closing closer').remaining = [] := by
      intro closer' h
      rw [h]
      rfl
    have hfin : ∀ {closer'}, c.closing closer' = .finished →
        (c.closing closer').remaining = [] := by
      intro closer' h
      rw [h]
      rfl
    intro closer'
    cases closer' with
    | serve => exact (hclosers.served hserve).elim hidle hfin
    | graceful =>
      cases closer with
      | serve => exact absurd rfl hcloser
      | graceful => exact hfin hclosed
      | server => exact hidle (hserver (by rw [hclosed]; simp)).2
    | server =>
      cases closer with
      | serve => exact absurd rfl hcloser
      | graceful => exact hidle (hgraceful (by rw [hclosed]; simp))
      | server => exact hfin hclosed
  rw [← unregistered_iff_not_mem]
  rcases tracked_inv h hc (created_owns h hc hcreated) with hun | ⟨hh, -⟩ | ⟨topic, hl⟩ | hrem |
    ⟨closer', hmem⟩
  · exact hun
  · rcases hh with h | ⟨call, h, -⟩ <;> (rw [hserve] at h; cases h)
  · have hcl := hclosers.closed closer (by rw [hclosed]; simp) (by rw [hclosed]; simp)
    rcases (emptied_inv h hc).emptied hcl with hempty | ⟨hidle, hpc⟩
    · rw [hempty] at hl
      cases hl
    · -- `closeTransport` ends a drain that did not fail, and `Close` has not been called
      cases closer with
      | serve => exact absurd rfl hcloser
      | graceful =>
        rw [hclosed] at hidle
        cases hidle
      | server =>
        have hnot := (hserver (by rw [hclosed]; simp)).1
        rcases hpc with h | h <;> (rw [hnot] at h; cases h)
  · rw [hserve] at hrem
    cases hrem
  · rw [hdone closer'] at hmem
    cases hmem

/-- The connection has one subscription when the server is closed. -/
theorem teardown_complete_subscribed :
    ∃ log s c, (Server.lts ⟨1, 0, 0, .block⟩).Reach StoresOpen log s ∧
      s.connections 0 = some c ∧ c.closing .server = .finished ∧ c.serve = .finished ∧
      FromCall (connLog 0 log) s.bus 0 ∧ 0 ∉ s.bus.broker.allRegistered := by
  obtain ⟨log, s, hr, c, hc, hclosed, hserve, subscription, hs, hcall, hret⟩ :=
    Lts.reach_of_runWhere (M := Server.lts ⟨1, 0, 0, .block⟩) (G := StoresOpen) rfl
      (subscribeRun 0 0 ++
        [ServerAction.close [0], .closeConn, .conn 0 (.closeStart .server [0]),
          .conn 0 (.closeSub .server 1), .bus (.closeDeregister 1), .bus (.closeOnce 1),
          .bus (.closeMark 1), .bus (.closeWait 1), .bus (.closeEvents 1),
          .conn 0 (.closeSubReturn .server), .conn 0 (.closeNet .server), .conn 0 .serveReadFails,
          .conn 0 .abort, .conn 0 (.closeStart .serve []), .conn 0 .serveClosed])
      (Q := fun r => ∃ c ∈ r.1.connections 0, c.closing .server = .finished ∧
        c.serve = .finished ∧ ∃ subscription ∈ r.1.bus.subs[0]?,
          .subscribing subscription.topic 0 ∈ connLog 0 r.2 ∧
          r.1.bus.calls 0 = some (.returned (.subscribed 0)))
      (by decide)
  have hcreated : FromCall (connLog 0 log) s.bus 0 := ⟨0, subscription, hs, hcall, hret⟩
  exact ⟨log, s, c, hr, hc, hclosed, hserve, hcreated,
    teardown_complete hr hc (by simp) hclosed hserve hcreated⟩

/-- `broker.Subscribe` has registered the subscription when `Close` of the server closes the
    connection; `subscribe` then stores it and `serve` ends. Everybody has returned, and the
    subscription is registered. -/
theorem subscription_leaked :
    ∃ log s, (Server.lts ⟨1, 0, 0, .block⟩).Reach Lts.Always log s ∧
      ∃ c ∈ s.connections 0, c.closing .server = .finished ∧ c.serve = .finished ∧
        FromCall (connLog 0 log) s.bus 0 ∧ 0 ∈ s.bus.broker.allRegistered := by
  obtain ⟨log, s, hr, c, hc, hclosed, hserve, hreg, subscription, hs, hcall, hret⟩ :=
    Lts.reach_of_runWhere (M := Server.lts ⟨1, 0, 0, .block⟩) (G := Lts.Always) rfl
      ((subscribeRun 0 0).take 11 ++
        [ServerAction.close [0], .closeConn, .conn 0 (.closeStart .server []),
          .conn 0 (.closeNet .server), .closeConnReturn, .conn 0 .subscribeReturn,
          .conn 0 .subscribeStore, .conn 0 .subscribeSpawn, .conn 0 .subscribeUnlock,
          .conn 0 .serveReadFails, .conn 0 .abort, .conn 0 (.closeStart .serve []),
          .conn 0 .serveClosed, .removeConnection 0, .closeReturn])
      (Q := fun r => ∃ c ∈ r.1.connections 0, c.closing .server = .finished ∧
        c.serve = .finished ∧ 0 ∈ r.1.bus.broker.allRegistered ∧
        ∃ subscription ∈ r.1.bus.subs[0]?,
          .subscribing subscription.topic 0 ∈ connLog 0 r.2 ∧
          r.1.bus.calls 0 = some (.returned (.subscribed 0)))
      (by decide)
  exact ⟨log, s, hr, c, hc, hclosed, hserve, ⟨0, subscription, hs, hcall, hret⟩, hreg⟩

end EventBus
