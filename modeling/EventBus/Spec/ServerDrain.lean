import EventBus.Spec.ServerConsumers

/-!
# What gracefulClose waits for

`gracefulClose` takes the subscriptions in `c.subs`, drains and closes each of them, and
then waits for all delivery goroutines of the connection. A subscription that `serve` has
in hand at that moment, subscribed but not stored yet, or removed by `unsubscribe` but
not closed yet, is in nobody's list: its goroutine is waited for although nothing has
closed its channel (`open_subscription_awaited`). Where `serve` has nothing in hand when
`gracefulClose` takes the subscriptions, only goroutines of closed subscriptions are
waited for (`awaited_closed`).

## Key results

- `ctl_inv`: `GracefulShutdown` drains connections only after `BeginShutdown`
- `awaited_closed`: the wait is for goroutines of closed subscriptions
- `open_subscription_awaited`: a subscription in hand is waited for while open
-/

namespace EventBus

variable {w w' : Bus} {b : Option Action} {os : List Obs} {config : Config}
  {G : Server → ServerAction → Prop} {log : List ServerObs} {s : Server} {c : Connection}
  {a : ConnAction} {out : Out} {k : ConnId} {sub : SubPtr} {pc : ServePc}

/-! ## GracefulShutdown -/

theorem BusStep.draining (h : BusStep w b w' os) (hd : w.broker.draining = true) :
    w'.broker.draining = true := by
  cases b with
  | none => rw [h.1]; exact hd
  | some b => exact (step_effect h).draining hd

/-- Where `GracefulShutdown` stands with `BeginShutdown`. -/
structure Server.CtlInv (s : Server) : Prop where
  begin : ∀ call conns, s.ctl = .beginWait call conns → s.bus.Runs call .beginShutdown
  begun : ∀ conns todo, s.ctl = .drain conns todo → s.bus.broker.draining = true

/-- Where `GracefulShutdown` stands with `BeginShutdown`, in every run. -/
theorem ctl_inv (h : (Server.lts config).Reach G log s) : s.CtlInv := by
  refine h.induct_reach (P := fun _ s => s.CtlInv) ?_ ?_
  · rintro _ rfl
    exact ⟨nofun, nofun⟩
  · intro log s a s' os hr hinv _ hstep
    have heff := server_step_effect hstep
    have hsub : ∀ p sub, s.bus.subs[p]? = some sub → s.bus.SubInv p sub :=
      fun p sub => sub_inv (Server.reach_bus hr)
    obtain ⟨b, hb⟩ := heff.bus_step
    have hsame : s'.ctl = s.ctl → s'.CtlInv := fun hctl =>
      ⟨fun call conns h => hb.runs hsub (hinv.begin call conns (hctl ▸ h)),
        fun conns todo h => hb.draining (hinv.begun conns todo (hctl ▸ h))⟩
    cases heff with
    | beginShutdown _ hinvoke =>
      refine ⟨fun call conns hctl => ?_, nofun⟩
      cases hctl
      exact Bus.runs_invoke hinvoke
    | beginReturn hctl hret =>
      exact ⟨nofun, fun _ _ _ => (hinv.begin _ _ hctl).begun hret⟩
    | drainConn hctl => exact ⟨nofun, fun _ _ _ => hinv.begun _ _ hctl⟩
    | bus | accept | peerSend | conn | connBus | removeConnection => exact hsame rfl
    | _ => exact ⟨nofun, nofun⟩

/-- `gracefulClose` does not start by itself. -/
theorem ConnMove.graceful_idle (h : ConnMove s c a out) (hidle : c.graceful = .idle) :
    out.conn.graceful = .idle := by
  cases h with
  | graceful hpc hm =>
    rw [hidle] at hpc
    subst hpc
    cases hm
  | gracefulStart hpc | drainFailed hpc | closeTransport hpc | gracefulNet hpc =>
    rw [hidle] at hpc
    cases hpc
  | _ => exact hidle

/-- A connection is drained only after `BeginShutdown`. -/
theorem graceful_draining (h : (Server.lts config).Reach G log s) (hc : s.connections k = some c)
    (hg : c.graceful ≠ .idle) :
    s.bus.broker.draining = true := by
  refine Server.conn_induct h hc
    (I := fun _ w c => c.graceful ≠ .idle → w.broker.draining = true) ?_ ?_ hg
  · exact fun _ hne => absurd rfl hne
  · intro log s a s' os c c' obs b hr _ _ _ _ hb hch hbefore hg'
    refine hb.draining ?_
    cases hch with
    | move hm => exact hbefore fun hidle => hg' (hm.graceful_idle hidle)
    | drain hctl => exact (ctl_inv hr).begun _ _ hctl
    | _ => exact hbefore hg'

/-! ## Subscriptions with a goroutine -/

/-- `s.closed` of the subscription is set. -/
def Bus.Closed (w : Bus) (sub : SubPtr) : Prop :=
  ∃ subscription, w.subs[sub]? = some subscription ∧ subscription.closed = true

theorem BusStep.closed (h : BusStep w b w' os) (hcl : w.Closed sub) : w'.Closed sub := by
  obtain ⟨subscription, hs, hcl⟩ := hcl
  obtain ⟨subscription', hs', hl⟩ := h.later hs
  exact ⟨subscription', hs', hl.closed hcl⟩

/-- The channel is closed by a closer that has set `s.closed`. -/
theorem Bus.closed_of_ended (hinv : ∀ p sub, w.subs[p]? = some sub → w.SubInv p sub)
    (h : ∃ subscription, w.subs[sub]? = some subscription ∧ subscription.events.closed = true) :
    w.Closed sub := by
  obtain ⟨subscription, hs, hcl⟩ := h
  have hsub := hinv sub subscription hs
  exact ⟨subscription, hs, (hsub.finished (hsub.ended.mp hcl)).1⟩

/-- `sub` has a delivery goroutine that has not finished, or is about to get one. -/
def Connection.Live (c : Connection) (sub : SubPtr) : Prop :=
  c.serve = .subscribeSpawn sub ∨ ∃ pc, c.deliveries sub = some pc ∧ pc ≠ .ended

/-- The subscription that `unsubscribe` has removed from `c.subs` and is to close. -/
def ServePc.removing : ServePc → Option SubPtr
  | .unsubscribeCall sub | .unsubscribeWait sub _ => some sub
  | _ => none

/-- The subscriptions that a call of `close` has taken from `c.subs` and is to close. -/
def ClosePc.remaining : ClosePc → List SubPtr
  | .subs todo => todo
  | .wait sub _ todo => sub :: todo
  | _ => []

theorem Connection.mem_stored :
    sub ∈ c.stored ↔ ∃ topic, c.subs.lookup topic = some sub := by
  simp only [Connection.stored, List.mem_map]
  constructor
  · rintro ⟨⟨topic, sub'⟩, hmem, rfl⟩
    exact ⟨topic, AList.mem_lookup_iff.mpr hmem⟩
  · rintro ⟨topic, hl⟩
    exact ⟨⟨topic, sub⟩, AList.mem_lookup_iff.mp hl, rfl⟩

theorem ServePc.not_spawn_of_plain (h : pc.plain = true) :
    pc ≠ .subscribeSpawn sub := by
  rintro rfl
  cases h

private theorem ServeMove.not_spawn {pc' : ServePc} {bus : Option Action} {obs : List ConnObs}
    (h : ServeMove s c a pc pc' bus obs) : pc' ≠ .subscribeSpawn sub := by
  cases h with
  | subscribe | ackInvalid | unsupported | publishDraining | publishAllowed | subscribeError
  | publishReturn | send | sendReport | sendIgnore =>
    exact ServePc.not_spawn_of_plain (by simp)
  | _ => exact nofun

/-- A subscription gets a goroutine after `subscribe` has stored it. -/
theorem ConnMove.live (h : ConnMove s c a out) (hlive : out.conn.Live sub) :
    c.Live sub ∨ (c.serve.held = some sub ∧ c.serve ≠ .subscribeSpawn sub ∧
      ∃ topic, out.conn.subs.lookup topic = some sub) := by
  -- a goroutine that moves had not finished
  have hset : ∀ {sub' pc pc'}, c.deliveries sub' = some pc → pc ≠ .ended →
      (c.serve = .subscribeSpawn sub ∨
        ∃ pc, (c.setDelivery sub' pc').deliveries sub = some pc ∧ pc ≠ .ended) → c.Live sub := by
    intro sub' pc pc' hpc hne hor
    rcases hor with hserve | ⟨pc₁, hpc₁, hne₁⟩
    · exact .inl hserve
    · by_cases hsub : sub = sub'
      · exact .inr ⟨pc, by rw [hsub, hpc], hne⟩
      · rw [Connection.setDelivery_of_ne hsub] at hpc₁
        exact .inr ⟨pc₁, hpc₁, hne₁⟩
  -- `serve` leaves a program counter other than that before the start of the goroutine
  have hserve : ∀ {pc' : ServePc},
      (pc' = .subscribeSpawn sub ∨ ∃ pc, c.deliveries sub = some pc ∧ pc ≠ .ended) →
      pc' ≠ .subscribeSpawn sub → c.Live sub := fun hor hne => .inr (hor.resolve_left hne)
  cases h with
  | serve _ hm => exact .inl (hserve hlive hm.not_spawn)
  | connect => exact .inl (hserve hlive (ServePc.not_spawn_of_plain (plain_connectNext _)))
  | read | acknowledge | unsubscribe | abort => exact .inl (hserve hlive nofun)
  | store hpc | replaced hpc =>
    rcases hlive with hspawn | hdel
    · cases hspawn
      rw [hpc]
      exact .inr ⟨rfl, nofun, _, AList.lookup_insert _⟩
    · exact .inl (.inr hdel)
  | @spawn sub' hpc =>
    rcases hlive with hspawn | ⟨pc, hdel, hne⟩
    · cases hspawn
    · by_cases hsub : sub = sub'
      · rw [hsub]
        exact .inl (.inl hpc)
      · rw [show _ = c.deliveries sub from Connection.setDelivery_of_ne hsub] at hdel
        exact .inl (.inr ⟨pc, hdel, hne⟩)
  | deliver hpc hm =>
    refine .inl (hset hpc ?_ hlive)
    cases hm <;> exact nofun
  | register hpc => exact .inl (hset hpc nofun hlive)
  | acknowledged hpc => exact .inl (hset hpc nofun hlive)
  | leave hpc => exact .inl (hset hpc nofun hlive)
  | endDelivery hpc => exact .inl (hset hpc nofun hlive)
  | _ => exact .inl hlive

/-- What happens to a subscription in `c.subs`: it stays, or `unsubscribe` or `close` takes
    it, or `subscribe` has closed it before it stored another for the topic. -/
theorem ConnMove.kept {topic : Bytes} (h : ConnMove s c a out) (hcalls : c.CallsInv s.bus)
    (hinv : ∀ p sub, s.bus.subs[p]? = some sub → s.bus.SubInv p sub)
    (hl : c.subs.lookup topic = some sub) :
    out.conn.subs.lookup topic = some sub ∨ out.conn.serve.removing = some sub ∨
      (out.conn.closed = true ∧ ∃ closer, sub ∈ (out.conn.closing closer).remaining) ∨
      s.bus.Closed sub := by
  cases h with
  | @store topic' _ _ hnone =>
    left
    have hne : topic ≠ topic' := by
      rintro rfl
      rw [hl] at hnone
      cases hnone
    rw [AList.lookup_insert_ne hne]
    exact hl
  | @replaced topic' sub' old call r hpc hret =>
    by_cases ht : topic = topic'
    · subst ht
      have hold := hcalls.old topic old (by rw [hpc]; rfl)
      rw [hl, Option.some.injEq] at hold
      subst hold
      have hrun := hcalls.serve call (.closeSubscription sub) (by rw [hpc]; rfl)
      exact .inr (.inr (.inr (Bus.closed_of_ended hinv (hrun.closed hret))))
    · left
      rw [AList.lookup_insert_ne ht]
      exact hl
  | @unsubscribe _ message sub' _ _ _ hl' =>
    by_cases ht : topic = message.topic
    · subst ht
      rw [hl, Option.some.injEq] at hl'
      exact .inr (.inl (by rw [hl']; rfl))
    · left
      rw [AList.lookup_erase_ne ht]
      exact hl
  | @closeStart closer order _ _ _ hperm =>
    refine .inr (.inr (.inl ⟨rfl, closer, ?_⟩))
    show sub ∈ ((c.setClosing closer (.subs order)).closing closer).remaining
    rw [Connection.setClosing_self]
    exact hperm.mem_iff.mpr (Connection.mem_stored.mpr ⟨topic, hl⟩)
  | _ => exact .inl hl

/-- `unsubscribe` returns after it has closed the subscription it removed. -/
theorem ConnMove.removing (h : ConnMove s c a out) (hcalls : c.CallsInv s.bus)
    (hinv : ∀ p sub, s.bus.subs[p]? = some sub → s.bus.SubInv p sub)
    (hrem : c.serve.removing = some sub) :
    out.conn.serve.removing = some sub ∨ s.bus.Closed sub := by
  cases h with
  | serve hpc hm =>
    subst hpc
    cases hpc : c.serve with
    | unsubscribeCall sub' =>
      rw [hpc] at hm hrem
      cases hm with
      | unsubscribeCall => exact .inl hrem
    | unsubscribeWait sub' call =>
      rw [hpc] at hm hrem
      cases hrem
      cases hm with
      | unsubscribeReturn hret =>
        have hrun := hcalls.serve call (.closeSubscription sub) (by rw [hpc]; rfl)
        exact .inr (Bus.closed_of_ended hinv (hrun.closed hret))
    | _ =>
      rw [hpc] at hrem
      cases hrem
  | connect _ hpc | read _ hpc | store hpc | replaced hpc | spawn hpc | acknowledge hpc
  | unsubscribe hpc | abort hpc =>
    rw [hpc] at hrem
    cases hrem
  | _ => exact .inl hrem

/-! ## Where a live subscription is to be found -/

/-- A subscription of an open connection whose goroutine has not finished is closed, or
    stored, or `unsubscribe` is about to close it. -/
def Connection.Accounted (c : Connection) (w : Bus) : Prop :=
  ∀ sub, c.Live sub → c.closed = true ∨ w.Closed sub ∨
    (∃ topic, c.subs.lookup topic = some sub) ∨ c.serve.removing = some sub

private theorem ConnMove.accounted {s' : Server} (h : ConnMove s c a out)
    (hb : BusStep s.bus out.bus s'.bus os) (hcalls : c.CallsInv s.bus)
    (hinv : ∀ p sub, s.bus.subs[p]? = some sub → s.bus.SubInv p sub) (hacc : c.Accounted s.bus) :
    out.conn.Accounted s'.bus := by
  intro sub hlive
  rcases h.live hlive with hwas | ⟨-, -, hstored⟩
  · rcases hacc sub hwas with hcl | hcl | ⟨topic, hl⟩ | hrem
    · exact .inl (h.closed_mono hcl)
    · exact .inr (.inl (hb.closed hcl))
    · rcases h.kept hcalls hinv hl with hl | hrem | ⟨hcl, -⟩ | hcl
      · exact .inr (.inr (.inl ⟨topic, hl⟩))
      · exact .inr (.inr (.inr hrem))
      · exact .inl hcl
      · exact .inr (.inl (hb.closed hcl))
    · rcases h.removing hcalls hinv hrem with hrem | hcl
      · exact .inr (.inr (.inr hrem))
      · exact .inr (.inl (hb.closed hcl))
  · exact .inr (.inr (.inl hstored))

/-- Closed subscriptions stay closed whatever the bus does. -/
theorem Connection.Accounted.mono (h : c.Accounted w) (hb : BusStep w b w' os) :
    c.Accounted w' := by
  intro sub hlive
  rcases h sub hlive with hcl | hcl | hrest
  · exact .inl hcl
  · exact .inr (.inl (hb.closed hcl))
  · exact .inr (.inr hrest)

/-- Where live subscriptions are to be found, in every run. -/
theorem accounted_inv (h : (Server.lts config).Reach G log s) (hc : s.connections k = some c) :
    c.Accounted s.bus := by
  refine Server.conn_induct h hc (I := fun _ w c => c.Accounted w) ?_ ?_
  · rintro w sub (hserve | ⟨pc, hpc, -⟩)
    · cases hserve
    · cases hpc
  intro log s a s' os c c' obs b hr _ hc _ _ hb hch hbefore
  cases hch with
  | move hm hbus =>
    exact hm.accounted hbus (calls_inv hr hc) (fun p sub => sub_inv (Server.reach_bus hr)) hbefore
  | _ => exact hbefore.mono hb

/-! ## What gracefulClose has left to close -/

/-- The subscriptions `gracefulClose` has taken from `c.subs` and not closed yet. -/
def GracefulPc.remaining : GracefulPc → Option (List SubPtr)
  | .drain todo => some todo
  | .drainWait sub _ todo => some (sub :: todo)
  | .wait | .unlock | .shutdown | .closeTransport | .closeNet => some []
  | _ => none

/-- The subscription that `serve` has in hand: neither stored nor closed. -/
def Connection.inHand (c : Connection) (w : Bus) : Option SubPtr :=
  match c.serve with
  | .subscribeWait _ call =>
    match w.result call with
    | some (.subscribed sub) => some sub
    | _ => none
  | .subscribeStore _ sub => some sub
  | .unsubscribeCall sub | .unsubscribeWait sub _ =>
    match w.subs[sub]? with
    | some subscription => if subscription.closed then none else some sub
    | none => some sub
  | _ => none

/-- The connection whose subscriptions `gracefulClose` takes with this step. -/
def ServerAction.snapshots : ServerAction → Option ConnId
  | .conn k (.gracefulStart _) => some k
  | _ => none

/-- `serve` has no subscription in hand when `gracefulClose` takes the subscriptions. -/
def CleanSnapshot (s : Server) (a : ServerAction) : Prop :=
  ∀ k ∈ a.snapshots, ∀ c ∈ s.connections k, c.inHand s.bus = none

instance (s : Server) (a : ServerAction) : Decidable (CleanSnapshot s a) :=
  inferInstanceAs (Decidable (∀ k ∈ a.snapshots, ∀ c ∈ s.connections k, c.inHand s.bus = none))

/-- Every live subscription is closed or among those left to close. -/
structure Connection.DrainInv (c : Connection) (w : Bus) : Prop where
  held : ∀ todo, c.graceful.remaining = some todo → ∀ sub, c.Holds w sub →
    c.serve = .subscribeSpawn sub
  live : ∀ todo, c.graceful.remaining = some todo → ∀ sub, c.Live sub →
    w.Closed sub ∨ sub ∈ todo

section Snapshot

variable {s' : Server}

/-- With nothing in hand and `c.mu` free, what `serve` holds is stored. -/
private theorem spawn_of_holds (hmu : c.muHeld = false) (hhand : c.inHand w = none)
    (hh : c.Holds w sub) : c.serve = .subscribeSpawn sub := by
  unfold Connection.inHand at hhand
  unfold Connection.muHeld at hmu
  rcases hh with hheld | ⟨call, hcall, hret⟩
  · cases hserve : c.serve with
    | subscribeSpawn => rw [hserve] at hheld; rw [Option.some.inj hheld]
    | subscribeStore => rw [hserve] at hhand; exact nomatch hhand
    | subscribeReplace => rw [hserve] at hmu; exact nomatch hmu
    | subscribeReplaceWait => rw [hserve] at hmu; exact nomatch hmu
    | _ => rw [hserve] at hheld; exact nomatch hheld
  · cases hserve : c.serve with
    | subscribeWait topic call' =>
      rw [hserve] at hhand hcall
      cases hcall
      simp only [Bus.result_eq_some.mpr hret] at hhand
      cases hhand
    | _ => rw [hserve] at hcall; exact nomatch hcall

/-- With nothing in hand, what `unsubscribe` has removed is closed. -/
private theorem closed_of_removing (hhand : c.inHand w = none)
    (hrem : c.serve.removing = some sub) : w.Closed sub := by
  -- the two program counters of `unsubscribe` look at the same flag
  have hclosed : (match w.subs[sub]? with
      | some subscription => if subscription.closed then none else some sub
      | none => some sub) = none → w.Closed sub := by
    intro h
    split at h
    · rename_i subscription hs
      split at h
      · exact ⟨subscription, hs, ‹_›⟩
      · cases h
    · cases h
  unfold Connection.inHand at hhand
  cases hserve : c.serve with
  | unsubscribeCall | unsubscribeWait =>
    rw [hserve] at hhand hrem
    cases hrem
    exact hclosed hhand
  | _ => rw [hserve] at hrem; exact nomatch hrem

/-- What `gracefulClose` has left: less by a closed subscription, or what it has just taken. -/
private theorem ConnMove.remaining {todo' : List SubPtr} (h : ConnMove s c a out)
    (hcalls : c.CallsInv s.bus)
    (hinv : ∀ p sub, s.bus.subs[p]? = some sub → s.bus.SubInv p sub)
    (hrem : out.conn.graceful.remaining = some todo') :
    (∃ todo, c.graceful.remaining = some todo ∧ ∀ sub ∈ todo, s.bus.Closed sub ∨ sub ∈ todo') ∨
    (a = .gracefulStart todo' ∧ c.muHeld = false ∧ c.closed = false ∧ todo'.Perm c.stored ∧
      out.conn.serve = c.serve ∧ out.conn.deliveries = c.deliveries ∧ out.bus = none) := by
  cases h with
  | graceful hpc hm =>
    left
    cases hm with
    | already | closed => cases hrem
    | drain =>
      cases hrem
      exact ⟨_, by rw [hpc]; rfl, fun _ => .inr⟩
    | @drained sub call todo r hret hok =>
      cases hrem
      refine ⟨sub :: todo', by rw [hpc]; rfl, fun sub' hmem => ?_⟩
      rcases List.mem_cons.mp hmem with rfl | hmem
      · obtain ⟨ctx, hrun⟩ := hcalls.graceful _ _ _ hpc
        exact .inl (Bus.closed_of_ended hinv (hrun.drained hret hok))
      · exact .inr hmem
    | lock | wait | unlock | tooLong | send | sendFails =>
      cases hrem
      exact ⟨[], by rw [hpc]; rfl, nofun⟩
  | gracefulStart _ hmu hopen hperm =>
    cases hrem
    exact .inr ⟨rfl, hmu, hopen, hperm, rfl, rfl, rfl⟩
  | drainFailed => cases hrem
  | closeTransport hpc =>
    cases hrem
    exact .inl ⟨[], by rw [hpc]; rfl, nofun⟩
  | gracefulNet => cases hrem
  | _ => exact .inl ⟨todo', hrem, fun _ => .inr⟩

private theorem ConnMove.drainInv (h : ConnMove s c a out) (hb : BusStep s.bus out.bus s'.bus os)
    (hcalls : c.CallsInv s.bus)
    (hsub : ∀ p sub, s.bus.subs[p]? = some sub → s.bus.SubInv p sub)
    (hacc : c.Accounted s.bus) (hfresh : ∀ sub, out.conn.Holds s'.bus sub →
      out.conn.deliveries sub = none)
    (hguard : ∀ order, a = .gracefulStart order → c.inHand s.bus = none)
    (hinv : c.DrainInv s.bus) : out.conn.DrainInv s'.bus where
  held todo' hrem sub hh := by
    rcases h.remaining hcalls hsub hrem with ⟨todo, hrem₀, -⟩ | ⟨ha, hmu, -, -, hserve, -⟩
    · have hspawn := hinv.held todo hrem₀ sub (h.holds hb hh)
      rcases h.spawned hspawn with hserve | hran
      · exact hserve
      · rw [hfresh sub hh] at hran
        cases hran
    · rw [hserve]
      exact spawn_of_holds hmu (hguard _ ha) (h.holds hb hh)
  live todo' hrem sub hlive := by
    rcases h.remaining hcalls hsub hrem with
      ⟨todo, hrem₀, htodo⟩ | ⟨ha, hmu, hopen, hperm, hserve, hdel, -⟩
    · rcases h.live hlive with hwas | ⟨hheld, hne, -⟩
      · rcases hinv.live todo hrem₀ sub hwas with hcl | hmem
        · exact .inl (hb.closed hcl)
        · rcases htodo sub hmem with hcl | hmem
          · exact .inl (hb.closed hcl)
          · exact .inr hmem
      · -- a subscription stored only now would have been in hand
        exact absurd (hinv.held todo hrem₀ sub (.inl hheld)) hne
    · unfold Connection.Live at hlive
      rw [hserve, hdel] at hlive
      rcases hacc sub hlive with hcl | hcl | hl | hremoving
      · rw [hopen] at hcl
        cases hcl
      · exact .inl (hb.closed hcl)
      · exact .inr (hperm.mem_iff.mpr (Connection.mem_stored.mpr hl))
      · exact .inl (hb.closed (closed_of_removing (hguard _ ha) hremoving))

end Snapshot

/-- A connection that does not move: `Subscribe` fails, since the broker drains. -/
theorem Connection.DrainInv.frame {c' : Connection} (h : c.DrainInv w) (hb : BusStep w b w' os)
    (hdraining : c.graceful ≠ .idle → w.broker.draining = true) (hserve : c'.serve = c.serve)
    (hdel : c'.deliveries = c.deliveries) (hgraceful : c'.graceful = c.graceful) :
    c'.DrainInv w' where
  held todo hrem sub hh := by
    rw [hgraceful] at hrem
    unfold Connection.Holds at hh
    rw [hserve] at hh ⊢
    rcases hh with hheld | ⟨call, hcall, hret⟩
    · exact h.held todo hrem sub (.inl hheld)
    rcases hb.subscribed hret with hold | ⟨-, -, -, hopen⟩
    · exact h.held todo hrem sub (.inr ⟨call, hcall, hold⟩)
    · have hidle : c.graceful ≠ .idle := fun hidle => by
        rw [hidle] at hrem
        cases hrem
      rw [hdraining hidle] at hopen
      cases hopen
  live todo hrem sub hlive := by
    rw [hgraceful] at hrem
    unfold Connection.Live at hlive
    rw [hserve, hdel] at hlive
    rcases h.live todo hrem sub hlive with hcl | hmem
    · exact .inl (hb.closed hcl)
    · exact .inr hmem

/-- What `gracefulClose` has left to close, in every run. -/
theorem drain_inv (h : (Server.lts config).Reach CleanSnapshot log s)
    (hc : s.connections k = some c) : c.DrainInv s.bus := by
  refine Server.conn_induct h hc (I := fun _ w c => c.DrainInv w) (fun _ => ⟨nofun, nofun⟩) ?_
  intro log s a s' os c c' obs b hr hr' hc hc' hg hb hch hbefore
  have hfresh := (own_inv hr').fresh k c'
  cases hch with
  | move hm hbus =>
    refine hm.drainInv hbus (calls_inv hr hc) (fun p sub => sub_inv (Server.reach_bus hr))
      (accounted_inv hr hc) (fun sub => hfresh sub hc') ?_ hbefore
    rintro order rfl
    exact hg k rfl c hc
  | drain => exact ⟨nofun, nofun⟩
  | _ => exact hbefore.frame hb (graceful_draining hr hc) rfl rfl rfl

/-- In a run in which `serve` has no subscription in hand whenever `gracefulClose` takes the
    subscriptions: while `gracefulClose` waits for the delivery goroutines, every one that has
    not finished belongs to a closed subscription. -/
theorem awaited_closed (config : Config) (log : List ServerObs) (s : Server)
    (h : (Server.lts config).Reach CleanSnapshot log s) (k : ConnId) (c : Connection)
    (hc : s.connections k = some c) (hwait : c.graceful = .wait) (sub : SubPtr) (pc : DeliverPc)
    (hdel : c.deliveries sub = some pc) (hpc : pc ≠ .ended) :
    ∃ subscription, s.bus.subs[sub]? = some subscription ∧ subscription.closed = true := by
  have hrem : c.graceful.remaining = some [] := by rw [hwait]; rfl
  rcases (drain_inv h hc).live [] hrem sub (.inr ⟨pc, hdel, hpc⟩) with hcl | hmem
  · exact hcl
  · cases hmem

/-- `GracefulShutdown` starts `gracefulClose` of connection `k`, with `call` for
    `BeginShutdown`. -/
def shutdownRun (k : ConnId) (call : CallId) : List ServerAction :=
  [.gracefulShutdown .background [] [k], .beginShutdown call, .bus (.beginShutdown call),
    .beginReturn, .drainConn]

/-- The subscription is drained and closed while its event waits for the ACK, and the wait
    is for the goroutine of that event. -/
theorem awaited_closed_delivering :
    ∃ log s c pc, (Server.lts ⟨1, 0, 0, .block⟩).Reach CleanSnapshot log s ∧
      s.connections 0 = some c ∧ c.graceful = .wait ∧ c.deliveries 0 = some pc ∧ pc ≠ .ended ∧
      ∃ subscription, s.bus.subs[0]? = some subscription ∧ subscription.closed = true := by
  obtain ⟨log, s, hr, c, hc, hwait, pc, hdel, hpc⟩ :=
    Lts.reach_of_runWhere (M := Server.lts ⟨1, 0, 0, .block⟩) (G := CleanSnapshot) rfl
      (subscribeRun 0 0 ++ publishRun 1 [1] 0 ++
        [ServerAction.conn 0 (.deliverReceive 0), .conn 0 (.deliverRegister 0),
          .conn 0 (.deliverSend 0)] ++
        shutdownRun 0 2 ++
        [ServerAction.conn 0 (.gracefulStart [0]), .conn 0 (.gracefulDrain 3), .bus (.drainCheck 3),
          .bus (.closeDeregister 3), .bus (.closeOnce 3), .bus (.closeMark 3), .bus (.closeWait 3),
          .bus (.closeEvents 3), .conn 0 .gracefulDrained, .conn 0 .gracefulLock])
      (Q := fun r => ∃ c ∈ r.1.connections 0, c.graceful = .wait ∧
        ∃ pc ∈ c.deliveries 0, pc ≠ .ended)
      (by decide)
  exact ⟨log, s, c, pc, hr, hc, hwait, hdel, hpc,
    awaited_closed _ log s hr 0 c hc hwait 0 pc hdel hpc⟩

/-- `broker.Subscribe` has returned the subscription before `BeginShutdown`, and `subscribe`
    stores it after `gracefulClose` has taken the subscriptions, none: the wait is for the
    goroutine of an open subscription. -/
theorem open_subscription_awaited :
    ∃ log s, (Server.lts ⟨1, 0, 0, .block⟩).Reach Lts.Always log s ∧
      ∃ c ∈ s.connections 0, c.graceful = .wait ∧ c.serve = .reading ∧
        c.deliveries 0 = some .ranging ∧
        ∃ subscription ∈ s.bus.subs[0]?, subscription.closed = false :=
  Lts.reach_of_runWhere (M := Server.lts ⟨1, 0, 0, .block⟩) (G := Lts.Always) rfl
    ([ServerAction.accept 0, .peerSend 0 ⟨typeConnect, [0, 0]⟩, .conn 0 .serveRead,
        .peerSend 0 ⟨typeSubscribe, [0, 1, 116]⟩, .conn 0 .serveRead, .conn 0 .serveDispatch,
        .conn 0 .subscribeLock, .conn 0 .isDraining, .conn 0 .isDrainingConn,
        .conn 0 (.subscribeCall 0), .bus (.subscribe 0)] ++
      shutdownRun 0 1 ++
      [ServerAction.conn 0 (.gracefulStart []), .conn 0 .subscribeReturn, .conn 0 .subscribeStore,
        .conn 0 .subscribeSpawn, .conn 0 .subscribeUnlock, .conn 0 .gracefulLock])
    (Q := fun r => ∃ c ∈ r.1.connections 0, c.graceful = .wait ∧ c.serve = .reading ∧
      c.deliveries 0 = some .ranging ∧
      ∃ subscription ∈ r.1.bus.subs[0]?, subscription.closed = false)
    (by decide)

end EventBus
