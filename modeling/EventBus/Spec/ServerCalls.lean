import EventBus.Spec.ServerOwnership

/-!
# The calls a connection waits for

Each goroutine of a connection that waits for a call of the broker knows which
operation the call was made for, so that `Bus.Runs` gives a meaning to its result.

## Key results

- `calls_inv`: the invariant of every run
-/

namespace EventBus

variable {pc pc' : ServePc} {bus b : Option Action} {obs : List ConnObs} {topic : Bytes}
  {old sub : SubPtr} {todo : List SubPtr} {c : Connection} {closer : Closer} {w w' : Bus}
  {os : List Obs} {s : Server}

/-- The call that `serve` waits for, with its operation. -/
def ServePc.call : ServePc → Option (CallId × Op)
  | .subscribeWait topic call => some (call, .subscribe topic)
  | .subscribeReplaceWait _ _ old call => some (call, .closeSubscription old)
  | .publishWait message call => some (call, .publishWithResult .background message.event)
  | .unsubscribeWait sub call => some (call, .closeSubscription sub)
  | _ => none

/-- The subscription that `subscribe` replaces in `c.subs`, holding `c.mu`. -/
def ServePc.replaces : ServePc → Option (Bytes × SubPtr)
  | .subscribeReplace topic _ old | .subscribeReplaceWait topic _ old _ => some (topic, old)
  | _ => none

theorem ServePc.call_of_plain (h : pc.plain = true) : pc.call = none := by
  cases pc <;> first | rfl | exact nomatch h

theorem ServePc.replaces_of_plain (h : pc.plain = true) : pc.replaces = none := by
  cases pc <;> first | rfl | exact nomatch h

/-- What the goroutines of a connection know about the calls they wait for. -/
structure Connection.CallsInv (c : Connection) (w : Bus) : Prop where
  serve : ∀ call op, c.serve.call = some (call, op) → w.Runs call op
  graceful : ∀ sub call todo, c.graceful = .drainWait sub call todo →
    ∃ ctx, w.Runs call (.drain ctx sub)
  close : ∀ closer sub call todo, c.closing closer = .wait sub call todo →
    w.Runs call (.closeSubscription sub)
  old : ∀ topic old, c.serve.replaces = some (topic, old) → c.subs.lookup topic = some old

section Move

variable {a : ConnAction} {out : Out} {call : CallId} {op : Op}

/-- `serve` waits for the call it has just made. -/
private theorem ServeMove.serveCall (h : ServeMove s c a pc pc' bus obs)
    (hpc' : pc'.call = some (call, op)) :
    bus = some (.invoke call op) := by
  cases h with
  | subscribeCall | subscribeReplace | publishCall | unsubscribeCall =>
    cases hpc'
    rfl
  | subscribe | ackInvalid | unsupported | publishDraining | publishAllowed | subscribeError
  | publishReturn | send | sendReport | sendIgnore =>
    rw [ServePc.call_of_plain (by simp)] at hpc'
    cases hpc'
  | _ => cases hpc'

/-- `subscribe` replaces what it has found in `c.subs`. -/
private theorem ServeMove.replaces (h : ServeMove s c a pc pc' bus obs)
    (hpc' : pc'.replaces = some (topic, old)) :
    pc.replaces = some (topic, old) ∨ c.subs.lookup topic = some old := by
  cases h with
  | subscribeOld hl =>
    cases hpc'
    exact .inr hl
  | subscribeReplace => exact .inl hpc'
  | subscribe | ackInvalid | unsupported | publishDraining | publishAllowed | subscribeError
  | publishReturn | send | sendReport | sendIgnore =>
    rw [ServePc.replaces_of_plain (by simp)] at hpc'
    cases hpc'
  | _ => cases hpc'

/-- `serve` waits for a call that it waited for before, or that it has just made. -/
theorem ConnMove.serveCall (h : ConnMove s c a out)
    (hout : out.conn.serve.call = some (call, op)) :
    c.serve.call = some (call, op) ∨ out.bus = some (.invoke call op) := by
  cases h with
  | serve _ hm => exact .inr (hm.serveCall hout)
  | connect =>
    rw [ServePc.call_of_plain (plain_connectNext _)] at hout
    cases hout
  | read | store | replaced | spawn | acknowledge | unsubscribe | abort => cases hout
  | _ => exact .inl hout

/-- While `subscribe` holds `c.mu` nobody changes `c.subs`. -/
private theorem ConnMove.replaces (h : ConnMove s c a out)
    (hold : ∀ topic old, c.serve.replaces = some (topic, old) → c.subs.lookup topic = some old)
    (hout : out.conn.serve.replaces = some (topic, old)) :
    out.conn.subs.lookup topic = some old := by
  cases h with
  | serve hpc hm =>
    subst hpc
    rcases hm.replaces hout with hwas | hl
    · exact hold topic old hwas
    · exact hl
  | connect =>
    rw [ServePc.replaces_of_plain (plain_connectNext _)] at hout
    cases hout
  | read | store | replaced | spawn | acknowledge | unsubscribe | abort => cases hout
  | closeStart _ hmu =>
    -- `close` takes `c.mu`, so that `subscribe` does not hold it
    unfold Connection.muHeld at hmu
    revert hout
    show c.serve.replaces = _ → _
    unfold ServePc.replaces
    split
    · rename_i hserve
      rw [hserve] at hmu
      cases hmu
    · rename_i hserve
      rw [hserve] at hmu
      cases hmu
    · exact nofun
  | _ => exact hold topic old hout

/-- `gracefulClose` waits for a call that it waited for before, or that it has just made. -/
theorem ConnMove.gracefulCall (h : ConnMove s c a out)
    (hout : out.conn.graceful = .drainWait sub call todo) :
    c.graceful = .drainWait sub call todo ∨
      ∃ ctx, out.bus = some (.invoke call (.drain ctx sub)) := by
  cases h with
  | graceful _ hm =>
    cases hm with
    | drain =>
      cases hout
      exact .inr ⟨_, rfl⟩
    | _ => cases hout
  | gracefulStart | drainFailed | closeTransport | gracefulNet => cases hout
  | _ => exact .inl hout

theorem Connection.setClosing_of_ne {closer' : Closer} {pc : ClosePc} (h : closer' ≠ closer) :
    (c.setClosing closer pc).closing closer' = c.closing closer' := by
  simp [Connection.setClosing, h]

@[simp] theorem Connection.setClosing_self (c : Connection) (closer : Closer) (pc : ClosePc) :
    (c.setClosing closer pc).closing closer = pc := by
  simp [Connection.setClosing]

/-- A call of `close` waits for a call that it waited for before, or has just made. -/
private theorem ConnMove.closeCall (h : ConnMove s c a out)
    (hout : out.conn.closing closer = .wait sub call todo) :
    c.closing closer = .wait sub call todo ∨
      out.bus = some (.invoke call (.closeSubscription sub)) := by
  have hset : ∀ {closer' pc}, (c.setClosing closer' pc).closing closer = .wait sub call todo →
      (∀ sub call todo, pc ≠ .wait sub call todo) → c.closing closer = .wait sub call todo := by
    intro closer' pc hcl hpc
    by_cases hc : closer = closer'
    · subst hc
      rw [Connection.setClosing_self] at hcl
      exact absurd hcl (hpc _ _ _)
    · rwa [Connection.setClosing_of_ne hc] at hcl
  cases h with
  | @close _ closer' pc pc' bus hpc hm =>
    cases hm with
    | sub =>
      by_cases hc : closer = closer'
      · subst hc
        rw [Connection.setClosing_self] at hout
        cases hout
        exact .inr rfl
      · rw [Connection.setClosing_of_ne hc] at hout
        exact .inl hout
    | already | subReturn => exact .inl (hset hout nofun)
  | abort | drainFailed | closeStart | closeNet => exact .inl (hset hout nofun)
  | _ => exact .inl hout

end Move

/-- A call just made runs its operation; a call made before still does. -/
private theorem BusStep.runs_or {call : CallId} {op : Op} (hb : BusStep w b w' os)
    (hinv : ∀ p sub, w.subs[p]? = some sub → w.SubInv p sub)
    (h : w.Runs call op ∨ b = some (.invoke call op)) : w'.Runs call op := by
  rcases h with hr | rfl
  · exact hb.runs hinv hr
  · exact Bus.runs_invoke hb

/-- A step of the connection keeps what it knows about its calls. -/
private theorem ConnMove.callsInv {s' : Server} {a : ConnAction} {out : Out}
    (hm : ConnMove s c a out) (hb : BusStep s.bus out.bus s'.bus os)
    (hsub : ∀ p sub, s.bus.subs[p]? = some sub → s.bus.SubInv p sub) (hinv : c.CallsInv s.bus) :
    out.conn.CallsInv s'.bus where
  serve call op hout := by
    refine hb.runs_or hsub ?_
    rcases hm.serveCall hout with hold | hnew
    · exact .inl (hinv.serve call op hold)
    · exact .inr hnew
  graceful sub call todo hout := by
    rcases hm.gracefulCall hout with hold | ⟨ctx, hnew⟩
    · obtain ⟨ctx, hr⟩ := hinv.graceful sub call todo hold
      exact ⟨ctx, hb.runs hsub hr⟩
    · exact ⟨ctx, hb.runs_or hsub (.inr hnew)⟩
  close closer sub call todo hout := by
    refine hb.runs_or hsub ?_
    rcases hm.closeCall hout with hold | hnew
    · exact .inl (hinv.close closer sub call todo hold)
    · exact .inr hnew
  old topic old hout := hm.replaces hinv.old hout

/-- A connection that waits for no other calls than before. -/
private theorem Connection.CallsInv.frame {c c' : Connection} {w w' : Bus} {b : Option Action}
    {os : List Obs} (hinv : c.CallsInv w) (hb : BusStep w b w' os)
    (hsub : ∀ p sub, w.subs[p]? = some sub → w.SubInv p sub) (hserve : c'.serve = c.serve)
    (hsubs : c'.subs = c.subs)
    (hgraceful : ∀ sub call todo, c'.graceful = .drainWait sub call todo →
      c.graceful = .drainWait sub call todo)
    (hclosing : ∀ closer sub call todo, c'.closing closer = .wait sub call todo →
      c.closing closer = .wait sub call todo) : c'.CallsInv w' where
  serve call op hout := hb.runs hsub (hinv.serve call op (hserve ▸ hout))
  graceful sub call todo hout := by
    obtain ⟨ctx, hr⟩ := hinv.graceful sub call todo (hgraceful sub call todo hout)
    exact ⟨ctx, hb.runs hsub hr⟩
  close closer sub call todo hout :=
    hb.runs hsub (hinv.close closer sub call todo (hclosing closer sub call todo hout))
  old topic old hout := by
    rw [hsubs]
    exact hinv.old topic old (hserve ▸ hout)

/-- What a connection knows about its calls, in every run. -/
theorem calls_inv {config : Config} {G : Server → ServerAction → Prop} {log : List ServerObs}
    (h : (Server.lts config).Reach G log s) {k : ConnId} (hc : s.connections k = some c) :
    c.CallsInv s.bus := by
  refine Server.conn_induct h hc (I := fun _ w c => c.CallsInv w) ?_ ?_
  · exact fun _ => ⟨nofun, nofun, nofun, nofun⟩
  intro log s a s' os c c' obs b hr _ _ _ _ hb hch hbefore
  have hsub : ∀ p sub, s.bus.subs[p]? = some sub → s.bus.SubInv p sub :=
    fun p sub => sub_inv (Server.reach_bus hr)
  cases hch with
  | move hm hbus => exact hm.callsInv hbus hsub hbefore
  | stay | peerSend => exact hbefore.frame hb hsub rfl rfl (fun _ _ _ => id) fun _ _ _ _ => id
  | drain => exact hbefore.frame hb hsub rfl rfl nofun fun _ _ _ _ => id
  | close =>
    refine hbefore.frame hb hsub rfl rfl (fun _ _ _ => id) fun closer sub call todo hcl => ?_
    by_cases hserver : closer = .server
    · subst hserver
      cases hcl
    · rwa [Connection.setClosing_of_ne hserver] at hcl

end EventBus
