import EventBus.Spec.BrokerFanOut
import EventBus.Spec.ServerTeardown

/-!
# One copy for a connection and topic

A publisher puts its event in the queues of the subscriptions that were registered when it
copied them. A connection that subscribes to a topic again has two registered subscriptions
from the return of `broker.Subscribe` until it has closed the old one, and a publisher that
copies them in between gives the connection two copies (`copied_twice`). Where it does not, it
gives one (`one_copy`).

## Key results

- `filed_inv`: the subscriptions of a connection are filed under their topics
- `one_copy`, `copied_twice`: the copies that a connection gets of one event
-/

namespace EventBus

variable {w w' : Bus} {b : Option Action} {os : List Obs} {sub : SubPtr} {topic : Bytes}
  {pc : ServePc} {s : Server} {c : Connection} {call : CallId} {order : List SubPtr}

/-! ## Topics -/

/-- The topic of subscription `sub`. -/
def Bus.topicOf (w : Bus) (sub : SubPtr) : Option Bytes := w.subs[sub]?.map (·.topic)

/-- A subscription keeps its topic. -/
theorem BusStep.topicOf (h : BusStep w b w' os) (ht : w.topicOf sub = some topic) :
    w'.topicOf sub = some topic := by
  obtain ⟨subscription, hs, rfl⟩ := Option.map_eq_some_iff.mp ht
  obtain ⟨subscription', hs', hlater⟩ := h.later hs
  exact Option.map_eq_some_iff.mpr ⟨subscription', hs', hlater.topic⟩

/-- A registered subscription has the topic under which it is registered. -/
theorem Bus.RegistryInv.topicOf (h : w.RegistryInv) (hreg : sub ∈ w.broker.registered topic) :
    w.topicOf sub = some topic := by
  obtain ⟨id, hentry⟩ := (Broker.mem_registered _ _ _).mp hreg
  obtain ⟨subscription, hs, htopic, -⟩ := h.own topic id sub hentry
  exact Option.map_eq_some_iff.mpr ⟨subscription, hs, htopic⟩

/-- The subscription that `subscribe` is to store, and the topic it is for. -/
def ServePc.filing : ServePc → Option (Bytes × SubPtr)
  | .subscribeStore topic sub | .subscribeReplace topic sub _
  | .subscribeReplaceWait topic sub _ _ => some (topic, sub)
  | _ => none

theorem ServePc.filing_of_plain (h : pc.plain = true) : pc.filing = none := by
  cases pc <;> first | rfl | cases h

/-- The subscriptions of a connection are filed under their topics, and `close` has taken one
    of a topic. -/
structure Connection.FiledInv (c : Connection) (w : Bus) : Prop where
  filing : ∀ topic sub, c.serve.filing = some (topic, sub) → w.topicOf sub = some topic
  stored : ∀ topic sub, c.subs.lookup topic = some sub → w.topicOf sub = some topic
  remaining : ∀ closer sub, sub ∈ (c.closing closer).remaining → ∃ topic,
    w.topicOf sub = some topic ∧ ∀ closer' sub', sub' ∈ (c.closing closer').remaining →
      w.topicOf sub' = some topic → sub' = sub

section Filed

variable {s' : Server} {c' : Connection} {act : ConnAction} {out : Out} {closer : Closer}

theorem ServeMove.filing {pc' : ServePc} {bus : Option Action} {obs : List ConnObs}
    (h : ServeMove s c act pc pc' bus obs) (hpc' : pc'.filing = some (topic, sub)) :
    pc.filing = some (topic, sub) ∨ ∃ call, pc = .subscribeWait topic call ∧
      s.bus.calls call = some (.returned (.subscribed sub)) := by
  cases h with
  | subscribeReturn hret =>
    cases hpc'
    exact .inr ⟨_, rfl, hret⟩
  | subscribeOld | subscribeReplace => exact .inl hpc'
  | subscribe | ackInvalid | unsupported | publishDraining | publishAllowed | subscribeError
  | publishReturn | send | sendReport | sendIgnore =>
    rw [ServePc.filing_of_plain (by simp)] at hpc'
    cases hpc'
  | _ => cases hpc'

/-- `subscribe` stores a subscription for the topic it has subscribed to. -/
theorem ConnMove.filing (h : ConnMove s c act out) (hcalls : c.CallsInv s.bus)
    (hinv : c.FiledInv s.bus) (hout : out.conn.serve.filing = some (topic, sub)) :
    s.bus.topicOf sub = some topic := by
  cases h with
  | serve hpc hm =>
    subst hpc
    rcases hm.filing hout with hold | ⟨call, hpc, hret⟩
    · exact hinv.filing topic sub hold
    · have hruns := hcalls.serve call (.subscribe topic) (by rw [hpc]; rfl)
      obtain ⟨subscription, hs, htopic⟩ := hruns.subscribed hret
      exact Option.map_eq_some_iff.mpr ⟨subscription, hs, htopic⟩
  | connect =>
    rw [ServePc.filing_of_plain (plain_connectNext _)] at hout
    cases hout
  | read | store | replaced | spawn | acknowledge | unsubscribe | abort => cases hout
  | _ => exact hinv.filing topic sub hout

theorem ConnMove.filed (h : ConnMove s c act out) (hinv : c.FiledInv s.bus)
    (hl : out.conn.subs.lookup topic = some sub) : s.bus.topicOf sub = some topic := by
  cases h with
  | @store topic' sub' hpc | @replaced topic' sub' _ _ _ hpc =>
    by_cases ht : topic = topic'
    · subst ht
      rw [AList.lookup_insert, Option.some.injEq] at hl
      exact hinv.filing topic sub (by rw [hpc, ← hl]; rfl)
    · rw [AList.lookup_insert_ne ht] at hl
      exact hinv.stored topic sub hl
  | @unsubscribe _ message =>
    by_cases ht : topic = message.topic
    · subst ht
      rw [AList.lookup_erase] at hl
      cases hl
    · rw [AList.lookup_erase_ne ht] at hl
      exact hinv.stored topic sub hl
  | closeStart => cases hl
  | _ => exact hinv.stored topic sub hl

/-- What a call of `close` has to close it had to close before, or it has just taken it from
    an open connection. -/
theorem ConnMove.remaining_cases (h : ConnMove s c act out)
    (hmem : sub ∈ (out.conn.closing closer).remaining) :
    sub ∈ (c.closing closer).remaining ∨
      (c.closed = false ∧ ∃ topic, c.subs.lookup topic = some sub) := by
  have hset : ∀ {closer' pc}, sub ∈ ((c.setClosing closer' pc).closing closer).remaining →
      (sub ∈ pc.remaining → sub ∈ (c.closing closer').remaining) →
      sub ∈ (c.closing closer).remaining := by
    intro closer' pc hmem hpc
    by_cases hcl : closer = closer'
    · subst hcl
      rw [Connection.setClosing_self] at hmem
      exact hpc hmem
    · rwa [Connection.setClosing_of_ne hcl] at hmem
  cases h with
  | close hpc hm =>
    refine .inl (hset hmem ?_)
    rw [hpc]
    cases hm with
    | already => simp [ClosePc.remaining]
    | sub => exact id
    | subReturn => exact List.mem_cons_of_mem _
  | @closeStart closer' order hpc _ hopen hperm =>
    by_cases hcl : closer = closer'
    · subst hcl
      rw [show _ = ClosePc.subs order from Connection.setClosing_self c closer _] at hmem
      exact .inr ⟨hopen, Connection.mem_stored.mp (hperm.mem_iff.mp hmem)⟩
    · rw [show _ = c.closing closer from Connection.setClosing_of_ne hcl] at hmem
      exact .inl hmem
  | closeNet | abort | drainFailed => exact .inl (hset hmem (by simp [ClosePc.remaining]))
  | _ => exact .inl hmem

/-- A call of `close` that has something to close has closed the connection. -/
theorem Connection.ClosersInv.closed_of_remaining (h : c.ClosersInv)
    (hmem : sub ∈ (c.closing closer).remaining) : c.closed = true := by
  refine h.closed closer ?_ ?_ <;> (intro hpc; rw [hpc] at hmem; cases hmem)

/-- The topics of what `close` has taken do not change. -/
theorem Connection.FiledInv.remaining_step (h : c.FiledInv w) (hb : BusStep w b w' os)
    (hmem : sub ∈ (c.closing closer).remaining) :
    ∃ topic, w'.topicOf sub = some topic ∧ ∀ closer' sub', sub' ∈ (c.closing closer').remaining →
      w'.topicOf sub' = some topic → sub' = sub := by
  obtain ⟨topic, htopic, hone⟩ := h.remaining closer sub hmem
  refine ⟨topic, hb.topicOf htopic, fun closer' sub' hmem' htopic' => ?_⟩
  obtain ⟨topic', ht', -⟩ := h.remaining closer' sub' hmem'
  have heq := (hb.topicOf ht').symm.trans htopic'
  exact hone closer' sub' hmem' (ht'.trans heq)

/-- A step of the connection keeps subscriptions under their topics. -/
theorem ConnMove.filedInv (h : ConnMove s c act out) (hb : BusStep s.bus out.bus s'.bus os)
    (hclosers : c.ClosersInv) (hcalls : c.CallsInv s.bus) (hinv : c.FiledInv s.bus) :
    out.conn.FiledInv s'.bus where
  filing topic sub hout := hb.topicOf (h.filing hcalls hinv hout)
  stored topic sub hl := hb.topicOf (h.filed hinv hl)
  remaining closer sub hmem := by
    -- `close` takes the subscriptions of an open connection, of which it had taken none
    rcases h.remaining_cases hmem with hold | ⟨hopen, topic, hl⟩
    · obtain ⟨topic, htopic, hone⟩ := hinv.remaining_step hb hold
      refine ⟨topic, htopic, fun closer' sub' hmem' htopic' => ?_⟩
      rcases h.remaining_cases hmem' with hold' | ⟨hopen, -⟩
      · exact hone closer' sub' hold' htopic'
      · rw [hclosers.closed_of_remaining hold] at hopen
        cases hopen
    · have htopic := hinv.stored topic sub hl
      refine ⟨topic, hb.topicOf htopic, fun closer' sub' hmem' htopic' => ?_⟩
      rcases h.remaining_cases hmem' with hold' | ⟨-, topic', hl'⟩
      · rw [hclosers.closed_of_remaining hold'] at hopen
        cases hopen
      · have heq := (hb.topicOf (hinv.stored topic' sub' hl')).symm.trans htopic'
        rw [Option.some.inj heq, hl] at hl'
        exact (Option.some.inj hl').symm

end Filed

/-- The subscriptions of a connection are under their topics, in every run. -/
theorem filed_inv {config : Config} {G : Server → ServerAction → Prop} {log : List ServerObs}
    (h : (Server.lts config).Reach G log s) {k : ConnId} (hc : s.connections k = some c) :
    c.FiledInv s.bus := by
  refine Server.conn_induct h hc (I := fun _ w c => c.FiledInv w) ?_ ?_
  · exact fun w => ⟨by simp [newConnection, ServePc.filing], by simp [newConnection],
      by simp [newConnection, ClosePc.remaining]⟩
  intro log s a s' os c c' obs b hr _ hc _ _ hb hch hinv
  -- a connection that has no more to close than before
  have hsame : c'.serve = c.serve → c'.subs = c.subs →
      (∀ closer sub, sub ∈ (c'.closing closer).remaining → sub ∈ (c.closing closer).remaining) →
      c'.FiledInv s'.bus := by
    intro hserve hsubs hclosing
    refine ⟨fun topic sub hf => ?_, fun topic sub hl => ?_, fun closer sub hmem => ?_⟩
    · exact hb.topicOf (hinv.filing topic sub (hserve ▸ hf))
    · exact hb.topicOf (hinv.stored topic sub (hsubs ▸ hl))
    · obtain ⟨topic, htopic, hone⟩ := hinv.remaining_step hb (hclosing closer sub hmem)
      exact ⟨topic, htopic,
        fun closer' sub' hmem' => hone closer' sub' (hclosing closer' sub' hmem')⟩
  cases hch with
  | move hm hmb => exact hm.filedInv hmb (closers_inv hr hc) (calls_inv hr hc) hinv
  | close =>
    refine hsame rfl rfl fun closer sub hmem => ?_
    by_cases hcl : closer = .server
    · subst hcl
      rw [Connection.setClosing_self] at hmem
      cases hmem
    · rwa [Connection.setClosing_of_ne hcl] at hmem
  | _ => exact hsame rfl rfl fun _ _ => id

/-! ## Copies of an event -/

/-- `broker.Subscribe` has returned a subscription for the topic and `subscribe` has not stored
    it yet. -/
def Connection.adds (c : Connection) (w : Bus) (topic : Bytes) : Bool :=
  match c.serve with
  | .subscribeWait topic' call =>
    match w.result call with
    | some (.subscribed _) => topic' = topic
    | _ => false
  | .subscribeStore topic' _ | .subscribeReplace topic' .. | .subscribeReplaceWait topic' .. =>
    topic' = topic
  | _ => false

/-- `unsubscribe` has removed a subscription to the topic and is to close it. -/
def Connection.removes (c : Connection) (w : Bus) (topic : Bytes) : Bool :=
  c.serve.removing.any fun sub => w.topicOf sub = some topic

/-- Where a connection may have a registered subscription to a topic. -/
inductive Spot where
  /-- In the hands of `subscribe`. -/
  | adding
  /-- In `c.subs`. -/
  | stored
  /-- In the hands of `unsubscribe`. -/
  | removing
  /-- In the hands of `close`. -/
  | closing
deriving DecidableEq, Repr

instance {p : Spot → Prop} [DecidablePred p] : Decidable (∀ x, p x) :=
  decidable_of_iff (p .adding ∧ p .stored ∧ p .removing ∧ p .closing) <| by
    constructor
    · rintro ⟨hadding, hstored, hremoving, hclosing⟩ x
      cases x <;> assumption
    · exact fun h => ⟨h _, h _, h _, h _⟩

/-- There may be one: a connection that is not closed has none in the hands of `close`. -/
def Connection.occupied (c : Connection) (w : Bus) (topic : Bytes) : Spot → Bool
  | .adding => c.adds w topic
  | .stored => (c.subs.lookup topic).isSome
  | .removing => c.removes w topic
  | .closing => c.closed

/-- The connection may have a subscription to the topic in one place only. -/
def Connection.Single (c : Connection) (w : Bus) (topic : Bytes) : Prop :=
  ∀ x y, c.occupied w topic x = true → c.occupied w topic y = true → x = y

instance (c : Connection) (w : Bus) (topic : Bytes) : Decidable (c.Single w topic) :=
  inferInstanceAs (Decidable (∀ x y, c.occupied w topic x = true → c.occupied w topic y = true →
    x = y))

/-- The topic whose subscribers a publisher copies with this step. -/
def Server.copies (s : Server) : ServerAction → Option Bytes
  | .bus (.publishEnter call order _) =>
    match s.bus.calls call with
    | some (.publish ev) => if order = [] ∨ s.bus.broker.draining then none else some ev.topic
    | _ => none
  | _ => none

/-- No publisher copies the subscribers of a topic while connection `k` may have two. -/
def CopiesSingle (k : ConnId) (s : Server) (a : ServerAction) : Prop :=
  ∀ topic ∈ s.copies a, ∀ c ∈ s.connections k, c.Single s.bus topic

instance (k : ConnId) (s : Server) (a : ServerAction) : Decidable (CopiesSingle k s a) :=
  inferInstanceAs (Decidable (∀ topic ∈ s.copies a, ∀ c ∈ s.connections k, c.Single s.bus topic))

section Single

variable {sub' : SubPtr}

/-- What `serve` holds, by its program counter. -/
theorem Connection.Holds.cases (h : c.Holds w sub) (hne : c.serve ≠ .subscribeSpawn sub) :
    (∃ topic, c.serve.filing = some (topic, sub)) ∨
      ∃ topic call, c.serve = .subscribeWait topic call ∧
        w.calls call = some (.returned (.subscribed sub)) := by
  rcases h with hheld | ⟨call, hcall, hret⟩
  · cases hpc : c.serve with
    | subscribeStore topic | subscribeReplace topic | subscribeReplaceWait topic =>
      rw [hpc] at hheld
      cases hheld
      exact .inl ⟨topic, rfl⟩
    | subscribeSpawn =>
      rw [hpc] at hheld hne
      cases hheld
      exact absurd rfl hne
    | _ =>
      rw [hpc] at hheld
      cases hheld
  · cases hpc : c.serve with
    | subscribeWait topic call' =>
      rw [hpc] at hcall
      cases hcall
      exact .inr ⟨topic, call, rfl, hret⟩
    | _ =>
      rw [hpc] at hcall
      cases hcall

/-- `serve` holds one subscription at a time. -/
theorem Connection.Holds.unique (h : c.Holds w sub) (h' : c.Holds w sub') : sub = sub' := by
  -- `serve` waits for `broker.Subscribe` or has been given its subscription, not both
  have hexcl : ∀ {call}, c.serve.awaited = some call → c.serve.held = none := by
    intro call hcall
    cases hpc : c.serve <;> first | rfl | (rw [hpc] at hcall; cases hcall)
  rcases h with hheld | ⟨call, hcall, hret⟩
  · rcases h' with hheld' | ⟨call', hcall', -⟩
    · exact Option.some.inj (hheld.symm.trans hheld')
    · rw [hexcl hcall'] at hheld
      cases hheld
  · rcases h' with hheld' | ⟨call', hcall', hret'⟩
    · rw [hexcl hcall] at hheld'
      cases hheld'
    · obtain rfl := Option.some.inj (hcall.symm.trans hcall')
      simpa using hret.symm.trans hret'

/-- The subscription is in this place. -/
def Connection.At (c : Connection) (w : Bus) (topic : Bytes) (sub : SubPtr) : Spot → Prop
  | .adding => c.Holds w sub
  | .stored => c.subs.lookup topic = some sub
  | .removing => c.serve.removing = some sub
  | .closing => ∃ closer, sub ∈ (c.closing closer).remaining

/-- A subscription that can be found is at one of the places for its topic. -/
theorem Connection.Tracked.place (h : c.Tracked w sub) (hfiled : c.FiledInv w)
    (hclosers : c.ClosersInv) (hcalls : c.CallsInv w) (htopic : w.topicOf sub = some topic) :
    ∃ x, c.occupied w topic x = true ∧ c.At w topic sub x := by
  rcases h with ⟨hh, hne⟩ | ⟨topic', hl⟩ | hrem | ⟨closer, hmem⟩
  · refine ⟨.adding, ?_, hh⟩
    show c.adds w topic = true
    unfold Connection.adds
    rcases hh.cases hne with ⟨topic', hf⟩ | ⟨topic', call, hpc, hret⟩
    · obtain rfl := Option.some.inj ((hfiled.filing topic' sub hf).symm.trans htopic)
      cases hpc : c.serve with
      | subscribeStore | subscribeReplace | subscribeReplaceWait =>
        rw [hpc] at hf
        cases hf
        simp
      | _ =>
        rw [hpc] at hf
        cases hf
    · have hruns := hcalls.serve call (.subscribe topic') (by rw [hpc]; rfl)
      obtain ⟨subscription, hs, rfl⟩ := hruns.subscribed hret
      rw [Bus.topicOf, hs] at htopic
      rw [hpc]
      simpa [Bus.result_eq_some.mpr hret] using htopic
  · obtain rfl := Option.some.inj ((hfiled.stored topic' sub hl).symm.trans htopic)
    exact ⟨.stored, by simp [Connection.occupied, hl], hl⟩
  · exact ⟨.removing, by simp [Connection.occupied, Connection.removes, hrem, htopic], hrem⟩
  · exact ⟨.closing, hclosers.closed_of_remaining hmem, closer, hmem⟩

/-- There is one subscription to the topic in a place. -/
theorem Connection.At.unique {x : Spot} (h : c.At w topic sub x) (h' : c.At w topic sub' x)
    (hfiled : c.FiledInv w) (htopic : w.topicOf sub = some topic)
    (htopic' : w.topicOf sub' = some topic) : sub = sub' := by
  cases x with
  | adding => exact Connection.Holds.unique h h'
  | stored | removing => exact Option.some.inj (Eq.trans (Eq.symm h) h')
  | closing =>
    obtain ⟨closer, hmem⟩ := h
    obtain ⟨closer', hmem'⟩ := h'
    obtain ⟨topic', ht, hone⟩ := hfiled.remaining closer sub hmem
    obtain rfl := Option.some.inj (ht.symm.trans htopic)
    exact (hone closer' sub' hmem' htopic').symm

end Single

section Run

variable {config : Config} {k : ConnId} {log : List ServerObs}

/-- A broker that drains does not let a publisher copy the subscribers. -/
theorem Effect.snapshot_open {a : Action} (h : Effect w a w' os) (ho : .snapshot call order ∈ os) :
    w.broker.draining = false := by
  cases h with
  | call _ hm =>
    cases hm with
    | publishCached _ hnot | publishSnapshot _ hnot => exact hnot
    | _ => simp at ho
  | _ => simp at ho

/-- A step that reports a copy of the subscribers is that of a publisher. -/
theorem ServerEffect.snapshot {s' : Server} {a : ServerAction} {os : List ServerObs}
    (h : ServerEffect s a s' os) (ho : .snapshot call order ∈ busLog os) :
    ∃ ev oldest, s.bus.calls call = some (.publish ev) ∧
      a = .bus (.publishEnter call order oldest) ∧ order.Perm (s.bus.broker.registered ev.topic) ∧
      s.bus.broker.draining = false := by
  obtain ⟨b, hb, hact⟩ := h.bus_action
  cases b with
  | none =>
    rw [hb.2] at ho
    cases ho
  | some b =>
    have heff := step_effect hb
    obtain ⟨ev, oldest, hpc, rfl, hperm, -⟩ := heff.snapshot_mem ho
    refine ⟨ev, oldest, hpc, ?_, hperm, ?_⟩
    · rcases hact _ rfl with ha | ⟨_, _, heq⟩ | ⟨_, heq⟩
      · exact ha
      · cases heq
      · cases heq
    · exact heff.snapshot_open ho

/-- In what a publisher has copied, there is one subscription of the connection. -/
theorem copied_single (h : (Server.lts config).Reach (CopiesSingle k) log s)
    (ho : .snapshot call order ∈ busLog log) (hc : s.connections k = some c) {sub' : SubPtr}
    (hmem : sub ∈ order) (hmem' : sub' ∈ order) (hown : c.Owns s.bus sub)
    (hown' : c.Owns s.bus sub') : sub = sub' := by
  have hinv : (∀ sub ∈ order, sub < s.bus.subs.length) ∧ ∀ c, s.connections k = some c →
      ∀ sub ∈ order, ∀ sub' ∈ order, c.Owns s.bus sub → c.Owns s.bus sub' → sub = sub' := by
    refine h.induct_reach (P := fun log s => .snapshot call order ∈ busLog log →
      (∀ sub ∈ order, sub < s.bus.subs.length) ∧ ∀ c, s.connections k = some c →
        ∀ sub ∈ order, ∀ sub' ∈ order, c.Owns s.bus sub → c.Owns s.bus sub' → sub = sub')
      (by simp) ?_ ho
    intro log s a s' os hr hbefore hg hstep ho
    have heff := server_step_effect hstep
    obtain ⟨b, hb⟩ := heff.bus_step
    have hreg := registry_inv (Server.reach_bus hr)
    rw [busLog_append] at ho
    -- what was copied is as old as the copy, and so is what the connection owns of it
    have hbefore' : (∀ sub ∈ order, sub < s.bus.subs.length) ∧ ∀ c, s.connections k = some c →
        ∀ sub ∈ order, ∀ sub' ∈ order, c.Owns s.bus sub → c.Owns s.bus sub' → sub = sub' := by
      rcases List.mem_append.mp ho with hold | hnew
      · exact hbefore hold
      obtain ⟨ev, oldest, hpc, rfl, hperm, hopen⟩ := heff.snapshot hnew
      have hregistered : ∀ {sub}, sub ∈ order → sub ∈ s.bus.broker.registered ev.topic :=
        fun hmem => hperm.mem_iff.mp hmem
      constructor
      · intro sub hmem
        obtain ⟨subscription, hs, -⟩ :=
          Option.map_eq_some_iff.mp (hreg.topicOf (hregistered hmem))
        exact (List.getElem?_eq_some_iff.mp hs).1
      · intro c hc sub hmem sub' hmem' hown hown'
        have htracked : ∀ {sub}, sub ∈ order → c.Owns s.bus sub → c.Tracked s.bus sub := by
          intro sub hmem hown
          rcases tracked_inv hr hc hown with hun | ht
          · exact absurd (hregistered hmem) ((s.bus.unregistered_iff sub).mp hun ev.topic)
          · exact ht
        have hsingle : c.Single s.bus ev.topic := by
          refine hg ev.topic ?_ c hc
          simp [Server.copies, hpc, hopen, List.ne_nil_of_mem hmem]
        have hfiled := filed_inv hr hc
        have hclosers := closers_inv hr hc
        have hcalls := calls_inv hr hc
        have htopic := hreg.topicOf (hregistered hmem)
        have htopic' := hreg.topicOf (hregistered hmem')
        obtain ⟨x, hx, hat⟩ := (htracked hmem hown).place hfiled hclosers hcalls htopic
        obtain ⟨y, hy, hat'⟩ := (htracked hmem' hown').place hfiled hclosers hcalls htopic'
        obtain rfl := hsingle x y hx hy
        exact hat.unique hat' hfiled htopic htopic'
    obtain ⟨halloc, hone⟩ := hbefore'
    refine ⟨fun sub hmem => hb.alloc (halloc sub hmem),
      fun c' hc' sub hmem sub' hmem' hown hown' => ?_⟩
    rcases heff.conn_cases hc' with ⟨-, rfl, -⟩ | ⟨c, _, hc, -, hch⟩
    · exact absurd hown (Connection.not_owns_new _ _)
    have hback : ∀ {sub}, sub ∈ order → c'.Owns s'.bus sub → c.Owns s.bus sub := by
      intro sub hmem hown
      rcases hch.owns hb hown with hold | ⟨hnew, -⟩
      · exact hold
      · rw [hnew] at hmem
        exact absurd (halloc _ hmem) (Nat.lt_irrefl _)
    exact hone c hc sub hmem sub' hmem' (hback hmem hown) (hback hmem' hown')
  exact hinv.2 c hc sub hmem sub' hmem' hown hown'

/-- Where no publisher copies the subscribers of a topic while the connection may have two
    subscriptions to it, each call of `PublishWithResult` puts its event in the queue of at most
    one subscription that the connection has created, once. -/
theorem one_copy (h : (Server.lts config).Reach (CopiesSingle k) log s) {call : CallId}
    {sub sub' : SubPtr} (hput : sub ∈ directs (busLog log) call)
    (hput' : sub' ∈ directs (busLog log) call) (hcreated : FromCall (connLog k log) s.bus sub)
    (hcreated' : FromCall (connLog k log) s.bus sub') :
    sub = sub' ∧ (directs (busLog log) call).count sub = 1 := by
  have hbus := Server.reach_bus h
  -- the queues are those of subscriptions that the call has copied
  obtain ⟨order, ho, hsublist⟩ : ∃ order, .snapshot call order ∈ busLog log ∧
      (directs (busLog log) call).Sublist order := by
    rcases account_cases (account_inv hbus call) with
      ⟨-, hdir, -⟩ | ⟨-, hdir, -⟩ | ⟨sent, todo, hsnap, -, hdir, -⟩
    · rw [hdir] at hput
      cases hput
    · rw [hdir] at hput
      cases hput
    · refine ⟨sent ++ todo, mem_snapshots.mp (by simp [hsnap]), ?_⟩
      rw [hdir]
      exact List.sublist_append_left _ _
  obtain ⟨c, hc⟩ : ∃ c, s.connections k = some c := by
    cases hc : s.connections k with
    | none =>
      obtain ⟨_, _, -, hcall, -⟩ := hcreated
      rw [connLog_eq_nil h hc] at hcall
      cases hcall
    | some c => exact ⟨c, rfl⟩
  refine ⟨?_, ?_⟩
  · exact copied_single h ho hc (hsublist.subset hput) (hsublist.subset hput')
      (created_owns h hc hcreated) (created_owns h hc hcreated')
  · exact List.count_eq_one_of_mem ((snapshot_nodup hbus ho).sublist hsublist) hput

end Run

/-! ## Runs -/

/-- Connection 0 subscribes to the topic `t` again, as call 1, until `broker.Subscribe` has
    returned. -/
private def resubscribeRun : List ServerAction :=
  [.peerSend 0 ⟨typeSubscribe, [0, 1, 116]⟩, .conn 0 .serveRead, .conn 0 .serveDispatch,
    .conn 0 .subscribeLock, .conn 0 .isDraining, .conn 0 .isDrainingConn,
    .conn 0 (.subscribeCall 1), .bus (.subscribe 1)]

/-- The new subscription has replaced the old one when the event is published. -/
theorem one_copy_resubscribed :
    ∃ log s, (Server.lts ⟨1, 0, 0, .block⟩).Reach (CopiesSingle 0) log s ∧
      FromCall (connLog 0 log) s.bus 0 ∧ FromCall (connLog 0 log) s.bus 1 ∧
      directs (busLog log) 3 = [1] ∧ (directs (busLog log) 3).count 1 = 1 := by
  obtain ⟨log, s, hr, hdir, sub₀, hs₀, hcall₀, hret₀, sub₁, hs₁, hcall₁, hret₁⟩ :=
    Lts.reach_of_runWhere (M := Server.lts ⟨1, 0, 0, .block⟩) (G := CopiesSingle 0) rfl
      (subscribeRun 0 0 ++ resubscribeRun ++
        [ServerAction.conn 0 .subscribeReturn, .conn 0 .subscribeStore,
          .conn 0 (.subscribeReplace 2), .bus (.closeDeregister 2), .bus (.closeOnce 2),
          .bus (.closeMark 2), .bus (.closeWait 2), .bus (.closeEvents 2),
          .conn 0 .subscribeReplaced, .conn 0 .subscribeSpawn,
          .conn 0 .subscribeUnlock] ++ publishRun 3 [1] 1)
      (Q := fun r => directs (busLog r.2) 3 = [1] ∧
        (∃ sub ∈ r.1.bus.subs[0]?, .subscribing sub.topic 0 ∈ connLog 0 r.2 ∧
          r.1.bus.calls 0 = some (.returned (.subscribed 0)) ∧
        ∃ sub ∈ r.1.bus.subs[1]?, .subscribing sub.topic 1 ∈ connLog 0 r.2 ∧
          r.1.bus.calls 1 = some (.returned (.subscribed 1))))
      (by decide)
  have hold : FromCall (connLog 0 log) s.bus 0 := ⟨0, sub₀, hs₀, hcall₀, hret₀⟩
  have hnew : FromCall (connLog 0 log) s.bus 1 := ⟨1, sub₁, hs₁, hcall₁, hret₁⟩
  have hput : 1 ∈ directs (busLog log) 3 := by
    rw [show directs (busLog log) 3 = [1] from hdir]
    exact List.mem_singleton_self 1
  exact ⟨log, s, hr, hold, hnew, hdir, (one_copy hr hput hput hnew hnew).2⟩

/-- Another connection publishes when `broker.Subscribe` has registered the new subscription and
    the old one is not closed yet: its event is put in both queues. -/
theorem copied_twice :
    ∃ log s, (Server.lts ⟨1, 0, 0, .block⟩).Reach Lts.Always log s ∧
      FromCall (connLog 0 log) s.bus 0 ∧ FromCall (connLog 0 log) s.bus 1 ∧
      directs (busLog log) 2 = [0, 1] := by
  obtain ⟨log, s, hr, hdir, sub₀, hs₀, hcall₀, hret₀, sub₁, hs₁, hcall₁, hret₁⟩ :=
    Lts.reach_of_runWhere (M := Server.lts ⟨1, 0, 0, .block⟩) (G := Lts.Always) rfl
      (subscribeRun 0 0 ++ resubscribeRun ++
        [ServerAction.accept 1, .peerSend 1 ⟨typeConnect, [0, 0]⟩, .conn 1 .serveRead,
          .peerSend 1 ⟨typePublish, [0, 1, 1, 0, 0, 0, 1, 116, 0, 0, 0, 0, 0, 0]⟩,
          .conn 1 .serveRead, .conn 1 .serveDispatch, .conn 1 .isDraining, .conn 1 .isDrainingConn,
          .conn 1 (.publishCall 2), .bus (.publishEnter 2 [0, 1] []), .bus (.enqueueEnter 2),
          .bus (.enqueueCheck 2), .bus (.enqueueSend 2), .bus (.enqueueReturn 2),
          .bus (.enqueueEnter 2), .bus (.enqueueCheck 2), .bus (.enqueueSend 2),
          .bus (.enqueueReturn 2), .bus (.publishLeave 2 []), .conn 1 .publishReturn])
      (Q := fun r => directs (busLog r.2) 2 = [0, 1] ∧
        (∃ sub ∈ r.1.bus.subs[0]?, .subscribing sub.topic 0 ∈ connLog 0 r.2 ∧
          r.1.bus.calls 0 = some (.returned (.subscribed 0)) ∧
        ∃ sub ∈ r.1.bus.subs[1]?, .subscribing sub.topic 1 ∈ connLog 0 r.2 ∧
          r.1.bus.calls 1 = some (.returned (.subscribed 1))))
      (by decide)
  exact ⟨log, s, hr, ⟨0, sub₀, hs₀, hcall₀, hret₀⟩, ⟨1, sub₁, hs₁, hcall₁, hret₁⟩, hdir⟩

end EventBus
