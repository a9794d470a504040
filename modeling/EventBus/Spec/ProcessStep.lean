import EventBus.Native.Process
import EventBus.Spec.BrokerState
import EventBus.Spec.ServerDiscard

/-!
# What a step of the process can do

`ProcessEffect flags p a p' os` lists the steps of the process. A shutdown goes through its
stages in one order, whoever asks for it and however often: `Process.Phase log p n` says what
holds of the process while the call of `triggerShutdown` that got into `shutdownOnce` stands
at stage `n`, and that all other calls are before it or behind it.

## Key results

- `process_step_effect`: every step of the process is one of the effects
- `phase_inv`: at every moment the process is in one of the phases
- `Process.reach_server`: a run of the process is one of its server that closes the broker last
-/

namespace EventBus

variable {redirect : Bytes} {t : Nat} {order : List ConnId} {call : CallId} {flags : Flags}
  {p p' : Process} {a : ServerAction} {os log : List ProcessObs} {s s' server : Server}
  {sos : List ServerObs}

/-! ## Effects -/

/-- Every change a step of the process can make, with the observations it reports. -/
inductive ProcessEffect (flags : Flags) (p : Process) :
    ProcessAction → Process → List ProcessObs → Prop
  | server {a : ServerAction} {server : Server} {os : List ServerObs} : p.admits a = true →
      p.server.step a = some (server, os) →
      ProcessEffect flags p (.server a) { p with server := server } (os.map .server)
  | listen : p.accepting = .listen →
      ProcessEffect flags p .listen { p with listener := .listening, accepting := .accept } []
  | listenFails : p.accepting = .listen →
      ProcessEffect flags p .listenFails { p with accepting := .returned true } []
  | acceptFails : p.accepting = .accept →
      ProcessEffect flags p .acceptFails
        { p with accepting := .returned !(p.server.closed || p.listener = .closed) } []
  | refused {method : Method} {redirect : Bytes} : p.adminClosed = false → method ≠ .post →
      ProcessEffect flags p (.request method redirect) p
        [.responded method redirect 405 (ascii "use POST\n")]
  | request {redirect : Bytes} {body : Bytes} : p.adminClosed = false →
      ProcessEffect flags p (.request .post redirect)
        { p with handlers := p.handlers ++ [if redirect = [] then flags.redirect else redirect] }
        [.responded .post redirect 202 body]
  | spawn {i : Nat} {redirect : Bytes} : p.handlers[i]? = some redirect →
      ProcessEffect flags p (.spawn i)
        { p with
          handlers := p.handlers.eraseIdx i
          triggers := p.triggers ++ [.enter redirect] } []
  | signal : p.signalled = false →
      ProcessEffect flags p .signal
        { p with signalled := true, triggers := p.triggers ++ [.enter flags.redirect] } []
  | enter {t : Nat} {redirect : Bytes} : p.triggers[t]? = some (.enter redirect) →
      p.once = .fresh →
      ProcessEffect flags p (.onceDo t) { p.goto t (.shutdown redirect) with once := .running }
        [.entered t redirect]
  | skip {t : Nat} {redirect : Bytes} : p.triggers[t]? = some (.enter redirect) →
      p.once = .finished → ProcessEffect flags p (.onceDo t) (p.goto t .finished) []
  | shutdownClosed {t : Nat} {redirect : Bytes} {order : List ConnId} :
      p.triggers[t]? = some (.shutdown redirect) → p.server.closed = true →
      ProcessEffect flags p (.gracefulShutdown t order) (p.goto t .closeBus) []
  | shutdown {t : Nat} {redirect : Bytes} {order : List ConnId} {server : Server}
      {os : List ServerObs} : p.triggers[t]? = some (.shutdown redirect) →
      p.server.closed = false →
      p.server.step (.gracefulShutdown flags.shutdownCtx redirect order) = some (server, os) →
      ProcessEffect flags p (.gracefulShutdown t order)
        { p.goto t (if p.listener = .unset then .shutdownWait else .closeListener) with
          server := server } (os.map .server)
  | closeListener {t : Nat} : p.triggers[t]? = some .closeListener →
      ProcessEffect flags p (.closeListener t)
        { p.goto t .shutdownWait with listener := .closed } []
  | gracefulReturn {t : Nat} : p.triggers[t]? = some .shutdownWait → p.server.ctl = .finished →
      ProcessEffect flags p (.gracefulReturn t) (p.goto t .closeBus) []
  | closeBus {t : Nat} {call : CallId} {server : Server} {os : List ServerObs} :
      p.triggers[t]? = some .closeBus →
      p.server.step (.bus (.invoke call .closeBroker)) = some (server, os) →
      ProcessEffect flags p (.closeBus t call)
        { p.goto t (.closeBusWait call) with server := server } (os.map .server)
  | closeBusReturn {t : Nat} {call : CallId} {r : Ret} :
      p.triggers[t]? = some (.closeBusWait call) →
      p.server.bus.calls call = some (.returned r) →
      ProcessEffect flags p (.closeBusReturn t) (p.goto t .adminShutdown) []
  | adminShutdown {t : Nat} : p.triggers[t]? = some .adminShutdown →
      ProcessEffect flags p (.adminShutdown t)
        { p.goto t .adminWait with adminClosed := true } []
  | adminReturn {t : Nat} : p.triggers[t]? = some .adminWait → p.handlers = [] →
      ProcessEffect flags p (.adminReturn t) (p.goto t .closeDone) []
  | panic {t : Nat} : p.triggers[t]? = some .closeDone → p.shutdownDone = true →
      ProcessEffect flags p (.closeDone t) (p.goto t .panicked) []
  | closeDone {t : Nat} : p.triggers[t]? = some .closeDone → p.shutdownDone = false →
      ProcessEffect flags p (.closeDone t) { p.goto t .leave with shutdownDone := true }
        [.shutdownDone]
  | onceReturn {t : Nat} : p.triggers[t]? = some .leave →
      ProcessEffect flags p (.onceReturn t) { p.goto t .finished with once := .finished } []
  | mainFailed : p.main = .serving → p.accepting = .returned true →
      ProcessEffect flags p .mainServed { p with main := .exited .serverFailed }
        [.exited .serverFailed]
  | mainServed : p.main = .serving → p.accepting = .returned false →
      ProcessEffect flags p .mainServed { p with main := .waiting } []
  | mainDone : p.main = .waiting → p.shutdownDone = true →
      ProcessEffect flags p .mainDone { p with main := .exited .completed } [.exited .completed]
  | mainTimeout : p.main = .waiting →
      ProcessEffect flags p .mainTimeout { p with main := .exited .timedOut } [.exited .timedOut]

/-- `/shutdown` takes POST and refuses every other method. -/
private theorem request_effect {method : Method}
    (h : p.request flags method redirect = some (p', os)) :
    ProcessEffect flags p (.request method redirect) p' os := by
  unfold Process.request at h
  split at h
  · cases h
  rename_i hopen
  rw [Bool.not_eq_true] at hopen
  split at h
  · rename_i hmethod
    cases h
    exact .refused hopen hmethod
  · rename_i hmethod
    obtain rfl := not_not.mp hmethod
    cases h
    exact .request hopen

/-- `shutdownOnce.Do` runs its function once, and the other calls wait for it. -/
private theorem onceDo_effect (h : p.onceDo t = some (p', os)) :
    ProcessEffect flags p (.onceDo t) p' os := by
  unfold Process.onceDo at h
  split at h
  · rename_i hpc
    split at h
    · rename_i honce
      cases h
      exact .enter hpc honce
    · cases h
    · rename_i honce
      cases h
      exact .skip hpc honce
  · cases h

/-- `triggerShutdown` calls `GracefulShutdown`. -/
private theorem triggerShutdown_effect (h : p.gracefulShutdown flags t order = some (p', os)) :
    ProcessEffect flags p (.gracefulShutdown t order) p' os := by
  unfold Process.gracefulShutdown at h
  split at h
  · rename_i hpc
    split at h
    · rename_i hclosed
      cases h
      exact .shutdownClosed hpc hclosed
    · rename_i hopen
      split at h
      · rename_i hstep
        cases h
        exact .shutdown hpc (by simpa using hopen) hstep
      · cases h
  · cases h

/-- `triggerShutdown` calls `bus.Close`. -/
private theorem closeBus_effect (h : p.closeBus t call = some (p', os)) :
    ProcessEffect flags p (.closeBus t call) p' os := by
  unfold Process.closeBus at h
  split at h
  · rename_i hpc
    split at h
    · rename_i hstep
      cases h
      exact .closeBus hpc hstep
    · cases h
  · cases h

/-- `bus.Close` has returned. -/
private theorem closeBusReturn_effect (h : p.closeBusReturn t = some (p', os)) :
    ProcessEffect flags p (.closeBusReturn t) p' os := by
  unfold Process.closeBusReturn at h
  split at h
  · rename_i hpc
    split at h
    · rename_i hr
      cases h
      exact .closeBusReturn hpc (Bus.result_eq_some.mp hr)
    · cases h
  · cases h

/-- `close(shutdownDone)`, which panics if it has been closed. -/
private theorem closeDone_effect (h : p.closeDone t = some (p', os)) :
    ProcessEffect flags p (.closeDone t) p' os := by
  unfold Process.closeDone at h
  split at h
  · rename_i hpc
    split at h
    · rename_i hdone
      cases h
      exact .panic hpc hdone
    · rename_i hdone
      cases h
      exact .closeDone hpc (by simpa using hdone)
  · cases h

/-- `Serve` has returned to `main`. -/
private theorem mainServed_effect (h : p.mainServed = some (p', os)) :
    ProcessEffect flags p .mainServed p' os := by
  unfold Process.mainServed at h
  split at h
  · rename_i hmain hacc
    cases h
    exact .mainFailed hmain hacc
  · rename_i hmain hacc
    cases h
    exact .mainServed hmain hacc
  · cases h

/-- Every step of the process is one of the effects, and `main` has not returned. -/
theorem process_step_effect {a : ProcessAction} (h : p.step flags a = some (p', os)) :
    ProcessEffect flags p a p' os ∧ ∀ outcome, p.main ≠ .exited outcome := by
  unfold Process.step at h
  split at h
  · cases h
  rename_i hmain
  refine ⟨?_, hmain⟩
  cases a with
  | request => exact request_effect h
  | onceDo => exact onceDo_effect h
  | gracefulShutdown => exact triggerShutdown_effect h
  | closeBus => exact closeBus_effect h
  | closeBusReturn => exact closeBusReturn_effect h
  | closeDone => exact closeDone_effect h
  | mainServed => exact mainServed_effect h
  | server a =>
    simp only [Process.runningStep, Process.serverStep] at h
    split at h
    · rename_i hadm
      split at h
      · rename_i hstep
        cases h
        exact .server hadm hstep
      · cases h
    · cases h
  | listen =>
    simp only [Process.runningStep, Process.listen] at h
    split at h <;> cases h
    exact .listen (by assumption)
  | listenFails =>
    simp only [Process.runningStep, Process.listenFails] at h
    split at h <;> cases h
    exact .listenFails (by assumption)
  | acceptFails =>
    simp only [Process.runningStep, Process.acceptFails] at h
    split at h <;> cases h
    exact .acceptFails (by assumption)
  | spawn =>
    simp only [Process.runningStep, Process.spawn] at h
    split at h <;> cases h
    exact .spawn (by assumption)
  | signal =>
    simp only [Process.runningStep, Process.signal, Option.ite_none_left_eq_some] at h
    cases h.2
    exact .signal (by simpa using h.1)
  | closeListener =>
    simp only [Process.runningStep, Process.closeListener] at h
    split at h <;> cases h
    exact .closeListener (by assumption)
  | gracefulReturn =>
    simp only [Process.runningStep, Process.gracefulReturn] at h
    split at h
    · simp only [Option.ite_none_right_eq_some] at h
      cases h.2
      exact .gracefulReturn (by assumption) h.1
    · cases h
  | adminShutdown =>
    simp only [Process.runningStep, Process.adminShutdown] at h
    split at h <;> cases h
    exact .adminShutdown (by assumption)
  | adminReturn =>
    simp only [Process.runningStep, Process.adminReturn] at h
    split at h
    · simp only [Option.ite_none_right_eq_some] at h
      cases h.2
      exact .adminReturn (by assumption) h.1
    · cases h
  | onceReturn =>
    simp only [Process.runningStep, Process.onceReturn] at h
    split at h <;> cases h
    exact .onceReturn (by assumption)
  | mainDone =>
    simp only [Process.runningStep, Process.mainDone, Process.exit] at h
    split at h
    · simp only [Option.ite_none_right_eq_some] at h
      cases h.2
      exact .mainDone (by assumption) h.1
    · cases h
  | mainTimeout =>
    simp only [Process.runningStep, Process.mainTimeout, Process.exit] at h
    split at h <;> cases h
    exact .mainTimeout (by assumption)

/-! ## The server of the process -/

/-- An observation of the server. -/
def ProcessObs.server? : ProcessObs → Option ServerObs
  | .server o => some o
  | _ => none

/-- What the server reports in a run of the process. -/
def Process.serverLog (log : List ProcessObs) : List ServerObs := log.filterMap ProcessObs.server?

@[simp] theorem Process.serverLog_append (log log' : List ProcessObs) :
    Process.serverLog (log ++ log') = Process.serverLog log ++ Process.serverLog log' :=
  List.filterMap_append

@[simp] theorem Process.serverLog_map (os : List ServerObs) :
    Process.serverLog (os.map .server) = os := by
  simp [Process.serverLog, List.filterMap_map, Function.comp_def, ProcessObs.server?]

theorem Process.mem_serverLog {o : ServerObs} :
    o ∈ Process.serverLog log ↔ .server o ∈ log := by
  simp only [Process.serverLog, List.mem_filterMap]
  constructor
  · rintro ⟨o', ho', heq⟩
    cases o' <;> simp_all [ProcessObs.server?]
  · exact fun ho => ⟨_, ho, rfl⟩

/-- What the steps that the server takes by itself leave as it is. -/
structure Server.Keeps (s s' : Server) : Prop where
  closed : s'.closed = s.closed
  draining : s'.draining = s.draining
  redirect : s'.redirect = s.redirect
  returned : s.ctl = .finished → s'.ctl = .finished
  busClosed : s.bus.broker.closed = true → s'.bus.broker.closed = true

theorem Server.Keeps.refl (s : Server) : s.Keeps s := ⟨rfl, rfl, rfl, id, id⟩

/-- A closed broker stays closed. -/
theorem ServerEffect.bus_closed {os : List ServerObs} (h : ServerEffect s a s' os)
    (hclosed : s.bus.broker.closed = true) :
    s'.bus.broker.closed = true := by
  obtain ⟨b, hb⟩ := h.bus_step
  cases b with
  | none =>
    rw [hb.1]
    exact hclosed
  | some b => exact (step_effect hb).closed_stays hclosed

/-- The server keeps this unless `GracefulShutdown` or `Close` is called. -/
theorem ServerEffect.keeps {os : List ServerObs} (h : ServerEffect s a s' os)
    (hshape : s.CtlShape) (hg : ∀ ctx redirect order, a ≠ .gracefulShutdown ctx redirect order)
    (hc : ∀ order, a ≠ .close order) : s.Keeps s' := by
  have hreturned := h.ctl_finished hshape
  have hbus := h.bus_closed
  cases h with
  | gracefulShutdown => exact absurd rfl (hg _ _ _)
  | close => exact absurd rfl (hc _)
  | _ => exact ⟨rfl, rfl, rfl, hreturned, hbus⟩

/-! ## The stages of a shutdown -/

/-- How far a call of `triggerShutdown` has got. -/
@[simp] def TriggerPc.stage : TriggerPc → Nat
  | .enter _ => 0
  | .shutdown _ => 1
  | .closeListener => 2
  | .shutdownWait => 3
  | .closeBus => 4
  | .closeBusWait _ => 5
  | .adminShutdown => 6
  | .adminWait => 7
  | .closeDone => 8
  | .leave => 9
  | .finished => 10
  | .panicked => 11

/-- Until the shutdown has finished, one call of `triggerShutdown` is at its stage and all
    others are before `Do`. -/
structure Staged (ts : List TriggerPc) (n : Nat) : Prop where
  stage : ∀ pc ∈ ts, pc.stage = 0 ∨ pc.stage = n
  others : n < 10 → ∀ (t t' : Nat) (pc pc' : TriggerPc), ts[t]? = some pc → ts[t']? = some pc' →
    t ≠ t' → pc.stage = 0 ∨ pc'.stage = 0

section Staged

variable {ts : List TriggerPc} {n : Nat} {pc pc' : TriggerPc}

/-- One more call of `triggerShutdown`. -/
theorem Staged.append (h : Staged ts n) (redirect : Bytes) :
    Staged (ts ++ [.enter redirect]) n where
  stage pc hpc := by
    rcases List.mem_append.mp hpc with hold | hnew
    · exact h.stage pc hold
    · rw [List.mem_singleton.mp hnew]
      exact .inl rfl
  others hn t t' pc pc' ht ht' hne := by
    have hget : ∀ {i : Nat} {q : TriggerPc}, (ts ++ [TriggerPc.enter redirect])[i]? = some q →
        ts[i]? = some q ∨ q.stage = 0 := by
      intro i q hi
      by_cases hlt : i < ts.length
      · rw [List.getElem?_append_left hlt] at hi
        exact .inl hi
      · rw [List.getElem?_append_right (by omega)] at hi
        rw [List.mem_singleton.mp (List.mem_of_getElem? hi)]
        exact .inr rfl
    rcases hget ht with hold | hzero
    · rcases hget ht' with hold' | hzero'
      · exact h.others hn t t' pc pc' hold hold' hne
      · exact .inr hzero'
    · exact .inl hzero

/-- When the call at the stage of the shutdown goes on to `pc'`, all others are before `Do`. -/
theorem Staged.get_set (h : Staged ts n) (hn : n < 10) (hpc : ts[t]? = some pc)
    (hstage : pc.stage = n) {i : Nat} {q : TriggerPc} (hi : (ts.set t pc')[i]? = some q) :
    q.stage = 0 ∨ (i = t ∧ q = pc') := by
  by_cases hit : i = t
  · subst hit
    rw [List.getElem?_set_self (List.getElem?_eq_some_iff.mp hpc).1] at hi
    exact .inr ⟨rfl, (Option.some.inj hi).symm⟩
  · rw [List.getElem?_set_ne (Ne.symm hit)] at hi
    refine .inl ?_
    rcases h.others hn t i pc q hpc hi (Ne.symm hit) with h0 | h0
    · rcases h.stage q (List.mem_of_getElem? hi) with hq | hq
      · exact hq
      · omega
    · exact h0

/-- The call at the stage moves to the next one. -/
theorem Staged.advance (h : Staged ts n) (hn : n < 10) (hpc : ts[t]? = some pc)
    (hstage : pc.stage = n) : Staged (ts.set t pc') pc'.stage where
  stage q hq := by
    obtain ⟨i, hi⟩ := List.mem_iff_getElem?.mp hq
    rcases h.get_set hn hpc hstage hi with h0 | ⟨-, rfl⟩
    · exact .inl h0
    · exact .inr rfl
  others _ i j q q' hi hj hne := by
    rcases h.get_set hn hpc hstage hi with h0 | ⟨hit, -⟩
    · exact .inl h0
    · rcases h.get_set hn hpc hstage hj with h0 | ⟨hjt, -⟩
      · exact .inr h0
      · exact absurd (hit.trans hjt.symm) hne

/-- A call that finds the shutdown finished returns. -/
theorem Staged.skip (h : Staged ts 10) : Staged (ts.set t .finished) 10 where
  stage pc hpc := (List.mem_or_eq_of_mem_set hpc).elim (h.stage pc) (fun heq => .inr (heq ▸ rfl))
  others hn := absurd hn (by omega)

end Staged

/-- The process while the shutdown is at stage `n`. -/
structure Process.At (p : Process) (n : Nat) : Prop where
  once : p.once = if n = 0 then .fresh else if n < 10 then .running else .finished
  closed : p.server.closed = decide (2 ≤ n)
  draining : p.server.draining = decide (2 ≤ n)
  returned : 4 ≤ n → p.server.ctl = .finished
  busClosed : 6 ≤ n → p.server.bus.broker.closed = true
  admin : p.adminClosed = decide (7 ≤ n)
  done : p.shutdownDone = decide (9 ≤ n)

/-- What holds of a run while the shutdown is at stage `n`. -/
structure Process.Phase (log : List ProcessObs) (p : Process) (n : Nat) : Prop where
  bound : n ≤ 10
  staged : Staged p.triggers n
  at_stage : p.At n
  calling : ∀ call, .closeBusWait call ∈ p.triggers →
    .invoked call .closeBroker ∈ busLog (Process.serverLog log)
  entering : ∀ t redirect, p.triggers[t]? = some (.shutdown redirect) → .entered t redirect ∈ log
  redirect : 2 ≤ n → ∃ t, .entered t p.server.redirect ∈ log

section Phase

variable {a : ProcessAction} {n : Nat} {pc pc' : TriggerPc}

/-- Steps that leave the shutdown where it is. -/
theorem Process.At.keep (h : p.At n) (hserver : p.server.Keeps p'.server)
    (honce : p'.once = p.once) (hadmin : p'.adminClosed = p.adminClosed)
    (hdone : p'.shutdownDone = p.shutdownDone) : p'.At n where
  once := honce.trans h.once
  closed := hserver.closed.trans h.closed
  draining := hserver.draining.trans h.draining
  returned hn := hserver.returned (h.returned hn)
  busClosed hn := hserver.busClosed (h.busClosed hn)
  admin := hadmin.trans h.admin
  done := hdone.trans h.done

/-- A step that leaves the shutdown at its stage. -/
theorem Process.Phase.keep (h : p.Phase log n) (hserver : p.server.Keeps p'.server)
    (hstaged : Staged p'.triggers n) (hat : p'.At n)
    (hold : ∀ (i : Nat) (q : TriggerPc), p'.triggers[i]? = some q → q.stage ≠ 0 → q.stage ≠ 10 →
      p.triggers[i]? = some q) : p'.Phase (log ++ os) n where
  bound := h.bound
  staged := hstaged
  at_stage := hat
  calling call hmem := by
    obtain ⟨i, hi⟩ := List.mem_iff_getElem?.mp hmem
    have hbefore := h.calling call (List.mem_of_getElem? (hold i _ hi (by simp)
      (by simp)))
    rw [Process.serverLog_append, busLog_append]
    exact List.mem_append_left _ hbefore
  entering t redirect ht := by
    have hbefore := h.entering t redirect (hold t _ ht (by simp)
      (by simp))
    exact List.mem_append_left _ hbefore
  redirect hn := by
    obtain ⟨t, ht⟩ := h.redirect hn
    rw [hserver.redirect]
    exact ⟨t, List.mem_append_left _ ht⟩

/-- The call at the stage of the shutdown goes on to `pc'`. -/
theorem Process.Phase.advance (h : p.Phase log n) (hn : n < 10) (hpc : p.triggers[t]? = some pc)
    (hstage : pc.stage = n) (hts : p'.triggers = p.triggers.set t pc') (hbound : pc'.stage ≤ 10)
    (hat : p'.At pc'.stage)
    (hcalling : ∀ call, pc' = .closeBusWait call →
      .invoked call .closeBroker ∈ busLog (Process.serverLog (log ++ os)))
    (hentering : ∀ redirect, pc' = .shutdown redirect → .entered t redirect ∈ log ++ os)
    (hredirect : 2 ≤ pc'.stage → ∃ t, .entered t p'.server.redirect ∈ log ++ os) :
    p'.Phase (log ++ os) pc'.stage where
  bound := hbound
  staged := by
    rw [hts]
    exact h.staged.advance hn hpc hstage
  at_stage := hat
  calling call hmem := by
    obtain ⟨i, hi⟩ := List.mem_iff_getElem?.mp hmem
    rw [hts] at hi
    rcases h.staged.get_set hn hpc hstage hi with h0 | ⟨-, heq⟩
    · cases h0
    · exact hcalling call heq.symm
  entering i redirect hi := by
    rw [hts] at hi
    rcases h.staged.get_set hn hpc hstage hi with h0 | ⟨rfl, heq⟩
    · cases h0
    · exact hentering redirect heq.symm
  redirect := hredirect

/-- A call that has begun the shutdown of the server goes on to `pc'` and leaves the server
    alone. -/
theorem Process.Phase.go_on (h : p.Phase log n) (hn : 2 ≤ n ∧ n < 10)
    (hpc : p.triggers[t]? = some pc) (hstage : pc.stage = n)
    (hts : p'.triggers = p.triggers.set t pc') (hserver : p'.server = p.server)
    (hpc' : pc'.stage ≠ 1 ∧ pc'.stage ≠ 5 ∧ pc'.stage ≤ 10) (hat : p'.At pc'.stage) :
    p'.Phase (log ++ os) pc'.stage := by
  refine h.advance hn.2 hpc hstage hts hpc'.2.2 hat ?_ ?_ fun _ => ?_
  · rintro _ rfl
    exact absurd rfl hpc'.2.1
  · rintro _ rfl
    exact absurd rfl hpc'.1
  · rw [hserver]
    exact (h.redirect hn.1).imp fun _ ht => List.mem_append_left _ ht

/-- The stage of a shutdown is the stage of a call that is neither before `Do` nor behind it. -/
theorem Process.Phase.stage_eq (h : p.Phase log n) (hpc : p.triggers[t]? = some pc)
    (hne : pc.stage ≠ 0) : n = pc.stage :=
  ((h.staged.stage pc (List.mem_of_getElem? hpc)).resolve_left hne).symm

/-- A step that leaves the calls of `triggerShutdown` and what they change alone. -/
theorem Process.Phase.stay (h : p.Phase log n) (hserver : p.server.Keeps p'.server)
    (hts : p'.triggers = p.triggers) (honce : p'.once = p.once)
    (hadmin : p'.adminClosed = p.adminClosed) (hdone : p'.shutdownDone = p.shutdownDone) :
    p'.Phase (log ++ os) n :=
  h.keep hserver (hts ▸ h.staged) (h.at_stage.keep hserver honce hadmin hdone)
    fun _ _ hi _ _ => hts ▸ hi

/-- One more call of `triggerShutdown`. -/
theorem Process.Phase.trigger (h : p.Phase log n) (hserver : p'.server = p.server)
    (hts : p'.triggers = p.triggers ++ [.enter redirect]) (honce : p'.once = p.once)
    (hadmin : p'.adminClosed = p.adminClosed) (hdone : p'.shutdownDone = p.shutdownDone) :
    p'.Phase (log ++ os) n := by
  have hkeeps : p.server.Keeps p'.server := hserver ▸ .refl _
  refine h.keep hkeeps (hts ▸ h.staged.append redirect)
    (h.at_stage.keep hkeeps honce hadmin hdone) ?_
  intro i q hi h0 _
  rw [hts] at hi
  by_cases hlt : i < p.triggers.length
  · rwa [List.getElem?_append_left hlt] at hi
  · rw [List.getElem?_append_right (by omega)] at hi
    rw [List.mem_singleton.mp (List.mem_of_getElem? hi)] at h0
    exact absurd rfl h0

theorem ServerAction.not_closesBroker {a : ServerAction} (h : a.isInternal = true) :
    a.closesBroker = false := by
  cases a with
  | bus b => cases b <;> first | rfl | cases h
  | _ => rfl

/-- The first call of `triggerShutdown` gets into `Do`. -/
theorem Process.Phase.enter (h : p.Phase log n) (hpc : p.triggers[t]? = some (.enter redirect))
    (honce : p.once = .fresh) :
    ({ p.goto t (.shutdown redirect) with once := .running } : Process).Phase
      (log ++ [.entered t redirect]) (TriggerPc.shutdown redirect).stage := by
  have hat := h.at_stage
  -- nobody has got into `Do` before
  obtain rfl : n = 0 := by
    have honce' := hat.once
    rw [honce] at honce'
    split at honce'
    · assumption
    · split at honce' <;> cases honce'
  refine h.advance (by simp) hpc rfl rfl (by simp) ?_ (by simp) ?_
    (by simp)
  · exact ⟨rfl, hat.closed, hat.draining, by simp, by simp, hat.admin, hat.done⟩
  · intro redirect' heq
    obtain rfl := TriggerPc.shutdown.inj heq
    exact List.mem_append_right _ (List.mem_singleton.mpr rfl)

/-- A call that comes to `Do` when the shutdown is finished leaves everything as it is. -/
theorem Process.Phase.skip (h : p.Phase log n) (hpc : p.triggers[t]? = some pc)
    (honce : p.once = .finished) : (p.goto t .finished).Phase (log ++ os) 10 := by
  have hat := h.at_stage
  obtain rfl : n = 10 := by
    have honce' := hat.once
    have hbound := h.bound
    rw [honce] at honce'
    split at honce'
    · cases honce'
    · split at honce'
      · cases honce'
      · omega
  refine h.keep (.refl _) h.staged.skip (hat.keep (.refl _) rfl rfl rfl) ?_
  intro i q hi _ h10
  replace hi : (p.triggers.set t .finished)[i]? = some q := hi
  rcases List.getElem?_set_cases hi with ⟨rfl, rfl⟩ | ⟨-, hold⟩
  · exact absurd rfl h10
  · exact hold

/-- The call in `Do` begins `GracefulShutdown`, with a listener to close or without one. -/
theorem Process.Phase.shutdown {redirect : Bytes} {order : List ConnId} {server : Server}
    {sos : List ServerObs} (h : p.Phase log n) (hpc : p.triggers[t]? = some (.shutdown redirect))
    (hstep : p.server.step (.gracefulShutdown flags.shutdownCtx redirect order) =
      some (server, sos)) :
    ∃ n', ({ p.goto t (if p.listener = .unset then .shutdownWait else .closeListener) with
      server := server } : Process).Phase (log ++ os) n' := by
  obtain rfl := h.stage_eq hpc (by simp)
  have hat := h.at_stage
  have hbusy : p.once = .running := hat.once
  have hentered := List.mem_append_left os (h.entering t redirect hpc)
  cases server_step_effect hstep with
  | gracefulShutdown =>
    split <;>
      exact ⟨_, h.advance (by simp) hpc rfl rfl (by simp)
        ⟨hbusy, rfl, rfl, by simp, by simp, hat.admin, hat.done⟩ (by simp) (by simp)
        fun _ => ⟨t, hentered⟩⟩

/-- `GracefulShutdown` has returned, and the call in `Do` calls `Close` of the broker. -/
theorem Process.Phase.closeBus (h : p.Phase log n) (hpc : p.triggers[t]? = some .closeBus)
    (hshape : p.server.CtlShape)
    (hstep : p.server.step (.bus (.invoke call .closeBroker)) = some (server, sos)) :
    ({ p.goto t (.closeBusWait call) with server := server } : Process).Phase
      (log ++ sos.map .server) (TriggerPc.closeBusWait call).stage := by
  obtain rfl := h.stage_eq hpc (by simp)
  have hat := h.at_stage
  have hctl := hat.returned (by simp)
  have hkeeps := (server_step_effect hstep).keeps hshape (by simp) (by simp)
  have hinvoked : .invoked call .closeBroker ∈ busLog sos := by
    cases server_step_effect hstep with
    | bus _ hbus =>
      obtain ⟨-, -, -, -, rfl⟩ := Bus.step_invoke hbus
      exact List.mem_singleton.mpr rfl
  refine h.advance (by simp) hpc rfl rfl (by simp) ?_ ?_ (by simp)
    fun _ => ?_
  · exact ⟨hat.once, hkeeps.closed.trans hat.closed, hkeeps.draining.trans hat.draining,
      fun _ => hkeeps.returned hctl, by simp, hat.admin, hat.done⟩
  · intro call' heq
    obtain rfl := TriggerPc.closeBusWait.inj heq
    rw [Process.serverLog_append, Process.serverLog_map, busLog_append]
    exact List.mem_append_right _ hinvoked
  · rw [hkeeps.redirect]
    exact (h.redirect (by simp)).imp fun _ ht => List.mem_append_left _ ht

/-- What the process does to its server is a step of the server; it closes the broker when
    `GracefulShutdown` has returned. -/
theorem ProcessEffect.reach_server (heff : ProcessEffect flags p a p' os)
    (hs : (Server.lts flags.config).Reach LateClose (Process.serverLog log) p.server)
    (hph : p.Phase log n) :
    (Server.lts flags.config).Reach LateClose (Process.serverLog (log ++ os)) p'.server := by
  rw [Process.serverLog_append]
  cases heff with
  | server hadm hstep =>
    rw [Process.serverLog_map]
    refine hs.next (fun hcl => ?_) hstep
    rw [ServerAction.not_closesBroker (Bool.and_eq_true_iff.mp hadm).1] at hcl
    cases hcl
  | @shutdown _ redirect order _ _ _ _ hstep =>
    rw [Process.serverLog_map]
    exact hs.next (a := .gracefulShutdown flags.shutdownCtx redirect order) nofun hstep
  | @closeBus _ call _ _ hpc hstep =>
    obtain rfl := hph.stage_eq hpc (by simp)
    rw [Process.serverLog_map]
    exact hs.next (a := .bus (.invoke call .closeBroker))
      (fun _ => hph.at_stage.returned (by simp)) hstep
  | _ => exact (List.append_nil _).symm ▸ hs

/-- What happens to the shutdown in one step. -/
theorem ProcessEffect.phase (heff : ProcessEffect flags p a p' os)
    (hs : (Server.lts flags.config).Reach LateClose (Process.serverLog log) p.server)
    (hph : p.Phase log n) : ∃ n', p'.Phase (log ++ os) n' := by
  have hshape := ctl_shape hs
  have hat := hph.at_stage
  cases heff with
  | server hadm hstep =>
    have hint := (Bool.and_eq_true_iff.mp hadm).1
    refine ⟨n, hph.stay ((server_step_effect hstep).keeps hshape ?_ ?_) rfl rfl rfl rfl⟩
    · rintro _ _ _ rfl
      cases hint
    · rintro _ rfl
      cases hint
  | listen | listenFails | acceptFails | refused | request | mainFailed | mainServed | mainDone
  | mainTimeout => exact ⟨n, hph.stay (.refl _) rfl rfl rfl rfl⟩
  | spawn | signal => exact ⟨n, hph.trigger rfl rfl rfl rfl rfl⟩
  | enter hpc honce => exact ⟨_, hph.enter hpc honce⟩
  | skip hpc honce => exact ⟨10, hph.skip hpc honce⟩
  | shutdownClosed hpc hclosed =>
    -- the server is not closed before
    obtain rfl := hph.stage_eq hpc (by simp)
    rw [hat.closed] at hclosed
    cases hclosed
  | shutdown hpc _ hstep => exact hph.shutdown hpc hstep
  | closeListener hpc =>
    obtain rfl := hph.stage_eq hpc (by simp)
    exact ⟨_, hph.go_on (by simp) hpc rfl rfl rfl (by simp)
      ⟨hat.once, hat.closed, hat.draining, by simp, by simp, hat.admin, hat.done⟩⟩
  | gracefulReturn hpc hctl =>
    obtain rfl := hph.stage_eq hpc (by simp)
    exact ⟨_, hph.go_on (by simp) hpc rfl rfl rfl (by simp)
      ⟨hat.once, hat.closed, hat.draining, fun _ => hctl, by simp, hat.admin, hat.done⟩⟩
  | closeBus hpc hstep => exact ⟨_, hph.closeBus hpc hshape hstep⟩
  | @closeBusReturn t call r hpc hret =>
    obtain rfl := hph.stage_eq hpc (by simp)
    have hbus : p.server.bus.broker.closed = true :=
      closeBroker_closes (Server.reach_bus hs) (hph.calling call (List.mem_of_getElem? hpc))
        (by rw [hret]; simp)
    exact ⟨_, hph.go_on (by simp) hpc rfl rfl rfl (by simp)
      ⟨hat.once, hat.closed, hat.draining, fun _ => hat.returned (by simp), fun _ => hbus,
        hat.admin, hat.done⟩⟩
  | adminShutdown hpc =>
    obtain rfl := hph.stage_eq hpc (by simp)
    exact ⟨_, hph.go_on (by simp) hpc rfl rfl rfl (by simp)
      ⟨hat.once, hat.closed, hat.draining, fun _ => hat.returned (by simp),
        fun _ => hat.busClosed (by simp), rfl, hat.done⟩⟩
  | adminReturn hpc =>
    obtain rfl := hph.stage_eq hpc (by simp)
    exact ⟨_, hph.go_on (by simp) hpc rfl rfl rfl (by simp)
      ⟨hat.once, hat.closed, hat.draining, fun _ => hat.returned (by simp),
        fun _ => hat.busClosed (by simp), hat.admin, hat.done⟩⟩
  | panic hpc hdone =>
    -- nobody has closed the channel before
    obtain rfl := hph.stage_eq hpc (by simp)
    rw [hat.done] at hdone
    cases hdone
  | closeDone hpc =>
    obtain rfl := hph.stage_eq hpc (by simp)
    exact ⟨_, hph.go_on (by simp) hpc rfl rfl rfl (by simp)
      ⟨hat.once, hat.closed, hat.draining, fun _ => hat.returned (by simp),
        fun _ => hat.busClosed (by simp), hat.admin, rfl⟩⟩
  | onceReturn hpc =>
    obtain rfl := hph.stage_eq hpc (by simp)
    exact ⟨_, hph.go_on (by simp) hpc rfl rfl rfl (by simp)
      ⟨rfl, hat.closed, hat.draining, fun _ => hat.returned (by simp),
        fun _ => hat.busClosed (by simp), hat.admin, hat.done⟩⟩

end Phase

section Run

variable {G : Process → ProcessAction → Prop}

/-- The server of the process runs as a server does, and the shutdown is at one stage. -/
theorem process_inv (h : (Process.lts flags).Reach G log p) :
    (Server.lts flags.config).Reach LateClose (Process.serverLog log) p.server ∧
      ∃ n, p.Phase log n := by
  refine h.invariant (P := fun log p =>
    (Server.lts flags.config).Reach LateClose (Process.serverLog log) p.server ∧
      ∃ n, p.Phase log n) ?_ ?_
  · rintro _ rfl
    refine ⟨⟨_, rfl, .refl _⟩, 0, by simp, ⟨nofun, ?_⟩, ?_, nofun, ?_, nofun⟩
    · intro _ t t' pc pc' ht
      cases ht
    · exact ⟨rfl, rfl, rfl, nofun, nofun, rfl, rfl⟩
    · intro t redirect ht
      cases ht
  · rintro log p a p' os ⟨hs, n, hph⟩ - hstep
    have heff := (process_step_effect hstep).1
    exact ⟨heff.reach_server hs hph, heff.phase hs hph⟩

/-- A run of the process is one of its server, in which the broker is closed last. -/
theorem Process.reach_server (h : (Process.lts flags).Reach G log p) :
    (Server.lts flags.config).Reach LateClose (Process.serverLog log) p.server :=
  (process_inv h).1

/-- At every moment the shutdown is at one of its stages. -/
theorem phase_inv (h : (Process.lts flags).Reach G log p) : ∃ n, p.Phase log n :=
  (process_inv h).2

end Run

end EventBus
