import EventBus.Spec.BrokerClose
import EventBus.Spec.ServerOutcome
import EventBus.Spec.ServerReturn

/-!
# Closing the broker behind GracefulShutdown

`Broker.Close` discards what is left in the queues. When it is called only after
`GracefulShutdown` has returned (`LateClose`), it finds nothing to discard behind a SHUTDOWN
frame: the delivery goroutines of such a connection have ended, and the queue of one whose
`deliver` did not give up is exhausted.

## Key results

- `discarded_late`: events are discarded only behind `GracefulShutdown`
- `told_kept`: nothing is discarded behind a SHUTDOWN frame, unless `deliver` gave up
-/

namespace EventBus

variable {c : Connection} {call : CallId} {s s' : Server} {a : ServerAction} {os : List ServerObs}
  {sub : SubPtr} {x : Copy} {k : ConnId} {frame : Frame}

/-- A call of `Broker.Close` by another user of the broker. -/
def ServerAction.closesBroker : ServerAction → Bool
  | .bus a => a.closesBroker
  | _ => false

/-- `Broker.Close` is called only when `GracefulShutdown` or `Close` has returned. -/
def LateClose (s : Server) (a : ServerAction) : Prop :=
  a.closesBroker = true → s.ctl = .finished

/-- A connection does not close the broker. -/
theorem ConnMove.not_closeBroker {act : ConnAction} {out : Out} (h : ConnMove s c act out) :
    out.bus ≠ some (.invoke call .closeBroker) := by
  cases h with
  | serve _ hm => cases hm <;> simp
  | deliver _ hm => cases hm <;> simp
  | graceful _ hm => cases hm <;> simp
  | close _ hm => cases hm <;> simp
  | _ => simp

/-- Only another user of the broker closes it. -/
theorem ServerEffect.closesBroker (h : ServerEffect s a s' os)
    (ho : .invoked call .closeBroker ∈ busLog os) : a.closesBroker = true := by
  -- a step that reports the call makes the bus take the step of that name
  have hcalls : ∀ {b : Action} {bus : Bus} {bos : List Obs}, s.bus.step b = some (bus, bos) →
      .invoked call .closeBroker ∈ bos → b = .invoke call .closeBroker :=
    fun hstep hmem => (step_effect hstep).invoked_mem hmem
  cases h with
  | bus _ hstep =>
    rw [busLog_map_bus] at ho
    rw [hcalls hstep ho]
    rfl
  | connBus _ hm hstep =>
    rw [busLog_append, busLog_map_bus, busLog_map_conn, List.append_nil] at ho
    exact absurd (congrArg some (hcalls hstep ho)) hm.not_closeBroker
  | beginShutdown _ hstep =>
    rw [busLog_map_bus] at ho
    cases hcalls hstep ho
  | conn => simp at ho
  | _ => cases ho

/-- A call that has returned stays so. -/
theorem ServerEffect.ctl_finished (h : ServerEffect s a s' os) (hshape : s.CtlShape)
    (hfin : s.ctl = .finished) : s'.ctl = .finished := by
  have hstarted : s.closed = false → False := by
    intro hopen
    rw [hshape.unstarted hopen] at hfin
    cases hfin
  cases h with
  | gracefulShutdown hopen | close hopen => exact (hstarted hopen).elim
  | beginShutdown hctl | beginReturn hctl | drainConn hctl | closeConn hctl
  | closeConnReturn hctl =>
    rw [hfin] at hctl
    cases hctl
  | drainReturn | closeReturn => rfl
  | _ => exact hfin

/-- Nothing is discarded from an exhausted channel. -/
theorem ServerEffect.not_discarded (h : ServerEffect s a s' os) (hex : s.bus.Exhausted sub) :
    .discarded sub x ∉ busLog os := by
  intro ho
  obtain ⟨b, hb⟩ := h.bus_step
  cases b with
  | none =>
    rw [hb.2] at ho
    cases ho
  | some b =>
    obtain ⟨-, -, htaken⟩ := (step_effect hb).exhausted hex
    have hmem : x ∈ taken (busLog os) sub := List.mem_filterMap.mpr ⟨_, ho, by simp⟩
    rw [htaken] at hmem
    cases hmem

/-- Events are discarded by a call that has got into `s.close(false)`. -/
theorem Effect.discards {w w' : Bus} {b : Action} {bos : List Obs} (h : Effect w b w' bos)
    (ho : .discarded sub x ∈ bos) :
    ∃ call pc, w.calls call = some pc ∧ pc.discarding = true := by
  cases h with
  | call hpc hm =>
    cases hm with
    | closeDiscard => exact ⟨_, _, hpc, rfl⟩
    | _ => simp at ho
  | _ => simp at ho

section Run

variable {config : Config} {log : List ServerObs}

/-- Calls discard events only behind `GracefulShutdown`. -/
theorem discarding_late (h : (Server.lts config).Reach LateClose log s) {pc : Pc}
    (hpc : s.bus.calls call = some pc) (hdis : pc.discarding = true) : s.ctl = .finished := by
  refine h.induct_reach (P := fun _ s => ∀ call pc, s.bus.calls call = some pc →
    pc.discarding = true → s.ctl = .finished) ?_ ?_ call pc hpc hdis
  · rintro _ rfl call pc hpc
    cases hpc
  intro log s a s' os hr ih hlate hstep call pc' hpc' hdis
  have heff := server_step_effect hstep
  refine heff.ctl_finished (ctl_shape hr) ?_
  obtain ⟨b, hb⟩ := heff.bus_step
  cases b with
  | none =>
    rw [hb.1] at hpc'
    exact ih call pc' hpc' hdis
  | some b =>
    rcases (step_effect hb).cases_call call with
      ⟨hsame, -⟩ | ⟨op, -, hstart, hos⟩ | ⟨pc₀, pc₁, w₁, hpc₀, hm, hw⟩
    · exact ih call pc' (hsame ▸ hpc') hdis
    · rw [hstart, Option.some.injEq] at hpc'
      subst hpc'
      cases op with
      | closeBroker =>
        exact hlate (heff.closesBroker (by rw [hos]; exact List.mem_singleton_self _))
      | _ => cases hdis
    · rw [hw, Bus.setPc_calls_self, Option.some.injEq] at hpc'
      subst hpc'
      refine ih call pc₀ hpc₀ ?_
      by_contra hnot
      rw [hm.discarding (by simpa using hnot)] at hdis
      cases hdis

/-- A step that discards an event is one of the bus, behind `GracefulShutdown`. -/
theorem discard_step (h : (Server.lts config).Reach LateClose log s)
    (hstep : s.step a = some (s', os)) (ho : .discarded sub x ∈ busLog os) : s.ctl = .finished := by
  have heff := server_step_effect hstep
  obtain ⟨b, hb⟩ := heff.bus_step
  cases b with
  | none =>
    rw [hb.2] at ho
    cases ho
  | some b =>
    obtain ⟨call, pc, hpc, hdis⟩ := (step_effect hb).discards ho
    exact discarding_late h hpc hdis

/-- What every step reports only behind `GracefulShutdown` is reported only there. -/
theorem reported_late {o : Obs} (h : (Server.lts config).Reach LateClose log s)
    (hlast : ∀ {log s a s' os}, (Server.lts config).Reach LateClose log s → LateClose s a →
      s.step a = some (s', os) → o ∈ busLog os → s.ctl = .finished)
    (ho : o ∈ busLog log) : s.ctl = .finished := by
  refine h.induct_reach (P := fun log s => o ∈ busLog log → s.ctl = .finished)
    (fun _ _ ho => nomatch ho) ?_ ho
  intro log s a s' os hr ih hlate hstep ho
  refine (server_step_effect hstep).ctl_finished (ctl_shape hr) ?_
  rw [busLog_append] at ho
  exact (List.mem_append.mp ho).elim ih (hlast hr hlate hstep)

/-- Events are discarded only behind `GracefulShutdown`. -/
theorem discarded_late (h : (Server.lts config).Reach LateClose log s)
    (ho : .discarded sub x ∈ busLog log) : s.ctl = .finished :=
  reported_late h (fun hr _ => discard_step hr) ho

/-- `gracefulClose` writes its SHUTDOWN frame before `GracefulShutdown` returns. -/
theorem told_step {G : Server → ServerAction → Prop} (h : (Server.lts config).Reach G log s)
    (hstep : s.step a = some (s', os)) (ho : .wrote .graceful frame ∈ connLog k os) :
    s.ctl ≠ .finished := by
  intro hfin
  rcases (server_step_effect hstep).conn_change k with ⟨-, hlog, -⟩ | ⟨c, c', hc, -, hch⟩
  · rw [hlog] at ho
    cases ho
  generalize connLog k os = obs at hch ho
  cases hch with
  | move hm =>
    rcases hm.wrote ho with ⟨hw, -⟩ | ⟨-, _, -, -, hpc⟩ | ⟨_, _, hw⟩
    · cases hw
    · rcases graceful_returned h hfin hc with hdone | ⟨hdone, -⟩
      · rw [hpc] at hdone
        cases hdone
      · rw [hpc] at hdone
        cases hdone
    · cases hw
  | _ => cases ho

/-- Nothing is discarded behind a SHUTDOWN frame, unless `deliver` gave up. -/
theorem told_kept (h : (Server.lts config).Reach LateClose log s) (hc : s.connections k = some c)
    (htold : .conn k (.wrote .graceful frame) ∈ log) (hd : c.deliveries sub ≠ none) :
    (∃ x, .delivered sub x false ∈ connLog k log) ∨ ∀ x, .discarded sub x ∉ busLog log := by
  refine h.induct_reach (P := fun log s => ∀ c, s.connections k = some c →
    .conn k (.wrote .graceful frame) ∈ log → c.deliveries sub ≠ none →
    (∃ x, .delivered sub x false ∈ connLog k log) ∨ ∀ x, .discarded sub x ∉ busLog log)
    ?_ ?_ c hc htold hd
  · rintro _ rfl c hc
    cases hc
  intro log s a s' os hr ih _ hstep c' hc' htold hd'
  have heff := server_step_effect hstep
  rw [connLog_append, busLog_append]
  rcases List.mem_append.mp htold with hold | hnew
  · -- the frame is there already: the goroutines of the connection stay as they are
    have htold' : .wrote .graceful frame ∈ connLog k log := mem_connLog.mpr hold
    rcases heff.conn_cases hc' with ⟨hnone, -, -⟩ | ⟨c, obs, hc, -, hch⟩
    · rw [connLog_eq_nil hr hnone] at htold'
      cases htold'
    obtain ⟨-, hsame⟩ := hch.quiet ((shutting_inv hr hc).told frame htold')
    rw [hsame] at hd'
    rcases ih c hc hold hd' with ⟨x, hx⟩ | hnot
    · exact .inl ⟨x, List.mem_append_left _ hx⟩
    rcases told_outcome hr hc hold hd' with ⟨x, hx, -⟩ | ⟨-, -, hex⟩
    · exact .inl ⟨x, List.mem_append_left _ hx⟩
    · refine .inr fun x ho => ?_
      rcases List.mem_append.mp ho with hold | hcur
      · exact hnot x hold
      · exact heff.not_discarded hex hcur
  · -- the frame is written in this step: nothing has been discarded
    have hnot := told_step hr hstep (mem_connLog.mpr hnew)
    refine .inr fun x ho => ?_
    rcases List.mem_append.mp ho with hold | hcur
    · exact hnot (discarded_late hr hold)
    · exact hnot (discard_step hr hstep hcur)

end Run

end EventBus
