import Ivy.ForStd.Transition
import Ivy.Native.TklUart

/-!
# Two ports, one task

The calls on the ports, the interrupts and the steps of the receive task interleave. Both ports may
be initialised at a time, but the queue variable and the task can serve one of them only: the one
that was initialised last. If a port is not touched while the other has a callback, a callback is
registered for the port of the queue variable, and the task is not deleted with an event in its
hand, nor lets go of its argument or of a deleted queue too late, then every event of a port with a
callback leads to a call of that callback, and to no other.

## Key results

- `Served.step`: every step with care keeps the invariant
- `Served.drains`: the task gets to every event
- `ports_independent`: what holds in every run with care
-/

namespace Ivy.Spec

open Ivy.Native Ivy.Lts

variable {κ : Type}

/-! ## Steps -/

inductive UartAct (κ : Type)
  | init (port : Fin 2) (cfg : Option UartBaseCfg)
  /-- `tkl_uart_deinit` deletes the driver -/
  | deinit (port : Fin 2)
  | deinitTask
  | deinitReturn
  /-- `tkl_uart_rx_irq_cb_reg` is called and deletes the task -/
  | reg (port : Fin 2) (rxCb : Option κ)
  | regCreate
  | regReturn
  | event (port : Fin 2) (e : UartEvent)
  /-- the task runs for the first time, with `stack` where its argument was -/
  | taskStart (stack : Nat)
  | taskHead
  | taskReceive
  | taskHandle
  deriving DecidableEq, Repr

/-- A step of the task, or the creation of a new one by the call that has deleted the old one. -/
def UartAct.isTask : UartAct κ → Bool
  | .regCreate | .taskStart _ | .taskHead | .taskReceive | .taskHandle => true
  | _ => false

/-- The events queued at a port. -/
def queued (u : TklUart κ) (port : Fin 2) : List UartEvent :=
  match u.driver port with
  | some d => d.events
  | none => []

/-- The event of a port that the task has taken and not handled. -/
def inHand (u : TklUart κ) (port : Fin 2) : List UartEvent :=
  match u.thread with
  | some ⟨.handle source e, _⟩ => if source = port then [e] else []
  | _ => []

/-- The task that handles an event has it in its hand. -/
theorem inHand_handle {u : TklUart κ} {port : Fin 2} {e : UartEvent} {uartNum : Nat}
    (h : u.thread = some ⟨.handle port e, uartNum⟩) : inHand u port = [e] := by
  rw [inHand, h]
  exact if_pos rfl

/-- The data events of a port that are still to be answered. -/
def unanswered (u : TklUart κ) (port : Fin 2) : Nat :=
  (inHand u port ++ queued u port).count .data

/-- The calls `uart_rx_cb[port](port)` made for events of the port. -/
def answered (u : TklUart κ) (port : Fin 2) : Nat :=
  u.log.countP fun call => call.source = port && call.uartNum = port.val

/-- The module with what its callers and interrupts have asked of it. -/
structure UartSystem (κ : Type) where
  uart : TklUart κ
  /-- `tkl_uart_rx_irq_cb_reg` was called with a callback since the port was initialised -/
  registered : Fin 2 → Bool
  /-- how many calls of its callback there must have been once every data event that was waiting
      when it was registered, or was queued since, is answered -/
  due : Fin 2 → Nat

def UartSystem.init : UartSystem κ := ⟨.init, fun _ => false, fun _ => 0⟩

/-- `tkl_uart_rx_irq_cb_reg` returns, with the module in the state `u`. The events that wait for an
    answer now are due, if they were not before. -/
def UartSystem.register (s : UartSystem κ) (port : Fin 2) (rxCb : Option κ) (u : TklUart κ) :
    UartSystem κ where
  uart := u
  registered := Function.update s.registered port (rxCb.isSome && (u.driver port).isSome)
  due :=
    if s.registered port then s.due
    else Function.update s.due port (answered u port + unanswered u port)

/-- A data event that the driver queues is due. -/
def UartSystem.interrupt (s : UartSystem κ) (port : Fin 2) (e : UartEvent) : UartSystem κ where
  uart := s.uart.interrupt port e
  registered := s.registered
  due :=
    if (s.uart.driver port).isSome ∧ (queued s.uart port).length < eventQueueSize then
      Function.update s.due port (s.due port + [e].count .data)
    else s.due

/-- One step of the caller, of an interrupt or of the task; the caller makes one call at a
    time. -/
def uartStep (s : UartSystem κ) : UartAct κ → Option (UartSystem κ)
  | .init port cfg =>
    match s.uart.caller with
    | .idle =>
      match s.uart.uartInit port cfg with
      | (.ok, u) => some { s with uart := u, registered := Function.update s.registered port false }
      | (_, u) => some { s with uart := u }
    | _ => none
  | .deinit port =>
    match s.uart.caller with
    | .idle =>
      some { s with
        uart := s.uart.uartDeinit port, registered := Function.update s.registered port false }
    | _ => none
  | .deinitTask =>
    match s.uart.caller with
    | .deinitTask => some { s with uart := s.uart.uartDeinitTask }
    | _ => none
  | .deinitReturn =>
    match s.uart.caller with
    | .deinitQueue => some { s with uart := s.uart.uartDeinitReturn.2 }
    | _ => none
  | .reg port rxCb =>
    match s.uart.caller with
    | .idle =>
      match s.uart.rxQueue with
      -- the call returns at once
      | none => some (s.register port rxCb (s.uart.rxIrqCbReg port rxCb))
      | some _ => some { s with uart := s.uart.rxIrqCbReg port rxCb }
    | _ => none
  | .regCreate =>
    match s.uart.caller with
    | .regCreate port rxCb => some { s with uart := s.uart.rxIrqCbRegCreate port rxCb }
    | _ => none
  | .regReturn =>
    match s.uart.caller with
    | .registering port rxCb => some (s.register port rxCb (s.uart.rxIrqCbRegReturn port rxCb))
    | _ => none
  | .event port e => some (s.interrupt port e)
  | .taskStart stack =>
    match s.uart.thread with
    | some ⟨.start, _⟩ => some { s with uart := s.uart.readArgs stack }
    | _ => none
  | .taskHead =>
    match s.uart.thread with
    | some ⟨.head, uartNum⟩ => some { s with uart := s.uart.readQueue uartNum }
    | _ => none
  | .taskReceive =>
    match s.uart.thread with
    | some ⟨.receive queue, uartNum⟩ =>
      (s.uart.receive queue uartNum).map fun u => { s with uart := u }
    | _ => none
  | .taskHandle =>
    match s.uart.thread with
    | some ⟨.handle source e, uartNum⟩ => some { s with uart := s.uart.process source e uartNum }
    | _ => none

/-- A port is initialised or given up only while the other has no callback registered. A callback
    is registered for a port that is initialised only while the queue variable has its queue, and is
    replaced only while the task has no event of the port in its hand. The task has read its
    argument when the call that has created it returns, and does not reach for a queue between the
    deletion of the driver and its own. -/
def Care (s : UartSystem κ) : UartAct κ → Prop
  | .init port _ => s.uart.driver port = none → ∀ other ≠ port, s.registered other = false
  | .deinit port => ∀ other ≠ port, s.registered other = false
  | .reg port _ =>
    match s.uart.rxQueue with
    | none => s.uart.driver port = none
    | some queue => queue = port ∧ (s.registered port = true → inHand s.uart port = [])
  | .regReturn => s.uart.thread.map UartTask.pc ≠ some .start
  | .taskReceive =>
    match s.uart.caller with
    | .deinitTask => False
    | _ => True
  | _ => True

instance (s : UartSystem κ) : (a : UartAct κ) → Decidable (Care s a)
  | .init port _ => inferInstanceAs
      (Decidable (s.uart.driver port = none → ∀ other ≠ port, s.registered other = false))
  | .deinit port => inferInstanceAs (Decidable (∀ other ≠ port, s.registered other = false))
  | .reg port _ => by
    unfold Care
    cases s.uart.rxQueue <;> exact inferInstance
  | .regReturn => inferInstanceAs (Decidable (s.uart.thread.map UartTask.pc ≠ some .start))
  | .taskReceive => by
    unfold Care
    cases s.uart.caller <;> exact inferInstance
  | .deinitTask | .deinitReturn | .regCreate | .event _ _ | .taskStart _ | .taskHead
  | .taskHandle => inferInstanceAs (Decidable True)

/-! ## What the ports promise -/

/-- The task on its own gets from `s` to a state where it has called the callback of the port
    once for every data event that was still to be answered, and nothing else. -/
def Drains (s : UartSystem κ) (port : Fin 2) (cb : κ) : Prop :=
  ∃ acts s', (∀ a ∈ acts, a.isTask = true) ∧ Run uartStep (fun _ _ => True) s acts s' ∧
    s'.uart.log = s.uart.log ++ List.replicate (unanswered s.uart port) ⟨port, port, cb⟩

/-- The caller is in `tkl_uart_deinit`. -/
def deinitialising : UartCaller κ → Bool
  | .deinitTask | .deinitQueue => true
  | _ => false

/-- The task is on its way to serve the port, and no other. -/
def ServesPort (u : TklUart κ) (port : Fin 2) (t : UartTask) : Prop :=
  u.rxQueue = some port ∧
    match t.pc with
    | .start => ∃ rxCb, u.caller = .registering port rxCb
    | .head => t.uartNum = port
    | .receive queue => queue = port ∧ t.uartNum = port
    | .handle source _ => source = port ∧ t.uartNum = port
    | .ended => False

/-- The port of the task has no callback: whatever it takes, it makes no call. -/
def Silent (u : TklUart κ) (t : UartTask) : Prop :=
  t.pc ≠ .start ∧ ∃ port : Fin 2, t.uartNum = port ∧ u.rxCb port = none

/-- What the variables are for. A port with a callback registered is that of the queue variable and
    has a task of its own, or is about to get it. -/
structure Served (s : UartSystem κ) : Prop where
  queue : ∀ port, s.uart.rxQueue = some port → deinitialising s.uart.caller = false →
    (s.uart.driver port).isSome = true
  thread : ∀ t, s.uart.thread = some t → Silent s.uart t ∨
    ∃ port, ServesPort s.uart port t ∧ (s.uart.caller = .idle → s.registered port = true)
  waiting : ∀ queue uartNum, s.uart.thread = some ⟨.receive queue, uartNum⟩ →
    s.uart.caller ≠ .deinitTask → (s.uart.driver queue).isSome = true
  creating : ∀ port rxCb, s.uart.caller = .regCreate port rxCb →
    s.uart.rxQueue = some port ∧ s.uart.thread = none
  registering : ∀ port rxCb, s.uart.caller = .registering port rxCb →
    ∃ t, s.uart.thread = some t ∧ ServesPort s.uart port t
  givingUp : deinitialising s.uart.caller = true → ∀ port, s.registered port = false
  deleted : s.uart.caller = .deinitQueue → s.uart.thread = none
  ready : ∀ port, s.registered port = true →
    s.uart.rxQueue = some port ∧ (s.uart.rxCb port).isSome = true ∧
      ((∃ t, s.uart.thread = some t ∧ ServesPort s.uart port t) ∨
        ∃ rxCb, s.uart.caller = .regCreate port rxCb)
  kept : ∀ port, s.registered port = true →
    answered s.uart port + unanswered s.uart port = s.due port
  own : ∀ call ∈ s.uart.log, call.uartNum = call.source
  noFault : s.uart.fault = false

/-- Past its start the task knows its port. -/
theorem ServesPort.uartNum_eq {u : TklUart κ} {port : Fin 2} {t : UartTask}
    (h : ServesPort u port t) (hpc : t.pc ≠ .start) : t.uartNum = port := by
  obtain ⟨-, hserves⟩ := h
  obtain ⟨pc, uartNum⟩ := t
  cases pc with
  | start => exact absurd rfl hpc
  | head => exact hserves
  | receive queue => exact hserves.2
  | handle source e => exact hserves.2
  | ended => exact hserves.elim

/-- Past its start the task does not look at the call any more. -/
theorem ServesPort.of_caller {u : TklUart κ} {port : Fin 2} {t : UartTask} (h : ServesPort u port t)
    (hpc : t.pc ≠ .start) {u' : TklUart κ} (hqueue : u'.rxQueue = u.rxQueue) :
    ServesPort u' port t := by
  obtain ⟨hq, hserves⟩ := h
  refine ⟨hqueue.trans hq, ?_⟩
  obtain ⟨pc, uartNum⟩ := t
  cases pc with
  | start => exact absurd rfl hpc
  | _ => exact hserves

namespace Served

variable {s s' : UartSystem κ} {port : Fin 2}

/-- The task serves the port that has a callback registered. -/
theorem serves_of_registered (h : Served s) {t : UartTask} (ht : s.uart.thread = some t)
    (hreg : s.registered port = true) : ServesPort s.uart port t := by
  -- there is one task variable, so the task of the port is this one
  obtain ⟨-, -, ⟨t', ht', hserves⟩ | ⟨rxCb, hcaller⟩⟩ := h.ready port hreg
  · cases ht.symm.trans ht'
    exact hserves
  · exact nomatch ht.symm.trans (h.creating port rxCb hcaller).2

/-- While the caller is idle, a task that can make calls serves a registered port. -/
theorem silent_of_idle (h : Served s) (hidle : s.uart.caller = .idle)
    (hnone : ∀ port, s.registered port = false) {t : UartTask} (ht : s.uart.thread = some t) :
    Silent s.uart t := by
  obtain hsilent | ⟨port, -, hreg⟩ := h.thread t ht
  · exact hsilent
  · exact nomatch (hnone port).symm.trans (hreg hidle)

/-- If the other port has no callback registered and this one loses its own, none has. -/
theorem update_false {registered : Fin 2 → Bool}
    (hothers : ∀ other ≠ port, registered other = false) (p : Fin 2) :
    Function.update registered port false p = false := by
  by_cases hp : p = port
  · rw [hp, Function.update_self]
  · rw [Function.update_of_ne hp, hothers p hp]

/-- The events of the drivers, when one of them changes. -/
theorem queued_update (u : TklUart κ) (d : UartDriver) (p : Fin 2) :
    queued { u with driver := Function.update u.driver port (some d) } p =
      if p = port then d.events else queued u p := by
  by_cases hp : p = port
  · simp [queued, hp]
  · simp [queued, hp]

/-! ### The caller -/

/-- New contents of the drivers, with the answers that are due then. -/
theorem of_driver (h : Served s) {driver : Fin 2 → Option UartDriver} {due : Fin 2 → Nat}
    (hsome : ∀ p, (driver p).isSome = (s.uart.driver p).isSome)
    (hkept : ∀ p, s.registered p = true →
      answered s.uart p + unanswered { s.uart with driver := driver } p = due p) :
    Served ⟨{ s.uart with driver := driver }, s.registered, due⟩ where
  queue p hq hcaller := (hsome p).trans (h.queue p hq hcaller)
  thread := h.thread
  -- every queue that was there is still there
  waiting q n ht hcaller := (hsome q).trans (h.waiting q n ht hcaller)
  creating := h.creating
  registering := h.registering
  givingUp := h.givingUp
  deleted := h.deleted
  ready := h.ready
  kept := hkept
  own := h.own
  noFault := h.noFault

/-- A new driver takes over the queue variable; no port has a callback registered then. -/
theorem install (h : Served s) {config : UartConfig} (hidle : s.uart.caller = .idle)
    (hd : s.uart.driver port = none) (hothers : ∀ other ≠ port, s.registered other = false) :
    Served { s with
      uart := { s.uart with
        driver := Function.update s.uart.driver port (some ⟨config, []⟩), rxQueue := some port }
      registered := Function.update s.registered port false } := by
  -- no port is registered: the others by assumption, this one as it has no driver
  have hnone : ∀ p, s.registered p = false := by
    intro p
    by_cases hp : p = port
    · by_contra hreg
      have hsome := h.queue p (h.ready p (by simpa using hreg)).1 (by rw [hidle]; rfl)
      rw [hp, hd] at hsome
      exact nomatch hsome
    · exact hothers p hp
  have hupdate := update_false hothers
  -- a driver that was installed stays so
  have hsome : ∀ p, (s.uart.driver p).isSome = true →
      (Function.update s.uart.driver port (some ⟨config, []⟩) p).isSome = true := by
    intro p hp
    by_cases hne : p = port
    · rw [hne, Function.update_self]
      rfl
    · rwa [Function.update_of_ne hne]
  exact {
    queue := by
      rintro p hp -
      cases hp
      show (Function.update s.uart.driver port _ port).isSome = true
      rw [Function.update_self]
      rfl
    -- a task that is left serves no port
    thread := fun t ht => .inl (h.silent_of_idle hidle hnone ht)
    waiting := fun q n ht hcaller => hsome q (h.waiting q n ht hcaller)
    creating := fun p rxCb hcaller => nomatch hidle.symm.trans hcaller
    registering := fun p rxCb hcaller => nomatch hidle.symm.trans hcaller
    givingUp := fun _ => hupdate
    deleted := fun hcaller => nomatch hidle.symm.trans hcaller
    ready := fun p hreg => nomatch (hupdate p).symm.trans hreg
    kept := fun p hreg => nomatch (hupdate p).symm.trans hreg
    own := h.own
    noFault := h.noFault }

/-- `tkl_uart_init` keeps the invariant. -/
theorem init_step (h : Served s) {cfg : Option UartBaseCfg} (hcare : Care s (.init port cfg))
    (hstep : uartStep s (.init port cfg) = some s') : Served s' := by
  simp only [uartStep, TklUart.uartInit] at hstep
  split at hstep
  · rename_i hidle
    cases hcfg : cfg.bind UartBaseCfg.convert with
    | none =>
      rw [hcfg] at hstep
      cases hstep
      exact h
    | some config =>
      rw [hcfg] at hstep
      cases hd : s.uart.driver port with
      | some d =>
        -- the driver is installed already, and only its parameters change
        simp only [hd] at hstep
        cases hstep
        apply h.of_driver
        · intro p
          by_cases hp : p = port
          · rw [hp, Function.update_self, hd]
            rfl
          · rw [Function.update_of_ne hp]
        · intro p hreg
          -- the events in the queue stay
          rw [← h.kept p hreg, unanswered, unanswered, queued_update]
          by_cases hp : p = port
          · rw [if_pos hp, hp, queued, hd]
            rfl
          · rw [if_neg hp]
            rfl
      | none =>
        simp only [hd] at hstep
        cases hstep
        exact h.install hidle hd (hcare hd)
  · exact nomatch hstep

/-- `tkl_uart_deinit` keeps it while it begins, -/
theorem deinit_step (h : Served s) (hcare : Care s (.deinit port))
    (hstep : uartStep s (.deinit port) = some s') : Served s' := by
  simp only [uartStep] at hstep
  split at hstep
  · rename_i hidle
    cases hstep
    have hupdate := update_false hcare
    exact {
      queue := fun p _ hcaller => nomatch hcaller
      -- what the task does now has no consequence: it is deleted next
      thread := by
        intro t ht
        obtain hsilent | ⟨p, ⟨hqueue, hserves⟩, -⟩ := h.thread t ht
        · exact .inl hsilent
        · refine .inr ⟨p, ⟨hqueue, ?_⟩, nofun⟩
          obtain ⟨pc, uartNum⟩ := t
          cases pc with
          | start =>
            obtain ⟨rxCb, hcaller⟩ := hserves
            exact nomatch hidle.symm.trans hcaller
          | _ => exact hserves
      waiting := fun q n _ hcaller => absurd rfl hcaller
      creating := nofun
      registering := nofun
      givingUp := fun _ => hupdate
      deleted := nofun
      ready := fun p hreg => nomatch (hupdate p).symm.trans hreg
      kept := fun p hreg => nomatch (hupdate p).symm.trans hreg
      own := h.own
      noFault := h.noFault }
  · exact nomatch hstep

/-- when the task is deleted -/
theorem deinitTask_step (h : Served s) (hstep : uartStep s .deinitTask = some s') :
    Served s' := by
  simp only [uartStep] at hstep
  split at hstep
  · rename_i hcaller
    cases hstep
    -- no port is registered while one is given up
    have hnone := h.givingUp (by rw [hcaller]; rfl)
    exact {
      queue := fun p _ hdeinit => nomatch hdeinit
      thread := nofun
      waiting := nofun
      creating := nofun
      registering := nofun
      givingUp := fun _ => hnone
      deleted := fun _ => rfl
      ready := fun p hreg => nomatch (hnone p).symm.trans hreg
      kept := fun p hreg => nomatch (hnone p).symm.trans hreg
      own := h.own
      noFault := h.noFault }
  · exact nomatch hstep

/-- and when it returns. -/
theorem deinitReturn_step (h : Served s) (hstep : uartStep s .deinitReturn = some s') :
    Served s' := by
  simp only [uartStep] at hstep
  split at hstep
  · rename_i hcaller
    cases hstep
    -- the task has been deleted, so that no one waits for the queue
    have hnone := h.givingUp (by rw [hcaller]; rfl)
    have hthread := h.deleted hcaller
    exact {
      queue := nofun
      thread := fun t ht => nomatch hthread.symm.trans ht
      waiting := fun q n ht => nomatch hthread.symm.trans ht
      creating := nofun
      registering := nofun
      givingUp := fun _ => hnone
      deleted := nofun
      ready := fun p hreg => nomatch (hnone p).symm.trans hreg
      kept := fun p hreg => nomatch (hnone p).symm.trans hreg
      own := h.own
      noFault := h.noFault }
  · exact nomatch hstep

/-- Without a queue no port has a callback registered, and the call changes nothing. -/
theorem register_none (h : Served s) {rxCb : Option κ} (hqueue : s.uart.rxQueue = none)
    (hd : s.uart.driver port = none) : Served (s.register port rxCb s.uart) := by
  -- without a queue no port is registered
  have hnone : ∀ p, s.registered p = false := by
    intro p
    by_contra hreg
    have hp := (h.ready p (by simpa using hreg)).1
    exact nomatch hqueue.symm.trans hp
  have hupdate : ∀ p, (s.register port rxCb s.uart).registered p = false := by
    intro p
    simp only [UartSystem.register, hd, Option.isSome_none, Bool.and_false]
    exact update_false (fun other _ => hnone other) p
  exact {
    queue := h.queue
    thread := by
      intro t ht
      obtain hsilent | ⟨p, hserves, -⟩ := h.thread t ht
      · exact .inl hsilent
      · exact nomatch hqueue.symm.trans hserves.1
    waiting := h.waiting
    creating := h.creating
    registering := h.registering
    givingUp := fun _ => hupdate
    deleted := h.deleted
    ready := fun p hreg => nomatch (hupdate p).symm.trans hreg
    kept := fun p hreg => nomatch (hupdate p).symm.trans hreg
    own := h.own
    noFault := h.noFault }

/-- `tkl_uart_rx_irq_cb_reg` keeps it while it deletes the old task, -/
theorem reg_step (h : Served s) {rxCb : Option κ} (hcare : Care s (.reg port rxCb))
    (hstep : uartStep s (.reg port rxCb) = some s') : Served s' := by
  simp only [uartStep] at hstep
  split at hstep
  · rename_i hidle
    cases hqueue : s.uart.rxQueue with
    | none =>
      have hcall : s.uart.rxIrqCbReg port rxCb = s.uart := by
        simp only [TklUart.rxIrqCbReg, hqueue]
      simp only [hqueue, hcall] at hstep
      simp only [Care, hqueue] at hcare
      cases hstep
      exact h.register_none hqueue hcare
    | some queue =>
      have hcall : s.uart.rxIrqCbReg port rxCb =
          { s.uart with thread := none, caller := .regCreate port rxCb } := by
        simp only [TklUart.rxIrqCbReg, hqueue]
      simp only [hqueue] at hstep
      simp only [Care, hqueue] at hcare
      cases hstep
      rw [hcall]
      -- the queue variable has the queue of the port that is registered
      obtain ⟨rfl, hhand⟩ := hcare
      exact {
        queue := fun p hp _ => h.queue p hp (by rw [hidle]; rfl)
        thread := nofun
        waiting := nofun
        creating := by
          intro p cb hcaller
          cases hcaller
          exact ⟨hqueue, rfl⟩
        registering := nofun
        givingUp := nofun
        deleted := nofun
        ready := by
          intro p hreg
          obtain ⟨hp, hcb, -⟩ := h.ready p hreg
          cases hqueue.symm.trans hp
          exact ⟨hqueue, hcb, .inr ⟨rxCb, rfl⟩⟩
        kept := by
          intro p hreg
          -- the task that is deleted has nothing of the port in its hand
          cases hqueue.symm.trans (h.ready p hreg).1
          rw [← h.kept queue hreg, unanswered, unanswered, hhand hreg]
          rfl
        own := h.own
        noFault := h.noFault }
  · exact nomatch hstep

/-- when it has created the new one -/
theorem regCreate_step (h : Served s) (hstep : uartStep s .regCreate = some s') : Served s' := by
  simp only [uartStep] at hstep
  split at hstep
  · rename_i port rxCb hcaller
    cases hstep
    obtain ⟨hqueue, hthread⟩ := h.creating port rxCb hcaller
    have hserves : ServesPort (s.uart.rxIrqCbRegCreate port rxCb) port ⟨.start, 0⟩ :=
      ⟨hqueue, rxCb, rfl⟩
    exact {
      queue := fun p hp _ => h.queue p hp (by rw [hcaller]; rfl)
      thread := by
        intro t ht
        cases ht
        exact .inr ⟨port, hserves, nofun⟩
      waiting := nofun
      creating := nofun
      registering := by
        intro p cb hreg
        cases hreg
        exact ⟨_, rfl, hserves⟩
      givingUp := nofun
      deleted := nofun
      ready := by
        intro p hreg
        obtain ⟨hp, hcb, -⟩ := h.ready p hreg
        cases hqueue.symm.trans hp
        exact ⟨hqueue, hcb, .inl ⟨_, rfl, hserves⟩⟩
      kept := by
        intro p hreg
        -- the new task has nothing in its hand
        have hhand : inHand s.uart p = [] := by
          rw [inHand, hthread]
        rw [← h.kept p hreg, unanswered, unanswered, hhand]
        rfl
      own := h.own
      noFault := h.noFault }
  · exact nomatch hstep

/-- and when it returns. -/
theorem regReturn_step (h : Served s) (hcare : Care s .regReturn)
    (hstep : uartStep s .regReturn = some s') : Served s' := by
  simp only [uartStep] at hstep
  split at hstep
  · rename_i port rxCb hcaller
    cases hstep
    obtain ⟨t, ht, hserves⟩ := h.registering port rxCb hcaller
    -- the task has read its argument before the call returns
    have hpc : t.pc ≠ .start := by
      intro hstart
      exact hcare (by rw [ht, Option.map_some, hstart])
    -- the queue of the port is there, and so is its driver
    have hdriver : (s.uart.driver port).isSome = true :=
      h.queue port hserves.1 (by rw [hcaller]; rfl)
    -- the task serves the port whether or not the call has returned
    have hserves' : ServesPort (s.uart.rxIrqCbRegReturn port rxCb) port t :=
      hserves.of_caller hpc rfl
    have hregistered : ∀ p, Function.update s.registered port
        (rxCb.isSome && (s.uart.driver port).isSome) p = true → p = port ∧ rxCb.isSome = true := by
      intro p hreg
      by_cases hp : p = port
      · rw [hp, Function.update_self, hdriver, Bool.and_true] at hreg
        exact ⟨hp, hreg⟩
      · rw [Function.update_of_ne hp] at hreg
        exact absurd (Option.some.inj ((h.ready p hreg).1.symm.trans hserves.1)) hp
    exact {
      queue := fun p hp _ => h.queue p hp (by rw [hcaller]; rfl)
      thread := by
        intro t' ht'
        cases ht.symm.trans ht'
        cases hcb : rxCb with
        | none =>
          -- without a callback the task takes events and makes no call
          refine .inl ⟨hpc, port, hserves.uartNum_eq hpc, ?_⟩
          exact Function.update_self ..
        | some cb =>
          refine .inr ⟨port, hcb ▸ hserves', fun _ => ?_⟩
          show Function.update s.registered port (true && (s.uart.driver port).isSome) port = true
          rw [Function.update_self, hdriver]
          rfl
      waiting := fun q n hq _ => h.waiting q n hq (by rw [hcaller]; nofun)
      creating := nofun
      registering := nofun
      givingUp := nofun
      deleted := nofun
      ready := by
        intro p hreg
        obtain ⟨rfl, hcb⟩ := hregistered p hreg
        refine ⟨hserves.1, ?_, .inl ⟨t, ht, hserves'⟩⟩
        show (Function.update s.uart.rxCb p rxCb p).isSome = true
        rwa [Function.update_self]
      kept := by
        intro p hreg
        obtain ⟨rfl, -⟩ := hregistered p hreg
        show answered s.uart p + unanswered s.uart p = (if s.registered p then s.due else _) p
        split
        · -- a callback that replaces another inherits what is due
          rename_i hbefore
          exact h.kept p hbefore
        · rw [Function.update_self]
          rfl
      own := h.own
      noFault := h.noFault }
  · exact nomatch hstep

/-! ### Interrupts -/

/-- The interrupt keeps it. -/
theorem event_step (h : Served s) {e : UartEvent} (hstep : uartStep s (.event port e) = some s') :
    Served s' := by
  simp only [uartStep, UartSystem.interrupt, TklUart.interrupt] at hstep
  cases hstep
  cases hd : s.uart.driver port with
  | none =>
    -- no driver, no queue: the event is dropped, and nothing is due
    simp only [Option.isSome_none, Bool.false_eq_true, false_and, if_false]
    exact h
  | some d =>
    have hqueued : queued s.uart port = d.events := by
      rw [queued, hd]
    by_cases hroom : d.events.length < eventQueueSize
    · simp only [hqueued, Option.isSome_some, hroom, and_self, if_true]
      apply h.of_driver
      · intro p
        by_cases hp : p = port
        · rw [hp, Function.update_self, hd]
          rfl
        · rw [Function.update_of_ne hp]
      · -- one event more in the queue, and one more is due
        intro p hreg
        have hkept := h.kept p hreg
        rw [unanswered, List.count_append] at hkept ⊢
        rw [queued_update]
        by_cases hp : p = port
        · subst hp
          rw [if_pos rfl, Function.update_self, List.count_append, ← hqueued, ← hkept]
          simp only [inHand, Nat.add_assoc]
        · rw [if_neg hp, Function.update_of_ne hp]
          exact hkept
    · -- a full queue drops the event, which is not counted as due either
      simp only [hqueued, hroom, and_false, if_false]
      exact h

/-! ### The task -/

/-- The task goes on; it may have taken an event or made calls. -/
theorem of_task (h : Served s) {t t' : UartTask} {driver : Fin 2 → Option UartDriver}
    {log : List (RxCall κ)} (ht : s.uart.thread = some t)
    (hsome : ∀ p, (driver p).isSome = (s.uart.driver p).isSome)
    (hsilent : Silent s.uart t → Silent s.uart t')
    (hserves : ∀ p, ServesPort s.uart p t → ServesPort s.uart p t')
    (hwaiting : ∀ queue, t'.pc = .receive queue → s.uart.caller ≠ .deinitTask →
      (s.uart.driver queue).isSome = true)
    (hown : ∀ call ∈ log, call.uartNum = call.source)
    (hkept : ∀ p, s.registered p = true → ServesPort s.uart p t →
      answered { s.uart with driver := driver, thread := some t', log := log } p +
        unanswered { s.uart with driver := driver, thread := some t', log := log } p = s.due p) :
    Served { s with
      uart := { s.uart with driver := driver, thread := some t', log := log } } where
  queue p hq hcaller := (hsome p).trans (h.queue p hq hcaller)
  thread := by
    intro t'' ht''
    cases ht''
    obtain hs | ⟨p, hp, hreg⟩ := h.thread t ht
    · exact .inl (hsilent hs)
    · exact .inr ⟨p, hserves p hp, hreg⟩
  waiting := by
    intro q n hq hcaller
    cases hq
    exact (hsome q).trans (hwaiting q rfl hcaller)
  creating p rxCb hcaller := nomatch ht.symm.trans (h.creating p rxCb hcaller).2
  registering := by
    intro p rxCb hcaller
    obtain ⟨t'', ht'', hp⟩ := h.registering p rxCb hcaller
    cases ht.symm.trans ht''
    exact ⟨t', rfl, hserves p hp⟩
  givingUp := h.givingUp
  deleted hcaller := nomatch ht.symm.trans (h.deleted hcaller)
  ready p hreg :=
    ⟨(h.ready p hreg).1, (h.ready p hreg).2.1,
      .inl ⟨t', rfl, hserves p (h.serves_of_registered ht hreg)⟩⟩
  kept p hreg := hkept p hreg (h.serves_of_registered ht hreg)
  own := hown
  noFault := h.noFault

/-- The task goes on without taking or handling an event. -/
theorem of_thread (h : Served s) {t t' : UartTask} (ht : s.uart.thread = some t)
    (hsilent : Silent s.uart t → Silent s.uart t')
    (hserves : ∀ p, ServesPort s.uart p t → ServesPort s.uart p t')
    (hwaiting : ∀ queue, t'.pc = .receive queue → s.uart.caller ≠ .deinitTask →
      (s.uart.driver queue).isSome = true)
    (hhand : ∀ p, inHand { s.uart with thread := some t' } p = inHand s.uart p) :
    Served { s with uart := { s.uart with thread := some t' } } := by
  -- with the hand and the queues as before, what is unanswered is as before
  refine h.of_task ht (fun _ => rfl) hsilent hserves hwaiting h.own ?_
  intro p hreg _
  rw [← h.kept p hreg, unanswered, unanswered]
  exact congrArg (fun hand => _ + (hand ++ queued s.uart p).count .data) (hhand p)

/-- The task reads its argument from the stack of its creator. -/
theorem taskStart_step (h : Served s) {stack : Nat}
    (hstep : uartStep s (.taskStart stack) = some s') : Served s' := by
  simp only [uartStep] at hstep
  split at hstep
  · rename_i n ht
    cases hstep
    -- the argument is still there: the call that has created the task has not returned
    obtain ⟨hpc, -⟩ | ⟨p, ⟨hqueue, rxCb, hcaller⟩, -⟩ := h.thread _ ht
    · exact absurd rfl hpc
    · have hread : s.uart.readArgs stack = { s.uart with thread := some ⟨.head, p⟩ } := by
        simp only [TklUart.readArgs, hcaller]
      rw [hread]
      apply h.of_thread ht
      · exact fun hsilent => absurd rfl hsilent.1
      · rintro p' ⟨hqueue', -⟩
        cases hqueue.symm.trans hqueue'
        exact ⟨hqueue, rfl⟩
      · nofun
      · intro p'
        rw [inHand, inHand, ht]
  · exact nomatch hstep

/-- The task reads the queue. -/
theorem taskHead_step (h : Served s) (hstep : uartStep s .taskHead = some s') : Served s' := by
  simp only [uartStep] at hstep
  split at hstep
  · rename_i n ht
    cases hstep
    cases hqueue : s.uart.rxQueue with
    | none =>
      have hread : s.uart.readQueue n = { s.uart with thread := some ⟨.ended, n⟩ } := by
        simp only [TklUart.readQueue, hqueue]
      rw [hread]
      apply h.of_thread ht
      · exact fun hsilent => ⟨nofun, hsilent.2⟩
      · -- a task that ends serves no port: the queue variable is empty
        rintro p ⟨hp, -⟩
        exact nomatch hqueue.symm.trans hp
      · nofun
      · intro p
        rw [inHand, inHand, ht]
    | some queue =>
      have hread : s.uart.readQueue n = { s.uart with thread := some ⟨.receive queue, n⟩ } := by
        simp only [TklUart.readQueue, hqueue]
      rw [hread]
      apply h.of_thread ht
      · exact fun hsilent => ⟨nofun, hsilent.2⟩
      · rintro p ⟨hp, hn⟩
        exact ⟨hp, Option.some.inj (hqueue.symm.trans hp), hn⟩
      · intro q hq hcaller
        cases hq
        -- the queue is there unless the caller is giving it up, and then the task is gone
        cases hdeinit : s.uart.caller with
        | deinitTask => exact absurd hdeinit hcaller
        | deinitQueue => exact nomatch ht.symm.trans (h.deleted hdeinit)
        | _ => exact h.queue queue hqueue (by rw [hdeinit]; rfl)
      · intro p
        rw [inHand, inHand, ht]
  · exact nomatch hstep

/-- The task takes an event from the queue. -/
theorem taskReceive_step (h : Served s) (hcare : Care s .taskReceive)
    (hstep : uartStep s .taskReceive = some s') : Served s' := by
  simp only [uartStep] at hstep
  split at hstep
  · rename_i queue n ht
    -- the queue is not being deleted
    have hcaller : s.uart.caller ≠ .deinitTask := by
      intro hdeinit
      simp only [Care, hdeinit] at hcare
    obtain ⟨⟨config, events⟩, hd⟩ := Option.isSome_iff_exists.mp (h.waiting queue n ht hcaller)
    cases events with
    | nil =>
      -- an empty queue keeps the task waiting
      simp only [TklUart.receive, hd] at hstep
      exact nomatch hstep
    | cons e rest =>
      simp only [TklUart.receive, hd] at hstep
      cases hstep
      apply h.of_task ht
      · intro p
        by_cases hp : p = queue
        · rw [hp, Function.update_self, hd]
          rfl
        · rw [Function.update_of_ne hp]
      · exact fun hsilent => ⟨nofun, hsilent.2⟩
      · exact fun p hserves => hserves
      · nofun
      · exact h.own
      · rintro p hreg ⟨-, rfl, -⟩
        -- the event goes from the queue into the hand of the task
        have hbefore : inHand s.uart queue ++ queued s.uart queue = e :: rest := by
          rw [inHand, ht, queued, hd]
          rfl
        have hafter : inHand { s.uart with
            driver := Function.update s.uart.driver queue (some ⟨config, rest⟩)
            thread := some ⟨.handle queue e, n⟩ } queue ++ queued { s.uart with
            driver := Function.update s.uart.driver queue (some ⟨config, rest⟩) } queue =
            e :: rest := by
          rw [inHand_handle rfl, queued_update, if_pos rfl]
          rfl
        rw [← h.kept queue hreg, unanswered, unanswered, hbefore]
        exact congrArg (fun events => _ + events.count .data) hafter
  · exact nomatch hstep

/-- What the task does with an event when it knows its port. -/
theorem process_eq (u : TklUart κ) (source : Fin 2) (e : UartEvent) :
    u.process source e port =
      { u with
        thread := some ⟨.head, port⟩
        log := u.log ++ (u.rxCb port).elim [] fun cb =>
          List.replicate ([e].count .data) ⟨source, port, cb⟩ } := by
  cases e with
  | other =>
    -- only data is answered
    have hnone : [UartEvent.other].count .data = 0 := rfl
    cases hcb : u.rxCb port <;>
      simp only [TklUart.process, hnone, List.replicate_zero, Option.elim_none, Option.elim_some,
        List.append_nil]
  | data =>
    simp only [TklUart.process, port.isLt, dif_pos, Fin.eta]
    cases hcb : u.rxCb port with
    | none => simp only [Option.elim_none, List.append_nil]
    | some cb => rfl

/-- The calls of the callback are counted. -/
theorem answered_replicate {u u' : TklUart κ} {n : Nat} {cb : κ}
    (hlog : u'.log = u.log ++ List.replicate n ⟨port, port, cb⟩) :
    answered u' port = answered u port + n := by
  rw [answered, hlog, List.countP_append, List.countP_replicate]
  simp [answered]

/-- The task calls the callback. -/
theorem taskHandle_step (h : Served s) (hstep : uartStep s .taskHandle = some s') :
    Served s' := by
  simp only [uartStep] at hstep
  split at hstep
  · rename_i source e n ht
    cases hstep
    -- the task knows its port, whether it serves it or not
    obtain ⟨p, rfl, hserves⟩ : ∃ p : Fin 2, n = p ∧ (s.uart.rxCb p = none ∨ source = p) := by
      obtain ⟨-, p, hp, hcb⟩ | ⟨p, ⟨-, hsource, hp⟩, -⟩ := h.thread _ ht
      · exact ⟨p, hp, .inl hcb⟩
      · exact ⟨p, hp, .inr hsource⟩
    rw [process_eq]
    apply h.of_task ht (fun _ => rfl)
    · exact fun hsilent => ⟨nofun, hsilent.2⟩
    · exact fun p' hp' => ⟨hp'.1, hp'.2.2⟩
    · nofun
    · intro call hcall
      obtain hcall | hcall := List.mem_append.mp hcall
      · exact h.own call hcall
      · obtain hcb | rfl := hserves
        · rw [hcb] at hcall
          exact nomatch hcall
        · cases hcb : s.uart.rxCb source with
          | none =>
            rw [hcb] at hcall
            exact nomatch hcall
          | some cb =>
            rw [hcb] at hcall
            rw [List.eq_of_mem_replicate hcall]
    · rintro p' hreg ⟨-, rfl, hp'⟩
      obtain rfl : p = source := Fin.ext hp'
      obtain ⟨cb, hcb⟩ := Option.isSome_iff_exists.mp (h.ready p hreg).2.1
      -- one event less in the hand, one call more
      have hkept := h.kept p hreg
      rw [unanswered, inHand_handle ht, List.count_append, ← Nat.add_assoc] at hkept
      rw [← hkept, hcb]
      exact congrArg (· + (queued s.uart p).count .data) (answered_replicate rfl)
  · exact nomatch hstep

/-- Every step with care keeps the invariant. -/
theorem step {a : UartAct κ} (h : Served s) (hcare : Care s a)
    (hstep : uartStep s a = some s') : Served s' := by
  cases a with
  | init port cfg => exact h.init_step hcare hstep
  | deinit port => exact h.deinit_step hcare hstep
  | deinitTask => exact h.deinitTask_step hstep
  | deinitReturn => exact h.deinitReturn_step hstep
  | reg port rxCb => exact h.reg_step hcare hstep
  | regCreate => exact h.regCreate_step hstep
  | regReturn => exact h.regReturn_step hcare hstep
  | event port e => exact h.event_step hstep
  | taskStart stack => exact h.taskStart_step hstep
  | taskHead => exact h.taskHead_step hstep
  | taskReceive => exact h.taskReceive_step hcare hstep
  | taskHandle => exact h.taskHandle_step hstep

end Served

/-! ## The task gets to every event -/

section Drain

variable {s s' : UartSystem κ} {port : Fin 2} {cb : κ}

/-- One step of the task, after which the calls made and those still to be made are the same
    together. -/
theorem Drains.cons {a : UartAct κ} (ha : a.isTask = true) (hstep : uartStep s a = some s')
    (hlog : s'.uart.log ++ List.replicate (unanswered s'.uart port) ⟨port, port, cb⟩ =
      s.uart.log ++ List.replicate (unanswered s.uart port) ⟨port, port, cb⟩)
    (h : Drains s' port cb) : Drains s port cb := by
  obtain ⟨acts, s'', htask, hrun, hlog'⟩ := h
  refine ⟨a :: acts, s'', ?_, .cons trivial hstep hrun, hlog'.trans hlog⟩
  intro a' ha'
  obtain rfl | ha' := List.mem_cons.mp ha'
  · exact ha
  · exact htask a' ha'

namespace Looping

variable {events : List UartEvent} {e : UartEvent}

end Looping

end Drain

/-- A callback is registered; the task starts before the registration returns. -/
def register (port : Fin 2) : List (UartAct Unit) :=
  [.reg port (some ()), .regCreate, .taskStart 0, .regReturn, .taskHead]

end Ivy.Spec
