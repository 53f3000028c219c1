import Mathlib.Data.List.Nodup
import Ivy.ForStd.Transition
import Ivy.Native.NetInterface

/-!
# The context of the Bluetooth link

`bt_stop_flag` is clear both before the link was ever started and while it runs. So
`tuya_iot_bt_stop` hands the null pointer to `ble_netcfg_stop` if nothing was started, and
`tuya_iot_bt_init` drops a context that is still in use without freeing it. With calls in the order
start, stop, start, stop the context is used while it is alive, and freed once.

## Key results

- `BleLedger.step`: the contexts allocated and freed, for calls in that order
- `bleContext_alive_iff`: the order is also necessary
-/

namespace Ivy.Spec

open Ivy.Native Ivy.Lts

/-- The calls; `controller` is the outcome of `esp_bt_controller_init`. -/
inductive BtCall
  | init (controller : Bool)
  | stop
  deriving DecidableEq, Repr

def btStep (n : NetInterface) : BtCall → NetInterface
  | .init controller => (n.tuyaIotBtInit controller).2
  | .stop => n.tuyaIotBtStop

/-- The contexts that were allocated. -/
def allocated (log : List NetEffect) : List Nat :=
  log.filterMap fun
    | .bleNetcfgInit ctx => some ctx
    | _ => none

/-- The contexts that were freed, once for each time. -/
def freed (log : List NetEffect) : List Nat :=
  log.filterMap fun
    | .bleFree ctx => ctx
    | _ => none

/-- Contexts are allocated in the order of the log, -/
@[simp] theorem allocated_append (log log' : List NetEffect) :
    allocated (log ++ log') = allocated log ++ allocated log' :=
  List.filterMap_append

/-- and freed in its order. -/
@[simp] theorem freed_append (log log' : List NetEffect) :
    freed (log ++ log') = freed log ++ freed log' :=
  List.filterMap_append

/-- The call hands a context to `ble_netcfg_stop` only while it is alive, replaces the pointer only
    when every context was freed exactly once, and frees no context twice. -/
def UsedAlive (n : NetInterface) (call : BtCall) : Prop :=
  (∀ e ∈ (btStep n call).log.drop n.log.length, ∀ p, e = .bleNetcfgStop p →
    ∃ ctx ∈ allocated n.log, p = some ctx ∧ ctx ∉ freed n.log) ∧
  ((btStep n call).bleNetcfgCtx ≠ n.bleNetcfgCtx →
    ∀ ctx ∈ allocated n.log, (freed n.log).count ctx = 1) ∧
  (freed (btStep n call).log).Nodup

/-! ## The order of the calls -/

/-- How far the calls have come: nothing was started, or the last call that mattered was a
    successful start or a stop. -/
inductive BtPhase
  | never
  | running
  | stopped
  deriving DecidableEq, Repr

def BtPhase.next (phase : BtPhase) : BtCall → BtPhase
  | .init true => .running
  | .init false => phase
  | .stop => .stopped

/-- Nothing is stopped before it was started, and a start succeeds only when the one before was
    stopped. -/
def BtPhase.allows (phase : BtPhase) : BtCall → Bool
  | .init true => phase ≠ .running
  | .init false => true
  | .stop => phase ≠ .never

/-- The device, with the phase that the calls so far have led to. -/
structure BtRun where
  net : NetInterface
  phase : BtPhase
  deriving DecidableEq, Repr

def BtRun.step (r : BtRun) (call : BtCall) : BtRun :=
  ⟨btStep r.net call, r.phase.next call⟩

/-- The contexts are numbered in the order in which they were allocated; all of them were freed, in
    this order, except the one of a running link. -/
structure BleLedger (r : BtRun) : Prop where
  made : allocated r.net.log = List.range r.net.nextCtx
  gone : freed r.net.log =
    List.range (if r.phase = .running then r.net.nextCtx - 1 else r.net.nextCtx)
  flag : r.net.btStopFlag = decide (r.phase = .stopped)
  started : r.phase ≠ .never → 0 < r.net.nextCtx ∧ r.net.bleNetcfgCtx = some (r.net.nextCtx - 1)
  never : r.phase = .never → r.net.nextCtx = 0 ∧ r.net.bleNetcfgCtx = none

/-! ## The two calls -/

section

variable (n : NetInterface)

/-- Without the controller nothing is started. -/
theorem btStep_init_false : btStep n (.init false) = n := rfl

/-- Starting uses the new context. -/
theorem btStep_init_log :
    (btStep n (.init true)).log =
      n.log ++ [.bleNetcfgInit n.nextCtx, .bleNetcfgStart n.nextCtx] := by
  simp [btStep, NetInterface.tuyaIotBtInit, NetInterface.emit]

/-- Starting allocates a context, -/
@[simp] theorem allocated_init :
    allocated (btStep n (.init true)).log = allocated n.log ++ [n.nextCtx] := by
  rw [btStep_init_log, allocated_append]
  rfl

/-- and frees none. -/
@[simp] theorem freed_init : freed (btStep n (.init true)).log = freed n.log := by
  rw [btStep_init_log, freed_append]
  exact List.append_nil _

/-- The new context is kept. -/
@[simp] theorem btStep_init_ctx : (btStep n (.init true)).bleNetcfgCtx = some n.nextCtx := rfl

/-- The next context is another one. -/
@[simp] theorem btStep_init_nextCtx : (btStep n (.init true)).nextCtx = n.nextCtx + 1 := rfl

/-- The link is running. -/
@[simp] theorem btStep_init_flag : (btStep n (.init true)).btStopFlag = false := rfl

/-- Stopping uses the context once. -/
theorem btStep_stop_log :
    (btStep n .stop).log =
      n.log ++ if n.btStopFlag then []
        else [.bleNetcfgStop n.bleNetcfgCtx, .bleFree n.bleNetcfgCtx] := by
  unfold btStep NetInterface.tuyaIotBtStop
  cases h : n.btStopFlag <;> simp [NetInterface.emit, NetInterface.setProvStatus]

/-- Stopping allocates nothing, -/
@[simp] theorem allocated_stop : allocated (btStep n .stop).log = allocated n.log := by
  rw [btStep_stop_log, allocated_append]
  cases n.btStopFlag <;> exact List.append_nil _

/-- and frees the context unless it was freed before. -/
@[simp] theorem freed_stop :
    freed (btStep n .stop).log =
      freed n.log ++ if n.btStopFlag then [] else n.bleNetcfgCtx.toList := by
  rw [btStep_stop_log, freed_append]
  cases n.btStopFlag with
  | false => cases n.bleNetcfgCtx <;> rfl
  | true => rfl

/-- The pointer to the freed context is kept. -/
@[simp] theorem btStep_stop_ctx : (btStep n .stop).bleNetcfgCtx = n.bleNetcfgCtx := by
  unfold btStep NetInterface.tuyaIotBtStop
  cases h : n.btStopFlag <;> rfl

/-- Stopping makes no context. -/
@[simp] theorem btStep_stop_nextCtx : (btStep n .stop).nextCtx = n.nextCtx := by
  unfold btStep NetInterface.tuyaIotBtStop
  cases h : n.btStopFlag <;> rfl

/-- The link is stopped. -/
@[simp] theorem btStep_stop_flag : (btStep n .stop).btStopFlag = true := by
  unfold btStep NetInterface.tuyaIotBtStop
  cases h : n.btStopFlag
  · rfl
  · exact h

end

/-! ## The ledger -/

section

variable {r : BtRun}

/-- No context exists in the beginning. -/
theorem BleLedger.init : BleLedger ⟨.init, .never⟩ :=
  ⟨rfl, rfl, rfl, nofun, fun _ => ⟨rfl, rfl⟩⟩

/-- Calls in the allowed order keep the ledger. -/
theorem BleLedger.step (h : BleLedger r) (call : BtCall) (hallow : r.phase.allows call = true) :
    BleLedger (r.step call) := by
  match call with
  | .init false => exact h
  | .init true =>
    -- all contexts so far have been freed
    have hrun : r.phase ≠ .running := by simpa [BtPhase.allows] using hallow
    have hfreed := h.gone
    rw [if_neg hrun] at hfreed
    exact
      { made := by simp [BtRun.step, h.made, List.range_succ]
        gone := by simp [BtRun.step, BtPhase.next, hfreed]
        flag := by simp [BtRun.step, BtPhase.next]
        started := fun _ => by simp [BtRun.step]
        never := nofun }
  | .stop =>
    -- there is a context, and its pointer is kept even after it was freed
    have hnever : r.phase ≠ .never := by simpa [BtPhase.allows] using hallow
    obtain ⟨hpos, hctx⟩ := h.started hnever
    have hall : allocated (r.step .stop).net.log = List.range (r.step .stop).net.nextCtx := by
      simp [BtRun.step, h.made]
    have hfree : freed (r.step .stop).net.log = List.range r.net.nextCtx := by
      -- the context of a running link is the last one
      by_cases hrun : r.phase = .running
      · have hlast : r.net.nextCtx = r.net.nextCtx - 1 + 1 := by omega
        have hflag : r.net.btStopFlag = false := by simp [h.flag, hrun]
        simp only [BtRun.step, freed_stop, h.gone, hrun, if_true, hflag, hctx, Option.toList_some]
        rw [hlast, List.range_succ, Nat.add_sub_cancel]
        rfl
      · have hflag : r.net.btStopFlag = true := by
          cases hphase : r.phase <;> simp_all [h.flag]
        simp [BtRun.step, h.gone, hrun, hflag]
    exact
      { made := hall
        gone := by simpa [BtRun.step, BtPhase.next] using hfree
        flag := by simp [BtRun.step, BtPhase.next]
        started := fun _ => by simpa [BtRun.step] using And.intro hpos hctx
        never := nofun }

/-- A stop with nothing started uses the null pointer. -/
theorem BleLedger.usedAlive_stop (h : BleLedger r) :
    UsedAlive r.net .stop ↔ r.phase ≠ .never := by
  have hnew : (btStep r.net .stop).log.drop r.net.log.length =
      if r.net.btStopFlag then []
        else [.bleNetcfgStop r.net.bleNetcfgCtx, .bleFree r.net.bleNetcfgCtx] := by
    rw [btStep_stop_log, List.drop_left]
  constructor
  · rintro ⟨hstop, -, -⟩ hnever
    have hflag : r.net.btStopFlag = false := by simp [h.flag, hnever]
    rw [hnew, hflag] at hstop
    -- before the first start there is no context to stop
    obtain ⟨ctx, hmem, -, -⟩ := hstop _ List.mem_cons_self _ rfl
    rw [h.made, (h.never hnever).1] at hmem
    exact nomatch hmem
  · intro hnever
    obtain ⟨hpos, hctx⟩ := h.started hnever
    -- no context is freed twice, by the ledger behind the call
    have hstep := h.step .stop (by simpa [BtPhase.allows] using hnever)
    refine ⟨?_, fun hne => absurd (btStep_stop_ctx r.net) hne, ?_⟩
    · intro e he p hp
      rw [hnew] at he
      by_cases hrun : r.phase = .running
      · -- the link runs: the last context, which is not freed yet
        refine ⟨r.net.nextCtx - 1, ?_, ?_, ?_⟩
        · rw [h.made]
          exact List.mem_range.mpr (by omega)
        · subst hp
          rw [h.flag, hrun] at he
          simpa [hctx] using he
        · rw [h.gone, if_pos hrun]
          exact fun hin => Nat.lt_irrefl _ (List.mem_range.mp hin)
      · -- a second stop does nothing
        have hflag : r.net.btStopFlag = true := by
          cases hphase : r.phase <;> simp_all [h.flag]
        rw [hflag] at he
        exact nomatch he
    · show (freed (r.step .stop).net.log).Nodup
      rw [hstep.gone]
      exact List.nodup_range

/-- A start while the link runs drops a context that was never freed. -/
theorem BleLedger.usedAlive_init (h : BleLedger r) :
    UsedAlive r.net (.init true) ↔ r.phase ≠ .running := by
  have hnew : (btStep r.net (.init true)).log.drop r.net.log.length =
      [.bleNetcfgInit r.net.nextCtx, .bleNetcfgStart r.net.nextCtx] := by
    rw [btStep_init_log, List.drop_left]
  -- the pointer moves on to the new context
  have hchange : (btStep r.net (.init true)).bleNetcfgCtx ≠ r.net.bleNetcfgCtx := by
    rw [btStep_init_ctx]
    intro hsame
    by_cases hnever : r.phase = .never
    · rw [(h.never hnever).2] at hsame
      exact nomatch hsame
    · obtain ⟨hpos, hctx⟩ := h.started hnever
      rw [hctx, Option.some.injEq] at hsame
      omega
  constructor
  · rintro ⟨-, honce, -⟩ hrun
    obtain ⟨hpos, -⟩ := h.started (by rw [hrun]; nofun)
    -- the context of the running link would never be freed
    have hlast : r.net.nextCtx - 1 ∈ allocated r.net.log := by
      rw [h.made]
      exact List.mem_range.mpr (by omega)
    have hcount := honce hchange _ hlast
    rw [h.gone, if_pos hrun, List.count_eq_zero_of_not_mem (by simp)] at hcount
    exact nomatch hcount
  · intro hrun
    have hgone := h.gone
    rw [if_neg hrun] at hgone
    refine ⟨?_, fun _ ctx hmem => ?_, ?_⟩
    · intro e he p hp
      subst hp
      rw [hnew] at he
      simp at he
    · rw [hgone]
      exact List.count_eq_one_of_mem List.nodup_range (h.made ▸ hmem)
    · rw [freed_init, hgone]
      exact List.nodup_range

/-- Without the controller no context is used. -/
theorem BleLedger.usedAlive_init_false (h : BleLedger r) : UsedAlive r.net (.init false) := by
  refine ⟨?_, fun hne => absurd rfl hne, ?_⟩
  · rw [btStep_init_false, List.drop_length]
    exact fun e he => nomatch he
  · rw [btStep_init_false, h.gone]
    exact List.nodup_range

/-- Under the ledger a call uses the context well exactly if the order allows it. -/
theorem BleLedger.usedAlive_iff (h : BleLedger r) (call : BtCall) :
    UsedAlive r.net call ↔ r.phase.allows call = true := by
  match call with
  | .init false => exact ⟨fun _ => rfl, fun _ => h.usedAlive_init_false⟩
  | .init true => simpa [BtPhase.allows] using h.usedAlive_init
  | .stop => simpa [BtPhase.allows] using h.usedAlive_stop

end

/-! ## Every order of calls -/

/-- In a sequence of calls from start-up every call uses the context while it is alive, and every
    context is freed exactly once before the pointer is replaced, if and only if the calls come in
    the order in which nothing is stopped before it was started and nothing started before the last
    start was stopped. -/
theorem bleContext_alive_iff (calls : List BtCall) :
    Always BtRun.step (fun r call => UsedAlive r.net call) ⟨.init, .never⟩ calls ↔
      Always BtRun.step (fun r call => r.phase.allows call = true) ⟨.init, .never⟩ calls :=
  always_congr (I := BleLedger) (fun _ call h => h.usedAlive_iff call)
    (fun _ call h hallow => h.step call hallow) .init

/-- A stop before any start hands the null pointer to `ble_netcfg_stop`; a second start leaves the
    first context behind. -/
theorem not_bleContext_alive :
    ¬ Always BtRun.step (fun r call => UsedAlive r.net call) ⟨.init, .never⟩ [.stop] ∧
      ¬ Always BtRun.step (fun r call => UsedAlive r.net call) ⟨.init, .never⟩
        [.init true, .init true] := by
  constructor
  · rintro ⟨⟨hstop, -, -⟩, -⟩
    obtain ⟨ctx, hmem, -, -⟩ := hstop (.bleNetcfgStop none) (by decide) none rfl
    exact nomatch hmem
  · rintro ⟨-, ⟨-, honce, -⟩, -⟩
    exact absurd (honce (by decide) 0 (by decide)) (by decide)

end Ivy.Spec
