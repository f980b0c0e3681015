import Gpiod.Loop
import Gpiod.Oneshot
import Gpiod.Children

/-!
What the loop does to the hooks, as operations on the daemon.

Of the loop the hooks see calls of `dispatch_hooks` and of `hook_clear_spawned` and nothing
else: the last values of the pins, the variables of the iteration and the other descriptors
do not reach them. So a run of the loop is a run of operations with the same launches, and so
is a run of the daemon beside its children.
-/

namespace Gpiod.LoopOps

open Gpiod.Pin Gpiod.Changed Gpiod.Dispatch Gpiod.Loop Gpiod.Machine
open Gpiod.Oneshot (Op)

/-! ### The part of a daemon that the hooks see -/

/-- What `dispatch_hooks` uses of a pin. -/
def view (pin : GpioPin) : Str × List GpiodHook := (pin.label, pin.hook_list)

/-- The same hooks under the same labels, and the same pids. -/
structure SameHooks (d d' : Daemon) : Prop where
  pids : d.pid_list = d'.pid_list
  pins : ∀ i : ℕ, d.gp_list[i]?.map view = d'.gp_list[i]?.map view

lemma SameHooks.refl (d : Daemon) : SameHooks d d := ⟨rfl, fun _ => rfl⟩

lemma SameHooks.trans {d d' d'' : Daemon} (h : SameHooks d d') (h' : SameHooks d' d'') :
    SameHooks d d'' := ⟨h.pids.trans h'.pids, fun i => (h.pins i).trans (h'.pins i)⟩

lemma dispatchPin_view (d : Daemon) (i : ℕ) (event : ℤ) (exec : ℕ → ℤ) :
    dispatchPin d i event exec = ((d.gp_list[i]?.map view).map fun v =>
      dispatchLoop v.1 event exec 0 v.2).getD ⟨[], [], [], false⟩ := by
  unfold dispatchPin
  cases d.gp_list[i]? <;> rfl

lemma SameHooks.dispatchPin {d d' : Daemon} (h : SameHooks d d') (i : ℕ) (event : ℤ)
    (exec : ℕ → ℤ) : dispatchPin d i event exec = dispatchPin d' i event exec := by
  rw [dispatchPin_view, dispatchPin_view, h.pins]

lemma SameHooks.modify {d d' : Daemon} (h : SameHooks d d') {i : ℕ} {f : GpioPin → GpioPin}
    {g : Str × List GpiodHook → Str × List GpiodHook} (hf : ∀ pin, view (f pin) = g (view pin))
    (j : ℕ) : (d.gp_list.modify i f)[j]?.map view = (d'.gp_list.modify i f)[j]?.map view := by
  have key : ∀ e : Daemon, (e.gp_list.modify i f)[j]?.map view =
      (e.gp_list[j]?.map view).map fun v => if i = j then g v else v := by
    intro e
    rw [List.getElem?_modify]
    cases e.gp_list[j]? with
    | none => rfl
    | some pin => by_cases hij : i = j <;> simp [hij, hf]
  rw [key, key, h.pins]

lemma SameHooks.dispatchHooks {d d' : Daemon} (h : SameHooks d d') (i : ℕ) (event : ℤ)
    (exec : ℕ → ℤ) : SameHooks (dispatchHooks d i event exec) (dispatchHooks d' i event exec) := by
  unfold Dispatch.dispatchHooks spawns
  rw [h.dispatchPin, h.pids]
  exact ⟨rfl, h.modify (g := fun v => (v.1, (Dispatch.dispatchPin d' i event exec).hook_list))
    fun _ => rfl⟩

lemma SameHooks.hookClearSpawned {d d' : Daemon} (h : SameHooks d d') (pid : ℤ) :
    SameHooks (hookClearSpawned d pid).2 (hookClearSpawned d' pid).2 := by
  unfold Dispatch.hookClearSpawned
  rw [h.pids]
  cases Table.find d'.pid_list pid with
  | none => exact h
  | some r => exact ⟨rfl, h.modify (g := fun v => (v.1, v.2.modify r.hook cleared)) fun _ => rfl⟩

lemma sameHooks_setValue (d : Daemon) (i : ℕ) (value : ℤ) : SameHooks (setValue d i value) d where
  pids := rfl
  pins j := by
    rw [getElem?_setValue]
    split
    · rw [Option.map_map]
      rfl
    · rfl

lemma SameHooks.hook? {d d' : Daemon} (h : SameHooks d d') (r : HookRef) :
    d.hook? r = d'.hook? r := by
  have hview : ∀ d : Daemon, d.hook? r =
      (d.gp_list[r.pin]?.map view).bind fun v => v.2[r.hook]? := by
    intro d
    rw [Option.bind_map]
    rfl
  rw [hview, hview, h.pins]

lemma SameHooks.step {d d' : Daemon} (h : SameHooks d d') (op : Op) :
    SameHooks (Oneshot.step d op).1 (Oneshot.step d' op).1 ∧
      (Oneshot.step d op).2 = (Oneshot.step d' op).2 := by
  cases op with
  | event i event x =>
    refine ⟨h.dispatchHooks i event x.exec, ?_⟩
    simp only [Oneshot.step, spawns, h.dispatchPin]
  | childExit pid => exact ⟨h.hookClearSpawned pid, rfl⟩

/-! ### The loop -/

/-- A step of the loop, with the pids `exec_start` returned in it. -/
def launchStep (sign : CharSign) (s : LoopState) (st : Step) :
    LoopState × List (ℤ × HookRef) :=
  ((step sign s st).1,
    match st with
    | .handle src i reads x =>
      match s.daemon.gp_list[i]? with
      | none => []
      | some pin =>
        let c := changed sign pin reads
        if dispatches src pin c.ret then
          spawns (setValue s.daemon i c.value_) i ((c.stored.map Prod.fst).getD s.event) x.exec
        else []
    | _ => [])

/-- The operations a step of the loop makes. -/
def stepOps (sign : CharSign) (s : LoopState) : Step → List Op
  | .handle src i reads x =>
    match s.daemon.gp_list[i]? with
    | none => []
    | some pin =>
      let c := changed sign pin reads
      if dispatches src pin c.ret then [.event i ((c.stored.map Prod.fst).getD s.event) x] else []
  | .sigchld ssi_pid pid => if pid ≠ -1 then [.childExit ssi_pid] else []
  | .epollWait | .other => []

/-- **One step of the loop** is a run of its operations. -/
lemma launchStep_ops (sign : CharSign) (s : LoopState) (d : Daemon) (st : Step)
    (h : SameHooks s.daemon d) :
    SameHooks (launchStep sign s st).1.daemon (after Oneshot.step d (stepOps sign s st)) ∧
      (launchStep sign s st).2 = outputs Oneshot.step d (stepOps sign s st) := by
  cases st with
  | epollWait => exact ⟨h, rfl⟩
  | other => exact ⟨h, rfl⟩
  | sigchld ssi_pid pid =>
    simp only [launchStep, Loop.step, stepOps, onSigchld]
    split
    · exact ⟨h.hookClearSpawned ssi_pid, rfl⟩
    · exact ⟨h, rfl⟩
  | handle src i reads x =>
    simp only [launchStep, Loop.step, stepOps, handlePin]
    cases hp : s.daemon.gp_list[i]? with
    | none => exact ⟨h, rfl⟩
    | some pin =>
      have hset := (sameHooks_setValue s.daemon i (changed sign pin reads).value_).trans h
      simp only
      split
      · have hop := hset.step
          (.event i (((changed sign pin reads).stored.map Prod.fst).getD s.event) x)
        rw [outputs_cons, outputs_nil, List.append_nil]
        exact hop
      · exact ⟨hset, rfl⟩

/-- **The loop runs operations**: a run of the loop leaves the hooks and the pids as its
operations do, and launches what they launch. -/
theorem loop_ops (sign : CharSign) (d : Daemon) (sts : List Step) :
    SameHooks (after (launchStep sign) (start d) sts).daemon
        (after Oneshot.step d (translate (launchStep sign) (stepOps sign) (start d) sts)) ∧
      outputs (launchStep sign) (start d) sts =
        outputs Oneshot.step d (translate (launchStep sign) (stepOps sign) (start d) sts) :=
  simulated (R := fun (s : LoopState) d => SameHooks s.daemon d) (launchStep_ops sign)
    (SameHooks.refl d) sts

/-! ### The daemon beside its children -/

/-- The operations of a step of the daemon and its children. -/
def actOps (s : Children.Sys) : Children.Act → List Op
  | .edge i event x => [.event i event x]
  | .handleSig =>
    match s.pc with
    | .chld ssi_pid =>
      if (Children.waitpid s.children ssi_pid).1 ≠ -1 then [.childExit ssi_pid] else []
    | _ => []
  | .wake | .readSig | .done | .child _ _ => []

/-- **What a step does to the daemon**: its operations, and nothing else. -/
theorem children_ops {s t : Children.Sys} {a : Children.Act} (h : Children.Step s a t) :
    t.daemon = after Oneshot.step s.daemon (actOps s a) := by
  cases h with
  | handleSig hpc =>
    simp only [actOps, hpc, onSigchld]
    split <;> rfl
  | _ => rfl

end Gpiod.LoopOps
