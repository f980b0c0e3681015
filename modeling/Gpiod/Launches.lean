import Mathlib.Data.List.ReduceOption
import Gpiod.Argv

/-!
Which hooks an event launches, and what that leaves of the hooks and of `pid_list`.

The filters of `dispatch_hooks` come one after the other, and a failed launch goes on with the
next hook. So the calls of `exec_start` are those for the hooks that the event selects, in the
order of the list, and everything but the hooks launched stays. Before each call the vector is
written to an array on the stack, which is too short for a list that the eight-bit size does not
count.
-/

namespace Gpiod.Launches

open Gpiod.Pin Gpiod.Dispatch Gpiod.Argv
open Gpiod.TabArgs (terminator)
open Gpiod.TabRoute (wd0)

/-! ### With the arrays -/

/-- The loop of `dispatch_hooks` with the array of each launch, of which the call has the slots
that are set; `none` where a write is behind the array. -/
def formedLoop (label : Str) (event : ℤ) (exec : ℕ → ℤ) : ℕ → List GpiodHook → Option Dispatched
  | _, [] => some ⟨[], [], [], false⟩
  | j, hook :: hooks =>
    if runs hook event then do
      let argv ← formArgv label event hook
      let call : Call := ⟨j, hook.path, argv.reduceOption⟩
      if exec j = 0 then some ⟨hook :: hooks, [], [call], true⟩
      else
        let r ← formedLoop label event exec (j + 1) hooks
        if exec j = -1 then some ⟨hook :: r.hook_list, r.pids, call :: r.calls, r.exited⟩
        else some ⟨launched hook (exec j) :: r.hook_list, (exec j, j) :: r.pids, call :: r.calls,
          r.exited⟩
    else do
      let r ← formedLoop label event exec (j + 1) hooks
      some ⟨hook :: r.hook_list, r.pids, r.calls, r.exited⟩

def formedPin (d : Daemon) (i : ℕ) (event : ℤ) (exec : ℕ → ℤ) : Option Dispatched :=
  match d.gp_list[i]? with
  | none => some ⟨[], [], [], false⟩
  | some pin => formedLoop pin.label event exec 0 pin.hook_list

/-- The daemon behind a loop over the hooks of a pin. -/
def behindLoop (d : Daemon) (i : ℕ) (r : Dispatched) : Daemon where
  gp_list := d.gp_list.modify i fun pin => { pin with hook_list := r.hook_list }
  pid_list := (r.pids.map fun e => (e.1, (⟨i, e.2⟩ : HookRef))).reverse ++ d.pid_list

/-- The pids that `exec_start` returned for the hooks of the pin, those of calls that failed left
out. -/
def started (i : ℕ) (exec : ℕ → ℤ) (r : Dispatched) : List (ℤ × HookRef) :=
  (r.calls.filter fun call => exec call.hook ≠ -1).map fun call => (exec call.hook, ⟨i, call.hook⟩)

/-! ### The filters -/

/-- The event selects the hook: its flags have the bit of the event, and neither NO_LOOP nor
ONESHOT holds it back. -/
structure Selects (event : ℤ) (hook : GpiodHook) : Prop where
  bit : event = GpiodEdge.rising.code ∧ hook.flags &&& hooktabModRise ≠ 0 ∨
    event = GpiodEdge.falling.code ∧ hook.flags &&& hooktabModFall ≠ 0
  noLoop : ¬ (hook.flags &&& hooktabModNoLoop ≠ 0 ∧ hook.spawned ≠ -1)
  oneshot : ¬ (hook.flags &&& hooktabModOneshot ≠ 0 ∧ 0 < hook.fired)

/-- **The filters** let through what the event selects. -/
lemma runs_iff (event : ℤ) (hook : GpiodHook) : runs hook event = true ↔ Selects event hook := by
  have hbit : applicable hook event = true ↔
      event = GpiodEdge.rising.code ∧ hook.flags &&& hooktabModRise ≠ 0 ∨
        event = GpiodEdge.falling.code ∧ hook.flags &&& hooktabModFall ≠ 0 := by
    unfold applicable
    by_cases hr : event = GpiodEdge.rising.code
    · have hf : event ≠ GpiodEdge.falling.code := by
        rw [hr]
        decide
      simp [hr, show GpiodEdge.rising.code ≠ GpiodEdge.falling.code by decide]
    · by_cases hf : event = GpiodEdge.falling.code
      · simp [hf, show GpiodEdge.falling.code ≠ GpiodEdge.rising.code by decide]
      · simp [hr, hf]
  have hloop : inProgress hook = false ↔
      ¬ (hook.flags &&& hooktabModNoLoop ≠ 0 ∧ hook.spawned ≠ -1) := by
    simp [inProgress]
  have hshot : alreadyFired hook = false ↔
      ¬ (hook.flags &&& hooktabModOneshot ≠ 0 ∧ 0 < hook.fired) := by
    simp [alreadyFired]
  rw [runs, Bool.and_eq_true, Bool.and_eq_true, Bool.not_eq_true', Bool.not_eq_true', hbit, hloop,
    hshot]
  exact ⟨fun h => ⟨h.2, h.1.1, h.1.2⟩, fun h => ⟨⟨h.noLoop, h.oneshot⟩, h.bit⟩⟩

instance (event : ℤ) (hook : GpiodHook) : Decidable (Selects event hook) :=
  decidable_of_iff _ (runs_iff event hook)

/-- The arrays have room for the vectors of the hooks that the event selects. -/
def RoomFor (event : ℤ) (hooks : List GpiodHook) : Prop :=
  ∀ hook ∈ hooks, Selects event hook → HasRoom hook

instance (event : ℤ) (hooks : List GpiodHook) : Decidable (RoomFor event hooks) :=
  inferInstanceAs (Decidable (∀ hook ∈ hooks, _ → _))

/-- The hooks of a list that the event selects, with their positions counted from `j`. -/
def selected (event : ℤ) (j : ℕ) (hooks : List GpiodHook) : List (GpiodHook × ℕ) :=
  (hooks.zipIdx j).filter fun e => Selects event e.1

lemma selected_cons (event : ℤ) (j : ℕ) (hook : GpiodHook) (hooks : List GpiodHook) :
    selected event j (hook :: hooks) =
      if Selects event hook then (hook, j) :: selected event (j + 1) hooks
      else selected event (j + 1) hooks := by
  unfold selected
  rw [List.zipIdx_cons, List.filter_cons]
  simp only [decide_eq_true_eq]

/-! ### The loop -/

variable (label : Str) (event : ℤ) (x : Returns)

/-- The call of `exec_start` for a hook at a position. -/
def callOf (e : GpiodHook × ℕ) : Call := ⟨e.2, e.1.path, hookArgv label event e.1⟩

lemma dispatchLoop_calls (j : ℕ) (hooks : List GpiodHook) :
    (dispatchLoop label event x.exec j hooks).calls =
      (selected event j hooks).map (callOf label event) := by
  induction hooks generalizing j with
  | nil => rfl
  | cons hook hooks ih =>
    rw [selected_cons]
    by_cases hs : Selects event hook
    · have hr := (runs_iff event hook).mpr hs
      rw [if_pos hs, List.map_cons, ← ih]
      by_cases hx : x.exec j = -1
      · rw [dispatchLoop_fail label event x hr hx]
        rfl
      · rw [dispatchLoop_launch label event x hr hx]
        rfl
    · have hr : runs hook event = false := by
        rw [← Bool.not_eq_true, runs_iff]
        exact hs
      rw [if_neg hs, ← ih, dispatchLoop_skip label event x hr]

lemma dispatchLoop_pids (j : ℕ) (hooks : List GpiodHook) :
    (dispatchLoop label event x.exec j hooks).pids =
      ((selected event j hooks).filter fun e => x.exec e.2 ≠ -1).map fun e =>
        (x.exec e.2, e.2) := by
  induction hooks generalizing j with
  | nil => rfl
  | cons hook hooks ih =>
    rw [selected_cons]
    by_cases hs : Selects event hook
    · have hr := (runs_iff event hook).mpr hs
      rw [if_pos hs]
      by_cases hx : x.exec j = -1
      · rw [dispatchLoop_fail label event x hr hx, List.filter_cons_of_neg (by simp [hx]), ← ih]
      · rw [dispatchLoop_launch label event x hr hx, List.filter_cons_of_pos (by simp [hx]),
          List.map_cons, ← ih]
    · have hr : runs hook event = false := by
        rw [← Bool.not_eq_true, runs_iff]
        exact hs
      rw [if_neg hs, ← ih, dispatchLoop_skip label event x hr]

/-- A hook after an event for which its launch returns, or would return, `ret`. -/
def afterEvent (ret : ℤ) (hook : GpiodHook) : GpiodHook :=
  if Selects event hook ∧ ret ≠ -1 then { hook with spawned := ret, fired := 1 } else hook

lemma settle_eq (ret : ℤ) (hook : GpiodHook) :
    settle event ret hook = afterEvent event ret hook := by
  unfold settle afterEvent launched
  simp only [runs_iff]

lemma dispatchLoop_hook_list (j : ℕ) (hooks : List GpiodHook) :
    (dispatchLoop label event x.exec j hooks).hook_list =
      (hooks.zipIdx j).map fun e => afterEvent event (x.exec e.2) e.1 := by
  refine List.ext_getElem? fun k => ?_
  rw [dispatchLoop_hook, List.getElem?_map, List.getElem?_zipIdx, Option.map_map]
  refine congrArg (fun f => hooks[k]?.map f) (funext fun hook => ?_)
  exact settle_eq event _ hook

/-! ### Events -/

/-- What `exec_start` returns in the daemon, of what `access` and `fork` return. -/
def execStart (access fork : ℤ) : ℤ := if access = -1 then -1 else fork

/-- In the parent `fork` returns -1 or a pid. -/
def returnsOf (access fork : ℕ → ℤ) (h : ∀ j, fork j = -1 ∨ 0 < fork j) : Returns where
  exec j := execStart (access j) (fork j)
  ok j := by
    unfold execStart
    split
    · exact Or.inl rfl
    · exact h j

/-- The entries of `pid_list` for the hooks launched, in their order. -/
def newEntries (i : ℕ) (pin : GpioPin) : List (ℤ × HookRef) :=
  ((selected event 0 pin.hook_list).filter fun e => x.exec e.2 ≠ -1).map fun e =>
    (x.exec e.2, ⟨i, e.2⟩)

/-- What the loop over the hooks of a pin comes to: the hooks that the event selects are launched,
in their order, whatever the launches before come to; those launched change, each with an entry of
its own, and nothing else does. -/
structure Right (d : Daemon) (i : ℕ) (pin : GpioPin) (r : Dispatched) : Prop where
  calls : r.calls = (selected event 0 pin.hook_list).map (callOf pin.label event)
  goesOn : r.exited = false
  pins : (behindLoop d i r).gp_list = d.gp_list.set i
    { pin with hook_list := pin.hook_list.zipIdx.map fun e => afterEvent event (x.exec e.2) e.1 }
  entries : (behindLoop d i r).pid_list = (newEntries event x i pin).reverse ++ d.pid_list

def LaunchesRight (d : Daemon) (i : ℕ) (pin : GpioPin) : Prop :=
  ∃ r, formedPin d i event x.exec = some r ∧ Right event x d i pin r

lemma dispatchLoop_right (d : Daemon) {i : ℕ} {pin : GpioPin} (hpin : d.gp_list[i]? = some pin) :
    Right event x d i pin (dispatchLoop pin.label event x.exec 0 pin.hook_list) := by
  refine ⟨dispatchLoop_calls _ _ _ _ _, dispatchLoop_exited _ _ _ _ _, ?_, ?_⟩
  · unfold behindLoop
    rw [dispatchLoop_hook_list]
    refine List.ext_getElem? fun k => ?_
    rw [List.getElem?_modify, List.getElem?_set]
    by_cases hk : i = k
    · subst hk
      rw [hpin, if_pos rfl, if_pos (List.getElem?_eq_some_iff.mp hpin).1]
      simp
    · simp [hk]
  · unfold behindLoop newEntries
    rw [dispatchLoop_pids, List.map_map]
    rfl

/-! ### Room -/

lemma formArgv_slots {hook : GpiodHook} (h : HasRoom hook) :
    (formArgv label event hook).map List.reduceOption = some (hookArgv label event hook) := by
  rw [formArgv_eq label event h, Option.map_some, List.reduceOption_append,
    List.reduceOption_replicate_none, List.append_nil, List.reduceOption, List.filterMap_map]
  simp

/-- **Where the arrays have room** the loop is the one that forms the vectors at once. -/
lemma formedLoop_eq {j : ℕ} {hooks : List GpiodHook} (h : RoomFor event hooks) :
    formedLoop label event x.exec j hooks = some (dispatchLoop label event x.exec j hooks) := by
  induction hooks generalizing j with
  | nil => rfl
  | cons hook hooks ih =>
    obtain ⟨hroom, hrest⟩ := List.forall_mem_cons.mp h
    rw [formedLoop, dispatchLoop, ih hrest]
    cases hr : runs hook event with
    | false => rfl
    | true =>
      obtain ⟨argv, hargv, hslots⟩ := Option.map_eq_some_iff.mp
        (formArgv_slots label event (hroom ((runs_iff event hook).mp hr)))
      rw [hargv, ← hslots]
      by_cases hx : x.exec j = -1 <;> simp [hx, x.ne_zero j]

lemma formedLoop_none {j : ℕ} {hooks : List GpiodHook} (h : ¬ RoomFor event hooks) :
    formedLoop label event x.exec j hooks = none := by
  induction hooks generalizing j with
  | nil => exact absurd (List.forall_mem_nil _) h
  | cons hook hooks ih =>
    rw [formedLoop]
    by_cases hrest : RoomFor event hooks
    · -- so it is the array of the first hook
      have hfirst : ¬ (Selects event hook → HasRoom hook) := fun hroom =>
        h (List.forall_mem_cons.mpr ⟨hroom, hrest⟩)
      rw [Classical.not_imp] at hfirst
      rw [(runs_iff event hook).mpr hfirst.1, formArgv_none label event hfirst.2]
      rfl
    · rw [ih hrest]
      cases runs hook event with
      | false => rfl
      | true =>
        cases formArgv label event hook with
        | none => rfl
        | some argv => simp [x.ne_zero j]

lemma started_dispatchPin (d : Daemon) (i : ℕ) :
    started i x.exec (dispatchPin d i event x.exec) = spawns d i event x.exec := by
  unfold started spawns dispatchPin
  cases d.gp_list[i]? with
  | none => rfl
  | some pin =>
    simp only [dispatchLoop_calls, dispatchLoop_pids, List.filter_map, List.map_map]
    rfl

/-- The arrays have room for the vectors of the hooks of the pin at a position. -/
def RoomAt (d : Daemon) (i : ℕ) (event : ℤ) : Prop :=
  ∀ pin ∈ d.gp_list[i]?, RoomFor event pin.hook_list

instance (d : Daemon) (i : ℕ) (event : ℤ) : Decidable (RoomAt d i event) :=
  inferInstanceAs (Decidable (∀ pin ∈ d.gp_list[i]?, _))

lemma formedPin_eq {d : Daemon} {i : ℕ} (h : RoomAt d i event) :
    formedPin d i event x.exec = some (dispatchPin d i event x.exec) := by
  unfold formedPin dispatchPin
  cases hp : d.gp_list[i]? with
  | none => rfl
  | some pin => exact formedLoop_eq pin.label event x (h pin hp)

lemma formedPin_none {d : Daemon} {i : ℕ} (h : ¬ RoomAt d i event) :
    formedPin d i event x.exec = none := by
  unfold formedPin
  cases hp : d.gp_list[i]? with
  | none => exact absurd (fun pin hpin => by rw [hp] at hpin; cases hpin) h
  | some pin =>
    refine formedLoop_none pin.label event x fun hroom => h fun pin' hpin => ?_
    rw [hp] at hpin
    cases hpin
    exact hroom

/-- **Exactly the right hooks** are launched by an event exactly if the array of each hook that it
selects has room for its vector. -/
theorem launchesRight_iff (d : Daemon) (i : ℕ) (pin : GpioPin) (hpin : d.gp_list[i]? = some pin) :
    LaunchesRight event x d i pin ↔
      ∀ hook ∈ pin.hook_list, Selects event hook → hook.arg_list.length ≤ hook.arg_list_size := by
  change _ ↔ RoomFor event pin.hook_list
  have hloop : formedPin d i event x.exec = formedLoop pin.label event x.exec 0 pin.hook_list := by
    rw [formedPin, hpin]
  rw [LaunchesRight, hloop]
  constructor
  · rintro ⟨r, hr, -⟩
    by_contra hno
    rw [formedLoop_none pin.label event x hno] at hr
    cases hr
  · exact fun hroom => ⟨_, formedLoop_eq pin.label event x hroom, dispatchLoop_right event x d hpin⟩

/-- Three hooks for the rising edge, the first in progress, the second failing to launch. -/
def threeHooks : GpioPin :=
  ⟨bytes "WD0", 0, .sysfs, .both, 0,
    [⟨bytes "/bin/a", 5, 1, 90, 1, [terminator]⟩, ⟨bytes "/bin/b", 1, 0, -1, 1, [terminator]⟩,
      ⟨bytes "/bin/c", 1, 0, -1, 1, [terminator]⟩]⟩

lemma forked_pos (j : ℕ) : (100 + j : ℤ) = -1 ∨ 0 < (100 + j : ℤ) := Or.inr (by omega)

/-- The file of the second hook is not executable. -/
def secondFails : Returns :=
  returnsOf (fun j => if j = 1 then -1 else 0) (fun j => 100 + j) forked_pos

theorem threeHooks_right : LaunchesRight 0 secondFails ⟨[threeHooks], []⟩ 0 threeHooks ∧
    (formedPin ⟨[threeHooks], []⟩ 0 0 secondFails.exec).map (started 0 secondFails.exec) =
      some [(102, ⟨0, 2⟩)] :=
  ⟨(launchesRight_iff 0 secondFails ⟨[threeHooks], []⟩ 0 threeHooks rfl).mpr (by decide), by decide⟩

def longLine : Str :=
  bytes "WD0 EDGE_RISING /bin/a" ++ (List.replicate 255 (bytes " x")).flatten ++ bytes "\n"

/-- Its hook, with the 256 entries counted as none. -/
def longHook : GpiodHook :=
  ⟨bytes "/bin/a", 1, 0, -1, 0, List.replicate 255 ⟨.max, some (bytes "x")⟩ ++ [terminator]⟩

/-- The array is too short for the vector of a hook that is loaded, and `exec_start` is not come
to. -/
theorem longLine_overruns :
    TabBuffer.loadTab wd0 (some longLine) (fun _ => []) =
        .ok (0, wd0.modify 0 (·.addHook longHook)) ∧
      formedPin ⟨wd0.modify 0 (·.addHook longHook), []⟩ 0 GpiodEdge.rising.code
        (onePid 100 (by decide)).exec = none ∧
      ∀ pin, (wd0.modify 0 (·.addHook longHook))[0]? = some pin →
        ¬ LaunchesRight GpiodEdge.rising.code (onePid 100 (by decide))
          ⟨wd0.modify 0 (·.addHook longHook), []⟩ 0 pin := by
  have hnone : formedPin ⟨wd0.modify 0 (·.addHook longHook), []⟩ 0 GpiodEdge.rising.code
      (onePid 100 (by decide)).exec = none := formedLoop_none _ _ _ fun hroom =>
    absurd (hroom longHook List.mem_cons_self (by decide)) (by decide +kernel)
  refine ⟨by decide +kernel, hnone, fun pin _ => ?_⟩
  rintro ⟨r, hr, -⟩
  rw [hnone] at hr
  cases hr

end Gpiod.Launches
