import Gpiod.Pin
import Gpiod.Table

/-!
Launching hooks and taking back the pids of their children, as `gpiod-dispatch.c` does.

A hook is known by the position of its pin in `gp_list` and its own position in the
`hook_list` of the pin: hooks are added while the tabs are loaded and never move after that.
What `exec_start` returns for the hook at each position comes from outside.
-/

namespace Gpiod.Dispatch

open Gpiod.Pin

/-- A call of `exec_start` for the hook at a position of the list. -/
structure Call where
  hook : ℕ
  path : Str
  argv : List (Option Str)
  deriving DecidableEq, Repr

def textEvent : ℤ → Option Str
  | 0 => some (bytes "RISE")
  | 1 => some (bytes "FALL")
  | _ => none

def numEvent : ℤ → Option Str
  | 0 => some (bytes "1")
  | 1 => some (bytes "0")
  | _ => none

/-- The slot of `argv` that an entry of the argument list fills. -/
def argvSlot (label : Str) (event : ℤ) (arg : GpiodHookArgs) : Option Str :=
  match arg.arg with
  | .max => arg.c_arg
  | .label => some label
  | .eventText => textEvent event
  | .eventNum => numEvent event

/-- What the array of a launch gets, as long as it has room. -/
def hookArgv (label : Str) (event : ℤ) (hook : GpiodHook) : List (Option Str) :=
  some hook.path :: hook.arg_list.map (argvSlot label event)

/-! ### The filters -/

/-- The hook is in progress and must not loop. -/
def inProgress (hook : GpiodHook) : Bool :=
  hook.flags &&& hooktabModNoLoop != 0 && hook.spawned != -1

/-- The hook is to run once and has fired. -/
def alreadyFired (hook : GpiodHook) : Bool :=
  hook.flags &&& hooktabModOneshot != 0 && decide (hook.fired > 0)

/-- The event is one the hook asks for. -/
def applicable (hook : GpiodHook) (event : ℤ) : Bool :=
  if event = GpiodEdge.rising.code then hook.flags &&& hooktabModRise != 0
  else if event = GpiodEdge.falling.code then hook.flags &&& hooktabModFall != 0
  else false

/-- The hook passes the filters of `dispatch_hooks`. -/
def runs (hook : GpiodHook) (event : ℤ) : Bool :=
  !inProgress hook && !alreadyFired hook && applicable hook event

/-! ### The loop over the hooks of a pin -/

structure Dispatched where
  hook_list : List GpiodHook
  /-- the entries made in `pid_list`, the first made first -/
  pids : List (ℤ × ℕ)
  calls : List Call
  /-- `exec_start` returned 0, as it does in the child, and the process exits -/
  exited : Bool

/-- A hook whose launch returned a pid. -/
def launched (hook : GpiodHook) (pid : ℤ) : GpiodHook := { hook with spawned := pid, fired := 1 }

@[simp] lemma launched_flags (hook : GpiodHook) (pid : ℤ) :
    (launched hook pid).flags = hook.flags := rfl
@[simp] lemma launched_spawned (hook : GpiodHook) (pid : ℤ) :
    (launched hook pid).spawned = pid := rfl
@[simp] lemma launched_fired (hook : GpiodHook) (pid : ℤ) : (launched hook pid).fired = 1 := rfl

/-- The loop over the hooks, as long as the arrays of the launches have room. -/
def dispatchLoop (label : Str) (event : ℤ) (exec : ℕ → ℤ) : ℕ → List GpiodHook → Dispatched
  | _, [] => ⟨[], [], [], false⟩
  | j, hook :: hooks =>
    if runs hook event then
      let call : Call := ⟨j, hook.path, hookArgv label event hook⟩
      if exec j = 0 then ⟨hook :: hooks, [], [call], true⟩
      else
        let r := dispatchLoop label event exec (j + 1) hooks
        if exec j = -1 then ⟨hook :: r.hook_list, r.pids, call :: r.calls, r.exited⟩
        else ⟨launched hook (exec j) :: r.hook_list, (exec j, j) :: r.pids, call :: r.calls,
          r.exited⟩
    else
      let r := dispatchLoop label event exec (j + 1) hooks
      ⟨hook :: r.hook_list, r.pids, r.calls, r.exited⟩

/-- What `exec_start` returns to the daemon: -1 or the pid of the child. Zero is returned in the
child only, which exits. -/
structure Returns where
  exec : ℕ → ℤ
  ok : ∀ j, exec j = -1 ∨ 0 < exec j

lemma Returns.ne_zero (x : Returns) (j : ℕ) : x.exec j ≠ 0 := by
  have := x.ok j; omega

def noExec : Returns := ⟨fun _ => -1, fun _ => Or.inl rfl⟩

/-- Every launch returns this pid. -/
def onePid (pid : ℤ) (h : 0 < pid) : Returns := ⟨fun _ => pid, fun _ => Or.inr h⟩

/-- The hook at a position after `dispatch_hooks`. -/
def settle (event : ℤ) (ret : ℤ) (hook : GpiodHook) : GpiodHook :=
  if runs hook event ∧ ret ≠ -1 then launched hook ret else hook

lemma settle_cases (event ret : ℤ) (hook : GpiodHook) :
    (runs hook event = true ∧ ret ≠ -1 ∧ settle event ret hook = launched hook ret) ∨
      settle event ret hook = hook := by
  unfold settle
  split
  · next h => exact Or.inl ⟨h.1, h.2, rfl⟩
  · exact Or.inr rfl

lemma settle_flags (event ret : ℤ) (hook : GpiodHook) :
    (settle event ret hook).flags = hook.flags := by
  rcases settle_cases event ret hook with ⟨-, -, h⟩ | h <;> rw [h]
  rfl

variable (label : Str) (event : ℤ) (x : Returns)

lemma dispatchLoop_skip {j : ℕ} {hook : GpiodHook} {hooks : List GpiodHook}
    (h : runs hook event = false) :
    dispatchLoop label event x.exec j (hook :: hooks) =
      let r := dispatchLoop label event x.exec (j + 1) hooks
      ⟨hook :: r.hook_list, r.pids, r.calls, r.exited⟩ := by
  simp [dispatchLoop, h]

lemma dispatchLoop_fail {j : ℕ} {hook : GpiodHook} {hooks : List GpiodHook}
    (h : runs hook event = true) (hx : x.exec j = -1) :
    dispatchLoop label event x.exec j (hook :: hooks) =
      let r := dispatchLoop label event x.exec (j + 1) hooks
      ⟨hook :: r.hook_list, r.pids, ⟨j, hook.path, hookArgv label event hook⟩ :: r.calls,
        r.exited⟩ := by
  simp [dispatchLoop, h, hx]

lemma dispatchLoop_launch {j : ℕ} {hook : GpiodHook} {hooks : List GpiodHook}
    (h : runs hook event = true) (hx : x.exec j ≠ -1) :
    dispatchLoop label event x.exec j (hook :: hooks) =
      let r := dispatchLoop label event x.exec (j + 1) hooks
      ⟨launched hook (x.exec j) :: r.hook_list, (x.exec j, j) :: r.pids,
        ⟨j, hook.path, hookArgv label event hook⟩ :: r.calls, r.exited⟩ := by
  simp [dispatchLoop, h, hx, x.ne_zero j]

/-- **The hooks after `dispatch_hooks`.** -/
lemma dispatchLoop_hook (j : ℕ) (hooks : List GpiodHook) (k : ℕ) :
    (dispatchLoop label event x.exec j hooks).hook_list[k]? =
      hooks[k]?.map (settle event (x.exec (j + k))) := by
  induction hooks generalizing j k with
  | nil => rfl
  | cons hook hooks ih =>
    have hrest : ∀ k, (dispatchLoop label event x.exec (j + 1) hooks).hook_list[k]? =
        hooks[k]?.map (settle event (x.exec (j + (k + 1)))) := fun k => by
      rw [ih]; congr 3; omega
    rcases hr : runs hook event with _ | _
    · rw [dispatchLoop_skip label event x hr]
      cases k with
      | zero => simp [settle, hr]
      | succ k => simpa using hrest k
    · by_cases hx : x.exec j = -1
      · rw [dispatchLoop_fail label event x hr hx]
        cases k with
        | zero => simp [settle, hr, hx]
        | succ k => simpa using hrest k
      · rw [dispatchLoop_launch label event x hr hx]
        cases k with
        | zero => simp [settle, hr, hx]
        | succ k => simpa using hrest k

/-- An entry of a list counted from a position: the first one, or one of the rest. -/
lemma exists_counted {α : Type*} {P : ℕ → α → Prop} {a : α} {l : List α} {j : ℕ} :
    (∃ k b, (a :: l)[k]? = some b ∧ P (j + k) b) ↔
      P j a ∨ ∃ k b, l[k]? = some b ∧ P (j + 1 + k) b := by
  constructor
  · rintro ⟨k, b, hk, hb⟩
    cases k with
    | zero => cases hk; exact Or.inl hb
    | succ k => exact Or.inr ⟨k, b, hk, by rwa [show j + 1 + k = j + (k + 1) by omega]⟩
  · rintro (ha | ⟨k, b, hk, hb⟩)
    · exact ⟨0, a, rfl, ha⟩
    · exact ⟨k + 1, b, hk, by rwa [show j + (k + 1) = j + 1 + k by omega]⟩

/-- **The calls of `exec_start`**: one for each hook that passes the filters. -/
lemma mem_dispatchLoop_calls (j : ℕ) (hooks : List GpiodHook) (call : Call) :
    call ∈ (dispatchLoop label event x.exec j hooks).calls ↔
      ∃ k hook, hooks[k]? = some hook ∧ runs hook event = true ∧
        call = ⟨j + k, hook.path, hookArgv label event hook⟩ := by
  induction hooks generalizing j with
  | nil => simp [dispatchLoop]
  | cons hook hooks ih =>
    rw [exists_counted (P := fun n hook => runs hook event = true ∧
      call = ⟨n, hook.path, hookArgv label event hook⟩), ← ih]
    rcases hr : runs hook event with _ | _
    · rw [dispatchLoop_skip label event x hr]
      simp
    · by_cases hx : x.exec j = -1
      · rw [dispatchLoop_fail label event x hr hx]
        simp
      · rw [dispatchLoop_launch label event x hr hx]
        simp

/-- **The entries made in `pid_list`**: one for each hook that was launched. -/
lemma mem_dispatchLoop_pids (j : ℕ) (hooks : List GpiodHook) (e : ℤ × ℕ) :
    e ∈ (dispatchLoop label event x.exec j hooks).pids ↔
      ∃ k hook, hooks[k]? = some hook ∧ runs hook event = true ∧ x.exec (j + k) ≠ -1 ∧
        e = (x.exec (j + k), j + k) := by
  induction hooks generalizing j with
  | nil => simp [dispatchLoop]
  | cons hook hooks ih =>
    rw [exists_counted (P := fun n hook => runs hook event = true ∧ x.exec n ≠ -1 ∧
      e = (x.exec n, n)), ← ih]
    rcases hr : runs hook event with _ | _
    · rw [dispatchLoop_skip label event x hr]
      simp
    · by_cases hx : x.exec j = -1
      · rw [dispatchLoop_fail label event x hr hx]
        simp [hx]
      · rw [dispatchLoop_launch label event x hr hx]
        simp [hx]

lemma dispatchLoop_pids_sorted (j : ℕ) (hooks : List GpiodHook) :
    (dispatchLoop label event x.exec j hooks).pids.Pairwise fun e f => e.2 < f.2 := by
  induction hooks generalizing j with
  | nil => exact List.Pairwise.nil
  | cons hook hooks ih =>
    rcases hr : runs hook event with _ | _
    · rw [dispatchLoop_skip label event x hr]; exact ih _
    · by_cases hx : x.exec j = -1
      · rw [dispatchLoop_fail label event x hr hx]; exact ih _
      · rw [dispatchLoop_launch label event x hr hx]
        refine List.pairwise_cons.mpr ⟨fun e he => ?_, ih _⟩
        obtain ⟨k, -, -, -, -, rfl⟩ := (mem_dispatchLoop_pids label event x _ _ _).mp he
        show j < j + 1 + k
        omega

lemma dispatchLoop_exited (j : ℕ) (hooks : List GpiodHook) :
    (dispatchLoop label event x.exec j hooks).exited = false := by
  induction hooks generalizing j with
  | nil => rfl
  | cons hook hooks ih =>
    rcases hr : runs hook event with _ | _
    · rw [dispatchLoop_skip label event x hr]; exact ih _
    · by_cases hx : x.exec j = -1
      · rw [dispatchLoop_fail label event x hr hx]; exact ih _
      · rw [dispatchLoop_launch label event x hr hx]; exact ih _

/-! ### The daemon -/

/-- A hook, by the position of its pin and its own. -/
structure HookRef where
  pin : ℕ
  hook : ℕ
  deriving DecidableEq, Repr

/-- The pins with their hooks, and `pid_list` with the entry added last in front. -/
structure Daemon where
  gp_list : List GpioPin
  pid_list : List (ℤ × HookRef)
  deriving DecidableEq, Repr

def Daemon.hook? (d : Daemon) (r : HookRef) : Option GpiodHook :=
  d.gp_list[r.pin]?.bind fun pin => pin.hook_list[r.hook]?

/-- The loop of `dispatch_hooks` over the hooks of the pin at a position. -/
def dispatchPin (d : Daemon) (i : ℕ) (event : ℤ) (exec : ℕ → ℤ) : Dispatched :=
  match d.gp_list[i]? with
  | none => ⟨[], [], [], false⟩
  | some pin => dispatchLoop pin.label event exec 0 pin.hook_list

/-- The children launched, with their hooks, the first launched first. -/
def spawns (d : Daemon) (i : ℕ) (event : ℤ) (exec : ℕ → ℤ) : List (ℤ × HookRef) :=
  (dispatchPin d i event exec).pids.map fun e => (e.1, ⟨i, e.2⟩)

/-- The daemon after `dispatch_hooks`. -/
def dispatchHooks (d : Daemon) (i : ℕ) (event : ℤ) (exec : ℕ → ℤ) : Daemon where
  gp_list := d.gp_list.modify i fun pin =>
    { pin with hook_list := (dispatchPin d i event exec).hook_list }
  pid_list := (spawns d i event exec).reverse ++ d.pid_list

/-- A hook whose child was reported as finished. -/
def cleared (hook : GpiodHook) : GpiodHook := { hook with spawned := -1 }

@[simp] lemma cleared_flags (hook : GpiodHook) : (cleared hook).flags = hook.flags := rfl
@[simp] lemma cleared_spawned (hook : GpiodHook) : (cleared hook).spawned = -1 := rfl
@[simp] lemma cleared_fired (hook : GpiodHook) : (cleared hook).fired = hook.fired := rfl

/-- `hook_clear_spawned`: what it returns, and the daemon after it. -/
def hookClearSpawned (d : Daemon) (pid : ℤ) : ℤ × Daemon :=
  match Table.find d.pid_list pid with
  | none => (-1, d)
  | some r => (0, {
      gp_list := d.gp_list.modify r.pin fun pin =>
        { pin with hook_list := pin.hook_list.modify r.hook cleared }
      pid_list := Table.del d.pid_list pid })

/-- The SIGCHLD branch of the loop, with what `waitpid` returned. -/
def onSigchld (d : Daemon) (ssi_pid pid : ℤ) : Daemon :=
  if pid ≠ -1 then (hookClearSpawned d ssi_pid).2 else d

/-- `dispatch_hooks` calls `exec_start` for the hook. -/
def Calls (d : Daemon) (r : HookRef) (event : ℤ) (exec : ℕ → ℤ) : Prop :=
  ∃ call ∈ (dispatchPin d r.pin event exec).calls, call.hook = r.hook

lemma calls_iff {d : Daemon} {r : HookRef} {hook : GpiodHook} (h : d.hook? r = some hook) :
    Calls d r event x.exec ↔ runs hook event = true := by
  unfold Calls dispatchPin
  unfold Daemon.hook? at h
  obtain ⟨pin, hp, hh⟩ := Option.bind_eq_some_iff.mp h
  simp only [hp, mem_dispatchLoop_calls, Nat.zero_add]
  constructor
  · rintro ⟨call, ⟨k, hook', hk, hr, rfl⟩, hcall⟩
    obtain rfl : hook' = hook := by
      rw [show k = r.hook from hcall, hh] at hk
      exact (Option.some.inj hk).symm
    exact hr
  · intro hr
    exact ⟨_, ⟨r.hook, hook, hh, hr, rfl⟩, rfl⟩

lemma mem_spawns (d : Daemon) (i : ℕ) (e : ℤ × HookRef) :
    e ∈ spawns d i event x.exec ↔
      ∃ hook, d.hook? e.2 = some hook ∧ e.2.pin = i ∧ runs hook event = true ∧
        x.exec e.2.hook ≠ -1 ∧ e.1 = x.exec e.2.hook := by
  obtain ⟨pid, ⟨p, j⟩⟩ := e
  unfold spawns dispatchPin Daemon.hook?
  rw [List.mem_map]
  cases hp : d.gp_list[i]? with
  | none =>
    simp only [List.not_mem_nil, false_and, exists_false, false_iff]
    rintro ⟨hook, hh, rfl, -⟩
    simp [hp] at hh
  | some pin =>
    simp only [mem_dispatchLoop_pids, Nat.zero_add]
    constructor
    · rintro ⟨⟨pid', k⟩, ⟨k', hook, hk, hr, hx, he⟩, hh⟩
      cases he
      cases hh
      exact ⟨hook, by simp [hp, hk], rfl, hr, hx, rfl⟩
    · rintro ⟨hook, hh, rfl, hr, hx, he⟩
      exact ⟨(pid, j), ⟨j, hook, by simpa [hp] using hh, hr, hx, by rw [he]⟩, rfl⟩

lemma spawns_nodup (d : Daemon) (i : ℕ) : ((spawns d i event x.exec).map Prod.snd).Nodup := by
  unfold spawns dispatchPin
  cases d.gp_list[i]? with
  | none => simp
  | some pin =>
    rw [List.map_map, List.nodup_iff_pairwise_ne, List.pairwise_map]
    refine (dispatchLoop_pids_sorted pin.label event x 0 pin.hook_list).imp fun h he => ?_
    simp only [Function.comp_apply, HookRef.mk.injEq, true_and] at he
    omega

lemma countP_spawns_le (d : Daemon) (i : ℕ) (r : HookRef) :
    ((spawns d i event x.exec).countP fun e => e.2 = r) ≤ 1 := by
  have h := List.nodup_iff_count_le_one.mp (spawns_nodup event x d i) r
  rw [List.count, List.countP_map] at h
  exact h

/-- **The hooks after `dispatch_hooks`**: those of the pin are settled, the others stay. -/
lemma hook?_dispatchHooks (d : Daemon) (i : ℕ) (r : HookRef) :
    (dispatchHooks d i event x.exec).hook? r =
      if r.pin = i then (d.hook? r).map (settle event (x.exec r.hook)) else d.hook? r := by
  unfold dispatchHooks dispatchPin Daemon.hook?
  by_cases hr : r.pin = i
  · subst hr
    cases hp : d.gp_list[r.pin]? with
    | none => simp [hp]
    | some pin => simp [hp, dispatchLoop_hook]
  · cases hp : d.gp_list[r.pin]? <;> simp [hp, hr, Ne.symm hr]

/-- **The hooks after `hook_clear_spawned`**: the one found under the pid is cleared. -/
lemma hook?_hookClearSpawned (d : Daemon) (pid : ℤ) (r : HookRef) :
    (hookClearSpawned d pid).2.hook? r =
      if Table.find d.pid_list pid = some r then (d.hook? r).map cleared else d.hook? r := by
  unfold hookClearSpawned
  cases hf : Table.find d.pid_list pid with
  | none => rfl
  | some q =>
    by_cases hq : q = r
    · subst hq
      cases hp : d.gp_list[q.pin]? <;> simp [Daemon.hook?, hp]
    · rw [if_neg (by simpa using hq)]
      by_cases hpin : q.pin = r.pin
      · -- another hook of the same pin
        have hhook : q.hook ≠ r.hook := fun hh => hq (by
          cases q; cases r; simp_all)
        cases hp : d.gp_list[r.pin]? <;> simp [Daemon.hook?, hp, hpin, hhook]
      · cases hp : d.gp_list[r.pin]? <;> simp [Daemon.hook?, hp, hpin]

lemma hookClearSpawned_pid_list (d : Daemon) (pid : ℤ) :
    (hookClearSpawned d pid).2.pid_list = Table.del d.pid_list pid := by
  unfold hookClearSpawned
  cases hf : Table.find d.pid_list pid with
  | none => exact (Table.del_of_find_none hf).symm
  | some r => rfl

lemma spawns_pos (d : Daemon) (i : ℕ) : ∀ e ∈ spawns d i event x.exec, 0 < e.1 := by
  intro e he
  obtain ⟨-, -, -, -, hne, heq⟩ := (mem_spawns event x d i e).mp he
  have := x.ok e.2.hook
  omega

end Gpiod.Dispatch
