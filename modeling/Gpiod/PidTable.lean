import Mathlib.Data.Int.Interval
import Gpiod.Children
import Gpiod.UtHashRun

/-!
`pid_list` of `gpiod-dispatch.c` in its hash table: what `dispatch_hooks` adds and
`hook_clear_spawned` deletes, with the memory of the entries.

The daemon with the hash table goes through the states of the one whose `pid_list` is a list.
-/

namespace Gpiod.PidTable

open Gpiod.Pin Gpiod.UtHash Gpiod.Dispatch Gpiod.Children Gpiod.Machine Gpiod.Launches
open Gpiod.Argv (formArgv formArgv_eq)
open Gpiod.TabScan (bind_ok)

variable {A : Type} [DecidableEq A]

/-- `pid_list`, and what the `hook` of every entry points at. -/
structure Pids (A : Type) where
  pid_list : Hash A ℤ
  hook : A → HookRef

structure DaemonAt (A : Type) where
  gp_list : List GpioPin
  pids : Pids A

/-- The memory that an entry gets, and the answers to the allocations of the table. -/
structure Alloc (A : Type) where
  addr : A
  malloc : ℕ → Bool

/-- An entry for a child: `malloc`, the two fields and `HASH_ADD`. -/
def addPid (hashFcn : ℤ → BitVec 32) (p : Pids A) (pid : ℤ) (r : HookRef) (mem : Alloc A) :
    Except Stop (Pids A) := do
  let pid_list ← hashAdd hashFcn mem.malloc (p.pid_list.alloc mem.addr) pid mem.addr
  .ok ⟨pid_list, Function.update p.hook mem.addr r⟩

/-- The loop of `dispatch_hooks`; an `exec_start` that returns 0 has forked, and the child
exits. -/
def dispatchLoopAt (hashFcn : ℤ → BitVec 32) (label : Str) (event : ℤ) (exec : ℕ → ℤ)
    (mem : ℕ → Alloc A) (i : ℕ) :
    ℕ → List GpiodHook → Pids A → Except Stop (List GpiodHook × Pids A)
  | _, [], p => .ok ([], p)
  | j, hook :: hooks, p =>
    if runs hook event then
      match formArgv label event hook with
      | none => .error .fault
      | some _ =>
        if exec j = 0 then .error .exited
        else if exec j = -1 then do
          let r ← dispatchLoopAt hashFcn label event exec mem i (j + 1) hooks p
          .ok (hook :: r.1, r.2)
        else do
          let p ← addPid hashFcn p (exec j) ⟨i, j⟩ (mem j)
          let r ← dispatchLoopAt hashFcn label event exec mem i (j + 1) hooks p
          .ok (launched hook (exec j) :: r.1, r.2)
    else do
      let r ← dispatchLoopAt hashFcn label event exec mem i (j + 1) hooks p
      .ok (hook :: r.1, r.2)

/-- `dispatch_hooks` for the pin at a position. -/
def dispatchHooksAt (hashFcn : ℤ → BitVec 32) (d : DaemonAt A) (i : ℕ) (event : ℤ) (exec : ℕ → ℤ)
    (mem : ℕ → Alloc A) : Except Stop (DaemonAt A) :=
  match d.gp_list[i]? with
  | none => .ok d
  | some pin => do
    let r ← dispatchLoopAt hashFcn pin.label event exec mem i 0 pin.hook_list d.pids
    .ok ⟨d.gp_list.modify i fun pin => { pin with hook_list := r.1 }, r.2⟩

/-- `hook_clear_spawned`. -/
def hookClearSpawnedAt (hashFcn : ℤ → BitVec 32) (d : DaemonAt A) (pid : ℤ) :
    Except Stop (ℤ × DaemonAt A) := do
  let out ← hashFind hashFcn d.pids.pid_list pid
  match out with
  | none => .ok (-1, d)
  | some pid_ => do
    d.pids.pid_list.deref pid_
    let r := d.pids.hook pid_
    let gp_list := d.gp_list.modify r.pin fun pin =>
      { pin with hook_list := pin.hook_list.modify r.hook cleared }
    let pid_list ← hashDelete d.pids.pid_list pid_
    let pid_list ← pid_list.free pid_
    .ok (0, ⟨gp_list, { d.pids with pid_list := pid_list }⟩)

/-! ### The hash table and the list -/

/-- The entries of the table, the one added last in front. -/
structure Lists (hashFcn : ℤ → BitVec 32) (p : Pids A) (pid_list : List (ℤ × HookRef))
    (es : List (A × ℤ)) : Prop where
  stores : Stores hashFcn p.pid_list es
  pids : pid_list = (es.map fun e => (e.2, p.hook e.1)).reverse

variable {hashFcn : ℤ → BitVec 32} {p : Pids A} {l : List (ℤ × HookRef)} {es : List (A × ℤ)}

lemma Lists.add (hl : Lists hashFcn p l es) (pid : ℤ) (r : HookRef) {mem : Alloc A}
    (hnew : mem.addr ∉ es.map Prod.fst) (hmalloc : Bounded mem.malloc)
    (hfew : l.length + 1 < 2 ^ 32) :
    addPid hashFcn p pid r mem = .error .exited ∨ ∃ p', addPid hashFcn p pid r mem = .ok p' ∧
      Lists hashFcn p' ((pid, r) :: l) (es ++ [(mem.addr, pid)]) := by
  have hlen : es.length = l.length := by rw [hl.pids, List.length_reverse, List.length_map]
  rcases hl.stores.add hnew pid hmalloc (hlen ▸ hfew) with hadd | ⟨h', hadd, hs⟩
  · left
    simp only [addPid, hadd, bind, Except.bind]
  · refine Or.inr ⟨⟨h', Function.update p.hook mem.addr r⟩, ?_, hs, ?_⟩
    · simp only [addPid, hadd, bind, Except.bind]
    · have hold : es.map (fun e => (e.2, Function.update p.hook mem.addr r e.1)) =
          es.map fun e => (e.2, p.hook e.1) := List.map_congr_left fun e he => by
        have hne : e.1 ≠ mem.addr := fun heq => hnew (heq ▸ List.mem_map_of_mem he)
        rw [Function.update_of_ne hne]
      rw [List.map_append, hold, List.reverse_append, ← hl.pids]
      simp

/-- The memory that `malloc` gives is not in use, and no two entries get the same. -/
structure Unused (p : Pids A) (mem : ℕ → Alloc A) : Prop where
  fresh : ∀ j, p.pid_list.live (mem j).addr = false
  inj : ∀ j k, (mem j).addr = (mem k).addr → j = k
  malloc : ∀ j, Bounded (mem j).malloc

/-- **The loop** makes the entries of the loop over the list. -/
lemma Lists.dispatchLoop {mem : ℕ → Alloc A} (hinj : ∀ j k, (mem j).addr = (mem k).addr → j = k)
    (hmalloc : ∀ j, Bounded (mem j).malloc) (label : Str) (event : ℤ) (x : Returns) (i : ℕ)
    {j : ℕ} {hooks : List GpiodHook} (hroom : RoomFor event hooks) (hl : Lists hashFcn p l es)
    (hnew : ∀ k, j ≤ k → (mem k).addr ∉ es.map Prod.fst)
    (hfew : l.length + (Dispatch.dispatchLoop label event x.exec j hooks).pids.length < 2 ^ 32) :
    dispatchLoopAt hashFcn label event x.exec mem i j hooks p = .error .exited ∨
      ∃ p' es', dispatchLoopAt hashFcn label event x.exec mem i j hooks p =
          .ok ((Dispatch.dispatchLoop label event x.exec j hooks).hook_list, p') ∧
        Lists hashFcn p' ((((Dispatch.dispatchLoop label event x.exec j hooks).pids.map
          fun e => (e.1, (⟨i, e.2⟩ : HookRef))).reverse) ++ l) es' := by
  induction hooks generalizing j p l es with
  | nil => exact Or.inr ⟨p, es, rfl, hl⟩
  | cons hook hooks ih =>
    obtain ⟨hfirst, hrest⟩ := List.forall_mem_cons.mp hroom
    have hnew' : ∀ k, j + 1 ≤ k → (mem k).addr ∉ es.map Prod.fst := fun k hk => hnew k (by omega)
    cases hr : runs hook event with
    | false =>
      rw [dispatchLoop_skip label event x hr] at hfew ⊢
      simp only [dispatchLoopAt, hr, Bool.false_eq_true, if_false]
      rcases ih hrest hl hnew' hfew with hexit | ⟨p', es', hok, hl'⟩
      · left
        rw [hexit]
        rfl
      · exact Or.inr ⟨p', es', by rw [hok]; rfl, hl'⟩
    | true =>
      have hargv := formArgv_eq label event (hfirst ((runs_iff event hook).mp hr))
      simp only [dispatchLoopAt, hr, hargv, if_true, x.ne_zero j, if_false]
      by_cases hx : x.exec j = -1
      · rw [dispatchLoop_fail label event x hr hx] at hfew ⊢
        rw [if_pos hx]
        rcases ih hrest hl hnew' hfew with hexit | ⟨p', es', hok, hl'⟩
        · left
          rw [hexit]
          rfl
        · exact Or.inr ⟨p', es', by rw [hok]; rfl, hl'⟩
      · rw [dispatchLoop_launch label event x hr hx] at hfew ⊢
        simp only [List.length_cons] at hfew
        rw [if_neg hx]
        rcases hl.add (x.exec j) ⟨i, j⟩ (hnew j le_rfl) (hmalloc j) (by omega) with
          hexit | ⟨p₁, hadd, hl₁⟩
        · left
          rw [hexit]
          rfl
        · have hnew₁ : ∀ k, j + 1 ≤ k →
              (mem k).addr ∉ (es ++ [((mem j).addr, x.exec j)]).map Prod.fst := fun k hk hin => by
            rw [List.map_append, List.mem_append] at hin
            rcases hin with hin | hin
            · exact hnew' k hk hin
            · have := hinj k j (by simpa using hin)
              omega
          rw [hadd]
          simp only [bind, Except.bind]
          rcases ih hrest hl₁ hnew₁ (by rw [List.length_cons]; omega) with
            hexit | ⟨p', es', hok, hl'⟩
          · left
            rw [hexit]
          · refine Or.inr ⟨p', es', by rw [hok], ?_⟩
            simp only [List.map_cons, List.reverse_cons, List.append_assoc, List.singleton_append]
            exact hl'

lemma roomFor_of_dispatchLoopAt {label : Str} {event : ℤ} {exec : ℕ → ℤ} {mem : ℕ → Alloc A}
    {i j : ℕ} {hooks : List GpiodHook} {r : List GpiodHook × Pids A}
    (h : dispatchLoopAt hashFcn label event exec mem i j hooks p = .ok r) :
    RoomFor event hooks := by
  induction hooks generalizing j p r with
  | nil => exact List.forall_mem_nil _
  | cons hook hooks ih =>
    rw [dispatchLoopAt] at h
    split at h
    · next hr =>
      split at h
      · cases h
      · next argv hargv =>
        have hroom : Argv.HasRoom hook := by
          by_contra hno
          rw [Argv.formArgv_none label event hno] at hargv
          cases hargv
        refine List.forall_mem_cons.mpr ⟨fun _ => hroom, ?_⟩
        split at h
        · cases h
        · split at h
          · obtain ⟨r', hr', -⟩ := bind_ok h
            exact ih hr'
          · obtain ⟨p', -, h⟩ := bind_ok h
            obtain ⟨r', hr', -⟩ := bind_ok h
            exact ih hr'
    · next hr =>
      obtain ⟨r', hr', -⟩ := bind_ok h
      exact List.forall_mem_cons.mpr ⟨fun hs => absurd ((runs_iff event hook).mpr hs) hr, ih hr'⟩

/-- **`dispatch_hooks`** on the table is that on the list. -/
lemma Lists.dispatchHooks (hl : Lists hashFcn p l es) (gp_list : List GpioPin) (i : ℕ) (event : ℤ)
    (x : Returns) {mem : ℕ → Alloc A} (hmem : Unused p mem)
    (hroom : RoomAt ⟨gp_list, l⟩ i event)
    (hfew : l.length + (spawns ⟨gp_list, l⟩ i event x.exec).length < 2 ^ 32) :
    dispatchHooksAt hashFcn ⟨gp_list, p⟩ i event x.exec mem = .error .exited ∨
      ∃ p' es', dispatchHooksAt hashFcn ⟨gp_list, p⟩ i event x.exec mem =
          .ok ⟨(Dispatch.dispatchHooks ⟨gp_list, l⟩ i event x.exec).gp_list, p'⟩ ∧
        Lists hashFcn p' (Dispatch.dispatchHooks ⟨gp_list, l⟩ i event x.exec).pid_list es' := by
  have hnew : ∀ k, 0 ≤ k → (mem k).addr ∉ es.map Prod.fst := fun k _ hin => by
    have := hl.stores.items.live _ hin
    rw [hmem.fresh k] at this
    cases this
  cases hp : gp_list[i]? with
  | none =>
    have hsame : gp_list.modify i (fun pin => { pin with hook_list := [] }) = gp_list :=
      List.modify_eq_self (List.getElem?_eq_none_iff.mp hp)
    refine Or.inr ⟨p, es, ?_, ?_⟩
    · simp only [dispatchHooksAt, hp, Dispatch.dispatchHooks, dispatchPin, hsame]
    · simp only [Dispatch.dispatchHooks, spawns, dispatchPin, hp, List.map_nil, List.reverse_nil,
        List.nil_append]
      exact hl
  | some pin =>
    simp only [spawns, dispatchPin, hp, List.length_map] at hfew
    simp only [dispatchHooksAt, hp, Dispatch.dispatchHooks, spawns, dispatchPin]
    rcases hl.dispatchLoop hmem.inj hmem.malloc pin.label event x i (hroom pin hp) hnew hfew with
      hexit | ⟨p', es', hok, hl'⟩
    · left
      rw [hexit]
      rfl
    · exact Or.inr ⟨p', es', by rw [hok]; rfl, hl'⟩

/-- **`hook_clear_spawned`** on the table is that on the list. -/
lemma Lists.clear (hl : Lists hashFcn p l es) (hd : Table.Distinct l) (gp_list : List GpioPin)
    (pid : ℤ) : ∃ p' es', hookClearSpawnedAt hashFcn ⟨gp_list, p⟩ pid =
        .ok ((hookClearSpawned ⟨gp_list, l⟩ pid).1,
          ⟨(hookClearSpawned ⟨gp_list, l⟩ pid).2.gp_list, p'⟩) ∧
      Lists hashFcn p' (hookClearSpawned ⟨gp_list, l⟩ pid).2.pid_list es' := by
  have hmem : ∀ k r, (k, r) ∈ l ↔ ∃ e ∈ es, e.2 = k ∧ p.hook e.1 = r := fun k r => by
    rw [hl.pids, List.mem_reverse, List.mem_map]
    simp only [Prod.mk.injEq]
  obtain ⟨out, hout, hnone⟩ := hl.stores.answers.find pid
  cases out with
  | none =>
    have hfind : Table.find l pid = none := Table.find_eq_none_iff.mpr fun r hin => by
      obtain ⟨e, he, hkey, -⟩ := (hmem _ _).mp hin
      exact hnone.mp rfl e he hkey
    have hclear : hookClearSpawned ⟨gp_list, l⟩ pid = (-1, ⟨gp_list, l⟩) := by
      simp only [hookClearSpawned, hfind]
    rw [hclear]
    exact ⟨p, es, by simp only [hookClearSpawnedAt, hout, bind, Except.bind], hl⟩
  | some a =>
    have hin := hl.stores.answers.found pid a hout
    have hfind : Table.find l pid = some (p.hook a) :=
      (Table.find_eq_some_iff hd).mpr ((hmem _ _).mpr ⟨(a, pid), hin, rfl, rfl⟩)
    have hclear : hookClearSpawned ⟨gp_list, l⟩ pid = (0, ⟨gp_list.modify (p.hook a).pin
        fun pin => { pin with hook_list := pin.hook_list.modify (p.hook a).hook cleared },
        Table.del l pid⟩) := by
      simp only [hookClearSpawned, hfind]
    have ha : a ∈ es.map Prod.fst := List.mem_map_of_mem hin
    obtain ⟨h₁, h', hdel, hfree, hs⟩ := hl.stores.del ha
    have hpids : (es.map Prod.snd).Nodup := by
      rw [Table.Distinct, hl.pids, List.map_reverse, List.nodup_reverse, List.map_map] at hd
      exact hd
    -- the entry at the address is the one under the pid
    have hentry : ∀ e ∈ es, (e.2 = pid ↔ e.1 = a) := fun e he =>
      ⟨fun hkey => congrArg Prod.fst (List.inj_on_of_nodup_map hpids he hin hkey),
        fun haddr => congrArg Prod.snd
          (List.inj_on_of_nodup_map hl.stores.items.nodup he hin haddr)⟩
    have hleft : Table.del l pid =
        ((es.filter fun e => e.1 ≠ a).map fun e => (e.2, p.hook e.1)).reverse := by
      rw [Table.del_eq_filter hd, hl.pids, List.filter_reverse, List.filter_map]
      congr 2
      exact List.filter_congr fun e he => decide_eq_decide.mpr (not_congr (hentry e he))
    refine ⟨{ p with pid_list := h' }, _, ?_, hs, ?_⟩
    · rw [hclear]
      simp only [hookClearSpawnedAt, hout, deref_eq (hl.stores.items.live a ha), hdel, hfree, bind,
        Except.bind]
    · rw [hclear]
      exact hleft

/-! ### The daemon and its children -/

/-- The SIGCHLD branch of the loop. -/
def onSigchldAt (hashFcn : ℤ → BitVec 32) (d : DaemonAt A) (ssi_pid pid : ℤ) :
    Except Stop (DaemonAt A) :=
  if pid ≠ -1 then do
    let r ← hookClearSpawnedAt hashFcn d ssi_pid
    .ok r.2
  else .ok d

/-- **The SIGCHLD branch** on the table is that on the list, to which it adds nothing. -/
lemma Lists.onSigchld (hl : Lists hashFcn p l es) (hd : Table.Distinct l) (gp_list : List GpioPin)
    (ssi_pid pid : ℤ) : ∃ p' es', onSigchldAt hashFcn ⟨gp_list, p⟩ ssi_pid pid =
        .ok ⟨(Dispatch.onSigchld ⟨gp_list, l⟩ ssi_pid pid).gp_list, p'⟩ ∧
      Lists hashFcn p' (Dispatch.onSigchld ⟨gp_list, l⟩ ssi_pid pid).pid_list es' ∧
      (Dispatch.onSigchld ⟨gp_list, l⟩ ssi_pid pid).pid_list ⊆ l := by
  unfold onSigchldAt Dispatch.onSigchld
  split
  · obtain ⟨p', es', hok, hl'⟩ := hl.clear hd gp_list ssi_pid
    refine ⟨p', es', ?_, hl', fun e he => ?_⟩
    · simp only [hok, bind, Except.bind]
    · rw [hookClearSpawned_pid_list] at he
      exact ((Table.mem_del_iff hd).mp he).1
  · exact ⟨p, es, rfl, hl, List.Subset.refl l⟩

structure SysAt (A : Type) where
  daemon : DaemonAt A
  children : List Child
  pending : Option ℤ
  pc : Pc

/-- The system but for `pid_list`, which no launch looks at. -/
def SysAt.pins (s : SysAt A) : Sys := ⟨⟨s.daemon.gp_list, []⟩, s.children, s.pending, s.pc⟩

/-- The pids that `exec_start` returns are of the type `pid_t`. -/
def PidT (x : Returns) : Prop := ∀ j, x.exec j < 2 ^ 31

/-- The steps of the system with the hash table. -/
inductive StepAt (hashFcn : ℤ → BitVec 32) : SysAt A → Act → SysAt A → Prop
  | wake {s : SysAt A} (hpc : s.pc = .wait) : StepAt hashFcn s .wake { s with pc := .batch }
  | edge {s : SysAt A} {i : ℕ} {event : ℤ} {x : Returns} {mem : ℕ → Alloc A} {d' : DaemonAt A}
      (hpc : s.pc = .batch) (hx : Fresh s.pins i event x) (hpid : PidT x)
      (hmem : Unused s.daemon.pids mem)
      (hrun : dispatchHooksAt hashFcn s.daemon i event x.exec mem = .ok d') :
      StepAt hashFcn s (.edge i event x) { s with
        daemon := d'
        children := s.children ++ born (spawns s.pins.daemon i event x.exec) }
  | readSig {s : SysAt A} {ssi_pid : ℤ} (hpc : s.pc = .batch) (hp : s.pending = some ssi_pid) :
      StepAt hashFcn s .readSig { s with pending := none, pc := .chld ssi_pid }
  | handleSig {s : SysAt A} {ssi_pid : ℤ} {d' : DaemonAt A} (hpc : s.pc = .chld ssi_pid)
      (hrun : onSigchldAt hashFcn s.daemon ssi_pid (waitpid s.children ssi_pid).1 = .ok d') :
      StepAt hashFcn s .handleSig { s with
        daemon := d'
        children := (waitpid s.children ssi_pid).2
        pc := .batch }
  | done {s : SysAt A} (hpc : s.pc = .batch) : StepAt hashFcn s .done { s with pc := .wait }
  | child {s : SysAt A} {c : Child} {st : ChildState} (hc : c ∈ s.children)
      (hm : Moves c.state st) :
      StepAt hashFcn s (.child c.pid st) { s with
        children := setState s.children c.pid st
        pending := s.pending.or (some c.pid) }

/-- The daemon whose `pid_list` is the list of the entries of the table. -/
structure StandsFor (hashFcn : ℤ → BitVec 32) (s : SysAt A) (t : Sys) : Prop where
  gp_list : t.daemon.gp_list = s.daemon.gp_list
  pid_t : ∀ e ∈ t.daemon.pid_list, e.1 < 2 ^ 31
  lists : ∃ es, Lists hashFcn s.daemon.pids t.daemon.pid_list es
  children : t.children = s.children
  pending : t.pending = s.pending
  pc : t.pc = s.pc

/-- No null pointer and no freed memory is read by what the daemon may do next, as long as the
arrays have room for the vectors, and clearing a pid returns what it does on the list. -/
structure Safe (hashFcn : ℤ → BitVec 32) (s : SysAt A) (t : Sys) : Prop where
  dispatch : ∀ i event (x : Returns) mem, Fresh s.pins i event x → PidT x →
    Unused s.daemon.pids mem → RoomAt t.daemon i event →
      dispatchHooksAt hashFcn s.daemon i event x.exec mem = .error .exited ∨
        ∃ d', dispatchHooksAt hashFcn s.daemon i event x.exec mem = .ok d'
  clear : ∀ pid, ∃ d', hookClearSpawnedAt hashFcn s.daemon pid =
    .ok ((hookClearSpawned t.daemon pid).1, d')

variable {s s' : SysAt A} {t : Sys} {a : Act}

lemma length_lt_of_pids {l : List (ℤ × HookRef)} (hd : Table.Distinct l)
    (hpos : ∀ e ∈ l, 0 < e.1) (hlt : ∀ e ∈ l, e.1 < 2 ^ 31) : l.length < 2 ^ 31 := by
  have hsub : (l.map Prod.fst).toFinset ⊆ Finset.Ico 1 (2 ^ 31) := fun k hk => by
    obtain ⟨e, he, rfl⟩ := List.mem_map.mp (List.mem_toFinset.mp hk)
    exact Finset.mem_Ico.mpr ⟨hpos e he, hlt e he⟩
  have hcard := Finset.card_le_card hsub
  rw [List.toFinset_card_of_nodup hd, List.length_map, Int.card_Ico] at hcard
  omega

lemma pidT_dispatchHooks {d : Daemon} (hlt : ∀ e ∈ d.pid_list, e.1 < 2 ^ 31) {x : Returns}
    (hpid : PidT x) (i : ℕ) (event : ℤ) :
    ∀ e ∈ (Dispatch.dispatchHooks d i event x.exec).pid_list, e.1 < 2 ^ 31 := by
  intro e he
  rcases List.mem_append.mp he with he | he
  · obtain ⟨-, -, -, -, -, heq⟩ := (mem_spawns event x d i e).mp (List.mem_reverse.mp he)
    rw [heq]
    exact hpid _
  · exact hlt e he

lemma few_of_fresh (hi : Inv t) (hlt : ∀ e ∈ t.daemon.pid_list, e.1 < 2 ^ 31) {i : ℕ} {event : ℤ}
    {x : Returns} (hx : Fresh t i event x) (hpid : PidT x) :
    t.daemon.pid_list.length + (spawns t.daemon i event x.exec).length < 2 ^ 32 := by
  have hafter := inv_edge hi hx t.pc
  have hpos : ∀ e ∈ (Dispatch.dispatchHooks t.daemon i event x.exec).pid_list, 0 < e.1 :=
    fun e he => by
      obtain ⟨c, hc, hp, -⟩ := hafter.entries e he
      exact hp ▸ hafter.pos c hc
  have hlen := length_lt_of_pids hafter.distinct hpos (pidT_dispatchHooks hlt hpid i event)
  rw [Dispatch.dispatchHooks, List.length_append, List.length_reverse] at hlen
  omega

/-- **One step** of the system is one of the system with the list. -/
lemma StandsFor.step (h : StandsFor hashFcn s t) (hi : Inv t) (hst : StepAt hashFcn s a s') :
    ∃ t', Step t a t' ∧ StandsFor hashFcn s' t' := by
  obtain ⟨⟨⟨gp_list, p⟩, children, pending, pc⟩, ⟨⟨gp_list', l⟩, children', pending', pc'⟩⟩ := s, t
  obtain ⟨hgp, hlt, ⟨es, hl⟩, hchildren, hpending, hpc⟩ := h
  simp only at hgp hlt hl hchildren hpending hpc
  subst hgp hchildren hpending hpc
  cases hst with
  | wake hpc => exact ⟨_, .wake hpc, rfl, hlt, ⟨es, hl⟩, rfl, rfl, rfl⟩
  | @edge i event x mem d' hpc hx hpid hmem hrun =>
    have hx' : Fresh ⟨⟨gp_list', l⟩, children', pending', pc'⟩ i event x := ⟨hx.unused, hx.distinct⟩
    have hroom : RoomAt ⟨gp_list', l⟩ i event := fun pin hpin => by
      simp only [dispatchHooksAt, show gp_list'[i]? = some pin from hpin] at hrun
      obtain ⟨r, hr, -⟩ := bind_ok hrun
      exact roomFor_of_dispatchLoopAt hr
    refine ⟨_, .edge hpc hx', ?_⟩
    rcases hl.dispatchHooks gp_list' i event x hmem hroom (few_of_fresh hi hlt hx' hpid) with
      hexit | ⟨p', es', hok, hl'⟩
    · rw [hexit] at hrun
      cases hrun
    · rw [hok] at hrun
      cases hrun
      exact ⟨rfl, pidT_dispatchHooks hlt hpid i event, ⟨es', hl'⟩, rfl, rfl, rfl⟩
  | readSig hpc hp => exact ⟨_, .readSig hpc hp, rfl, hlt, ⟨es, hl⟩, rfl, rfl, rfl⟩
  | @handleSig ssi_pid d' hpc hrun =>
    obtain ⟨p', es', hok, hl', hsub⟩ :=
      hl.onSigchld hi.distinct gp_list' ssi_pid (waitpid children' ssi_pid).1
    rw [hok] at hrun
    cases hrun
    exact ⟨_, .handleSig hpc, rfl, fun e he => hlt e (hsub he), ⟨es', hl'⟩, rfl, rfl, rfl⟩
  | done hpc => exact ⟨_, .done hpc, rfl, hlt, ⟨es, hl⟩, rfl, rfl, rfl⟩
  | child hc hm => exact ⟨_, .child hc hm, rfl, hlt, ⟨es, hl⟩, rfl, rfl, rfl⟩

lemma StandsFor.safe (h : StandsFor hashFcn s t) (hi : Inv t) : Safe hashFcn s t := by
  obtain ⟨⟨⟨gp_list, p⟩, children, pending, pc⟩, ⟨⟨gp_list', l⟩, children', pending', pc'⟩⟩ := s, t
  obtain ⟨hgp, hlt, ⟨es, hl⟩, hchildren, -, -⟩ := h
  simp only at hgp hlt hl hchildren
  subst hgp hchildren
  refine ⟨fun i event x mem hx hpid hmem hroom => ?_, fun pid => ?_⟩
  · have hx' : Fresh ⟨⟨gp_list', l⟩, children', pending', pc'⟩ i event x := ⟨hx.unused, hx.distinct⟩
    exact (hl.dispatchHooks gp_list' i event x hmem hroom (few_of_fresh hi hlt hx' hpid)).imp_right
      fun ⟨p', _, hok, _⟩ => ⟨_, hok⟩
  · obtain ⟨p', -, hok, -⟩ := hl.clear hi.distinct gp_list' pid
    exact ⟨_, hok⟩

def initAt (d : DaemonAt A) : SysAt A := ⟨d, [], none, .wait⟩

/-- **The table of the pids.** Whatever the hash function: every run of the daemon with the hash
table is one of the daemon with the list, with the same children and signals; and in every state
it comes to, no step that follows reads a null pointer or freed memory. -/
theorem pid_table (hashFcn : ℤ → BitVec 32) (d : DaemonAt A) (hempty : d.pids.pid_list.head = none)
    (hidle : Idle ⟨d.gp_list, []⟩) (s : SysAt A)
    (hrun : Relation.ReflTransGen (Guarded (StepAt hashFcn) fun _ _ => True) (initAt d) s) :
    ∃ t, Relation.ReflTransGen (Guarded Step fun _ _ => True) (init ⟨d.gp_list, []⟩) t ∧
      StandsFor hashFcn s t ∧ Safe hashFcn s t := by
  have h0 : StandsFor hashFcn (initAt d) (init ⟨d.gp_list, []⟩) :=
    ⟨rfl, fun e he => absurd he List.not_mem_nil,
      ⟨[], ⟨Or.inl ⟨rfl, hempty⟩, fun e he => absurd he List.not_mem_nil⟩, rfl⟩, rfl, rfl, rfl⟩
  obtain ⟨t, ht, hi, hstands⟩ := guarded_simulated (I := Inv)
    (fun _ _ _ hi (_ : True) hst => hi.step hst)
    (fun s a s' t h hi _ hst =>
      let ⟨t', hst', h'⟩ := h.step hi hst
      ⟨a, t', trivial, hst', h'⟩) h0 (inv_init hidle) hrun
  exact ⟨t, ht, hstands, hstands.safe hi⟩

/-- A pin with two hooks for the rising edge. -/
def twoHooks : DaemonAt ℕ where
  gp_list := [⟨bytes "WD0", 0, .sysfs, .both, 0,
    [⟨bytes "/bin/a", 1, 0, -1, 0, []⟩, ⟨bytes "/bin/b", 1, 0, -1, 0, []⟩]⟩]
  pids := ⟨⟨fun _ => false, ⟨fun _ => none, fun _ => none⟩, ⟨fun _ => none, fun _ => none⟩,
    fun _ => 0, fun _ => 0, none, none⟩, fun _ => ⟨0, 0⟩⟩

lemma twoHooks_idle : Idle ⟨twoHooks.gp_list, []⟩ := ⟨rfl, by decide⟩

def twoPids : Returns :=
  ⟨fun j => Int.ofNat (100 + j % 2), fun j => Or.inr (by simp; omega)⟩

lemma twoPids_pidT : PidT twoPids := fun j => by
  simp only [twoPids, Int.ofNat_eq_natCast]
  omega

def twoAllocs : ℕ → Alloc ℕ := fun j => ⟨j, giveBelow⟩

lemma twoAllocs_unused : Unused twoHooks.pids twoAllocs :=
  ⟨fun _ => rfl, fun _ _ h => h, fun _ => giveBelow_bounded⟩

lemma twoHooks_ok : (do
    let d ← dispatchHooksAt (fun _ => 0) twoHooks 0 0 twoPids.exec twoAllocs
    onSigchldAt (fun _ => 0) d 100 100).isOk = true := by decide +kernel

lemma twoHooks_run : ∃ d, Relation.ReflTransGen (Guarded (StepAt fun _ => 0) fun _ _ => True)
    (initAt twoHooks) ⟨d, [⟨101, ⟨0, 1⟩, .running⟩], none, .batch⟩ := by
  have hok := twoHooks_ok
  cases hd : dispatchHooksAt (fun _ => 0) twoHooks 0 0 twoPids.exec twoAllocs with
  | error e =>
    rw [hd] at hok
    cases hok
  | ok d =>
    rw [hd] at hok
    change (onSigchldAt (fun _ => 0) d 100 100).isOk = true at hok
    cases hd' : onSigchldAt (fun _ => 0) d 100 100 with
    | error e =>
      rw [hd'] at hok
      cases hok
    | ok d' =>
      let zombie : SysAt ℕ :=
        ⟨d, [⟨100, ⟨0, 0⟩, .zombie⟩, ⟨101, ⟨0, 1⟩, .running⟩], some 100, .batch⟩
      have hwake : StepAt (fun _ => 0) (initAt twoHooks) .wake ⟨twoHooks, [], none, .batch⟩ :=
        .wake rfl
      have hedge : StepAt (fun _ => 0) ⟨twoHooks, [], none, .batch⟩ (.edge 0 0 twoPids)
          ⟨d, [⟨100, ⟨0, 0⟩, .running⟩, ⟨101, ⟨0, 1⟩, .running⟩], none, .batch⟩ :=
        .edge rfl ⟨fun _ _ _ hc => absurd hc List.not_mem_nil, by decide⟩ twoPids_pidT
          twoAllocs_unused hd
      have hchild : StepAt (fun _ => 0)
          ⟨d, [⟨100, ⟨0, 0⟩, .running⟩, ⟨101, ⟨0, 1⟩, .running⟩], none, .batch⟩
          (.child 100 .zombie) zombie :=
        .child (c := ⟨100, ⟨0, 0⟩, .running⟩) List.mem_cons_self (.exit nofun)
      let read : SysAt ℕ := { zombie with pending := none, pc := .chld 100 }
      have hread : StepAt (fun _ => 0) zombie .readSig read := .readSig rfl rfl
      have hsig : StepAt (fun _ => 0) read .handleSig
          ⟨d', [⟨101, ⟨0, 1⟩, .running⟩], none, .batch⟩ := .handleSig (s := read) rfl hd'
      exact ⟨d', .tail (.tail (.tail (.tail (.single ⟨_, trivial, hwake⟩) ⟨_, trivial, hedge⟩)
        ⟨_, trivial, hchild⟩) ⟨_, trivial, hread⟩) ⟨_, trivial, hsig⟩⟩

theorem twoHooks_table : ∃ d t, Relation.ReflTransGen (Guarded Step fun _ _ => True)
      (init ⟨twoHooks.gp_list, []⟩) t ∧
    StandsFor (A := ℕ) (fun _ => 0) ⟨d, [⟨101, ⟨0, 1⟩, .running⟩], none, .batch⟩ t ∧
    Safe (A := ℕ) (fun _ => 0) ⟨d, [⟨101, ⟨0, 1⟩, .running⟩], none, .batch⟩ t := by
  obtain ⟨d, hrun⟩ := twoHooks_run
  exact ⟨d, pid_table (fun _ => 0) twoHooks rfl twoHooks_idle _ hrun⟩

end Gpiod.PidTable
