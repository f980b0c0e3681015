import Gpiod.Books

/-!
The daemon and the children of its hooks.

The kernel keeps a child until it is waited for, and a SIGCHLD for every change of a child as
long as none is pending: of several changes before the signal is read one signal is left, and
it names the child of the first. The daemon is in `epoll_wait`, in a batch, or in a batch with
a SIGCHLD read and not yet handled; children change their state at any time.
-/

namespace Gpiod.Children

open Gpiod.Pin Gpiod.TabScan Gpiod.TabRoute Gpiod.Dispatch

inductive ChildState
  | running | stopped | zombie
  deriving DecidableEq, Repr

/-- A child that has not been waited for, with the hook it was launched for. -/
structure Child where
  pid : ℤ
  hook : HookRef
  state : ChildState
  deriving DecidableEq, Repr

inductive Pc
  | wait
  | batch
  | chld (ssi_pid : ℤ)
  deriving DecidableEq, Repr

structure Sys where
  daemon : Daemon
  children : List Child
  /-- the pid that the pending SIGCHLD names -/
  pending : Option ℤ
  pc : Pc
  deriving DecidableEq, Repr

/-! ### The kernel -/

/-- `waitpid(pid, 0, WNOHANG)`: what it returns, and the children left. -/
def waitpid (children : List Child) (pid : ℤ) : ℤ × List Child :=
  match children.find? fun c => c.pid = pid with
  | none => (-1, children)
  | some c =>
    if c.state = .zombie then (pid, children.filter fun c => c.pid ≠ pid) else (0, children)

/-- The changes a child can make. -/
inductive Moves : ChildState → ChildState → Prop
  | stop : Moves .running .stopped
  | cont : Moves .stopped .running
  | exit {st : ChildState} (h : st ≠ .zombie) : Moves st .zombie

def setState (children : List Child) (pid : ℤ) (st : ChildState) : List Child :=
  children.map fun c => if c.pid = pid then { c with state := st } else c

/-- The children made by launches. -/
def born (spawned : List (ℤ × HookRef)) : List Child :=
  spawned.map fun e => ⟨e.1, e.2, .running⟩

/-- The pids of the children launched are not in use, and no two are the same. -/
structure Fresh (s : Sys) (i : ℕ) (event : ℤ) (x : Returns) : Prop where
  unused : ∀ e ∈ spawns s.daemon i event x.exec, ∀ c ∈ s.children, c.pid ≠ e.1
  distinct : ((spawns s.daemon i event x.exec).map Prod.fst).Nodup

/-! ### Steps -/

inductive Act
  | wake
  | edge (i : ℕ) (event : ℤ) (x : Returns)
  | readSig
  | handleSig
  | done
  | child (pid : ℤ) (st : ChildState)

inductive Step : Sys → Act → Sys → Prop
  /-- `epoll_wait` returns -/
  | wake {s : Sys} (hpc : s.pc = .wait) : Step s .wake { s with pc := .batch }
  /-- an event of a pin is passed to `dispatch_hooks` -/
  | edge {s : Sys} {i : ℕ} {event : ℤ} {x : Returns} (hpc : s.pc = .batch)
      (hx : Fresh s i event x) :
      Step s (.edge i event x) { s with
        daemon := dispatchHooks s.daemon i event x.exec
        children := s.children ++ born (spawns s.daemon i event x.exec) }
  /-- the pending SIGCHLD is read from the signal descriptor -/
  | readSig {s : Sys} {ssi_pid : ℤ} (hpc : s.pc = .batch) (hp : s.pending = some ssi_pid) :
      Step s .readSig { s with pending := none, pc := .chld ssi_pid }
  /-- the child it names is waited for -/
  | handleSig {s : Sys} {ssi_pid : ℤ} (hpc : s.pc = .chld ssi_pid) :
      Step s .handleSig { s with
        daemon := onSigchld s.daemon ssi_pid (waitpid s.children ssi_pid).1
        children := (waitpid s.children ssi_pid).2
        pc := .batch }
  /-- the batch is handled -/
  | done {s : Sys} (hpc : s.pc = .batch) : Step s .done { s with pc := .wait }
  /-- a child stops, goes on or ends -/
  | child {s : Sys} {c : Child} {st : ChildState} (hc : c ∈ s.children) (hm : Moves c.state st) :
      Step s (.child c.pid st) { s with
        children := setState s.children c.pid st
        pending := s.pending.or (some c.pid) }

/-- The daemon once its tabs are loaded: no hook has been launched. -/
structure Idle (d : Daemon) : Prop where
  pid_list : d.pid_list = []
  spawned : ∀ pin ∈ d.gp_list, ∀ hook ∈ pin.hook_list, hook.spawned = -1

/-- Loading a tab file leaves the daemon idle. -/
theorem idle_of_loadTab {gp_list gp_list' : List GpioPin} {text : Str} {fresh : ℕ → Mem}
    {ret : ℤ} (h : loadTab gp_list (some text) fresh = .ok (ret, gp_list'))
    (hidle : Idle ⟨gp_list, []⟩) : Idle ⟨gp_list', []⟩ where
  pid_list := rfl
  spawned := by
    intro pin' hpin hook hhook
    obtain ⟨i, hi⟩ := List.mem_iff_getElem?.mp hpin
    rcases loadTab_hooks h hi hhook with ⟨pin, hp, hold⟩ | ⟨line, -, stale, hline⟩
    · exact hidle.spawned pin (List.mem_of_getElem? hp) hook hold
    · exact (lineHook_unlaunched hline).2

def init (d : Daemon) : Sys := ⟨d, [], none, .wait⟩

/-! ### The tables agree -/

/-- Pids of children are positive and differ; every entry of `pid_list` has a child that is
not waited for, and what a hook holds for its child has an entry. -/
structure Inv (s : Sys) : Prop where
  pids : (s.children.map (·.pid)).Nodup
  pos : ∀ c ∈ s.children, 0 < c.pid
  distinct : Table.Distinct s.daemon.pid_list
  entries : ∀ e ∈ s.daemon.pid_list, ∃ c ∈ s.children, c.pid = e.1 ∧ c.hook = e.2
  spawned : ∀ r hook, s.daemon.hook? r = some hook →
    hook.spawned = -1 ∨ (hook.spawned, r) ∈ s.daemon.pid_list

lemma inv_init {d : Daemon} (hd : Idle d) : Inv (init d) where
  pids := List.nodup_nil
  pos := by simp [init]
  distinct := by simp [init, hd.pid_list, Table.Distinct]
  entries := by simp [init, hd.pid_list]
  spawned r hook h := by
    obtain ⟨pin, hp, hh⟩ := Option.bind_eq_some_iff.mp h
    exact Or.inl (hd.spawned pin (List.mem_of_getElem? hp) hook (List.mem_of_getElem? hh))

lemma Inv.unique {s : Sys} (hi : Inv s) {c c' : Child} (hc : c ∈ s.children)
    (hc' : c' ∈ s.children) (h : c.pid = c'.pid) : c = c' :=
  List.inj_on_of_nodup_map hi.pids hc hc' h

/-- **The three answers of `waitpid`.** -/
lemma waitpid_cases (children : List Child) (pid : ℤ) :
    ((∀ c ∈ children, c.pid ≠ pid) ∧ waitpid children pid = (-1, children)) ∨
      (∃ c ∈ children, c.pid = pid ∧ c.state = .zombie ∧
        waitpid children pid = (pid, children.filter fun c => c.pid ≠ pid)) ∨
      ∃ c ∈ children, c.pid = pid ∧ c.state ≠ .zombie ∧ waitpid children pid = (0, children) := by
  unfold waitpid
  cases hf : children.find? fun c => c.pid = pid with
  | none => exact Or.inl ⟨by simpa using hf, rfl⟩
  | some c =>
    have hc := List.mem_of_find?_eq_some hf
    have hp : c.pid = pid := by simpa using List.find?_some hf
    by_cases hz : c.state = .zombie
    · exact Or.inr (Or.inl ⟨c, hc, hp, hz, by simp [hz]⟩)
    · exact Or.inr (Or.inr ⟨c, hc, hp, hz, by simp [hz]⟩)

/-! ### What a step does to the children -/

lemma mem_born {spawned : List (ℤ × HookRef)} {c : Child} :
    c ∈ born spawned ↔ c.state = .running ∧ (c.pid, c.hook) ∈ spawned := by
  unfold born
  rw [List.mem_map]
  constructor
  · rintro ⟨e, he, rfl⟩
    exact ⟨rfl, he⟩
  · rintro ⟨hs, he⟩
    exact ⟨_, he, by cases c; cases hs; rfl⟩

lemma mem_setState {children : List Child} {pid : ℤ} {st : ChildState} {c : Child} :
    c ∈ setState children pid st ↔
      ∃ c' ∈ children, c = if c'.pid = pid then { c' with state := st } else c' := by
  simp [setState, eq_comm]

lemma setState_same {children : List Child} {pid : ℤ} {st : ChildState} {c : Child}
    (h : c ∈ setState children pid st) :
    ∃ c' ∈ children, c'.pid = c.pid ∧ c'.hook = c.hook ∧ (c.pid ≠ pid → c' = c) := by
  obtain ⟨c', hc', rfl⟩ := mem_setState.mp h
  refine ⟨c', hc', ?_⟩
  split
  · next hp => exact ⟨rfl, rfl, fun hne => absurd hp hne⟩
  · exact ⟨rfl, rfl, fun _ => rfl⟩

lemma setState_pids (children : List Child) (pid : ℤ) (st : ChildState) :
    (setState children pid st).map (·.pid) = children.map (·.pid) := by
  unfold setState
  rw [List.map_map]
  refine List.map_congr_left fun c _ => ?_
  simp only [Function.comp_apply]
  split <;> rfl

lemma waitpid_sublist (children : List Child) (pid : ℤ) :
    (waitpid children pid).2.Sublist children := by
  rcases waitpid_cases children pid with ⟨-, hw⟩ | ⟨-, -, -, -, hw⟩ | ⟨-, -, -, -, hw⟩ <;> rw [hw]
  · exact List.filter_sublist

lemma mem_of_waitpid {children : List Child} {pid : ℤ} {c : Child}
    (h : c ∈ (waitpid children pid).2) : c ∈ children :=
  (waitpid_sublist children pid).subset h

lemma pid_ne_of_waitpid {children : List Child} {pid : ℤ}
    (hend : ∀ c ∈ children, c.pid = pid → c.state = .zombie) {c : Child}
    (h : c ∈ (waitpid children pid).2) : c.pid ≠ pid := by
  rcases waitpid_cases children pid with ⟨hno, hw⟩ | ⟨-, -, -, -, hw⟩ | ⟨c', hc', hp, hz, -⟩
  · rw [hw] at h
    exact hno c h
  · rw [hw] at h
    simpa using (List.mem_filter.mp h).2
  · exact absurd (hend c' hc' hp) hz

lemma mem_waitpid {children : List Child} {pid : ℤ} {c : Child} (hc : c ∈ children)
    (h : c.pid ≠ pid) : c ∈ (waitpid children pid).2 := by
  rcases waitpid_cases children pid with ⟨-, hw⟩ | ⟨-, -, -, -, hw⟩ | ⟨-, -, -, -, hw⟩ <;> rw [hw]
  · exact hc
  · exact List.mem_filter.mpr ⟨hc, by simpa using h⟩
  · exact hc

/-! ### The invariant -/

lemma Inv.freshPids {s : Sys} (hi : Inv s) {i : ℕ} {event : ℤ} {x : Returns}
    (hx : Fresh s i event x) : Books.FreshPids s.daemon (.event i event x) := by
  refine ⟨hx.distinct, fun e he r hr => ?_⟩
  obtain ⟨c, hc, hp, -⟩ := hi.entries (e.1, r) hr
  exact hx.unused e he c hc hp

lemma inv_edge {s : Sys} (hi : Inv s) {i : ℕ} {event : ℤ} {x : Returns} (hx : Fresh s i event x)
    (pc : Pc) : Inv ⟨dispatchHooks s.daemon i event x.exec,
      s.children ++ born (spawns s.daemon i event x.exec), s.pending, pc⟩ where
  pids := by
    have hborn : (born (spawns s.daemon i event x.exec)).map (·.pid) =
        (spawns s.daemon i event x.exec).map Prod.fst := by simp [born, Function.comp_def]
    rw [List.map_append, hborn, List.nodup_append]
    refine ⟨hi.pids, hx.distinct, ?_⟩
    rintro p hp q hq rfl
    obtain ⟨c, hc, rfl⟩ := List.mem_map.mp hp
    obtain ⟨e, he, hpid⟩ := List.mem_map.mp hq
    exact hx.unused e he c hc hpid.symm
  pos := by
    intro c hc
    rcases List.mem_append.mp hc with hc | hc
    · exact hi.pos c hc
    · exact spawns_pos event x s.daemon i _ (mem_born.mp hc).2
  distinct := Books.distinct_dispatchHooks hi.distinct (hi.freshPids hx)
  entries := by
    intro e he
    rcases List.mem_append.mp he with he | he
    · exact ⟨⟨e.1, e.2, .running⟩,
        List.mem_append_right _ (mem_born.mpr ⟨rfl, List.mem_reverse.mp he⟩), rfl, rfl⟩
    · obtain ⟨c, hc, h⟩ := hi.entries e he
      exact ⟨c, List.mem_append_left _ hc, h⟩
  spawned := Books.owned_dispatchHooks hi.spawned i event x

lemma inv_handleSig {s : Sys} (hi : Inv s) (pid : ℤ) (pc : Pc) :
    Inv ⟨onSigchld s.daemon pid (waitpid s.children pid).1, (waitpid s.children pid).2,
      s.pending, pc⟩ where
  pids := hi.pids.sublist ((waitpid_sublist _ _).map _)
  pos c hc := hi.pos c (mem_of_waitpid hc)
  distinct := by
    unfold onSigchld
    split
    · exact Books.distinct_hookClearSpawned hi.distinct pid
    · exact hi.distinct
  entries := by
    intro e he
    have hkeep : e ∈ s.daemon.pid_list → e.1 ≠ pid →
        ∃ c ∈ (waitpid s.children pid).2, c.pid = e.1 ∧ c.hook = e.2 := by
      intro he hne
      obtain ⟨c, hc, hp, hh⟩ := hi.entries e he
      exact ⟨c, mem_waitpid hc (hp ▸ hne), hp, hh⟩
    unfold onSigchld at he
    split at he
    · rw [hookClearSpawned_pid_list] at he
      obtain ⟨he, hne⟩ := (Table.mem_del_iff hi.distinct).mp he
      exact hkeep he hne
    · next hw =>
      -- there is no child with the pid, so no entry either
      refine hkeep he fun hp => ?_
      obtain ⟨c, hc, hcp, -⟩ := hi.entries e he
      have hpos := hi.pos c hc
      rcases waitpid_cases s.children pid with ⟨hno, -⟩ | ⟨-, -, -, -, hret⟩ | ⟨-, -, -, -, hret⟩
      · exact hno c hc (hcp.trans hp)
      · rw [hret] at hw; simp at hw; omega
      · rw [hret] at hw; simp at hw
  spawned := by
    unfold onSigchld
    split
    · exact Books.owned_hookClearSpawned hi.distinct hi.spawned pid
    · exact hi.spawned

lemma inv_child {s : Sys} (hi : Inv s) (pid : ℤ) (st : ChildState) (pending : Option ℤ) :
    Inv ⟨s.daemon, setState s.children pid st, pending, s.pc⟩ where
  pids := by rw [setState_pids]; exact hi.pids
  pos c hc := by
    obtain ⟨c', hc', hp, -⟩ := setState_same hc
    exact hp ▸ hi.pos c' hc'
  distinct := hi.distinct
  entries e he := by
    obtain ⟨c, hc, hp, hh⟩ := hi.entries e he
    refine ⟨_, mem_setState.mpr ⟨c, hc, rfl⟩, ?_⟩
    split <;> exact ⟨hp, hh⟩
  spawned := hi.spawned

/-- **The tables agree after every step.** -/
theorem Inv.step {s t : Sys} {a : Act} (hi : Inv s) (h : Step s a t) : Inv t := by
  cases h with
  | wake => exact ⟨hi.pids, hi.pos, hi.distinct, hi.entries, hi.spawned⟩
  | edge _ hx => exact inv_edge hi hx _
  | readSig => exact ⟨hi.pids, hi.pos, hi.distinct, hi.entries, hi.spawned⟩
  | handleSig => exact inv_handleSig hi _ _
  | done => exact ⟨hi.pids, hi.pos, hi.distinct, hi.entries, hi.spawned⟩
  | child => exact inv_child hi _ _ _

end Gpiod.Children
