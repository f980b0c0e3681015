import Gpiod.Children

/-!
NO_LOOP: a hook is not launched while a process launched for it is still there.

What keeps it back is the pid in its `spawned`, and the loop takes that away at any SIGCHLD of
the child, also one for a stop: `waitpid` returns 0 then, and only -1 is told apart.
-/

namespace Gpiod.NoLoop

open Gpiod.Pin Gpiod.Dispatch Gpiod.Children Gpiod.Machine

/-- No event makes the daemon launch a hook with NO_LOOP that has a child which has not
terminated. -/
def Exclusive (s : Sys) : Prop :=
  ∀ i event (x : Returns), ∀ e ∈ spawns s.daemon i event x.exec, ∀ hook,
    s.daemon.hook? e.2 = some hook → hook.flags &&& hooktabModNoLoop ≠ 0 →
      ∀ c ∈ s.children, c.hook = e.2 → c.state = .zombie

/-- Where a SIGCHLD is handled that names a child of a hook with NO_LOOP, the child has
terminated. -/
def NamesEnded (s : Sys) : Act → Prop
  | .handleSig => ∀ c ∈ s.children, s.pc = .chld c.pid → ∀ hook,
      s.daemon.hook? c.hook = some hook → hook.flags &&& hooktabModNoLoop ≠ 0 → c.state = .zombie
  | _ => True

/-- The hook of a child with NO_LOOP holds the pid of the child. -/
def Held (s : Sys) : Prop :=
  ∀ c ∈ s.children, ∀ hook, s.daemon.hook? c.hook = some hook →
    hook.flags &&& hooktabModNoLoop ≠ 0 → hook.spawned = c.pid

lemma held_init (d : Daemon) : Held (init d) := by
  intro c hc
  cases hc

lemma not_runs_of_held {hook : GpiodHook} (hn : hook.flags &&& hooktabModNoLoop ≠ 0)
    (hs : hook.spawned ≠ -1) (event : ℤ) : runs hook event = false := by
  simp [runs, inProgress, hn, hs]

lemma held_edge {s : Sys} (hi : Inv s) (h : Held s) (i : ℕ) (event : ℤ) (x : Returns)
    (pc : Pc) : Held ⟨dispatchHooks s.daemon i event x.exec,
      s.children ++ born (spawns s.daemon i event x.exec), s.pending, pc⟩ := by
  intro c hc hook hh hn
  rw [hook?_dispatchHooks] at hh
  rcases List.mem_append.mp hc with hc | hc
  · have hpos := hi.pos c hc
    split at hh
    · obtain ⟨hook', h', rfl⟩ := Option.map_eq_some_iff.mp hh
      rw [settle_flags] at hn
      have hheld := h c hc hook' h' hn
      have hr := not_runs_of_held hn (by omega) event
      simpa [settle, hr] using hheld
    · exact h c hc hook hh hn
  · obtain ⟨hook', h', hpin, hr, hne, hpid⟩ := (mem_spawns event x _ _ _).mp (mem_born.mp hc).2
    rw [if_pos hpin, h', Option.map_some, settle, if_pos ⟨hr, hne⟩] at hh
    cases hh
    exact hpid.symm

lemma held_handleSig {s : Sys} (hi : Inv s) (h : Held s) {pid : ℤ}
    (hend : ∀ c ∈ s.children, c.pid = pid → ∀ hook, s.daemon.hook? c.hook = some hook →
      hook.flags &&& hooktabModNoLoop ≠ 0 → c.state = .zombie) (pc : Pc) :
    Held ⟨onSigchld s.daemon pid (waitpid s.children pid).1, (waitpid s.children pid).2,
      s.pending, pc⟩ := by
  intro c hcw hook hh hn
  have hc := mem_of_waitpid hcw
  unfold onSigchld at hh
  split at hh
  · rw [hook?_hookClearSpawned] at hh
    split at hh
    · next hf =>
      -- the hook cleared held the pid of `c`, which has ended then and is gone
      obtain ⟨hook', h', rfl⟩ := Option.map_eq_some_iff.mp hh
      obtain ⟨c₀, hc₀, hp₀, hh₀⟩ := hi.entries _ (Table.mem_of_find hf)
      have h₀ := h c₀ hc₀ hook' (by rw [hh₀]; exact h') hn
      have h₁ := h c hc hook' h' hn
      have hp : c.pid = pid := by rw [← h₁, h₀, hp₀]
      have hz : ∀ b ∈ s.children, b.pid = pid → b.state = .zombie := fun b hb hbp => by
        rw [hi.unique hb hc (hbp.trans hp.symm)]
        exact hend c hc hp hook' h' hn
      exact absurd hp (pid_ne_of_waitpid hz hcw)
    · exact h c hc hook hh hn
  · exact h c hc hook hh hn

/-- **One step** keeps the pids held if the SIGCHLD handled names a child that has ended. -/
lemma held_step {s t : Sys} {a : Act} (hi : Inv s) (h : Held s) (hc : NamesEnded s a)
    (hst : Step s a t) : Held t := by
  cases hst with
  | wake => exact h
  | edge => exact held_edge hi h _ _ _ _
  | readSig => exact h
  | handleSig hpc => exact held_handleSig hi h (fun c hmem hp => hc c hmem (hp ▸ hpc)) _
  | done => exact h
  | child =>
    intro c hmem hook hh hn
    obtain ⟨c', hmem', hp, hhook, -⟩ := setState_same hmem
    exact hp ▸ h c' hmem' hook (hhook ▸ hh) hn

lemma exclusive_of_held {s : Sys} (hi : Inv s) (h : Held s) : Exclusive s := by
  intro i event x e he hook hh hn c hc hce
  obtain ⟨hook', h', -, hr, -, -⟩ := (mem_spawns event x _ _ _).mp he
  rw [hh] at h'
  cases h'
  have hheld := h c hc hook (hce ▸ hh) hn
  have hpos := hi.pos c hc
  rw [not_runs_of_held hn (by omega)] at hr
  cases hr

/-- **NO_LOOP**: in a run in which every SIGCHLD handled names a child that has terminated, no
hook with NO_LOOP is launched beside a child of its own. -/
theorem exclusive_of_run {d : Daemon} (hd : Idle d) {s : Sys}
    (h : Relation.ReflTransGen (Guarded Step NamesEnded) (init d) s) : Exclusive s := by
  obtain ⟨hi, hh⟩ := guarded_inv_and (R := Step) (C := NamesEnded) (I := Inv) (J := Held)
    (fun _ _ _ hi hst => hi.step hst) (fun _ _ _ hi hh hc hst => held_step hi hh hc hst)
    (inv_init hd) (held_init d) h
  exact exclusive_of_held hi hh

/-- A pin with a hook for the rising edge, with NO_LOOP. -/
def noLoopDaemon : Daemon :=
  ⟨[⟨bytes "WD0", 0, .sysfs, .both, 0, [⟨bytes "/bin/a", 5, 0, -1, 0, []⟩]⟩], []⟩

lemma noLoopDaemon_idle : Idle noLoopDaemon := ⟨rfl, by decide⟩

/-- The hook launched with the pid 100, and its child. -/
def launched100 (pc : Pc) (pending : Option ℤ) (st : ChildState) : Sys :=
  ⟨dispatchHooks noLoopDaemon 0 0 (onePid 100 (by decide)).exec, [⟨100, ⟨0, 0⟩, st⟩], pending, pc⟩

/-- What the SIGCHLD of the child leaves. -/
def handled100 (st : ChildState) : Sys :=
  { launched100 .batch none st with
    daemon := onSigchld (launched100 .batch none st).daemon 100 (waitpid [⟨100, ⟨0, 0⟩, st⟩] 100).1
    children := (waitpid [⟨100, ⟨0, 0⟩, st⟩] 100).2 }

lemma launched100_run {st : ChildState} (hm : Moves .running st) :
    Relation.ReflTransGen (Guarded Step NamesEnded) (init noLoopDaemon)
      (launched100 (.chld 100) none st) := by
  have hwake : Step (init noLoopDaemon) .wake ⟨noLoopDaemon, [], none, .batch⟩ := .wake rfl
  have hedge : Step ⟨noLoopDaemon, [], none, .batch⟩ (.edge 0 0 (onePid 100 (by decide)))
      (launched100 .batch none .running) := .edge rfl ⟨by simp, by decide⟩
  have hchild : Step (launched100 .batch none .running) (.child 100 st)
      (launched100 .batch (some 100) st) :=
    .child (c := ⟨100, ⟨0, 0⟩, .running⟩) (List.mem_singleton.mpr rfl) hm
  have hread : Step (launched100 .batch (some 100) st) .readSig
      (launched100 (.chld 100) none st) := .readSig rfl rfl
  exact .tail (.tail (.tail (.single ⟨.wake, trivial, hwake⟩) ⟨.edge 0 0 _, trivial, hedge⟩)
    ⟨.child 100 st, trivial, hchild⟩) ⟨.readSig, trivial, hread⟩

lemma handled100_step (st : ChildState) :
    Step (launched100 (.chld 100) none st) .handleSig (handled100 st) := .handleSig rfl

theorem ended_child_exclusive : Exclusive (handled100 .zombie) := by
  have hend : NamesEnded (launched100 (.chld 100) none .zombie) .handleSig := by
    intro c hc _ _ _ _
    rw [List.mem_singleton.mp hc]
  exact exclusive_of_run noLoopDaemon_idle
    ((launched100_run (.exit nofun)).tail ⟨.handleSig, hend, handled100_step .zombie⟩)

/-- After a stop of its child the hook is free, and the next edge launches it again. -/
theorem stopped_child_relaunched :
    Relation.ReflTransGen (Guarded Step fun _ _ => True) (init noLoopDaemon)
      (handled100 .stopped) ∧ ¬ Exclusive (handled100 .stopped) := by
  refine ⟨(guarded_mono (fun _ _ _ => trivial) (launched100_run .stop)).tail
    ⟨.handleSig, trivial, handled100_step .stopped⟩, fun h => ?_⟩
  have hz := h 0 0 (onePid 101 (by decide)) (101, ⟨0, 0⟩) (by decide) _ rfl (by decide)
    ⟨100, ⟨0, 0⟩, .stopped⟩ (List.mem_singleton.mpr rfl) rfl
  cases hz

end Gpiod.NoLoop
