import Gpiod.Children

/-!
Children that end are waited for, if each has its SIGCHLD.

The loop waits for the one child that a SIGCHLD names. A child that ends while a SIGCHLD of
another child is pending gets none of its own, and nothing later names it: it stays a zombie,
and the hook it was launched for goes on holding its pid.
-/

namespace Gpiod.Reap

open Gpiod.Pin Gpiod.Dispatch Gpiod.Children Gpiod.Machine

/-- Of the children launched, those that have ended have been waited for, and what is in
`pid_list` or in `spawned` is of a child that has not ended. -/
structure Reaped (s : Sys) : Prop where
  waited : ∀ c ∈ s.children, c.state ≠ .zombie
  listed : ∀ e ∈ s.daemon.pid_list, ∃ c ∈ s.children,
    c.pid = e.1 ∧ c.hook = e.2 ∧ c.state ≠ .zombie
  held : ∀ r hook, s.daemon.hook? r = some hook → hook.spawned ≠ -1 →
    ∃ c ∈ s.children, c.pid = hook.spawned ∧ c.hook = r ∧ c.state ≠ .zombie

/-- A child ends when no SIGCHLD is pending but its own, or when the loop is about to wait for
it. -/
def NotCoalesced (s : Sys) : Act → Prop
  | .child pid .zombie => s.pending = none ∨ s.pending = some pid ∨ s.pc = .chld pid
  | _ => True

/-- A child is named by the SIGCHLD pending, or by the one that is handled. -/
def Named (s : Sys) (c : Child) : Prop := s.pending = some c.pid ∨ s.pc = .chld c.pid

/-- Every child that has ended is named. -/
def AllNamed (s : Sys) : Prop := ∀ c ∈ s.children, c.state = .zombie → Named s c

lemma setState_state {children : List Child} {pid : ℤ} {st : ChildState} {c : Child}
    (h : c ∈ setState children pid st) (hp : c.pid = pid) : c.state = st := by
  obtain ⟨c', -, rfl⟩ := mem_setState.mp h
  by_cases hc : c'.pid = pid
  · rw [if_pos hc]
  · rw [if_neg hc] at hp
    exact absurd hp hc

lemma named_child {s : Sys} {c : Child} (h : Named s c) (children : List Child) (pid : ℤ) :
    Named { s with children := children, pending := s.pending.or (some pid) } c := by
  rcases h with h | h
  · left
    show s.pending.or (some pid) = some c.pid
    rw [h, Option.some_or]
  · exact Or.inr h

/-- **One step** that leaves no child without a SIGCHLD keeps all that have ended named. -/
lemma allNamed_step {s t : Sys} {a : Act} (hi : Inv s) (h : AllNamed s) (hc : NotCoalesced s a)
    (hst : Step s a t) : AllNamed t := by
  intro c hmem hz
  cases hst with
  | wake hpc =>
    rcases h c hmem hz with hp | hp
    · exact Or.inl hp
    · rw [hpc] at hp; cases hp
  | edge =>
    rcases List.mem_append.mp hmem with hmem | hmem
    · exact h c hmem hz
    · rw [(mem_born.mp hmem).1] at hz; cases hz
  | readSig hpc hp =>
    rcases h c hmem hz with hn | hn
    · right
      rw [hp] at hn
      exact congrArg Pc.chld (Option.some.inj hn)
    · rw [hpc] at hn; cases hn
  | @handleSig pid hpc =>
    have hold := mem_of_waitpid hmem
    rcases h c hold hz with hp | hp
    · exact Or.inl hp
    · -- the child waited for has ended, and is gone
      rw [hpc, Pc.chld.injEq] at hp
      refine absurd hp.symm (pid_ne_of_waitpid (fun b hb hbp => ?_) hmem)
      rw [hi.unique hb hold (hbp.trans hp)]
      exact hz
  | done hpc =>
    rcases h c hmem hz with hp | hp
    · exact Or.inl hp
    · rw [hpc] at hp; cases hp
  | @child c₀ st hc₀ _ =>
    by_cases hp : c.pid = c₀.pid
    · -- the child that ends now
      obtain rfl : st = .zombie := (setState_state hmem hp).symm.trans hz
      unfold Named
      rw [hp]
      rcases hc with hnone | hsome | hchld
      · exact Or.inl (by rw [hnone, Option.none_or])
      · exact Or.inl (by rw [hsome, Option.some_or])
      · exact Or.inr hchld
    · obtain ⟨c', hc', -, -, hsame⟩ := setState_same hmem
      obtain rfl := hsame hp
      exact named_child (h c' hc' hz) _ _

lemma reaped_of_allNamed {s : Sys} (hi : Inv s) (h : AllNamed s) (hpc : s.pc = .wait)
    (hp : s.pending = none) : Reaped s := by
  have hw : ∀ c ∈ s.children, c.state ≠ .zombie := by
    intro c hc hz
    rcases h c hc hz with hn | hn
    · rw [hp] at hn; cases hn
    · rw [hpc] at hn; cases hn
  have hl : ∀ e ∈ s.daemon.pid_list, ∃ c ∈ s.children,
      c.pid = e.1 ∧ c.hook = e.2 ∧ c.state ≠ .zombie := by
    intro e he
    obtain ⟨c, hc, hpid, hhook⟩ := hi.entries e he
    exact ⟨c, hc, hpid, hhook, hw c hc⟩
  refine ⟨hw, hl, fun r hook hh hne => ?_⟩
  rcases hi.spawned r hook hh with hs | hs
  · exact absurd hs hne
  · exact hl _ hs

/-- **No exit is lost**: in a run in which no child ends while a SIGCHLD of another is pending,
every child that has ended is reaped where the loop waits and no SIGCHLD is pending. -/
theorem reaped_of_run {d : Daemon} (hd : Idle d) {s : Sys}
    (h : Relation.ReflTransGen (Guarded Step NotCoalesced) (init d) s) (hpc : s.pc = .wait)
    (hp : s.pending = none) : Reaped s := by
  obtain ⟨hi, hn⟩ := guarded_inv_and (R := Step) (C := NotCoalesced) (I := Inv) (J := AllNamed)
    (fun _ _ _ hi hst => hi.step hst) (fun _ _ _ hi hn hc hst => allNamed_step hi hn hc hst)
    (inv_init hd) nofun h
  exact reaped_of_allNamed hi hn hpc hp

/-- A pin with two hooks for the rising edge, with NO_LOOP. -/
def pairDaemon : Daemon :=
  ⟨[⟨bytes "WD0", 0, .sysfs, .both, 0,
    [⟨bytes "/bin/a", 5, 0, -1, 0, []⟩, ⟨bytes "/bin/b", 5, 0, -1, 0, []⟩]⟩], []⟩

lemma pairDaemon_idle : Idle pairDaemon := ⟨rfl, by decide⟩

def pairPids : Returns := ⟨fun j => 100 + j, fun j => Or.inr (by omega)⟩

/-- Both hooks launched, and their children. -/
def pair (pc : Pc) (pending : Option ℤ) (st₀ st₁ : ChildState) : Sys :=
  ⟨dispatchHooks pairDaemon 0 0 pairPids.exec, [⟨100, ⟨0, 0⟩, st₀⟩, ⟨101, ⟨0, 1⟩, st₁⟩],
    pending, pc⟩

def firstReaped (pc : Pc) (st₁ : ChildState) : Sys :=
  ⟨onSigchld (dispatchHooks pairDaemon 0 0 pairPids.exec) 100 100, [⟨101, ⟨0, 1⟩, st₁⟩], none, pc⟩

lemma pair_run : Relation.ReflTransGen (Guarded Step NotCoalesced) (init pairDaemon)
    (pair .batch (some 100) .zombie .running) := by
  have hwake : Step (init pairDaemon) .wake ⟨pairDaemon, [], none, .batch⟩ := .wake rfl
  have hedge : Step ⟨pairDaemon, [], none, .batch⟩ (.edge 0 0 pairPids)
      (pair .batch none .running .running) := .edge rfl ⟨by simp, by decide⟩
  have hchild : Step (pair .batch none .running .running) (.child 100 .zombie)
      (pair .batch (some 100) .zombie .running) :=
    .child (c := ⟨100, ⟨0, 0⟩, .running⟩) List.mem_cons_self (.exit nofun)
  exact .tail (.tail (.single ⟨.wake, trivial, hwake⟩) ⟨.edge 0 0 pairPids, trivial, hedge⟩)
    ⟨.child 100 .zombie, Or.inl rfl, hchild⟩

lemma firstReaped_run (st₁ : ChildState) : Relation.ReflTransGen (Guarded Step NotCoalesced)
    (pair .batch (some 100) .zombie st₁) (firstReaped .wait st₁) := by
  have hread : Step (pair .batch (some 100) .zombie st₁) .readSig
      (pair (.chld 100) none .zombie st₁) := .readSig rfl rfl
  have hsig : Step (pair (.chld 100) none .zombie st₁) .handleSig (firstReaped .batch st₁) :=
    .handleSig (s := pair (.chld 100) none .zombie st₁) rfl
  have hdone : Step (firstReaped .batch st₁) .done (firstReaped .wait st₁) := .done rfl
  exact .tail (.tail (.single ⟨.readSig, trivial, hread⟩) ⟨.handleSig, trivial, hsig⟩)
    ⟨.done, trivial, hdone⟩

theorem one_exit_reaped : Reaped (firstReaped .wait .running) :=
  reaped_of_run pairDaemon_idle (pair_run.trans (firstReaped_run .running)) rfl rfl

/-- Both children end before the SIGCHLD is read: the second is never waited for. -/
theorem second_exit_lost :
    Relation.ReflTransGen (Guarded Step fun _ _ => True) (init pairDaemon)
      (firstReaped .wait .zombie) ∧
    (firstReaped .wait .zombie).pc = .wait ∧ (firstReaped .wait .zombie).pending = none ∧
    ¬ Reaped (firstReaped .wait .zombie) := by
  have hexit : Step (pair .batch (some 100) .zombie .running) (.child 101 .zombie)
      (pair .batch (some 100) .zombie .zombie) :=
    .child (c := ⟨101, ⟨0, 1⟩, .running⟩) (by decide) (.exit nofun)
  refine ⟨?_, rfl, rfl, fun h => ?_⟩
  · exact ((guarded_mono (fun _ _ _ => trivial) pair_run).tail
      ⟨.child 101 .zombie, trivial, hexit⟩).trans
        (guarded_mono (fun _ _ _ => trivial) (firstReaped_run .zombie))
  · exact h.waited ⟨101, ⟨0, 1⟩, .zombie⟩ (List.mem_singleton.mpr rfl) rfl

/-! ### A child without a SIGCHLD -/

/-- A child that has ended and that no SIGCHLD names. -/
structure Lost (s : Sys) (c : Child) : Prop where
  mem : c ∈ s.children
  ended : c.state = .zombie
  unnamed : ¬ Named s c

/-- **Lost for good**: no step waits for a lost child. -/
lemma Lost.step {s t : Sys} {a : Act} {c : Child} (hi : Inv s) (h : Lost s c) (hst : Step s a t) :
    Lost t c := by
  obtain ⟨hmem, hz, hn⟩ := h
  obtain ⟨hp, hpc⟩ := not_or.mp hn
  cases hst with
  | wake => exact ⟨hmem, hz, not_or.mpr ⟨hp, nofun⟩⟩
  | edge => exact ⟨List.mem_append_left _ hmem, hz, hn⟩
  | readSig _ hpend =>
    refine ⟨hmem, hz, not_or.mpr ⟨nofun, fun he => hp ?_⟩⟩
    rw [hpend, Pc.chld.inj he]
  | handleSig hs =>
    refine ⟨mem_waitpid hmem fun he => hpc (he ▸ hs), hz, not_or.mpr ⟨hp, nofun⟩⟩
  | done => exact ⟨hmem, hz, not_or.mpr ⟨hp, nofun⟩⟩
  | @child c₀ st hc₀ hm =>
    -- another child than `c`, which has ended and does not change any more
    have hne : c.pid ≠ c₀.pid := fun he => by
      obtain rfl := hi.unique hmem hc₀ he
      rw [hz] at hm
      cases hm with
      | exit h => exact h rfl
    refine ⟨mem_setState.mpr ⟨c, hmem, by rw [if_neg hne]⟩, hz, not_or.mpr ⟨fun he => ?_, hpc⟩⟩
    cases hs : s.pending with
    | none => rw [hs] at he; exact hne (Option.some.inj he).symm
    | some p => rw [hs] at he hp; exact hp he

lemma lost_of_coalesced {s t : Sys} {pid : ℤ} (hst : Step s (.child pid .zombie) t)
    (hc : ¬ NotCoalesced s (.child pid .zombie)) : ∃ c, Lost t c := by
  cases hst with
  | @child c₀ _ hc₀ hm =>
    obtain ⟨hnone, hsome, hchld⟩ : s.pending ≠ none ∧ s.pending ≠ some c₀.pid ∧
        s.pc ≠ .chld c₀.pid := by simpa [NotCoalesced] using hc
    refine ⟨{ c₀ with state := .zombie }, mem_setState.mpr ⟨c₀, hc₀, by rw [if_pos rfl]⟩, rfl,
      not_or.mpr ⟨fun he => hsome ?_, hchld⟩⟩
    obtain ⟨p, hp⟩ := Option.ne_none_iff_exists'.mp hnone
    rw [hp, Option.some_or] at he
    exact hp.trans he

/-- **The condition is needed**: once a child has ended while a SIGCHLD of another was pending,
no state that is reached is reaped. -/
theorem never_reaped {d : Daemon} (hd : Idle d) {s s' t : Sys} {pid : ℤ}
    (h : Relation.ReflTransGen (Guarded Step fun _ _ => True) (init d) s)
    (hst : Step s (.child pid .zombie) s') (hc : ¬ NotCoalesced s (.child pid .zombie))
    (h' : Relation.ReflTransGen (Guarded Step fun _ _ => True) s' t) : ¬ Reaped t := by
  have hi : Inv s := guarded_inv (I := Inv) (fun _ _ _ hi _ hst => hi.step hst) (inv_init hd) h
  obtain ⟨c, hl⟩ := lost_of_coalesced hst hc
  obtain ⟨-, hlt⟩ := guarded_inv_and (I := Inv) (J := (Lost · c))
    (fun _ _ _ hi hst => hi.step hst) (fun _ _ _ hi hl _ hst => hl.step hi hst)
    (hi.step hst) hl h'
  exact fun hr => hr.waited c hlt.mem hlt.ended

end Gpiod.Reap
