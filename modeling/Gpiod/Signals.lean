import Mathlib.Tactic.Common
import Gpiod.Machine

/-!
The signals blocked by `main` and read from `sigfd` by the loop of `gpiod-event-loop.c`.

The descriptor is watched edge-triggered: a signal that becomes pending leaves one readiness
notification, unless one is outstanding, and the SIGNAL_FD branch makes one read for a
notification, which takes one pending signal. A signal that is pending already is not made
pending again. One that is pending when the descriptor is registered is reported like one
that arrives then.
-/

namespace Gpiod.Signals

open Gpiod.Machine

inductive Signal
  | sigint | sigterm | sigquit | sighup | sigpipe | sigchld
  deriving DecidableEq, Repr

/-- Where the loop is; in a batch, whether it has `sigfd` still to be handled. -/
inductive Pc
  | wait
  | batch (sigfd : Bool)
  | exited
  deriving DecidableEq, Repr

structure Sys where
  pending : List Signal
  /-- a readiness notification for `sigfd` is outstanding -/
  notified : Bool
  pc : Pc
  shutdown_flag : Bool
  hup_flag : Bool
  /-- the signals that have arrived so far -/
  arrived : List Signal
  deriving DecidableEq, Repr

def init : Sys := ⟨[], false, .wait, false, false, []⟩

def Sys.raised (s : Sys) (sig : Signal) : Sys :=
  if sig ∈ s.pending then { s with arrived := sig :: s.arrived }
  else { s with pending := s.pending ++ [sig], notified := true, arrived := sig :: s.arrived }

/-- The switch over `ssi_signo`; what SIGCHLD does to the hooks is left out. -/
def Sys.switch (s : Sys) : Signal → Sys
  | .sigint | .sigterm => { s with shutdown_flag := true }
  | .sighup => { s with hup_flag := true }
  | .sigchld | .sigquit | .sigpipe => s

inductive Act
  | arrive (sig : Signal)
  | wake (sigfd : Bool)
  | read (sig : Signal)
  | done

inductive Step : Sys → Act → Sys → Prop
  | arrive (s : Sys) (sig : Signal) : Step s (.arrive sig) (s.raised sig)
  /-- `epoll_wait` returns, with `sigfd` in the batch or with other descriptors only -/
  | wake {s : Sys} {sigfd : Bool} (hpc : s.pc = .wait) (hn : sigfd = true → s.notified = true) :
      Step s (.wake sigfd) { s with pc := .batch sigfd, notified := s.notified && !sigfd }
  /-- the SIGNAL_FD branch; which pending signal is read is the kernel's choice -/
  | read {s : Sys} {sig : Signal} (hpc : s.pc = .batch true) (hp : sig ∈ s.pending) :
      Step s (.read sig)
        ({ s with pending := s.pending.erase sig, pc := .batch false }.switch sig)
  /-- the batch is handled, and the loop tests `shutdown_flag` -/
  | done {s : Sys} (hpc : s.pc = .batch false) :
      Step s .done { s with pc := if s.shutdown_flag then .exited else .wait }

/-- Where the loop waits and no notification is outstanding, nothing is pending, and a SIGINT or
SIGTERM that has arrived has set `shutdown_flag`. -/
def NothingUnread (s : Sys) : Prop :=
  s.pc = .wait → s.notified = false → s.pending = [] ∧
    (.sigint ∈ s.arrived ∨ .sigterm ∈ s.arrived → s.shutdown_flag = true)

/-- A signal that is not pending yet arrives only while no notification is outstanding. -/
def OneAtATime (s : Sys) : Act → Prop
  | .arrive sig => sig ∈ s.pending ∨ s.notified = false
  | _ => True

/-! ### Counting reads -/

/-- The reads that a notification, outstanding or in the batch, will still bring. -/
def Sys.reads (s : Sys) : ℕ := s.notified.toNat + if s.pc = .batch true then 1 else 0

@[simp] lemma switch_pending (s : Sys) (sig : Signal) : (s.switch sig).pending = s.pending := by
  cases sig <;> rfl
@[simp] lemma switch_notified (s : Sys) (sig : Signal) : (s.switch sig).notified = s.notified := by
  cases sig <;> rfl
@[simp] lemma switch_pc (s : Sys) (sig : Signal) : (s.switch sig).pc = s.pc := by
  cases sig <;> rfl
@[simp] lemma switch_arrived (s : Sys) (sig : Signal) : (s.switch sig).arrived = s.arrived := by
  cases sig <;> rfl

instance (s : Sys) (a : Act) : Decidable (OneAtATime s a) := by
  cases a <;> unfold OneAtATime <;> infer_instance

/-- **One step** leaves as many signals without a read to come as it found, and one more if it is
an arrival under an outstanding notification. -/
lemma unread_step {s t : Sys} {a : Act} (h : Step s a t) :
    t.pending.length + s.reads =
      s.pending.length + t.reads + if OneAtATime s a then 0 else 1 := by
  cases h with
  | arrive sig =>
    by_cases hp : sig ∈ s.pending
    · simp [Sys.raised, Sys.reads, OneAtATime, hp]
    · cases hn : s.notified <;>
        simp [Sys.raised, Sys.reads, OneAtATime, hp, hn] <;> omega
  | @wake sigfd hpc hn =>
    cases sigfd with
    | false => simp [Sys.reads, OneAtATime, hpc]
    | true => simp [Sys.reads, OneAtATime, hpc, hn rfl]
  | read hpc hp =>
    have hlen := List.length_erase_of_mem hp
    have hpos := List.length_pos_of_mem hp
    simp only [Sys.reads, OneAtATime, switch_pending, switch_notified, switch_pc, hpc]
    simp
    omega
  | done hpc => cases s.shutdown_flag <;> simp [Sys.reads, OneAtATime, hpc]

/-! ### Runs -/

/-- Every pending signal has a read to come, and a SIGINT or SIGTERM that has arrived is pending or
has set `shutdown_flag`. -/
structure Inv (s : Sys) : Prop where
  count : s.pending.length = s.reads
  seen : ∀ sig ∈ s.arrived, sig = .sigint ∨ sig = .sigterm →
    sig ∈ s.pending ∨ s.shutdown_flag = true

lemma inv_init : Inv init := ⟨rfl, nofun⟩

lemma seen_step {s t : Sys} {a : Act} (hi : ∀ sig ∈ s.arrived, sig = .sigint ∨ sig = .sigterm →
    sig ∈ s.pending ∨ s.shutdown_flag = true) (h : Step s a t) :
    ∀ sig ∈ t.arrived, sig = .sigint ∨ sig = .sigterm →
      sig ∈ t.pending ∨ t.shutdown_flag = true := by
  intro sig hmem hsig
  cases h with
  | arrive sig' =>
    unfold Sys.raised at hmem ⊢
    split at hmem
    · next hp =>
      rw [if_pos hp]
      rcases List.mem_cons.mp hmem with rfl | hmem
      · exact Or.inl hp
      · exact hi sig hmem hsig
    · next hp =>
      rw [if_neg hp]
      rcases List.mem_cons.mp hmem with rfl | hmem
      · exact Or.inl (List.mem_append_right _ (List.mem_singleton_self _))
      · exact (hi sig hmem hsig).imp_left fun h => List.mem_append_left _ h
  | wake => exact hi sig hmem hsig
  | @read sig' hpc hp =>
    rw [switch_arrived] at hmem
    rw [switch_pending]
    by_cases he : sig = sig'
    · -- the signal read now
      subst he
      rcases hsig with rfl | rfl <;> exact Or.inr rfl
    · rcases hi sig hmem hsig with h | h
      · exact Or.inl ((List.mem_erase_of_ne he).mpr h)
      · refine Or.inr ?_
        cases sig' <;> first | exact h | rfl
  | done => exact hi sig hmem hsig

lemma Inv.step {s t : Sys} {a : Act} (hi : Inv s) (hc : OneAtATime s a) (h : Step s a t) :
    Inv t := by
  refine ⟨?_, seen_step hi.seen h⟩
  have hcount := hi.count
  have hstep := unread_step h
  rw [if_pos hc] at hstep
  omega

/-- **No signal is left unread** in a run in which no signal arrives under an outstanding
notification. -/
theorem nothing_unread_of_run {s : Sys}
    (h : Relation.ReflTransGen (Guarded Step OneAtATime) init s) : NothingUnread s := by
  have hi : Inv s := guarded_inv (fun s a t hi hc hst => hi.step hc hst) inv_init h
  intro hpc hn
  have hnil : s.pending = [] := by
    have hcount := hi.count
    rw [Sys.reads, hpc, hn] at hcount
    exact List.length_eq_zero_iff.mp hcount
  refine ⟨hnil, fun hsig => ?_⟩
  have hflag : ∀ sig ∈ s.arrived, sig = .sigint ∨ sig = .sigterm → s.shutdown_flag = true :=
    fun sig hmem hs => (hi.seen sig hmem hs).resolve_left (by simp [hnil])
  rcases hsig with hmem | hmem
  · exact hflag _ hmem (Or.inl rfl)
  · exact hflag _ hmem (Or.inr rfl)

/-- A SIGHUP that arrives alone is read by the batch it wakes. -/
def hungUp : Sys := ⟨[], false, .wait, false, true, [.sighup]⟩

theorem hangup_read : NothingUnread hungUp := by
  have harrive : Step init (.arrive .sighup) ⟨[.sighup], true, .wait, false, false, [.sighup]⟩ :=
    .arrive init .sighup
  have hwake : Step ⟨[.sighup], true, .wait, false, false, [.sighup]⟩ (.wake true)
      ⟨[.sighup], false, .batch true, false, false, [.sighup]⟩ := .wake rfl fun _ => rfl
  have hread : Step ⟨[.sighup], false, .batch true, false, false, [.sighup]⟩ (.read .sighup)
      ⟨[], false, .batch false, false, true, [.sighup]⟩ :=
    .read rfl (List.mem_singleton_self _)
  have hdone : Step ⟨[], false, .batch false, false, true, [.sighup]⟩ .done hungUp := .done rfl
  exact nothing_unread_of_run (.tail (.tail (.tail (.single ⟨.arrive .sighup, Or.inr rfl, harrive⟩)
    ⟨.wake true, trivial, hwake⟩) ⟨.read .sighup, trivial, hread⟩) ⟨.done, trivial, hdone⟩)

/-- A SIGHUP and a SIGTERM arrive, and the batch they wake reads the SIGHUP. -/
def termLeft : Sys := ⟨[.sigterm], false, .wait, false, true, [.sigterm, .sighup]⟩

/-- The SIGTERM is left unread, and the loop waits for ever. -/
theorem term_left_unread :
    Relation.ReflTransGen (Guarded Step fun _ _ => True) init termLeft ∧
      ¬ NothingUnread termLeft := by
  have hhup : Step init (.arrive .sighup) ⟨[.sighup], true, .wait, false, false, [.sighup]⟩ :=
    .arrive init .sighup
  have hterm : Step ⟨[.sighup], true, .wait, false, false, [.sighup]⟩ (.arrive .sigterm)
      ⟨[.sighup, .sigterm], true, .wait, false, false, [.sigterm, .sighup]⟩ := .arrive _ .sigterm
  have hwake : Step ⟨[.sighup, .sigterm], true, .wait, false, false, [.sigterm, .sighup]⟩
      (.wake true) ⟨[.sighup, .sigterm], false, .batch true, false, false, [.sigterm, .sighup]⟩ :=
    .wake rfl fun _ => rfl
  have hread : Step
      ⟨[.sighup, .sigterm], false, .batch true, false, false, [.sigterm, .sighup]⟩ (.read .sighup)
      ⟨[.sigterm], false, .batch false, false, true, [.sigterm, .sighup]⟩ :=
    .read rfl List.mem_cons_self
  have hdone : Step ⟨[.sigterm], false, .batch false, false, true, [.sigterm, .sighup]⟩ .done
      termLeft := .done rfl
  refine ⟨.tail (.tail (.tail (.tail (.single ⟨_, trivial, hhup⟩) ⟨_, trivial, hterm⟩)
    ⟨_, trivial, hwake⟩) ⟨_, trivial, hread⟩) ⟨_, trivial, hdone⟩, fun h => ?_⟩
  cases (h rfl rfl).1

/-- The read that a signal arriving under an outstanding notification lacks is never made up for:
from then on a signal is pending in every state, also where no notification is outstanding. -/
theorem unread_forever {s t u : Sys} {a : Act}
    (hs : Relation.ReflTransGen (Guarded Step fun _ _ => True) init s) (hst : Step s a t)
    (hc : ¬ OneAtATime s a) (hu : Relation.ReflTransGen (Guarded Step fun _ _ => True) t u) :
    u.pending ≠ [] := by
  have hle : s.reads ≤ s.pending.length :=
    guarded_inv (I := fun s => s.reads ≤ s.pending.length)
      (fun s a t hle _ h => by have := unread_step h; omega) (by decide) hs
  have hlt : t.reads < t.pending.length := by
    have hstep := unread_step hst
    rw [if_neg hc] at hstep
    omega
  have hlt' : u.reads < u.pending.length :=
    guarded_inv (I := fun s => s.reads < s.pending.length)
      (fun s a t hlt _ h => by have := unread_step h; omega) hlt hu
  exact List.ne_nil_of_length_pos (by omega)

end Gpiod.Signals
