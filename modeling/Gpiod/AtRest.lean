import Gpiod.Hangup
import Gpiod.Reap
import Gpiod.Views

/-!
The whole loop at rest: it waits, and no notification of `sigfd` is outstanding.

What the partial systems say of their runs holds of the whole at once, as each run of the whole is
one of theirs: the signals that arrived are read, the children that ended are waited for, the hooks
and `pid_list` know of running children only, and clients that are gone are deleted.
-/

namespace Gpiod.EventLoop

open Gpiod.Pin Gpiod.Changed Gpiod.Dispatch Gpiod.Machine
open Gpiod.LoopOps (SameHooks)

variable {sign : CharSign} {d : Daemon}

/-- Nothing that has arrived is left undone. -/
structure AtRest (s : Sys) : Prop where
  read : s.pending = []
  running : .sigint ∉ s.arrived ∧ .sigterm ∉ s.arrived
  waited : ∀ c ∈ s.children, c.state ≠ .zombie
  listed : ∀ e ∈ s.loop.daemon.pid_list, ∃ c ∈ s.children, c.pid = e.1 ∧ c.hook = e.2
  held : ∀ r hook, s.loop.daemon.hook? r = some hook → hook.spawned ≠ -1 →
    ∃ c ∈ s.children, c.pid = hook.spawned ∧ c.hook = r
  gone : ∀ id c, s.conn id = some c → c.registered = true → c.closed = true →
    c.notified = false → id ∉ s.tcp_clients.fds

/-! ### The parts -/

lemma flag_of_wait {C : Signals.Sys → Signals.Act → Prop} {s : Signals.Sys}
    (h : Relation.ReflTransGen (Guarded Signals.Step C) Signals.init s) :
    s.pc = .wait → s.shutdown_flag = false := by
  refine guarded_inv (I := fun s : Signals.Sys => s.pc = .wait → s.shutdown_flag = false)
    (fun s a t hs _ hst => ?_) (fun _ => rfl) h
  cases hst with
  | arrive sig =>
    unfold Signals.Sys.raised
    split <;> exact hs
  | wake => exact fun hpc => by cases hpc
  | read => exact fun hpc => by simp at hpc
  | done =>
    cases hf : s.shutdown_flag with
    | false => exact fun _ => rfl
    | true => exact fun hpc => by simp at hpc

lemma signals_orderly {s : Sys}
    (h : Relation.ReflTransGen (Guarded (Moves sign) Orderly) (init d) s) :
    Relation.ReflTransGen (Guarded Signals.Step Signals.OneAtATime) Signals.init s.signals := by
  refine signals_of_run (fun s b hb => ?_) (fun s sig hsig => hsig)
    (fun s pid st hst => hst.1) h
  cases b with
  | arrive sig => exact absurd rfl (hb sig)
  | _ => trivial

lemma hooks_orderly {s : Sys}
    (h : Relation.ReflTransGen (Guarded (Moves sign) Orderly) (init d) s) :
    ∃ d', SameHooks s.loop.daemon d' ∧ Relation.ReflTransGen
      (Guarded Children.Step Reap.NotCoalesced) (Children.init d) (s.hooks d') := by
  refine hooks_of_run (fun s b hb => ?_) (fun s d pid st hst => ?_) h
  · cases b with
    | child pid st => exact absurd rfl (hb pid st)
    | _ => trivial
  · cases st with
    | zombie =>
      by_cases hp : Signals.Signal.sigchld ∈ s.pending
      · right
        refine (hst.2 rfl hp).imp (fun hpid => ?_) (fun hpc => ?_)
        · simp [Sys.hooks, Sys.sigchld, hp, hpid]
        · obtain ⟨ret, hpc⟩ := hpc
          exact hooks_pc hpc d
      · left
        simp [Sys.hooks, Sys.sigchld, hp]
    | _ => trivial

lemma conns_orderly {s : Sys}
    (h : Relation.ReflTransGen (Guarded (Moves sign) Orderly) (init d) s) :
    Relation.ReflTransGen (Guarded Clients.Step Hangup.Drained) Clients.init s.conns := by
  refine conns_of_run (fun s b hb => ?_) (fun s hs k id rest c ht hc hal => ?_) h
  · cases b with
    | client k => exact absurd rfl (hb k)
    | _ => trivial
  · obtain ⟨item, items, htodo, hitem, -⟩ := List.map_eq_cons_iff.mp ht
    cases item with
    | client id' rdhup k' =>
      cases hitem
      exact hs id k' items c htodo hc hal
    | _ => cases hitem

/-! ### The whole -/

/-- **At rest**: in every run in which signals arrive one at a time, no child ends while the SIGCHLD
of another is pending and no byte is unread where a close is handled, a loop that waits with no
notification of `sigfd` outstanding has read every signal, and SIGINT or SIGTERM was not among them;
it has waited for every child that ended, its tables name running children only, and every client
that is gone is deleted. -/
theorem atRest_of_run (hd : Children.Idle d) {s : Sys}
    (h : Relation.ReflTransGen (Guarded (Moves sign) Orderly) (init d) s) (hpc : s.pc = .wait)
    (hn : s.notified = false) : AtRest s := by
  have hsignals := signals_orderly h
  have hwait : s.signals.pc = .wait := by
    rw [Sys.signals, hpc]
    rfl
  obtain ⟨hnil, hseen⟩ := Signals.nothing_unread_of_run hsignals hwait hn
  have hflag := flag_of_wait hsignals hwait
  obtain ⟨d', hd', hrun⟩ := hooks_orderly h
  have hpending : (s.hooks d').pending = none := by
    have hnone : s.pending = [] := hnil
    simp [Sys.hooks, Sys.sigchld, hnone]
  have hreaped := Reap.reaped_of_run hd hrun (hooks_pc hpc d') hpending
  constructor
  · exact hnil
  · rw [← not_or]
    intro hmem
    cases hflag.symm.trans (hseen hmem)
  · exact hreaped.waited
  · intro e he
    obtain ⟨c, hc, hpid, hhook, -⟩ := hreaped.listed e (hd'.pids ▸ he)
    exact ⟨c, hc, hpid, hhook⟩
  · intro r hook hh hne
    obtain ⟨c, hc, hpid, hhook, -⟩ := hreaped.held r hook (hd'.hook? r ▸ hh) hne
    exact ⟨c, hc, hpid, hhook⟩
  · intro id c hc hreg hclosed hnot
    refine Hangup.removed_of_run (conns_orderly h) id c hc hreg hclosed hnot ?_
    simp [Sys.conns, (inv_of_run h).idle hpc, Clients.clients]

theorem hooked_atRest : AtRest hooked₉ :=
  atRest_of_run ⟨rfl, by decide⟩ hooked_run rfl rfl

end Gpiod.EventLoop
