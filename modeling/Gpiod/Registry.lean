import Gpiod.Clients

/-!
The registry of the clients. A connection enters the list in the LISTEN_PORT branch before it is
registered, and a NULL of `accept_tcp_client` is taken for a client, so the list agrees with the
open and registered sockets exactly as long as no call of that branch fails.
-/

namespace Gpiod.Registry

open Gpiod.Machine Gpiod.Clients

/-- The list has, each once, exactly the clients whose socket is open and registered, and the loop
has not ended in a write through NULL. -/
structure Agrees (s : Sys) : Prop where
  goesOn : s.pc ≠ .nullWrite
  nodup : s.tcp_clients.Nodup
  mem_iff : ∀ id, id ∈ s.tcp_clients ↔
    ∃ c, s.conn id = some c ∧ c.fd = true ∧ c.registered = true

/-- `accept4`, `setsockopt` and `epoll_ctl` succeed. -/
def Succeeds : Accept → Prop
  | .connected _ _ _ epollCtl => epollCtl = true
  | _ => False

/-- A connection is handled only with calls that succeed. -/
def Accepted (_ : Sys) : Act → Prop
  | .listen o => Succeeds o
  | _ => True

/-! ### One step -/

/-- Every connection is registered, and no NULL was written through. -/
structure AllRegistered (s : Sys) : Prop where
  goesOn : s.pc ≠ .nullWrite
  registered : ∀ id c, s.conn id = some c → c.registered = true

/-- The list has the clients that are allocated, whose descriptor is open; where every one is
registered these are the open and registered ones. -/
lemma AllRegistered.agrees {s : Sys} (h : AllRegistered s) (hi : Inv s) : Agrees s where
  goesOn := h.goesOn
  nodup := hi.nodup
  mem_iff := by
    intro id
    rw [hi.mem_iff id]
    constructor
    · rintro ⟨c, hc, ha⟩
      exact ⟨c, hc, (hi.deleted id c hc).1.trans ha, h.registered id c hc⟩
    · rintro ⟨c, hc, hfd, -⟩
      exact ⟨c, hc, (hi.deleted id c hc).1.symm.trans hfd⟩

lemma AllRegistered.setConn {s : Sys} (h : AllRegistered s) (id : ℕ) {c : Conn}
    (hreg : c.registered = true) : AllRegistered (s.setConn id c) where
  goesOn := h.goesOn
  registered := setConn_forall h.registered hreg

lemma AllRegistered.step {s t : Sys} {a : Act} (h : AllRegistered s) (ha : Accepted s a)
    (hst : Step s a t) : AllRegistered t := by
  cases hst with
  | data hc =>
    have hreg := h.registered _ _ hc
    exact h.setConn _ hreg
  | close hc =>
    have hreg := h.registered _ _ hc
    exact h.setConn _ hreg
  | lapse hpc hc =>
    have hreg := h.registered _ _ hc
    exact h.setConn _ hreg
  | wake hpc hb =>
    refine ⟨by simp [Sys.woken], fun id c hc => ?_⟩
    rcases woken_conn hc with ⟨-, hc'⟩ | ⟨c', hc', -, rfl⟩
    · exact h.registered id c hc'
    · exact h.registered id c' hc'
  | @listen rest o hpc ht ho =>
    cases o with
    | connected id unread closed epollCtl =>
      have hnew := h.setConn id (c := acceptedConn unread closed epollCtl) ha
      exact ⟨hnew.goesOn, hnew.registered⟩
    | _ => exact ha.elim
  | @client id rdhup rest c k hpc ht hc hk =>
    have hreg := h.registered id c hc
    rcases onClient_cases s id rdhup rest c k with ⟨-, he⟩ | ⟨-, -, -, he⟩ | ⟨-, -, he⟩
    · exact he ▸ ⟨by simp, h.registered⟩
    · have hgone := h.setConn id
        (c := { c.notify with shut := true, fd := false, allocated := false }) hreg
      exact he ▸ ⟨hgone.goesOn, hgone.registered⟩
    · have hread := h.setConn id (c := { c with unread := c.unread - k }) hreg
      exact he ▸ ⟨hread.goesOn, hread.registered⟩
  | other hpc ht => exact ⟨h.goesOn, h.registered⟩
  | fork hpc ht => exact ⟨h.goesOn, h.registered⟩
  | exec hs => exact ⟨h.goesOn, h.registered⟩
  | done hpc ht => exact ⟨by simp, h.registered⟩

/-! ### Runs -/

/-- **The client registry**: in every run in which the calls for each new connection succeed, the
list has exactly the clients whose socket is open and registered, in every state. -/
theorem registry_of_run {s : Sys}
    (h : Relation.ReflTransGen (Guarded Step Accepted) init s) : Agrees s := by
  have hreg : AllRegistered s :=
    guarded_inv (fun _ _ _ hr ha hst => hr.step ha hst) ⟨by decide, fun id c hc => by cases hc⟩ h
  exact hreg.agrees (inv_of_run h)

/-- **The registry of a client that came and went.** -/
theorem registry_of_gone :
    (accepted 0).tcp_clients = [3] ∧ (handled 0 0).tcp_clients = [] ∧ Agrees (handled 0 0) := by
  have hlisten : Guarded Step Accepted (init.woken [.listenPort]) (accepted 0) :=
    ⟨.listen (.connected 3 0 true true), rfl, step_listen 0⟩
  have hclient : Guarded Step Accepted (reported 0) (handled 0 0) :=
    ⟨.client 0, trivial, step_client (Nat.le_refl 0)⟩
  exact ⟨rfl, rfl, registry_of_run (.tail (.tail (.tail (.tail (.single ⟨.wake [.listenPort],
    trivial, step_wake⟩) hlisten) ⟨.done, trivial, step_done 0⟩) ⟨.wake [.clientPort 3 true],
    trivial, step_report 0⟩) hclient)⟩

/-- A connection whose `epoll_ctl` fails is listed, and not registered; where `accept4` finds none,
the loop does not go on. -/
theorem registry_broken :
    (Relation.ReflTransGen (Guarded Step fun _ _ => True) init
        ((init.woken [.listenPort]).onListen [] (.connected 3 0 false false)) ∧
      ¬ Agrees ((init.woken [.listenPort]).onListen [] (.connected 3 0 false false))) ∧
    Relation.ReflTransGen (Guarded Step fun _ _ => True) init
        ((init.woken [.listenPort]).onListen [] .acceptFails) ∧
      ¬ Agrees ((init.woken [.listenPort]).onListen [] .acceptFails) := by
  refine ⟨⟨.tail (.single ⟨_, trivial, step_wake⟩) ⟨_, trivial, .listen rfl rfl rfl⟩, fun h => ?_⟩,
    .tail (.single ⟨_, trivial, step_wake⟩) ⟨_, trivial, .listen rfl rfl trivial⟩, fun h => ?_⟩
  · obtain ⟨c, hc, -, hreg⟩ := (h.mem_iff 3).mp (by decide)
    cases hc
    cases hreg
  · exact h.goesOn rfl

/-- Whatever fails, the registry is broken by it. -/
theorem not_agrees_of_failed {s : Sys} {o : Accept} (rest : List Item) (ho : ¬ Succeeds o) :
    ¬ Agrees (s.onListen rest o) := by
  intro h
  cases o with
  | acceptFails => exact h.goesOn rfl
  | setsockoptFails => exact h.goesOn rfl
  | connected id unread closed epollCtl =>
    obtain ⟨c, hc, -, hreg⟩ := (h.mem_iff id).mp (List.mem_append_right _ (by simp))
    have he : acceptedConn unread closed epollCtl = c :=
      Option.some.inj ((setConn_self s id _).symm.trans hc)
    rw [← he] at hreg
    exact ho hreg

end Gpiod.Registry
