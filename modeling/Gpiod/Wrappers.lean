import Gpiod.Clients

/-!
The wrappers that `epoll_wait` reports. A wrapper is freed with its client, whose registration is
never taken back but left to end with the socket. A child that was launched while the client was
connected has a copy of the descriptor until its `execve`, so in between the shutdown of the client
is reported, with a wrapper that is not there any more.
-/

namespace Gpiod.Wrappers

open Gpiod.Machine Gpiod.Clients

/-- The wrapper of the event that is handled next is allocated, and none that was freed has been
read. -/
structure Safe (s : Sys) : Prop where
  alive : s.pc ≠ .freedRead
  head : ∀ id rdhup rest, s.todo = .clientPort id rdhup :: rest →
    ∃ c, s.conn id = some c ∧ c.allocated = true

/-- `epoll_wait` returns only where no child has a descriptor of a client that was deleted. -/
def Released (s : Sys) : Act → Prop
  | .wake _ => ∀ id c, s.conn id = some c → c.allocated = false → s.held id = false
  | _ => True

/-! ### One step -/

/-- Every client that the batch reports is allocated. -/
structure Alive (s : Sys) : Prop where
  alive : s.pc ≠ .freedRead
  todo : ∀ id ∈ clients s.todo, ∃ c, s.conn id = some c ∧ c.allocated = true

lemma Alive.safe {s : Sys} (h : Alive s) : Safe s where
  alive := h.alive
  head := by
    intro id rdhup rest ht
    exact h.todo id (by rw [ht]; exact List.mem_cons_self)

lemma Alive.setConn {s : Sys} (h : Alive s) {id : ℕ} {c c' : Conn} (hc : s.conn id = some c)
    (hal : c'.allocated = c.allocated) : Alive (s.setConn id c') where
  alive := h.alive
  todo := by
    intro id' hid
    obtain ⟨c₁, h₁, hal₁⟩ := h.todo id' hid
    exact setConn_keeps (P := fun c => c.allocated = true) hc hal.trans h₁ hal₁

/-- What is reported is registered and open, so it is allocated unless a child has it. -/
lemma Alive.woken {s : Sys} (hi : Inv s) {batch : List Item} (hb : Reported s batch)
    (hrel : ∀ id c, s.conn id = some c → c.allocated = false → s.held id = false) :
    Alive (s.woken batch) where
  alive := by simp [Sys.woken]
  todo := by
    intro id hid
    obtain ⟨rdhup, hitem⟩ := mem_clients.mp hid
    obtain ⟨c, hc, hlive, -⟩ := hb.live id rdhup hitem
    have hal : c.allocated = true := by
      by_contra hno
      rw [Bool.not_eq_true] at hno
      have hfd : c.fd = false := (hi.deleted id c hc).1.trans hno
      rw [Sys.live, hfd, hrel id c hc hno] at hlive
      simp at hlive
    refine ⟨{ c with notified := false }, ?_, hal⟩
    simp [Sys.woken, show id ∈ clients batch from hid, hc]

lemma Alive.of_suffix {s t : Sys} (h : Alive s) (halive : t.pc ≠ .freedRead)
    (htodo : t.todo <:+ s.todo) (hconn : t.conn = s.conn) : Alive t where
  alive := halive
  todo := by
    rw [hconn]
    intro id hid
    exact h.todo id ((htodo.sublist.filterMap Item.client?).subset hid)

lemma Alive.step {s t : Sys} {a : Act} (h : Alive s) (hi : Inv s) (ha : Released s a)
    (hst : Step s a t) : Alive t := by
  cases hst with
  | data hc => exact h.setConn hc rfl
  | close hc => exact h.setConn hc rfl
  | lapse hpc hc => exact h.setConn hc rfl
  | wake hpc hb => exact .woken hi hb ha
  | @listen rest o hpc ht ho =>
    have hsuf : rest <:+ s.todo := ht ▸ List.suffix_cons _ _
    cases o with
    | connected id unread closed epollCtl =>
      refine ⟨by simp [Sys.onListen, hpc], fun id' hid => ?_⟩
      obtain ⟨c, hc, hal⟩ := h.todo id' ((hsuf.sublist.filterMap Item.client?).subset hid)
      have hne : id' ≠ id := fun heq => by
        rw [heq, show s.conn id = none from ho] at hc
        cases hc
      exact ⟨c, (setConn_ne s _ hne).trans hc, hal⟩
    | _ => exact h.of_suffix (by simp [Sys.onListen]) (List.suffix_refl _) rfl
  | @client id rdhup rest c k hpc ht hc hk =>
    have hsuf : rest <:+ s.todo := ht ▸ List.suffix_cons _ _
    obtain ⟨c₁, h₁, hal₁⟩ := h.safe.head id rdhup rest ht
    cases Option.some.inj (hc.symm.trans h₁)
    rcases onClient_cases s id rdhup rest c k with ⟨hno, -⟩ | ⟨-, -, -, he⟩ | ⟨-, -, he⟩
    · rw [hal₁] at hno
      cases hno
    · -- a client is reported once, so what is left to be handled is about others
      have honce := hi.once
      rw [ht, clients_clientPort, List.nodup_cons] at honce
      refine he ▸ ⟨by simp [Sys.deleteTcpClient, hpc], fun id' hid => ?_⟩
      obtain ⟨c', hc', hal'⟩ := h.todo id' ((hsuf.sublist.filterMap Item.client?).subset hid)
      have hne : id' ≠ id := fun heq => honce.1 (heq ▸ hid)
      exact ⟨c', (setConn_ne s _ hne).trans hc', hal'⟩
    · have hread : Alive (s.setConn id { c with unread := c.unread - k }) := h.setConn hc rfl
      exact he ▸ hread.of_suffix (by simp [hpc]) hsuf rfl
  | other hpc ht => exact h.of_suffix h.alive (ht ▸ List.suffix_cons _ _) rfl
  | fork hpc ht => exact h.of_suffix h.alive (List.suffix_refl _) rfl
  | exec hs => exact h.of_suffix h.alive (List.suffix_refl _) rfl
  | done hpc ht => exact h.of_suffix (by simp) (List.suffix_refl _) rfl

/-! ### Runs -/

/-- **No event of a freed client**: in every run in which `epoll_wait` returns only where no child
has a descriptor of a deleted client, every event that is handled has a wrapper that is
allocated. -/
theorem safe_of_run {s : Sys}
    (h : Relation.ReflTransGen (Guarded Step Released) init s) : Safe s := by
  have hboth : Inv s ∧ Alive s :=
    guarded_inv_and (fun _ _ _ hi hst => hi.step hst) (fun _ _ _ hi h ha hst => h.step hi ha hst)
      inv_init ⟨by decide, fun id hid => by cases hid⟩ h
  exact hboth.2.safe

/-- A client is accepted, and a hook launched in the same batch. -/
def launched : Sys :=
  let s := (init.woken [.listenPort, .other]).onListen [.other] (.connected 3 0 true true)
  { s with children := [fun id => (s.conn id).any fun c => c.fd] }

/-- The client is deleted, while the child has its socket still. -/
def deleted : Sys :=
  (Sys.woken { launched with todo := [], pc := .wait } [.clientPort 3 true]).onClient 3 true []
    (goneConn 0) 0

lemma run_deleted : Relation.ReflTransGen (Guarded Step Released) init deleted := by
  have hwake : Guarded Step Released init (init.woken [.listenPort, .other]) :=
    ⟨.wake [.listenPort, .other], fun id c hc => (by cases hc),
      .wake rfl ⟨by decide, fun id rdhup h => by simp at h⟩⟩
  have hlisten : Guarded Step Released (init.woken [.listenPort, .other])
      ((init.woken [.listenPort, .other]).onListen [.other] (.connected 3 0 true true)) :=
    ⟨.listen (.connected 3 0 true true), trivial, .listen rfl rfl rfl⟩
  have hfork : Guarded Step Released
      ((init.woken [.listenPort, .other]).onListen [.other] (.connected 3 0 true true)) launched :=
    ⟨.fork, trivial, .fork rfl rfl⟩
  have hother : Guarded Step Released launched { launched with todo := [] } :=
    ⟨.other, trivial, .other rfl rfl⟩
  have hdone : Guarded Step Released { launched with todo := [] }
      { launched with todo := [], pc := .wait } := ⟨.done, trivial, .done rfl rfl⟩
  have hreport : Guarded Step Released { launched with todo := [], pc := .wait }
      (Sys.woken { launched with todo := [], pc := .wait } [.clientPort 3 true]) := by
    refine ⟨.wake [.clientPort 3 true], fun id c hc hal => ?_,
      .wake rfl ⟨by decide, fun id rdhup h => ?_⟩⟩
    · rcases setConn_conn (s := init.woken [.listenPort, .other]) hc with ⟨-, rfl⟩ | ⟨-, hc⟩
      · cases hal
      · cases hc
    · obtain ⟨rfl, rfl⟩ := by simpa using h
      exact ⟨acceptedConn 0 true true, setConn_self (init.woken [.listenPort, .other]) 3 _, rfl,
        rfl, rfl, rfl⟩
  have hclient : Guarded Step Released
      (Sys.woken { launched with todo := [], pc := .wait } [.clientPort 3 true]) deleted :=
    ⟨.client 0, trivial, .client rfl rfl rfl (Nat.le_refl 0)⟩
  exact .tail (.tail (.tail (.tail (.tail (.tail (.single hwake) hlisten) hfork) hother) hdone)
    hreport) hclient

/-- **A child that execs in time.** -/
theorem safe_of_exec :
    (deleted.conn 3).map Conn.allocated = some false ∧ deleted.held 3 = true ∧
      Safe { deleted with children := [], pc := .wait } := by
  have hexec : Guarded Step Released deleted { deleted with children := [] } :=
    ⟨.exec, trivial, @Step.exec deleted [] [] _ rfl⟩
  exact ⟨rfl, rfl, safe_of_run (.tail (.tail run_deleted hexec) ⟨.done, trivial, .done rfl rfl⟩)⟩

/-- The loop waits before the child has reached its `execve`: the shutdown of the client is
reported with the wrapper that was freed. -/
theorem freed_reported :
    Relation.ReflTransGen (Guarded Step fun _ _ => True) init
        (Sys.woken { deleted with pc := .wait } [.clientPort 3 true]) ∧
      ¬ Safe (Sys.woken { deleted with pc := .wait } [.clientPort 3 true]) := by
  have hreport : Step { deleted with pc := .wait } (.wake [.clientPort 3 true])
      (Sys.woken { deleted with pc := .wait } [.clientPort 3 true]) := by
    refine .wake rfl ⟨by decide, fun id rdhup h => ?_⟩
    obtain ⟨rfl, rfl⟩ := by simpa using h
    exact ⟨_, rfl, rfl, rfl, rfl, rfl⟩
  refine ⟨.tail (.tail (guarded_mono (fun _ _ _ => trivial) run_deleted)
    ⟨.done, trivial, .done rfl rfl⟩) ⟨_, trivial, hreport⟩, fun h => ?_⟩
  obtain ⟨c, hc, hal⟩ := h.head 3 true [] rfl
  cases hc
  cases hal

/-! ### Deleted clients -/

/-- A client that was deleted is registered, and its shutdown is yet to be handled. -/
def Pending (s : Sys) : Prop :=
  ∀ id c, s.conn id = some c → c.allocated = false →
    c.registered = true ∧ (c.notified = true ∨ id ∈ clients s.todo)

lemma Pending.setConn {s : Sys} (h : Pending s) {id : ℕ} {c : Conn}
    (hc : c.allocated = false → c.registered = true ∧ (c.notified = true ∨ id ∈ clients s.todo)) :
    Pending (s.setConn id c) :=
  setConn_forall h hc

lemma Pending.rest {s t : Sys} (h : Pending s) {item : Item} {rest : List Item}
    (ht : s.todo = item :: rest)
    (hitem : ∀ id, item.client? = some id → ∀ c, s.conn id = some c → c.allocated = false →
      c.notified = true)
    (hconn : t.conn = s.conn) (htodo : t.todo = rest) : Pending t := by
  intro id c hc hal
  rw [hconn] at hc
  refine (h id c hc hal).imp_right fun hdue => hdue.elim Or.inl fun hin => ?_
  rw [ht, clients, List.filterMap_cons] at hin
  rw [htodo]
  cases hid : item.client? with
  | none =>
    rw [hid] at hin
    exact Or.inr hin
  | some id' =>
    rw [hid] at hin
    rcases List.mem_cons.mp hin with rfl | hin
    · exact Or.inl (hitem id hid c hc hal)
    · exact Or.inr hin

lemma Pending.step {s t : Sys} {a : Act} (h : Pending s) (hi : Inv s) (hst : Step s a t) :
    Pending t := by
  cases hst with
  | @data id n c hc hopen hshut =>
    refine h.setConn fun hal => ?_
    rw [(hi.deleted id c hc).2, show c.allocated = false from hal] at hshut
    cases hshut
  | @close id c hc hopen =>
    refine h.setConn fun hal => (h id c hc hal).imp_right fun hdue => hdue.imp_left fun hn => ?_
    simp [Conn.notify, hn]
  | @lapse id c hpc hc hr =>
    refine h.setConn fun hal => ?_
    simp [Conn.ready, (hi.deleted id c hc).2, show c.allocated = false from hal] at hr
  | @wake batch hpc hb =>
    intro id c hc hal
    rcases woken_conn hc with ⟨-, hc'⟩ | ⟨c', hc', hmem, rfl⟩
    · obtain ⟨hreg, hdue⟩ := h id c hc' hal
      rw [hi.idle hpc] at hdue
      exact ⟨hreg, Or.inl (hdue.resolve_right (by simp [clients]))⟩
    · exact ⟨(h id c' hc' hal).1, Or.inr hmem⟩
  | @listen rest o hpc ht ho =>
    cases o with
    | connected id unread closed epollCtl =>
      have hnew : Pending (s.setConn id (acceptedConn unread closed epollCtl)) :=
        h.setConn fun hal => by cases hal
      exact hnew.rest ht (fun _ hid => by cases hid) rfl rfl
    | _ => exact h
  | @client id rdhup rest c k hpc ht hc hk =>
    have hreg : c.registered = true := by
      obtain ⟨c₁, h₁, hreg⟩ := hi.registered id (by rw [ht]; exact List.mem_cons_self)
      cases Option.some.inj (hc.symm.trans h₁)
      exact hreg
    rcases onClient_cases s id rdhup rest c k with ⟨-, he⟩ | ⟨-, -, -, he⟩ | ⟨hal, -, he⟩
    · exact he ▸ h
    · -- the shutdown is notified, as the registration is still there
      have hgone : Pending (s.deleteTcpClient id c) :=
        h.setConn fun _ => ⟨hreg, Or.inl (by simp [Conn.notify, hreg])⟩
      refine he ▸ hgone.rest ht (fun id' hid c' hc' _ => ?_) rfl rfl
      cases hid
      cases Option.some.inj ((setConn_self s id _).symm.trans hc')
      simp [Conn.notify, hreg]
    · have hread : Pending (s.setConn id { c with unread := c.unread - k }) :=
        h.setConn fun hno => by simp [hal] at hno
      refine he ▸ hread.rest ht (fun id' hid c' hc' hno => ?_) rfl rfl
      cases hid
      cases Option.some.inj ((setConn_self s id _).symm.trans hc')
      simp [hal] at hno
  | other hpc ht => exact h.rest ht (fun _ hid => by cases hid) rfl rfl
  | fork hpc ht => exact h
  | exec hs => exact h
  | done hpc ht => exact h

/-- Where the loop waits while a child has a descriptor of a deleted client, `epoll_wait` may
return with that client, and to handle it is to read freed memory. -/
theorem held_reported {s : Sys} {id : ℕ} {c : Conn}
    (hs : Relation.ReflTransGen (Guarded Step fun _ _ => True) init s) (hpc : s.pc = .wait)
    (hc : s.conn id = some c) (hal : c.allocated = false) (hheld : s.held id = true) :
    Step s (.wake [.clientPort id true]) (s.woken [.clientPort id true]) ∧
      ¬ Safe (s.woken [.clientPort id true]) ∧
      ∃ t, Step (s.woken [.clientPort id true]) (.client 0) t ∧ t.pc = .freedRead := by
  have hi : Inv s ∧ Pending s :=
    guarded_inv_and (fun _ _ _ hi hst => hi.step hst) (fun _ _ _ hi h _ hst => h.step hi hst)
      inv_init (fun id c hc => by cases hc) hs
  obtain ⟨hreg, hdue⟩ := hi.2 id c hc hal
  have hn : c.notified = true := by
    rw [hi.1.idle hpc] at hdue
    exact hdue.resolve_right (by simp [clients])
  have hshut : c.shut = true := by
    rw [(hi.1.deleted id c hc).2, hal]
    rfl
  have hafter : (s.woken [.clientPort id true]).conn id = some { c with notified := false } := by
    simp [Sys.woken, hc]
  refine ⟨.wake hpc ⟨List.nodup_singleton id, fun id' rdhup hin => ?_⟩, fun h => ?_, _,
    .client rfl rfl hafter (Nat.zero_le _), ?_⟩
  · cases List.mem_singleton.mp hin
    exact ⟨c, hc, by simp [Sys.live, hreg, hheld], hn, by simp [Conn.ready, hshut],
      by simp [hshut]⟩
  · obtain ⟨c', hc', hal'⟩ := h.head id true [] rfl
    cases Option.some.inj (hafter.symm.trans hc')
    simp [hal] at hal'
  · simp [Sys.onClient, hal]

end Gpiod.Wrappers
