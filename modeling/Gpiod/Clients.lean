import Mathlib.Data.List.Nodup
import Mathlib.Logic.Function.Basic
import Mathlib.Tactic.Common
import Gpiod.Machine

/-!
The connections of the TCP clients: the kernel's sockets and their registrations, the list of
clients, and the children that have copies of the descriptors.

A connection is accepted and registered in the LISTEN_PORT branch of the loop, and deleted in the
CLIENT_PORT branch once its peer has closed it. The registration is edge-triggered, so a
notification is raised by data that arrives, by the close of the peer and by a shutdown, and is
gone once it is reported. It lives as long as a descriptor of the socket is open, be it a copy
that a child launched for a hook has until its `execve`; the wrapper it reports is part of the
client's structure. A write through a null pointer or a read of freed memory ends a run.
-/

namespace Gpiod.Clients

open Gpiod.Machine

structure Conn where
  /-- the bytes received and not read -/
  unread : ℕ
  /-- the peer has closed the connection -/
  closed : Bool
  /-- the daemon has shut the connection down -/
  shut : Bool
  /-- the daemon's descriptor is open -/
  fd : Bool
  /-- the `struct tcp_client`, and the wrapper in it, is allocated -/
  allocated : Bool
  /-- the wrapper was added to `epollfd` -/
  registered : Bool
  /-- a readiness notification is outstanding -/
  notified : Bool
  deriving DecidableEq, Repr

/-- A ready descriptor of a batch; the other ones may launch hooks. -/
inductive Item
  | listenPort
  | clientPort (id : ℕ) (rdhup : Bool)
  | other
  deriving DecidableEq, Repr

inductive Pc
  | wait
  | batch
  | nullWrite
  | freedRead
  deriving DecidableEq, Repr

structure Sys where
  conn : ℕ → Option Conn
  tcp_clients : List ℕ
  /-- the connections that each child which has not reached its `execve` has a descriptor of -/
  children : List (ℕ → Bool)
  /-- what is still to be handled of the batch -/
  todo : List Item
  pc : Pc

def init : Sys := ⟨fun _ => none, [], [], [], .wait⟩

/-! ### The kernel -/

/-- A notification is raised if the connection is registered. -/
def Conn.notify (c : Conn) : Conn := { c with notified := c.registered || c.notified }

/-- What `epoll_wait` finds ready. -/
def Conn.ready (c : Conn) : Bool := decide (0 < c.unread) || c.closed || c.shut

/-- A child has a descriptor of the connection. -/
def Sys.held (s : Sys) (id : ℕ) : Bool := s.children.any fun child => child id

/-- The registration has not ended. -/
def Sys.live (s : Sys) (id : ℕ) (c : Conn) : Bool := c.registered && (c.fd || s.held id)

def Item.client? : Item → Option ℕ
  | .clientPort id _ => some id
  | _ => none

def clients (batch : List Item) : List ℕ := batch.filterMap Item.client?

/-- A batch reports registrations that have not ended, have a notification outstanding and are
ready, each once. -/
structure Reported (s : Sys) (batch : List Item) : Prop where
  nodup : (clients batch).Nodup
  live : ∀ id rdhup, .clientPort id rdhup ∈ batch → ∃ c, s.conn id = some c ∧
    s.live id c = true ∧ c.notified = true ∧ c.ready = true ∧ rdhup = (c.closed || c.shut)

def Sys.setConn (s : Sys) (id : ℕ) (c : Conn) : Sys :=
  { s with conn := Function.update s.conn id (some c) }

/-- The notifications reported are gone. -/
def Sys.woken (s : Sys) (batch : List Item) : Sys :=
  { s with
    conn := fun id => if id ∈ clients batch then
      (s.conn id).map fun c => { c with notified := false } else s.conn id
    todo := batch
    pc := .batch }

/-! ### The branches of the loop -/

/-- What the system calls of the LISTEN_PORT branch come to, for a connection on which so much has
arrived before it is registered. -/
inductive Accept
  | acceptFails
  | setsockoptFails
  | connected (id unread : ℕ) (closed epollCtl : Bool)

def Accept.New (s : Sys) : Accept → Prop
  | .connected id _ _ _ => s.conn id = none
  | _ => True

/-- The connection once it is accepted and, where `epoll_ctl` succeeds, registered. -/
def acceptedConn (unread : ℕ) (closed epollCtl : Bool) : Conn where
  unread := unread
  closed := closed
  shut := false
  fd := true
  allocated := true
  registered := epollCtl
  notified := epollCtl && (decide (0 < unread) || closed)

/-- The LISTEN_PORT branch: where `accept_tcp_client` returns NULL it is written through. -/
def Sys.onListen (s : Sys) (rest : List Item) : Accept → Sys
  | .acceptFails | .setsockoptFails => { s with pc := .nullWrite }
  | .connected id unread closed epollCtl =>
    { s.setConn id (acceptedConn unread closed epollCtl) with
      tcp_clients := s.tcp_clients ++ [id]
      todo := rest }

/-- `delete_tcp_client`: shut down, closed, taken from the list and freed. -/
def Sys.deleteTcpClient (s : Sys) (id : ℕ) (c : Conn) : Sys :=
  { s.setConn id { c.notify with shut := true, fd := false, allocated := false } with
    tcp_clients := s.tcp_clients.erase id }

/-- The CLIENT_PORT branch, where `splice` takes `k` bytes off. -/
def Sys.onClient (s : Sys) (id : ℕ) (rdhup : Bool) (rest : List Item) (c : Conn) (k : ℕ) : Sys :=
  if c.allocated = false then { s with pc := .freedRead }
  else if c.unread = 0 ∧ rdhup = true then { s.deleteTcpClient id c with todo := rest }
  else { s.setConn id { c with unread := c.unread - k } with todo := rest }

/-! ### Steps -/

inductive Act
  | data (id n : ℕ)
  | close (id : ℕ)
  | lapse (id : ℕ)
  | wake (batch : List Item)
  | listen (o : Accept)
  | client (k : ℕ)
  | other
  | fork
  | exec
  | done

inductive Step : Sys → Act → Sys → Prop
  | data {s : Sys} {id n : ℕ} {c : Conn} (hc : s.conn id = some c) (hopen : c.closed = false)
      (hshut : c.shut = false) :
      Step s (.data id n) (s.setConn id { c with unread := c.unread + n }.notify)
  | close {s : Sys} {id : ℕ} {c : Conn} (hc : s.conn id = some c) (hopen : c.closed = false) :
      Step s (.close id) (s.setConn id { c with closed := true }.notify)
  /-- `epoll_wait` drops the notification of a connection that is not ready any more -/
  | lapse {s : Sys} {id : ℕ} {c : Conn} (hpc : s.pc = .wait) (hc : s.conn id = some c)
      (hr : c.ready = false) : Step s (.lapse id) (s.setConn id { c with notified := false })
  /-- `epoll_wait` returns -/
  | wake {s : Sys} {batch : List Item} (hpc : s.pc = .wait) (hb : Reported s batch) :
      Step s (.wake batch) (s.woken batch)
  | listen {s : Sys} {rest : List Item} {o : Accept} (hpc : s.pc = .batch)
      (ht : s.todo = .listenPort :: rest) (ho : o.New s) :
      Step s (.listen o) (s.onListen rest o)
  | client {s : Sys} {id : ℕ} {rdhup : Bool} {rest : List Item} {c : Conn} {k : ℕ}
      (hpc : s.pc = .batch) (ht : s.todo = .clientPort id rdhup :: rest)
      (hc : s.conn id = some c) (hk : k ≤ c.unread) :
      Step s (.client k) (s.onClient id rdhup rest c k)
  | other {s : Sys} {rest : List Item} (hpc : s.pc = .batch) (ht : s.todo = .other :: rest) :
      Step s .other { s with todo := rest }
  /-- a hook is launched: the child has copies of the open descriptors -/
  | fork {s : Sys} {rest : List Item} (hpc : s.pc = .batch) (ht : s.todo = .other :: rest) :
      Step s .fork { s with
        children := (fun id => (s.conn id).any fun c => c.fd) :: s.children }
  /-- a child reaches its `execve`, which closes them -/
  | exec {s : Sys} {pre post : List (ℕ → Bool)} {child : ℕ → Bool}
      (hs : s.children = pre ++ child :: post) : Step s .exec { s with children := pre ++ post }
  | done {s : Sys} (hpc : s.pc = .batch) (ht : s.todo = []) : Step s .done { s with pc := .wait }

/-! ### Connections after a step -/

@[simp] lemma setConn_self (s : Sys) (id : ℕ) (c : Conn) : (s.setConn id c).conn id = some c :=
  Function.update_self _ _ _
@[simp] lemma setConn_ne (s : Sys) {id id' : ℕ} (c : Conn) (h : id' ≠ id) :
    (s.setConn id c).conn id' = s.conn id' := Function.update_of_ne h _ _
@[simp] lemma setConn_tcp_clients (s : Sys) (id : ℕ) (c : Conn) :
    (s.setConn id c).tcp_clients = s.tcp_clients := rfl
@[simp] lemma setConn_todo (s : Sys) (id : ℕ) (c : Conn) : (s.setConn id c).todo = s.todo := rfl
@[simp] lemma setConn_pc (s : Sys) (id : ℕ) (c : Conn) : (s.setConn id c).pc = s.pc := rfl

lemma mem_clients {batch : List Item} {id : ℕ} :
    id ∈ clients batch ↔ ∃ rdhup, .clientPort id rdhup ∈ batch := by
  unfold clients
  rw [List.mem_filterMap]
  constructor
  · rintro ⟨item, hmem, hid⟩
    cases item with
    | clientPort id' rdhup =>
      cases hid
      exact ⟨rdhup, hmem⟩
    | _ => cases hid
  · rintro ⟨rdhup, hmem⟩
    exact ⟨_, hmem, rfl⟩

@[simp] lemma clients_clientPort (id : ℕ) (rdhup : Bool) (rest : List Item) :
    clients (.clientPort id rdhup :: rest) = id :: clients rest := rfl
@[simp] lemma clients_other (rest : List Item) : clients (.other :: rest) = clients rest := rfl
@[simp] lemma clients_listenPort (rest : List Item) :
    clients (.listenPort :: rest) = clients rest := rfl

/-- **The three outcomes of the CLIENT_PORT branch.** -/
lemma onClient_cases (s : Sys) (id : ℕ) (rdhup : Bool) (rest : List Item) (c : Conn) (k : ℕ) :
    (c.allocated = false ∧ s.onClient id rdhup rest c k = { s with pc := .freedRead }) ∨
      (c.allocated = true ∧ c.unread = 0 ∧ rdhup = true ∧
        s.onClient id rdhup rest c k = { s.deleteTcpClient id c with todo := rest }) ∨
      (c.allocated = true ∧ ¬ (c.unread = 0 ∧ rdhup = true) ∧ s.onClient id rdhup rest c k =
        { s.setConn id { c with unread := c.unread - k } with todo := rest }) := by
  unfold Sys.onClient
  cases ha : c.allocated with
  | false => exact Or.inl ⟨rfl, by rw [if_pos rfl]⟩
  | true =>
    rw [if_neg (by simp)]
    by_cases h : c.unread = 0 ∧ rdhup = true
    · exact Or.inr (Or.inl ⟨rfl, h.1, h.2, if_pos h⟩)
    · exact Or.inr (Or.inr ⟨rfl, h, if_neg h⟩)

/-- A connection after a wake: as before, but for its notification. -/
lemma woken_conn {s : Sys} {batch : List Item} {id : ℕ} {c : Conn}
    (h : (s.woken batch).conn id = some c) :
    (id ∉ clients batch ∧ s.conn id = some c) ∨
      ∃ c', s.conn id = some c' ∧ id ∈ clients batch ∧ c = { c' with notified := false } := by
  simp only [Sys.woken] at h
  split at h
  · next hid =>
    obtain ⟨c', hc', rfl⟩ := Option.map_eq_some_iff.mp h
    exact Or.inr ⟨c', hc', hid, rfl⟩
  · next hid => exact Or.inl ⟨hid, h⟩

lemma setConn_conn {s : Sys} {id id' : ℕ} {c c' : Conn} (h : (s.setConn id c).conn id' = some c') :
    (id' = id ∧ c' = c) ∨ (id' ≠ id ∧ s.conn id' = some c') := by
  by_cases hid : id' = id
  · subst hid
    exact Or.inl ⟨rfl, (Option.some.inj ((setConn_self s id' c).symm.trans h)).symm⟩
  · exact Or.inr ⟨hid, (setConn_ne s c hid).symm.trans h⟩

/-- What holds of every connection does so after the update of one that it holds of. -/
lemma setConn_forall {s : Sys} {P : ℕ → Conn → Prop} (h : ∀ id c, s.conn id = some c → P id c)
    {id : ℕ} {c : Conn} (hc : P id c) :
    ∀ id' c', (s.setConn id c).conn id' = some c' → P id' c' := by
  intro id' c' h'
  rcases setConn_conn h' with ⟨rfl, rfl⟩ | ⟨-, h'⟩
  · exact hc
  · exact h id' c' h'

lemma setConn_keeps {s : Sys} {id id' : ℕ} {c c' c₁ : Conn} {P : Conn → Prop}
    (hc : s.conn id = some c) (hkeep : P c → P c') (h₁ : s.conn id' = some c₁) (hP : P c₁) :
    ∃ c₂, (s.setConn id c').conn id' = some c₂ ∧ P c₂ := by
  by_cases hid : id' = id
  · subst hid
    rw [hc] at h₁
    cases h₁
    exact ⟨c', setConn_self s id' c', hkeep hP⟩
  · exact ⟨c₁, (setConn_ne s c' hid).trans h₁, hP⟩

/-! ### The list and the batch in every run -/

/-- The list has, each once, the clients that are allocated; these are the ones whose descriptor is
open and that were not shut down. The batch has each client at most once, and registered ones only;
a loop that waits has handled it. -/
structure Inv (s : Sys) : Prop where
  idle : s.pc = .wait → s.todo = []
  nodup : s.tcp_clients.Nodup
  mem_iff : ∀ id, id ∈ s.tcp_clients ↔ ∃ c, s.conn id = some c ∧ c.allocated = true
  deleted : ∀ id c, s.conn id = some c → c.fd = c.allocated ∧ c.shut = !c.allocated
  once : (clients s.todo).Nodup
  registered : ∀ id ∈ clients s.todo, ∃ c, s.conn id = some c ∧ c.registered = true

lemma inv_init : Inv init where
  idle _ := rfl
  nodup := List.nodup_nil
  mem_iff id := by simp [init]
  deleted id c h := by cases h
  once := List.nodup_nil
  registered id h := by cases h

lemma Inv.setConn {s : Sys} (h : Inv s) {id : ℕ} {c c' : Conn} (hc : s.conn id = some c)
    (hfd : c'.fd = c.fd) (hal : c'.allocated = c.allocated) (hshut : c'.shut = c.shut)
    (hreg : c'.registered = c.registered) : Inv (s.setConn id c') where
  idle := h.idle
  nodup := h.nodup
  mem_iff := by
    intro id'
    refine (h.mem_iff id').trans ?_
    by_cases hid : id' = id
    · subst hid
      simp [hc, hal]
    · rw [setConn_ne s c' hid]
  deleted := setConn_forall h.deleted (by rw [hfd, hal, hshut]; exact h.deleted id c hc)
  once := h.once
  registered := by
    intro id' hid
    obtain ⟨c₁, h₁, hr₁⟩ := h.registered id' hid
    exact setConn_keeps (P := fun c => c.registered = true) hc (fun hr => hreg.trans hr) h₁ hr₁

lemma Inv.woken {s : Sys} (h : Inv s) {batch : List Item} (hb : Reported s batch) :
    Inv (s.woken batch) where
  idle := by simp [Sys.woken]
  nodup := h.nodup
  mem_iff := by
    intro id
    refine (h.mem_iff id).trans ?_
    simp only [Sys.woken]
    split
    · simp
    · rfl
  deleted := by
    intro id c hc
    rcases woken_conn hc with ⟨-, hc'⟩ | ⟨c', hc', -, rfl⟩
    · exact h.deleted id c hc'
    · exact h.deleted id c' hc'
  once := hb.nodup
  registered := by
    intro id hid
    obtain ⟨rdhup, hitem⟩ := mem_clients.mp hid
    obtain ⟨c, hc, hlive, -⟩ := hb.live id rdhup hitem
    refine ⟨{ c with notified := false }, ?_, (Bool.and_eq_true_iff.mp hlive).1⟩
    simp [Sys.woken, show id ∈ clients batch from hid, hc]

lemma Inv.connected {s : Sys} (h : Inv s) {id : ℕ} (hnew : s.conn id = none)
    (unread : ℕ) (closed epollCtl : Bool) :
    Inv { s.setConn id (acceptedConn unread closed epollCtl) with
      tcp_clients := s.tcp_clients ++ [id] } where
  idle := h.idle
  nodup := by
    have hid : id ∉ s.tcp_clients := fun hm => by
      obtain ⟨c, hc, -⟩ := (h.mem_iff id).mp hm
      rw [hnew] at hc
      cases hc
    exact List.nodup_append.mpr ⟨h.nodup, List.nodup_singleton id, by
      intro a ha b hb heq
      rw [List.mem_singleton.mp hb] at heq
      exact hid (heq ▸ ha)⟩
  mem_iff := by
    intro id'
    by_cases hid : id' = id
    · subst hid
      simp [acceptedConn]
    · simp [hid, h.mem_iff id']
  deleted := setConn_forall h.deleted ⟨rfl, rfl⟩
  once := h.once
  registered := by
    intro id' hid
    obtain ⟨c, hc, hreg⟩ := h.registered id' hid
    have hne : id' ≠ id := fun heq => by
      rw [heq, hnew] at hc
      cases hc
    exact ⟨c, (setConn_ne s _ hne).trans hc, hreg⟩

lemma Inv.deleteTcpClient {s : Sys} (h : Inv s) {id : ℕ} {c : Conn} (hc : s.conn id = some c) :
    Inv (s.deleteTcpClient id c) where
  idle := h.idle
  nodup := h.nodup.erase id
  mem_iff := by
    intro id'
    simp only [Sys.deleteTcpClient, h.nodup.mem_erase_iff]
    by_cases hid : id' = id
    · subst hid
      simp
    · simp [hid, h.mem_iff id']
  deleted := setConn_forall h.deleted ⟨rfl, rfl⟩
  once := h.once
  registered := by
    intro id' hid
    obtain ⟨c₁, h₁, hr₁⟩ := h.registered id' hid
    exact setConn_keeps (P := fun c => c.registered = true) hc (fun hr => hr) h₁ hr₁

lemma Inv.of_suffix {s t : Sys} (h : Inv s) (hidle : t.pc = .wait → t.todo = [])
    (htodo : t.todo <:+ s.todo) (hconn : t.conn = s.conn) (hl : t.tcp_clients = s.tcp_clients) :
    Inv t where
  idle := hidle
  nodup := by
    rw [hl]
    exact h.nodup
  mem_iff := by
    rw [hl, hconn]
    exact h.mem_iff
  deleted := by
    rw [hconn]
    exact h.deleted
  once := h.once.sublist (htodo.sublist.filterMap Item.client?)
  registered := by
    rw [hconn]
    intro id hid
    exact h.registered id ((htodo.sublist.filterMap Item.client?).subset hid)

/-- **The list after a step**: whatever the system calls come to, it has the clients that are
allocated. -/
lemma Inv.step {s t : Sys} {a : Act} (h : Inv s) (hst : Step s a t) : Inv t := by
  cases hst with
  | data hc => exact h.setConn hc rfl rfl rfl rfl
  | close hc => exact h.setConn hc rfl rfl rfl rfl
  | lapse hpc hc => exact h.setConn hc rfl rfl rfl rfl
  | wake hpc hb => exact h.woken hb
  | @listen rest o hpc ht ho =>
    have hsuf : rest <:+ s.todo := ht ▸ List.suffix_cons _ _
    cases o with
    | connected id unread closed epollCtl =>
      exact (h.connected ho unread closed epollCtl).of_suffix (by simp [Sys.onListen, hpc])
        hsuf rfl rfl
    | _ => exact h.of_suffix (by simp [Sys.onListen]) (List.suffix_refl _) rfl rfl
  | @client id rdhup rest c k hpc ht hc hk =>
    have hsuf : rest <:+ s.todo := ht ▸ List.suffix_cons _ _
    rcases onClient_cases s id rdhup rest c k with ⟨-, he⟩ | ⟨-, -, -, he⟩ | ⟨-, -, he⟩
    · exact he ▸ h.of_suffix (by simp) (List.suffix_refl _) rfl rfl
    · exact he ▸ (h.deleteTcpClient hc).of_suffix (by simp [Sys.deleteTcpClient, hpc]) hsuf rfl rfl
    · have hread : Inv (s.setConn id { c with unread := c.unread - k }) :=
        h.setConn hc rfl rfl rfl rfl
      exact he ▸ hread.of_suffix (by simp [hpc]) hsuf rfl rfl
  | other hpc ht => exact h.of_suffix (by simp [hpc]) (ht ▸ List.suffix_cons _ _) rfl rfl
  | fork hpc ht => exact h.of_suffix h.idle (List.suffix_refl _) rfl rfl
  | exec hs => exact h.of_suffix h.idle (List.suffix_refl _) rfl rfl
  | done hpc ht => exact h.of_suffix (fun _ => ht) (List.suffix_refl _) rfl rfl

lemma inv_of_run {s : Sys} {C : Sys → Act → Prop}
    (h : Relation.ReflTransGen (Guarded Step C) init s) : Inv s :=
  guarded_inv (fun _ _ _ hi _ hst => hi.step hst) inv_init h

/-! ### A client that is gone when it is accepted -/

/-- A connection on which `n` bytes and the close of its peer arrived first is accepted. -/
def accepted (n : ℕ) : Sys := (init.woken [.listenPort]).onListen [] (.connected 3 n true true)

/-- Its connection once its events are reported. -/
def goneConn (n : ℕ) : Conn := { acceptedConn n true true with notified := false }

def reported (n : ℕ) : Sys := Sys.woken { accepted n with pc := .wait } [.clientPort 3 true]

/-- The event is handled, and `k` bytes are taken off. -/
def handled (n k : ℕ) : Sys := (reported n).onClient 3 true [] (goneConn n) k

lemma step_wake : Step init (.wake [.listenPort]) (init.woken [.listenPort]) :=
  .wake rfl ⟨by decide, fun id rdhup h => by simp at h⟩

lemma step_listen (n : ℕ) :
    Step (init.woken [.listenPort]) (.listen (.connected 3 n true true)) (accepted n) :=
  .listen rfl rfl rfl

lemma step_done (n : ℕ) : Step (accepted n) .done { accepted n with pc := .wait } := .done rfl rfl

lemma step_report (n : ℕ) :
    Step { accepted n with pc := .wait } (.wake [.clientPort 3 true]) (reported n) := by
  refine .wake rfl ⟨by decide, fun id rdhup h => ?_⟩
  obtain ⟨rfl, rfl⟩ := by simpa using h
  exact ⟨acceptedConn n true true, setConn_self (init.woken [.listenPort]) 3 _, rfl,
    by simp [acceptedConn], by simp [Conn.ready, acceptedConn], rfl⟩

lemma step_client {n k : ℕ} (hk : k ≤ n) : Step (reported n) (.client k) (handled n k) :=
  .client rfl rfl rfl hk

end Gpiod.Clients
