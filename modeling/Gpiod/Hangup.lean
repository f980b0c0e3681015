import Gpiod.Clients

/-!
Clients whose peer has closed the connection. The CLIENT_PORT branch deletes such a client if no
byte is unread, and otherwise discards what `splice` takes. The registration is edge-triggered and
nothing follows a close, so a client that is not deleted under the notification of the close stays
listed.
-/

namespace Gpiod.Hangup

open Gpiod.Machine Gpiod.Clients

/-- A registered client whose peer has closed the connection is not listed, unless a notification
for it is outstanding or about to be handled. -/
def Removed (s : Sys) : Prop :=
  ∀ id c, s.conn id = some c → c.registered = true → c.closed = true → c.notified = false →
    id ∉ clients s.todo → id ∉ s.tcp_clients

/-- No byte is unread where the close of a client is handled. -/
def Drained (s : Sys) : Act → Prop
  | .client _ => ∀ id rest c, s.todo = .clientPort id true :: rest → s.conn id = some c →
      c.allocated = true → c.unread = 0
  | _ => True

/-! ### One step -/

/-- A listed and registered client whose peer has closed the connection has a notification
outstanding, or the batch reports the close. -/
def Noticed (s : Sys) : Prop :=
  ∀ id ∈ s.tcp_clients, ∀ c, s.conn id = some c → c.registered = true → c.closed = true →
    c.notified = true ∨ .clientPort id true ∈ s.todo

lemma Noticed.removed {s : Sys} (h : Noticed s) : Removed s := by
  intro id c hc hreg hclosed hn htodo hl
  rcases h id hl c hc hreg hclosed with hnot | hmem
  · rw [hn] at hnot
    cases hnot
  · exact htodo (mem_clients.mpr ⟨true, hmem⟩)

lemma Noticed.setConn {s : Sys} (h : Noticed s) {id : ℕ} {c : Conn}
    (hc : id ∈ s.tcp_clients → c.registered = true → c.closed = true →
      c.notified = true ∨ .clientPort id true ∈ s.todo) : Noticed (s.setConn id c) := by
  intro id' hl c' hc' hreg hclosed
  rcases setConn_conn hc' with ⟨rfl, rfl⟩ | ⟨-, hc'⟩
  · exact hc hl hreg hclosed
  · exact h id' hl c' hc' hreg hclosed

/-- An item that is handled may go where it does not report the close of a client still listed. -/
lemma Noticed.rest {s t : Sys} (h : Noticed s) {item : Item} {rest : List Item}
    (ht : s.todo = item :: rest) (hitem : ∀ id, item = .clientPort id true → id ∉ s.tcp_clients)
    (hconn : t.conn = s.conn) (hl : t.tcp_clients = s.tcp_clients) (htodo : t.todo = rest) :
    Noticed t := by
  intro id hmem c hc hreg hclosed
  rw [hl] at hmem
  rw [hconn] at hc
  refine (h id hmem c hc hreg hclosed).imp_right fun hin => ?_
  rw [ht] at hin
  rw [htodo]
  rcases List.mem_cons.mp hin with heq | hin
  · exact absurd hmem (hitem id heq.symm)
  · exact hin

lemma Noticed.woken {s : Sys} (h : Noticed s) (hidle : s.todo = []) {batch : List Item}
    (hb : Reported s batch) : Noticed (s.woken batch) := by
  intro id hl c hc hreg hclosed
  rcases woken_conn hc with ⟨-, hc'⟩ | ⟨c', hc', hmem, rfl⟩
  · refine (h id hl c hc' hreg hclosed).imp_right fun hin => ?_
    rw [hidle] at hin
    cases hin
  · -- the batch reports the client, and with it that its peer has closed the connection
    right
    obtain ⟨rdhup, hitem⟩ := mem_clients.mp hmem
    obtain ⟨c₁, hc₁, -, -, -, hrdhup⟩ := hb.live id rdhup hitem
    cases Option.some.inj (hc'.symm.trans hc₁)
    have htrue : rdhup = true := by
      rw [hrdhup, show c'.closed = true from hclosed, Bool.true_or]
    exact htrue ▸ hitem

lemma Noticed.connected {s : Sys} (h : Noticed s) (id unread : ℕ) (closed epollCtl : Bool) :
    Noticed { s.setConn id (acceptedConn unread closed epollCtl) with
      tcp_clients := s.tcp_clients ++ [id] } := by
  intro id' hl c hc hreg hclosed
  rcases setConn_conn hc with ⟨rfl, rfl⟩ | ⟨hne, hc'⟩
  · -- a close that came before the registration is found by it
    left
    change epollCtl = true at hreg
    change closed = true at hclosed
    simp [acceptedConn, hreg, hclosed]
  · rcases List.mem_append.mp hl with hl | hl
    · exact h id' hl c hc' hreg hclosed
    · exact absurd (List.mem_singleton.mp hl) hne

/-- A client that is deleted is not listed any more, as it was listed once. -/
lemma Noticed.deleteTcpClient {s : Sys} (h : Noticed s) (hi : Inv s) (id : ℕ) (c : Conn) :
    Noticed (s.deleteTcpClient id c) ∧ id ∉ (s.deleteTcpClient id c).tcp_clients := by
  refine ⟨fun id' hl c' hc' hreg hclosed => ?_, hi.nodup.not_mem_erase⟩
  obtain ⟨hne, hl'⟩ := hi.nodup.mem_erase_iff.mp hl
  rcases setConn_conn hc' with ⟨heq, -⟩ | ⟨-, hc₁⟩
  · exact absurd heq hne
  · exact h id' hl' c' hc₁ hreg hclosed

lemma Noticed.step {s t : Sys} {a : Act} (h : Noticed s) (hi : Inv s) (ha : Drained s a)
    (hst : Step s a t) : Noticed t := by
  cases hst with
  | data hc hopen => exact h.setConn fun _ _ hclosed => by simp [Conn.notify, hopen] at hclosed
  | close hc => exact h.setConn fun _ hreg _ => Or.inl (by simpa [Conn.notify] using Or.inl hreg)
  | @lapse id c hpc hc hr =>
    refine h.setConn fun _ _ hclosed => ?_
    have hcl : c.closed = true := hclosed
    simp [Conn.ready, hcl] at hr
  | wake hpc hb => exact h.woken (hi.idle hpc) hb
  | @listen rest o hpc ht ho =>
    cases o with
    | connected id unread closed epollCtl =>
      exact (h.connected id unread closed epollCtl).rest ht (fun _ he => by cases he) rfl rfl rfl
    | _ => exact h
  | @client id rdhup rest c k hpc ht hc hk =>
    rcases onClient_cases s id rdhup rest c k with ⟨-, he⟩ | ⟨-, -, -, he⟩ | ⟨hal, hno, he⟩
    · exact he ▸ h
    · obtain ⟨hdel, hout⟩ := h.deleteTcpClient hi id c
      exact he ▸ hdel.rest ht (fun id' hid => by cases hid; exact hout) rfl rfl rfl
    · have hf : rdhup = false := by
        cases rdhup with
        | false => rfl
        | true => exact absurd ⟨ha id rest c ht hc hal, rfl⟩ hno
      have hread : Noticed (s.setConn id { c with unread := c.unread - k }) :=
        h.setConn fun hl hreg hclosed => h id hl c hc hreg hclosed
      exact he ▸ hread.rest ht (fun _ he => by cases hf; cases he) rfl rfl rfl
  | other hpc ht => exact h.rest ht (fun _ he => by cases he) rfl rfl rfl
  | fork hpc ht => exact h
  | exec hs => exact h
  | done hpc ht => exact h

/-! ### Runs -/

/-- **Clients that are gone are deleted**: in every run in which no byte of a client is unread
where its close is handled, a registered client whose peer has closed the connection is not listed
in any state without a notification for it. -/
theorem removed_of_run {s : Sys}
    (h : Relation.ReflTransGen (Guarded Step Drained) init s) : Removed s := by
  have hboth : Inv s ∧ Noticed s :=
    guarded_inv_and (fun _ _ _ hi hst => hi.step hst) (fun _ _ _ hi h ha hst => h.step hi ha hst)
      inv_init (fun id hl => by cases hl) h
  exact hboth.2.removed

/-- **A client that is gone when it is accepted**: it is deleted. -/
theorem removed_of_gone : (accepted 0).tcp_clients = [3] ∧ Removed (handled 0 0) := by
  have hclient : Guarded Step Drained (reported 0) (handled 0 0) := by
    refine ⟨.client 0, fun id rest c ht hc _ => ?_, step_client (Nat.le_refl 0)⟩
    cases ht
    cases hc
    rfl
  exact ⟨rfl, removed_of_run (.tail (.tail (.tail (.tail (.single ⟨.wake [.listenPort], trivial,
    step_wake⟩) ⟨.listen (.connected 3 0 true true), trivial, step_listen 0⟩) ⟨.done, trivial,
    step_done 0⟩) ⟨.wake [.clientPort 3 true], trivial, step_report 0⟩) hclient)⟩

/-- Five bytes are unread as the close of the peer is handled, and `splice` fails: the client stays
listed. -/
theorem unread_kept :
    Relation.ReflTransGen (Guarded Step fun _ _ => True) init (handled 5 0) ∧
      ¬ Removed (handled 5 0) := by
  refine ⟨.tail (.tail (.tail (.tail (.single ⟨_, trivial, step_wake⟩) ⟨_, trivial, step_listen 5⟩)
    ⟨_, trivial, step_done 5⟩) ⟨_, trivial, step_report 5⟩)
    ⟨_, trivial, step_client (Nat.zero_le 5)⟩, fun h => ?_⟩
  exact h 3 (goneConn 5) rfl rfl rfl rfl (by decide) (by decide)

/-! ### What is left -/

/-- Where the batch reports a close the peer has closed, and no notification is outstanding. -/
def Told (s : Sys) : Prop :=
  ∀ id, .clientPort id true ∈ s.todo → ∀ c, s.conn id = some c → c.allocated = true →
    c.closed = true ∧ c.notified = false

lemma Told.setConn {s : Sys} (h : Told s) {id : ℕ} {c' : Conn}
    (hc' : .clientPort id true ∈ s.todo → c'.allocated = true →
      c'.closed = true ∧ c'.notified = false) : Told (s.setConn id c') := by
  intro id' hin c₁ h₁ hal
  rcases setConn_conn h₁ with ⟨rfl, rfl⟩ | ⟨-, h₁⟩
  · exact hc' hin hal
  · exact h id' hin c₁ h₁ hal

lemma Told.of_suffix {s t : Sys} (h : Told s) (htodo : t.todo <:+ s.todo)
    (hconn : t.conn = s.conn) : Told t := by
  intro id hin
  rw [hconn]
  exact h id (htodo.subset hin)

lemma Told.step {s t : Sys} {a : Act} (h : Told s) (hi : Inv s) (hst : Step s a t) : Told t := by
  cases hst with
  | data hc hopen =>
    refine h.setConn fun hin hal => ?_
    rw [(h _ hin _ hc hal).1] at hopen
    cases hopen
  | close hc hopen =>
    refine h.setConn fun hin hal => ?_
    rw [(h _ hin _ hc hal).1] at hopen
    cases hopen
  | lapse hpc hc => exact h.setConn fun hin hal => ⟨(h _ hin _ hc hal).1, rfl⟩
  | wake hpc hb =>
    intro id hin c hc hal
    rcases woken_conn hc with ⟨hout, -⟩ | ⟨c', hc', -, rfl⟩
    · exact absurd (mem_clients.mpr ⟨true, hin⟩) hout
    · obtain ⟨c₁, hc₁, -, -, -, hrdhup⟩ := hb.live id true hin
      cases Option.some.inj (hc'.symm.trans hc₁)
      have hshut : c'.shut = false := by
        rw [(hi.deleted id c' hc').2, show c'.allocated = true from hal]
        rfl
      rw [hshut, Bool.or_false] at hrdhup
      exact ⟨hrdhup.symm, rfl⟩
  | @listen rest o hpc ht ho =>
    have hsuf : rest <:+ s.todo := ht ▸ List.suffix_cons _ _
    cases o with
    | connected id unread closed epollCtl =>
      have hnew : Told (s.setConn id (acceptedConn unread closed epollCtl)) := by
        refine h.setConn fun hin _ => ?_
        obtain ⟨c, hc, -⟩ := hi.registered id (mem_clients.mpr ⟨true, hin⟩)
        rw [show s.conn id = none from ho] at hc
        cases hc
      exact hnew.of_suffix hsuf rfl
    | _ => exact h
  | @client id rdhup rest c k hpc ht hc hk =>
    have hsuf : rest <:+ s.todo := ht ▸ List.suffix_cons _ _
    rcases onClient_cases s id rdhup rest c k with ⟨-, he⟩ | ⟨-, -, -, he⟩ | ⟨-, -, he⟩
    · exact he ▸ h
    · have hgone : Told (s.deleteTcpClient id c) := h.setConn fun _ hal => by cases hal
      exact he ▸ hgone.of_suffix hsuf rfl
    · have hread : Told (s.setConn id { c with unread := c.unread - k }) :=
        h.setConn fun hin hal => h id hin c hc hal
      exact he ▸ hread.of_suffix hsuf rfl
  | other hpc ht => exact h.of_suffix (ht ▸ List.suffix_cons _ _) rfl
  | fork hpc ht => exact h
  | exec hs => exact h
  | done hpc ht => exact h

/-- The client is listed and its peer has closed the connection, with nothing to come for it. -/
structure Stuck (id : ℕ) (s : Sys) : Prop where
  listed : id ∈ s.tcp_clients
  handled : id ∉ clients s.todo
  closed : ∃ c, s.conn id = some c ∧
    c.registered = true ∧ c.closed = true ∧ c.notified = false

lemma Stuck.not_removed {id : ℕ} {s : Sys} (h : Stuck id s) : ¬ Removed s := by
  obtain ⟨hl, hdone, c, hc, hreg, hclosed, hn⟩ := h
  exact fun hr => hr id c hc hreg hclosed hn hdone hl

/-- A client that is stuck stays so: no data follows, and nothing is reported. -/
lemma Stuck.step {id : ℕ} {s t : Sys} {a : Act} (h : Stuck id s) (hst : Step s a t) :
    Stuck id t := by
  obtain ⟨c₁, h₁, hP⟩ := h.closed
  cases hst with
  | data hc hopen =>
    exact ⟨h.listed, h.handled, setConn_keeps hc (fun hP => by simp [hopen] at hP) h₁ hP⟩
  | close hc hopen =>
    exact ⟨h.listed, h.handled, setConn_keeps hc (fun hP => by simp [hopen] at hP) h₁ hP⟩
  | lapse hpc hc =>
    exact ⟨h.listed, h.handled, setConn_keeps hc (fun hP => ⟨hP.1, hP.2.1, rfl⟩) h₁ hP⟩
  | @wake batch hpc hb =>
    have hout : id ∉ clients batch := fun hid => by
      obtain ⟨rdhup, hitem⟩ := mem_clients.mp hid
      obtain ⟨c, hc, -, hn, -⟩ := hb.live id rdhup hitem
      cases Option.some.inj (h₁.symm.trans hc)
      rw [hP.2.2] at hn
      cases hn
    exact ⟨h.listed, hout, c₁, by simp [Sys.woken, hout, h₁], hP⟩
  | @listen rest o hpc ht ho =>
    have hdone : id ∉ clients rest := fun hid => h.handled (by rw [ht]; exact hid)
    cases o with
    | connected id' unread closed epollCtl =>
      have hne : id ≠ id' := fun heq => by
        rw [heq, show s.conn id' = none from ho] at h₁
        cases h₁
      exact ⟨List.mem_append_left _ h.listed, hdone, c₁, (setConn_ne s _ hne).trans h₁, hP⟩
    | _ => exact ⟨h.listed, h.handled, c₁, h₁, hP⟩
  | @client id' rdhup rest c k hpc ht hc hk =>
    have hout : id ≠ id' ∧ id ∉ clients rest := by
      have hall := h.handled
      rw [ht, clients_clientPort, List.mem_cons, not_or] at hall
      exact hall
    rcases onClient_cases s id' rdhup rest c k with ⟨-, he⟩ | ⟨-, -, -, he⟩ | ⟨-, -, he⟩
    · exact he ▸ ⟨h.listed, h.handled, c₁, h₁, hP⟩
    · exact he ▸ ⟨(List.mem_erase_of_ne hout.1).mpr h.listed, hout.2, c₁,
        (setConn_ne s _ hout.1).trans h₁, hP⟩
    · exact he ▸ ⟨h.listed, hout.2, c₁, (setConn_ne s _ hout.1).trans h₁, hP⟩
  | other hpc ht => exact ⟨h.listed, fun hid => h.handled (by rw [ht]; exact hid), c₁, h₁, hP⟩
  | fork hpc ht => exact ⟨h.listed, h.handled, h.closed⟩
  | exec hs => exact ⟨h.listed, h.handled, h.closed⟩
  | done hpc ht => exact ⟨h.listed, h.handled, h.closed⟩

/-- Once the close of a client is handled with a byte unread, the client is stuck, in every state
of every run from there. -/
theorem stuck_forever {s t u : Sys} {a : Act}
    (hs : Relation.ReflTransGen (Guarded Step fun _ _ => True) init s) (hst : Step s a t)
    (ha : ¬ Drained s a) (hu : Relation.ReflTransGen (Guarded Step fun _ _ => True) t u) :
    ¬ Removed u := by
  have hi : Inv s ∧ Told s :=
    guarded_inv_and (fun _ _ _ hi hst => hi.step hst) (fun _ _ _ hi h _ hst => h.step hi hst)
      inv_init (fun id hin => by cases hin) hs
  obtain ⟨id, hstuck⟩ : ∃ id, Stuck id t := by
    cases hst with
    | @client id rdhup rest c k hpc ht hc hk =>
      simp only [Drained, not_forall] at ha
      obtain ⟨id', rest', c', ht', hc', hal, hun⟩ := ha
      cases ht.symm.trans ht'
      cases Option.some.inj (hc.symm.trans hc')
      have htold := hi.2 id (by rw [ht]; exact List.mem_cons_self) c hc hal
      obtain ⟨c₁, h₁, hreg⟩ := hi.1.registered id (by rw [ht]; exact List.mem_cons_self)
      cases Option.some.inj (hc.symm.trans h₁)
      have honce : id ∉ clients rest := by
        have hall := hi.1.once
        rw [ht, clients_clientPort, List.nodup_cons] at hall
        exact hall.1
      rcases onClient_cases s id true rest c k with ⟨hno, -⟩ | ⟨-, hzero, -⟩ | ⟨-, -, he⟩
      · rw [hal] at hno
        cases hno
      · exact absurd hzero hun
      · refine ⟨id, he ▸ ⟨(hi.1.mem_iff id).mpr ⟨c, hc, hal⟩, honce, _, setConn_self s id _, hreg,
          htold⟩⟩
    | _ => exact absurd trivial ha
  exact (guarded_inv (fun _ _ _ hstuck _ hst => hstuck.step hst) hstuck hu).not_removed

end Gpiod.Hangup
