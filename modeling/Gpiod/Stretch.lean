import Gpiod.Views

/-!
What a client of the whole loop reads of a line, from its `accept` to its deletion.

A connection is accepted once and deleted once, so the calls of `dispatch` made while it is listed
are a stretch of all the calls, without a gap. What the client reads of a line are the events of
that stretch whose packets came to it as a whole.
-/

namespace Gpiod.EventLoop

open Gpiod.Pin Gpiod.Changed Gpiod.Machine Gpiod.Broadcast
open Gpiod.Dispatch (Daemon)
open Gpiod.Clients (Conn)
open Gpiod.Delivery (LineEvent IsLine)
open Gpiod.Sessions (Reaches received)
open Gpiod.Wire (Call lineFields)

variable {sign : CharSign} {d : Daemon}

/-! ### Stretches -/

/-- The calls made before the connection is accepted, those made while it is listed, and those made
after it is deleted. -/
structure Stretch (id : ℕ) (s : Sys) (pre mid post : List Call) : Prop where
  calls : s.calls = pre ++ mid ++ post
  absent : ∀ c ∈ pre ++ post, id ∉ c.clients.fds
  present : ∀ c ∈ mid, id ∈ c.clients.fds
  unseen : s.conn id = none → mid = [] ∧ post = []
  listed : id ∈ s.tcp_clients.fds → post = []

/-- A step without a call, that accepts connections not seen before. -/
lemma Stretch.keep {id : ℕ} {s t : Sys} {pre mid post : List Call} (h : Stretch id s pre mid post)
    (hcalls : t.calls = s.calls) (hconn : t.conn id = none → s.conn id = none)
    (hlist : id ∈ t.tcp_clients.fds → id ∈ s.tcp_clients.fds ∨ s.conn id = none) :
    Stretch id t pre mid post where
  calls := hcalls.trans h.calls
  absent := h.absent
  present := h.present
  unseen hn := h.unseen (hconn hn)
  listed hl := (hlist hl).elim h.listed fun hn => (h.unseen hn).2

lemma Inv.accepted {s : Sys} (hi : Inv s) {id : ℕ} (hl : id ∈ s.tcp_clients.fds) :
    s.conn id ≠ none := by
  obtain ⟨c, hc, -⟩ := (hi.conns.mem_iff id).mp hl
  have hsome : s.conn id = some c := hc
  simp [hsome]

lemma Stretch.called {id : ℕ} {s t : Sys} {pre mid post new : List Call}
    (h : Stretch id s pre mid post) (hi : Inv s) (hcalls : t.calls = s.calls ++ new)
    (hnew : ∀ c ∈ new, c.clients = s.tcp_clients) (hconn : t.conn = s.conn)
    (hlist : t.tcp_clients = s.tcp_clients) : ∃ pre mid post, Stretch id t pre mid post := by
  have hsplit : t.calls = pre ++ mid ++ post ++ new := h.calls ▸ hcalls
  by_cases hl : id ∈ s.tcp_clients.fds
  · -- the client is listed: its stretch goes on
    obtain rfl := h.listed hl
    refine ⟨pre, mid ++ new, [], by simp [hsplit], h.absent, fun c hc => ?_, fun hn => ?_,
      fun _ => rfl⟩
    · rcases List.mem_append.mp hc with hc | hc
      · exact h.present c hc
      · exact hnew c hc ▸ hl
    · exact absurd (hconn ▸ hn) (hi.accepted hl)
  · have habsent : ∀ c ∈ new, id ∉ c.clients.fds := fun c hc => hnew c hc ▸ hl
    by_cases hn : s.conn id = none
    · -- it is not there yet
      obtain ⟨rfl, rfl⟩ := h.unseen hn
      refine ⟨pre ++ new, [], [], by simp [hsplit], fun c hc => ?_, h.present,
        fun _ => ⟨rfl, rfl⟩, fun _ => rfl⟩
      rw [List.append_nil] at hc
      rcases List.mem_append.mp hc with hc | hc
      · exact h.absent c (List.mem_append_left _ hc)
      · exact habsent c hc
    · -- it is deleted
      refine ⟨pre, mid, post ++ new, by simp [hsplit], fun c hc => ?_, h.present,
        fun hn' => absurd (hconn ▸ hn') hn, fun hl' => absurd (hlist ▸ hl') hl⟩
      rw [← List.append_assoc] at hc
      rcases List.mem_append.mp hc with hc | hc
      · exact h.absent c hc
      · exact habsent c hc

/-! ### Steps -/

lemma setConn_none {s : Sys} {id id' : ℕ} {c c' : Conn} (hc : s.conn id = some c)
    (h : (s.setConn id c').conn id' = none) : s.conn id' = none := by
  by_cases hid : id' = id
  · subst hid
    simp [Sys.setConn] at h
  · simpa [Sys.setConn, Function.update_of_ne hid] using h

lemma woken_none {s : Sys} {batch : List Ready} {id : ℕ} (h : (s.woken batch).conn id = none) :
    s.conn id = none := by
  simp only [Sys.woken, Clients.Sys.woken, Sys.conns] at h
  split at h
  · exact Option.map_eq_none_iff.mp h
  · exact h

/-- **One step**: the calls made while a connection is listed stay a stretch. -/
lemma Stretch.step {id : ℕ} {s t : Sys} {a : Act} {pre mid post : List Call}
    (h : Stretch id s pre mid post) (hi : Inv s) (hst : Moves sign s a t) :
    ∃ pre mid post, Stretch id t pre mid post := by
  have hsame : ∀ t : Sys, t.calls = s.calls → t.conn = s.conn → t.tcp_clients = s.tcp_clients →
      ∃ pre mid post, Stretch id t pre mid post := fun t hcalls hconn hlist =>
    ⟨pre, mid, post, h.keep hcalls (fun hn => hconn ▸ hn) fun hl => Or.inl (hlist ▸ hl)⟩
  have hset : ∀ {id' : ℕ} {c c' : Conn}, s.conn id' = some c →
      Stretch id (s.setConn id' c') pre mid post := fun hc =>
    h.keep rfl (setConn_none hc) Or.inl
  cases hst with
  | edge => exact hsame _ rfl rfl rfl
  | signal =>
    exact hsame _ (congrArg Wire.Sys.calls (raised_wire s _))
      (congrArg Clients.Sys.conn (raised_conns s _))
      (congrArg Wire.Sys.clients (raised_wire s _))
  | child =>
    exact hsame _ (congrArg Wire.Sys.calls (raised_wire s .sigchld))
      (congrArg Clients.Sys.conn (raised_conns s .sigchld))
      (congrArg Wire.Sys.clients (raised_wire s .sigchld))
  | data hc => exact ⟨pre, mid, post, hset hc⟩
  | close hc => exact ⟨pre, mid, post, hset hc⟩
  | lapse hpc hc => exact ⟨pre, mid, post, hset hc⟩
  | exec => exact hsame _ rfl rfl rfl
  | wake => exact ⟨pre, mid, post, h.keep rfl woken_none Or.inl⟩
  | handle =>
    refine h.called hi rfl (fun c hc => ?_) rfl rfl
    obtain ⟨r, -, rfl⟩ := List.mem_map.mp hc
    rfl
  | readSig => exact hsame _ rfl rfl rfl
  | waitpid => exact hsame _ rfl rfl rfl
  | @listen o rest hpc ht ho =>
    cases o with
    | connected id' unread closed epollCtl =>
      -- the connection is a new one
      have hnew : s.conn id' = none := ho
      refine ⟨pre, mid, post, h.keep rfl (fun hn => ?_) fun hl => ?_⟩
      · by_cases hid : id = id'
        · exact hid ▸ hnew
        · simpa [Sys.onListen, Sys.setConn, Function.update_of_ne hid] using hn
      · have hfds : id ∈ s.tcp_clients.fds ++ [id'] := connect_fds hi hnew ▸ hl
        rcases List.mem_append.mp hfds with hl | hl
        · exact Or.inl hl
        · exact Or.inr (List.mem_singleton.mp hl ▸ hnew)
    | _ => exact hsame _ rfl rfl rfl
  | client hpc ht hc =>
    unfold Sys.onClient
    split_ifs
    · exact hsame _ rfl rfl rfl
    · exact ⟨pre, mid, post, h.keep rfl (setConn_none hc) fun hl =>
        Or.inl (List.mem_of_mem_erase hl)⟩
    · exact ⟨pre, mid, post, h.keep rfl (setConn_none hc) Or.inl⟩
  | done => exact hsame _ rfl rfl rfl

/-- **The calls of a connection are a stretch** in every run. -/
lemma stretch_of_run {D : Sys → Act → Prop} {s : Sys}
    (h : Relation.ReflTransGen (Guarded (Moves sign) D) (init d) s) (id : ℕ) :
    ∃ pre mid post, Stretch id s pre mid post := by
  have hinit : Stretch id (init d) [] [] [] :=
    ⟨rfl, by simp, by simp, fun _ => ⟨rfl, rfl⟩, fun _ => rfl⟩
  have hboth := guarded_inv_and (I := Inv) (J := fun s => ∃ pre mid post, Stretch id s pre mid post)
    (fun _ _ _ hi hst => hi.step hst)
    (fun _ _ _ hi hs _ hst => by
      obtain ⟨pre, mid, post, hs⟩ := hs
      exact hs.step hi hst)
    inv_init ⟨[], [], [], hinit⟩ h
  exact hboth.2

/-! ### What is read -/

/-- The fields that the client reads of the channel of the pin. -/
def heardOn (pin : GpioPin) (id : ℕ) (s : Sys) : List (ℕ × ℕ × ℕ × ℕ) :=
  (received (bytesTo id s.wire.log)).filter fun f => f.2.2.1 = u8 pin.local_

/-- The events delivered for the line, each with its call: those before the client was accepted,
those while it was listed, and those after it was deleted. Of the channel the client reads, in
order, the events of the middle part whose packets came to it as a whole; where every write takes
its packet, all of them. -/
structure Listened (pin : GpioPin) (i id : ℕ) (s : Sys)
    (early heard late : List (LineEvent × Call)) : Prop where
  queued : s.queued i = (early ++ heard ++ late).map Prod.fst ++ s.queue i
  called : s.calls.filter (fun c => c.pin = i) = (early ++ heard ++ late).map Prod.snd
  absent : ∀ e ∈ early ++ late, id ∉ e.2.clients.fds
  present : ∀ e ∈ heard, id ∈ e.2.clients.fds
  unseen : s.conn id = none → heard = [] ∧ late = []
  listed : id ∈ s.tcp_clients.fds → late = []
  read : heardOn pin id s = (heard.filter fun e => Reaches e.2.clients e.2.event id).map
    fun e => lineFields pin.local_ e.1
  complete : (∀ c ∈ s.calls, ∀ fd ∈ c.clients.fds, Complete c.event fd) →
    heardOn pin id s = heard.map fun e => lineFields pin.local_ e.1

/-- The events of the line are taken apart as the calls are. -/
lemma split_events {pre mid post : List Call} {p : Call → Bool} {es : List (LineEvent × Call)}
    (h : (pre ++ mid ++ post).filter p = es.map Prod.snd) : ∃ early heard late,
      es = early ++ heard ++ late ∧ early.map Prod.snd = pre.filter p ∧
        heard.map Prod.snd = mid.filter p ∧ late.map Prod.snd = post.filter p := by
  rw [List.filter_append, List.filter_append] at h
  obtain ⟨front, late, rfl, hfront, hlate⟩ := List.map_eq_append_iff.mp h.symm
  obtain ⟨early, heard, rfl, hearly, hheard⟩ := List.map_eq_append_iff.mp hfront
  exact ⟨early, heard, late, rfl, hearly, hheard, hlate⟩

lemma call_mem {calls : List Call} {p : Call → Bool} {es : List (LineEvent × Call)}
    (h : es.map Prod.snd = calls.filter p) {e : LineEvent × Call} (he : e ∈ es) :
    e.2 ∈ calls := by
  have hmem : e.2 ∈ calls.filter p := h ▸ List.mem_map_of_mem he
  exact List.mem_of_mem_filter hmem

/-- A packet comes as a whole to every client of a call whose writes all take it. -/
lemma reaches_of_complete {clients : TcpClients} {e : Event}
    (h : ∀ fd ∈ clients.fds, Complete e fd) {id : ℕ} (hid : id ∈ clients.fds) :
    Reaches clients e id :=
  ⟨hid, fun fd hfd => h fd ((List.takeWhile_sublist _).subset hfd), h id hid⟩

/-- **A client hears a stretch of the line.** In every state that can be reached, whatever arrives
and in whichever order descriptors are reported, the events delivered for a line whose channel no
other pin has are the first ones queued for it; of these a client reads, in order and each once,
ones that were delivered between its `accept` and its deletion and no others, namely those whose
packets came to it as a whole, which are all of that stretch where every write takes its packet. -/
theorem listened_of_run {s : Sys}
    (h : Relation.ReflTransGen (Guarded (Moves sign) fun _ _ => True) (init d) s) {i : ℕ}
    {pin : GpioPin} (hp : d.gp_list[i]? = some pin) (hl : IsLine pin)
    (hown : ∀ j pin', d.gp_list[j]? = some pin' → u8 pin'.local_ = u8 pin.local_ → j = i)
    (id : ℕ) : ∃ early heard late, Listened pin i id s early heard late := by
  obtain ⟨pre, mid, post, hstretch⟩ := stretch_of_run h id
  obtain ⟨es, hheard⟩ := Wire.heard_of_run (wire_of_run h) hp hl hown id
  have hcalls : (pre ++ mid ++ post).filter (fun c => c.pin = i) = es.map Prod.snd :=
    hstretch.calls ▸ hheard.called
  obtain ⟨early, heard, late, rfl, hearly, hmid, hlate⟩ := split_events hcalls
  have habsent : ∀ e ∈ early ++ late, id ∉ e.2.clients.fds := by
    intro e he
    rcases List.mem_append.mp he with he | he
    · exact hstretch.absent _ (List.mem_append_left _ (call_mem hearly he))
    · exact hstretch.absent _ (List.mem_append_right _ (call_mem hlate he))
  have hpresent : ∀ e ∈ heard, id ∈ e.2.clients.fds :=
    fun e he => hstretch.present _ (call_mem hmid he)
  -- nothing reaches the client outside of its stretch
  have hout : ∀ es : List (LineEvent × Call), (∀ e ∈ es, id ∉ e.2.clients.fds) →
      es.filter (fun e => Reaches e.2.clients e.2.event id) = [] := by
    intro es hes
    rw [List.filter_eq_nil_iff]
    exact fun e he hr => hes e he (of_decide_eq_true hr).1
  have hread : heardOn pin id s = (heard.filter fun e => Reaches e.2.clients e.2.event id).map
      fun e => lineFields pin.local_ e.1 := by
    refine hheard.read.trans ?_
    rw [List.filter_append, List.filter_append,
      hout early fun e he => habsent e (List.mem_append_left _ he),
      hout late fun e he => habsent e (List.mem_append_right _ he), List.nil_append,
      List.append_nil]
  refine ⟨early, heard, late, hheard.queued, hheard.called, habsent, hpresent, fun hn => ?_,
    fun hlist => ?_, hread, fun hall => ?_⟩
  · obtain ⟨rfl, rfl⟩ := hstretch.unseen hn
    exact ⟨List.map_eq_nil_iff.mp hmid, List.map_eq_nil_iff.mp hlate⟩
  · obtain rfl := hstretch.listed hlist
    exact List.map_eq_nil_iff.mp hlate
  · have hwhole : ∀ e ∈ heard, decide (Reaches e.2.clients e.2.event id) = true := by
      intro e he
      have hmem : e.2 ∈ s.calls := hstretch.calls ▸
        List.mem_append_left _ (List.mem_append_right _ (call_mem hmid he))
      exact decide_eq_true (reaches_of_complete (hall e.2 hmem) (hpresent e he))
    rw [hread, List.filter_eq_self.mpr hwhole]

theorem hooked_listened : ∃ early heard late,
    Listened hookedPin 0 5 hooked₉ early heard late := by
  refine listened_of_run (guarded_mono (fun _ _ _ => trivial) hooked_run) rfl ⟨rfl, rfl⟩
    (fun j pin' hj _ => ?_) 5
  match j with
  | 0 => rfl
  | j + 1 => cases hj

example : heardOn hookedPin 5 hooked₉ = [(1, 500000000, 3, 1)] := by decide

end Gpiod.EventLoop
