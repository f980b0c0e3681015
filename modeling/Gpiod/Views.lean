import Gpiod.EventLoop

/-!
Every run of the whole loop is, seen through a view, a run of a partial system: of the lines and
what is written to the clients, of the signals, of the connections, and of the children.

A step of the whole is one step of a view, or several, or none. The children are seen beside a
daemon that has the same hooks and the same pids; the last values of its pins are no matter.
-/

namespace Gpiod.EventLoop

open Gpiod.Pin Gpiod.Changed Gpiod.Dispatch Gpiod.Machine
open Gpiod.Interference (readsOne)
open Gpiod.Broadcast (WriteOutcome)
open Gpiod.Clients (Conn)
open Gpiod.Children (born)
open Gpiod.Signals (Signal)
open Gpiod.LoopOps (SameHooks launchStep stepOps launchStep_ops)

variable {sign : CharSign} {d : Daemon}

/-! ### What a view is of -/

lemma conns_pc {s : Sys} {pc : Pc} (hpc : s.pc = pc) : s.conns.pc = pc.conns := by
  rw [Sys.conns, hpc]

lemma hooks_pc {s : Sys} {pc : Pc} (hpc : s.pc = pc) (d : Daemon) : (s.hooks d).pc = pc.hooks := by
  rw [Sys.hooks, hpc]

section Raised

variable (s : Sys) (sig : Signal)

lemma raised_loop : (s.raised sig).loop = s.loop := by unfold Sys.raised; split <;> rfl
lemma raised_todo : (s.raised sig).todo = s.todo := by unfold Sys.raised; split <;> rfl
lemma raised_pc : (s.raised sig).pc = s.pc := by unfold Sys.raised; split <;> rfl
lemma raised_conns : (s.raised sig).conns = s.conns := by unfold Sys.raised; split <;> rfl
lemma raised_wire : (s.raised sig).wire = s.wire := by unfold Sys.raised; split <;> rfl

end Raised

/-! ### The invariant -/

/-- The list of clients and the batch agree with the connections, `sigfd` is at most once in what is
to be done, and no signal is pending twice. -/
structure Inv (s : Sys) : Prop where
  conns : Clients.Inv s.conns
  once : s.todo.countP Item.isSignal ≤ 1
  nodup : s.pending.Nodup

lemma inv_init : Inv (init d) := ⟨Clients.inv_init, Nat.zero_le _, List.nodup_nil⟩

lemma Inv.idle {s : Sys} (hi : Inv s) (hpc : s.pc = .wait) : s.todo = [] :=
  List.map_eq_nil_iff.mp (hi.conns.idle (conns_pc hpc))

/-! ### The connections -/

lemma conns_same {C : Clients.Sys → Clients.Act → Prop} {s t : Clients.Sys} (h : t = s) :
    Relation.ReflTransGen (Guarded Clients.Step C) s t := h ▸ .refl

lemma conns_forks {C : Clients.Sys → Clients.Act → Prop} (hC : ∀ s, C s .fork) {s : Clients.Sys}
    {rest : List Clients.Item} (hpc : s.pc = .batch) (ht : s.todo = .other :: rest) (n : ℕ) :
    Relation.ReflTransGen (Guarded Clients.Step C) s { s with
      children := List.replicate n (fun id => (s.conn id).any fun c => c.fd) ++ s.children } := by
  induction n with
  | zero => exact .refl
  | succ n ih => exact ih.tail ⟨.fork, hC _, .fork hpc ht⟩

lemma connect_fds {s : Sys} (hi : Inv s) {id : ℕ} (hnew : s.conn id = none) :
    (Sessions.connect s.tcp_clients id).fds = s.tcp_clients.fds ++ [id] := by
  have hnot : id ∉ s.tcp_clients.fds := fun hmem => by
    obtain ⟨c, hc, -⟩ := (hi.conns.mem_iff id).mp hmem
    cases hnew.symm.trans hc
  rw [Sessions.connect, dif_neg hnot]

/-- The CLIENT_PORT branch, as the connections see it. -/
lemma onClient_conns (s : Sys) (id : ℕ) (rdhup : Bool) (rest : List Item) (c : Conn) (k : ℕ) :
    (s.onClient id rdhup rest c k).conns =
      s.conns.onClient id rdhup (rest.map Item.conns) c k := by
  unfold Sys.onClient Clients.Sys.onClient
  split_ifs <;> rfl

/-- **One step**, as the connections see it: a condition on the handling of clients is that of the
whole. -/
lemma conns_step {C : Clients.Sys → Clients.Act → Prop} {s t : Sys} {a : Act} (hi : Inv s)
    (hC : ∀ s b, (∀ k, b ≠ .client k) → C s b) (hclient : a = .client → ∀ k, C s.conns (.client k))
    (h : Moves sign s a t) : Relation.ReflTransGen (Guarded Clients.Step C) s.conns t.conns := by
  have htodo : ∀ {item rest}, s.todo = item :: rest →
      s.conns.todo = item.conns :: rest.map Item.conns := fun ht => by
    rw [Sys.conns, ht]; rfl
  cases h with
  | edge => exact .refl
  | @signal sig => exact conns_same (raised_conns s sig)
  | child => exact conns_same (raised_conns s .sigchld)
  | data hc hopen hshut => exact .single ⟨_, hC _ _ (by simp), .data hc hopen hshut⟩
  | close hc hopen => exact .single ⟨_, hC _ _ (by simp), .close hc hopen⟩
  | lapse hpc hc hr =>
    exact .single ⟨_, hC _ _ (by simp), .lapse (conns_pc hpc) hc hr⟩
  | exec hs => exact .single ⟨.exec, hC _ _ (by simp), .exec hs⟩
  | wake hpc hb =>
    exact .single ⟨_, hC _ _ (by simp), .wake (conns_pc hpc) hb.clients⟩
  | @handle src i reads x out rest hpc ht =>
    have hforks := conns_forks (C := C) (fun s => hC s _ (by simp)) (conns_pc hpc) (htodo ht)
      (s.spawned sign (.handle src i reads x)).length
    exact hforks.tail ⟨.other, hC _ _ (by simp), .other (conns_pc hpc) (htodo ht)⟩
  | @readSig sig ssi_pid pid rest hpc ht =>
    have hread : (s.sigRead sig ssi_pid pid rest).conns =
        { s.conns with todo := rest.map Item.conns } := by
      simp only [Sys.sigRead, Sys.conns, hpc]
      split <;> rfl
    exact hread ▸ .single ⟨.other, hC _ _ (by simp), .other (conns_pc hpc) (htodo ht)⟩
  | waitpid hpc => exact conns_same (by simp only [Sys.waited, Sys.conns, hpc, Pc.conns])
  | @listen o rest hpc ht ho =>
    have hlisten : (s.onListen rest o).conns = s.conns.onListen (rest.map Item.conns) o := by
      cases o with
      | connected id unread closed epollCtl =>
        simp only [Sys.onListen, Sys.conns, connect_fds hi ho]
        rfl
      | _ => rfl
    exact hlisten ▸ .single ⟨.listen o, hC _ _ (by simp), .listen (conns_pc hpc) (htodo ht) ho⟩
  | @client id rdhup k rest c hpc ht hc hk =>
    exact onClient_conns s id rdhup rest c k ▸
      .single ⟨.client k, hclient rfl k, .client (conns_pc hpc) (htodo ht) hc hk⟩
  | done hpc ht =>
    have hdone : Sys.conns { s with pc := if s.shutdown_flag then .exited else .wait } =
        { s.conns with pc := .wait } := by
      cases s.shutdown_flag <;> simp [Sys.conns, Pc.conns]
    have hnil : s.conns.todo = [] := by rw [Sys.conns, ht]; rfl
    exact hdone ▸ .single ⟨.done, hC _ _ (by simp), .done (conns_pc hpc) hnil⟩

/-! ### The invariant after a step -/

lemma nodup_raised {s : Sys} (h : s.pending.Nodup) (sig : Signal) :
    (s.raised sig).pending.Nodup := by
  unfold Sys.raised
  split
  · exact h
  · next hnot =>
    refine List.nodup_append.mpr ⟨h, List.nodup_singleton sig, ?_⟩
    rintro a ha b hb rfl
    exact hnot (List.mem_singleton.mp hb ▸ ha)

/-- What is to be done is what was, without the first item, or a new batch. -/
lemma todo_step {s t : Sys} {a : Act} (h : Moves sign s a t) :
    t.todo <:+ s.todo ∨ t.todo.countP Item.isSignal ≤ 1 := by
  cases h with
  | signal => exact Or.inl ((raised_todo s _).symm ▸ List.suffix_refl _)
  | child => exact Or.inl ((raised_todo s .sigchld).symm ▸ List.suffix_refl _)
  | wake hpc hb =>
    right
    exact (batchItems_signal _ _).le.trans hb.once
  | handle hpc ht => exact Or.inl (ht ▸ List.suffix_cons _ _)
  | readSig hpc ht => exact Or.inl (ht ▸ List.suffix_cons _ _)
  | @listen o rest hpc ht =>
    left
    cases o with
    | connected => exact ht ▸ List.suffix_cons _ _
    | _ => exact List.suffix_refl _
  | client hpc ht =>
    left
    unfold Sys.onClient
    split_ifs
    · exact List.suffix_refl _
    · exact ht ▸ List.suffix_cons _ _
    · exact ht ▸ List.suffix_cons _ _
  | _ => exact Or.inl (List.suffix_refl _)

lemma pending_step {s t : Sys} {a : Act} (hi : s.pending.Nodup) (h : Moves sign s a t) :
    t.pending.Nodup := by
  cases h with
  | signal => exact nodup_raised hi _
  | child => exact nodup_raised hi _
  | readSig => exact hi.erase _
  | @listen o => cases o <;> exact hi
  | client =>
    unfold Sys.onClient
    split_ifs <;> exact hi
  | _ => exact hi

lemma Inv.step {s t : Sys} {a : Act} (hi : Inv s) (h : Moves sign s a t) : Inv t where
  conns := by
    have hrun := conns_step (C := fun _ _ => True) hi (fun _ _ _ => trivial)
      (fun _ _ => trivial) h
    exact guarded_inv (I := Clients.Inv) (fun _ _ _ hi _ hst => hi.step hst) hi.conns hrun
  once := by
    rcases todo_step h with hsuf | hnew
    · exact (hsuf.sublist.countP_le).trans hi.once
    · exact hnew
  nodup := pending_step hi.nodup h

/-! ### The lines -/

section Wire

lemma moved_quiet {s : Wire.Sys} {t : Delivery.Sys} (hsent : t.sent = s.pins.sent)
    (out : ℕ → WriteOutcome) : s.moved t out = ⟨t, s.clients, s.calls⟩ := by
  have hadded : Wire.added s.pins t = [] := by
    rw [Wire.added, hsent, List.drop_length]
  rw [Wire.Sys.moved, hadded, List.map_nil, List.append_nil]

def noWrites : ℕ → WriteOutcome := fun _ => .error 0

lemma wire_quiet {s : Wire.Sys} {t : Delivery.Sys} {a : Delivery.Act}
    (h : Delivery.Moves sign s.pins a t) (hsent : t.sent = s.pins.sent) :
    Guarded (Wire.Moves sign) (fun _ _ => True) s ⟨t, s.clients, s.calls⟩ :=
  ⟨.pins a noWrites, trivial, moved_quiet hsent noWrites ▸ .pins h noWrites⟩

end Wire

/-- What is to be done in a batch, as the pins see it. -/
lemma pins_todo {s : Sys} (hpc : s.pc = .batch) {item : Item} {rest : List Item}
    (ht : s.todo = item :: rest) : s.pins.todo = item.step :: rest.map Item.step := by
  simp only [Sys.pins, hpc, ht, Pc.steps, List.nil_append, List.map_cons]

lemma wire_pop {s : Sys} (hpc : s.pc = .batch) {item : Item} {rest : List Item}
    (ht : s.todo = item :: rest) (hitem : item.step = .other) :
    Guarded (Wire.Moves sign) (fun _ _ => True) s.wire { s with todo := rest }.wire := by
  have htodo : s.pins.todo = .other :: rest.map Item.step := hitem ▸ pins_todo hpc ht
  have hnext : s.pins.next sign .other (rest.map Item.step) = { s with todo := rest }.pins := by
    simp only [Delivery.Sys.next, Loop.step, Delivery.Sys.resolve, List.append_nil, Sys.pins, hpc,
      Pc.steps, List.nil_append]
    rfl
  have hafter : { s with todo := rest }.wire = ⟨_, s.tcp_clients, s.calls⟩ :=
    congrArg (Wire.Sys.mk · s.tcp_clients s.calls) hnext.symm
  exact hafter ▸ wire_quiet (s := s.wire) (.handle htodo) (List.append_nil _)

lemma wire_woken {s : Sys} (hi : Inv s) {batch : List Ready} (hpc : s.pc = .wait)
    (hb : Reported s batch) :
    Relation.ReflTransGen (Guarded (Wire.Moves sign) fun _ _ => True) s.wire
      (s.woken batch).wire := by
  have hidle : s.pins.todo = [] := by simp [Sys.pins, hpc, hi.idle hpc, Pc.steps]
  have htodo : (s.pins.woken (batch.map Ready.pins)).todo = .epollWait ::
      (batchItems s.loop.daemon.gp_list batch).map Item.step := (batchItems_step _ _).symm
  have hwake : Guarded (Wire.Moves sign) (fun _ _ => True) s.wire
      ⟨s.pins.woken (batch.map Ready.pins), s.tcp_clients, s.calls⟩ :=
    wire_quiet (s := s.wire) (.wake hidle hb.lines) rfl
  have hwait : Guarded (Wire.Moves sign) (fun _ _ => True)
      ⟨s.pins.woken (batch.map Ready.pins), s.tcp_clients, s.calls⟩ _ :=
    wire_quiet (.handle htodo) (List.append_nil _)
  have hnext : (s.woken batch).pins = (s.pins.woken (batch.map Ready.pins)).next sign .epollWait
      ((batchItems s.loop.daemon.gp_list batch).map Item.step) := by
    simp only [Sys.pins, Sys.woken, Delivery.Sys.next, Delivery.Sys.woken, Delivery.Sys.resolve,
      Loop.step, Pc.steps, List.nil_append, List.append_nil]
    rfl
  have hafter : (s.woken batch).wire = ⟨_, s.tcp_clients, s.calls⟩ :=
    congrArg (Wire.Sys.mk · s.tcp_clients s.calls) hnext
  exact hafter ▸ .tail (.single hwake) hwait

lemma wire_handled {s : Sys} (hpc : s.pc = .batch) {src : Loop.Source} {i : ℕ} {reads : Reads}
    {x : Returns} {out : ℕ → WriteOutcome} {rest : List Item}
    (ht : s.todo = .handle src i reads x out :: rest) :
    Guarded (Wire.Moves sign) (fun _ _ => True) s.wire
      (s.handled sign (.handle src i reads x) out rest).wire := by
  have hstep : Wire.Moves sign s.wire (.pins .handle out) _ :=
    .pins (.handle (pins_todo hpc ht)) out
  have hadded : Wire.added s.pins (s.pins.next sign (.handle src i reads x)
      (rest.map Item.step)) = (Loop.step sign s.loop (s.pins.resolve _)).2 := List.drop_left
  have hafter : (s.handled sign (.handle src i reads x) out rest).wire =
      s.wire.moved (s.pins.next sign (.handle src i reads x) (rest.map Item.step)) out := by
    rw [Wire.Sys.moved]
    simp only [Sys.wire, hadded]
    simp only [Sys.pins, Sys.handled, hpc, Pc.steps]
    rfl
  exact hafter ▸ ⟨_, trivial, hstep⟩

lemma wire_waited {s : Sys} {ssi_pid pid : ℤ} (hpc : s.pc = .chld ssi_pid pid) :
    Guarded (Wire.Moves sign) (fun _ _ => True) s.wire (s.waited sign ssi_pid pid).wire := by
  have htodo : s.pins.todo = .sigchld ssi_pid pid :: s.todo.map Item.step := by
    simp [Sys.pins, hpc, Pc.steps]
  have hnext : (s.waited sign ssi_pid pid).pins =
      s.pins.next sign (.sigchld ssi_pid pid) (s.todo.map Item.step) := by
    simp only [Sys.pins, Sys.waited, Delivery.Sys.next, Delivery.Sys.resolve, Loop.step, Pc.steps,
      List.nil_append, List.append_nil]
    rfl
  have hafter : (s.waited sign ssi_pid pid).wire = ⟨_, s.tcp_clients, s.calls⟩ :=
    congrArg (Wire.Sys.mk · s.tcp_clients s.calls) hnext
  exact hafter ▸ wire_quiet (s := s.wire) (.handle htodo) (List.append_nil _)

/-- **One step**, as the lines see it. -/
lemma wire_step {s t : Sys} {a : Act} (hi : Inv s) (h : Moves sign s a t) :
    Relation.ReflTransGen (Guarded (Wire.Moves sign) fun _ _ => True) s.wire t.wire := by
  have hsame : ∀ t : Sys, t.wire = s.wire →
      Relation.ReflTransGen (Guarded (Wire.Moves sign) fun _ _ => True) s.wire t.wire :=
    fun t ht => ht ▸ .refl
  cases h with
  | edge i e => exact .single (wire_quiet (s := s.wire) (.edge s.pins i e) rfl)
  | @signal sig => exact hsame _ (raised_wire s sig)
  | child => exact hsame _ (raised_wire s .sigchld)
  | data => exact .refl
  | close => exact .refl
  | lapse => exact .refl
  | exec => exact .refl
  | wake hpc hb => exact wire_woken hi hpc hb
  | handle hpc ht => exact .single (wire_handled hpc ht)
  | @readSig sig ssi_pid pid rest hpc ht =>
    by_cases hsig : sig = .sigchld
    · -- the loop is about to wait for the child: the step is still to be taken
      refine hsame _ ?_
      simp [Sys.wire, Sys.pins, Sys.sigRead, hsig, hpc, ht, Pc.steps, Item.step]
    · have hitem : (Item.signal sig ssi_pid pid).step = .other := by
        cases sig <;> first | rfl | exact absurd rfl hsig
      have hafter : (s.sigRead sig ssi_pid pid rest).wire = { s with todo := rest }.wire := by
        simp [Sys.wire, Sys.pins, Sys.sigRead, hsig, hpc]
      exact hafter ▸ .single (wire_pop hpc ht hitem)
  | waitpid hpc => exact .single (wire_waited hpc)
  | @listen o rest hpc ht =>
    cases o with
    | connected id => exact .tail (.single (wire_pop hpc ht rfl)) ⟨_, trivial, .connect _ id⟩
    | _ => exact hsame _ (by simp [Sys.wire, Sys.pins, Sys.onListen, hpc, Pc.steps])
  | @client id rdhup k rest c hpc ht =>
    have hpop : Guarded (Wire.Moves sign) (fun _ _ => True) s.wire _ := wire_pop hpc ht rfl
    unfold Sys.onClient
    split_ifs
    · exact hsame _ (by simp [Sys.wire, Sys.pins, hpc, Pc.steps])
    · exact .tail (.single hpop) ⟨_, trivial, .disconnect _ id⟩
    · exact .single hpop
  | done hpc ht =>
    refine hsame _ ?_
    cases s.shutdown_flag <;> simp [Sys.wire, Sys.pins, hpc, ht, Pc.steps]

/-! ### The signals -/

lemma signals_raised (s : Sys) (sig : Signal) :
    (s.raised sig).signals = s.signals.raised sig := by
  unfold Sys.raised Signals.Sys.raised
  by_cases hp : sig ∈ s.pending
  · have hp' : sig ∈ s.signals.pending := hp
    rw [if_pos hp, if_pos hp']
    rfl
  · have hp' : sig ∉ s.signals.pending := hp
    rw [if_neg hp, if_neg hp']
    rfl

/-- The reading of a signal, as the signals see it. -/
lemma signals_sigRead {s : Sys} {sig : Signal} {rest : List Item}
    (hrest : rest.any Item.isSignal = false) (ssi_pid pid : ℤ) :
    (s.sigRead sig ssi_pid pid rest).signals =
      { s.signals with pending := s.signals.pending.erase sig, pc := .batch false }.switch sig := by
  cases sig <;>
    simp only [Sys.signals, Sys.sigRead, Signals.Sys.switch, hrest, reduceCtorEq, if_true,
      if_false] <;> rfl

/-- **One step**, as the signals see it: a condition on arrivals is that of the whole. -/
lemma signals_step {C : Signals.Sys → Signals.Act → Prop} {s t : Sys} {a : Act} (hi : Inv s)
    (hC : ∀ s b, (∀ sig, b ≠ .arrive sig) → C s b)
    (hsignal : ∀ sig, a = .signal sig → C s.signals (.arrive sig))
    (hchild : ∀ pid st, a = .child pid st → C s.signals (.arrive .sigchld))
    (h : Moves sign s a t) :
    Relation.ReflTransGen (Guarded Signals.Step C) s.signals t.signals := by
  have hsame : ∀ t : Sys, t.signals = s.signals →
      Relation.ReflTransGen (Guarded Signals.Step C) s.signals t.signals := fun t ht => ht ▸ .refl
  cases h with
  | edge => exact .refl
  | @signal sig => exact signals_raised s sig ▸ .single ⟨_, hsignal sig rfl, .arrive _ sig⟩
  | @child c st =>
    have hraised : (s.childMoved c.pid st).signals = s.signals.raised .sigchld :=
      signals_raised s .sigchld
    exact hraised ▸ .single ⟨_, hchild _ _ rfl, .arrive _ .sigchld⟩
  | data => exact .refl
  | close => exact .refl
  | lapse => exact .refl
  | exec => exact .refl
  | @wake batch hpc hb =>
    refine .single ⟨.wake ((batchItems s.loop.daemon.gp_list batch).any Item.isSignal),
      hC _ _ (by simp), .wake (by rw [Sys.signals, hpc]; rfl) fun hany => hb.sigfd ?_⟩
    rw [← batchItems_signal s.loop.daemon.gp_list, List.countP_pos_iff]
    exact List.any_eq_true.mp hany
  | handle hpc ht =>
    refine hsame _ ?_
    simp only [Sys.signals, Sys.handled, hpc, ht]
    rfl
  | @readSig sig ssi_pid pid rest hpc ht hp =>
    have hrest : rest.any Item.isSignal = false := by
      have honce := hi.once
      rw [ht, List.countP_cons_of_pos rfl] at honce
      have hzero : rest.countP Item.isSignal = 0 := by omega
      simpa [List.countP_eq_zero] using hzero
    have hbatch : s.signals.pc = .batch true := by
      rw [Sys.signals, hpc, ht]
      rfl
    exact signals_sigRead hrest ssi_pid pid ▸
      .single ⟨.read sig, hC _ _ (by simp), .read hbatch hp⟩
  | waitpid hpc =>
    refine hsame _ ?_
    simp only [Sys.signals, Sys.waited, hpc]
    rfl
  | @listen o rest hpc ht =>
    refine hsame _ ?_
    cases o <;> simp only [Sys.signals, Sys.onListen, Sys.setConn, hpc, ht] <;> rfl
  | @client id rdhup k rest c hpc ht =>
    refine hsame _ ?_
    unfold Sys.onClient
    split_ifs <;> simp only [Sys.signals, Sys.setConn, hpc, ht] <;> rfl
  | done hpc ht =>
    have hbatch : s.signals.pc = .batch false := by
      rw [Sys.signals, hpc, ht]
      rfl
    have hdone : Sys.signals { s with pc := if s.shutdown_flag then .exited else .wait } =
        { s.signals with pc := if s.signals.shutdown_flag then .exited else .wait } := by
      by_cases hf : s.shutdown_flag = true <;> simp [Sys.signals, hf, Pc.signals]
    exact hdone ▸ .single ⟨.done, hC _ _ (by simp), .done hbatch⟩

/-! ### The children -/

lemma sigchld_childMoved (s : Sys) (pid : ℤ) (st : Children.ChildState) :
    (s.childMoved pid st).sigchld = s.sigchld.or (some pid) := by
  unfold Sys.sigchld Sys.childMoved Sys.raised
  by_cases hp : Signal.sigchld ∈ s.pending <;> simp [hp]

lemma stepOps_handle (sign : CharSign) (s : Loop.LoopState) (src : Loop.Source) (i : ℕ)
    (reads : Reads) (x : Returns) : stepOps sign s (.handle src i reads x) = [] ∨
      ∃ event, stepOps sign s (.handle src i reads x) = [.event i event x] := by
  simp only [stepOps]
  cases s.daemon.gp_list[i]? with
  | none => exact Or.inl rfl
  | some pin =>
    simp only
    split
    · exact Or.inr ⟨_, rfl⟩
    · exact Or.inl rfl

/-- A pin is handled beside a daemon with the same hooks: an event is passed to `dispatch_hooks`,
or the hooks are left alone. -/
lemma hooks_handled {C : Children.Sys → Children.Act → Prop}
    (hC : ∀ s b, (∀ pid st, b ≠ .child pid st) → C s b) {s : Sys} {d : Daemon}
    (hd : SameHooks s.loop.daemon d) (hpc : s.pc = .batch) {src : Loop.Source} {i : ℕ}
    {reads : Reads} {x : Returns} (out : ℕ → WriteOutcome) (rest : List Item)
    (hx : Fresh s (s.spawned sign (.handle src i reads x))) :
    ∃ d', SameHooks (s.handled sign (.handle src i reads x) out rest).loop.daemon d' ∧
      Relation.ReflTransGen (Guarded Children.Step C) (s.hooks d)
        ((s.handled sign (.handle src i reads x) out rest).hooks d') := by
  obtain ⟨reads', hresolve⟩ := Delivery.resolve_handle s.pins src i reads x
  obtain ⟨hsame, hspawned⟩ := launchStep_ops sign s.loop d (.handle src i reads' x) hd
  have hloop : (s.handled sign (.handle src i reads x) out rest).loop =
      (launchStep sign s.loop (.handle src i reads' x)).1 := by
    simp only [Sys.handled, launchStep, hresolve]
  have hlaunched : s.spawned sign (.handle src i reads x) =
      (launchStep sign s.loop (.handle src i reads' x)).2 := by rw [Sys.spawned, hresolve]
  rw [← hlaunched] at hspawned
  refine ⟨_, hloop ▸ hsame, ?_⟩
  rcases stepOps_handle sign s.loop src i reads' x with hops | ⟨event, hops⟩
  · rw [hops, outputs_nil] at hspawned
    have hafter : (s.handled sign (.handle src i reads x) out rest).hooks d = s.hooks d := by
      simp [Sys.handled, Sys.hooks, Sys.sigchld, hspawned, born]
    rw [hops, after_nil, hafter]
  · rw [hops, outputs_cons, outputs_nil, List.append_nil] at hspawned
    have hspawns : s.spawned sign (.handle src i reads x) = spawns d i event x.exec := hspawned
    have hfresh : Children.Fresh (s.hooks d) i event x :=
      ⟨hspawns ▸ hx.unused, hspawns ▸ hx.distinct⟩
    have hafter : (s.handled sign (.handle src i reads x) out rest).hooks
        (dispatchHooks d i event x.exec) = { s.hooks d with
          daemon := dispatchHooks d i event x.exec
          children := (s.hooks d).children ++ born (spawns d i event x.exec) } := by
      simp only [Sys.handled, Sys.hooks, Sys.sigchld, hspawns]
    rw [hops]
    exact hafter ▸ .single ⟨.edge i event x, hC _ _ (by simp), .edge (hooks_pc hpc d) hfresh⟩

lemma hooks_waited {s : Sys} {d : Daemon} (hd : SameHooks s.loop.daemon d) (ssi_pid pid : ℤ) :
    SameHooks (s.waited sign ssi_pid pid).loop.daemon (onSigchld d ssi_pid pid) := by
  obtain ⟨hsame, -⟩ := launchStep_ops sign s.loop d (.sigchld ssi_pid pid) hd
  have hops : after Oneshot.step d (stepOps sign s.loop (.sigchld ssi_pid pid)) =
      onSigchld d ssi_pid pid := by
    simp only [stepOps, onSigchld]
    split <;> rfl
  exact hops ▸ hsame

/-- A signal is read, as the children see it. -/
lemma hooks_sigRead {s : Sys} (hi : Inv s) (d : Daemon) (hpc : s.pc = .batch) {sig : Signal}
    (hp : sig ∈ s.pending) {ssi_pid : ℤ} (hchld : sig = .sigchld → ssi_pid = s.ssi_pid) (pid : ℤ)
    (rest : List Item) : (s.sigRead sig ssi_pid pid rest).hooks d = s.hooks d ∨
      Children.Step (s.hooks d) .readSig ((s.sigRead sig ssi_pid pid rest).hooks d) := by
  by_cases hsig : sig = .sigchld
  · subst hsig
    right
    have hpending : (s.hooks d).pending = some ssi_pid := by
      simp [Sys.hooks, Sys.sigchld, hp, hchld rfl]
    have hafter : (s.sigRead .sigchld ssi_pid pid rest).hooks d =
        { s.hooks d with pending := none, pc := .chld ssi_pid } := by
      simp [Sys.hooks, Sys.sigchld, Sys.sigRead, hi.nodup.not_mem_erase, Pc.hooks]
    exact hafter ▸ .readSig (hooks_pc hpc d) hpending
  · left
    have hkeep : Signal.sigchld ∈ s.pending.erase sig ↔ Signal.sigchld ∈ s.pending :=
      List.mem_erase_of_ne (Ne.symm hsig)
    simp [Sys.hooks, Sys.sigchld, Sys.sigRead, hsig, hkeep, hpc]

/-- **One step**, as the children see it: a condition on what children do is that of the whole. -/
lemma hooks_step {C : Children.Sys → Children.Act → Prop} {s t : Sys} {a : Act} {d : Daemon}
    (hi : Inv s) (hd : SameHooks s.loop.daemon d)
    (hC : ∀ s b, (∀ pid st, b ≠ .child pid st) → C s b)
    (hchild : ∀ pid st, a = .child pid st → C (s.hooks d) (.child pid st))
    (h : Moves sign s a t) : ∃ d', SameHooks t.loop.daemon d' ∧
      Relation.ReflTransGen (Guarded Children.Step C) (s.hooks d) (t.hooks d') := by
  have hsame : ∀ t : Sys, t.loop.daemon = s.loop.daemon → t.hooks d = s.hooks d →
      ∃ d', SameHooks t.loop.daemon d' ∧
        Relation.ReflTransGen (Guarded Children.Step C) (s.hooks d) (t.hooks d') :=
    fun t hdaemon ht => ⟨d, hdaemon ▸ hd, ht ▸ .refl⟩
  have hstopped : ∀ pc : Pc, s.pc = .batch → pc.hooks = .batch →
      Sys.hooks { s with pc := pc } d = s.hooks d := fun pc hpc h => by
    have hbatch : (s.hooks d).pc = .batch := hooks_pc hpc d
    rw [Sys.hooks, h, ← hbatch]
    rfl
  cases h with
  | edge => exact hsame _ rfl rfl
  | @signal sig hsig =>
    unfold Sys.raised
    split
    · exact hsame _ rfl rfl
    · exact hsame _ rfl (by simp [Sys.hooks, Sys.sigchld, hsig.symm])
  | @child c st hc hm =>
    have hloop : (s.childMoved c.pid st).loop = s.loop := raised_loop s .sigchld
    have hpc : (s.childMoved c.pid st).pc = s.pc := raised_pc s .sigchld
    have hafter : (s.childMoved c.pid st).hooks d = { s.hooks d with
        children := Children.setState (s.hooks d).children c.pid st
        pending := (s.hooks d).pending.or (some c.pid) } := by
      simp only [Sys.hooks, sigchld_childMoved, hpc]
      rfl
    exact ⟨d, hloop ▸ hd, hafter ▸ .single ⟨_, hchild _ _ rfl, .child hc hm⟩⟩
  | data => exact hsame _ rfl rfl
  | close => exact hsame _ rfl rfl
  | lapse => exact hsame _ rfl rfl
  | exec => exact hsame _ rfl rfl
  | wake hpc hb =>
    exact ⟨d, hd, .single ⟨.wake, hC _ _ (by simp), .wake (hooks_pc hpc d)⟩⟩
  | handle hpc ht hx => exact hooks_handled hC hd hpc _ _ hx
  | @readSig sig ssi_pid pid rest hpc ht hp hchld =>
    rcases hooks_sigRead hi d hpc hp hchld pid rest with hread | hread
    · exact hsame _ rfl hread
    · exact ⟨d, hd, .single ⟨.readSig, hC _ _ (by simp), hread⟩⟩
  | @waitpid ssi_pid pid hpc hpid =>
    subst hpid
    exact ⟨_, hooks_waited hd _ _,
      .single ⟨.handleSig, hC _ _ (by simp), .handleSig (hooks_pc hpc d)⟩⟩
  | @listen o rest hpc ht =>
    cases o with
    | connected => exact hsame _ rfl rfl
    | _ => exact hsame _ rfl (hstopped _ hpc rfl)
  | @client id rdhup k rest c hpc ht =>
    unfold Sys.onClient
    split_ifs
    · exact hsame _ rfl (hstopped _ hpc rfl)
    · exact hsame _ rfl rfl
    · exact hsame _ rfl rfl
  | done hpc ht =>
    have hdone : Sys.hooks { s with pc := if s.shutdown_flag then .exited else .wait } d =
        { s.hooks d with pc := .wait } := by
      by_cases hf : s.shutdown_flag = true <;> simp [Sys.hooks, Sys.sigchld, hf, Pc.hooks]
    exact ⟨d, hd, hdone ▸ .single ⟨.done, hC _ _ (by simp), .done (hooks_pc hpc d)⟩⟩

/-! ### Runs -/

lemma inv_of_run {D : Sys → Act → Prop} {s : Sys}
    (h : Relation.ReflTransGen (Guarded (Moves sign) D) (init d) s) : Inv s :=
  guarded_inv (fun _ _ _ hi _ hst => hi.step hst) inv_init h

/-- A run of the whole, as the lines see it. -/
lemma wire_of_run {D : Sys → Act → Prop} {s : Sys}
    (h : Relation.ReflTransGen (Guarded (Moves sign) D) (init d) s) :
    Relation.ReflTransGen (Guarded (Wire.Moves sign) fun _ _ => True) (Wire.init d) s.wire :=
  guarded_view (I := Inv) (fun _ _ _ hi hst => hi.step hst)
    (fun _ _ _ hi _ hst => wire_step hi hst) inv_init h

/-- A run of the whole, as the signals see it. -/
lemma signals_of_run {C : Signals.Sys → Signals.Act → Prop} {D : Sys → Act → Prop}
    (hC : ∀ s b, (∀ sig, b ≠ .arrive sig) → C s b)
    (hsignal : ∀ s sig, D s (.signal sig) → C s.signals (.arrive sig))
    (hchild : ∀ s pid st, D s (.child pid st) → C s.signals (.arrive .sigchld)) {s : Sys}
    (h : Relation.ReflTransGen (Guarded (Moves sign) D) (init d) s) :
    Relation.ReflTransGen (Guarded Signals.Step C) Signals.init s.signals :=
  guarded_view (R := Moves sign) (C := D) (I := Inv) (fun _ _ _ hi hst => hi.step hst)
    (fun s _ _ hi hD hst => signals_step hi hC (fun sig ha => hsignal s sig (ha ▸ hD))
      (fun pid st ha => hchild s pid st (ha ▸ hD)) hst) inv_init h

/-- A run of the whole, as the connections see it. -/
lemma conns_of_run {C : Clients.Sys → Clients.Act → Prop} {D : Sys → Act → Prop}
    (hC : ∀ s b, (∀ k, b ≠ .client k) → C s b)
    (hclient : ∀ s, D s .client → ∀ k, C s.conns (.client k)) {s : Sys}
    (h : Relation.ReflTransGen (Guarded (Moves sign) D) (init d) s) :
    Relation.ReflTransGen (Guarded Clients.Step C) Clients.init s.conns :=
  guarded_view (R := Moves sign) (C := D) (I := Inv) (fun _ _ _ hi hst => hi.step hst)
    (fun s _ _ hi hD hst => conns_step hi hC (fun ha k => hclient s (ha ▸ hD) k) hst) inv_init h

/-- A run of the whole, as the children see it. -/
lemma hooks_of_run {C : Children.Sys → Children.Act → Prop} {D : Sys → Act → Prop}
    (hC : ∀ s b, (∀ pid st, b ≠ .child pid st) → C s b)
    (hchild : ∀ s d pid st, D s (.child pid st) → C (s.hooks d) (.child pid st)) {s : Sys}
    (h : Relation.ReflTransGen (Guarded (Moves sign) D) (init d) s) :
    ∃ d', SameHooks s.loop.daemon d' ∧
      Relation.ReflTransGen (Guarded Children.Step C) (Children.init d) (s.hooks d') := by
  have hsim : ∃ t, Relation.ReflTransGen (Guarded Children.Step C) (Children.init d) t ∧
      ∃ d', SameHooks s.loop.daemon d' ∧ t = s.hooks d' :=
    guarded_runs (R := Moves sign) (C := D) (I := Inv)
      (S := fun s t => ∃ d', SameHooks s.loop.daemon d' ∧ t = s.hooks d')
      (fun _ _ _ hi hst => hi.step hst) (fun s a s' t hi hS hD hst => by
        obtain ⟨d₁, hd₁, rfl⟩ := hS
        obtain ⟨d₂, hd₂, hrun⟩ := hooks_step hi hd₁ hC
          (fun pid st ha => hchild s d₁ pid st (ha ▸ hD)) hst
        exact ⟨_, hrun, d₂, hd₂, rfl⟩)
      inv_init ⟨d, SameHooks.refl d, rfl⟩ h
  obtain ⟨t, hrun, d', hd', rfl⟩ := hsim
  exact ⟨d', hd', hrun⟩

/-- Every run of the whole loop is, seen through its views, a run of the lines and the writes, of
the signals, of the connections, and of the children beside a daemon with the same hooks. -/
structure Refines (sign : CharSign) (d : Daemon) (s : Sys) : Prop where
  wire : Relation.ReflTransGen (Guarded (Wire.Moves sign) fun _ _ => True) (Wire.init d) s.wire
  signals : Relation.ReflTransGen (Guarded Signals.Step fun _ _ => True) Signals.init s.signals
  conns : Relation.ReflTransGen (Guarded Clients.Step fun _ _ => True) Clients.init s.conns
  hooks : ∃ d', SameHooks s.loop.daemon d' ∧
    Relation.ReflTransGen (Guarded Children.Step fun _ _ => True) (Children.init d) (s.hooks d')

/-- **The whole loop refines its parts**: whatever arrives and in which order descriptors are
reported, every run of the whole loop is a run of each of the partial systems. -/
theorem refines_of_run {s : Sys}
    (h : Relation.ReflTransGen (Guarded (Moves sign) fun _ _ => True) (init d) s) :
    Refines sign d s where
  wire := wire_of_run h
  signals := signals_of_run (fun _ _ _ => trivial) (fun _ _ _ => trivial)
    (fun _ _ _ _ => trivial) h
  conns := conns_of_run (fun _ _ _ => trivial) (fun _ _ _ => trivial) h
  hooks := hooks_of_run (fun _ _ _ => trivial) (fun _ _ _ _ _ => trivial) h

/-! ### A run -/

/-- A line with a hook for its rising edge. -/
def hookedPin : GpioPin :=
  { Delivery.linePin with hook_list := [⟨bytes "/bin/a", 5, 0, -1, 0, []⟩] }

def hooked : Daemon := ⟨[hookedPin], []⟩

lemma hundred_pos : (0 : ℤ) < 100 := by decide

def launches : Returns := onePid 100 hundred_pos

def finished (s : Sys) : Sys := { s with pc := if s.shutdown_flag then .exited else .wait }

/-- A client connects, the line rises and the hook is launched, and its child ends and is waited
for. -/
def hooked₁ : Sys := (init hooked).woken [.listenPort (.connected 5 0 false true)]
def hooked₂ : Sys := finished (hooked₁.onListen [] (.connected 5 0 false true))
def hooked₃ : Sys := hooked₂.pushed 0 Delivery.rise
def hooked₄ : Sys := hooked₃.woken [.pin 0 readsOne launches Wire.takesAll]
def hooked₅ : Sys := finished (hooked₄.handled .signed (.handle .interrupt 0 readsOne launches)
  Wire.takesAll [])
def hooked₆ : Sys := hooked₅.childMoved 100 .zombie
def hooked₇ : Sys := hooked₆.woken [.signalFd .sigchld 100 100]
def hooked₈ : Sys := hooked₇.sigRead .sigchld 100 100 []
def hooked₉ : Sys := finished (hooked₈.waited .signed 100 100)

/-- A batch without a client whose connection is reported. -/
lemma reported_none {s : Clients.Sys} {batch : List Clients.Item}
    (h : Clients.clients batch = []) : Clients.Reported s batch := by
  refine ⟨h ▸ List.nodup_nil, fun id rdhup hmem => ?_⟩
  have hin : id ∈ Clients.clients batch := Clients.mem_clients.mpr ⟨rdhup, hmem⟩
  rw [h] at hin
  cases hin

lemma hooked_connects : Relation.ReflTransGen (Guarded (Moves .signed) Orderly) (init hooked)
    hooked₂ := by
  have hwake : Moves .signed (init hooked) (.wake [.listenPort (.connected 5 0 false true)])
      hooked₁ := .wake rfl ⟨fun i _ => ⟨Nat.zero_le _, fun h => by cases h⟩, reported_none rfl,
        by decide, fun h => by cases h⟩
  have hlisten : Moves .signed hooked₁ .listen
      (hooked₁.onListen [] (.connected 5 0 false true)) := .listen rfl rfl rfl
  have hdone : Moves .signed (hooked₁.onListen [] (.connected 5 0 false true)) .done hooked₂ :=
    .done rfl rfl
  exact .tail (.tail (.single ⟨.wake _, trivial, hwake⟩) ⟨.listen, trivial, hlisten⟩)
    ⟨.done, trivial, hdone⟩

lemma hooked_launches : Relation.ReflTransGen (Guarded (Moves .signed) Orderly) hooked₂
    hooked₅ := by
  have hedge : Moves .signed hooked₂ (.edge 0 Delivery.rise) hooked₃ := .edge _ _ _
  have hwake : Moves .signed hooked₃ (.wake [.pin 0 readsOne launches Wire.takesAll])
      hooked₄ := by
    refine .wake rfl ⟨fun i hi => ?_, reported_none rfl, by decide, fun h => by cases h⟩
    match i with
    | 0 => exact ⟨by decide, fun _ => by decide⟩
    | i + 1 => cases hi
  have hhandle : Moves .signed hooked₄ .handle (hooked₄.handled .signed
      (.handle .interrupt 0 readsOne launches) Wire.takesAll []) :=
    .handle rfl rfl ⟨fun e _ c hc => absurd hc List.not_mem_nil, by decide⟩
  have hdone : Moves .signed (hooked₄.handled .signed (.handle .interrupt 0 readsOne launches)
      Wire.takesAll []) .done hooked₅ := .done rfl rfl
  exact .tail (.tail (.tail (.single ⟨.edge 0 _, trivial, hedge⟩) ⟨.wake _, trivial, hwake⟩)
    ⟨.handle, trivial, hhandle⟩) ⟨.done, trivial, hdone⟩

lemma hooked_waits : Relation.ReflTransGen (Guarded (Moves .signed) Orderly) hooked₅
    hooked₉ := by
  have hchild : Moves .signed hooked₅ (.child 100 .zombie) hooked₆ :=
    .child (c := ⟨100, ⟨0, 0⟩, .running⟩) (by decide) (.exit (by decide))
  have hwake : Moves .signed hooked₆ (.wake [.signalFd .sigchld 100 100]) hooked₇ :=
    .wake rfl ⟨fun i _ => ⟨Nat.zero_le _, fun h => by cases h⟩, reported_none rfl, by decide,
      fun _ => rfl⟩
  have hread : Moves .signed hooked₇ (.readSig .sigchld) hooked₈ :=
    .readSig rfl rfl (by decide) fun _ => rfl
  have hwait : Moves .signed hooked₈ .waitpid (hooked₈.waited .signed 100 100) :=
    .waitpid rfl (by decide)
  have hdone : Moves .signed (hooked₈.waited .signed 100 100) .done hooked₉ := .done rfl rfl
  have horderly : Orderly hooked₅ (.child 100 .zombie) :=
    ⟨Or.inr rfl, fun _ h => absurd h (by decide)⟩
  exact .tail (.tail (.tail (.tail (.single ⟨_, horderly, hchild⟩) ⟨.wake _, trivial, hwake⟩)
    ⟨.readSig .sigchld, trivial, hread⟩) ⟨.waitpid, trivial, hwait⟩) ⟨.done, trivial, hdone⟩

lemma hooked_run : Relation.ReflTransGen (Guarded (Moves .signed) Orderly) (init hooked)
    hooked₉ := (hooked_connects.trans hooked_launches).trans hooked_waits

theorem hooked_refines : Refines .signed hooked hooked₉ :=
  refines_of_run (guarded_mono (fun _ _ _ => trivial) hooked_run)

end Gpiod.EventLoop
