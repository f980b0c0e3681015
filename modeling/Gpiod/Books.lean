import Gpiod.Oneshot

/-!
What `pid_list` and the fields of the hooks say of the children launched.

A launch makes an entry in `pid_list` and stores the pid in the hook, the exit of a child takes
both back. A hook without NO_LOOP may have many entries, and `spawned` is the pid of one of
them or -1; with NO_LOOP it has one entry at most, and `spawned` says which.
-/

namespace Gpiod.Books

open Gpiod.Pin Gpiod.TabScan Gpiod.TabRoute Gpiod.Dispatch Gpiod.Oneshot Gpiod.Machine

/-- The pids that `exec_start` returns are not in `pid_list` at that time. -/
def FreshPids (d : Daemon) : Op → Prop
  | .event i event x => ((spawns d i event x.exec).map Prod.fst).Nodup ∧
      ∀ e ∈ spawns d i event x.exec, ∀ r, (e.1, r) ∉ d.pid_list
  | .childExit _ => True

/-- The daemon once its tabs are loaded. -/
structure Loaded (d : Daemon) : Prop where
  pid_list : d.pid_list = []
  hooks : ∀ pin ∈ d.gp_list, ∀ hook ∈ pin.hook_list, hook.fired = 0 ∧ hook.spawned = -1

/-- Loading a tab file leaves a daemon with hooks that have not been launched. -/
theorem loaded_of_loadTab {gp_list gp_list' : List GpioPin} {text : Str} {fresh : ℕ → Mem}
    {ret : ℤ} (h : loadTab gp_list (some text) fresh = .ok (ret, gp_list'))
    (hd : Loaded ⟨gp_list, []⟩) : Loaded ⟨gp_list', []⟩ where
  pid_list := rfl
  hooks := by
    intro pin' hpin hook hhook
    obtain ⟨i, hi⟩ := List.mem_iff_getElem?.mp hpin
    rcases loadTab_hooks h hi hhook with ⟨pin, hp, hold⟩ | ⟨line, -, stale, hline⟩
    · exact hd.hooks pin (List.mem_of_getElem? hp) hook hold
    · exact lineHook_unlaunched hline

/-- The entries of a hook in `pid_list`. -/
def entries (r : HookRef) (d : Daemon) : List (ℤ × HookRef) := d.pid_list.filter fun e => e.2 = r

/-- What the two tables say of each other and of the launches behind them. -/
structure Kept (d' : Daemon) (out : List (ℤ × HookRef)) : Prop where
  distinct : (d'.pid_list.map Prod.fst).Nodup
  owned : ∀ r hook, d'.hook? r = some hook →
    hook.spawned = -1 ∨ Table.find d'.pid_list hook.spawned = some r
  noLoop : ∀ r hook, d'.hook? r = some hook → hook.flags &&& hooktabModNoLoop ≠ 0 →
    entries r d' = if hook.spawned = -1 then [] else [(hook.spawned, r)]
  fired : ∀ r hook, d'.hook? r = some hook → (hook.fired ≠ 0 ↔ 0 < launches r out)
  absent : ∀ pid, (∀ r, (pid, r) ∉ d'.pid_list) → hookClearSpawned d' pid = (-1, d')

/-! ### Entries and owners -/

/-- The pid that a hook holds has an entry for the hook. -/
def Owned (d : Daemon) : Prop :=
  ∀ r hook, d.hook? r = some hook → hook.spawned = -1 ∨ (hook.spawned, r) ∈ d.pid_list

lemma distinct_dispatchHooks {d : Daemon} {i : ℕ} {event : ℤ} {x : Returns}
    (hd : Table.Distinct d.pid_list) (hf : FreshPids d (.event i event x)) :
    Table.Distinct (dispatchHooks d i event x.exec).pid_list := by
  obtain ⟨hnodup, hnew⟩ := hf
  unfold Table.Distinct dispatchHooks
  rw [List.map_append, List.nodup_append, List.map_reverse, List.nodup_reverse]
  refine ⟨hnodup, hd, ?_⟩
  rintro p hp q hq rfl
  obtain ⟨e, he, rfl⟩ := List.mem_map.mp (List.mem_reverse.mp hp)
  obtain ⟨⟨pid, r⟩, he', hpid⟩ := List.mem_map.mp hq
  exact hnew e he r (hpid ▸ he')

lemma distinct_hookClearSpawned {d : Daemon} (hd : Table.Distinct d.pid_list) (pid : ℤ) :
    Table.Distinct (hookClearSpawned d pid).2.pid_list := by
  rw [hookClearSpawned_pid_list]
  exact hd.del pid

lemma owned_dispatchHooks {d : Daemon} (hd : Owned d) (i : ℕ) (event : ℤ) (x : Returns) :
    Owned (dispatchHooks d i event x.exec) := by
  intro r hook hh
  have hold : ∀ hook', d.hook? r = some hook' → hook'.spawned = -1 ∨
      (hook'.spawned, r) ∈ (dispatchHooks d i event x.exec).pid_list := fun hook' h' =>
    (hd r hook' h').imp_right fun h => List.mem_append_right _ h
  rw [hook?_dispatchHooks] at hh
  split at hh
  · next hpin =>
    obtain ⟨hook', h', rfl⟩ := Option.map_eq_some_iff.mp hh
    rcases settle_cases event (x.exec r.hook) hook' with ⟨hr, hne, hs⟩ | hs <;> rw [hs]
    · -- the launch makes the entry
      refine Or.inr (List.mem_append_left _ (List.mem_reverse.mpr ?_))
      exact (mem_spawns event x _ _ _).mpr ⟨hook', h', hpin, hr, hne, rfl⟩
    · exact hold hook' h'
  · exact hold hook hh

lemma owned_hookClearSpawned {d : Daemon} (hd : Table.Distinct d.pid_list) (ho : Owned d)
    (pid : ℤ) : Owned (hookClearSpawned d pid).2 := by
  intro r hook hh
  rw [hookClearSpawned_pid_list]
  rw [hook?_hookClearSpawned] at hh
  split at hh
  · obtain ⟨hook', -, rfl⟩ := Option.map_eq_some_iff.mp hh
    exact Or.inl rfl
  · next hf =>
    -- an entry of another hook, so under another pid
    refine (ho r hook hh).imp_right fun he => ?_
    refine (Table.mem_del_iff hd).mpr ⟨he, fun hp => hf ?_⟩
    exact (Table.find_eq_some_iff hd).mpr (hp ▸ he)

/-! ### Hooks with NO_LOOP -/

/-- A hook with NO_LOOP has the entry of the pid it holds, and no other. -/
def Single (d : Daemon) : Prop :=
  ∀ r hook, d.hook? r = some hook → hook.flags &&& hooktabModNoLoop ≠ 0 →
    entries r d = if hook.spawned = -1 then [] else [(hook.spawned, r)]

lemma filter_spawns (d : Daemon) (i : ℕ) (event : ℤ) (x : Returns) (r : HookRef) :
    (∃ hook, d.hook? r = some hook ∧ r.pin = i ∧ runs hook event = true ∧ x.exec r.hook ≠ -1 ∧
        (spawns d i event x.exec).filter (fun e => e.2 = r) = [(x.exec r.hook, r)]) ∨
      ((∀ hook, d.hook? r = some hook → r.pin = i → settle event (x.exec r.hook) hook = hook) ∧
        (spawns d i event x.exec).filter (fun e => e.2 = r) = []) := by
  have hle : ((spawns d i event x.exec).filter fun e => e.2 = r).length ≤ 1 := by
    rw [← List.countP_eq_length_filter]
    exact countP_spawns_le event x d i r
  cases hl : (spawns d i event x.exec).filter fun e => e.2 = r with
  | nil =>
    refine Or.inr ⟨fun hook hd hi => ?_, rfl⟩
    rcases settle_cases event (x.exec r.hook) hook with ⟨hr, hx, -⟩ | hs
    · have he : (x.exec r.hook, r) ∈ spawns d i event x.exec :=
        (mem_spawns event x d i _).mpr ⟨hook, hd, hi, hr, hx, rfl⟩
      exact absurd (decide_eq_true rfl) (List.filter_eq_nil_iff.mp hl _ he)
    · exact hs
  | cons e l =>
    rw [hl, List.length_cons] at hle
    obtain rfl : l = [] := List.length_eq_zero_iff.mp (by omega)
    have he : e ∈ (spawns d i event x.exec).filter fun e => e.2 = r := by rw [hl]; simp
    obtain ⟨hmem, her⟩ := List.mem_filter.mp he
    obtain rfl : e.2 = r := by simpa using her
    obtain ⟨hook, hd, hi, hr, hx, hpid⟩ := (mem_spawns event x d i e).mp hmem
    exact Or.inl ⟨hook, hd, hi, hr, hx, by rw [← hpid]⟩

lemma spawned_of_runs {hook : GpiodHook} {event : ℤ}
    (hn : hook.flags &&& hooktabModNoLoop ≠ 0) (hr : runs hook event = true) :
    hook.spawned = -1 := by
  simp only [runs, Bool.and_eq_true, Bool.not_eq_true'] at hr
  simpa [inProgress, hn] using hr.1.1

lemma single_dispatchHooks {d : Daemon} (h : Single d) (i : ℕ) (event : ℤ) (x : Returns) :
    Single (dispatchHooks d i event x.exec) := by
  intro r hook hh hn
  have hsplit : entries r (dispatchHooks d i event x.exec) =
      ((spawns d i event x.exec).filter fun e => e.2 = r).reverse ++ entries r d := by
    unfold entries dispatchHooks
    rw [List.filter_append, List.filter_reverse]
  rw [hook?_dispatchHooks] at hh
  rcases filter_spawns d i event x r with ⟨hook', hd, hi, hr, hx, hf⟩ | ⟨hsame, hf⟩
  · rw [if_pos hi, hd, Option.map_some, settle, if_pos ⟨hr, hx⟩] at hh
    cases hh
    rw [launched_flags] at hn
    have hfree := spawned_of_runs hn hr
    rw [hsplit, hf, h r hook' hd hn, if_pos hfree, launched_spawned, if_neg hx]
    rfl
  · -- the hook is not launched, and stays as it is
    have hd : d.hook? r = some hook := by
      split at hh
      · next hi =>
        obtain ⟨hook', hd, rfl⟩ := Option.map_eq_some_iff.mp hh
        rw [hsame hook' hd hi]
        exact hd
      · exact hh
    rw [hsplit, hf, h r hook hd hn]
    rfl

lemma single_hookClearSpawned {d : Daemon} (hd : Table.Distinct d.pid_list) (h : Single d)
    (pid : ℤ) : Single (hookClearSpawned d pid).2 := by
  intro r hook hh hn
  unfold entries
  rw [hookClearSpawned_pid_list]
  rw [hook?_hookClearSpawned] at hh
  split at hh
  · next hf =>
    obtain ⟨hook', hd', rfl⟩ := Option.map_eq_some_iff.mp hh
    rw [cleared_spawned, if_pos rfl, List.filter_eq_nil_iff]
    intro e he
    obtain ⟨hmem, hne⟩ := (Table.mem_del_iff hd).mp he
    -- the one entry of the hook is the one deleted
    have hone : ∀ e ∈ d.pid_list, e.2 = r → e.1 = hook'.spawned := by
      intro e he her
      have hin : e ∈ entries r d := List.mem_filter.mpr ⟨he, by simpa using her⟩
      rw [h r hook' hd' hn] at hin
      split at hin
      · cases hin
      · rw [List.mem_singleton.mp hin]
    have hpid := hone (pid, r) (Table.mem_of_find hf) rfl
    simp only [decide_eq_true_eq]
    exact fun her => hne ((hone e hmem her).trans hpid.symm)
  · next hf =>
    rw [Table.filter_del fun a ha => by simpa using fun he : a = r => hf (he ▸ ha)]
    exact h r hook hh hn

/-! ### Runs -/

structure Inv (d : Daemon) : Prop where
  distinct : Table.Distinct d.pid_list
  owned : Owned d
  single : Single d
  nonneg : ∀ r hook, d.hook? r = some hook → 0 ≤ hook.fired

lemma mem_of_hook? {d : Daemon} {r : HookRef} {hook : GpiodHook} (h : d.hook? r = some hook) :
    ∃ pin ∈ d.gp_list, hook ∈ pin.hook_list := by
  obtain ⟨pin, hp, hh⟩ := Option.bind_eq_some_iff.mp h
  exact ⟨pin, List.mem_of_getElem? hp, List.mem_of_getElem? hh⟩

lemma Loaded.unlaunched {d : Daemon} (hd : Loaded d) {r : HookRef} {hook : GpiodHook}
    (h : d.hook? r = some hook) : hook.fired = 0 ∧ hook.spawned = -1 := by
  obtain ⟨pin, hp, hh⟩ := mem_of_hook? h
  exact hd.hooks pin hp hook hh

lemma inv_loaded {d : Daemon} (hd : Loaded d) : Inv d where
  distinct := by simp [hd.pid_list, Table.Distinct]
  owned r hook h := Or.inl (hd.unlaunched h).2
  single r hook h _ := by simp [entries, hd.pid_list, (hd.unlaunched h).2]
  nonneg r hook h := by
    have := (hd.unlaunched h).1
    omega

lemma nonneg_step {d : Daemon} (h : ∀ r hook, d.hook? r = some hook → 0 ≤ hook.fired) (op : Op)
    (r : HookRef) (hook : GpiodHook) (hs : (step d op).1.hook? r = some hook) :
    0 ≤ hook.fired := by
  rcases step_cases r d op with ⟨-, pid, -, he⟩ | ⟨-, -, he⟩ | ⟨-, -, he⟩ <;> rw [he] at hs
  · obtain ⟨hook', -, rfl⟩ := Option.map_eq_some_iff.mp hs
    rw [launched_fired]
    omega
  · obtain ⟨hook', hd, rfl⟩ := Option.map_eq_some_iff.mp hs
    exact h r hook' hd
  · exact h r hook hs

/-- **One step** keeps the books if the pids it brings are fresh. -/
lemma Inv.step {d : Daemon} (h : Inv d) {op : Op} (hf : FreshPids d op) :
    Inv (step d op).1 := by
  refine ⟨?_, ?_, ?_, nonneg_step h.nonneg op⟩
  · cases op with
    | event => exact distinct_dispatchHooks h.distinct hf
    | childExit => exact distinct_hookClearSpawned h.distinct _
  · cases op with
    | event => exact owned_dispatchHooks h.owned _ _ _
    | childExit => exact owned_hookClearSpawned h.distinct h.owned _
  · cases op with
    | event => exact single_dispatchHooks h.single _ _ _
    | childExit => exact single_hookClearSpawned h.distinct h.single _

lemma inv_run {d : Daemon} (h : Inv d) {ops : List Op}
    (hf : ∀ v ∈ visits (fun d op => (step d op).1) d ops, FreshPids v.1 v.2) :
    Inv (after step d ops) := by
  induction ops generalizing d with
  | nil => exact h
  | cons op ops ih =>
    rw [visits_cons, List.forall_mem_cons] at hf
    exact ih (h.step hf.1) hf.2

lemma fired_iff {d : Daemon} (hd : Loaded d) (r : HookRef) (ops : List Op) :
    Fired r (after step d ops) ↔ 0 < launches r (outputs step d ops) := by
  have hfresh : ¬ Fired r d := by
    rintro ⟨hook, hh, hf⟩
    have := (hd.unlaunched hh).1
    omega
  have hmark : Fired r (after step d ops) ↔ Fired r d ∨
      0 < (visits (fun d op => (step d op).1) d ops).countP fun v => hits r v.1 v.2 :=
    marked_iff (fun _ _ => fired_of_hits) (fun _ op hf => fired_step hf op)
      (fun _ _ => fired_or_hits) d ops
  unfold launches
  rw [countP_outputs (countP_step r)]
  exact hmark.trans (or_iff_right hfresh)

lemma kept_after {d : Daemon} (hd : Loaded d) {ops : List Op}
    (hf : ∀ v ∈ visits (fun d op => (step d op).1) d ops, FreshPids v.1 v.2) :
    Kept (after step d ops) (outputs step d ops) := by
  have h := inv_run (inv_loaded hd) hf
  refine ⟨h.distinct, fun r hook hh => ?_, h.single, fun r hook hh => ?_, fun pid hp => ?_⟩
  · exact (h.owned r hook hh).imp_right (Table.find_eq_some_iff h.distinct).mpr
  · rw [← fired_iff hd]
    have hnonneg := h.nonneg r hook hh
    constructor
    · intro hne
      exact ⟨hook, hh, by omega⟩
    · rintro ⟨hook', hh', hpos⟩
      rw [hh] at hh'
      cases hh'
      omega
  · rw [hookClearSpawned, Table.find_eq_none_iff.mpr hp]

/-- **The books are kept**: from the loaded daemon on, after every sequence of events and exits in
which `exec_start` returns fresh pids, and so where the sequence comes to its end with the arrays
of its launches. -/
theorem kept_of_run {d : Daemon} (hd : Loaded d) {ops : List Op}
    (hf : ∀ v ∈ visits (fun d op => (step d op).1) d ops, FreshPids v.1 v.2) :
    Kept (after step d ops) (outputs step d ops) ∧
      ∀ d' out, tryRun tryStep d ops = some (d', out) → Kept d' out := by
  have hkept := kept_after hd hf
  refine ⟨hkept, fun d' out hrun => ?_⟩
  obtain ⟨-, hout⟩ := tryRun_iff.mp hrun
  cases hout
  exact hkept

/-- A pin with two hooks for the rising edge, the first with NO_LOOP. -/
def twoHooks : Daemon :=
  ⟨[⟨bytes "WD0", 0, .sysfs, .both, 0,
    [⟨bytes "/bin/a", 5, 0, -1, 0, []⟩, ⟨bytes "/bin/b", 1, 0, -1, 0, []⟩]⟩], []⟩

/-- The children get the pids from `n` on, in the order of their hooks. -/
def pidsFrom (n : ℕ) (h : 0 < n) : Returns := ⟨fun j => n + j, fun j => Or.inr (by omega)⟩

/-- Two edges and the exit of the second child: the second hook is launched twice. -/
def twoEdges : List Op :=
  [.event 0 0 (pidsFrom 100 (by decide)), .childExit 101, .event 0 0 (pidsFrom 110 (by decide))]

lemma twoEdges_room : ∀ v ∈ visits (fun d op => (step d op).1) twoHooks twoEdges,
    Room v.1 v.2 := by decide

theorem two_edges_kept : ∃ d' out, tryRun tryStep twoHooks twoEdges = some (d', out) ∧
    Kept d' out := by
  have hrun := tryRun_iff.mpr ⟨twoEdges_room, rfl⟩
  refine ⟨_, _, hrun, (kept_of_run ⟨rfl, by decide⟩ fun v hv => ?_).2 _ _ hrun⟩
  have h1 : spawns twoHooks 0 0 (pidsFrom 100 (by decide)).exec =
      [(100, ⟨0, 0⟩), (101, ⟨0, 1⟩)] := by decide
  have h2 : spawns (after step twoHooks [.event 0 0 (pidsFrom 100 (by decide)), .childExit 101])
      0 0 (pidsFrom 110 (by decide)).exec = [(111, ⟨0, 1⟩)] := by decide
  have h3 : (after step twoHooks
      [.event 0 0 (pidsFrom 100 (by decide)), .childExit 101]).pid_list = [(100, ⟨0, 0⟩)] := by
    decide
  simp only [twoEdges, visits_cons, visits_nil, List.mem_cons, List.not_mem_nil, or_false] at hv
  rcases hv with rfl | rfl | rfl
  · refine ⟨by rw [h1]; decide, fun e _ r => List.not_mem_nil⟩
  · trivial
  · simp only [after_cons, after_nil] at h2 h3
    refine ⟨by rw [h2]; decide, fun e he r hr => ?_⟩
    rw [h2, List.mem_singleton] at he
    rw [h3, List.mem_singleton, he] at hr
    have hpid : (111 : ℤ) = 100 := congrArg Prod.fst hr
    omega

end Gpiod.Books
