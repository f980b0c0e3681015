import Gpiod.CleanupPin
import Gpiod.InitPins
import Gpiod.LoopLedger

/-!
What the daemon leaves of the gpios and of the descriptors it has opened for them, from
`init_sysfs` to `cleanup_sysfs`.

Every pin that stays on the list closes what it has opened. Of a pin that fails to initialise
nothing is closed; and `cleanup_sysfs_pin` unexports a gpio also if it was exported before the
daemon was started. The loop in between leaves alone what is not its own.
-/

namespace Gpiod.Ledger

open Gpiod.Pin (Str bytes)
open Gpiod.CLong Gpiod.Numeral Gpiod.Descriptors Gpiod.SysfsPin Gpiod.InitPins Gpiod.CleanupPin
open Gpiod.LoopLedger (loop loop_spec loop_owns LeftOpen listening twoClients twoClients_exits)

/-! ### The directory of the gpios -/

/-- The descriptors that the opens of `init_sysfs` return. -/
structure SysfsReturns where
  dir : ℤ
  export_ : ℤ
  unexport : ℤ
  deriving DecidableEq, Repr

/-- The directory that a path without one starts from. -/
def atFdcwd : ℤ := -100

/-- What `init_sysfs` returns, the descriptors it records, and its calls; `opendir` is an open, and
`dirfd` gives the descriptor of it. -/
def initSysfs (y : SysfsReturns) : ℤ × Globals × List Call :=
  let calls := [Call.openat atFdcwd (bytes "/sys/class/gpio/") y.dir]
  if y.dir = -1 then (-1, ⟨-1, -1, -1⟩, calls)
  else
    let calls := calls ++ [.openat y.dir (bytes "export") y.export_]
    if y.export_ = -1 then (-1, ⟨y.dir, -1, -1⟩, calls)
    else
      let calls := calls ++ [.openat y.dir (bytes "unexport") y.unexport]
      (if y.unexport = -1 then -1 else 0, ⟨y.dir, y.export_, y.unexport⟩, calls)

/-- `closedir` closes the descriptor a second time, if there is a directory. -/
def cleanupSysfs (g : Globals) : List Call :=
  [.close g.sfd_, .close g.efd_, .close g.ufd_] ++ if g.sfd_ = -1 then [] else [.close g.sfd_]

/-! ### The pins -/

/-- `pin->cleanup`; of a sysfs pin, `r` is what the writes return. -/
def cleanupPin (g : Globals) (r : ℤ × ℤ) : GpioPin → List Call
  | .sysfs spin => (cleanupSysfsPin g spin r.1 r.2).2
  | .uapi upin => [.close upin.fd]

/-- `cleanup_gpio_pins` from the pin at place `n` on. -/
def cleanupGpioPins (g : Globals) (r : ℕ → ℤ × ℤ) : ℕ → List GpioPin → List Call
  | _, [] => []
  | n, pin :: gp_list => cleanupPin g (r n) pin ++ cleanupGpioPins g r (n + 1) gp_list

/-- A run of `main` from `init_sysfs` on, the loop coming to its exit. -/
structure Run where
  y : SysfsReturns
  vs : List Visit
  w : LongWidth
  poll_period : ℤ
  x : LoopLedger.Returns
  acts : List LoopLedger.Act
  /-- the pins in the order in which the loop gives them back -/
  gp_list : List GpioPin
  r : ℕ → ℤ × ℤ
  exits : (loop w poll_period x acts).1 = true
  back : gp_list.Perm (initGpioPins (initSysfs y).2.1 0 vs).1

def Run.g (m : Run) : Globals := (initSysfs m.y).2.1

def Run.looped (m : Run) : List Call := (loop m.w m.poll_period m.x m.acts).2

/-- The calls of `main`: that a pin is looked up at the chips, and `free_gpio_pins`, open and close
nothing. -/
def Run.calls (m : Run) : List (Option ℕ × Call) :=
  let (ret, g, calls) := initSysfs m.y
  callsOf none calls ++
    (if ret = 0 then (initGpioPins g 0 m.vs).2 ++ callsOf none m.looped ++
      callsOf none (cleanupGpioPins g m.r 0 m.gp_list) else []) ++
    callsOf none (cleanupSysfs g)

variable {ι : Type*} {y : SysfsReturns} {g : Globals} {vs : List Visit} {v : Visit}
  {r : ℕ → ℤ × ℤ} {fd : ℤ}

lemma initSysfs_calls (y : SysfsReturns) : closed (initSysfs y).2.2 = [] ∧
    (∀ c ∈ (initSysfs y).2.2, c.written = none) ∧
    ∀ fd ∈ opened (initSysfs y).2.2, fd ∈ [(initSysfs y).2.1.sfd_, (initSysfs y).2.1.efd_,
      (initSysfs y).2.1.ufd_] := by
  unfold initSysfs
  by_cases hd : y.dir = -1
  · simp [hd, closed, opened, Call.closed, Call.opened, Call.written]
  by_cases he : y.export_ = -1
  · simp [hd, he, closed, opened, Call.closed, Call.opened, Call.written]
  by_cases hu : y.unexport = -1 <;>
    simp [hd, he, hu, closed, opened, Call.closed, Call.opened, Call.written]

lemma initSysfs_ok (hy : (initSysfs y).1 = 0) :
    (initSysfs y).2.1 = ⟨y.dir, y.export_, y.unexport⟩ ∧
      opened (initSysfs y).2.2 = [y.dir, y.export_, y.unexport] := by
  unfold initSysfs at hy ⊢
  by_cases hd : y.dir = -1
  · simp [hd] at hy
  by_cases he : y.export_ = -1
  · simp [hd, he] at hy
  by_cases hu : y.unexport = -1
  · simp [hd, he, hu] at hy
  · simp [hd, he, hu, opened, Call.opened]

lemma initSysfs_globals (y : SysfsReturns) :
    ∀ fd ∈ [(initSysfs y).2.1.sfd_, (initSysfs y).2.1.efd_, (initSysfs y).2.1.ufd_],
      fd = -1 ∨ fd ∈ opened (initSysfs y).2.2 := by
  unfold initSysfs
  by_cases hd : y.dir = -1
  · simp [hd]
  by_cases he : y.export_ = -1
  · simp [hd, he, opened, Call.opened]
  by_cases hu : y.unexport = -1 <;> simp [hd, he, hu, opened, Call.opened]

lemma cleanupSysfs_calls (g : Globals) : opened (cleanupSysfs g) = [] ∧
    (∀ c ∈ cleanupSysfs g, c.written = none) ∧
    ∀ fd, fd ∈ closed (cleanupSysfs g) ↔ fd ∈ [g.sfd_, g.efd_, g.ufd_] := by
  unfold cleanupSysfs
  by_cases hs : g.sfd_ = -1 <;>
    simp [hs, opened, closed, Call.opened, Call.closed, Call.written]
  tauto

lemma opened_cleanup (g : Globals) (pin : GpioPinSysfs) (ret set : ℤ) :
    opened (cleanupSysfsPin g pin ret set).2 = [] := by
  have hclose : ∀ fd : ℤ, opened (closeIf fd).2 = [] := by
    intro fd
    unfold closeIf
    split <;> rfl
  have hactive : opened (if pin.active_fd ≠ 0 ∧ pin.active_low = .yes then
      (sysfsSetActiveLow ret .no set).2 else []) = [] := by
    split <;> rfl
  have hwrite : opened [Call.write g.ufd_ (decimal pin.system) ret] = [] := rfl
  simp only [cleanupSysfsPin, opened_append, hclose, hactive, hwrite, List.append_nil]

lemma opened_cleanupGpioPins (g : Globals) (r : ℕ → ℤ × ℤ) (n : ℕ) (gp_list : List GpioPin) :
    opened (cleanupGpioPins g r n gp_list) = [] := by
  induction gp_list generalizing n with
  | nil => rfl
  | cons pin gp_list ih =>
    have hpin : opened (cleanupPin g (r n) pin) = [] := by
      cases pin with
      | sysfs spin => exact opened_cleanup g spin _ _
      | uapi upin => rfl
    rw [cleanupGpioPins, opened_append, hpin, ih, List.append_nil]

lemma closed_cleanupPin (g : Globals) (r r' : ℤ × ℤ) (pin : GpioPin) :
    closed (cleanupPin g r pin) = closed (cleanupPin g r' pin) := by
  cases pin with
  | sysfs spin =>
    rw [cleanupPin, cleanupPin, closed_cleanup, closed_cleanup]
  | uapi upin => rfl

lemma mem_closed_cleanup (n : ℕ) (gp_list : List GpioPin) :
    fd ∈ closed (cleanupGpioPins g r n gp_list) ↔
      ∃ pin ∈ gp_list, fd ∈ closed (cleanupPin g (0, 0) pin) := by
  induction gp_list generalizing n with
  | nil => simp [cleanupGpioPins, closed]
  | cons pin gp_list ih =>
    rw [cleanupGpioPins, closed_append, List.mem_append, ih, closed_cleanupPin g (r n) (0, 0)]
    simp

/-! ### The descriptors -/

section Descriptors

variable {t : Table (Option ℕ)}

lemma fresh_at {n k : ℕ} (hf : FreshOpens t (initGpioPins g n vs).2) (hv : vs[k]? = some v) :
    ∃ t', FreshOpens t' (callsOf (some (n + k)) (v.init g).calls) ∧ ∀ e ∈ t, e ∈ t' := by
  induction vs generalizing n k t with
  | nil => cases hv
  | cons u vs ih =>
    rw [initGpioPins_calls, freshOpens_append] at hf
    cases k with
    | zero =>
      obtain rfl := Option.some.inj hv
      exact ⟨t, hf.1, fun _ he => he⟩
    | succ k =>
      obtain ⟨t', hf', hsub⟩ := ih hf.2 hv
      refine ⟨t', by rwa [show n + (k + 1) = n + 1 + k by omega], fun e he => hsub e ?_⟩
      exact ((opensFirst_init g u).mem_after hf.1).mpr (Or.inl he)

/-- **A pin that stays** closes what it has opened, and nothing else. -/
lemma closed_kept {t : Table ι} {i : ι} (hret : (v.init g).ret = 0)
    (ha : ∀ spin x, v = .sysfs spin x → Allocated spin)
    (hf : FreshOpens t (callsOf i (v.init g).calls)) (hzero : 0 ∈ t.map Prod.fst)
    (hu : g.ufd_ ∈ t.map Prod.fst) (hpos : 0 ≤ fd) :
    fd ∈ closed (cleanupPin g (0, 0) (v.init g).pin) ↔ fd ∈ left (v.init g).calls := by
  cases v with
  | uapi upin x =>
    obtain ⟨hclosed, -, ⟨-, hopened⟩ | ⟨hfail, -⟩⟩ := uapiInitPin_spec upin x
    · have hleft : left (uapiInitPin upin x).calls = (uapiInitPin upin x).pin.recorded := by
        rw [left, hclosed, hopened]
        simp
      rw [Visit.init, hleft]
      unfold uapiInitPin
      cases x.chip with
      | none => rfl
      | some chip => by_cases hx : x.ret = -1 <;> simp [hx, cleanupPin, closed, Call.closed,
          GpioPin.recorded]
    · exact absurd (hret.symm.trans hfail) (by decide)
  | sysfs spin x =>
    have hready : Ready g spin x t i := ⟨ha spin x rfl, hret, hf, hu⟩
    have hnonzero : 0 ∉ filesOf spin x := by
      intro hmem
      have hleft : 0 ∈ left (initSysfsPin g spin x).calls :=
        hready.mem_left.mpr ⟨hmem, by decide⟩
      have hopened := (List.mem_filter.mp hleft).1
      exact ((opensFirst_init g (.sysfs spin x)).fresh hf 0 hopened).2 hzero
    refine ⟨fun hfd => hready.others hfd hpos, fun hfd => ?_⟩
    have honce : (closed (cleanupSysfsPin g (initSysfsPin g spin x).pin 0 0).2).count fd = 1 :=
      hready.once_iff.mpr hnonzero fd hfd
    exact List.count_pos_iff.mp (honce ▸ Nat.one_pos)

lemma mem_kept {pin : GpioPin} : pin ∈ (initGpioPins g 0 vs).1 ↔
    ∃ (k : ℕ) (v : Visit), vs[k]? = some v ∧ (v.init g).ret = 0 ∧ (v.init g).pin = pin := by
  rw [initGpioPins_kept, List.mem_map]
  constructor
  · rintro ⟨v, hv, rfl⟩
    obtain ⟨hmem, hret⟩ := List.mem_filter.mp hv
    obtain ⟨k, hk⟩ := List.mem_iff_getElem?.mp hmem
    exact ⟨k, v, hk, of_decide_eq_true hret, rfl⟩
  · rintro ⟨k, v, hk, hret, rfl⟩
    exact ⟨v, List.mem_filter.mpr ⟨List.mem_of_getElem? hk, decide_eq_true hret⟩, rfl⟩

lemma left_fresh {n k : ℕ} (hf : FreshOpens t (initGpioPins g n vs).2) (hv : vs[k]? = some v)
    (hfd : fd ∈ left (v.init g).calls) : 0 ≤ fd ∧ fd ∉ t.map Prod.fst := by
  obtain ⟨t', hf', hsub⟩ := fresh_at hf hv
  obtain ⟨hpos, hout⟩ := (opensFirst_init g v).fresh hf' fd (List.mem_filter.mp hfd).1
  refine ⟨hpos, fun hmem => hout ?_⟩
  obtain ⟨e, he, rfl⟩ := List.mem_map.mp hmem
  exact List.mem_map_of_mem (hsub e he)

lemma mem_closed_kept (hzero : 0 ∈ t.map Prod.fst) (hu : g.ufd_ ∈ t.map Prod.fst)
    (ha : ∀ spin x, .sysfs spin x ∈ vs → Allocated spin)
    (hf : FreshOpens t (initGpioPins g 0 vs).2) (hpos : 0 ≤ fd) :
    fd ∈ closed (cleanupGpioPins g r 0 (initGpioPins g 0 vs).1) ↔
      ∃ (k : ℕ) (v : Visit), vs[k]? = some v ∧ (v.init g).ret = 0 ∧
        fd ∈ left (v.init g).calls := by
  have hpin : ∀ {k : ℕ} {v : Visit}, vs[k]? = some v → (v.init g).ret = 0 →
      (fd ∈ closed (cleanupPin g (0, 0) (v.init g).pin) ↔ fd ∈ left (v.init g).calls) := by
    intro k v hv hret
    obtain ⟨t', hf', hsub⟩ := fresh_at hf hv
    have hmem : ∀ fd ∈ t.map Prod.fst, fd ∈ t'.map Prod.fst := fun fd hin => by
      obtain ⟨e, he, rfl⟩ := List.mem_map.mp hin
      exact List.mem_map_of_mem (hsub e he)
    exact closed_kept hret (fun spin x he => ha spin x (he ▸ List.mem_of_getElem? hv)) hf'
      (hmem 0 hzero) (hmem _ hu) hpos
  rw [mem_closed_cleanup]
  constructor
  · rintro ⟨pin, hmem, hin⟩
    obtain ⟨k, v, hv, hret, rfl⟩ := mem_kept.mp hmem
    exact ⟨k, v, hv, hret, (hpin hv hret).mp hin⟩
  · rintro ⟨k, v, hv, hret, hin⟩
    exact ⟨_, mem_kept.mpr ⟨k, v, hv, hret, rfl⟩, (hpin hv hret).mpr hin⟩

lemma mem_closed_perm {gp_list gp_list' : List GpioPin} (h : gp_list.Perm gp_list') :
    fd ∈ closed (cleanupGpioPins g r 0 gp_list) ↔
      fd ∈ closed (cleanupGpioPins g r 0 gp_list') := by
  simp only [mem_closed_cleanup, h.mem_iff]

lemma mem_after_cleanup (hnd : (t.map Prod.fst).Nodup) (hpos : ∀ e ∈ t, 0 ≤ e.1)
    (hzero : 0 ∈ t.map Prod.fst) (hu : g.ufd_ ∈ t.map Prod.fst)
    (ha : ∀ spin x, .sysfs spin x ∈ vs → Allocated spin)
    (hf : FreshOpens t (initGpioPins g 0 vs).2) (e : ℤ × Option ℕ) :
    (e ∈ t.after (initGpioPins g 0 vs).2 ∧
        e.1 ∉ closed (cleanupGpioPins g r 0 (initGpioPins g 0 vs).1)) ↔
      e ∈ t ∨ ∃ i v, vs[i]? = some v ∧ (v.init g).ret = -1 ∧ e.2 = some i ∧
        e.1 ∈ left (v.init g).calls := by
  have hafter : ∀ e : ℤ × Option ℕ, e ∈ t.after (initGpioPins g 0 vs).2 ↔
      e ∈ t ∨ ∃ k v, vs[k]? = some v ∧ e.2 = some k ∧ e.1 ∈ left (v.init g).calls := fun e => by
    rw [mem_after_run hf]
    simp only [Nat.zero_add]
  rw [hafter]
  constructor
  · rintro ⟨ht | ⟨k, v, hv, hown, hin⟩, hout⟩
    · exact Or.inl ht
    · refine Or.inr ⟨k, v, hv, ?_, hown, hin⟩
      refine (init_ret g v).resolve_left fun hret => hout ?_
      exact (mem_closed_kept hzero hu ha hf (left_fresh hf hv hin).1).mpr ⟨k, v, hv, hret, hin⟩
  · rintro (ht | ⟨k, v, hv, hret, hown, hin⟩)
    · refine ⟨Or.inl ht, fun hcl => ?_⟩
      obtain ⟨k, v, hv, -, hin⟩ := (mem_closed_kept hzero hu ha hf (hpos e ht)).mp hcl
      exact (left_fresh hf hv hin).2 (List.mem_map_of_mem ht)
    · refine ⟨Or.inr ⟨k, v, hv, hown, hin⟩, fun hcl => ?_⟩
      obtain ⟨k', v', hv', hret', hin'⟩ :=
        (mem_closed_kept hzero hu ha hf (left_fresh hf hv hin).1).mp hcl
      -- one descriptor is not open for two pins
      have he : e ∈ t.after (initGpioPins g 0 vs).2 :=
        (hafter e).mpr (Or.inr ⟨k, v, hv, hown, hin⟩)
      have he' : (e.1, some k') ∈ t.after (initGpioPins g 0 vs).2 :=
        (hafter _).mpr (Or.inr ⟨k', v', hv', rfl, hin'⟩)
      have heq := List.inj_on_of_nodup_map (nodup_after hnd hf) he he' rfl
      obtain rfl : k = k' := Option.some.inj (hown.symm.trans (congrArg Prod.snd heq))
      obtain rfl := Option.some.inj (hv.symm.trans hv')
      exact absurd (hret.symm.trans hret') (by decide)

/-! ### A run of `main` -/

def Run.atPins (m : Run) (t : Table (Option ℕ)) : Table (Option ℕ) :=
  t.after (callsOf none (initSysfs m.y).2.2)

def Run.atLoop (m : Run) (t : Table (Option ℕ)) : Table (Option ℕ) :=
  (m.atPins t).after (initGpioPins m.g 0 m.vs).2

structure Run.Comes (m : Run) (t : Table (Option ℕ)) : Prop where
  calls : m.calls = callsOf none (initSysfs m.y).2.2 ++ ((initGpioPins m.g 0 m.vs).2 ++
    (callsOf none m.looped ++ (callsOf none (cleanupGpioPins m.g m.r 0 m.gp_list) ++
      callsOf none (cleanupSysfs m.g))))
  sysfs : FreshOpens t (callsOf none (initSysfs m.y).2.2)
  pins : FreshOpens (m.atPins t) (initGpioPins m.g 0 m.vs).2
  looped : FreshOpens (m.atLoop t) (callsOf none m.looped)
  /-- the directory, `export` and `unexport` are open -/
  globals : ∀ fd ∈ [m.g.sfd_, m.g.efd_, m.g.ufd_], (fd, none) ∈ m.atPins t
  distinct : m.g.ufd_ ≠ m.g.efd_

lemma Run.comes {m : Run} (hy : (initSysfs m.y).1 = 0) (hf : FreshOpens t m.calls) :
    m.Comes t := by
  have hcalls : m.calls = callsOf none (initSysfs m.y).2.2 ++ ((initGpioPins m.g 0 m.vs).2 ++
      (callsOf none m.looped ++ (callsOf none (cleanupGpioPins m.g m.r 0 m.gp_list) ++
        callsOf none (cleanupSysfs m.g)))) := by
    have hmid : m.calls = callsOf none (initSysfs m.y).2.2 ++
        (if (initSysfs m.y).1 = 0 then (initGpioPins m.g 0 m.vs).2 ++ callsOf none m.looped ++
          callsOf none (cleanupGpioPins m.g m.r 0 m.gp_list) else []) ++
        callsOf none (cleanupSysfs m.g) := rfl
    rw [hmid, if_pos hy]
    simp only [List.append_assoc]
  obtain ⟨hgl, hopened⟩ := initSysfs_ok hy
  have hclosed := (initSysfs_calls m.y).1
  rw [hcalls, freshOpens_append, freshOpens_append, freshOpens_append] at hf
  obtain ⟨hsysfs, hpins, hloop, -⟩ := hf
  refine ⟨hcalls, hsysfs, hpins, hloop, fun fd hfd => ?_, ?_⟩
  · refine (mem_after_of_not_closed hclosed).mpr (Or.inl ⟨rfl, ?_⟩)
    rw [hopened]
    rwa [Run.g, hgl] at hfd
  · have hnd := (hsysfs.opened hclosed).1
    rw [hopened] at hnd
    rw [Run.g, hgl]
    exact fun he =>
      (List.nodup_cons.mp (List.nodup_cons.mp hnd).2).1 (List.mem_singleton.mpr he.symm)

/-- What is open in front of the pins is so in front of the loop. -/
lemma Run.Comes.still {m : Run} (h : m.Comes t) {e : ℤ × Option ℕ} (he : e ∈ m.atPins t) :
    e ∈ m.atLoop t := (mem_after_run h.pins).mpr (Or.inl he)

lemma Run.Comes.owns {m : Run} (h : m.Comes t) :
    Owns (m.atLoop t) none (ownAfter [] m.looped) ((m.atLoop t).after (callsOf none m.looped)) ∧
      ∀ fd, fd ∈ ownAfter [] m.looped ↔ LeftOpen m.w m.poll_period m.x fd :=
  loop_owns h.looped m.exits

/-- Once the pins are cleaned up: what was open in front of them, what failed ones have left, and
what the loop has. -/
lemma Run.Comes.mem_cleaned {m : Run} (h : m.Comes t) (hnd : (t.map Prod.fst).Nodup)
    (hpos : ∀ e ∈ t, 0 ≤ e.1) (hzero : 0 ∈ t.map Prod.fst)
    (ha : ∀ spin x, .sysfs spin x ∈ m.vs → Allocated spin) (e : ℤ × Option ℕ) :
    (e ∈ (m.atLoop t).after (callsOf none m.looped) ∧
        e.1 ∉ closed (cleanupGpioPins m.g m.r 0 m.gp_list)) ↔
      (e ∈ m.atPins t ∨ ∃ i v, m.vs[i]? = some v ∧ (v.init m.g).ret = -1 ∧ e.2 = some i ∧
        e.1 ∈ left (v.init m.g).calls) ∨ e.2 = none ∧ LeftOpen m.w m.poll_period m.x e.1 := by
  have hclosed := (initSysfs_calls m.y).1
  have hu : m.g.ufd_ ∈ (m.atPins t).map Prod.fst :=
    List.mem_map.mpr ⟨_, h.globals _ (by simp), rfl⟩
  have hzero₁ : 0 ∈ (m.atPins t).map Prod.fst := by
    obtain ⟨e, he, hz⟩ := List.mem_map.mp hzero
    exact hz ▸ List.mem_map_of_mem ((mem_after_of_not_closed hclosed).mpr (Or.inr he))
  have hpos₁ : ∀ e ∈ m.atPins t, 0 ≤ e.1 := fun e he => by
    rcases (mem_after_of_not_closed hclosed).mp he with ⟨-, hin⟩ | ht
    · exact ((h.sysfs.opened hclosed).2 e.1 hin).1
    · exact hpos e ht
  have hclean := mem_after_cleanup (r := m.r) (nodup_after hnd h.sysfs) hpos₁ hzero₁ hu ha h.pins e
  obtain ⟨howns, hleft⟩ := h.owns
  change e ∈ m.atLoop t ∧ _ ↔ e ∈ m.atPins t ∨ _ at hclean
  rw [← hclean, mem_closed_perm m.back, howns.mem, hleft]
  constructor
  · rintro ⟨hin | hin, hout⟩
    · exact Or.inl ⟨hin, hout⟩
    · exact Or.inr hin
  · rintro (⟨hin, hout⟩ | ⟨hown, hin⟩)
    · exact ⟨Or.inl hin, hout⟩
    · refine ⟨Or.inr ⟨hown, hin⟩, fun hmem => ?_⟩
      -- a descriptor that is closed was open for a pin in front of the loop
      obtain ⟨k, v, hv, -, hk⟩ :=
        (mem_closed_kept hzero₁ hu ha h.pins (hin.nonneg h.looped)).mp hmem
      have hpin : (e.1, some k) ∈ m.atLoop t :=
        (mem_after_run h.pins).mpr (Or.inr ⟨k, v, hv, by simp, hk⟩)
      exact howns.apart e.1 ((hleft e.1).mpr hin) (List.mem_map.mpr ⟨_, hpin, rfl⟩)

end Descriptors

/-! ### The gpios -/

/-- Whether the gpio `n` is exported behind a call: its number has been written to `export` or to
`unexport`, and the write has taken it. A `splice` from a socket gives these files nothing, as
neither is a pipe. -/
def Call.exports (g : Globals) (n : ℤ) (exported : Bool) : Call → Bool
  | .write fd text ret =>
    if 0 < ret ∧ text = decimal n then
      if fd = g.efd_ then true else if fd = g.ufd_ then false else exported
    else exported
  | _ => exported

def exportsAfter (g : Globals) (n : ℤ) (exported : Bool) (cs : List Call) : Bool :=
  cs.foldl (Call.exports g n) exported

/-- The call is no write to `unexport` that the kernel refuses though the gpio is exported. -/
def Call.Taken (g : Globals) (n : ℤ) (exported : Bool) : Call → Prop
  | .write fd text ret => fd = g.ufd_ ∧ text = decimal n ∧ exported = true → 0 < ret
  | _ => True

instance (g : Globals) (n : ℤ) (exported : Bool) :
    (c : Call) → Decidable (Call.Taken g n exported c)
  | .write _ _ _ => inferInstanceAs (Decidable (_ → _))
  | .splice _ _ _ _ | .openat _ _ _ | .ioctl _ _ _ | .lseek _ | .read _ | .close _ => isTrue trivial

/-- Whenever `unexport` is written to, the kernel takes the number of a gpio that is exported. -/
def UnexportsTaken (g : Globals) (n : ℤ) : Bool → List Call → Prop
  | _, [] => True
  | exported, c :: cs =>
    Call.Taken g n exported c ∧ UnexportsTaken g n (Call.exports g n exported c) cs

instance (g : Globals) (n : ℤ) : (exported : Bool) → (cs : List Call) →
    Decidable (UnexportsTaken g n exported cs)
  | _, [] => isTrue trivial
  | exported, c :: cs =>
    have := instDecidableUnexportsTaken g n (Call.exports g n exported c) cs
    inferInstanceAs (Decidable (_ ∧ _))

section Exports

variable {n : ℤ} {b : Bool} {cs ds : List Call}

lemma exportsAfter_append (g : Globals) (n : ℤ) (b : Bool) (cs ds : List Call) :
    exportsAfter g n b (cs ++ ds) = exportsAfter g n (exportsAfter g n b cs) ds := List.foldl_append

lemma unexportsTaken_append : UnexportsTaken g n b (cs ++ ds) ↔
    UnexportsTaken g n b cs ∧ UnexportsTaken g n (exportsAfter g n b cs) ds := by
  induction cs generalizing b with
  | nil => simp [UnexportsTaken, exportsAfter]
  | cons c cs ih =>
    rw [List.cons_append, UnexportsTaken, UnexportsTaken, ih, and_assoc]
    rfl

lemma exportsAfter_of_other (h : ∀ fd text ret, Call.write fd text ret ∈ cs →
    text = decimal n → fd ≠ g.efd_ ∧ fd ≠ g.ufd_) : exportsAfter g n b cs = b := by
  induction cs generalizing b with
  | nil => rfl
  | cons c cs ih =>
    have hc : Call.exports g n b c = b := by
      cases c with
      | write fd text ret =>
        rw [Call.exports]
        split
        · next hw =>
          obtain ⟨he, hu⟩ := h fd text ret List.mem_cons_self hw.2
          rw [if_neg he, if_neg hu]
        · rfl
      | _ => rfl
    change exportsAfter g n (Call.exports g n b c) cs = b
    rw [hc]
    exact ih fun fd text ret hmem => h fd text ret (List.mem_cons_of_mem _ hmem)

lemma decimal_injective {m n : ℤ} (h : decimal m = decimal n) : m = n := by
  have hdigit : ∀ k : ℕ, ∀ c ∈ numeral k, c ≠ 0x2d := fun k c hc he => by
    have := numeral_digits k c hc
    rw [he] at this
    cases this
  have hsign : ∀ (k : ℕ) (l : Str), numeral k ≠ 0x2d :: l := fun k l he =>
    hdigit k 0x2d (he ▸ List.mem_cons_self) rfl
  have hnat : ∀ k l : ℕ, numeral k = numeral l → k = l := fun k l he => by
    rw [← value_numeral k, he, value_numeral]
  cases m with
  | ofNat k =>
    cases n with
    | ofNat l => exact congrArg Int.ofNat (hnat k l h)
    | negSucc l => exact absurd h (hsign k _)
  | negSucc k =>
    cases n with
    | ofNat l => exact absurd h.symm (hsign l _)
    | negSucc l =>
      have := hnat _ _ (List.cons_eq_cons.mp h).2
      rw [Nat.add_right_cancel this]

lemma initSysfsPin_tail (g : Globals) (pin : GpioPinSysfs) (x : InitReturns) :
    ∃ cs, (initSysfsPin g pin x).calls = .write g.efd_ (decimal pin.system) x.exported :: cs ∧
      ∀ fd, WritesWithin [fd] cs := by
  -- the calls behind the first are the same whatever the descriptor of `export`
  have htail : 0 < x.direction → ∀ fd, WritesWithin [fd] (initCalls g pin x).tail := by
    intro hd fd
    have hall : WritesWithin [fd] (initCalls { g with efd_ := fd } pin x) :=
      writesWithin_initCalls hd
    exact hall.2
  by_cases hexp : ExportFails x
  · rw [initSysfsPin_export hexp]
    exact ⟨[], rfl, fun _ => trivial⟩
  by_cases hdir : x.gpio_dir = -1
  · rw [initSysfsPin_dir hexp hdir]
    exact ⟨_, rfl, fun _ => .of_not_written fun c hc => by
      rw [List.mem_singleton.mp hc]
      rfl⟩
  by_cases hd : 0 < x.direction
  · by_cases hm : Mandatory x
    · rw [initSysfsPin_mandatory hm]
      refine ⟨_, rfl, fun fd => (htail hd fd).append ?_⟩
      exact .of_not_written fun c hc => by
        rw [List.mem_singleton.mp hc]
        rfl
    · obtain ⟨-, cs, hcs, ds, hds⟩ := initSysfsPin_later g pin hexp hdir hd hm
      refine ⟨_, hcs, fun fd => (htail hd fd).first ⟨ds, ?_⟩⟩
      rw [← hds, hcs]
      rfl
  · rw [initSysfsPin_direction hexp hdir hd]
    exact ⟨_, rfl, fun _ => .of_not_written fun c hc => by
      rcases List.mem_pair.mp hc with rfl | rfl <;> rfl⟩

/-- The gpio of a pin that the write to `export` has taken. -/
def exportsGpio (n : ℤ) : Visit → Bool
  | .sysfs spin x => spin.system = n ∧ 0 < x.exported
  | .uapi _ _ => false

def holdsGpio (n : ℤ) : GpioPin → Bool
  | .sysfs spin => spin.system = n
  | .uapi _ => false

lemma exportsAfter_init {t : Table ι} {i : ι} (hf : FreshOpens t (callsOf i (v.init g).calls))
    (he : g.efd_ ∈ t.map Prod.fst) (hu : g.ufd_ ∈ t.map Prod.fst) :
    exportsAfter g n b (v.init g).calls = (b || exportsGpio n v) := by
  cases v with
  | uapi upin x =>
    rw [exportsGpio, Bool.or_false]
    refine exportsAfter_of_other fun fd text ret hmem => ?_
    cases (uapiInitPin_spec upin x).2.1 _ hmem
  | sysfs spin x =>
    obtain ⟨cs, hcs, hwithin⟩ := initSysfsPin_tail g spin x
    have hfirst : Call.exports g n b (.write g.efd_ (decimal spin.system) x.exported) =
        (b || exportsGpio n (.sysfs spin x)) := by
      rw [Call.exports, if_pos rfl, exportsGpio]
      by_cases hs : spin.system = n
      · by_cases hx : 0 < x.exported <;> simp [hs, hx]
      · have hd : decimal spin.system ≠ decimal n := fun h => hs (decimal_injective h)
        simp [hs, hd]
    have hopened := (opensFirst_init g (.sysfs spin x)).fresh hf
    rw [Visit.init] at hopened ⊢
    rw [hcs] at hopened ⊢
    change exportsAfter g n (Call.exports g n b _) cs = _
    rw [hfirst]
    refine exportsAfter_of_other fun fd text ret hmem _ => ?_
    -- the descriptor is one that the initialisation has opened
    have hown : fd ∈ opened cs := by
      rcases (hwithin (fd + 1)).mem hmem rfl with hne | hown
      · have := List.mem_singleton.mp hne
        omega
      · exact hown
    have hnew := (hopened fd (by rw [opened_cons]; exact List.mem_append_right _ hown)).2
    exact ⟨fun h => hnew (h ▸ he), fun h => hnew (h ▸ hu)⟩

lemma exportsAfter_pins {k : ℕ} {t : Table (Option ℕ)}
    (hf : FreshOpens t (initGpioPins g k vs).2)
    (he : g.efd_ ∈ t.map Prod.fst) (hu : g.ufd_ ∈ t.map Prod.fst) :
    exportsAfter g n b ((initGpioPins g k vs).2.map Prod.snd) = (b || vs.any (exportsGpio n)) := by
  induction vs generalizing k b t with
  | nil => simp [initGpioPins, exportsAfter]
  | cons v vs ih =>
    rw [initGpioPins_calls, freshOpens_append] at hf
    have hkept : ∀ fd ∈ t.map Prod.fst,
        fd ∈ (t.after (callsOf (some k) (v.init g).calls)).map Prod.fst := fun fd hfd => by
      obtain ⟨e, hin, rfl⟩ := List.mem_map.mp hfd
      exact List.mem_map_of_mem (((opensFirst_init g v).mem_after hf.1).mpr (Or.inl hin))
    have hsnd : (callsOf (some k) (v.init g).calls).map Prod.snd = (v.init g).calls := by
      simp [callsOf, Function.comp_def]
    rw [initGpioPins_calls, List.map_append, hsnd, exportsAfter_append,
      exportsAfter_init hf.1 he hu, ih hf.2 (hkept _ he) (hkept _ hu), List.any_cons, Bool.or_assoc]

lemma cleanupSysfsPin_tail (g : Globals) (pin : GpioPinSysfs) (ret set : ℤ) :
    ∃ cs, (cleanupSysfsPin g pin ret set).2 = .write g.ufd_ (decimal pin.system) ret :: cs ∧
      ∀ fd text r, Call.write fd text r ∈ cs → text = bytes "0" ∧ pin.active_low = .yes := by
  have hclose : ∀ (fd fd' r : ℤ) (text : Str), Call.write fd text r ∉ (closeIf fd').2 := by
    intro fd fd' r text
    unfold closeIf
    split <;> simp
  refine ⟨_, by
    simp only [cleanupSysfsPin, List.append_assoc, List.cons_append, List.nil_append]
    rfl, fun fd text r hmem => ?_⟩
  simp only [List.mem_append, hclose, or_false] at hmem
  split at hmem
  · next ha =>
    obtain ⟨-, htext, -⟩ := Call.write.inj (List.mem_singleton.mp hmem)
    exact ⟨htext, ha.2⟩
  · cases hmem

lemma exportsAfter_cleanupPin {pin : GpioPin} {r : ℤ × ℤ} (hne : g.ufd_ ≠ g.efd_)
    (hn : n ≠ 0 ∨ ∀ spin, pin = .sysfs spin → spin.active_low ≠ .yes)
    (ht : UnexportsTaken g n b (cleanupPin g r pin)) :
    exportsAfter g n b (cleanupPin g r pin) = (b && !holdsGpio n pin) := by
  cases pin with
  | uapi upin =>
    rw [holdsGpio, Bool.not_false, Bool.and_true]
    exact exportsAfter_of_other fun fd text ret hmem => by cases List.mem_singleton.mp hmem
  | sysfs spin =>
    obtain ⟨cs, hcs, hzero⟩ := cleanupSysfsPin_tail g spin r.1 r.2
    rw [cleanupPin] at ht ⊢
    rw [hcs] at ht ⊢
    have hfirst : Call.exports g n b (.write g.ufd_ (decimal spin.system) r.1) =
        (b && !holdsGpio n (.sysfs spin)) := by
      rw [Call.exports, if_neg hne, if_pos rfl, holdsGpio]
      by_cases hs : spin.system = n
      · by_cases hr : 0 < r.1
        · simp [hs, hr]
        · -- a gpio that is exported would have been taken
          have hb : b = false := by
            by_contra hb
            exact hr (ht.1 ⟨rfl, by rw [hs], by rwa [Bool.not_eq_false] at hb⟩)
          simp [hs, hr, hb]
      · have hd : decimal spin.system ≠ decimal n := fun h => hs (decimal_injective h)
        simp [hs, hd]
    change exportsAfter g n (Call.exports g n b _) cs = _
    rw [hfirst]
    refine exportsAfter_of_other fun fd text ret hmem htext => ?_
    obtain ⟨h0, ha⟩ := hzero fd text ret hmem
    rcases hn with hn | hn
    · have hdec : decimal n = decimal 0 := by
        rw [← htext, h0]
        decide
      exact absurd (decimal_injective hdec) hn
    · exact absurd ha (hn spin rfl)

lemma exportsAfter_cleanup {gp_list : List GpioPin} {k : ℕ} (hne : g.ufd_ ≠ g.efd_)
    (hn : n ≠ 0 ∨ ∀ spin, .sysfs spin ∈ gp_list → spin.active_low ≠ .yes)
    (ht : UnexportsTaken g n b (cleanupGpioPins g r k gp_list)) :
    exportsAfter g n b (cleanupGpioPins g r k gp_list) = (b && !gp_list.any (holdsGpio n)) := by
  induction gp_list generalizing k b with
  | nil => simp [cleanupGpioPins, exportsAfter]
  | cons pin gp_list ih =>
    rw [cleanupGpioPins, unexportsTaken_append] at ht
    have hpin := exportsAfter_cleanupPin hne
      (hn.imp_right fun h spin he => h spin (he ▸ List.mem_cons_self)) ht.1
    rw [hpin] at ht
    rw [cleanupGpioPins, exportsAfter_append, hpin,
      ih (hn.imp_right fun h spin hmem => h spin (List.mem_cons_of_mem _ hmem)) ht.2, List.any_cons,
      Bool.and_assoc, Bool.not_or]

lemma kept_same {spin : GpioPinSysfs} {x : InitReturns} (hret : (initSysfsPin g spin x).ret = 0) :
    (initSysfsPin g spin x).pin.system = spin.system ∧
      (initSysfsPin g spin x).pin.active_low = spin.active_low := by
  rw [initSysfsPin_mandatory (mandatory_of_ret hret)]
  exact ⟨rfl, rfl⟩

lemma uapi_pin_ne (upin : GpioPinUapi) (x : UapiReturns) (spin : GpioPinSysfs) :
    ((Visit.uapi upin x).init g).pin ≠ .sysfs spin := by
  rw [Visit.init, uapiInitPin]
  intro hpin
  cases hchip : x.chip with
  | none =>
    rw [hchip] at hpin
    cases hpin
  | some fd =>
    rw [hchip] at hpin
    by_cases h : x.ret = -1 <;> simp [h] at hpin

lemma any_exportsGpio : vs.any (exportsGpio n) = true ↔
    ∃ spin x, .sysfs spin x ∈ vs ∧ spin.system = n ∧ 0 < x.exported := by
  rw [List.any_eq_true]
  constructor
  · rintro ⟨v, hv, hexp⟩
    cases v with
    | uapi upin x => cases hexp
    | sysfs spin x => exact ⟨spin, x, hv, by simpa [exportsGpio] using hexp⟩
  · rintro ⟨spin, x, hv, hexp⟩
    exact ⟨_, hv, by simpa [exportsGpio] using hexp⟩

lemma any_holdsGpio : (initGpioPins g 0 vs).1.any (holdsGpio n) = false ↔
    ∀ spin x, .sysfs spin x ∈ vs → spin.system = n → (initSysfsPin g spin x).ret = -1 := by
  rw [List.any_eq_false]
  constructor
  · intro h spin x hv hs
    refine (init_ret g (.sysfs spin x)).resolve_left fun hret => ?_
    obtain ⟨k, hk⟩ := List.mem_iff_getElem?.mp hv
    refine h _ (mem_kept.mpr ⟨k, _, hk, hret, rfl⟩) ?_
    rw [Visit.init, holdsGpio, (kept_same hret).1]
    exact decide_eq_true hs
  · intro h pin hpin
    obtain ⟨k, v, hk, hret, rfl⟩ := mem_kept.mp hpin
    cases v with
    | uapi upin x =>
      cases hp : ((Visit.uapi upin x).init g).pin with
      | sysfs spin => exact absurd hp (uapi_pin_ne upin x spin)
      | uapi upin' => exact Bool.false_ne_true
    | sysfs spin x =>
      rw [Visit.init, holdsGpio, (kept_same hret).1]
      intro hs
      have hfail := h spin x (List.mem_of_getElem? hk) (of_decide_eq_true hs)
      exact absurd (hret.symm.trans hfail) (by decide)

lemma Run.Comes.exports_looped {m : Run} {t : Table (Option ℕ)} (h : m.Comes t) :
    exportsAfter m.g n b m.looped = b := by
  refine exportsAfter_of_other fun fd text ret hmem _ => ?_
  have hown : OnOwn LoopLedger.devnullfd [] m.looped := (loop_spec m.acts h.looped).1
  have hapart := hown.apart (owns_nil (m.atLoop t) none) h.looped hmem (Or.inl rfl)
  have hopen : ∀ fd ∈ [m.g.sfd_, m.g.efd_, m.g.ufd_], fd ∈ (m.atLoop t).map Prod.fst :=
    fun fd hfd => List.mem_map.mpr ⟨_, h.still (h.globals fd hfd), rfl⟩
  exact ⟨fun he => hapart (hopen fd (by simp [he])), fun hu => hapart (hopen fd (by simp [hu]))⟩

end Exports

/-! ### A run -/

def stdTable : Table (Option ℕ) := [(0, none), (1, none), (2, none)]

/-- The pin of gpio 17 stays, and that of gpio 18 fails at the file `value`. -/
def oneStays : List Visit :=
  [.sysfs pin17 (pinReturns 9),
    .sysfs { pin17 with system := 18 } ⟨2, 0, 6, 10, 2, 11, 4, -1, -1, -1, .byte 0x30⟩]

lemma oneStays_back :
    (initGpioPins (initSysfs ⟨3, 4, 5⟩).2.1 0 oneStays).1.Perm
      (initGpioPins (initSysfs ⟨3, 4, 5⟩).2.1 0 oneStays).1 := List.Perm.refl _

/-- The directory, `export` and `unexport` open as 3, 4 and 5, and every write succeeds. -/
def oneStaysRun : Run where
  y := ⟨3, 4, 5⟩
  vs := oneStays
  w := .w64
  poll_period := 50
  x := listening
  acts := twoClients
  gp_list := (initGpioPins (initSysfs ⟨3, 4, 5⟩).2.1 0 oneStays).1
  r := fun _ => (2, 1)
  exits := twoClients_exits
  back := oneStays_back

lemma oneStays_fresh : FreshOpens stdTable oneStaysRun.calls := by decide

lemma oneStays_allocated : ∀ spin x, .sysfs spin x ∈ oneStays → Allocated spin := by
  intro spin x hmem
  rcases List.mem_pair.mp hmem with he | he <;> cases he <;> exact ⟨rfl, rfl, rfl, rfl⟩

end Gpiod.Ledger
