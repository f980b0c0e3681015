import Gpiod.SysfsPin

/-!
What `cleanup_sysfs_pin` writes to and closes of a pin that `init_sysfs_pin` has set up.

The descriptor that `active_low` is reset through is the number of bytes written to `unexport`,
and a descriptor of zero is taken for one that is not open.
-/

namespace Gpiod.CleanupPin

open Gpiod.Pin Gpiod.Descriptors Gpiod.SysfsPin
open Gpiod.Config (GpiodActiveLow)

/-- `init_sysfs_pin` has set `active_low`. -/
def ActiveSet (pin : GpioPinSysfs) (x : InitReturns) : Prop :=
  pin.active_low = .yes ∧ 0 < x.active_low ∧ 0 < x.set_active_low

/-- The cleanup of an initialised pin keeps to it, `ret` being what the write to `unexport` returns
and `set` the one that resets `active_low`. -/
structure KeepsTo (g : Globals) (pin : GpioPinSysfs) (x : InitReturns) (ret set : ℤ) : Prop where
  /-- it writes to `unexport` and to descriptors that `init_sysfs_pin` has left open -/
  writes : ∀ c ∈ (cleanupSysfsPin g (initSysfsPin g pin x).pin ret set).2,
    ∀ fd ∈ c.written, 0 ≤ fd → fd = g.ufd_ ∨ fd ∈ left (initSysfsPin g pin x).calls
  reset : ActiveSet pin x → ∃ ret', Call.write x.active_low (bytes "0") ret' ∈
    (cleanupSysfsPin g (initSysfsPin g pin x).pin ret set).2
  /-- it closes each of these once -/
  once : ∀ fd ∈ left (initSysfsPin g pin x).calls,
    (closed (cleanupSysfsPin g (initSysfsPin g pin x).pin ret set).2).count fd = 1
  /-- and no other -/
  others : ∀ fd ∈ closed (cleanupSysfsPin g (initSysfsPin g pin x).pin ret set).2,
    0 ≤ fd → fd ∈ left (initSysfsPin g pin x).calls

/-- No descriptor recorded is zero, and what the write to `unexport` returns happens to be the
descriptor of `active_low` if that has been set, or else is one that may be written to, or none,
if the pin is active low. -/
structure Paired (g : Globals) (pin : GpioPinSysfs) (x : InitReturns) (ret : ℤ) : Prop where
  nonzero : 0 ∉ filesOf pin x
  set : ActiveSet pin x → ret = x.active_low
  unset : pin.active_low = .yes → ¬ ActiveSet pin x →
    ret < 0 ∨ ret = g.ufd_ ∨ ret ∈ filesOf pin x

variable {ι : Type*} {g : Globals} {pin : GpioPinSysfs} {x : InitReturns} {ret set : ℤ}
variable {t : Table ι} {i : ι}

/-! ### What the initialisation has left -/

/-- The initialisation succeeds, of a pin as it is allocated, and the kernel gives out descriptors
that are not open; that of `unexport` is. -/
structure Ready (g : Globals) (pin : GpioPinSysfs) (x : InitReturns) (t : Table ι) (i : ι) :
    Prop where
  allocated : Allocated pin
  ret : (initSysfsPin g pin x).ret = 0
  fresh : FreshOpens t (callsOf i (initSysfsPin g pin x).calls)
  ufd_ : g.ufd_ ∈ t.map Prod.fst

lemma Ready.mandatory (h : Ready g pin x t i) : Mandatory x := mandatory_of_ret h.ret

lemma Ready.distinct (h : Ready g pin x t i) :
    (x.gpio_dir :: (filesOf pin x).filter (· ≠ -1)).Nodup ∧
      ∀ fd ∈ (filesOf pin x).filter (· ≠ -1), 0 ≤ fd ∧ fd ≠ g.ufd_ := by
  have hfresh := h.fresh
  rw [initSysfsPin_mandatory h.mandatory, callsOf_append, freshOpens_append] at hfresh
  obtain ⟨hnodup, hnot⟩ := hfresh.1.opened closed_initCalls
  have hopened : opened (initCalls g pin x) =
      x.gpio_dir :: (filesOf pin x).filter (· ≠ -1) := by
    rw [opened_initCalls]
    simp [h.mandatory.gpio_dir]
  rw [hopened] at hnodup hnot
  refine ⟨hnodup, fun fd hfd => ?_⟩
  obtain ⟨hpos, hfd⟩ := hnot fd (List.mem_cons_of_mem _ hfd)
  exact ⟨hpos, fun he => hfd (he ▸ h.ufd_)⟩

lemma Ready.left_eq (h : Ready g pin x t i) :
    left (initSysfsPin g pin x).calls = (filesOf pin x).filter (· ≠ -1) := by
  rw [left_mandatory h.mandatory]
  refine List.filter_eq_self.mpr fun fd hfd => decide_eq_true fun he => ?_
  exact (List.nodup_cons.mp h.distinct.1).1 (he ▸ hfd)

/-! ### The cleanup -/

lemma mem_cleanup_write {pin : GpioPinSysfs} {fd r : ℤ} {text : Str} :
    Call.write fd text r ∈ (cleanupSysfsPin g pin ret set).2 ↔
      (fd = g.ufd_ ∧ text = decimal pin.system ∧ r = ret) ∨
        (pin.active_fd ≠ 0 ∧ pin.active_low = .yes) ∧ fd = ret ∧ text = bytes "0" ∧ r = set := by
  have hclose : ∀ fd' : ℤ, Call.write fd text r ∉ (closeIf fd').2 := by
    intro fd'
    unfold closeIf
    split <;> simp
  by_cases ha : pin.active_fd ≠ 0 ∧ pin.active_low = .yes <;>
    simp [cleanupSysfsPin, hclose, ha, sysfsSetActiveLow, activeText]

/-- What the cleanup closes: every recorded descriptor that is not zero. -/
lemma closed_cleanup (g : Globals) (pin : GpioPinSysfs) (ret set : ℤ) :
    closed (cleanupSysfsPin g pin ret set).2 =
      [pin.active_fd, pin.value_fd, pin.edge_fd, pin.dir_fd].filter (· ≠ 0) := by
  have hclose : ∀ fd : ℤ, closed (closeIf fd).2 = [fd].filter (· ≠ 0) := by
    intro fd
    unfold closeIf
    by_cases h : fd = 0 <;> simp [h, closed, Call.closed]
  have hwrite : ∀ (fd : ℤ) (text : Str) (r : ℤ), closed [.write fd text r] = [] :=
    fun _ _ _ => rfl
  have hactive : closed (if pin.active_fd ≠ 0 ∧ pin.active_low = .yes then
      (sysfsSetActiveLow ret .no set).2 else []) = [] := by
    split <;> rfl
  simp only [cleanupSysfsPin, closed_append, hclose, hwrite, hactive, List.nil_append,
    ← List.filter_append]
  rfl

lemma perm_files (as : List ℤ) (v e d : ℤ) : (as ++ [v, e, d]).Perm ([d, e] ++ as ++ [v]) :=
  calc
    (as ++ [v, e, d]).Perm ((as ++ [v]) ++ [e, d]) := .of_eq (by simp)
    List.Perm _ ([e, d] ++ (as ++ [v])) := List.perm_append_comm
    List.Perm _ ([d, e] ++ (as ++ [v])) := .swap d e _
    List.Perm _ ([d, e] ++ as ++ [v]) := .of_eq (by simp)

lemma Ready.closed_perm (h : Ready g pin x t i) (ret set : ℤ) :
    (closed (cleanupSysfsPin g (initSysfsPin g pin x).pin ret set).2).Perm
      ((filesOf pin x).filter (· ≠ 0)) := by
  rw [closed_cleanup, initSysfsPin_mandatory h.mandatory]
  by_cases ha : pin.active_low = .yes
  · have hperm := (perm_files [x.active_low] x.value x.edge x.direction).filter (· ≠ 0)
    simpa [initPin, filesOf, ha] using hperm
  · have hperm := (perm_files [] x.value x.edge x.direction).filter (· ≠ 0)
    simpa [initPin, filesOf, ha, h.allocated.active_fd] using hperm

lemma Ready.mem_left (h : Ready g pin x t i) {fd : ℤ} :
    fd ∈ left (initSysfsPin g pin x).calls ↔ fd ∈ filesOf pin x ∧ fd ≠ -1 := by
  rw [h.left_eq]
  simp

lemma Ready.once_iff (h : Ready g pin x t i) : (∀ fd ∈ left (initSysfsPin g pin x).calls,
    (closed (cleanupSysfsPin g (initSysfsPin g pin x).pin ret set).2).count fd = 1) ↔
      0 ∉ filesOf pin x := by
  have hcount : ∀ fd, (closed (cleanupSysfsPin g (initSysfsPin g pin x).pin ret set).2).count fd =
      ((filesOf pin x).filter (· ≠ 0)).count fd := (h.closed_perm ret set).count_eq
  constructor
  · intro honce hzero
    have hone := honce 0 (h.mem_left.mpr ⟨hzero, by decide⟩)
    rw [hcount, List.count_eq_zero.mpr (by simp)] at hone
    cases hone
  · intro hzero fd hfd
    obtain ⟨hmem, hne⟩ := h.mem_left.mp hfd
    have hfd0 : fd ≠ 0 := fun he => hzero (he ▸ hmem)
    have hnodup := (List.nodup_cons.mp h.distinct.1).2
    rw [hcount, List.count_filter (by simpa using hfd0), ← List.count_filter (p := (· ≠ -1))
      (by simpa using hne)]
    exact List.count_eq_one_of_mem hnodup (by simp [hmem, hne])

lemma Ready.others (h : Ready g pin x t i) {fd : ℤ}
    (hfd : fd ∈ closed (cleanupSysfsPin g (initSysfsPin g pin x).pin ret set).2) (hpos : 0 ≤ fd) :
    fd ∈ left (initSysfsPin g pin x).calls := by
  have hmem := (h.closed_perm ret set).mem_iff.mp hfd
  exact h.mem_left.mpr ⟨(List.mem_filter.mp hmem).1, by omega⟩

lemma Ready.mem_write (h : Ready g pin x t i) {fd r : ℤ} {text : Str} :
    Call.write fd text r ∈ (cleanupSysfsPin g (initSysfsPin g pin x).pin ret set).2 ↔
      (fd = g.ufd_ ∧ text = decimal pin.system ∧ r = ret) ∨
        (x.active_low ≠ 0 ∧ pin.active_low = .yes) ∧ fd = ret ∧ text = bytes "0" ∧ r = set := by
  rw [mem_cleanup_write, initSysfsPin_mandatory h.mandatory]
  by_cases ha : pin.active_low = .yes <;> simp [initPin, ha]

lemma active_mem (ha : pin.active_low = .yes) : x.active_low ∈ filesOf pin x := by
  simp [filesOf, ha]

lemma ActiveSet.mem_left (hs : ActiveSet pin x) (h : Ready g pin x t i) :
    x.active_low ∈ left (initSysfsPin g pin x).calls := by
  have hpos := hs.2.1
  exact h.mem_left.mpr ⟨active_mem hs.1, by omega⟩

lemma KeepsTo.paired (hk : KeepsTo g pin x ret set) (h : Ready g pin x t i) :
    Paired g pin x ret := by
  have hzero := h.once_iff.mp hk.once
  refine ⟨hzero, fun hs => ?_, fun ha _ => ?_⟩
  · obtain ⟨r, hr⟩ := hk.reset hs
    rcases h.mem_write.mp hr with ⟨hu, -⟩ | ⟨-, hret, -⟩
    · have hopened := hs.mem_left h
      rw [h.left_eq] at hopened
      exact absurd hu (h.distinct.2 _ hopened).2
    · exact hret.symm
  · have hne : x.active_low ≠ 0 := fun he => hzero (he ▸ active_mem ha)
    by_cases hneg : ret < 0
    · exact Or.inl hneg
    · have hw := hk.writes _ (h.mem_write.mpr (Or.inr ⟨⟨hne, ha⟩, rfl, rfl, rfl⟩)) ret rfl
        (not_lt.mp hneg)
      exact Or.inr (hw.imp_right fun hl => (h.mem_left.mp hl).1)

lemma Paired.keepsTo (hp : Paired g pin x ret) (h : Ready g pin x t i) (set : ℤ) :
    KeepsTo g pin x ret set where
  writes c hc fd hw hpos := by
    cases c with
    | write fd' text r =>
      obtain rfl : fd' = fd := Option.some.inj hw
      rcases h.mem_write.mp hc with ⟨hu, -⟩ | ⟨⟨-, ha⟩, rfl, -⟩
      · exact Or.inl hu
      · by_cases hs : ActiveSet pin x
        · exact Or.inr (hp.set hs ▸ hs.mem_left h)
        · rcases hp.unset ha hs with hneg | hu | hmem
          · exact absurd hpos (not_le.mpr hneg)
          · exact Or.inl hu
          · exact Or.inr (h.mem_left.mpr ⟨hmem, by omega⟩)
    | _ => cases hw
  reset hs := by
    have hne : x.active_low ≠ 0 := by
      have hpos := hs.2.1
      omega
    exact ⟨set, h.mem_write.mpr (Or.inr ⟨⟨hne, hs.1⟩, (hp.set hs).symm, rfl, rfl⟩)⟩
  once := h.once_iff.mpr hp.nonzero
  others _ hfd hpos := h.others hfd hpos

/-- **Cleanup keeps to the pin** exactly if no descriptor recorded is zero and, of a pin that is
active low, the number of bytes written to `unexport` is the descriptor of `active_low`, or where
that has not been set, none or one that may be written to. -/
theorem keepsTo_iff (h : Ready g pin x t i) (set : ℤ) :
    KeepsTo g pin x ret set ↔ Paired g pin x ret :=
  ⟨fun hk => hk.paired h, fun hp => hp.keepsTo h set⟩

/-- A pin of gpio 17 as it is allocated. -/
def allocated17 (active_low : GpiodActiveLow) : GpioPinSysfs :=
  ⟨0, 17, [], 0, .both, active_low, 0, 0, 0, 0⟩

/-- Every open succeeds, and every write. -/
def allReturns : InitReturns := ⟨2, 0, 6, 7, 2, 8, 4, 9, 1, 10, .byte 0x30⟩

/-- Descriptors 3, 4 and 5 are those of `init_sysfs`. -/
def openAtInit : Table ℕ := [(3, 0), (4, 0), (5, 0)]

lemma allReturns_ready (active_low : GpiodActiveLow) :
    Ready ⟨3, 4, 5⟩ (allocated17 active_low) allReturns openAtInit 1 where
  allocated := ⟨rfl, rfl, rfl, rfl⟩
  ret := by cases active_low <;> decide
  fresh := by cases active_low <;> decide
  ufd_ := by decide

theorem active_high_kept : KeepsTo ⟨3, 4, 5⟩ (allocated17 .no) allReturns 2 1 :=
  (keepsTo_iff (allReturns_ready .no) 1).mpr
    ⟨by decide, fun hs => absurd hs.1 (by decide), fun ha => absurd ha (by decide)⟩

/-- Two bytes are written to `unexport`, and the byte that is to reset `active_low` goes to
descriptor 2. -/
theorem active_low_strays : Ready ⟨3, 4, 5⟩ (allocated17 .yes) allReturns openAtInit 1 ∧
    Call.write 2 (bytes "0") 1 ∈ (cleanupSysfsPin ⟨3, 4, 5⟩
      (initSysfsPin ⟨3, 4, 5⟩ (allocated17 .yes) allReturns).pin 2 1).2 ∧
    ¬ KeepsTo ⟨3, 4, 5⟩ (allocated17 .yes) allReturns 2 1 := by
  have hready := allReturns_ready .yes
  have hmem : Call.write 2 (bytes "0") 1 ∈ (cleanupSysfsPin ⟨3, 4, 5⟩
      (initSysfsPin ⟨3, 4, 5⟩ (allocated17 .yes) allReturns).pin 2 1).2 :=
    hready.mem_write.mpr (Or.inr ⟨⟨by decide, rfl⟩, rfl, rfl, rfl⟩)
  refine ⟨hready, hmem, fun hk => ?_⟩
  have hset := (hk.paired hready).set ⟨rfl, by decide, by decide⟩
  exact absurd hset (by decide)

end Gpiod.CleanupPin
