import Gpiod.SysfsPin

/-!
What `init_gpio_pins` leaves behind of the pins it removes and of those it keeps.

It removes a pin whose `init` has returned -1, and frees its memory. The failure exit of
`init_sysfs_pin` closes none of the descriptors it has opened, and nothing writes to
`unexport`.
-/

namespace Gpiod.InitPins

open Gpiod.Pin Gpiod.Descriptors Gpiod.SysfsPin

/-- `upin->fd`. -/
structure GpioPinUapi where
  fd : ℤ
  deriving DecidableEq, Repr

/-- An element of `gp_list`. -/
inductive GpioPin
  | sysfs (spin : GpioPinSysfs)
  | uapi (upin : GpioPinUapi)
  deriving DecidableEq, Repr

/-- What `uapi_init_pin` comes to: the descriptor of the chip it finds, if the pin names one, and
what the ioctl on it gives back. -/
structure UapiReturns where
  chip : Option ℤ
  ret : ℤ
  new : ℤ
  deriving DecidableEq, Repr

/-- An element of the list with what its `init` meets. -/
inductive Visit
  | sysfs (spin : GpioPinSysfs) (x : InitReturns)
  | uapi (upin : GpioPinUapi) (x : UapiReturns)
  deriving DecidableEq, Repr

/-- What `pin->init` returns and leaves, and its calls. -/
structure Inited where
  ret : ℤ
  pin : GpioPin
  calls : List Call
  deriving DecidableEq, Repr

/-- `uapi_init_pin`; calls that neither open, close nor write are left out. -/
def uapiInitPin (upin : GpioPinUapi) (x : UapiReturns) : Inited :=
  match x.chip with
  | none => ⟨-1, .uapi upin, []⟩
  | some fd =>
    if x.ret = -1 then ⟨-1, .uapi upin, [.ioctl fd x.ret x.new]⟩
    else ⟨0, .uapi { upin with fd := x.new }, [.ioctl fd x.ret x.new]⟩

def Visit.init (g : Globals) : Visit → Inited
  | .sysfs spin x =>
    let i := initSysfsPin g spin x
    ⟨i.ret, .sysfs i.pin, i.calls⟩
  | .uapi upin x => uapiInitPin upin x

/-- `init_gpio_pins` from the element at place `n` on: the list it leaves, and its calls, each with
the place of the pin it is made for. -/
def initGpioPins (g : Globals) : ℕ → List Visit → List GpioPin × List (Option ℕ × Call)
  | _, [] => ([], [])
  | n, v :: vs =>
    let i := v.init g
    let (gp_list, calls) := initGpioPins g (n + 1) vs
    (if i.ret = -1 then gp_list else i.pin :: gp_list, callsOf (some n) i.calls ++ calls)

def GpioPin.recorded : GpioPin → List ℤ
  | .sysfs spin => spin.recorded
  | .uapi upin => [upin.fd]

/-- The descriptors open at the start: none is a pin's, and `unexport` is among them. -/
structure Started (g : Globals) (t : Table (Option ℕ)) : Prop where
  none : ∀ e ∈ t, e.2 = none
  ufd_ : g.ufd_ ∈ t.map Prod.fst
  ne : g.efd_ ≠ g.ufd_

/-- What a failed initialisation leaves, with the table `t` at the start. -/
structure NothingLeft (g : Globals) (t : Table (Option ℕ)) (vs : List Visit) : Prop where
  /-- the pins whose `init` returned 0, in order -/
  kept : (initGpioPins g 0 vs).1 =
    (vs.filter fun v => (v.init g).ret = 0).map fun v => (v.init g).pin
  /-- of a pin removed no descriptor is open -/
  closed : ∀ i v, vs[i]? = some v → (v.init g).ret ≠ 0 →
    ∀ fd, (fd, some i) ∉ t.after (initGpioPins g 0 vs).2
  /-- and what was exported for it has been unexported -/
  unexported : ∀ i v, vs[i]? = some v → (v.init g).ret ≠ 0 →
    ∀ cs text ret ds, (initGpioPins g 0 vs).2 = cs ++ (some i, .write g.efd_ text ret) :: ds →
      0 < ret → ∃ j ret', (j, Call.write g.ufd_ text ret') ∈ ds ∧ 0 < ret'
  /-- the directory of a pin that stays is closed -/
  directory : ∀ i spin x, vs[i]? = some (.sysfs spin x) → (initSysfsPin g spin x).ret = 0 →
    (x.gpio_dir, some i) ∉ t.after (initGpioPins g 0 vs).2
  /-- and what is open for a pin that stays is recorded in it -/
  recorded : ∀ i v, vs[i]? = some v → (v.init g).ret = 0 →
    ∀ fd, (fd, some i) ∈ t.after (initGpioPins g 0 vs).2 → fd ∈ (v.init g).pin.recorded

/-- No step fails that has to succeed, or the first of these does, or the second without the gpio
having been exported. -/
def Visit.Tidy : Visit → Prop
  | .sysfs _ x => Mandatory x ∨ ExportFails x ∨ x.exported ≤ 0 ∧ x.gpio_dir = -1
  | .uapi _ _ => True

/-! ### One pin -/

variable {g : Globals} {t : Table (Option ℕ)}

lemma uapiInitPin_spec (upin : GpioPinUapi) (x : UapiReturns) :
    closed (uapiInitPin upin x).calls = [] ∧
      (∀ c ∈ (uapiInitPin upin x).calls, c.written = none) ∧
      ((uapiInitPin upin x).ret = 0 ∧
          opened (uapiInitPin upin x).calls = (uapiInitPin upin x).pin.recorded ∨
        (uapiInitPin upin x).ret = -1 ∧ opened (uapiInitPin upin x).calls = []) := by
  unfold uapiInitPin
  cases x.chip with
  | none => simp [closed, opened]
  | some fd =>
    by_cases h : x.ret = -1 <;>
      simp [h, closed, Call.closed, opened, Call.opened, Call.written, GpioPin.recorded]

lemma opensFirst_init (g : Globals) (v : Visit) : OpensFirst (v.init g).calls := by
  cases v with
  | uapi upin x => exact .of_not_closed (uapiInitPin_spec upin x).1
  | sysfs spin x =>
    by_cases hm : Mandatory x
    · have hcalls : ((Visit.sysfs spin x).init g).calls =
          initCalls g spin x ++ [.close x.gpio_dir] := by
        rw [Visit.init, initSysfsPin_mandatory hm]
      rw [hcalls]
      refine .mk closed_initCalls rfl ?_
      rw [opened_initCalls]
      simp [closed, Call.closed, hm.gpio_dir]
    · exact .of_not_closed (initSysfsPin_not_mandatory _ _ hm).2

lemma writesWithin_init (g : Globals) (v : Visit) : WritesWithin [g.efd_] (v.init g).calls := by
  cases v with
  | sysfs spin x => exact initSysfsPin_writes
  | uapi upin x => exact .of_not_written (uapiInitPin_spec upin x).2.1

lemma init_ret (g : Globals) (v : Visit) : (v.init g).ret = 0 ∨ (v.init g).ret = -1 := by
  cases v with
  | uapi upin x =>
    exact (uapiInitPin_spec upin x).2.2.imp And.left And.left
  | sysfs spin x =>
    by_cases hm : Mandatory x
    · left
      rw [Visit.init, initSysfsPin_mandatory hm]
    · right
      exact (initSysfsPin_not_mandatory _ _ hm).1

lemma left_of_not_mandatory {spin : GpioPinSysfs} {x : InitReturns} (h : ¬ Mandatory x) :
    left (initSysfsPin g spin x).calls = opened (initSysfsPin g spin x).calls := by
  rw [left, (initSysfsPin_not_mandatory _ _ h).2]
  simp

lemma mem_left_mandatory {spin : GpioPinSysfs} {x : InitReturns} (h : Mandatory x) {fd : ℤ}
    (hfd : fd ∈ left (initSysfsPin g spin x).calls) :
    fd ≠ x.gpio_dir ∧ fd ∈ (initPin spin x).recorded := by
  rw [left_mandatory h] at hfd
  obtain ⟨hmem, hne⟩ := List.mem_filter.mp hfd
  refine ⟨of_decide_eq_true hne, ?_⟩
  have hfile := (List.mem_filter.mp hmem).1
  simp only [filesOf, List.mem_append, List.mem_cons, List.not_mem_nil, or_false] at hfile
  by_cases ha : spin.active_low = .yes <;>
    simp [ha] at hfile <;> simp [GpioPinSysfs.recorded, initPin, ha] <;> tauto

lemma tidy_failed {v : Visit} (h : v.Tidy) (hret : (v.init g).ret ≠ 0) :
    opened (v.init g).calls = [] ∧
      ∀ fd text ret, Call.write fd text ret ∈ (v.init g).calls → ret ≤ 0 := by
  cases v with
  | uapi upin x =>
    obtain ⟨-, hw, ⟨h0, -⟩ | ⟨-, hopened⟩⟩ := uapiInitPin_spec upin x
    · exact absurd h0 hret
    · exact ⟨hopened, fun fd text ret hmem => absurd (hw _ hmem) (Option.some_ne_none fd)⟩
  | sysfs spin x =>
    by_cases hexp : ExportFails x
    · rw [Visit.init, initSysfsPin_export hexp]
      refine ⟨rfl, fun fd text ret hmem => ?_⟩
      obtain ⟨-, -, rfl⟩ := Call.write.inj (List.mem_singleton.mp hmem)
      exact hexp.1.le
    · obtain hm | hexp' | ⟨hneg, hd⟩ := h
      · rw [Visit.init, initSysfsPin_mandatory hm] at hret
        exact absurd rfl hret
      · exact absurd hexp' hexp
      · rw [Visit.init, initSysfsPin_dir hexp hd]
        refine ⟨by simp [opened, Call.opened, hd], fun fd text ret hmem => ?_⟩
        rcases List.mem_cons.mp hmem with hmem | hmem
        · obtain ⟨-, -, rfl⟩ := Call.write.inj hmem
          exact hneg
        · cases List.mem_singleton.mp hmem

/-! ### The list -/

lemma initGpioPins_kept (n : ℕ) (vs : List Visit) : (initGpioPins g n vs).1 =
    (vs.filter fun v => (v.init g).ret = 0).map fun v => (v.init g).pin := by
  induction vs generalizing n with
  | nil => rfl
  | cons v vs ih =>
    rw [initGpioPins]
    rcases init_ret g v with h | h <;> simp [h, ih]

lemma initGpioPins_calls (n : ℕ) (v : Visit) (vs : List Visit) :
    (initGpioPins g n (v :: vs)).2 =
      callsOf (some n) (v.init g).calls ++ (initGpioPins g (n + 1) vs).2 := rfl

/-- **The table after the run**: what it was, and what the inits leave open. -/
lemma mem_after_run {n : ℕ} {vs : List Visit} (hf : FreshOpens t (initGpioPins g n vs).2)
    {e : ℤ × Option ℕ} : e ∈ t.after (initGpioPins g n vs).2 ↔
      e ∈ t ∨ ∃ k v, vs[k]? = some v ∧ e.2 = some (n + k) ∧ e.1 ∈ left (v.init g).calls := by
  induction vs generalizing n t with
  | nil => simp [initGpioPins]
  | cons v vs ih =>
    rw [initGpioPins_calls, freshOpens_append] at hf
    rw [initGpioPins_calls, after_append, ih hf.2, (opensFirst_init g v).mem_after hf.1, or_assoc]
    refine or_congr_right ?_
    constructor
    · rintro (⟨he, hl⟩ | ⟨k, u, hu, he, hl⟩)
      · exact ⟨0, v, rfl, he, hl⟩
      · exact ⟨k + 1, u, hu, by rw [he]; congr 1; omega, hl⟩
    · rintro ⟨k, u, hu, he, hl⟩
      cases k with
      | zero =>
        obtain rfl := Option.some.inj hu
        exact Or.inl ⟨he, hl⟩
      | succ k => exact Or.inr ⟨k, u, hu, by rw [he]; congr 1; omega, hl⟩

lemma written_of_mem {n : ℕ} {vs : List Visit} (hf : FreshOpens t (initGpioPins g n vs).2)
    {o : Option ℕ} {c : Call} (hc : (o, c) ∈ (initGpioPins g n vs).2) {fd : ℤ}
    (hw : c.written = some fd) : fd = g.efd_ ∨ fd ∉ t.map Prod.fst := by
  induction vs generalizing n t with
  | nil => cases hc
  | cons v vs ih =>
    rw [initGpioPins_calls, freshOpens_append] at hf
    rw [initGpioPins_calls] at hc
    rcases List.mem_append.mp hc with hc | hc
    · obtain ⟨c', hc', he⟩ := List.mem_map.mp hc
      obtain rfl := (Prod.mk.inj he).2
      rcases (writesWithin_init g v).mem hc' hw with hfd | hfd
      · exact Or.inl (List.mem_singleton.mp hfd)
      · exact Or.inr ((opensFirst_init g v).fresh hf.1 fd hfd).2
    · refine (ih hf.2 hc).imp_right fun hn ht => hn ?_
      obtain ⟨e, he, rfl⟩ := List.mem_map.mp ht
      exact List.mem_map_of_mem (((opensFirst_init g v).mem_after hf.1).mpr (Or.inl he))

lemma mem_run {n : ℕ} {vs : List Visit} {o : Option ℕ} {c : Call} :
    (o, c) ∈ (initGpioPins g n vs).2 ↔
      ∃ k v, vs[k]? = some v ∧ o = some (n + k) ∧ c ∈ (v.init g).calls := by
  induction vs generalizing n with
  | nil => simp [initGpioPins]
  | cons v vs ih =>
    rw [initGpioPins_calls, List.mem_append, ih]
    constructor
    · rintro (hmem | ⟨k, u, hu, rfl, hc⟩)
      · obtain ⟨c', hc', he⟩ := List.mem_map.mp hmem
        obtain ⟨rfl, rfl⟩ := Prod.mk.inj he
        exact ⟨0, v, rfl, rfl, hc'⟩
      · exact ⟨k + 1, u, hu, by congr 1; omega, hc⟩
    · rintro ⟨k, u, hu, rfl, hc⟩
      cases k with
      | zero =>
        obtain rfl := Option.some.inj hu
        exact Or.inl (List.mem_map_of_mem hc)
      | succ k => exact Or.inr ⟨k, u, hu, by congr 1; omega, hc⟩

/-! ### What a failure leaves -/

variable {vs : List Visit}

lemma mem_after_pin (hg : Started g t) (hf : FreshOpens t (initGpioPins g 0 vs).2) {i : ℕ}
    {v : Visit} (hv : vs[i]? = some v) {fd : ℤ} :
    (fd, some i) ∈ t.after (initGpioPins g 0 vs).2 ↔ fd ∈ left (v.init g).calls := by
  rw [mem_after_run hf]
  constructor
  · rintro (ht | ⟨k, u, hu, he, hl⟩)
    · exact absurd (hg.none _ ht) (Option.some_ne_none i)
    · obtain rfl : i = k := by simpa using he
      obtain rfl := Option.some.inj (hv.symm.trans hu)
      exact hl
  · intro hl
    exact Or.inr ⟨i, v, hv, by simp, hl⟩

lemma NothingLeft.tidy (h : NothingLeft g t vs) (hg : Started g t)
    (hf : FreshOpens t (initGpioPins g 0 vs).2) {v : Visit} (hv : v ∈ vs) : v.Tidy := by
  obtain ⟨i, hi⟩ := List.mem_iff_getElem?.mp hv
  cases v with
  | uapi upin x => trivial
  | sysfs spin x =>
    by_contra hn
    simp only [Visit.Tidy, not_or, not_and] at hn
    obtain ⟨hm, hexp, hdir⟩ := hn
    have hret : ((Visit.sysfs spin x).init g).ret ≠ 0 := by
      rw [show ((Visit.sysfs spin x).init g).ret = -1 from (initSysfsPin_not_mandatory _ _ hm).1]
      decide
    by_cases hd : x.gpio_dir = -1
    · -- the gpio has been exported, and no call writes to `unexport`
      have hpos : 0 < x.exported := not_le.mp fun hle => hdir hle hd
      have hmem : (some i, Call.write g.efd_ (decimal spin.system) x.exported) ∈
          (initGpioPins g 0 vs).2 := by
        refine mem_run.mpr ⟨i, _, hi, by simp, ?_⟩
        rw [Visit.init, initSysfsPin_dir hexp hd]
        exact List.mem_cons_self
      obtain ⟨cs, ds, hsplit⟩ := List.append_of_mem hmem
      obtain ⟨j, ret', hw, -⟩ := h.unexported i _ hi hret cs _ _ ds hsplit hpos
      have hrun : (j, Call.write g.ufd_ (decimal spin.system) ret') ∈ (initGpioPins g 0 vs).2 := by
        rw [hsplit]
        exact List.mem_append_right _ (List.mem_cons_of_mem _ hw)
      rcases written_of_mem hf hrun rfl with he | hnot
      · exact hg.ne he.symm
      · exact hnot hg.ufd_
    · -- the directory is open
      obtain ⟨-, -, hopened, -⟩ := initSysfsPin_fails g spin hexp hd hm
      refine h.closed i _ hi hret x.gpio_dir ((mem_after_pin hg hf hi).mpr ?_)
      rw [Visit.init, left_of_not_mandatory hm]
      exact hopened

lemma nothingLeft_of_tidy (h : ∀ v ∈ vs, v.Tidy) (hg : Started g t)
    (hf : FreshOpens t (initGpioPins g 0 vs).2) : NothingLeft g t vs where
  kept := initGpioPins_kept 0 vs
  closed i v hi hret fd hmem := by
    rw [mem_after_pin hg hf hi, left, (tidy_failed (h v (List.mem_of_getElem? hi)) hret).1] at hmem
    cases hmem
  unexported i v hi hret cs text ret ds hsplit hpos := by
    have hmem : (some i, Call.write g.efd_ text ret) ∈ (initGpioPins g 0 vs).2 := by simp [hsplit]
    obtain ⟨k, u, hu, he, hc⟩ := mem_run.mp hmem
    obtain rfl : i = k := by simpa using he
    obtain rfl := Option.some.inj (hi.symm.trans hu)
    exact absurd hpos
      (not_lt.mpr ((tidy_failed (h v (List.mem_of_getElem? hi)) hret).2 _ _ _ hc))
  directory i spin x hi hret hmem := by
    have hl := (mem_after_pin hg hf hi).mp hmem
    exact (mem_left_mandatory (mandatory_of_ret hret) hl).1 rfl
  recorded i v hi hret fd hmem := by
    have hl := (mem_after_pin hg hf hi).mp hmem
    cases v with
    | uapi upin x =>
      obtain ⟨-, -, ⟨-, hopened⟩ | ⟨h1, -⟩⟩ := uapiInitPin_spec upin x
      · exact hopened ▸ (List.mem_filter.mp hl).1
      · exact absurd (hret.symm.trans h1) (by decide)
    | sysfs spin x =>
      have hm : Mandatory x := mandatory_of_ret hret
      rw [Visit.init, initSysfsPin_mandatory hm]
      exact (mem_left_mandatory hm hl).2

/-- Descriptors 3, 4 and 5 are those of `init_sysfs`. -/
def sysfsGlobals : Globals := ⟨3, 4, 5⟩

def sysfsTable : Table (Option ℕ) := [(3, none), (4, none), (5, none)]

lemma sysfsTable_started : Started sysfsGlobals sysfsTable :=
  ⟨by decide, by decide, by decide⟩

def pin17 : GpioPinSysfs := ⟨0, 17, [], 0, .both, .no, 0, 0, 0, 0⟩

/-- The directory opens as 6, and its files as 7, 8 and a given descriptor. -/
def pinReturns (value : ℤ) : InitReturns := ⟨2, 0, 6, 7, 2, 8, 4, -1, -1, value, .byte 0x30⟩

/-- Nothing is exported, and nothing opens. -/
def noReturns : InitReturns := ⟨-1, 22, -1, -1, -1, -1, -1, -1, -1, -1, .readFails⟩

end Gpiod.InitPins
