import Gpiod.Changed
import Gpiod.Config
import Gpiod.Descriptors
import Gpiod.Numeral

/-!
Initialisation and cleanup of a sysfs pin, as `gpiod-sysfs.c` does them, with the system calls
they make.

The files of a pin are opened below its directory. `direction` and `value` have to open, `edge`
and `active_low` need not. A descriptor of zero stands for one that is not open; where an open
has failed, the descriptor recorded is -1.
-/

namespace Gpiod.SysfsPin

open Gpiod.Pin Gpiod.Changed Gpiod.Numeral Gpiod.Descriptors
open Gpiod.Config (GpiodActiveLow)

/-- The descriptors that `init_sysfs` opens. -/
structure Globals where
  sfd_ : ℤ
  efd_ : ℤ
  ufd_ : ℤ
  deriving DecidableEq, Repr

/-- `struct gpio_pin_sysfs` and what its functions use of `struct gpio_pin`. -/
structure GpioPinSysfs where
  fd : ℤ
  system : ℤ
  name : Str
  value_ : ℤ
  edge : GpiodEdge
  active_low : GpiodActiveLow
  active_fd : ℤ
  dir_fd : ℤ
  edge_fd : ℤ
  value_fd : ℤ
  deriving DecidableEq, Repr

def GpioPinSysfs.recorded (pin : GpioPinSysfs) : List ℤ :=
  [pin.active_fd, pin.dir_fd, pin.edge_fd, pin.value_fd]

/-- The pin is as `alloc_sysfs_gpio_pin` leaves it. -/
structure Allocated (pin : GpioPinSysfs) : Prop where
  active_fd : pin.active_fd = 0
  dir_fd : pin.dir_fd = 0
  edge_fd : pin.edge_fd = 0
  value_fd : pin.value_fd = 0

/-- `sprintf(buffer, "%d", n)`. -/
def decimal : ℤ → Str
  | .ofNat n => numeral n
  | .negSucc n => 0x2d :: numeral (n + 1)

/-- The directory of the pin below that of `sfd_`. -/
def dirName (pin : GpioPinSysfs) : Str :=
  if pin.name ≠ [] then pin.name else bytes "gpio" ++ decimal pin.system

def ebusy : ℤ := 16

/-- What the system calls of `init_sysfs_pin` would return. -/
structure InitReturns where
  /-- the write to `export`, and its `errno` -/
  exported : ℤ
  errno : ℤ
  gpio_dir : ℤ
  direction : ℤ
  set_direction : ℤ
  edge : ℤ
  set_edge : ℤ
  active_low : ℤ
  set_active_low : ℤ
  value : ℤ
  read : SysfsRead
  deriving DecidableEq, Repr

/-! ### The writes -/

/-- `gpiod_edge_array[edge]`, and `none` for a polled pin. -/
def edgeText : GpiodEdge → Option Str
  | .rising => some (bytes "rising")
  | .falling => some (bytes "falling")
  | .both => some (bytes "both")
  | .polled => some (bytes "none")
  | .max => none

def sysfsSetEdge (fd : ℤ) (edge : GpiodEdge) (ret : ℤ) : ℤ × List Call :=
  match edgeText edge with
  | none => (-1, [])
  | some text => (if 0 < ret then 0 else -1, [.write fd text ret])

def sysfsSetDirection (fd ret : ℤ) : ℤ × List Call :=
  (if 0 < ret then 0 else -1, [.write fd (bytes "in") ret])

def activeText : GpiodActiveLow → Str
  | .yes => bytes "1"
  | .no => bytes "0"

def sysfsSetActiveLow (fd : ℤ) (a_low : GpiodActiveLow) (ret : ℤ) : ℤ × List Call :=
  (if 0 < ret then 0 else -1, [.write fd (activeText a_low) ret])

/-- The calls of `sysfs_read_value`. -/
def readCalls (value_fd : ℤ) : SysfsRead → List Call
  | .seekFails => [.lseek value_fd]
  | _ => [.lseek value_fd, .read value_fd]

/-! ### Initialisation -/

/-- What the initialisation of a pin returns and leaves, and the calls it makes. -/
structure Init where
  ret : ℤ
  pin : GpioPinSysfs
  calls : List Call
  deriving DecidableEq, Repr

/-- The `edge` file; that it fails is logged. -/
def initEdge (pin : GpioPinSysfs) (x : InitReturns) : GpioPinSysfs × List Call :=
  ({ pin with edge_fd := x.edge }, .openat x.gpio_dir (bytes "edge") x.edge ::
    if 0 < x.edge then (sysfsSetEdge x.edge pin.edge x.set_edge).2 else [])

/-- The `active_low` file of a pin that is active low; that it fails is logged. -/
def initActive (pin : GpioPinSysfs) (x : InitReturns) : GpioPinSysfs × List Call :=
  if pin.active_low = .yes then
    ({ pin with active_fd := x.active_low },
      .openat x.gpio_dir (bytes "active_low") x.active_low ::
        if 0 < x.active_low then (sysfsSetActiveLow x.active_low .yes x.set_active_low).2 else [])
  else (pin, [])

def initSysfsPin (g : Globals) (pin : GpioPinSysfs) (x : InitReturns) : Init :=
  let calls := [Call.write g.efd_ (decimal pin.system) x.exported]
  if x.exported < 0 ∧ x.errno ≠ ebusy then ⟨-1, pin, calls⟩
  else
    let calls := calls ++ [.openat g.sfd_ (dirName pin) x.gpio_dir]
    if x.gpio_dir = -1 then ⟨-1, pin, calls⟩
    else
      let pin := { pin with dir_fd := x.direction }
      let calls := calls ++ [.openat x.gpio_dir (bytes "direction") x.direction]
      if 0 < x.direction then
        let (ret, writes) := sysfsSetDirection x.direction x.set_direction
        let calls := calls ++ writes
        if ret = -1 then ⟨-1, pin, calls⟩
        else
          let (pin, edgeCalls) := initEdge pin x
          let (pin, activeCalls) := initActive pin x
          let pin := { pin with value_fd := x.value }
          let calls := calls ++ edgeCalls ++ activeCalls ++
            [.openat x.gpio_dir (bytes "value") x.value]
          if x.value < 0 then ⟨-1, pin, calls⟩
          else
            ⟨0, { pin with value_ := sysfsReadValue x.read, fd := x.value },
              calls ++ readCalls x.value x.read ++ [.close x.gpio_dir]⟩
      else ⟨-1, pin, calls⟩

/-! ### Cleanup -/

/-- `if(fd) {close(fd); fd = -1;}` -/
def closeIf (fd : ℤ) : ℤ × List Call := if fd ≠ 0 then (-1, [.close fd]) else (fd, [])

/-- `cleanup_sysfs_pin`; `ret` is what the write to `unexport` returns, `set` the one to
`active_low`. -/
def cleanupSysfsPin (g : Globals) (pin : GpioPinSysfs) (ret set : ℤ) : GpioPinSysfs × List Call :=
  let calls := [Call.write g.ufd_ (decimal pin.system) ret]
  let activeCalls :=
    if pin.active_fd ≠ 0 ∧ pin.active_low = .yes then (sysfsSetActiveLow ret .no set).2 else []
  let (active_fd, closeActive) := closeIf pin.active_fd
  let (value_fd, closeValue) := closeIf pin.value_fd
  let (edge_fd, closeEdge) := closeIf pin.edge_fd
  let (dir_fd, closeDir) := closeIf pin.dir_fd
  ({ pin with active_fd, value_fd, edge_fd, dir_fd },
    calls ++ activeCalls ++ closeActive ++ closeValue ++ closeEdge ++ closeDir)

/-! ### The steps of the initialisation -/

/-- The write to `export` fails, and not because the gpio is exported already. -/
def ExportFails (x : InitReturns) : Prop := x.exported < 0 ∧ x.errno ≠ ebusy

/-- No step fails that has to succeed. -/
structure Mandatory (x : InitReturns) : Prop where
  exported : ¬ ExportFails x
  gpio_dir : x.gpio_dir ≠ -1
  direction : 0 < x.direction
  set_direction : 0 < x.set_direction
  value : 0 ≤ x.value

instance (x : InitReturns) : Decidable (ExportFails x) := inferInstanceAs (Decidable (_ ∧ _))

/-- The calls up to the one that closes the directory, where no step fails that has to succeed. -/
def initCalls (g : Globals) (pin : GpioPinSysfs) (x : InitReturns) : List Call :=
  .write g.efd_ (decimal pin.system) x.exported :: .openat g.sfd_ (dirName pin) x.gpio_dir ::
    .openat x.gpio_dir (bytes "direction") x.direction ::
    .write x.direction (bytes "in") x.set_direction ::
    ((initEdge pin x).2 ++ (initActive pin x).2 ++
      .openat x.gpio_dir (bytes "value") x.value :: readCalls x.value x.read)

def initPin (pin : GpioPinSysfs) (x : InitReturns) : GpioPinSysfs :=
  { pin with
    dir_fd := x.direction
    edge_fd := x.edge
    active_fd := if pin.active_low = .yes then x.active_low else pin.active_fd
    value_fd := x.value
    value_ := sysfsReadValue x.read
    fd := x.value }

variable {g : Globals} {pin : GpioPinSysfs} {x : InitReturns}

lemma initSysfsPin_mandatory (h : Mandatory x) : initSysfsPin g pin x =
    ⟨0, initPin pin x, initCalls g pin x ++ [.close x.gpio_dir]⟩ := by
  have hv : ¬ x.value < 0 := not_lt.mpr h.value
  have hexp : ¬ (x.exported < 0 ∧ x.errno ≠ ebusy) := h.exported
  simp only [initSysfsPin, hexp, h.gpio_dir, h.direction, sysfsSetDirection, h.set_direction, hv,
    ↓reduceIte]
  by_cases ha : pin.active_low = .yes <;> simp [initEdge, initActive, initCalls, initPin, ha]

lemma initSysfsPin_export (h : ExportFails x) : initSysfsPin g pin x =
    ⟨-1, pin, [.write g.efd_ (decimal pin.system) x.exported]⟩ := by
  have hexp : x.exported < 0 ∧ x.errno ≠ ebusy := h
  simp only [initSysfsPin, if_pos hexp]

lemma initSysfsPin_dir (h : ¬ ExportFails x) (hd : x.gpio_dir = -1) : initSysfsPin g pin x =
    ⟨-1, pin, [.write g.efd_ (decimal pin.system) x.exported,
      .openat g.sfd_ (dirName pin) x.gpio_dir]⟩ := by
  have hexp : ¬ (x.exported < 0 ∧ x.errno ≠ ebusy) := h
  simp only [initSysfsPin, if_neg hexp, if_pos hd, List.cons_append, List.nil_append]

lemma initSysfsPin_direction (h : ¬ ExportFails x) (hd : x.gpio_dir ≠ -1)
    (hdir : ¬ 0 < x.direction) : initSysfsPin g pin x =
      ⟨-1, { pin with dir_fd := x.direction },
        [.write g.efd_ (decimal pin.system) x.exported, .openat g.sfd_ (dirName pin) x.gpio_dir,
          .openat x.gpio_dir (bytes "direction") x.direction]⟩ := by
  have hexp : ¬ (x.exported < 0 ∧ x.errno ≠ ebusy) := h
  simp only [initSysfsPin, hexp, hd, hdir, ↓reduceIte, List.cons_append, List.nil_append]

lemma initSysfsPin_later (g : Globals) (pin : GpioPinSysfs) (h : ¬ ExportFails x)
    (hd : x.gpio_dir ≠ -1) (hdir : 0 < x.direction) (hm : ¬ Mandatory x) :
    (initSysfsPin g pin x).ret = -1 ∧
      ∃ cs, (initSysfsPin g pin x).calls = .write g.efd_ (decimal pin.system) x.exported ::
          .openat g.sfd_ (dirName pin) x.gpio_dir :: cs ∧
        (initSysfsPin g pin x).calls <+: initCalls g pin x := by
  have hexp : ¬ (x.exported < 0 ∧ x.errno ≠ ebusy) := h
  simp only [initSysfsPin, hexp, hd, hdir, sysfsSetDirection, ↓reduceIte]
  by_cases hset : 0 < x.set_direction
  · have hv : x.value < 0 := by
      by_contra hv
      exact hm ⟨h, hd, hdir, hset, not_lt.mp hv⟩
    by_cases ha : pin.active_low = .yes <;>
      simp [hset, hv, ha, initEdge, initActive, initCalls]
  · simp [hset, initCalls]

/-! ### What the calls open and write -/

/-- The descriptors of the files opened below the directory, where the opens succeed. -/
def filesOf (pin : GpioPinSysfs) (x : InitReturns) : List ℤ :=
  [x.direction, x.edge] ++ (if pin.active_low = .yes then [x.active_low] else []) ++ [x.value]

lemma opened_openat (dirfd : ℤ) (path : Str) (ret : ℤ) :
    (Call.openat dirfd path ret).opened.toList = [ret].filter (· ≠ -1) := by
  by_cases h : ret = -1 <;> simp [Call.opened, h]

lemma opened_of_pos {dirfd ret : ℤ} {path : Str} (h : 0 < ret) :
    (Call.openat dirfd path ret).opened = some ret := by
  have hne : ret ≠ -1 := by omega
  simp [Call.opened, hne]

/-- What the steps for `edge` and `active_low` have in common: a write to the file if it has
opened. -/
lemma openat_write {dirfd ret : ℤ} {path : Str} {cs : List Call} (hc : closed cs = [])
    (ho : opened cs = []) (hw : WritesWithin [ret] cs) :
    let calls := Call.openat dirfd path ret :: if 0 < ret then cs else []
    closed calls = [] ∧ opened calls = [ret].filter (· ≠ -1) ∧ WritesWithin [] calls := by
  have hclosed : (Call.openat dirfd path ret).closed = none := rfl
  dsimp only
  rw [closed_cons, opened_cons, opened_openat, hclosed]
  by_cases h : 0 < ret
  · rw [if_pos h]
    refine ⟨hc, by rw [ho, List.append_nil], fun _ hfd => (by cases hfd), ?_⟩
    rw [opened_of_pos h]
    exact hw
  · rw [if_neg h]
    exact ⟨rfl, by simp [opened], fun _ hfd => (by cases hfd), trivial⟩

lemma initEdge_calls (pin : GpioPinSysfs) (x : InitReturns) :
    closed (initEdge pin x).2 = [] ∧ opened (initEdge pin x).2 = [x.edge].filter (· ≠ -1) ∧
      WritesWithin [] (initEdge pin x).2 := by
  refine openat_write ?_ ?_ ?_ <;> unfold sysfsSetEdge <;> cases edgeText pin.edge <;>
    simp [closed, Call.closed, opened, Call.opened, WritesWithin, Call.written]

lemma initActive_calls (pin : GpioPinSysfs) (x : InitReturns) :
    closed (initActive pin x).2 = [] ∧
      opened (initActive pin x).2 =
        (if pin.active_low = .yes then [x.active_low] else []).filter (· ≠ -1) ∧
      WritesWithin [] (initActive pin x).2 := by
  unfold initActive
  split
  · refine openat_write ?_ ?_ ?_ <;>
      simp [sysfsSetActiveLow, closed, Call.closed, opened, Call.opened, WritesWithin, Call.written]
  · exact ⟨rfl, rfl, trivial⟩

lemma readCalls_calls (value_fd : ℤ) (r : SysfsRead) :
    closed (readCalls value_fd r) = [] ∧ opened (readCalls value_fd r) = [] ∧
      WritesWithin [] (readCalls value_fd r) := by
  cases r <;> simp [readCalls, closed, Call.closed, opened, Call.opened, WritesWithin, Call.written]

lemma closed_initCalls : closed (initCalls g pin x) = [] := by
  simp only [initCalls, closed_cons, closed_append, (initEdge_calls pin x).1,
    (initActive_calls pin x).1, (readCalls_calls x.value x.read).1]
  rfl

lemma opened_initCalls : opened (initCalls g pin x) =
    [x.gpio_dir].filter (· ≠ -1) ++ (filesOf pin x).filter (· ≠ -1) := by
  have hwrite : ∀ (fd : ℤ) (text : Str) (ret : ℤ), (Call.write fd text ret).opened = none :=
    fun _ _ _ => rfl
  have hfiles : filesOf pin x = [x.direction] ++ ([x.edge] ++
      (if pin.active_low = .yes then [x.active_low] else []) ++ [x.value]) := rfl
  rw [hfiles, List.filter_append, List.filter_append, List.filter_append]
  simp only [initCalls, opened_cons, opened_append, (initEdge_calls pin x).2.1,
    (initActive_calls pin x).2.1, (readCalls_calls x.value x.read).2.1, opened_openat, hwrite]
  simp

lemma writesWithin_initCalls (hd : 0 < x.direction) :
    WritesWithin [g.efd_] (initCalls g pin x) := by
  have hfiles : WritesWithin []
      ((initEdge pin x).2 ++ (initActive pin x).2 ++
        .openat x.gpio_dir (bytes "value") x.value :: readCalls x.value x.read) := by
    refine ((initEdge_calls pin x).2.2.append (initActive_calls pin x).2.2).append ?_
    exact ⟨fun _ hfd => (by cases hfd),
      (readCalls_calls x.value x.read).2.2.mono (List.nil_subset _)⟩
  refine ⟨fun fd hfd => by simpa [Call.written] using hfd.symm, fun _ hfd => (by cases hfd),
    fun _ hfd => (by cases hfd), fun fd hfd => ?_, hfiles.mono (List.nil_subset _)⟩
  rw [opened_of_pos hd]
  exact List.mem_append_left _ (by simpa [Call.written] using hfd.symm)

lemma left_mandatory (h : Mandatory x) : left (initSysfsPin g pin x).calls =
    ((filesOf pin x).filter (· ≠ -1)).filter (· ≠ x.gpio_dir) := by
  have hback : opened [.close x.gpio_dir] = [] ∧ closed [.close x.gpio_dir] = [x.gpio_dir] :=
    ⟨rfl, rfl⟩
  rw [initSysfsPin_mandatory h, left, opened_append, closed_append, opened_initCalls,
    closed_initCalls, hback.1, hback.2]
  simp [h.gpio_dir]

lemma closed_of_first {cs ds : List Call} (h : cs <+: ds) (hd : closed ds = []) :
    closed cs = [] := by
  obtain ⟨es, rfl⟩ := h
  rw [closed_append, List.append_eq_nil_iff] at hd
  exact hd.1

lemma initSysfsPin_fails (g : Globals) (pin : GpioPinSysfs) (h : ¬ ExportFails x)
    (hd : x.gpio_dir ≠ -1) (hm : ¬ Mandatory x) :
    (initSysfsPin g pin x).ret = -1 ∧ closed (initSysfsPin g pin x).calls = [] ∧
      x.gpio_dir ∈ opened (initSysfsPin g pin x).calls ∧
      ∃ cs, (initSysfsPin g pin x).calls = .write g.efd_ (decimal pin.system) x.exported :: cs := by
  by_cases hdir : 0 < x.direction
  · obtain ⟨hret, cs, hcs, hp⟩ := initSysfsPin_later g pin h hd hdir hm
    refine ⟨hret, closed_of_first hp closed_initCalls, ?_, _, hcs⟩
    rw [hcs]
    simp [opened, Call.opened, hd]
  · rw [initSysfsPin_direction h hd hdir]
    refine ⟨rfl, rfl, ?_, _, rfl⟩
    simp [opened, Call.opened, hd]

lemma initSysfsPin_not_mandatory (g : Globals) (pin : GpioPinSysfs) (h : ¬ Mandatory x) :
    (initSysfsPin g pin x).ret = -1 ∧ closed (initSysfsPin g pin x).calls = [] := by
  by_cases hexp : ExportFails x
  · rw [initSysfsPin_export hexp]
    exact ⟨rfl, rfl⟩
  by_cases hd : x.gpio_dir = -1
  · rw [initSysfsPin_dir hexp hd]
    exact ⟨rfl, rfl⟩
  · obtain ⟨hret, hclosed, -⟩ := initSysfsPin_fails g pin hexp hd h
    exact ⟨hret, hclosed⟩

lemma mandatory_of_ret (h : (initSysfsPin g pin x).ret = 0) : Mandatory x := by
  by_contra hm
  exact absurd (h.symm.trans (initSysfsPin_not_mandatory g pin hm).1) (by decide)

lemma initSysfsPin_writes : WritesWithin [g.efd_] (initSysfsPin g pin x).calls := by
  have hshort : ∀ cs : List Call, (∀ c ∈ cs, c.written = none) →
      WritesWithin [g.efd_] (.write g.efd_ (decimal pin.system) x.exported :: cs) := fun cs hcs =>
    ⟨fun fd hfd => by simpa [Call.written] using hfd.symm, .of_not_written hcs⟩
  by_cases hexp : ExportFails x
  · rw [initSysfsPin_export hexp]
    exact hshort [] (by simp)
  by_cases hd : x.gpio_dir = -1
  · rw [initSysfsPin_dir hexp hd]
    exact hshort _ (by simp [Call.written])
  by_cases hdir : 0 < x.direction
  · by_cases hm : Mandatory x
    · rw [initSysfsPin_mandatory hm]
      exact (writesWithin_initCalls hdir).append ⟨fun _ hfd => (by cases hfd), trivial⟩
    · obtain ⟨-, cs, -, hp⟩ := initSysfsPin_later g pin hexp hd hdir hm
      exact (writesWithin_initCalls hdir).first hp
  · rw [initSysfsPin_direction hexp hd hdir]
    exact hshort _ (by simp [Call.written])

end Gpiod.SysfsPin
