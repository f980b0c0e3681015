import Mathlib.Data.List.Nodup
import Mathlib.Data.Int.Notation
import Mathlib.Tactic.Common

/-!
System calls on descriptors, and the table of the descriptors that are open.

A call is kept with what it returned, and the table with the owner that each descriptor was
opened for. The kernel gives out descriptors that are not open.
-/

namespace Gpiod.Descriptors

variable {ι : Type*}

inductive Call
  | write (fd : ℤ) (text : List UInt8) (ret : ℤ)
  /-- what is in a pipe or a socket goes to another descriptor -/
  | splice (fd_in fd_out num ret : ℤ)
  | openat (dirfd : ℤ) (path : List UInt8) (ret : ℤ)
  /-- one whose argument gives a new descriptor back -/
  | ioctl (fd ret new : ℤ)
  | lseek (fd : ℤ)
  | read (fd : ℤ)
  | close (fd : ℤ)
  deriving DecidableEq, Repr

def Call.opened : Call → Option ℤ
  | .openat _ _ ret => if ret = -1 then none else some ret
  | .ioctl _ ret new => if ret = -1 then none else some new
  | _ => none

def Call.closed : Call → Option ℤ
  | .close fd => some fd
  | _ => none

/-- The descriptor that a `write` goes to. -/
def Call.written : Call → Option ℤ
  | .write fd _ _ => some fd
  | _ => none

/-- The descriptors of a `splice`. -/
def Call.spliced : Call → Option (ℤ × ℤ)
  | .splice fd_in fd_out _ _ => some (fd_in, fd_out)
  | _ => none

def opened (cs : List Call) : List ℤ := cs.filterMap Call.opened

def closed (cs : List Call) : List ℤ := cs.filterMap Call.closed

lemma opened_append (cs ds : List Call) : opened (cs ++ ds) = opened cs ++ opened ds :=
  List.filterMap_append

lemma closed_append (cs ds : List Call) : closed (cs ++ ds) = closed cs ++ closed ds :=
  List.filterMap_append

/-- The descriptors that are open, each with its owner. -/
abbrev Table (ι : Type*) := List (ℤ × ι)

/-- The table after a call made for an owner. -/
def Table.call (t : Table ι) (i : ι) (c : Call) : Table ι :=
  match c.opened, c.closed with
  | some fd, _ => (fd, i) :: t
  | none, some fd => t.filter fun e => e.1 ≠ fd
  | none, none => t

/-- The table after calls made for owners. -/
def Table.after (t : Table ι) : List (ι × Call) → Table ι
  | [] => t
  | (i, c) :: cs => (t.call i c).after cs

def callsOf (i : ι) (cs : List Call) : List (ι × Call) := cs.map fun c => (i, c)

/-- Every descriptor given out is one that is not open. -/
def FreshOpens (t : Table ι) : List (ι × Call) → Prop
  | [] => True
  | (i, c) :: cs => (∀ fd ∈ c.opened, 0 ≤ fd ∧ fd ∉ t.map Prod.fst) ∧ FreshOpens (t.call i c) cs

instance : (t : Table ι) → (cs : List (ι × Call)) → Decidable (FreshOpens t cs)
  | _, [] => isTrue trivial
  | t, (i, c) :: cs =>
    have := instDecidableFreshOpens (t.call i c) cs
    inferInstanceAs (Decidable (_ ∧ _))

variable {t : Table ι} {i : ι} {cs ds : List Call}

@[simp] lemma after_nil (t : Table ι) : t.after [] = t := rfl
@[simp] lemma after_cons (t : Table ι) (i : ι) (c : Call) (cs : List (ι × Call)) :
    t.after ((i, c) :: cs) = (t.call i c).after cs := rfl

lemma after_append (t : Table ι) (cs ds : List (ι × Call)) :
    t.after (cs ++ ds) = (t.after cs).after ds := by
  induction cs generalizing t with
  | nil => rfl
  | cons c cs ih => exact ih _

lemma freshOpens_append {cs ds : List (ι × Call)} :
    FreshOpens t (cs ++ ds) ↔ FreshOpens t cs ∧ FreshOpens (t.after cs) ds := by
  induction cs generalizing t with
  | nil => simp [FreshOpens]
  | cons c cs ih =>
    obtain ⟨i, c⟩ := c
    simp only [List.cons_append, FreshOpens, ih, after_cons, and_assoc]

lemma callsOf_append (i : ι) (cs ds : List Call) :
    callsOf i (cs ++ ds) = callsOf i cs ++ callsOf i ds := List.map_append

/-! ### Calls that only open, and calls that only close -/

lemma call_of_not_closed (t : Table ι) (i : ι) {c : Call} (h : c.closed = none) :
    t.call i c = (c.opened.toList.map fun fd => (fd, i)) ++ t := by
  unfold Table.call
  rw [h]
  cases c.opened <;> rfl

lemma opened_cons (c : Call) (cs : List Call) :
    opened (c :: cs) = c.opened.toList ++ opened cs := by
  unfold opened
  cases h : c.opened <;> simp [h]

lemma closed_cons (c : Call) (cs : List Call) :
    closed (c :: cs) = c.closed.toList ++ closed cs := by
  unfold closed
  cases h : c.closed <;> simp [h]

lemma mem_after_of_not_closed (h : closed cs = []) {e : ℤ × ι} :
    e ∈ t.after (callsOf i cs) ↔ (e.2 = i ∧ e.1 ∈ opened cs) ∨ e ∈ t := by
  induction cs generalizing t with
  | nil => simp [callsOf, opened]
  | cons c cs ih =>
    rw [closed_cons, List.append_eq_nil_iff] at h
    have hc : c.closed = none := by simpa using h.1
    have hstep : t.after (callsOf i (c :: cs)) = (t.call i c).after (callsOf i cs) := rfl
    rw [hstep, ih h.2, opened_cons, call_of_not_closed t i hc]
    obtain ⟨fd, j⟩ := e
    simp only [List.mem_append, List.mem_map, Prod.mk.injEq]
    constructor
    · rintro (⟨rfl, hfd⟩ | ⟨x, hx, rfl, rfl⟩ | ht)
      · exact Or.inl ⟨rfl, Or.inr hfd⟩
      · exact Or.inl ⟨rfl, Or.inl hx⟩
      · exact Or.inr ht
    · rintro (⟨rfl, hx | hfd⟩ | ht)
      · exact Or.inr (Or.inl ⟨fd, hx, rfl, rfl⟩)
      · exact Or.inl ⟨rfl, hfd⟩
      · exact Or.inr (Or.inr ht)

lemma FreshOpens.opened (h : FreshOpens t (callsOf i cs)) (hc : closed cs = []) :
    (opened cs).Nodup ∧ ∀ fd ∈ opened cs, 0 ≤ fd ∧ fd ∉ t.map Prod.fst := by
  induction cs generalizing t with
  | nil => simp [Descriptors.opened]
  | cons c cs ih =>
    rw [closed_cons, List.append_eq_nil_iff] at hc
    have hn : c.closed = none := by simpa using hc.1
    obtain ⟨hhead, hrest⟩ : (∀ fd ∈ c.opened, 0 ≤ fd ∧ fd ∉ t.map Prod.fst) ∧
        FreshOpens (t.call i c) (callsOf i cs) := h
    obtain ⟨hnodup, hfresh⟩ := ih hrest hc.2
    rw [call_of_not_closed t i hn] at hfresh
    rw [opened_cons]
    cases ho : c.opened with
    | none =>
      rw [ho] at hfresh
      exact ⟨hnodup, hfresh⟩
    | some fd =>
      rw [ho] at hfresh hhead
      have hne : fd ∉ Descriptors.opened cs := fun hmem => (hfresh fd hmem).2 (by simp)
      refine ⟨List.nodup_cons.mpr ⟨hne, hnodup⟩, fun x hx => ?_⟩
      rcases List.mem_cons.mp hx with rfl | hx
      · exact hhead x rfl
      · obtain ⟨hpos, hnot⟩ := hfresh x hx
        exact ⟨hpos, fun hmem => hnot (List.mem_cons_of_mem _ hmem)⟩

lemma mem_after_of_not_opened (h : opened cs = []) {e : ℤ × ι} :
    e ∈ t.after (callsOf i cs) ↔ e ∈ t ∧ e.1 ∉ closed cs := by
  induction cs generalizing t with
  | nil => simp [callsOf, closed]
  | cons c cs ih =>
    rw [opened_cons, List.append_eq_nil_iff] at h
    have ho : c.opened = none := by simpa using h.1
    have hstep : t.after (callsOf i (c :: cs)) = (t.call i c).after (callsOf i cs) := rfl
    rw [hstep, ih h.2, closed_cons]
    unfold Table.call
    rw [ho]
    cases c.closed with
    | none => simp
    | some fd => simp [and_assoc]

lemma nodup_after {cs : List (ι × Call)} (ht : (t.map Prod.fst).Nodup) (h : FreshOpens t cs) :
    ((t.after cs).map Prod.fst).Nodup := by
  induction cs generalizing t with
  | nil => exact ht
  | cons c cs ih =>
    obtain ⟨i, c⟩ := c
    obtain ⟨hhead, hrest⟩ := h
    refine ih ?_ hrest
    unfold Table.call
    cases ho : c.opened with
    | some fd => exact List.nodup_cons.mpr ⟨(hhead fd ho).2, ht⟩
    | none =>
      cases c.closed with
      | none => exact ht
      | some fd => exact ht.sublist (List.filter_sublist.map Prod.fst)

/-! ### Calls that open files and then close some of these -/

/-- The descriptors that calls open and leave open. -/
def left (cs : List Call) : List ℤ := (opened cs).filter fun fd => fd ∉ closed cs

/-- First the calls open only, then they close some of what they have opened. -/
inductive OpensFirst : List Call → Prop
  | mk {front back : List Call} (hf : closed front = []) (hb : opened back = [])
      (hown : closed back ⊆ opened front) : OpensFirst (front ++ back)

lemma OpensFirst.of_not_closed (h : closed cs = []) : OpensFirst cs := by
  have hcs : OpensFirst (cs ++ []) := .mk h rfl (List.nil_subset _)
  rwa [List.append_nil] at hcs

lemma OpensFirst.fresh (h : OpensFirst cs) (hfresh : FreshOpens t (callsOf i cs)) :
    ∀ fd ∈ opened cs, 0 ≤ fd ∧ fd ∉ t.map Prod.fst := by
  obtain ⟨hf, hb, -⟩ := h
  rw [callsOf_append, freshOpens_append] at hfresh
  rw [opened_append, hb, List.append_nil]
  exact (hfresh.1.opened hf).2

/-- **The table after such calls**: what it was, and what they leave open. -/
theorem OpensFirst.mem_after (h : OpensFirst cs) (hfresh : FreshOpens t (callsOf i cs))
    {e : ℤ × ι} : e ∈ t.after (callsOf i cs) ↔ e ∈ t ∨ e.2 = i ∧ e.1 ∈ left cs := by
  have hdisj := h.fresh hfresh
  obtain ⟨hf, hb, hown⟩ := h
  rw [opened_append, hb, List.append_nil] at hdisj
  rw [callsOf_append, after_append, mem_after_of_not_opened hb, mem_after_of_not_closed hf, left,
    opened_append, closed_append, hf, hb, List.append_nil, List.nil_append, List.mem_filter,
    decide_eq_true_iff]
  constructor
  · rintro ⟨⟨hi, ho⟩ | ht, hc⟩
    · exact Or.inr ⟨hi, ho, hc⟩
    · exact Or.inl ht
  · rintro (ht | ⟨hi, ho, hc⟩)
    · exact ⟨Or.inr ht, fun hc => (hdisj _ (hown hc)).2 (List.mem_map_of_mem ht)⟩
    · exact ⟨Or.inl ⟨hi, ho⟩, hc⟩

/-! ### Calls on descriptors of their own -/

/-- The descriptors of the caller behind a call. -/
def own (fds : List ℤ) (c : Call) : List ℤ :=
  c.opened.toList ++ fds.filter fun fd => c.closed ≠ some fd

def ownAfter (fds : List ℤ) (cs : List Call) : List ℤ := cs.foldl own fds

/-- The calls write to and close only what the caller has, or what they have opened and not closed
since; what they splice comes from there as well, and goes to `out`. -/
def OnOwn (out : ℤ) : List ℤ → List Call → Prop
  | _, [] => True
  | fds, c :: cs =>
    (∀ fd ∈ c.written, fd ∈ fds) ∧ (∀ fd ∈ c.closed, fd ∈ fds) ∧
      (∀ e ∈ c.spliced, e.1 ∈ fds ∧ e.2 = out) ∧ OnOwn out (own fds c) cs

/-- Beside those of the table `t`, the descriptors open are `fds`, and they are one owner's. -/
structure Owns (t : Table ι) (i : ι) (fds : List ℤ) (t' : Table ι) : Prop where
  mem : ∀ e, e ∈ t' ↔ e ∈ t ∨ e.2 = i ∧ e.1 ∈ fds
  apart : ∀ fd ∈ fds, fd ∉ t.map Prod.fst

section Own

variable {t' : Table ι} {fds : List ℤ} {c : Call} {out : ℤ}

lemma mem_own {fd : ℤ} : fd ∈ own fds c ↔ c.opened = some fd ∨ fd ∈ fds ∧ c.closed ≠ some fd := by
  simp [own]

@[simp] lemma ownAfter_cons (fds : List ℤ) (c : Call) (cs : List Call) :
    ownAfter fds (c :: cs) = ownAfter (own fds c) cs := rfl

lemma ownAfter_append (fds : List ℤ) (cs ds : List Call) :
    ownAfter fds (cs ++ ds) = ownAfter (ownAfter fds cs) ds := List.foldl_append

lemma onOwn_append :
    OnOwn out fds (cs ++ ds) ↔ OnOwn out fds cs ∧ OnOwn out (ownAfter fds cs) ds := by
  induction cs generalizing fds with
  | nil => simp [OnOwn, ownAfter]
  | cons c cs ih => simp only [List.cons_append, OnOwn, ih, ownAfter_cons, and_assoc]

lemma owns_nil (t : Table ι) (i : ι) : Owns t i [] t := ⟨fun e => by simp, fun _ h => by cases h⟩

lemma Call.not_closed (h : c.opened ≠ none) : c.closed = none := by
  cases c <;> first | rfl | exact absurd rfl h

lemma Owns.call (h : Owns t i fds t') (hc : ∀ fd ∈ c.closed, fd ∈ fds)
    (hfresh : ∀ fd ∈ c.opened, 0 ≤ fd ∧ fd ∉ t'.map Prod.fst) :
    Owns t i (own fds c) (t'.call i c) := by
  have hsub : ∀ fd ∈ t.map Prod.fst, fd ∈ t'.map Prod.fst := fun fd hfd => by
    obtain ⟨e, he, rfl⟩ := List.mem_map.mp hfd
    exact List.mem_map_of_mem ((h.mem e).mpr (Or.inl he))
  refine ⟨fun e => ?_, fun fd hfd => ?_⟩
  · rw [mem_own]
    cases ho : c.opened with
    | some fd =>
      have hn := Call.not_closed (c := c) (by simp [ho])
      rw [call_of_not_closed t' i hn, ho, hn]
      obtain ⟨fd', j⟩ := e
      simp only [Option.toList_some, List.map_cons, List.map_nil, List.cons_append,
        List.nil_append, List.mem_cons, Prod.mk.injEq, h.mem, Option.some.injEq, ne_eq,
        reduceCtorEq, not_false_eq_true, and_true]
      tauto
    | none =>
      unfold Table.call
      rw [ho]
      cases hcl : c.closed with
      | none => simp [h.mem]
      | some fd =>
        have hown := h.apart fd (hc fd hcl)
        simp only [List.mem_filter, h.mem, ne_eq, decide_eq_true_eq, reduceCtorEq, false_or,
          Option.some.injEq]
        constructor
        · rintro ⟨ht | ⟨hi, hfd⟩, hne⟩
          · exact Or.inl ht
          · exact Or.inr ⟨hi, hfd, Ne.symm hne⟩
        · rintro (ht | ⟨hi, hfd, hne⟩)
          · exact ⟨Or.inl ht, fun he => hown (he ▸ List.mem_map_of_mem ht)⟩
          · exact ⟨Or.inr ⟨hi, hfd⟩, Ne.symm hne⟩
  · rcases mem_own.mp hfd with ho | ⟨hin, -⟩
    · exact fun hmem => (hfresh fd ho).2 (hsub fd hmem)
    · exact h.apart fd hin

/-- **The table after calls on descriptors of their own**: what it was, and what they leave. -/
theorem OnOwn.owns (h : OnOwn out fds cs) (hown : Owns t i fds t')
    (hfresh : FreshOpens t' (callsOf i cs)) :
    Owns t i (ownAfter fds cs) (t'.after (callsOf i cs)) := by
  induction cs generalizing fds t' with
  | nil => exact hown
  | cons c cs ih => exact ih h.2.2.2 (hown.call h.2.1 hfresh.1) hfresh.2

lemma OnOwn.apart (h : OnOwn out fds cs) (hown : Owns t i fds t')
    (hfresh : FreshOpens t' (callsOf i cs)) {fd : ℤ} (hc : c ∈ cs)
    (hfd : c.written = some fd ∨ c.closed = some fd) : fd ∉ t.map Prod.fst := by
  induction cs generalizing fds t' with
  | nil => cases hc
  | cons d cs ih =>
    obtain ⟨hw, hcl, -, hrest⟩ := h
    rcases List.mem_cons.mp hc with rfl | hc
    · exact hown.apart fd (hfd.elim (hw fd) (hcl fd))
    · exact ih hrest (hown.call hcl hfresh.1) hfresh.2 hc

lemma onOwn_close {fd : ℤ} (hfd : fd ∈ fds) (h : OnOwn out (own fds (.close fd)) cs) :
    OnOwn out fds (.close fd :: cs) := by
  refine ⟨(fun _ he => by cases he), fun d hd => ?_, (fun _ he => by cases he), h⟩
  obtain rfl := Option.some.inj hd
  exact hfd

/-- Calls that only open are on descriptors of their own. -/
lemma OnOwn.of_opens (hc : closed cs = []) (hw : ∀ c ∈ cs, c.written = none ∧ c.spliced = none) :
    OnOwn out fds cs := by
  induction cs generalizing fds with
  | nil => trivial
  | cons c cs ih =>
    rw [closed_cons, List.append_eq_nil_iff] at hc
    have hn : c.closed = none := by simpa using hc.1
    rw [List.forall_mem_cons] at hw
    exact ⟨by simp [hw.1.1], by simp [hn], by simp [hw.1.2], ih hc.2 hw.2⟩

lemma mem_ownAfter_of_opens (hc : closed cs = []) {fd : ℤ} :
    fd ∈ ownAfter fds cs ↔ fd ∈ opened cs ∨ fd ∈ fds := by
  induction cs generalizing fds with
  | nil => simp [ownAfter, opened]
  | cons c cs ih =>
    rw [closed_cons, List.append_eq_nil_iff] at hc
    have hn : c.closed = none := by simpa using hc.1
    rw [ownAfter_cons, ih hc.2, mem_own, opened_cons, hn]
    simp only [ne_eq, reduceCtorEq, not_false_eq_true, and_true, List.mem_append, Option.mem_toList]
    tauto

lemma mem_ownAfter_of_closes (ho : opened cs = []) {fd : ℤ} :
    fd ∈ ownAfter fds cs ↔ fd ∈ fds ∧ fd ∉ closed cs := by
  induction cs generalizing fds with
  | nil => simp [ownAfter, closed]
  | cons c cs ih =>
    rw [opened_cons, List.append_eq_nil_iff] at ho
    have hn : c.opened = none := by simpa using ho.1
    rw [ownAfter_cons, ih ho.2, mem_own, closed_cons, hn, List.mem_append, Option.mem_toList,
      not_or]
    simp only [reduceCtorEq, false_or, ne_eq, and_assoc]

/-- Calls that write and splice only. -/
lemma quiet_calls (h : ∀ c ∈ cs, c.opened = none ∧ c.closed = none ∧
      (∀ fd ∈ c.written, fd ∈ fds) ∧ ∀ e ∈ c.spliced, e.1 ∈ fds ∧ e.2 = out) :
    OnOwn out fds cs ∧ ownAfter fds cs = fds ∧ t'.after (callsOf i cs) = t' := by
  induction cs with
  | nil => exact ⟨trivial, rfl, rfl⟩
  | cons c cs ih =>
    rw [List.forall_mem_cons] at h
    obtain ⟨⟨ho, hc, hw, hs⟩, hrest⟩ := h
    obtain ⟨hown, hafter, htable⟩ := ih hrest
    have hsame : own fds c = fds := by simp [own, ho, hc]
    have hcall : t'.call i c = t' := by
      unfold Table.call
      rw [ho, hc]
    refine ⟨⟨hw, by simp [hc], hs, by rwa [hsame]⟩, by rwa [ownAfter_cons, hsame], ?_⟩
    change (t'.call i c).after (callsOf i cs) = t'
    rwa [hcall]

end Own

/-! ### Writes -/

/-- The calls write to the given descriptors and to those they have opened before. -/
def WritesWithin (fds : List ℤ) : List Call → Prop
  | [] => True
  | c :: cs => (∀ fd ∈ c.written, fd ∈ fds) ∧ WritesWithin (c.opened.toList ++ fds) cs

lemma WritesWithin.of_not_written {fds : List ℤ} (h : ∀ c ∈ cs, c.written = none) :
    WritesWithin fds cs := by
  induction cs generalizing fds with
  | nil => trivial
  | cons c cs ih =>
    rw [List.forall_mem_cons] at h
    refine ⟨fun fd hfd => ?_, ih h.2⟩
    rw [h.1] at hfd
    cases hfd

lemma WritesWithin.mono {fds fds' : List ℤ} (h : WritesWithin fds cs) (hs : fds ⊆ fds') :
    WritesWithin fds' cs := by
  induction cs generalizing fds fds' with
  | nil => trivial
  | cons c cs ih =>
    refine ⟨fun fd hfd => hs (h.1 fd hfd), ih h.2 fun fd hfd => ?_⟩
    rcases List.mem_append.mp hfd with hfd | hfd
    · exact List.mem_append_left _ hfd
    · exact List.mem_append_right _ (hs hfd)

lemma WritesWithin.append {fds : List ℤ} (h : WritesWithin fds cs) (hd : WritesWithin fds ds) :
    WritesWithin fds (cs ++ ds) := by
  induction cs generalizing fds with
  | nil => exact hd
  | cons c cs ih => exact ⟨h.1, ih h.2 (hd.mono (List.subset_append_right _ _))⟩

lemma WritesWithin.first {fds : List ℤ} (h : WritesWithin fds ds) (hp : cs <+: ds) :
    WritesWithin fds cs := by
  induction cs generalizing fds ds with
  | nil => trivial
  | cons c cs ih =>
    obtain ⟨ds, rfl⟩ := hp
    exact ⟨h.1, ih h.2 (List.prefix_append cs ds)⟩

lemma WritesWithin.mem {fds : List ℤ} (h : WritesWithin fds cs) {c : Call} (hc : c ∈ cs) {fd : ℤ}
    (hw : c.written = some fd) : fd ∈ fds ∨ fd ∈ opened cs := by
  induction cs generalizing fds with
  | nil => cases hc
  | cons d cs ih =>
    rw [opened_cons]
    rcases List.mem_cons.mp hc with rfl | hc
    · exact Or.inl (h.1 fd hw)
    · rcases ih h.2 hc with hfd | hfd
      · rcases List.mem_append.mp hfd with hfd | hfd
        · exact Or.inr (List.mem_append_left _ hfd)
        · exact Or.inl hfd
      · exact Or.inr (List.mem_append_right _ hfd)

end Gpiod.Descriptors
