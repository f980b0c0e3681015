import Gpiod.Pin
import Gpiod.Table

/-!
The discovery of the gpiochips, as `init_gpio_chips` of `gpiod-chip.c` does it in the uapi
build.

The directory is read entry by entry, in the order the kernel gives. The loop is left at the
first chip whose initialisation fails, so the chips listed behind it are not found.
-/

namespace Gpiod.Chips

open Gpiod.Pin Gpiod.Table

structure GpioChip where
  base : ℕ
  ngpio : ℕ
  label : Str
  name : Str
  fd : ℤ
  deriving DecidableEq, Repr

/-- What `GPIO_GET_CHIPINFO_IOCTL` stores. -/
structure GpiochipInfo where
  name : Str
  label : Str
  lines : ℕ
  deriving DecidableEq, Repr

/-- A directory entry, and what the system calls of its initialisation return. -/
structure DirEntry where
  d_name : Str
  openat : ℤ
  ioctl : ℤ
  info : GpiochipInfo
  deriving DecidableEq, Repr

def checkPrefix (str pre : Str) : Bool :=
  decide (pre.length < str.length) && strncmpEq str pre pre.length

/-- `uapi_init_gpio_chip`; `ngpio` has sixteen bits. -/
def uapiInitGpioChip (ent : DirEntry) : Option GpioChip :=
  if ent.openat < 0 then none
  else if ent.ioctl = -1 then none
  else some ⟨0, ent.info.lines % 0x10000, ent.info.label, ent.info.name, ent.openat⟩

/-- The hash table of the chips, under their names. -/
abbrev StoredChips := List (Str × GpioChip)

/-- The loop over the entries. -/
def readEntries (stored_chips : StoredChips) : List DirEntry → StoredChips
  | [] => stored_chips
  | ent :: ents =>
    if checkPrefix ent.d_name (bytes "gpiochip") then
      match uapiInitGpioChip ent with
      | none => stored_chips
      | some chip => readEntries ((chip.name, chip) :: stored_chips) ents
    else readEntries stored_chips ents

/-- `init_gpio_chips`: the result, and the table; `none` is a directory that is not opened. -/
def initGpioChips : Option (List DirEntry) → ℤ × StoredChips
  | none => (-1, [])
  | some ents => (0, readEntries [] ents)

def getChip (stored_chips : StoredChips) (name : Str) : Option GpioChip := find stored_chips name

/-- The entries of a directory: the names are distinct, and a chip that is initialised has the
name of its entry. -/
structure Listing where
  entries : List DirEntry
  nodup : (entries.map DirEntry.d_name).Nodup
  named : ∀ ent ∈ entries, ∀ chip, uapiInitGpioChip ent = some chip → chip.name = ent.d_name

/-- The name begins with `gpiochip`, and is longer. -/
structure ChipName (name : Str) : Prop where
  isPrefix : bytes "gpiochip" <+: name
  longer : (bytes "gpiochip").length < name.length

def isChip (ent : DirEntry) : Bool := checkPrefix ent.d_name (bytes "gpiochip")

def succeeds (ent : DirEntry) : Bool := (uapiInitGpioChip ent).isSome

/-- The chip of this name is found. -/
def Found (ents : List DirEntry) (name : Str) : Prop :=
  getChip (initGpioChips (some ents)).2 name ≠ none

/-- The chips found are exactly those whose initialisation succeeds. -/
def Discovered (l : Listing) : Prop :=
  ∀ name, Found l.entries name ↔
    ∃ ent ∈ l.entries, ChipName ent.d_name ∧ succeeds ent = true ∧ ent.d_name = name

/-- Every order of the entries gives the same chips. -/
def OrderFree (l : Listing) : Prop :=
  ∀ ents, ents.Perm l.entries → ∀ name, Found ents name ↔ Found l.entries name

/-- No chip stands behind one that fails. -/
def NoneBehind (l : Listing) : Prop :=
  (l.entries.filter isChip).Pairwise fun ent ent' => succeeds ent' = true → succeeds ent = true

/-! ### Beginnings and choices of a list -/

section Lists

variable {α : Type*} {p : α → Bool}

lemma takeWhile_prefix_filter (l : List α) : l.takeWhile p <+: l.filter p := by
  induction l with
  | nil => exact List.prefix_refl _
  | cons a l ih =>
    cases hp : p a with
    | false =>
      rw [List.takeWhile_cons_of_neg (by simp [hp])]
      exact List.nil_prefix
    | true =>
      rw [List.takeWhile_cons_of_pos hp, List.filter_cons_of_pos hp]
      exact (List.prefix_cons_inj a).mpr ih

lemma takeWhile_eq_filter_iff (l : List α) :
    l.takeWhile p = l.filter p ↔ l.Pairwise fun a b => p b = true → p a = true := by
  induction l with
  | nil => simp
  | cons a l ih =>
    rw [List.pairwise_cons]
    cases hp : p a with
    | false =>
      rw [List.takeWhile_cons_of_neg (by simp [hp]), List.filter_cons_of_neg (by simp [hp])]
      constructor
      · intro h
        have hnone : ∀ b ∈ l, p b ≠ true := by
          simpa using List.filter_eq_nil_iff.mp h.symm
        refine ⟨fun b hb hpb => absurd hpb (hnone b hb), ?_⟩
        exact List.Pairwise.imp_of_mem (R := fun _ _ => True)
          (fun _ hb _ hpb => absurd hpb (hnone _ hb)) (List.pairwise_of_forall fun _ _ => trivial)
      · rintro ⟨h, -⟩
        exact (List.filter_eq_nil_iff.mpr fun b hb hpb => absurd (h b hb hpb) (by simp)).symm
    | true =>
      rw [List.takeWhile_cons_of_pos hp, List.filter_cons_of_pos hp, List.cons_inj_right, ih]
      exact ⟨fun h => ⟨fun _ _ _ => rfl, h⟩, And.right⟩

end Lists

/-! ### The chips found -/

lemma isChip_iff (ent : DirEntry) : isChip ent = true ↔ ChipName ent.d_name := by
  rw [isChip, checkPrefix, strncmpEq_comm, strncmpEq_length, Bool.and_eq_true, decide_eq_true_eq,
    List.isPrefixOf_iff_prefix]
  exact ⟨fun h => ⟨h.2, h.1⟩, fun h => ⟨h.longer, h.isPrefix⟩⟩

/-- A chip that is initialised has the name of its entry. -/
def Named (ents : List DirEntry) : Prop :=
  ∀ ent ∈ ents, ∀ chip, uapiInitGpioChip ent = some chip → chip.name = ent.d_name

/-- **The loop** adds the chips up to the first one that fails. -/
lemma find_readEntries {ents : List DirEntry} (hn : Named ents) (t : StoredChips) (name : Str) :
    find (readEntries t ents) name ≠ none ↔ find t name ≠ none ∨
      ∃ ent ∈ (ents.filter isChip).takeWhile succeeds, ent.d_name = name := by
  induction ents generalizing t with
  | nil => simp [readEntries]
  | cons ent ents ih =>
    obtain ⟨hname, hrest⟩ := List.forall_mem_cons.mp hn
    rw [readEntries]
    cases hc : isChip ent with
    | false =>
      have hpre : checkPrefix ent.d_name (bytes "gpiochip") = false := hc
      rw [hpre, if_neg (by decide), List.filter_cons_of_neg (by simp [hc])]
      exact ih hrest t
    | true =>
      have hpre : checkPrefix ent.d_name (bytes "gpiochip") = true := hc
      rw [hpre, if_pos rfl, List.filter_cons_of_pos hc]
      cases hi : uapiInitGpioChip ent with
      | none =>
        have hs : succeeds ent = false := by rw [succeeds, hi, Option.isSome_none]
        rw [List.takeWhile_cons_of_neg (by simp [hs])]
        simp
      | some chip =>
        have hs : succeeds ent = true := by rw [succeeds, hi, Option.isSome_some]
        rw [List.takeWhile_cons_of_pos hs, ih hrest, find_cons, hname chip hi]
        split
        · next heq =>
          have hn : ent.d_name = name := heq
          simp [hn]
        · next hne =>
          simp only [List.mem_cons, exists_eq_or_imp, hne, false_or]

lemma found_iff {ents : List DirEntry} (hn : Named ents) (name : Str) : Found ents name ↔
    ∃ ent ∈ (ents.filter isChip).takeWhile succeeds, ent.d_name = name := by
  have h := find_readEntries hn [] name
  rw [find_nil] at h
  exact h.trans (or_iff_right fun h => h rfl)

variable {l : Listing}

lemma filter_nodup : (l.entries.filter isChip).Nodup := (List.Nodup.of_map _ l.nodup).filter _

lemma discovered_of_noneBehind (h : NoneBehind l) : Discovered l := by
  intro name
  rw [found_iff l.named, (takeWhile_eq_filter_iff _).mpr h]
  simp only [List.mem_filter, and_assoc, isChip_iff]

lemma Discovered.noneBehind (h : Discovered l) : NoneBehind l := by
  obtain ⟨rest, hrest⟩ := takeWhile_prefix_filter (p := succeeds) (l.entries.filter isChip)
  refine (takeWhile_eq_filter_iff _).mp ?_
  cases rest with
  | nil => rw [← hrest, List.append_nil]
  | cons ent rest =>
    exfalso
    have hmem : ent ∈ (l.entries.filter isChip).filter succeeds := by
      rw [← hrest]
      simp
    obtain ⟨hchip, hs⟩ := List.mem_filter.mp hmem
    obtain ⟨hent, hc⟩ := List.mem_filter.mp hchip
    obtain ⟨ent', hent', hname⟩ :=
      (found_iff l.named _).mp ((h ent.d_name).mpr ⟨ent, hent, (isChip_iff ent).mp hc, hs, rfl⟩)
    have hin : ent' ∈ l.entries :=
      List.mem_of_mem_filter ((List.takeWhile_prefix _).subset hent')
    obtain rfl : ent' = ent := List.inj_on_of_nodup_map l.nodup hin hent hname
    have hnodup : ((l.entries.filter isChip).filter succeeds).Nodup := filter_nodup.filter _
    rw [← hrest] at hnodup
    exact (List.nodup_append.mp hnodup).2.2 _ hent' _ List.mem_cons_self rfl

/-! ### Orders of the entries -/

/-- A directory read in another order. -/
def Listing.reorder (l : Listing) (ents : List DirEntry) (h : ents.Perm l.entries) : Listing where
  entries := ents
  nodup := (h.map DirEntry.d_name).nodup_iff.mpr l.nodup
  named ent hent := l.named ent (h.subset hent)

/-- No chip fails, or none succeeds. -/
def Uniform (l : Listing) : Prop :=
  (∀ ent ∈ l.entries, isChip ent = true → succeeds ent = true) ∨
    ∀ ent ∈ l.entries, isChip ent = true → succeeds ent = false

lemma Uniform.noneBehind (h : Uniform l) : NoneBehind l := by
  refine List.pairwise_of_forall_mem_list fun ent hent ent' hent' hs => ?_
  obtain ⟨hin, hc⟩ := List.mem_filter.mp hent
  obtain ⟨hin', hc'⟩ := List.mem_filter.mp hent'
  rcases h with h | h
  · exact h ent hin hc
  · cases (h ent' hin' hc').symm.trans hs

lemma Uniform.orderFree (h : Uniform l) : OrderFree l := by
  intro ents hperm name
  have hu : Uniform (l.reorder ents hperm) :=
    h.imp (fun h ent hent => h ent (hperm.subset hent)) fun h ent hent => h ent (hperm.subset hent)
  have hleft := discovered_of_noneBehind hu.noneBehind name
  have hright := discovered_of_noneBehind h.noneBehind name
  refine hleft.trans (Iff.trans ?_ hright.symm)
  exact exists_congr fun ent => and_congr_left fun _ => hperm.mem_iff

lemma found_first {ent : DirEntry} (hent : ent ∈ l.entries) (hc : isChip ent = true)
    (name : Str) : Found (ent :: l.entries.erase ent) name ↔ succeeds ent = true ∧
      (ent.d_name = name ∨ ∃ ent' ∈ ((l.entries.erase ent).filter isChip).takeWhile succeeds,
        ent'.d_name = name) := by
  have hperm : (ent :: l.entries.erase ent).Perm l.entries := (List.perm_cons_erase hent).symm
  have hiff := found_iff (l.reorder _ hperm).named name
  rw [show (l.reorder _ hperm).entries = ent :: l.entries.erase ent from rfl,
    List.filter_cons_of_pos hc] at hiff
  rw [hiff]
  cases hs : succeeds ent with
  | false => rw [List.takeWhile_cons_of_neg (by simp [hs])]; simp
  | true => rw [List.takeWhile_cons_of_pos hs]; simp

lemma OrderFree.uniform (h : OrderFree l) : Uniform l := by
  by_contra hu
  simp only [Uniform, not_or, not_forall, Bool.not_eq_true, Bool.not_eq_false] at hu
  obtain ⟨⟨bad, hbad, hbc, hbs⟩, good, hgood, hgc, hgs⟩ := hu
  have hfound : Found (good :: l.entries.erase good) good.d_name :=
    (found_first hgood hgc _).mpr ⟨hgs, Or.inl rfl⟩
  have hlisted := (h _ (List.perm_cons_erase hgood).symm _).mp hfound
  have hlost := (h _ (List.perm_cons_erase hbad).symm _).mpr hlisted
  have := ((found_first hbad hbc _).mp hlost).1
  rw [hbs] at this
  cases this

/-- **The chips found** are exactly those that can be, in the order the directory is read,
exactly if no chip stands behind one that fails; and every order gives the same chips exactly if
no chip fails, or none succeeds. -/
theorem discovered_iff (l : Listing) :
    (Discovered l ↔ NoneBehind l) ∧ (OrderFree l ↔ Uniform l) :=
  ⟨⟨Discovered.noneBehind, discovered_of_noneBehind⟩, ⟨OrderFree.uniform, Uniform.orderFree⟩⟩

/-- The first chip is not opened, the second one is. -/
def badFirst : List DirEntry :=
  [⟨bytes "gpiochip0", -1, 0, ⟨[], [], 0⟩⟩, ⟨bytes "gpiochip1", 7, 0, ⟨bytes "gpiochip1", [], 8⟩⟩]

lemma badFirst_nodup : (badFirst.map DirEntry.d_name).Nodup := by decide

lemma badFirst_named : Named badFirst := by
  unfold badFirst
  refine List.forall_mem_cons.mpr ⟨fun chip h => ?_, List.forall_mem_singleton.mpr fun chip h => ?_⟩
  · cases h
  · cases h
    rfl

/-- It is not found, and would be in the other order. -/
theorem second_chip_hidden :
    ¬ Discovered ⟨badFirst, badFirst_nodup, badFirst_named⟩ ∧
      ¬ OrderFree ⟨badFirst, badFirst_nodup, badFirst_named⟩ := by
  refine ⟨fun h => ?_, fun h => ?_⟩
  · have := h.noneBehind
    revert this
    unfold NoneBehind
    decide
  · rcases h.uniform with h | h
    · exact absurd (h _ List.mem_cons_self (by decide)) (by decide)
    · exact absurd (h _ (List.mem_cons_of_mem _ List.mem_cons_self) (by decide)) (by decide)

end Gpiod.Chips
