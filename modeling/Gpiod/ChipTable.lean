import Gpiod.Chips
import Gpiod.UtHashRun

/-!
The chips of `gpiod-chip.c` in the hash table they are stored in: `init_gpio_chips`, `get_chip`
and `cleanup_gpio_chips` of the uapi build, with the memory of the chips and their descriptors.
-/

namespace Gpiod.ChipTable

open Gpiod.Pin Gpiod.Table Gpiod.UtHash Gpiod.Chips

variable {A : Type} [DecidableEq A]

/-- The chips in memory, `stored_chips`, and the descriptors in the order of the calls. -/
structure Memory (A : Type) where
  stored_chips : Hash A Str
  chip : A → GpioChip
  opened : List ℤ
  closed : List ℤ

/-- A directory entry, the memory its chip would get, and the answers to the allocations of the
table. -/
structure Reading (A : Type) where
  ent : DirEntry
  addr : A
  malloc : ℕ → Bool

/-- `openat` of `uapi_init_gpio_chip`. -/
def Memory.openat (m : Memory A) (ent : DirEntry) : Memory A :=
  if ent.openat < 0 then m else { m with opened := m.opened ++ [ent.openat] }

/-- The loop of `init_gpio_chips` over the entries. -/
def readAll (hashFcn : Str → BitVec 32) (m : Memory A) : List (Reading A) → Except Stop (Memory A)
  | [] => .ok m
  | r :: rs =>
    if checkPrefix r.ent.d_name (bytes "gpiochip") then
      let m := m.openat r.ent
      match uapiInitGpioChip r.ent with
      | none => .ok m
      | some chip => do
        let stored_chips ← hashAdd hashFcn r.malloc (m.stored_chips.alloc r.addr) chip.name r.addr
        readAll hashFcn
          { m with stored_chips := stored_chips, chip := Function.update m.chip r.addr chip } rs
    else readAll hashFcn m rs

/-- `get_chip`, and the chip the pointer points to. -/
def getChipAt (hashFcn : Str → BitVec 32) (m : Memory A) (name : Str) :
    Except Stop (Option GpioChip) := do
  let out ← hashFind hashFcn m.stored_chips name
  m.stored_chips.deref? out
  .ok (out.map m.chip)

/-- The body of the loop of `cleanup_gpio_chips`. -/
def cleanupChip (chip : A) (m : Memory A) : Except Stop (Memory A) := do
  let stored_chips ← hashDelete m.stored_chips chip
  stored_chips.deref chip
  let stored_chips' ← stored_chips.free chip
  .ok { m with stored_chips := stored_chips', closed := m.closed ++ [(m.chip chip).fd] }

def cleanupGpioChips (m : Memory A) : Except Stop (Memory A) :=
  hashIter Memory.stored_chips cleanupChip m

/-! ### The table and the list of its chips -/

/-- The hash table holds the chips of a list that has the one stored last in front. -/
structure Refines (hashFcn : Str → BitVec 32) (m : Memory A) (t : StoredChips) (addrs : List A) :
    Prop where
  items : Items hashFcn m.stored_chips addrs
  chips : t = (addrs.map fun a => ((m.chip a).name, m.chip a)).reverse
  key : ∀ a ∈ addrs, m.stored_chips.key a = (m.chip a).name

variable {hashFcn : Str → BitVec 32} {m : Memory A} {t : StoredChips} {addrs : List A}

omit [DecidableEq A] in
lemma openat_stored_chips (m : Memory A) (ent : DirEntry) :
    (m.openat ent).stored_chips = m.stored_chips ∧ (m.openat ent).chip = m.chip ∧
      (m.openat ent).closed = m.closed := by
  unfold Memory.openat
  split <;> exact ⟨rfl, rfl, rfl⟩

/-- **A chip is stored.** -/
lemma Refines.add {m' : Memory A} {addr : A} {malloc : ℕ → Bool} (hr : Refines hashFcn m t addrs)
    (hmalloc : Bounded malloc) (hnew : addr ∉ addrs) (hfew : addrs.length + 1 < 2 ^ 32)
    (chip : GpioChip)
    (hstored : m'.stored_chips = m.stored_chips) (hchip : m'.chip = m.chip) :
    hashAdd hashFcn malloc (m'.stored_chips.alloc addr) chip.name addr = .error .exited ∨
      ∃ stored_chips,
        hashAdd hashFcn malloc (m'.stored_chips.alloc addr) chip.name addr = .ok stored_chips ∧
        stored_chips.live = Function.update m.stored_chips.live addr true ∧
        Refines hashFcn { m' with
          stored_chips := stored_chips
          chip := Function.update m'.chip addr chip }
          ((chip.name, chip) :: t) (addrs ++ [addr]) := by
  have hlive : (m.stored_chips.alloc addr).live addr = true := Function.update_self _ _ _
  rw [hstored, hchip]
  refine ((hr.items.alloc addr).add hmalloc hlive hnew hfew chip.name).imp_right ?_
  rintro ⟨stored_chips, hok, hitems, hkeep, hkey⟩
  have hself : Function.update m.chip addr chip addr = chip := Function.update_self _ _ _
  have hold : ∀ a ∈ addrs, Function.update m.chip addr chip a = m.chip a := fun a ha =>
    Function.update_of_ne (ne_of_mem_of_not_mem ha hnew) _ _
  refine ⟨stored_chips, hok, hkeep, hitems, ?_, ?_⟩
  · have hmap : addrs.map (fun a => ((m.chip a).name, m.chip a)) = addrs.map fun a =>
        ((Function.update m.chip addr chip a).name, Function.update m.chip addr chip a) :=
      List.map_congr_left fun a ha => by rw [hold a ha]
    rw [List.map_append, List.reverse_append, hr.chips, hmap]
    simp only [List.map_cons, List.map_nil, List.reverse_singleton, hself]
    rfl
  · refine List.forall_mem_append.mpr ⟨fun a ha => ?_, List.forall_mem_singleton.mpr ?_⟩
    · rw [hkey, Function.update_of_ne (ne_of_mem_of_not_mem ha hnew)]
      exact (hr.key a ha).trans (congrArg GpioChip.name (hold a ha).symm)
    · rw [hkey, Function.update_self]
      exact congrArg GpioChip.name hself.symm

omit [DecidableEq A] in
/-- **A chip is found** in the table where it is in the list. -/
lemma Refines.getChip (hr : Refines hashFcn m t addrs) (hd : Distinct t) (name : Str) :
    getChipAt hashFcn m name = .ok (Chips.getChip t name) := by
  obtain ⟨out, hout, hfound⟩ := hr.items.find name
  have hmem : ∀ k chip, (k, chip) ∈ t ↔ ∃ a ∈ addrs, (m.chip a).name = k ∧ m.chip a = chip := by
    intro k chip
    rw [hr.chips, List.mem_reverse, List.mem_map]
    simp only [Prod.mk.injEq]
  cases out with
  | none =>
    have hnone : Chips.getChip t name = none := find_eq_none_iff.mpr fun chip hin => by
      obtain ⟨a, ha, hname, -⟩ := (hmem _ _).mp hin
      exact hfound a ha (by rw [hr.key a ha, hname])
    simp only [getChipAt, hout, Hash.deref?, bind, Except.bind, Option.map_none, hnone]
  | some a =>
    obtain ⟨ha, hkey⟩ := hfound
    have hsome : Chips.getChip t name = some (m.chip a) :=
      (find_eq_some_iff hd).mpr ((hmem _ _).mpr ⟨a, ha, by rw [← hkey, hr.key a ha], rfl⟩)
    simp only [getChipAt, hout, Hash.deref?, deref_eq (hr.items.live a ha), bind, Except.bind,
      Option.map_some, hsome]

/-! ### The loop over the entries -/

/-- The descriptor of a chip that is opened and cannot be asked. -/
def unasked (ents : List DirEntry) : List ℤ :=
  match ((ents.filter isChip).dropWhile Chips.succeeds).head? with
  | none => []
  | some ent => if ent.openat < 0 then [] else [ent.openat]

/-- The chips have the memory `addrs`, and what else is allocated was so at the start. -/
structure Stored (hashFcn : Str → BitVec 32) (m₀ m : Memory A) (t : StoredChips)
    (addrs : List A) : Prop extends Refines hashFcn m t addrs where
  live : ∀ a, m.stored_chips.live a = (decide (a ∈ addrs) || m₀.stored_chips.live a)
  closed : m.closed = m₀.closed

lemma uapiInitGpioChip_fd {ent : DirEntry} {chip : GpioChip}
    (h : uapiInitGpioChip ent = some chip) : 0 ≤ ent.openat ∧ chip.fd = ent.openat := by
  unfold uapiInitGpioChip at h
  split at h
  · cases h
  · next hopen =>
    split at h
    · cases h
    · cases h
      exact ⟨not_lt.mp hopen, rfl⟩

lemma unasked_skip {ent : DirEntry} (h : isChip ent = false) (ents : List DirEntry) :
    unasked (ent :: ents) = unasked ents := by
  rw [unasked, List.filter_cons_of_neg (by simp [h])]
  rfl

lemma unasked_asked {ent : DirEntry} (h : isChip ent = true) (hs : Chips.succeeds ent = true)
    (ents : List DirEntry) : unasked (ent :: ents) = unasked ents := by
  rw [unasked, List.filter_cons_of_pos h, List.dropWhile_cons_of_pos hs]
  rfl

lemma unasked_left {ent : DirEntry} (h : isChip ent = true) (hs : Chips.succeeds ent = false)
    (ents : List DirEntry) :
    unasked (ent :: ents) = if ent.openat < 0 then [] else [ent.openat] := by
  rw [unasked, List.filter_cons_of_pos h, List.dropWhile_cons_of_neg (by simp [hs])]
  rfl

lemma Stored.openat {m₀ : Memory A} (hs : Stored hashFcn m₀ m t addrs) (ent : DirEntry) :
    Stored hashFcn m₀ (m.openat ent) t addrs := by
  obtain ⟨hstored, hchip, hclosed⟩ := openat_stored_chips m ent
  refine ⟨⟨hstored ▸ hs.items, hchip ▸ hs.chips, ?_⟩, ?_, hclosed.trans hs.closed⟩
  · rw [hstored, hchip]
    exact hs.key
  · rw [hstored]
    exact hs.live

/-- **One entry** whose chip is initialised is opened and stored. -/
lemma Stored.add {m₀ : Memory A} {r : Reading A} {chip : GpioChip}
    (hs : Stored hashFcn m₀ m t addrs) (hmalloc : Bounded r.malloc) (hnew : r.addr ∉ addrs)
    (hfew : addrs.length + 1 < 2 ^ 32) (hi : uapiInitGpioChip r.ent = some chip)
    (hopened : m.opened = m₀.opened ++ addrs.map fun a => (m.chip a).fd) :
    hashAdd hashFcn r.malloc ((m.openat r.ent).stored_chips.alloc r.addr) chip.name r.addr =
        .error .exited ∨
      ∃ stored_chips, hashAdd hashFcn r.malloc ((m.openat r.ent).stored_chips.alloc r.addr)
          chip.name r.addr = .ok stored_chips ∧
        Stored hashFcn m₀ { m.openat r.ent with
          stored_chips := stored_chips
          chip := Function.update (m.openat r.ent).chip r.addr chip }
          ((chip.name, chip) :: t) (addrs ++ [r.addr]) ∧
        (m.openat r.ent).opened = m₀.opened ++ (addrs ++ [r.addr]).map fun a =>
          (Function.update (m.openat r.ent).chip r.addr chip a).fd := by
  obtain ⟨hstored, hchip, hclosed⟩ := openat_stored_chips m r.ent
  obtain ⟨hpos, hfd⟩ := uapiInitGpioChip_fd hi
  refine (hs.toRefines.add hmalloc hnew hfew chip hstored hchip).imp_right ?_
  rintro ⟨stored_chips, hok, hkeep, href⟩
  refine ⟨stored_chips, hok, ⟨href, fun a => ?_, hclosed.trans hs.closed⟩, ?_⟩
  · change stored_chips.live a = _
    rw [hkeep]
    by_cases ha : a = r.addr
    · rw [ha, Function.update_self]
      simp
    · rw [Function.update_of_ne ha, hs.live a]
      simp [ha]
  · have hold : addrs.map (fun a => (Function.update (m.openat r.ent).chip r.addr chip a).fd) =
        addrs.map fun a => (m.chip a).fd := List.map_congr_left fun a ha => by
      rw [Function.update_of_ne (ne_of_mem_of_not_mem ha hnew), hchip]
    rw [List.map_append, hold, List.map_singleton, Function.update_self, hfd, Memory.openat,
      if_neg (not_lt.mpr hpos), ← List.append_assoc, ← hopened]

/-- **The loop** stores what the loop over the list does. -/
lemma Stored.readAll {m₀ : Memory A} {rs : List (Reading A)} (hs : Stored hashFcn m₀ m t addrs)
    (hmalloc : ∀ r ∈ rs, Bounded r.malloc) (hnd : (rs.map Reading.addr).Nodup)
    (hnew : ∀ r ∈ rs, r.addr ∉ addrs) (hfew : addrs.length + rs.length < 2 ^ 32)
    (hopened : m.opened = m₀.opened ++ addrs.map fun a => (m.chip a).fd) :
    ChipTable.readAll hashFcn m rs = .error .exited ∨
      ∃ m' addrs', ChipTable.readAll hashFcn m rs = .ok m' ∧
        Stored hashFcn m₀ m' (readEntries t (rs.map Reading.ent)) addrs' ∧
        (∀ a ∈ addrs', a ∈ addrs ∨ a ∈ rs.map Reading.addr) ∧
        m'.opened = m₀.opened ++ (addrs'.map fun a => (m'.chip a).fd) ++
          unasked (rs.map Reading.ent) := by
  induction rs generalizing m t addrs with
  | nil =>
    refine Or.inr ⟨m, addrs, rfl, hs, fun a ha => Or.inl ha, ?_⟩
    rw [hopened]
    simp [unasked]
  | cons r rs ih =>
    obtain ⟨hr, hrs⟩ := List.forall_mem_cons.mp hmalloc
    obtain ⟨hrnew, hrsnew⟩ := List.forall_mem_cons.mp hnew
    obtain ⟨hrnot, hrsnd⟩ := List.nodup_cons.mp hnd
    rw [List.length_cons] at hfew
    rw [List.map_cons, ChipTable.readAll, readEntries]
    cases hc : isChip r.ent with
    | false =>
      have hpre : checkPrefix r.ent.d_name (bytes "gpiochip") = false := hc
      rw [hpre, if_neg (by decide), if_neg (by decide), unasked_skip hc]
      refine (ih hs hrs hrsnd hrsnew (by omega) hopened).imp_right ?_
      rintro ⟨m', addrs', hok, hs', hsub, hopened'⟩
      exact ⟨m', addrs', hok, hs', fun a ha =>
        (hsub a ha).imp_right (List.mem_cons_of_mem _), hopened'⟩
    | true =>
      have hpre : checkPrefix r.ent.d_name (bytes "gpiochip") = true := hc
      rw [hpre, if_pos rfl, if_pos rfl]
      cases hi : uapiInitGpioChip r.ent with
      | none =>
        -- the loop is left
        have hsucc : Chips.succeeds r.ent = false := by rw [Chips.succeeds, hi, Option.isSome_none]
        refine Or.inr ⟨m.openat r.ent, addrs, rfl, hs.openat r.ent, fun a ha => Or.inl ha, ?_⟩
        rw [unasked_left hc hsucc, (openat_stored_chips m r.ent).2.1, Memory.openat]
        split
        · rw [hopened, List.append_nil]
        · rw [hopened]
      | some chip =>
        have hsucc : Chips.succeeds r.ent = true := by rw [Chips.succeeds, hi, Option.isSome_some]
        rw [unasked_asked hc hsucc]
        rcases hs.add hr hrnew (by omega) hi hopened with hexit | ⟨stored_chips, hok, hs₁, hopened₁⟩
        · left
          simp only [hexit, bind, Except.bind]
        · simp only [hok, bind, Except.bind]
          have hnew₁ : ∀ r' ∈ rs, r'.addr ∉ addrs ++ [r.addr] := fun r' hr' hin => by
            rcases List.mem_append.mp hin with hin | hin
            · exact hrsnew r' hr' hin
            · exact hrnot (List.mem_singleton.mp hin ▸ List.mem_map_of_mem hr')
          have hfew₁ : (addrs ++ [r.addr]).length + rs.length < 2 ^ 32 := by
            rw [List.length_append, List.length_singleton]
            omega
          refine (ih hs₁ hrs hrsnd hnew₁ hfew₁ hopened₁).imp_right ?_
          rintro ⟨m', addrs', hok', hs', hsub, hopened'⟩
          refine ⟨m', addrs', hok', hs', fun a ha => ?_, hopened'⟩
          rcases hsub a ha with ha | ha
          · rcases List.mem_append.mp ha with ha | ha
            · exact Or.inl ha
            · exact Or.inr (List.mem_cons.mpr (Or.inl (List.mem_singleton.mp ha)))
          · exact Or.inr (List.mem_cons_of_mem _ ha)

/-! ### The loop that frees the chips -/

lemma cleanupChip_eq {a : A} {ys : List A} (hi : Items hashFcn m.stored_chips (a :: ys)) :
    ∃ m', cleanupChip a m = .ok m' ∧ Items hashFcn m'.stored_chips ys ∧ m'.chip = m.chip ∧
      m'.opened = m.opened ∧ m'.closed = m.closed ++ [(m.chip a).fd] ∧
      m'.stored_chips.live = Function.update m.stored_chips.live a false := by
  obtain ⟨h₁, hdel, hi₁, hlive, -⟩ := hi.delete List.mem_cons_self
  rw [List.erase_cons_head] at hi₁
  have hl : h₁.live a = true := by
    rw [hlive]
    exact hi.live a List.mem_cons_self
  obtain ⟨h₂, hfree, hi₂, -, hlive₂⟩ := hi₁.free hl (List.nodup_cons.mp hi.nodup).1
  refine ⟨{ m with stored_chips := h₂, closed := m.closed ++ [(m.chip a).fd] }, ?_, hi₂, rfl, rfl,
    rfl, ?_⟩
  · simp only [cleanupChip, hdel, deref_eq hl, hfree, bind, Except.bind]
  · change h₂.live = _
    rw [hlive₂, hlive]

/-- The chips `ys` are still to be freed. -/
structure Cleaning (hashFcn : Str → BitVec 32) (m : Memory A) (addrs ys : List A)
    (m' : Memory A) : Prop where
  items : Items hashFcn m'.stored_chips ys
  chip : m'.chip = m.chip
  opened : m'.opened = m.opened
  done : ∃ done, addrs = done ++ ys ∧ m'.closed = m.closed ++ done.map (fun a => (m.chip a).fd) ∧
    ∀ a, m'.stored_chips.live a = (!decide (a ∈ done) && m.stored_chips.live a)

lemma cleanupGpioChips_eq (hi : Items hashFcn m.stored_chips addrs) :
    ∃ m', cleanupGpioChips m = .ok m' ∧ Cleaning hashFcn m addrs [] m' := by
  refine hashIter_rule Memory.stored_chips cleanupChip
    (Cleaning hashFcn m addrs) hashFcn ?_ ?_ hi ⟨hi, rfl, rfl, [], rfl, by simp, by simp⟩
  · rintro a ys m' ⟨hi', hchip, hopened, done, rfl, hclosed, hlive⟩
    obtain ⟨m'', hok, hi'', hchip', hopened', hclosed', hlive'⟩ := cleanupChip_eq hi'
    refine ⟨m'', hok, hi'', hchip'.trans hchip, hopened'.trans hopened, done ++ [a], by simp, ?_,
      fun b => ?_⟩
    · rw [hclosed', hclosed, hchip]
      simp
    · rw [hlive']
      by_cases hb : b = a
      · rw [hb, Function.update_self]
        simp
      · rw [Function.update_of_ne hb, hlive b]
        simp [hb]
  · intro ys m' hm'
    have hall : Items hashFcn m'.stored_chips ([] ++ ys) := hm'.items
    exact hall.next

/-! ### The chips over the life of the daemon -/

lemma distinct_readEntries {ents : List DirEntry} (hnamed : Named ents)
    (hnd : (ents.map DirEntry.d_name).Nodup) (hd : Distinct t)
    (hnew : ∀ ent ∈ ents, ent.d_name ∉ t.map Prod.fst) : Distinct (readEntries t ents) := by
  induction ents generalizing t with
  | nil => exact hd
  | cons ent ents ih =>
    obtain ⟨hname, hnames⟩ := List.forall_mem_cons.mp hnamed
    obtain ⟨hent, hents⟩ := List.forall_mem_cons.mp hnew
    obtain ⟨hnot, hnd'⟩ := List.nodup_cons.mp hnd
    rw [readEntries]
    split
    · cases hi : uapiInitGpioChip ent with
      | none => exact hd
      | some chip =>
        have heq := hname chip hi
        refine ih hnames hnd' ?_ fun ent' hent' hin => ?_
        · exact List.nodup_cons.mpr ⟨heq ▸ hent, hd⟩
        · rcases List.mem_cons.mp hin with hin | hin
          · exact hnot (List.mem_map.mpr ⟨ent', hent', hin.trans heq⟩)
          · exact hents ent' hent' hin
    · exact ih hnames hnd' hd hents

/-- The memory that is given for the chips of a directory. -/
structure Given (m : Memory A) (l : Listing) (rs : List (Reading A)) : Prop where
  entries : rs.map Reading.ent = l.entries
  malloc : ∀ r ∈ rs, Bounded r.malloc
  nodup : (rs.map Reading.addr).Nodup
  /-- it is not in use -/
  fresh : ∀ r ∈ rs, m.stored_chips.live r.addr = false
  /-- a counter can count them -/
  few : rs.length < 2 ^ 32

/-- **The life of the chips.** Whatever the hash function: when the chips have been read, every
name finds the chip it finds in the list of the chips; and `cleanup_gpio_chips` frees each of them
once, without a look at what is freed, and closes its descriptor once, so that of all that were
opened one may stay open, of a chip that could not be asked. -/
theorem chips_life (hashFcn : Str → BitVec 32) (l : Listing) (m : Memory A)
    (rs : List (Reading A)) (hempty : m.stored_chips.head = none) (hnone : m.opened = [])
    (hnone' : m.closed = []) (hg : Given m l rs) :
    readAll hashFcn m rs = .error .exited ∨
      ∃ m', readAll hashFcn m rs = .ok m' ∧
        (∀ name, getChipAt hashFcn m' name =
          .ok (Chips.getChip (initGpioChips (some l.entries)).2 name)) ∧
        ∃ m'', cleanupGpioChips m' = .ok m'' ∧ m''.stored_chips.head = none ∧
          m''.stored_chips.live = m.stored_chips.live ∧
          m''.opened = m''.closed ++ unasked l.entries := by
  have hs : Stored hashFcn m m [] [] :=
    ⟨⟨Or.inl ⟨rfl, hempty⟩, rfl, fun a ha => absurd ha List.not_mem_nil⟩, fun a => by simp, rfl⟩
  refine (hs.readAll hg.malloc hg.nodup (fun r _ => List.not_mem_nil) (by simpa using hg.few)
    (by simp)).imp_right ?_
  rintro ⟨m', addrs, hok, hs', hsub, hopened⟩
  rw [hg.entries, hnone, List.nil_append] at hopened
  rw [hg.entries] at hs'
  have hdist : Distinct (readEntries [] l.entries) :=
    distinct_readEntries l.named l.nodup List.nodup_nil fun ent _ => List.not_mem_nil
  refine ⟨m', hok, hs'.getChip hdist, ?_⟩
  obtain ⟨m'', hclean, hc⟩ := cleanupGpioChips_eq hs'.items
  obtain ⟨done, hdone, hclosed, hlive⟩ := hc.done
  rw [List.append_nil] at hdone
  refine ⟨m'', hclean, hc.items.head_eq, funext fun a => ?_, ?_⟩
  · rw [hlive a, hs'.live a, hdone]
    by_cases ha : a ∈ done
    · obtain ⟨r, hr, rfl⟩ := List.mem_map.mp ((hsub a (hdone ▸ ha)).resolve_left List.not_mem_nil)
      simp [ha, hg.fresh r hr]
    · simp [ha]
  · rw [hc.opened, hopened, hclosed, hs'.closed, hnone', hdone, List.nil_append]

/-- A chip, what is none, and a chip that is opened and cannot be asked. -/
def devEntries : List DirEntry :=
  [⟨bytes "gpiochip0", 5, 0, ⟨bytes "gpiochip0", [], 8⟩⟩, ⟨bytes "null", -1, 0, ⟨[], [], 0⟩⟩,
    ⟨bytes "gpiochip1", 6, -1, ⟨[], [], 0⟩⟩]

lemma devEntries_nodup : (devEntries.map DirEntry.d_name).Nodup := by decide

lemma devEntries_named : Named devEntries := by
  unfold devEntries
  refine List.forall_mem_cons.mpr ⟨fun chip h => ?_, List.forall_mem_cons.mpr
    ⟨fun chip h => ?_, List.forall_mem_singleton.mpr fun chip h => ?_⟩⟩
  · cases h
    rfl
  · cases h
  · cases h

def dev : Listing := ⟨devEntries, devEntries_nodup, devEntries_named⟩

def noChips : Memory ℕ where
  stored_chips := ⟨fun _ => false, ⟨fun _ => none, fun _ => none⟩, ⟨fun _ => none, fun _ => none⟩,
    fun _ => 0, fun _ => [], none, none⟩
  chip := fun _ => ⟨0, 0, [], [], 0⟩
  opened := []
  closed := []

def devReadings : List (Reading ℕ) := devEntries.zipIdx.map fun e => ⟨e.1, e.2, giveBelow⟩

lemma dev_given : Given noChips dev devReadings where
  entries := by decide
  malloc := by simp [devReadings, devEntries, giveBelow_bounded]
  nodup := by decide
  fresh := fun _ _ => rfl
  few := by decide

lemma dev_ok : (readAll (fun _ => 0) noChips devReadings).isOk = true := by decide +kernel

/-- The descriptor of the second chip stays open. -/
theorem dev_life : ∃ m', readAll (fun _ => 0) noChips devReadings = .ok m' ∧
    (∀ name, getChipAt (fun _ => 0) m' name =
      .ok (Chips.getChip (initGpioChips (some devEntries)).2 name)) ∧
    ∃ m'', cleanupGpioChips m' = .ok m'' ∧ m''.stored_chips.head = none ∧
      m''.stored_chips.live = noChips.stored_chips.live ∧ m''.opened = m''.closed ++ [6] := by
  have hok := dev_ok
  rcases chips_life (fun _ => 0) dev noChips devReadings rfl rfl rfl dev_given with hexit | h
  · rw [hexit] at hok
    cases hok
  · exact h

end Gpiod.ChipTable
