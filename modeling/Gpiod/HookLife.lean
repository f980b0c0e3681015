import Mathlib.Data.Finset.Sum
import Gpiod.HookLoad
import Gpiod.LoopLists

/-!
What becomes of the blocks of the pins and hooks until the daemon ends.

The pins that fail to initialise are freed with their hooks. The loop parts the others into two
lists and gives them back in another order, and leaves the lists of their hooks alone. So
`free_gpio_pins` finds them all behind it, and frees each block of theirs once.
-/

namespace Gpiod.HookHeap

open Gpiod.Pin Gpiod.CircularList Gpiod.ListHead Gpiod.TabScan Gpiod.TabRoute Gpiod.TabDir
open Gpiod.LoopLists (ListName contents givenBack)
open Gpiod.Loop (onIList)

section Life

variable {B : Type} [DecidableEq B] {malloc : ℕ → Finset B → B} {h h' : Heap B} {live₀ : Finset B}
  {pins : List (PinAt B)} {gp_list : List GpioPin} {p : PinAt B}

/-! ### Initialised and not -/

/-- The pins of a list at the places of those that a test on the pins in memory takes. -/
def keptBy (q : PinAt B → Bool) (pins : List (PinAt B)) (gp_list : List GpioPin) : List GpioPin :=
  ((pins.zip gp_list).filter fun z => q z.1).map Prod.snd

omit [DecidableEq B] in
lemma Shows.filter (hs : Shows h pins gp_list) (q : PinAt B → Bool) :
    Shows h (pins.filter q) (keptBy q pins gp_list) := by
  induction pins generalizing gp_list with
  | nil => rfl
  | cons p pins ih =>
    obtain ⟨pin, rest, rfl, hhead, htail⟩ := List.map_eq_cons_iff.mp
      (show gp_list.map _ = _ :: _ from hs.symm)
    have ih' := ih htail.symm
    cases hq : q p with
    | false => simpa [Shows, keptBy, hq] using ih'
    | true =>
      rw [Shows, keptBy, List.filter_cons_of_pos hq, List.zip_cons_cons,
        List.filter_cons_of_pos (by exact hq), List.map_cons, List.map_cons, List.map_cons]
      exact List.cons_eq_cons.mpr ⟨hhead.symm, ih'⟩

lemma Owned.filter (ho : Owned h live₀ (pins.flatMap PinAt.blocks)) (q : PinAt B → Bool)
    (hlive : ∀ b, b ∈ h'.live ↔ b ∈ h.live ∧
      b ∉ (pins.filter fun p => !q p).flatMap PinAt.blocks) :
    Owned h' live₀ ((pins.filter q).flatMap PinAt.blocks) := by
  have hperm : (pins.flatMap PinAt.blocks).Perm ((pins.filter q).flatMap PinAt.blocks ++
      (pins.filter fun p => !q p).flatMap PinAt.blocks) := by
    rw [← List.flatMap_append]
    exact (List.filter_append_perm q pins).symm.flatMap_right _
  have ho' := ho.perm hperm
  obtain ⟨hnd, -, hdisj⟩ := List.nodup_append.mp ho'.nodup
  refine ⟨fun b => ?_, hnd, fun b hb => ho'.apart b (List.mem_append_left _ hb)⟩
  have hkept : b ∈ (pins.filter q).flatMap PinAt.blocks →
      b ∉ (pins.filter fun p => !q p).flatMap PinAt.blocks := fun hb hb' => hdisj b hb b hb' rfl
  have hold : b ∈ live₀ → b ∉ (pins.filter fun p => !q p).flatMap PinAt.blocks := fun hb hb' =>
    ho'.apart b (List.mem_append_right _ hb') hb
  rw [hlive, ho'.live, List.mem_append]
  tauto

/-! ### The loop -/

/-- The heads of the lists of the loop, which but `gp_list` are no nodes of the pins. -/
def loopHead : ListName → Node B ⊕ ListName
  | .gpList => .inl .gpList
  | k => .inr k

omit [DecidableEq B] in
lemma loopHead_injective : Function.Injective (loopHead (B := B)) := by
  intro k l hkl
  cases k <;> cases l <;> first | rfl | cases hkl

def loopLayout (pin : Node B ⊕ ListName → GpioPin) : LoopLists.Layout (Node B ⊕ ListName) where
  head := loopHead
  distinct := loopHead_injective
  null := .inl .null
  pin := pin

def Heap.nodes (h : Heap B) : Finset (Node B) :=
  insert .gpList (h.live.image .list ∪ (h.live.image .hookList ∪ h.live.image .argList))

/-- Memory where `loop` is called: the nodes of the pins, and the other heads, each linked to
itself. -/
def Heap.atLoop (h : Heap B) : LoopLists.Mem (Node B ⊕ ListName) where
  links := ⟨Sum.map h.links.next id, Sum.map h.links.prev id⟩
  allocated := h.nodes.disjSum {.iList, .pList, .eList, .tcpClients}
  clients := ∅

/-- The heap behind the loop, which has left its pointers in `m`: the blocks of the pins are still
there, and so are the paths and the strings of their hooks. -/
structure Behind (m : LoopLists.Mem (Node B ⊕ ListName)) (h h' : Heap B) (pins : List (PinAt B)) :
    Prop where
  next : ∀ n n', m.links.next (.inl n) = .inl n' → h'.links.next n = n'
  prev : ∀ n n', m.links.prev (.inl n) = .inl n' → h'.links.prev n = n'
  live : ∀ b ∈ pins.flatMap PinAt.blocks, b ∈ h'.live
  path : ∀ b ∈ pins.flatMap PinAt.blocks, h'.path b = h.path b
  c_arg : ∀ b ∈ pins.flatMap PinAt.blocks, h'.c_arg b = h.c_arg b

omit [DecidableEq B] in
lemma ring_inl {l : Links (Node B)} {head : Node B} {xs : List (Node B)} (hr : Ring l head xs) :
    Ring (⟨Sum.map l.next id, Sum.map l.prev id⟩ : Links (Node B ⊕ ListName)) (.inl head)
      (xs.map .inl) := by
  refine ⟨?_, ?_⟩
  · rw [← List.map_cons]
    exact hr.nodup.map Sum.inl_injective
  · have hmap : Sum.inl head :: (xs.map Sum.inl ++ [(Sum.inl head : Node B ⊕ ListName)]) =
        (head :: (xs ++ [head])).map Sum.inl := by simp
    rw [hmap, CircularList.Path, List.isChain_map]
    exact hr.path.imp fun a b hab => ⟨congrArg Sum.inl hab.next, congrArg Sum.inl hab.prev⟩

omit [DecidableEq B] in
lemma ring_of_inl {m : LoopLists.Mem (Node B ⊕ ListName)} (hb : Behind m h h' pins)
    {head : Node B} {xs : List (Node B)} (hr : Ring m.links (.inl head) (xs.map .inl)) :
    Ring h'.links head xs := by
  refine ⟨?_, ?_⟩
  · have hnd := hr.nodup
    rw [← List.map_cons] at hnd
    exact hnd.of_map _
  · have hmap : Sum.inl head :: (xs.map Sum.inl ++ [(Sum.inl head : Node B ⊕ ListName)]) =
        (head :: (xs ++ [head])).map Sum.inl := by simp
    have hpath := hr.path
    rw [hmap, CircularList.Path, List.isChain_map] at hpath
    exact hpath.imp fun a b hab => ⟨hb.next a b hab.next, hb.prev b a hab.prev⟩

lemma mem_nodes {b : B} (hb : b ∈ h.live) {n : Node B} (hn : n.block = some b) : n ∈ h.nodes := by
  cases n with
  | null => cases hn
  | gpList => cases hn
  | list c => cases hn; simp [Heap.nodes, hb]
  | hookList c => cases hn; simp [Heap.nodes, hb]
  | argList c => cases hn; simp [Heap.nodes, hb]

lemma mem_allocated {n : Node B} : Sum.inl n ∈ h.atLoop.allocated ↔ n ∈ h.nodes :=
  Finset.inl_mem_disjSum

variable {pin : Node B ⊕ ListName → GpioPin}

/-- The heads, and the nodes of the pins on `gp_list`, as the loop finds them. -/
lemma entry_lists (ho : pinKind.OnList h .gpList pins) :
    LoopLists.InMemory (loopLayout pin) h.atLoop Set.univ
      (contents (pins.map fun p => .inl p.node) [] [] [] []) := by
  have hring := ring_inl ho.ring
  rw [List.map_map] at hring
  have hself : ∀ k : ListName, Ring h.atLoop.links (.inr k) [] := fun k =>
    ⟨List.nodup_singleton _, List.isChain_pair.mpr ⟨rfl, rfl⟩⟩
  refine ⟨⟨fun k _ => ?_, fun k _ l _ hkl a ha hal => ?_⟩, fun k _ a ha => ?_⟩
  · cases k with
    | gpList => exact hring
    | _ => exact hself _
  · -- the nodes of the pins are none of the other heads, and these are apart
    have hleft : ∀ a ∈ loopHead (B := B) .gpList :: pins.map (fun p => .inl p.node),
        ∃ n, a = Sum.inl n := by
      intro a ha
      rcases List.mem_cons.mp ha with rfl | ha
      · exact ⟨_, rfl⟩
      · obtain ⟨p, -, rfl⟩ := List.mem_map.mp ha
        exact ⟨_, rfl⟩
    cases k with
    | gpList =>
      obtain ⟨n, rfl⟩ := hleft a ha
      cases l with
      | gpList => exact hkl rfl
      | _ => cases List.mem_singleton.mp hal
    | _ =>
      obtain rfl := List.mem_singleton.mp ha
      cases l with
      | gpList =>
        obtain ⟨n, hn⟩ := hleft _ hal
        cases hn
      | _ => exact hkl (loopHead_injective (List.mem_singleton.mp hal))
  · cases k with
    | gpList =>
      rcases List.mem_cons.mp ha with rfl | ha
      · exact mem_allocated.mpr (Finset.mem_insert_self _ _)
      · obtain ⟨p, hp, rfl⟩ := List.mem_map.mp ha
        have hlive : p.pin ∈ h.live :=
          ho.live _ (List.mem_flatMap.mpr ⟨p, hp, List.mem_cons_self⟩)
        exact mem_allocated.mpr (mem_nodes hlive rfl)
    | _ =>
      obtain rfl := List.mem_singleton.mp ha
      exact Finset.inr_mem_disjSum.mpr (by decide)

/-- The pins as the loop finds them. -/
def Kind.OnList.entry (ho : pinKind.OnList h .gpList pins)
    (pin : Node B ⊕ ListName → GpioPin) :
    LoopLists.Entry (loopLayout pin) (pins.map fun p => .inl p.node) :=
  ⟨h.atLoop, entry_lists ho, rfl⟩

lemma frame_below (ho : pinKind.OnList h .gpList pins) (hp : p ∈ pins) {n : Node B}
    (hn : n ∈ p.below) : Sum.inl n ∈ (ho.entry pin).frame.nodes := by
  obtain ⟨b, hb, hblock⟩ := pinKind.below_block p n hn
  have hlive : b ∈ h.live := ho.live b (List.mem_flatMap.mpr ⟨p, hp, hb⟩)
  refine ⟨mem_allocated.mpr (mem_nodes hlive hblock), fun k _ hmem => ?_⟩
  have hout := not_gpList_of_below ho.nodup hp hn
  cases k with
  | gpList =>
    rcases List.mem_cons.mp hmem with he | hmem
    · exact hout (Sum.inl.inj he ▸ List.mem_cons_self)
    · obtain ⟨q, hq, he⟩ := List.mem_map.mp hmem
      exact hout (List.mem_cons_of_mem _ (List.mem_map.mpr ⟨q, hq, Sum.inl.inj he⟩))
  | _ => cases List.mem_singleton.mp hmem

/-- The pins in the order in which the loop gives them back. -/
def backPins (pin : Node B ⊕ ListName → GpioPin) (pins : List (PinAt B)) : List (PinAt B) :=
  (pins.filter fun p => !onIList (pin (.inl p.node))) ++
    pins.filter fun p => onIList (pin (.inl p.node))

omit [DecidableEq B] in
lemma backPins_perm (pin : Node B ⊕ ListName → GpioPin) (pins : List (PinAt B)) :
    (backPins pin pins).Perm pins :=
  List.perm_append_comm.trans (List.filter_append_perm _ pins)

omit [DecidableEq B] in
lemma givenBack_nodes : givenBack (loopLayout pin) (pins.map fun p => .inl p.node) =
    (backPins pin pins).map fun p => .inl p.node := by
  simp only [givenBack, LoopLists.pollPins, LoopLists.interruptPins, List.filter_map, backPins,
    List.map_append]
  rfl

/-- **The pins behind the loop**, with their hooks. -/
lemma onList_behind (ho : pinKind.OnList h .gpList pins) {m : LoopLists.Mem (Node B ⊕ ListName)}
    (hback : LoopLists.GivesBack (loopLayout pin) (pins.map fun p => .inl p.node) m)
    (hsame : ∀ a ∈ (ho.entry pin).frame.nodes, SameAt h.atLoop.links m.links a)
    (hb : Behind m h h' pins) : pinKind.OnList h' .gpList (backPins pin pins) := by
  have hperm := (backPins_perm pin pins).flatMap_right PinAt.blocks
  have hring := hback.ring
  have hnodes : (backPins pin pins).map (fun p => (Sum.inl p.node : Node B ⊕ ListName)) =
      ((backPins pin pins).map PinAt.node).map Sum.inl := by rw [List.map_map]; rfl
  rw [givenBack_nodes, hnodes] at hring
  refine ⟨ring_of_inl hb hring, fun p hp => ?_, fun b hmem => hb.live b (hperm.mem_iff.mp hmem),
    hperm.nodup_iff.mpr ho.nodup⟩
  have hp' : p ∈ pins := (backPins_perm pin pins).mem_iff.mp hp
  have hkept : ∀ n ∈ p.below, SameAt h.links h'.links n := fun n hn => by
    obtain ⟨hnext, hprev⟩ := hsame _ (frame_below ho hp' hn)
    exact ⟨hb.next n _ hnext, hb.prev n _ hprev⟩
  have hblock : ∀ b ∈ p.blocks, b ∈ pins.flatMap PinAt.blocks := fun b hmem =>
    List.mem_flatMap.mpr ⟨p, hp', hmem⟩
  refine ⟨(ho.is p hp').ring.congr fun n hn => hkept n ?_, fun k hk => ?_⟩
  · rcases List.mem_cons.mp hn with rfl | hn
    · exact List.mem_cons_self
    · obtain ⟨k, hk, rfl⟩ := List.mem_map.mp hn
      exact List.mem_cons_of_mem _ (List.mem_flatMap.mpr ⟨k, hk, List.mem_cons_self⟩)
  · have hblocks : ∀ b ∈ k.blocks, b ∈ pins.flatMap PinAt.blocks := fun b hmem =>
      hblock b (List.mem_cons_of_mem _ (List.mem_flatMap.mpr ⟨k, hk, hmem⟩))
    refine ((ho.is p hp').hooks k hk).congr (fun n hn => hkept n ?_)
      (hb.path _ (hblocks _ List.mem_cons_self)) fun a ha => hb.c_arg _ (hblocks _ ?_)
    · exact List.mem_cons_of_mem _ (List.mem_flatMap.mpr ⟨k, hk, List.mem_cons_of_mem _ hn⟩)
    · exact List.mem_cons_of_mem _ (List.mem_cons_of_mem _
        (List.mem_flatMap.mpr ⟨a, ha, List.mem_cons_self⟩))

/-- **Behind the loop** the pins are freed, with all their blocks and no others. -/
lemma freed_behind (ho : pinKind.OnList h .gpList pins) {r : Option _}
    (hr : LoopLists.Exits (loopLayout pin) h.atLoop r) :
    ∃ m, r = some m ∧ ∀ h', Behind m h h' pins → ∃ h₄, freeGpioPins h' = some h₄ ∧
      ∀ b, b ∈ h₄.live ↔ b ∈ h'.live ∧ b ∉ pins.flatMap PinAt.blocks := by
  obtain ⟨m, hm, hback, hsame⟩ := LoopLists.loop_framed (ho.entry pin) hr
  refine ⟨m, hm, fun h' hb => ?_⟩
  obtain ⟨h₄, hfree, hf⟩ := freeGpioPins_freed (onList_behind ho hback hsame hb)
  have hperm := (backPins_perm pin pins).flatMap_right PinAt.blocks
  exact ⟨h₄, hfree, fun b => by rw [hf.live, hperm.mem_iff]⟩

/-- The heap that is left by a loop that has changed nothing of it but pointers. -/
def Heap.leave (h : Heap B) (m : LoopLists.Mem (Node B ⊕ ListName)) : Heap B :=
  { h with links := ⟨fun n => (m.links.next (.inl n)).elim id fun _ => n,
      fun n => (m.links.prev (.inl n)).elim id fun _ => n⟩ }

omit [DecidableEq B] in
lemma behind_leave {m : LoopLists.Mem (Node B ⊕ ListName)}
    (hlive : ∀ b ∈ pins.flatMap PinAt.blocks, b ∈ h.live) : Behind m h (h.leave m) pins := by
  refine ⟨fun n n' hn => ?_, fun n n' hn => ?_, hlive, fun b _ => rfl, fun b _ => rfl⟩
  · simp only [Heap.leave, hn, Sum.elim_inl, id_eq]
  · simp only [Heap.leave, hn, Sum.elim_inl, id_eq]

/-! ### From start to end -/

lemma freed_owned (ho : pinKind.OnList h .gpList pins)
    (how : Owned h live₀ (pins.flatMap PinAt.blocks)) :
    ∃ h₄, freeGpioPins h = some h₄ ∧ h₄.live = live₀ := by
  obtain ⟨h₄, hfree, hf⟩ := freeGpioPins_freed ho
  refine ⟨h₄, hfree, Finset.ext fun b => ?_⟩
  rw [hf.live, how.live]
  have hapart := how.apart b
  tauto

/-- **From the start of the daemon to its end**: the pins of the configuration and the hooks of the
tab files come into memory as the loader has them, and a pin that fails to initialise is freed with
its hooks, while the others keep theirs. Freed then, or before, the pins leave what was allocated
before. At every exit of the loop, whatever pins it takes for its lists and whatever it has done to
the rest of memory, `free_gpio_pins` frees all the blocks of the pins, and no others. No step reads
or frees a block that is not there. -/
theorem hooks_life (hm : ∀ n s, malloc n s ∉ s) (h : Heap B) (hgp : Ring h.links .gpList [])
    (gp_list : List GpioPin) (hnew : ∀ pin ∈ gp_list, pin.hook_list = []) (dir : Option Dir)
    {ret : ℤ} {gp_list' : List GpioPin} (hload : loadTabs gp_list dir = .ok (ret, gp_list'))
    (init : B → ℤ) : ∃ (pins kept : List (PinAt B)) (h₁ h₂ h₃ : Heap B),
      (gp_list.map GpioPin.label).foldlM (loadPin malloc) h = some h₁ ∧
      loadTabsAt malloc h₁ dir = some h₂ ∧
      Owned h₂ h.live (pins.flatMap PinAt.blocks) ∧ Shows h₂ pins gp_list' ∧
      initGpioPins init h₂ = some h₃ ∧ kept = pins.filter (fun p => init p.pin ≠ -1) ∧
      Owned h₃ h.live (kept.flatMap PinAt.blocks) ∧
      Shows h₃ kept (keptBy (fun p => init p.pin ≠ -1) pins gp_list') ∧
      (∃ h₄, freeGpioPins h₂ = some h₄ ∧ h₄.live = h.live) ∧
      (∃ h₄, freeGpioPins h₃ = some h₄ ∧ h₄.live = h.live) ∧
      ∀ (pin : Node B ⊕ ListName → GpioPin) (r : Option (LoopLists.Mem (Node B ⊕ ListName))),
        LoopLists.Exits (loopLayout pin) h₃.atLoop r → ∃ m, r = some m ∧
          ∀ h', Behind m h₃ h' kept → ∃ h₄, freeGpioPins h' = some h₄ ∧
            ∀ b, b ∈ h₄.live ↔ b ∈ h'.live ∧ b ∉ kept.flatMap PinAt.blocks := by
  have hempty : Rep h h.live [] ([] : List (PinAt B)) :=
    ⟨⟨fun b => by simp, List.nodup_nil, fun b hb => absurd hb List.not_mem_nil⟩, hgp,
      fun p hp => absurd hp List.not_mem_nil⟩
  have hnone : Shows h ([] : List (PinAt B)) [] := rfl
  obtain ⟨pins₁, h₁, hpins, hr₁, hs₁⟩ := loadPins_spec hm hempty hnone gp_list hnew
  rw [List.nil_append] at hs₁
  obtain ⟨pins, h₂, htabs, hr₂, hs₂, -⟩ := loadTabsAt_refines hm hr₁ hs₁ hload
  obtain ⟨h₃, hinit, ho₃, hlive₃, hmem₃⟩ := initGpioPins_freed init hr₂.onList
  have howned : Owned h₃ h.live ((pins.filter fun p => init p.pin ≠ -1).flatMap PinAt.blocks) :=
    Owned.filter hr₂.owned _ fun b => by simpa using hlive₃ b
  have hshows : Shows h₃ pins gp_list' := hs₂.kept fun b _ => by
    rw [hmem₃]
    exact ⟨rfl, rfl, rfl, rfl, rfl, rfl, rfl, rfl, rfl⟩
  exact ⟨pins, _, h₁, h₂, h₃, hpins, htabs, hr₂.owned, hs₂, hinit, rfl, howned, hshows.filter _,
    freed_owned hr₂.onList hr₂.owned, freed_owned ho₃ howned, fun pin r hr => freed_behind ho₃ hr⟩

end Life

/-! ### A run -/

/-- A `malloc` that gives the first block that is not in use. -/
def firstUnused (_ : ℕ) (s : Finset ℕ) : ℕ :=
  ((List.range (s.card + 1)).find? fun b => b ∉ s).getD 0

lemma firstUnused_fresh (n : ℕ) (s : Finset ℕ) : firstUnused n s ∉ s := by
  rw [firstUnused]
  cases hf : (List.range (s.card + 1)).find? fun b => b ∉ s with
  | some b => simpa using List.find?_some hf
  | none =>
    -- not all of them can be in use
    have hall : Finset.range (s.card + 1) ⊆ s := fun b hb => by
      have hin := List.find?_eq_none.mp hf b (List.mem_range.mpr (Finset.mem_range.mp hb))
      simpa using hin
    have hcard := Finset.card_le_card hall
    rw [Finset.card_range] at hcard
    omega

/-- Memory when `gp_list` has just been initialised. -/
def heapAtStart : Heap ℕ where
  links := ⟨id, id⟩
  live := ∅
  calls := 0
  label _ := []
  path := id
  flags _ := 0
  fired _ := 0
  spawned _ := 0
  arg_list_size _ := 0
  arg _ := .max
  c_arg _ := none
  text _ := []

/-- The pin that is kept has both edges. -/
def wd10Layout : LoopLists.Layout (Node ℕ ⊕ ListName) :=
  loopLayout fun _ => ⟨bytes "WD10", 10, .sysfs, .both, 0, []⟩

/-- A hook for the first of two pins, and a pin whose `init` fails. The loop runs and ends. -/
theorem hooks_life_wd10 : ∃ (h₁ h₂ h₃ h₄ : Heap ℕ) (m₁ m : LoopLists.Mem (Node ℕ ⊕ ListName)),
    (wd10wd1.map GpioPin.label).foldlM (loadPin firstUnused) heapAtStart = some h₁ ∧
    loadTabsAt firstUnused h₁
      (some ⟨[⟨some (bytes "WD10 EDGE_BOTH /bin/a\n"), fun _ => []⟩], true⟩) = some h₂ ∧
    initGpioPins (fun b => if b = 1 then -1 else 0) h₂ = some h₃ ∧
    LoopLists.partition wd10Layout h₃.atLoop = some m₁ ∧
    (LoopLists.shutdown wd10Layout m₁).map (LoopLists.spliceLists wd10Layout) = some m ∧
    freeGpioPins (h₃.leave m) = some h₄ ∧ h₄.live = ∅ := by
  have hload : loadTabs wd10wd1
      (some ⟨[⟨some (bytes "WD10 EDGE_BOTH /bin/a\n"), fun _ => []⟩], true⟩) =
      .ok (0, wd10wd1.modify 0 (·.addHook hookA)) := by decide
  obtain ⟨pins, kept, h₁, h₂, h₃, hpins, htabs, -, -, hinit, -, howned, -, -, -, hexit⟩ :=
    hooks_life firstUnused_fresh heapAtStart
      ⟨List.nodup_singleton _, List.isChain_pair.mpr ⟨rfl, rfl⟩⟩ wd10wd1 (by decide) _ hload
      fun b => if b = 1 then -1 else 0
  have hfail : LoopSetup.setup .w64 50 ⟨-1, 0, 0, 0, 0, fun _ => 0, 0⟩ =
    some .spliceLists := rfl
  have hset : LoopSetup.setup .w64 50 ⟨0, 0, 0, 0, 0, fun _ => 0, 0⟩ = none := rfl
  obtain ⟨m₀, hm₀, -⟩ := hexit _ _ (.setup hfail)
  obtain ⟨m₁, hm₁, -⟩ := Option.map_eq_some_iff.mp hm₀
  obtain ⟨m, hm, hback⟩ := hexit _ _ (.shutdown hset hm₁ .refl)
  have hlive : ∀ b ∈ kept.flatMap PinAt.blocks, b ∈ h₃.live := fun b hb =>
    (howned.live b).mpr (.inr hb)
  obtain ⟨h₄, hfree, hleft⟩ := hback (h₃.leave m) (behind_leave hlive)
  refine ⟨h₁, h₂, h₃, h₄, m₁, m, hpins, htabs, hinit, hm₁, hm, hfree, ?_⟩
  refine Finset.eq_empty_of_forall_notMem fun b hb => ?_
  obtain ⟨hin, hout⟩ := (hleft b).mp hb
  rcases (howned.live b).mp hin with hin | hin
  · exact absurd hin (Finset.notMem_empty b)
  · exact hout hin

end Gpiod.HookHeap
