import Gpiod.UtHashRep

/-!
Runs over a hash table: items are allocated and added, deleted and freed.

Whatever the hash function, the table is the list of its entries in the order they came.
-/

namespace Gpiod.UtHash

open Gpiod.NullList

variable {A K : Type} [DecidableEq A]

/-! ### Memory of the items -/

/-- `malloc` of an item. -/
def Hash.alloc (h : Hash A K) (a : A) : Hash A K :=
  { h with live := Function.update h.live a true }

/-- `free`, of memory that is allocated. -/
def Hash.free (h : Hash A K) (a : A) : Except Stop (Hash A K) :=
  if h.live a then .ok { h with live := Function.update h.live a false } else .error .fault

/-- What a program does to a table. -/
inductive Op (A K : Type) where
  /-- an item is allocated and added; `malloc` answers the allocations of the table -/
  | add (el : A) (key : K) (malloc : ℕ → Bool)
  /-- an item is deleted and freed -/
  | del (el : A)

def step (hashFcn : K → BitVec 32) (h : Hash A K) : Op A K → Except Stop (Hash A K)
  | .add el key malloc => hashAdd hashFcn malloc (h.alloc el) key el
  | .del el => do
    let h ← hashDelete h el
    h.free el

def run (hashFcn : K → BitVec 32) (h : Hash A K) (ops : List (Op A K)) : Except Stop (Hash A K) :=
  ops.foldlM (step hashFcn) h

/-! ### Entries -/

def after (es : List (A × K)) : Op A K → List (A × K)
  | .add el key _ => es ++ [(el, key)]
  | .del el => es.filter fun e => e.1 ≠ el

/-- Memory that is allocated is not in use, and a counter can count the items; what is deleted is
there. -/
def Admits (es : List (A × K)) : Op A K → Prop
  | .add el _ malloc => el ∉ es.map Prod.fst ∧ Bounded malloc ∧ es.length + 1 < 2 ^ 32
  | .del el => el ∈ es.map Prod.fst

def Admissible : List (A × K) → List (Op A K) → Prop
  | _, [] => True
  | es, op :: ops => Admits es op ∧ Admissible (after es op) ops

/-- The items of a table with their keys. -/
structure Stores (hashFcn : K → BitVec 32) (h : Hash A K) (es : List (A × K)) : Prop where
  items : Items hashFcn h (es.map Prod.fst)
  key : ∀ e ∈ es, h.key e.1 = e.2

def hashItems (h : Hash A K) : Except Stop (List A) :=
  hashIter (fun _ => h) (fun el xs => .ok (xs ++ [el])) []

/-- What the macros tell of a table with these entries. -/
structure Answers [DecidableEq K] (hashFcn : K → BitVec 32) (h : Hash A K) (es : List (A × K)) :
    Prop where
  /-- the loop visits the items in the order they were added -/
  iter : hashItems h = .ok (es.map Prod.fst)
  count : hashCount h = .ok es.length
  /-- an item is found under a key if there is one -/
  found : ∀ key a, hashFind hashFcn h key = .ok (some a) → (a, key) ∈ es
  find : ∀ key, ∃ out, hashFind hashFcn h key = .ok out ∧ (out = none ↔ ∀ e ∈ es, e.2 ≠ key)
  /-- and it is the item, if no other one has the key -/
  exact : ∀ e ∈ es, (∀ e' ∈ es, e'.2 = e.2 → e' = e) → hashFind hashFcn h e.2 = .ok (some e.1)

variable {hashFcn : K → BitVec 32} {h : Hash A K} {es : List (A × K)}

omit [DecidableEq A] in
lemma Items.congr_live {items : List A} {live : A → Bool} (hi : Items hashFcn h items)
    (hl : ∀ a ∈ items, live a = true) : Items hashFcn { h with live := live } items := by
  rcases hi with hi | ⟨t, hr, hload⟩
  · exact Or.inl hi
  · exact Or.inr ⟨t, ⟨⟨hr.head, hr.tbl, hr.nodup, hl, hr.app, hr.tail, hr.hashv,
      hr.initial, hr.log2, hr.num_buckets, hr.size⟩, hr.few, hr.num_items, hr.chained⟩, hload⟩

lemma Items.alloc {items : List A} (hi : Items hashFcn h items) (a : A) :
    Items hashFcn (h.alloc a) items := by
  refine hi.congr_live fun x hx => ?_
  by_cases he : x = a
  · rw [he, Function.update_self]
  · rw [Function.update_of_ne he]
    exact hi.live x hx

lemma Items.free {items : List A} {a : A} (hi : Items hashFcn h items) (hl : h.live a = true)
    (ha : a ∉ items) : ∃ h', h.free a = .ok h' ∧ Items hashFcn h' items ∧ h'.key = h.key ∧
      h'.live = Function.update h.live a false := by
  refine ⟨_, if_pos hl, hi.congr_live fun x hx => ?_, rfl, rfl⟩
  rw [Function.update_of_ne (ne_of_mem_of_not_mem hx ha)]
  exact hi.live x hx

omit [DecidableEq A] in
lemma map_filter_erase [DecidableEq A] {a : A} (hnd : (es.map Prod.fst).Nodup) :
    (es.filter fun e => e.1 ≠ a).map Prod.fst = (es.map Prod.fst).erase a := by
  rw [hnd.erase_eq_filter, List.filter_map]
  congr 1
  refine List.filter_congr fun e _ => ?_
  by_cases he : e.1 = a <;> simp [he]

lemma Stores.add {el : A} {malloc : ℕ → Bool} (hs : Stores hashFcn h es)
    (hnew : el ∉ es.map Prod.fst) (key : K) (hmalloc : Bounded malloc)
    (hfew : es.length + 1 < 2 ^ 32) :
    hashAdd hashFcn malloc (h.alloc el) key el = .error .exited ∨
      ∃ h', hashAdd hashFcn malloc (h.alloc el) key el = .ok h' ∧
        Stores hashFcn h' (es ++ [(el, key)]) := by
  have hlive : (h.alloc el).live el = true := Function.update_self _ _ _
  refine ((hs.items.alloc el).add hmalloc hlive hnew (by rwa [List.length_map]) key).imp_right ?_
  rintro ⟨h', hok, hi, -, hkey⟩
  refine ⟨h', hok, ?_, ?_⟩
  · rw [List.map_append]
    exact hi
  · rw [hkey]
    refine List.forall_mem_append.mpr ⟨fun e he => ?_, List.forall_mem_singleton.mpr ?_⟩
    · have hne : e.1 ≠ el := fun heq => hnew (heq ▸ List.mem_map_of_mem he)
      rw [Function.update_of_ne hne]
      exact hs.key e he
    · exact Function.update_self _ _ _

lemma Stores.del {el : A} (hs : Stores hashFcn h es) (hel : el ∈ es.map Prod.fst) :
    ∃ h₁ h', hashDelete h el = .ok h₁ ∧ h₁.free el = .ok h' ∧
      Stores hashFcn h' (es.filter fun e => e.1 ≠ el) := by
  obtain ⟨h₁, hdel, hi, hlive, hkey⟩ := hs.items.delete hel
  have hnot : el ∉ (es.map Prod.fst).erase el := hs.items.nodup.not_mem_erase
  have hl : h₁.live el = true := by
    rw [hlive]
    exact hs.items.live el hel
  obtain ⟨h', hfree, hi', hkey', -⟩ := hi.free hl hnot
  refine ⟨h₁, h', hdel, hfree, ?_, fun e he => ?_⟩
  · rw [map_filter_erase hs.items.nodup]
    exact hi'
  · rw [hkey', hkey]
    exact hs.key e (List.mem_of_mem_filter he)

/-- **One operation.** -/
lemma Stores.step {op : Op A K} (hs : Stores hashFcn h es) (ha : Admits es op) :
    UtHash.step hashFcn h op = .error .exited ∨
      ∃ h', UtHash.step hashFcn h op = .ok h' ∧ Stores hashFcn h' (after es op) := by
  cases op with
  | add el key malloc => exact hs.add ha.1 key ha.2.1 ha.2.2
  | del el =>
    obtain ⟨h₁, h', hdel, hfree, hs'⟩ := hs.del ha
    refine Or.inr ⟨h', ?_, hs'⟩
    simp only [UtHash.step, hdel, bind, Except.bind]
    exact hfree

lemma Stores.run {ops : List (Op A K)} (hs : Stores hashFcn h es) (ha : Admissible es ops) :
    UtHash.run hashFcn h ops = .error .exited ∨
      ∃ h', UtHash.run hashFcn h ops = .ok h' ∧ Stores hashFcn h' (ops.foldl after es) := by
  induction ops generalizing h es with
  | nil => exact Or.inr ⟨h, rfl, hs⟩
  | cons op ops ih =>
    unfold UtHash.run
    rw [List.foldlM_cons, List.foldl_cons]
    rcases hs.step ha.1 with hexit | ⟨h', hok, hs'⟩
    · left
      rw [hexit]
      rfl
    · rw [hok]
      exact ih hs' ha.2

omit [DecidableEq A] in
lemma Stores.find [DecidableEq K] (hs : Stores hashFcn h es) (key : K) :
    ∃ out, hashFind hashFcn h key = .ok out ∧ (out = none ↔ ∀ e ∈ es, e.2 ≠ key) ∧
      ∀ a, out = some a → (a, key) ∈ es := by
  obtain ⟨out, hout, hfound⟩ := hs.items.find key
  have hkeys : (∀ a ∈ es.map Prod.fst, h.key a ≠ key) ↔ ∀ e ∈ es, e.2 ≠ key := by
    rw [List.forall_mem_map]
    exact forall₂_congr fun e he => by rw [hs.key e he]
  refine ⟨out, hout, ?_⟩
  cases out with
  | none => exact ⟨⟨fun _ => hkeys.mp hfound, fun _ => rfl⟩, nofun⟩
  | some a =>
    refine ⟨⟨nofun, fun hnone => absurd hfound.2 (hkeys.mpr hnone a hfound.1)⟩, ?_⟩
    rintro b ⟨⟩
    obtain ⟨hmem, hkey⟩ := hfound
    obtain ⟨e, he, rfl⟩ := List.mem_map.mp hmem
    rw [← hkey, hs.key e he]
    exact he

omit [DecidableEq A] in
lemma Stores.answers [DecidableEq K] (hs : Stores hashFcn h es) : Answers hashFcn h es where
  iter := by
    obtain ⟨xs, hxs, hI⟩ := hashIter_rule (fun _ => h) (fun el xs => .ok (xs ++ [el]))
      (fun ys xs => xs ++ ys = es.map Prod.fst) hashFcn
      (fun y ys xs hI => ⟨xs ++ [y], rfl, by rw [← hI, List.append_assoc]; rfl⟩)
      (fun ys xs hI => Items.next (hI ▸ hs.items)) (s := []) hs.items rfl
    rw [List.append_nil] at hI
    rw [hashItems, hxs, hI]
  count := by rw [hs.items.count, List.length_map]
  found := by
    intro key a hfind
    obtain ⟨out, hout, -, hfound⟩ := hs.find key
    exact hfound a (by simpa [hout] using hfind)
  find := by
    intro key
    obtain ⟨out, hout, hnone, -⟩ := hs.find key
    exact ⟨out, hout, hnone⟩
  exact := by
    intro e he hone
    obtain ⟨out, hout, hnone, hfound⟩ := hs.find e.2
    cases out with
    | none => exact absurd rfl (hnone.mp rfl e he)
    | some a =>
      have heq := hone _ (hfound a rfl) rfl
      rw [hout, ← heq]

/-- **The hash table.** Whatever the hash function and however the operations follow each other,
no null pointer and no freed memory is read, no index is past its array and no loop runs on; the
program may exit for want of memory, and else the table answers as the list of its entries
does. -/
theorem run_answers [DecidableEq K] (hashFcn : K → BitVec 32) (h : Hash A K)
    (hempty : h.head = none) (ops : List (Op A K)) (ha : Admissible [] ops) :
    run hashFcn h ops = .error .exited ∨
      ∃ h', run hashFcn h ops = .ok h' ∧ Answers hashFcn h' (ops.foldl after []) := by
  have hs : Stores hashFcn h [] := ⟨Or.inl ⟨rfl, hempty⟩, fun e he => absurd he List.not_mem_nil⟩
  exact (hs.run ha).imp_right fun ⟨h', hok, hs'⟩ => ⟨h', hok, hs'.answers⟩

/-- Blocks of less than 64 GiB are given. -/
def giveBelow : ℕ → Bool := fun n => decide (n < 2 ^ 36)

lemma giveBelow_bounded : Bounded giveBelow := fun _ h => of_decide_eq_true h

def noItems : Hash ℕ ℕ where
  live := fun _ => false
  app := ⟨fun _ => none, fun _ => none⟩
  chain := ⟨fun _ => none, fun _ => none⟩
  hashv := fun _ => 0
  key := fun _ => 0
  head := none
  tbl := none

/-- Eleven items of one hash value, at which the buckets double, and one of them goes. -/
def collisions : List (Op ℕ ℕ) :=
  (List.range 11).map (fun i => .add i (100 + i) giveBelow) ++ [.del 3]

lemma collisions_admissible : Admissible [] collisions := by
  simp [collisions, Admissible, Admits, after, giveBelow_bounded, List.range, List.range.loop]

lemma collisions_ok : (run (fun _ => 0) noItems collisions).isOk = true := by decide +kernel

/-- The ten others are found. -/
theorem collisions_answered : ∃ h', run (fun _ => 0) noItems collisions = .ok h' ∧
    Answers (fun _ => 0) h' (collisions.foldl after []) := by
  have hok := collisions_ok
  rcases run_answers (fun _ => 0) noItems rfl collisions collisions_admissible with hexit | h
  · rw [hexit] at hok
    cases hok
  · exact h

/-! ### The buckets -/

omit [DecidableEq A] in
lemma Stores.rep {t : UtHashTable A} (hs : Stores hashFcn h es) (ht : h.table = .ok t) :
    Rep hashFcn h t (es.map Prod.fst) ∧ Load t := by
  rcases hs.items with ⟨-, hhead⟩ | ⟨t', hr, hload⟩
  · rw [Hash.table, hhead] at ht
    cases ht
  · have heq := hr.table_eq
    rw [ht] at heq
    cases heq
    exact ⟨hr, hload⟩

/-- The entries that a number of buckets puts into one of them. -/
def inBucket (hashFcn : K → BitVec 32) (es : List (A × K)) (num i : ℕ) : ℕ :=
  es.countP fun e => (hashFcn e.2).toNat % num = i

omit [DecidableEq A] in
lemma Stores.count {t : UtHashTable A} (hs : Stores hashFcn h es)
    (hr : Rep hashFcn h t (es.map Prod.fst)) {i : ℕ} (hi : i < t.num_buckets.toNat) :
    (t.buckets.bucket i).count = inBucket hashFcn es t.num_buckets.toNat i := by
  obtain ⟨xs, hxs, hmem⟩ := hr.chained i (hr.size ▸ hi)
  rw [hxs.count, hxs.length_eq_countP hr.nodup hmem, List.countP_map, inBucket]
  refine List.countP_congr fun e he => ?_
  have hval : h.hashv e.1 = hashFcn e.2 := by
    rw [hr.hashv e.1 (List.mem_map_of_mem he), hs.key e he]
  rw [Function.comp_apply, Hash.bkt, hval, toNat_and_pred hr.log2 hr.num_buckets, hr.num_buckets]

omit [DecidableEq A] in
lemma Rep.num_buckets_eq {t : UtHashTable A} {items : List A} (hr : Rep hashFcn h t items) :
    ∃ k, t.num_buckets.toNat = 32 * 2 ^ k := by
  refine ⟨t.log2_num_buckets - 5, ?_⟩
  have hge : 5 ≤ t.log2_num_buckets := hr.initial
  rw [hr.num_buckets, show (32 : ℕ) = 2 ^ 5 from rfl, ← pow_add, Nat.add_sub_cancel' hge]

omit [DecidableEq A] in
lemma noexpand_expanded {t : UtHashTable A} {s : Rehash A} {n : ℕ} (hn : t.num_items = n)
    (hineff : t.ineff_expands ≤ 1) :
    (expanded t s).noexpand = 0 ↔
      t.noexpand = 0 ∧ ¬ (2 * (expanded t s).nonideal_items > n ∧ 1 ≤ t.ineff_expands) := by
  have hhalf : s.nonideal_items > t.num_items >>> 1 ↔ 2 * s.nonideal_items > n := by
    rw [Nat.shiftRight_eq_div_pow, hn]
    omega
  have hwrap : unsigned (t.ineff_expands + 1) = t.ineff_expands + 1 := unsigned_of_lt (by omega)
  have hmore : ((if s.nonideal_items > t.num_items >>> 1 then unsigned (t.ineff_expands + 1)
      else 0) > 1) ↔ 2 * s.nonideal_items > n ∧ 1 ≤ t.ineff_expands := by
    rw [← hhalf, hwrap]
    split <;> omega
  simp only [expanded, hmore]
  split
  · next h => simp [h]
  · next h => simp [h]

/-- The buckets of a table with these entries. -/
structure Loaded (hashFcn : K → BitVec 32) (es : List (A × K)) (t : UtHashTable A) : Prop where
  num_buckets : ∃ k, t.num_buckets.toNat = 32 * 2 ^ k
  count : ∀ i < t.num_buckets.toNat,
    (t.buckets.bucket i).count = inBucket hashFcn es t.num_buckets.toNat i
  /-- chains are short as long as the buckets may double -/
  bound : t.noexpand = 0 → ∀ i, (t.buckets.bucket i).count ≤
    ((t.buckets.bucket i).expand_mult + 1) * max hashBktCapacityThresh t.ideal_chain_maxlen

/-- A table with these entries after its buckets doubled. -/
structure Doubled (hashFcn : K → BitVec 32) (es : List (A × K)) (t t' : UtHashTable A) :
    Prop where
  num_buckets : t'.num_buckets.toNat = 2 * t.num_buckets.toNat
  count : ∀ i < t'.num_buckets.toNat,
    (t'.buckets.bucket i).count = inBucket hashFcn es t'.num_buckets.toNat i
  /-- the number of items over the number of buckets, rounded up -/
  ideal_chain_maxlen : t'.ideal_chain_maxlen =
    (es.length + (t'.num_buckets.toNat - 1)) / t'.num_buckets.toNat
  /-- the items that stand behind the ideal length in their chain -/
  nonideal_items : t'.nonideal_items = ∑ i ∈ Finset.range t'.num_buckets.toNat,
    (inBucket hashFcn es t'.num_buckets.toNat i - t'.ideal_chain_maxlen)
  /-- expansion is inhibited once more than half of the items do so a second time in succession -/
  noexpand : t'.noexpand = 0 ↔
    t.noexpand = 0 ∧ ¬ (2 * t'.nonideal_items > es.length ∧ 1 ≤ t.ineff_expands)

lemma stores_run {ops : List (Op A K)} (hempty : h.head = none) (ha : Admissible [] ops)
    {h' : Hash A K} (hrun : run hashFcn h ops = .ok h') :
    Stores hashFcn h' (ops.foldl after []) := by
  have hs : Stores hashFcn h [] := ⟨Or.inl ⟨rfl, hempty⟩, fun e he => absurd he List.not_mem_nil⟩
  rcases hs.run ha with hexit | ⟨h'', hok, hs'⟩
  · rw [hrun] at hexit
    cases hexit
  · rw [hrun] at hok
    cases hok
    exact hs'

lemma collisions_table : ∃ h' t, run (fun _ => 0) noItems collisions = .ok h' ∧
    h'.table = .ok t := by
  have hok : (run (fun _ => 0) noItems collisions >>= Hash.table).isOk = true := by
    decide +kernel
  cases hrun : run (fun _ => 0) noItems collisions with
  | error e =>
    rw [hrun] at hok
    cases hok
  | ok h' =>
    rw [hrun] at hok
    cases ht : h'.table with
    | error e =>
      change h'.table.isOk = true at hok
      rw [ht] at hok
      cases hok
    | ok t => exact ⟨h', t, rfl, ht⟩

/-- **Short chains.** In every run the number of buckets is a power of two, every bucket counts the
entries whose hash value selects it, and as long as expansion is not inhibited none is longer than
its multiple of the threshold, or of the ideal chain length where that is more. -/
theorem run_load (hashFcn : K → BitVec 32) (h : Hash A K) (hempty : h.head = none)
    (ops : List (Op A K)) (ha : Admissible [] ops) (h' : Hash A K)
    (hrun : run hashFcn h ops = .ok h') (t : UtHashTable A) (ht : h'.table = .ok t) :
    Loaded hashFcn (ops.foldl after []) t := by
  have hs := stores_run hempty ha hrun
  obtain ⟨hr, hload⟩ := hs.rep ht
  exact ⟨hr.num_buckets_eq, fun i hi => hs.count hr hi, hload.bound⟩

theorem collisions_loaded : ∃ h' t, run (fun _ => 0) noItems collisions = .ok h' ∧
    h'.table = .ok t ∧ Loaded (fun _ => 0) (collisions.foldl after []) t := by
  obtain ⟨h', t, hrun, ht⟩ := collisions_table
  exact ⟨h', t, hrun, ht,
    run_load (fun _ => 0) noItems rfl collisions collisions_admissible h' hrun t ht⟩

lemma Rep.doubled {t t₁ : UtHashTable A} {h₁ : Hash A K} {i : ℕ} {malloc : ℕ → Bool}
    (hmalloc : Bounded malloc) (hr : Rep hashFcn h₁ t₁ (es.map Prod.fst))
    (hkey : ∀ e ∈ es, h₁.key e.1 = e.2) (hc : Counted t t₁ i) (hineff : t.ineff_expands ≤ 1) :
    hashExpandBuckets malloc h₁ t₁ = .error .exited ∨
      ∃ h' t', hashExpandBuckets malloc h₁ t₁ = .ok h' ∧ h'.table = .ok t' ∧
        Doubled hashFcn es t t' := by
  have hlen : t₁.num_items = es.length := by rw [hr.num_items, List.length_map]
  refine (hr.expand hmalloc).imp_right ?_
  rintro ⟨s, hexpand, hnonideal, hr', hload'⟩
  have hs' : Stores hashFcn { h₁ with chain := s.chain, tbl := some (expanded t₁ s) } es :=
    ⟨Or.inr ⟨_, hr', hload'⟩, hkey⟩
  have hlog2 : (expanded t₁ s).log2_num_buckets = t₁.log2_num_buckets + 1 :=
    unsigned_of_lt (lt_of_le_of_lt hr.log2 (by decide))
  have hnum : (expanded t₁ s).num_buckets.toNat = 2 * t₁.num_buckets.toNat := by
    rw [hr'.num_buckets, hr.num_buckets, hlog2, pow_succ, Nat.mul_comm]
  have hlog : t₁.log2_num_buckets < 31 := by
    have := hr'.log2
    omega
  refine ⟨_, expanded t₁ s, hexpand, hr'.table_eq, ?_, fun i hi => hs'.count hr' hi, ?_, ?_, ?_⟩
  · rw [hnum, hc.num_buckets]
  · rw [hnum, ← hlen]
    exact idealChainMaxlen_eq hlog hr.num_buckets (hr.num_items ▸ hr.few)
  · change s.nonideal_items = _
    rw [hnonideal, nonideal, show s.new_buckets.size = _ from hr'.size]
    refine Finset.sum_congr rfl fun i hi => ?_
    rw [← hs'.count hr' (Finset.mem_range.mp hi)]
    rfl
  · rw [← hc.noexpand, ← hc.ineff]
    exact noexpand_expanded hlen (hc.ineff.trans_le hineff)

/-- Nine items of one hash value. -/
def almostFull : List (Op ℕ ℕ) := (List.range 9).map fun i => .add i (100 + i) giveBelow

lemma almostFull_admissible : Admissible [] almostFull := by
  simp [almostFull, Admissible, Admits, after, giveBelow_bounded, List.range, List.range.loop]

lemma almostFull_tenth : Admits (almostFull.foldl after []) (.add 9 109 giveBelow) := by
  simp [almostFull, Admits, after, giveBelow_bounded, List.range, List.range.loop]

lemma almostFull_run : ∃ h' t, run (fun _ => 0) noItems almostFull = .ok h' ∧ h'.table = .ok t ∧
    Full t ((0 : BitVec 32).toNat % t.num_buckets.toNat) ∧
    (step (fun _ => 0) h' (.add 9 109 giveBelow)).isOk = true := by
  have hok : (do
      let h' ← run (fun _ => 0) noItems almostFull
      let t ← h'.table
      if Full t ((0 : BitVec 32).toNat % t.num_buckets.toNat) then
        step (fun _ => 0) h' (.add 9 109 giveBelow)
      else .error .fault).isOk = true := by decide +kernel
  cases hrun : run (fun _ => 0) noItems almostFull with
  | error e =>
    rw [hrun] at hok
    cases hok
  | ok h' =>
    cases ht : h'.table with
    | error e =>
      simp only [hrun, ht, bind, Except.bind] at hok
      cases hok
    | ok t =>
      simp only [hrun, ht, bind, Except.bind] at hok
      split at hok
      · next hfull => exact ⟨h', t, rfl, ht, hfull, hok⟩
      · cases hok

end Gpiod.UtHash
