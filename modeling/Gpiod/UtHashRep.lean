import Gpiod.UtHash
import Mathlib.Algebra.BigOperators.Group.Finset.Basic
import Mathlib.Algebra.Order.BigOperators.Group.Finset
import Mathlib.Algebra.BigOperators.Intervals

/-!
What a hash table holds, and what every macro does to it.

The items in the order of insertion are one list. Each bucket holds a chain of the items whose
hash value selects it; a change of one chain leaves the pointers of the others as they are.
-/

namespace Gpiod.UtHash

open Gpiod.NullList

variable {A K : Type}

/-! ### Chains -/

/-- The items of a bucket, the one added last in front. -/
structure Chain (p : Ptrs A) (b : UtHashBucket A) (xs : List A) : Prop where
  head : b.hh_head = xs.head?
  count : b.count = xs.length
  seg : Seg p none xs none
  nodup : xs.Nodup

/-- The items `S` are in the buckets that `idx` selects. -/
def Chained (p : Ptrs A) (bs : Buckets A) (idx : A → ℕ) (S : Set A) : Prop :=
  ∀ i < bs.size, ∃ xs, Chain p (bs.bucket i) xs ∧ ∀ a, a ∈ xs ↔ a ∈ S ∧ idx a = i

variable {p p' : Ptrs A} {bs : Buckets A} {b : UtHashBucket A} {idx : A → ℕ} {S : Set A} {a : A}
  {xs ys : List A}

lemma Chain.congr (hc : Chain p b xs) (hsame : ∀ x ∈ xs, SameAt p p' x) : Chain p' b xs :=
  ⟨hc.head, hc.count, hc.seg.congr hsame, hc.nodup⟩

lemma Chain.length_eq_countP (hc : Chain p b xs) {items : List A} (hnd : items.Nodup) {i : ℕ}
    (hmem : ∀ a, a ∈ xs ↔ a ∈ items ∧ idx a = i) : xs.length = items.countP (idx · = i) := by
  rw [List.countP_eq_length_filter]
  refine List.Perm.length_eq ((List.perm_ext_iff_of_nodup hc.nodup (hnd.filter _)).mpr fun a => ?_)
  rw [hmem a, List.mem_filter, decide_eq_true_eq]

lemma chained_zero (p : Ptrs A) (idx : A → ℕ) (size : ℕ) :
    Chained p (.zero size) idx ∅ := fun _ _ =>
  ⟨[], ⟨rfl, rfl, trivial, List.nodup_nil⟩, fun _ => by simp⟩

@[simp] lemma set_size (bs : Buckets A) (i : ℕ) (b : UtHashBucket A) :
    (bs.set i b).size = bs.size := rfl

@[simp] lemma set_bucket_self (bs : Buckets A) (i : ℕ) (b : UtHashBucket A) :
    (bs.set i b).bucket i = b := Function.update_self _ _ _

lemma set_bucket_of_ne {i j : ℕ} (b : UtHashBucket A) (h : j ≠ i) :
    (bs.set i b).bucket j = bs.bucket j := Function.update_of_ne h _ _

variable [DecidableEq A]

/-- **A new item** goes to the front of the bucket it selects. -/
lemma Chained.push (hc : Chained p bs idx S) (ha : a ∉ S) (hi : idx a < bs.size)
    (hhead : b.hh_head = some a) (hcount : b.count = (bs.bucket (idx a)).count + 1) :
    Chained (p.push a (bs.bucket (idx a)).hh_head) (bs.set (idx a) b) idx (insert a S) := by
  obtain ⟨xs, hxs, hmem⟩ := hc (idx a) hi
  have hax : a ∉ xs := fun h => ha ((hmem a).mp h).1
  intro i hlt
  by_cases heq : i = idx a
  · subst heq
    refine ⟨a :: xs, ⟨?_, ?_, ?_, List.nodup_cons.mpr ⟨hax, hxs.nodup⟩⟩, fun x => ?_⟩
    · rw [set_bucket_self, hhead]
      rfl
    · rw [set_bucket_self, hcount, hxs.count]
      rfl
    · rw [hxs.head]
      exact hxs.seg.push hxs.nodup hax
    · rw [List.mem_cons, hmem x, Set.mem_insert_iff]
      refine ⟨?_, fun h => h.1.imp_right fun hx => ⟨hx, h.2⟩⟩
      rintro (rfl | h)
      · exact ⟨Or.inl rfl, rfl⟩
      · exact ⟨Or.inr h.1, h.2⟩
  · obtain ⟨ys, hys, hmem'⟩ := hc i hlt
    refine ⟨ys, ?_, fun x => ?_⟩
    · rw [set_bucket_of_ne b heq]
      refine hys.congr fun y hy => sameAt_push p ?_ ?_
      · rintro rfl
        exact ha ((hmem' y).mp hy).1
      · rw [hxs.head]
        refine head?_ne_of_not_mem fun hyx => heq ?_
        rw [← ((hmem' y).mp hy).2, ((hmem y).mp hyx).2]
    · rw [hmem' x, Set.mem_insert_iff]
      refine and_congr_left fun hx => ⟨Or.inr, ?_⟩
      rintro (rfl | h)
      · exact absurd hx.symm heq
      · exact h

/-- **An item that goes** leaves the bucket it selects. -/
lemma Chained.unlink (hc : Chained p bs idx S) (ha : a ∈ S) (hi : idx a < bs.size)
    (hhead : b.hh_head =
      if (bs.bucket (idx a)).hh_head = some a then p.next a else (bs.bucket (idx a)).hh_head)
    (hcount : b.count = (bs.bucket (idx a)).count - 1) :
    Chained (p.unlink a) (bs.set (idx a) b) idx (S \ {a}) := by
  obtain ⟨xs, hxs, hmem⟩ := hc (idx a) hi
  obtain ⟨ys, zs, rfl⟩ := List.append_of_mem ((hmem a).mpr ⟨ha, rfl⟩)
  have hnext := hxs.seg.next_eq
  have hprev := hxs.seg.prev_eq
  rw [Option.or_none] at hnext hprev
  have hnd := hxs.nodup
  obtain ⟨hndy, hnda, hdisj⟩ := List.nodup_append.mp hnd
  have hay : a ∉ ys := fun h => hdisj a h a List.mem_cons_self rfl
  have haz : a ∉ zs := (List.nodup_cons.mp hnda).1
  intro i hlt
  by_cases heq : i = idx a
  · subst heq
    refine ⟨ys ++ zs, ⟨?_, ?_, hxs.seg.unlink hnd, ?_⟩, fun x => ?_⟩
    · rw [set_bucket_self, hhead, hxs.head, hnext]
      cases ys with
      | nil => simp
      | cons y ys =>
        have hya : y ≠ a := fun h => hay (h ▸ List.mem_cons_self)
        simp [hya]
    · rw [set_bucket_self, hcount, hxs.count]
      simp
    · exact hnd.sublist (List.Sublist.append_left (List.sublist_cons_self a zs) ys)
    · have hx := hmem x
      rw [List.mem_append, List.mem_cons] at hx
      rw [List.mem_append, Set.mem_sdiff, Set.mem_singleton_iff]
      by_cases hxa : x = a
      · subst hxa
        simp [hay, haz]
      · simp only [hxa, false_or] at hx
        rw [hx]
        simp [hxa]
  · obtain ⟨ws, hws, hmem'⟩ := hc i hlt
    have hout : ∀ w ∈ ws, w ∉ ys ++ a :: zs := fun w hw h => heq
      (((hmem' w).mp hw).2.symm.trans ((hmem w).mp h).2)
    refine ⟨ws, ?_, fun x => ?_⟩
    · rw [set_bucket_of_ne b heq]
      refine hws.congr fun w hw => sameAt_unlink ?_ ?_ ?_
      · rw [hprev]
        exact getLast?_ne_of_not_mem hay
      · rw [hprev]
        exact getLast?_ne_of_not_mem fun h => hout w hw (List.mem_append_left _ h)
      · rw [hnext]
        exact head?_ne_of_not_mem fun h =>
          hout w hw (List.mem_append_right _ (List.mem_cons_of_mem _ h))
    · rw [hmem' x, Set.mem_sdiff, Set.mem_singleton_iff]
      refine and_congr_left fun hx => ⟨fun h => ⟨h, ?_⟩, And.left⟩
      rintro rfl
      exact heq hx.symm

/-! ### Reading memory -/

lemma toNat_and_pred {v n : BitVec 32} {k : ℕ} (hk : k < 32) (hn : n.toNat = 2 ^ k) :
    hashToBkt v n = v.toNat % 2 ^ k := by
  have hpos : 0 < 2 ^ k := Nat.two_pow_pos k
  have hlt : 2 ^ k < 2 ^ 32 := Nat.pow_lt_pow_right (by decide) hk
  have hone : (1 : BitVec 32).toNat = 1 := rfl
  have hpred : (n - 1).toNat = 2 ^ k - 1 := by
    rw [BitVec.toNat_sub, hn, hone]
    omega
  rw [hashToBkt, BitVec.toNat_and, hpred, Nat.and_two_pow_sub_one_eq_mod]

omit [DecidableEq A] in
lemma get_eq {bs : Buckets A} {i : ℕ} (h : i < bs.size) : bs.get i = .ok (bs.bucket i) :=
  if_pos h

variable {h : Hash A K}

omit [DecidableEq A] in
lemma deref_eq (hl : h.live a = true) : h.deref a = .ok () := if_pos hl

omit [DecidableEq A] in
lemma deref?_eq {v : Option A} (hl : ∀ a, v = some a → h.live a = true) :
    h.deref? v = .ok () := by
  cases v with
  | none => rfl
  | some a => exact deref_eq (hl a rfl)

omit [DecidableEq A] in
/-- **A chain is searched** to its end. -/
lemma hashFindInBkt_eq [DecidableEq K] {keyptr : K} {hashval : BitVec 32} {n : ℕ} {q : Option A}
    (hs : Seg h.chain q xs none) (hl : ∀ a ∈ xs, h.live a = true) (hn : xs.length ≤ n) :
    hashFindInBkt h keyptr hashval n xs.head? =
      .ok (xs.find? fun a => h.hashv a = hashval ∧ h.key a = keyptr) := by
  induction xs generalizing n q with
  | nil => cases n <;> rfl
  | cons x xs ih =>
    obtain ⟨-, hnext, hrest⟩ := hs
    obtain ⟨hx, hxs⟩ := List.forall_mem_cons.mp hl
    cases n with
    | zero => simp at hn
    | succ n =>
      rw [Option.or_none] at hnext
      rw [List.head?_cons, hashFindInBkt, deref_eq hx, hnext, List.find?_cons]
      have hih := ih hrest hxs (Nat.le_of_succ_le_succ hn)
      by_cases hkey : h.hashv x = hashval ∧ h.key x = keyptr
      · simp only [hkey, and_self, if_true, decide_true]
        rfl
      · simp only [hkey, if_false, decide_false]
        exact hih

/-! ### Buckets that double -/

/-- The items that stand behind the ideal chain length of their bucket. -/
def nonideal (bs : Buckets A) (ideal : ℕ) : ℕ :=
  ∑ i ∈ Finset.range bs.size, ((bs.bucket i).count - ideal)

/-- How often the ideal length goes into a chain that is longer. -/
def expandMult (count ideal : ℕ) : ℕ := if count > ideal then count / ideal else 0

/-- What the loops have done once they have moved the items `S`. -/
structure Moved (h : Hash A K) (size ideal : ℕ) (idx : A → ℕ) (s : Rehash A) (S : Set A) :
    Prop where
  size : s.new_buckets.size = size
  chained : Chained s.chain s.new_buckets idx S
  /-- the items that are still to be moved have their pointers -/
  same : ∀ a ∉ S, SameAt h.chain s.chain a
  nonideal : s.nonideal_items = unsigned (nonideal s.new_buckets ideal)
  mult : ∀ i, (s.new_buckets.bucket i).expand_mult = expandMult (s.new_buckets.bucket i).count ideal

omit [DecidableEq A] in
lemma sum_set {bs : Buckets A} {i : ℕ} (ideal : ℕ) (hi : i < bs.size) (b : UtHashBucket A) :
    nonideal (bs.set i b) ideal + ((bs.bucket i).count - ideal) =
      nonideal bs ideal + (b.count - ideal) := by
  have hmem := Finset.mem_range.mpr hi
  unfold nonideal
  rw [set_size, ← Finset.add_sum_erase _ _ hmem, ← Finset.add_sum_erase _ _ hmem, set_bucket_self]
  have hrest : ∑ j ∈ (Finset.range bs.size).erase i, (((bs.set i b).bucket j).count - ideal) =
      ∑ j ∈ (Finset.range bs.size).erase i, ((bs.bucket j).count - ideal) :=
    Finset.sum_congr rfl fun j hj => by rw [set_bucket_of_ne b (Finset.ne_of_mem_erase hj)]
  rw [hrest]
  omega

omit [DecidableEq A] in
lemma overflow_eq {ideal : ℕ} (hideal : ideal ≠ 0) {b : UtHashBucket A}
    (hb : b.expand_mult = expandMult b.count ideal) (n : ℕ) :
    overflow ideal (b.count + 1) b (unsigned n) = .ok (expandMult (b.count + 1) ideal,
      unsigned (n + ((b.count + 1 - ideal) - (b.count - ideal)))) := by
  unfold overflow expandMult at *
  by_cases hlt : b.count + 1 > ideal
  · have hwrap : unsigned (unsigned n + 1) = unsigned (n + 1) := Nat.mod_add_mod n (2 ^ 32) 1
    rw [if_pos hlt, if_neg hideal, if_pos hlt, hwrap,
      show b.count + 1 - ideal - (b.count - ideal) = 1 by omega]
  · rw [if_neg hlt, hb, if_neg hlt, if_neg (by omega),
      show b.count + 1 - ideal - (b.count - ideal) = 0 by omega, Nat.add_zero]

variable {size ideal : ℕ} {num_bkts : BitVec 32} {s : Rehash A} {items : List A}

omit [DecidableEq A] in
lemma Chain.count_lt (hc : Chain p b xs) (hin : ∀ x ∈ xs, x ∈ items) (hain : a ∈ items)
    (ha : a ∉ xs) : b.count < items.length := by
  have hsub : ∀ x ∈ a :: xs, x ∈ items := List.forall_mem_cons.mpr ⟨hain, hin⟩
  rw [hc.count]
  exact ((List.nodup_cons.mpr ⟨ha, hc.nodup⟩).subperm hsub).length_le

/-- **An item that is moved.** -/
lemma Moved.item (hideal : ideal ≠ 0) (hl : ∀ a ∈ S, h.live a = true) (ha : a ∉ S)
    (hS : ∀ x ∈ S, x ∈ items) (hain : a ∈ items) (hfew : items.length < 2 ^ 32)
    (hi : hashToBkt (h.hashv a) num_bkts < size)
    (hm : Moved h size ideal (fun a => hashToBkt (h.hashv a) num_bkts) s S) :
    ∃ s', rehashItem h ideal num_bkts a s = .ok s' ∧
      Moved h size ideal (fun a => hashToBkt (h.hashv a) num_bkts) s' (insert a S) := by
  set i := hashToBkt (h.hashv a) num_bkts with hidx
  set b := s.new_buckets.bucket i with hb
  have hlt : i < s.new_buckets.size := by rw [hm.size]; exact hi
  obtain ⟨xs, hxs, hmem⟩ := hm.chained i hlt
  have hhead : ∀ x, b.hh_head = some x → x ∈ S := fun x hx =>
    ((hmem x).mp (List.mem_of_head? (hxs.head ▸ hx))).1
  have hcount : unsigned (b.count + 1) = b.count + 1 := unsigned_of_lt (lt_of_le_of_lt
    (hxs.count_lt (fun x hx => hS x ((hmem x).mp hx).1) hain fun hx => ha ((hmem a).mp hx).1) hfew)
  set mult := expandMult (b.count + 1) ideal with hmult
  have hover := overflow_eq hideal (hm.mult i) (UtHash.nonideal s.new_buckets ideal)
  rw [← hb, ← hmult, ← hm.nonideal] at hover
  have hderef : h.deref? b.hh_head = .ok () := deref?_eq fun x hx => hl x (hhead x hx)
  refine ⟨⟨s.chain.push a b.hh_head, s.new_buckets.set i ⟨some a, b.count + 1, mult⟩,
    unsigned (UtHash.nonideal s.new_buckets ideal + (b.count + 1 - ideal - (b.count - ideal)))⟩,
    ?_, ?_⟩
  · simp only [rehashItem, ← hidx, get_eq hlt, ← hb, hcount, hover, hderef, bind, Except.bind]
  · refine ⟨hm.size, hm.chained.push ha hlt rfl rfl, fun x hx => ?_, ?_, fun j => ?_⟩
    · rw [Set.mem_insert_iff, not_or] at hx
      exact (hm.same x hx.2).trans (sameAt_push _ hx.1 fun he => hx.2 (hhead x he))
    · have hsum := sum_set ideal hlt ⟨some a, b.count + 1, mult⟩
      rw [← hb] at hsum
      simp only at hsum ⊢
      refine congrArg unsigned ?_
      omega
    · by_cases hj : j = i
      · rw [hj, set_bucket_self]
      · rw [set_bucket_of_ne _ hj]
        exact hm.mult j

/-- **The items of an old bucket**, from one on. -/
lemma Moved.chain {n : ℕ} {q : Option A} (hideal : ideal ≠ 0)
    (hi : ∀ a, hashToBkt (h.hashv a) num_bkts < size) (hs : Seg h.chain q xs none)
    (hnd : xs.Nodup) (hl : ∀ a ∈ S, h.live a = true) (hxl : ∀ a ∈ xs, h.live a = true)
    (hout : ∀ a ∈ xs, a ∉ S) (hS : ∀ a ∈ S, a ∈ items) (hxS : ∀ a ∈ xs, a ∈ items)
    (hfew : items.length < 2 ^ 32) (hn : xs.length ≤ n)
    (hm : Moved h size ideal (fun a => hashToBkt (h.hashv a) num_bkts) s S) :
    ∃ s', rehashChain h ideal num_bkts n xs.head? s = .ok s' ∧
      Moved h size ideal (fun a => hashToBkt (h.hashv a) num_bkts) s' (S ∪ {a | a ∈ xs}) := by
  induction xs generalizing n q s S with
  | nil =>
    refine ⟨s, by cases n <;> rfl, ?_⟩
    simpa using hm
  | cons x xs ih =>
    obtain ⟨-, hnext, hrest⟩ := hs
    obtain ⟨hxnot, hndxs⟩ := List.nodup_cons.mp hnd
    obtain ⟨hx, hxs⟩ := List.forall_mem_cons.mp hxl
    obtain ⟨hxout, hxsout⟩ := List.forall_mem_cons.mp hout
    obtain ⟨hxin, hxsin⟩ := List.forall_mem_cons.mp hxS
    cases n with
    | zero => simp at hn
    | succ n =>
      obtain ⟨s', hs', hm'⟩ := hm.item hideal hl hxout hS hxin hfew (hi x)
      have hnxt : s.chain.next x = xs.head? := by
        rw [(hm.same x hxout).1, hnext, Option.or_none]
      have hl' : ∀ a ∈ insert x S, h.live a = true := by
        rintro a (rfl | ha)
        · exact hx
        · exact hl a ha
      have hout' : ∀ a ∈ xs, a ∉ insert x S := by
        rintro a ha (rfl | hS)
        · exact hxnot ha
        · exact hxsout a ha hS
      have hS' : ∀ a ∈ insert x S, a ∈ items := by
        rintro a (rfl | ha)
        · exact hxin
        · exact hS a ha
      obtain ⟨s'', hs'', hm''⟩ := ih hrest hndxs hl' hxs hout' hS' hxsin
        (Nat.le_of_succ_le_succ hn) hm'
      refine ⟨s'', ?_, ?_⟩
      · rw [List.head?_cons, rehashChain, deref_eq hx, hnxt]
        simp only [bind, Except.bind]
        rw [hs']
        exact hs''
      · have hset : S ∪ {a | a ∈ x :: xs} = insert x S ∪ {a | a ∈ xs} := by
          ext a
          simp only [Set.mem_union, Set.mem_ofPred_eq, List.mem_cons, Set.mem_insert_iff]
          tauto
        rw [hset]
        exact hm''

/-! ### What a table holds -/

def Hash.bkt (h : Hash A K) (num_bkts : BitVec 32) (a : A) : ℕ := hashToBkt (h.hashv a) num_bkts

/-- The items in the order of insertion, and the table they point at. -/
structure Linked (hashFcn : K → BitVec 32) (h : Hash A K) (t : UtHashTable A) (items : List A) :
    Prop where
  head : h.head = items.head?
  tbl : h.tbl = some t
  nodup : items.Nodup
  live : ∀ a ∈ items, h.live a = true
  app : Seg h.app none items none
  tail : items.getLast? = some t.tail
  hashv : ∀ a ∈ items, h.hashv a = hashFcn (h.key a)
  initial : hashInitialNumBucketsLog2 ≤ t.log2_num_buckets
  log2 : t.log2_num_buckets < 32
  num_buckets : t.num_buckets.toNat = 2 ^ t.log2_num_buckets
  size : t.buckets.size = t.num_buckets.toNat

/-- A table that is there holds the items. -/
structure Rep (hashFcn : K → BitVec 32) (h : Hash A K) (t : UtHashTable A) (items : List A) :
    Prop extends Linked hashFcn h t items where
  few : items.length < 2 ^ 32
  num_items : t.num_items = items.length
  chained : Chained h.chain t.buckets (h.bkt t.num_buckets) {a | a ∈ items}

/-- What keeps the chains short while the buckets may still double. -/
structure Load (t : UtHashTable A) : Prop where
  ineff : t.noexpand = 0 → t.ineff_expands ≤ 1
  bound : t.noexpand = 0 → ∀ i, (t.buckets.bucket i).count ≤
    ((t.buckets.bucket i).expand_mult + 1) * max hashBktCapacityThresh t.ideal_chain_maxlen

/-- The items of a table, which is there if there are any. -/
def Items (hashFcn : K → BitVec 32) (h : Hash A K) (items : List A) : Prop :=
  (items = [] ∧ h.head = none) ∨ ∃ t, Rep hashFcn h t items ∧ Load t

section Rep

variable {hashFcn : K → BitVec 32} {t : UtHashTable A} {items : List A}

omit [DecidableEq A]

lemma Items.live (hi : Items hashFcn h items) : ∀ a ∈ items, h.live a = true := by
  rcases hi with ⟨rfl, -⟩ | ⟨t, hr, hload⟩
  · exact fun a ha => absurd ha List.not_mem_nil
  · exact hr.live

lemma Items.nodup (hi : Items hashFcn h items) : items.Nodup := by
  rcases hi with ⟨rfl, -⟩ | ⟨t, hr, hload⟩
  · exact List.nodup_nil
  · exact hr.nodup

lemma Linked.ne_nil (hr : Linked hashFcn h t items) : items ≠ [] := by
  rintro rfl
  cases hr.tail

lemma Linked.table_eq (hr : Linked hashFcn h t items) : h.table = .ok t := by
  cases items with
  | nil => exact absurd rfl hr.ne_nil
  | cons x xs =>
    have hlive := hr.live x List.mem_cons_self
    unfold Hash.table
    rw [hr.head, hr.tbl]
    simp only [List.head?_cons, deref_eq hlive, bind, Except.bind]

lemma Linked.bkt_lt (hr : Linked hashFcn h t items) (v : BitVec 32) :
    hashToBkt v t.num_buckets < t.buckets.size := by
  rw [toNat_and_pred hr.log2 hr.num_buckets, hr.size, hr.num_buckets]
  exact Nat.mod_lt _ (Nat.two_pow_pos _)

lemma Rep.bucket (hr : Rep hashFcn h t items) {i : ℕ} (hi : i < t.buckets.size) :
    ∃ xs, Chain h.chain (t.buckets.bucket i) xs ∧ xs.length ≤ t.num_items ∧
      ∀ a, a ∈ xs ↔ a ∈ items ∧ h.bkt t.num_buckets a = i := by
  obtain ⟨xs, hxs, hmem⟩ := hr.chained i hi
  refine ⟨xs, hxs, ?_, hmem⟩
  rw [hr.num_items]
  exact (hxs.nodup.subperm fun a ha => ((hmem a).mp ha).1).length_le

/-! ### Finding -/

/-- What a search for a key may return. -/
def Found (key : A → K) (items : List A) (keyptr : K) : Option A → Prop
  | none => ∀ a ∈ items, key a ≠ keyptr
  | some a => a ∈ items ∧ key a = keyptr

lemma Rep.find [DecidableEq K] (hr : Rep hashFcn h t items) (keyptr : K) :
    ∃ out, hashFind hashFcn h keyptr = .ok out ∧ Found h.key items keyptr out := by
  have hlt := hr.bkt_lt (hashFcn keyptr)
  obtain ⟨xs, hxs, hle, hmem⟩ := hr.bucket hlt
  have hlive : ∀ a ∈ xs, h.live a = true := fun a ha => hr.live a ((hmem a).mp ha).1
  refine ⟨xs.find? fun a => h.hashv a = hashFcn keyptr ∧ h.key a = keyptr, ?_, ?_⟩
  · cases hhead : h.head with
    | none =>
      rw [hr.head] at hhead
      exact absurd (List.head?_eq_none_iff.mp hhead) hr.ne_nil
    | some x =>
      simp only [hashFind, hhead, hr.table_eq, get_eq hlt, bind, Except.bind]
      rw [hxs.head]
      exact hashFindInBkt_eq hxs.seg hlive hle
  · cases hf : xs.find? fun a => h.hashv a = hashFcn keyptr ∧ h.key a = keyptr with
    | none =>
      -- an item under the key has its hash value, and is in the bucket
      intro a ha hkey
      have hval : h.hashv a = hashFcn keyptr := by rw [hr.hashv a ha, hkey]
      have hin : a ∈ xs := (hmem a).mpr ⟨ha, by rw [Hash.bkt, hval]⟩
      have := List.find?_eq_none.mp hf a hin
      simp [hval, hkey] at this
    | some a =>
      have hin := List.mem_of_find?_eq_some hf
      have hkey := List.find?_some hf
      rw [decide_eq_true_eq] at hkey
      exact ⟨((hmem a).mp hin).1, hkey.2⟩

lemma Items.find [DecidableEq K] (hi : Items hashFcn h items) (keyptr : K) :
    ∃ out, hashFind hashFcn h keyptr = .ok out ∧ Found h.key items keyptr out := by
  rcases hi with ⟨rfl, hhead⟩ | ⟨t, hr, hload⟩
  · exact ⟨none, by rw [hashFind, hhead], fun a ha => absurd ha List.not_mem_nil⟩
  · exact hr.find keyptr

/-! ### Expansion -/

lemma idealChainMaxlen_eq (hlog : t.log2_num_buckets < 31)
    (hnum : t.num_buckets.toNat = 2 ^ t.log2_num_buckets) (hfew : t.num_items < 2 ^ 32) :
    idealChainMaxlen t =
      (t.num_items + (2 * t.num_buckets.toNat - 1)) / (2 * t.num_buckets.toNat) := by
  have hlt : 2 ^ (t.log2_num_buckets + 1) < 2 ^ 32 :=
    Nat.pow_lt_pow_right (by decide) (by omega)
  have htwo : (2 : BitVec 32).toNat = 2 := rfl
  have hone : (1 : BitVec 32).toNat = 1 := rfl
  have hpos : 0 < 2 ^ t.log2_num_buckets := Nat.two_pow_pos _
  rw [pow_succ] at hlt
  have hmask : (t.num_buckets * 2 - 1).toNat = 2 ^ (t.log2_num_buckets + 1) - 1 := by
    rw [BitVec.toNat_sub, BitVec.toNat_mul, hnum, htwo, hone, Nat.mod_eq_of_lt hlt, pow_succ]
    omega
  have hsize : 2 * t.num_buckets.toNat = 2 ^ (t.log2_num_buckets + 1) := by
    rw [hnum, pow_succ, Nat.mul_comm]
  rw [idealChainMaxlen, hmask, Nat.and_two_pow_sub_one_eq_mod, Nat.shiftRight_eq_div_pow, hsize]
  have htwice : 2 ≤ 2 ^ (t.log2_num_buckets + 1) := by
    rw [pow_succ]
    omega
  set d := 2 ^ (t.log2_num_buckets + 1) with hd
  have hdpos : 0 < d := Nat.two_pow_pos _
  have hsplit := Nat.div_add_mod t.num_items d
  have hmod := Nat.mod_lt t.num_items hdpos
  have hhalf : t.num_items / d ≤ t.num_items / 2 := Nat.div_le_div_left htwice (by decide)
  set q := t.num_items / d
  set r := t.num_items % d
  have hsum : t.num_items + (d - 1) = r + (d - 1) + d * q := by omega
  have hsmall : q + (if r ≠ 0 then 1 else 0) < 2 ^ 32 := by
    split <;> omega
  rw [unsigned_of_lt hsmall, hsum, Nat.add_mul_div_left _ _ hdpos]
  by_cases hr : r = 0
  · rw [if_neg (by simpa using hr), hr, Nat.div_eq_of_lt (by omega)]
    omega
  · have hone' : (r + (d - 1)) / d = 1 := by
      rw [Nat.div_eq_iff hdpos]
      omega
    rw [if_pos hr, hone', Nat.add_comm]

end Rep

section Rep

variable {hashFcn : K → BitVec 32} {t : UtHashTable A} {items : List A} {malloc : ℕ → Bool}

lemma Moved.buckets {n : ℕ} (hideal : ideal ≠ 0)
    (hi : ∀ a, hashToBkt (h.hashv a) (t.num_buckets * 2) < size)
    (hr : Rep hashFcn h t items) (hn : n ≤ t.buckets.size)
    (hm : Moved h size ideal (h.bkt (t.num_buckets * 2)) s ∅) :
    ∃ s', rehashBuckets h t ideal n s = .ok s' ∧
      Moved h size ideal (h.bkt (t.num_buckets * 2)) s'
        {a | a ∈ items ∧ h.bkt t.num_buckets a < n} := by
  induction n with
  | zero =>
    refine ⟨s, rfl, ?_⟩
    simpa using hm
  | succ n ih =>
    obtain ⟨s', hs', hm'⟩ := ih (Nat.le_of_succ_le hn)
    obtain ⟨xs, hxs, hle, hmem⟩ := hr.bucket (Nat.lt_of_succ_le hn)
    have hlive : ∀ a ∈ {a | a ∈ items ∧ h.bkt t.num_buckets a < n}, h.live a = true :=
      fun a ha => hr.live a ha.1
    have hxlive : ∀ a ∈ xs, h.live a = true := fun a ha => hr.live a ((hmem a).mp ha).1
    have hout : ∀ a ∈ xs, a ∉ {a | a ∈ items ∧ h.bkt t.num_buckets a < n} := fun a ha hin => by
      have := ((hmem a).mp ha).2
      have := hin.2
      omega
    have hin : ∀ a ∈ {a | a ∈ items ∧ h.bkt t.num_buckets a < n}, a ∈ items := fun a ha => ha.1
    have hxin : ∀ a ∈ xs, a ∈ items := fun a ha => ((hmem a).mp ha).1
    obtain ⟨s'', hs'', hm''⟩ := hm'.chain hideal hi hxs.seg hxs.nodup hlive hxlive hout hin hxin
      hr.few hle
    refine ⟨s'', ?_, ?_⟩
    · rw [rehashBuckets, List.range_succ, List.foldlM_append]
      unfold rehashBuckets at hs'
      rw [hs']
      simp only [bind, Except.bind, List.foldlM_cons, List.foldlM_nil, pure, Except.pure,
        get_eq (Nat.lt_of_succ_le hn)]
      rw [hxs.head, hs'']
    · have hset : {a | a ∈ items ∧ h.bkt t.num_buckets a < n + 1} =
          {a | a ∈ items ∧ h.bkt t.num_buckets a < n} ∪ {a | a ∈ xs} := by
        ext a
        simp only [Set.mem_union, Set.mem_ofPred_eq, hmem a, ← and_or_left]
        exact and_congr_right fun _ => by omega
      rw [hset]
      exact hm''

omit [DecidableEq A] in
lemma sum_countP_le (idx : A → ℕ) (items : List A) (size : ℕ) :
    ∑ i ∈ Finset.range size, items.countP (idx · = i) ≤ items.length := by
  induction items with
  | nil => simp
  | cons x items ih =>
    have hone : (∑ i ∈ Finset.range size, if idx x = i then 1 else 0) ≤ 1 := by
      rw [Finset.sum_ite_eq]
      split <;> omega
    simp only [List.countP_cons, decide_eq_true_eq, Finset.sum_add_distrib, List.length_cons]
    omega

omit [DecidableEq A] in
lemma Moved.nonideal_le {idx : A → ℕ} (hnd : items.Nodup)
    (hm : Moved h size ideal idx s {a | a ∈ items}) :
    UtHash.nonideal s.new_buckets ideal ≤ items.length := by
  refine le_trans (Finset.sum_le_sum fun i hi => ?_) (sum_countP_le idx items s.new_buckets.size)
  obtain ⟨xs, hxs, hmem⟩ := hm.chained i (Finset.mem_range.mp hi)
  rw [hxs.count, hxs.length_eq_countP hnd hmem]
  exact Nat.sub_le _ _

/-- No block of 64 GiB is given. -/
def Bounded (malloc : ℕ → Bool) : Prop := ∀ n, malloc n = true → n < 2 ^ 36

omit [DecidableEq A] in
/-- After an expansion a chain is as long as its multiple of the ideal length allows. -/
lemma load_expanded (hideal : idealChainMaxlen t ≠ 0)
    (hmult : ∀ i, (s.new_buckets.bucket i).expand_mult =
      expandMult (s.new_buckets.bucket i).count (idealChainMaxlen t)) : Load (expanded t s) where
  ineff := by
    intro hno
    by_contra hlt
    have hmore : (expanded t s).ineff_expands > 1 := by omega
    unfold expanded at hno hmore
    simp only at hno hmore
    rw [if_pos hmore] at hno
    cases hno
  bound := by
    intro _ i
    change (s.new_buckets.bucket i).count ≤ ((s.new_buckets.bucket i).expand_mult + 1) *
      max hashBktCapacityThresh (idealChainMaxlen t)
    rw [hmult]
    set count := (s.new_buckets.bucket i).count
    have hmax : idealChainMaxlen t ≤ max hashBktCapacityThresh (idealChainMaxlen t) :=
      le_max_right _ _
    unfold expandMult
    split
    · refine le_trans ?_ (Nat.mul_le_mul_left _ hmax)
      rw [Nat.mul_comm]
      exact (Nat.lt_mul_div_succ count (Nat.pos_of_ne_zero hideal)).le
    · omega

/-- **The table after an expansion** holds what it held. -/
lemma Rep.expand (hmalloc : Bounded malloc) (hr : Rep hashFcn h t items) :
    hashExpandBuckets malloc h t = .error .exited ∨
      ∃ s, hashExpandBuckets malloc h t =
          .ok { h with chain := s.chain, tbl := some (expanded t s) } ∧
        s.nonideal_items = nonideal s.new_buckets (idealChainMaxlen t) ∧
        Rep hashFcn { h with chain := s.chain, tbl := some (expanded t s) } (expanded t s) items ∧
        Load (expanded t s) := by
  cases hgive : malloc (2 * t.num_buckets.toNat * sizeofBucket) with
  | false =>
    left
    unfold hashExpandBuckets
    rw [hgive]
    rfl
  | true =>
    right
    have hfew := hmalloc _ hgive
    have hlog : t.log2_num_buckets < 31 := by
      rw [hr.num_buckets, sizeofBucket] at hfew
      by_contra hge
      have : 2 ^ 31 ≤ 2 ^ t.log2_num_buckets := Nat.pow_le_pow_right (by decide) (by omega)
      omega
    have htwo : (2 : BitVec 32).toNat = 2 := rfl
    have hlt : 2 ^ (t.log2_num_buckets + 1) < 2 ^ 32 :=
      Nat.pow_lt_pow_right (by decide) (by omega)
    have hdouble : (t.num_buckets * 2).toNat = 2 ^ (t.log2_num_buckets + 1) := by
      rw [pow_succ] at hlt ⊢
      rw [BitVec.toNat_mul, hr.num_buckets, htwo, Nat.mod_eq_of_lt hlt]
    have hsize : 2 * t.num_buckets.toNat = 2 ^ (t.log2_num_buckets + 1) := by
      rw [hr.num_buckets, pow_succ, Nat.mul_comm]
    have hbkt : ∀ a, hashToBkt (h.hashv a) (t.num_buckets * 2) < 2 * t.num_buckets.toNat := by
      intro a
      rw [toNat_and_pred (by omega) hdouble, hsize]
      exact Nat.mod_lt _ (Nat.two_pow_pos _)
    have hpos : 0 < t.num_items := by
      rw [hr.num_items]
      exact List.length_pos_iff.mpr hr.ne_nil
    have hideal : idealChainMaxlen t ≠ 0 := by
      have hb : 0 < 2 * t.num_buckets.toNat := by
        rw [hsize]
        exact Nat.two_pow_pos _
      rw [idealChainMaxlen_eq hlog hr.num_buckets (hr.num_items ▸ hr.few)]
      exact (Nat.div_pos (by omega) hb).ne'
    have hstart : Moved h (2 * t.num_buckets.toNat) (idealChainMaxlen t)
        (h.bkt (t.num_buckets * 2)) ⟨h.chain, .zero (2 * t.num_buckets.toNat), 0⟩ ∅ :=
      ⟨rfl, chained_zero _ _ _, fun _ _ => ⟨rfl, rfl⟩,
        by simp [UtHash.nonideal, Buckets.zero, unsigned],
        fun _ => by simp [expandMult, Buckets.zero]⟩
    obtain ⟨s, hs, hm⟩ := hstart.buckets hideal hbkt hr (le_of_eq hr.size.symm)
    have hall : {a | a ∈ items ∧ h.bkt t.num_buckets a < t.num_buckets.toNat} =
        {a | a ∈ items} := by
      ext a
      have := hr.bkt_lt (h.hashv a)
      rw [hr.size] at this
      exact and_iff_left this
    rw [hall] at hm
    have hnonideal : s.nonideal_items = UtHash.nonideal s.new_buckets (idealChainMaxlen t) :=
      hm.nonideal.trans (unsigned_of_lt (lt_of_le_of_lt (hm.nonideal_le hr.nodup) hr.few))
    have hlog2 : (expanded t s).log2_num_buckets = t.log2_num_buckets + 1 :=
      unsigned_of_lt (by omega)
    refine ⟨s, ?_, hnonideal, ?_, load_expanded hideal hm.mult⟩
    · unfold hashExpandBuckets
      simp only [hgive, hs, bind, Except.bind]
      rfl
    · refine ⟨⟨hr.head, rfl, hr.nodup, hr.live, hr.app, hr.tail, hr.hashv, ?_, ?_, ?_, ?_⟩, hr.few,
        hr.num_items, hm.chained⟩
      · rw [hlog2]
        exact Nat.le_succ_of_le hr.initial
      · rw [hlog2]
        omega
      · rw [hlog2]
        exact hdouble
      · rw [expanded, hm.size, hdouble, hsize]

/-! ### Addition -/

omit [DecidableEq A] in
lemma Load.set {t' : UtHashTable A} {i : ℕ} (hload : Load t)
    (hbuckets : t'.buckets = t.buckets.set i b) (hno : t'.noexpand = t.noexpand)
    (hineff : t'.ineff_expands = t.ineff_expands)
    (hideal : t'.ideal_chain_maxlen = t.ideal_chain_maxlen)
    (hb : t.noexpand = 0 → b.count ≤
      (b.expand_mult + 1) * max hashBktCapacityThresh t.ideal_chain_maxlen) : Load t' where
  ineff := by
    rw [hno, hineff]
    exact hload.ineff
  bound := by
    rw [hno, hbuckets, hideal]
    intro h0 j
    by_cases hj : j = i
    · rw [hj, set_bucket_self]
      exact hb h0
    · rw [set_bucket_of_ne b hj]
      exact hload.bound h0 j

/-- The items that are allocated, and their keys, are what they were. -/
structure Kept (h h' : Hash A K) : Prop where
  live : h'.live = h.live
  key : h'.key = h.key

omit [DecidableEq A] in
lemma Kept.trans {h₁ h₂ h₃ : Hash A K} (h12 : Kept h₁ h₂) (h23 : Kept h₂ h₃) : Kept h₁ h₃ :=
  ⟨h23.live.trans h12.live, h23.key.trans h12.key⟩

/-- With an item more the bucket comes to its threshold, and the buckets may double. -/
def Full (t : UtHashTable A) (i : ℕ) : Prop :=
  (t.buckets.bucket i).count + 1 ≥ threshold (t.buckets.bucket i) ∧ t.noexpand = 0

instance (t : UtHashTable A) (i : ℕ) : Decidable (Full t i) :=
  inferInstanceAs (Decidable (_ ∧ _))

/-- A table in which a bucket has counted an item more. -/
structure Counted (t t₁ : UtHashTable A) (i : ℕ) : Prop where
  buckets : ∃ b, t₁.buckets = t.buckets.set i b ∧ b.count = (t.buckets.bucket i).count + 1 ∧
    b.expand_mult = (t.buckets.bucket i).expand_mult
  num_buckets : t₁.num_buckets = t.num_buckets
  noexpand : t₁.noexpand = t.noexpand
  ineff : t₁.ineff_expands = t.ineff_expands
  ideal : t₁.ideal_chain_maxlen = t.ideal_chain_maxlen

omit [DecidableEq A] in
lemma threshold_le (b : UtHashBucket A) :
    threshold b ≤ (b.expand_mult + 1) * hashBktCapacityThresh :=
  (Nat.mod_le _ _).trans (Nat.mul_le_mul_right _ (Nat.mod_le _ _))

omit [DecidableEq A] in
lemma Counted.load {t₁ : UtHashTable A} {i : ℕ} (hc : Counted t t₁ i) (hload : Load t)
    (hfew : ¬ Full t i) : Load t₁ := by
  obtain ⟨b, hb, hcount, hmult⟩ := hc.buckets
  refine hload.set hb hc.noexpand hc.ineff hc.ideal fun hno => ?_
  rw [hcount, hmult]
  have hshort : (t.buckets.bucket i).count + 1 < threshold (t.buckets.bucket i) := by
    by_contra hge
    exact hfew ⟨not_lt.mp hge, hno⟩
  exact hshort.le.trans ((threshold_le _).trans (Nat.mul_le_mul_left _ (le_max_left _ _)))

/-- **An item at the end of the list** is put into its bucket. -/
lemma Linked.put (hl : Linked hashFcn h t (items ++ [a])) (hnum : t.num_items = items.length)
    (hfew : items.length + 1 < 2 ^ 32)
    (hc : Chained h.chain t.buckets (h.bkt t.num_buckets) {x | x ∈ items}) :
    ∃ h₁ t₁, (∀ malloc, hashAddToTable malloc h (h.hashv a) a =
        if Full t (hashToBkt (h.hashv a) t.num_buckets) then hashExpandBuckets malloc h₁ t₁
        else .ok h₁) ∧
      Rep hashFcn h₁ t₁ (items ++ [a]) ∧ Counted t t₁ (hashToBkt (h.hashv a) t.num_buckets) ∧
      Kept h h₁ := by
  have hlt := hl.bkt_lt (h.hashv a)
  set i := hashToBkt (h.hashv a) t.num_buckets with hi
  set b := t.buckets.bucket i with hb
  have ha : a ∉ items := fun hmem =>
    (List.nodup_append.mp hl.nodup).2.2 a hmem a (List.mem_singleton_self a) rfl
  obtain ⟨xs, hxs, hmem⟩ := hc i hlt
  have hderef : h.deref? b.hh_head = .ok () := deref?_eq fun x hx =>
    hl.live x (List.mem_append_left _
      ((hmem x).mp (List.mem_of_head? (hxs.head ▸ hx))).1)
  have hcount : unsigned (b.count + 1) = b.count + 1 := by
    have hle : b.count ≤ items.length := hxs.count.trans_le
      (hxs.nodup.subperm fun x hx => ((hmem x).mp hx).1).length_le
    exact unsigned_of_lt (by omega)
  have hitems : unsigned (t.num_items + 1) = t.num_items + 1 := by
    rw [hnum]
    exact unsigned_of_lt hfew
  let t₁ : UtHashTable A := { t with
    num_items := t.num_items + 1
    buckets := t.buckets.set i { b with hh_head := some a, count := b.count + 1 } }
  let h₁ : Hash A K := { h with chain := h.chain.push a b.hh_head, tbl := some t₁ }
  refine ⟨h₁, t₁, fun malloc => ?_, ⟨?_, by simpa using hfew, ?_, ?_⟩,
    ⟨⟨_, rfl, rfl, rfl⟩, rfl, rfl, rfl, rfl⟩, rfl, rfl⟩
  · simp only [hashAddToTable, hashAddToBkt, hl.table_eq, ← hi, get_eq hlt, ← hb, hderef, hcount,
      hitems, bind, Except.bind]
    rfl
  · exact ⟨hl.head, rfl, hl.nodup, hl.live, hl.app, hl.tail, hl.hashv, hl.initial, hl.log2,
      hl.num_buckets, hl.size⟩
  · simp only [t₁, hnum, List.length_append, List.length_singleton]
  · have hset : {x | x ∈ items ++ [a]} = insert a {x | x ∈ items} := by
      ext x
      simp [or_comm]
    rw [hset]
    exact hc.push (b := { b with hh_head := some a, count := b.count + 1 }) ha hlt rfl rfl

lemma Counted.settle {h₁ : Hash A K} {t₁ : UtHashTable A} {i : ℕ} (hc : Counted t t₁ i)
    (hmalloc : Bounded malloc) (hr : Rep hashFcn h₁ t₁ items) (hload : Load t) :
    (if Full t i then hashExpandBuckets malloc h₁ t₁ else .ok h₁) = .error .exited ∨
      ∃ h' t', (if Full t i then hashExpandBuckets malloc h₁ t₁ else .ok h₁) = .ok h' ∧
        Rep hashFcn h' t' items ∧ Load t' ∧ Kept h₁ h' := by
  split
  · rcases hr.expand hmalloc with hexit | ⟨s, hs, -, hrep, hload'⟩
    · exact Or.inl hexit
    · exact Or.inr ⟨_, _, hs, hrep, hload', rfl, rfl⟩
  · next hfew => exact Or.inr ⟨h₁, t₁, rfl, hr, hc.load hload hfew, rfl, rfl⟩

omit [DecidableEq A] in
lemma Chained.congr_idx {idx' : A → ℕ} (hc : Chained p bs idx S)
    (hsame : ∀ a ∈ S, idx' a = idx a) : Chained p bs idx' S := by
  intro i hi
  obtain ⟨xs, hxs, hmem⟩ := hc i hi
  refine ⟨xs, hxs, fun a => (hmem a).trans (and_congr_right fun ha => ?_)⟩
  rw [hsame a ha]

lemma setKey_same (h : Hash A K) (key : K) (v : BitVec 32) {x : A} (hx : x ≠ a) :
    (h.setKey a key v).hashv x = h.hashv x ∧ (h.setKey a key v).key x = h.key x :=
  ⟨Function.update_of_ne hx _ _, Function.update_of_ne hx _ _⟩

lemma setKey_self (h : Hash A K) (a : A) (key : K) (v : BitVec 32) :
    (h.setKey a key v).hashv a = v ∧ (h.setKey a key v).key a = key :=
  ⟨Function.update_self _ _ _, Function.update_self _ _ _⟩

omit [DecidableEq A] in
lemma hashMakeTable_cases (malloc : ℕ → Bool) (a : A) (h : Hash A K) :
    hashMakeTable malloc a h = .error .exited ∨
      hashMakeTable malloc a h = .ok { h with tbl := some (emptyTable a) } := by
  unfold hashMakeTable
  split
  · exact Or.inl rfl
  · split
    · exact Or.inl rfl
    · exact Or.inr rfl

/-- What was kept of a table with the key of one item set. -/
def Added (h : Hash A K) (a : A) (key : K) (h' : Hash A K) : Prop :=
  h'.live = h.live ∧ h'.key = Function.update h.key a key

lemma add_first (hmalloc : Bounded malloc) (hhead : h.head = none) (hlive : h.live a = true)
    (key : K) : hashAdd hashFcn malloc h key a = .error .exited ∨
      ∃ h' t', hashAdd hashFcn malloc h key a = .ok h' ∧ Rep hashFcn h' t' [a] ∧ Load t' ∧
        Added h a key h' := by
  set h₁ := h.setKey a key (hashFcn key) with hh₁
  obtain ⟨hval, hkey⟩ := setKey_self h a key (hashFcn key)
  rw [← hh₁] at hval hkey
  have hrun : hashAdd hashFcn malloc h key a = (do
      let h ← hashMakeTable malloc a (h₁.alone a)
      hashAddToTable malloc { h with head := some a } (hashFcn key) a) := by
    simp only [hashAdd, hashAddKeyptrByhashvalue, deref_eq hlive, ← hh₁,
      show h₁.head = none from hhead]
    rfl
  rw [hrun]
  rcases hashMakeTable_cases malloc a (h₁.alone a) with hmake | hmake
  · left
    rw [hmake]
    rfl
  · set h₂ : Hash A K := { h₁.alone a with tbl := some (emptyTable a), head := some a } with hh₂
    have hl : Linked hashFcn h₂ (emptyTable a) ([] ++ [a]) := by
      refine ⟨rfl, rfl, List.nodup_singleton a, ?_, ?_, rfl, ?_, le_rfl, ?_, rfl, rfl⟩
      · exact List.forall_mem_singleton.mpr hlive
      · exact ⟨setPrev_prev_self _ _ _, setNext_next_self _ _ _, trivial⟩
      · exact List.forall_mem_singleton.mpr (hval.trans (congrArg hashFcn hkey.symm))
      · change 5 < 32
        decide
    have hc : Chained h₂.chain (emptyTable a).buckets (h₂.bkt (emptyTable a).num_buckets)
        {x | x ∈ ([] : List A)} := by
      have hempty : {x | x ∈ ([] : List A)} = ∅ := by simp
      rw [hempty]
      exact chained_zero _ _ _
    have hval₂ : h₂.hashv a = hashFcn key := hval
    have hload : Load (emptyTable a) := ⟨fun _ => Nat.zero_le _, fun _ _ => Nat.zero_le _⟩
    obtain ⟨h₁', t₁, hput, hr₁, hcounted, hkept₁⟩ := hl.put rfl (by simp) hc
    rw [hval₂] at hput hcounted
    have hsettle := hcounted.settle hmalloc hr₁ hload
    rw [← hput malloc] at hsettle
    rw [hmake]
    exact hsettle.imp_right fun ⟨h', t', hok, hrep, hload', hkept⟩ =>
      ⟨h', t', hok, hrep, hload', (hkept₁.trans hkept).live, (hkept₁.trans hkept).key⟩

lemma Rep.put (hr : Rep hashFcn h t items) (hlive : h.live a = true) (ha : a ∉ items)
    (hfew : items.length + 1 < 2 ^ 32) (key : K) :
    ∃ h₁ t₁, (∀ malloc, hashAdd hashFcn malloc h key a =
        if Full t (hashToBkt (hashFcn key) t.num_buckets) then hashExpandBuckets malloc h₁ t₁
        else .ok h₁) ∧
      Rep hashFcn h₁ t₁ (items ++ [a]) ∧ Counted t t₁ (hashToBkt (hashFcn key) t.num_buckets) ∧
      Added h a key h₁ := by
  set h₁ := h.setKey a key (hashFcn key) with hh₁
  obtain ⟨hval, hkey⟩ := setKey_self h a key (hashFcn key)
  rw [← hh₁] at hval hkey
  have hsame : ∀ x ∈ items, h₁.hashv x = h.hashv x ∧ h₁.key x = h.key x := fun x hx =>
    setKey_same h key (hashFcn key) (ne_of_mem_of_not_mem hx ha)
  have hhash : ∀ x ∈ items, h₁.hashv x = hashFcn (h₁.key x) := fun x hx => by
    rw [(hsame x hx).1, (hsame x hx).2]
    exact hr.hashv x hx
  have hl₁ : Linked hashFcn h₁ t items :=
    ⟨hr.head, hr.tbl, hr.nodup, hr.live, hr.app, hr.tail, hhash, hr.initial, hr.log2,
      hr.num_buckets, hr.size⟩
  set t₁ : UtHashTable A := { t with tail := a } with ht₁
  set h₂ : Hash A K := { h₁ with app := h₁.app.append a t.tail, tbl := some t₁ } with hh₂
  obtain ⟨ys, hys⟩ : ∃ ys, items = ys ++ [t.tail] := List.getLast?_eq_some_iff.mp hr.tail
  have htail : t.tail ∈ items := by
    rw [hys]
    simp
  obtain ⟨x, hx⟩ : ∃ x, h₁.head = some x := by
    rw [hl₁.head]
    exact Option.isSome_iff_exists.mp (by simpa using hr.ne_nil)
  have happend : hashAppendList h₁ a = .ok h₂ := by
    simp only [hashAppendList, hl₁.table_eq, deref_eq (hl₁.live _ htail), bind, Except.bind]
    rfl
  have hrun : ∀ malloc, hashAdd hashFcn malloc h key a =
      hashAddToTable malloc h₂ (hashFcn key) a := fun malloc => by
    simp only [hashAdd, hashAddKeyptrByhashvalue, deref_eq hlive, bind, Except.bind, ← hh₁, hx,
      happend]
  have hl : Linked hashFcn h₂ t₁ (items ++ [a]) := by
    refine ⟨?_, rfl, ?_, ?_, ?_, ?_, ?_, hr.initial, hr.log2, hr.num_buckets, hr.size⟩
    · rw [List.head?_append_of_ne_nil _ hr.ne_nil]
      exact hr.head
    · exact List.nodup_append.mpr ⟨hr.nodup, List.nodup_singleton a, fun x hx y hy => by
        rw [List.mem_singleton.mp hy]
        exact ne_of_mem_of_not_mem hx ha⟩
    · exact List.forall_mem_append.mpr ⟨hr.live, List.forall_mem_singleton.mpr hlive⟩
    · have happ := hr.app
      rw [hys] at happ ⊢
      exact happ.append (hys ▸ hr.nodup) (hys ▸ ha)
    · simp [ht₁]
    · exact List.forall_mem_append.mpr
        ⟨hhash, List.forall_mem_singleton.mpr (hval.trans (congrArg hashFcn hkey.symm))⟩
  have hc : Chained h₂.chain t₁.buckets (h₂.bkt t₁.num_buckets) {x | x ∈ items} :=
    hr.chained.congr_idx fun x hx => congrArg (hashToBkt · t.num_buckets) (hsame x hx).1
  have hval₂ : h₂.hashv a = hashFcn key := hval
  obtain ⟨h₃, t₃, hput, hr₃, hcounted, hkept⟩ := hl.put hr.num_items hfew hc
  rw [hval₂] at hput hcounted
  refine ⟨h₃, t₃, fun malloc => ?_, hr₃, ?_, hkept.live, hkept.key⟩
  · rw [hrun malloc, hput malloc]
    rfl
  · exact ⟨hcounted.buckets, hcounted.num_buckets, hcounted.noexpand, hcounted.ineff,
      hcounted.ideal⟩

/-- **An item that is added** stands behind all others, under its key. -/
lemma Items.add (hmalloc : Bounded malloc) (hi : Items hashFcn h items) (hlive : h.live a = true)
    (ha : a ∉ items) (hfew : items.length + 1 < 2 ^ 32) (key : K) :
    hashAdd hashFcn malloc h key a = .error .exited ∨
      ∃ h', hashAdd hashFcn malloc h key a = .ok h' ∧ Items hashFcn h' (items ++ [a]) ∧
        Added h a key h' := by
  rcases hi with ⟨rfl, hhead⟩ | ⟨t, hr, hload⟩
  · exact (add_first hmalloc hhead hlive key).imp_right fun ⟨h', t', hok, hrep, hload', hadded⟩ =>
      ⟨h', hok, Or.inr ⟨t', hrep, hload'⟩, hadded⟩
  · obtain ⟨h₁, t₁, hput, hr₁, hcounted, hlive₁, hkey₁⟩ := hr.put hlive ha hfew key
    rw [hput malloc]
    exact (hcounted.settle hmalloc hr₁ hload).imp_right fun ⟨h', t', hok, hrep, hload', hkept⟩ =>
      ⟨h', hok, Or.inr ⟨t', hrep, hload'⟩, hkept.live.trans hlive₁, hkept.key.trans hkey₁⟩

/-! ### Deletion -/

variable {ys zs : List A}

omit [DecidableEq A] in
lemma Linked.neighbour (hl : Linked hashFcn h t (ys ++ a :: zs)) {x : A}
    (hx : ys.getLast? = some x ∨ zs.head? = some x) : h.live x = true := by
  refine hl.live x ?_
  rcases hx with hx | hx
  · exact List.mem_append_left _ (List.mem_of_getLast? hx)
  · exact List.mem_append_right _ (List.mem_cons_of_mem _ (List.mem_of_head? hx))

lemma Linked.newTail (hl : Linked hashFcn h t (ys ++ a :: zs))
    (hmore : ¬ (ys.getLast? = none ∧ zs.head? = none)) :
    ∃ tail, UtHash.newTail t ys.getLast? a = .ok tail ∧ (ys ++ zs).getLast? = some tail := by
  have htail := hl.tail
  rcases zs.eq_nil_or_concat' with rfl | ⟨ws, w, rfl⟩
  · rw [List.getLast?_concat, Option.some.injEq] at htail
    obtain ⟨x, hx⟩ : ∃ x, ys.getLast? = some x := Option.ne_none_iff_exists'.mp fun h =>
      hmore ⟨h, rfl⟩
    refine ⟨x, ?_, by rw [List.append_nil, hx]⟩
    unfold UtHash.newTail
    rw [if_pos htail, hx]
  · have hne : a ≠ w := fun he => by
      have := (List.nodup_cons.mp (List.nodup_append.mp hl.nodup).2.1).1
      exact this (by simp [he])
    have hw : w = t.tail := by
      rw [← List.cons_append, ← List.append_assoc, List.getLast?_concat] at htail
      exact Option.some.inj htail
    refine ⟨t.tail, ?_, by simp [hw]⟩
    unfold UtHash.newTail
    rw [if_neg fun he => hne (he.trans hw.symm)]

/-- The item is out of the list of all items; it is in its bucket still. -/
lemma Linked.unlink (hl : Linked hashFcn h t (ys ++ a :: zs)) {tail : A}
    (htail : (ys ++ zs).getLast? = some tail) :
    Linked hashFcn { h with
      app := h.app.unlink a
      head := if ys.getLast? = none then zs.head? else h.head
      tbl := some { t with tail := tail } } { t with tail := tail } (ys ++ zs) := by
  have hsub : (ys ++ zs).Sublist (ys ++ a :: zs) :=
    List.Sublist.append_left (List.sublist_cons_self a zs) ys
  refine ⟨?_, rfl, hl.nodup.sublist hsub, fun x hx => hl.live x (hsub.subset hx),
    hl.app.unlink hl.nodup, htail, fun x hx => hl.hashv x (hsub.subset hx), hl.initial, hl.log2,
    hl.num_buckets, hl.size⟩
  cases ys with
  | nil => rfl
  | cons y ys =>
    rw [if_neg (by simp)]
    exact hl.head

/-- **The bucket of an item** loses it. -/
lemma Linked.delInBkt (hl : Linked hashFcn h t (ys ++ zs)) (hload : Load t) (ha : a ∉ ys ++ zs)
    (hlive : ∀ x ∈ ys ++ a :: zs, h.live x = true)
    (hnum : t.num_items = (ys ++ a :: zs).length) (hfew : (ys ++ a :: zs).length < 2 ^ 32)
    (hc : Chained h.chain t.buckets (h.bkt t.num_buckets) {x | x ∈ ys ++ a :: zs}) :
    ∃ h' t', hashDelInBkt h t (hashToBkt (h.hashv a) t.num_buckets) a = .ok h' ∧
      Rep hashFcn h' t' (ys ++ zs) ∧ Load t' ∧ Kept h h' := by
  have hlt := hl.bkt_lt (h.hashv a)
  set i := hashToBkt (h.hashv a) t.num_buckets with hi
  set b := t.buckets.bucket i with hb
  obtain ⟨xs, hxs, hmem⟩ := hc i hlt
  obtain ⟨us, vs, rfl⟩ := List.append_of_mem ((hmem a).mpr ⟨by simp, rfl⟩)
  have hprev := hxs.seg.prev_eq
  have hnext := hxs.seg.next_eq
  rw [Option.or_none] at hprev hnext
  have hdprev : h.deref? (h.chain.prev a) = .ok () := deref?_eq fun x hx => by
    rw [hprev] at hx
    exact hlive x ((hmem x).mp (List.mem_append_left _ (List.mem_of_getLast? hx))).1
  have hdnext : h.deref? (h.chain.next a) = .ok () := deref?_eq fun x hx => by
    rw [hnext] at hx
    exact hlive x ((hmem x).mp
      (List.mem_append_right _ (List.mem_cons_of_mem _ (List.mem_of_head? hx)))).1
  have hle : b.count ≤ (ys ++ a :: zs).length := hxs.count.trans_le
    (hxs.nodup.subperm fun x hx => ((hmem x).mp hx).1).length_le
  have hpos : 0 < b.count := by
    rw [hxs.count, List.length_append, List.length_cons]
    omega
  have hcount : unsigned (b.count + 2 ^ 32 - 1) = b.count - 1 :=
    unsigned_pred hpos (lt_of_le_of_lt hle hfew)
  have hitems : unsigned (t.num_items + 2 ^ 32 - 1) = t.num_items - 1 := by
    rw [hnum]
    exact unsigned_pred (by simp) hfew
  let b' : UtHashBucket A := { b with
    count := b.count - 1
    hh_head := if b.hh_head = some a then h.chain.next a else b.hh_head }
  let t' : UtHashTable A := { t with
    buckets := t.buckets.set i b'
    num_items := t.num_items - 1 }
  refine ⟨{ h with chain := h.chain.unlink a, tbl := some t' }, t', ?_, ⟨?_, ?_, ?_, ?_⟩,
    hload.set rfl rfl rfl rfl fun hno => (Nat.sub_le _ _).trans (hload.bound hno i), rfl, rfl⟩
  · simp only [hashDelInBkt, get_eq hlt, ← hb, hdprev, hdnext, hcount, hitems, bind, Except.bind]
    rfl
  · exact ⟨hl.head, rfl, hl.nodup, hl.live, hl.app, hl.tail, hl.hashv, hl.initial, hl.log2,
      hl.num_buckets, hl.size⟩
  · rw [List.length_append, List.length_cons] at hfew
    rw [List.length_append]
    omega
  · change t.num_items - 1 = _
    rw [hnum]
    simp
  · have hset : {x | x ∈ ys ++ zs} = {x | x ∈ ys ++ a :: zs} \ {a} := by
      ext x
      simp only [Set.mem_ofPred_eq, Set.mem_sdiff, Set.mem_singleton_iff, List.mem_append,
        List.mem_cons] at ha ⊢
      constructor
      · intro hx
        exact ⟨hx.imp_right Or.inr, fun he => ha (he ▸ hx)⟩
      · rintro ⟨hx | rfl | hx, hne⟩
        · exact Or.inl hx
        · exact absurd rfl hne
        · exact Or.inr hx
    rw [hset]
    exact hc.unlink (b := b') (by simp) hlt rfl rfl

/-- **An item that is deleted** leaves the others in their order. -/
lemma Items.delete (hi : Items hashFcn h items) (ha : a ∈ items) :
    ∃ h', hashDelete h a = .ok h' ∧ Items hashFcn h' (items.erase a) ∧ Kept h h' := by
  rcases hi with ⟨rfl, -⟩ | ⟨t, hr, hload⟩
  · exact absurd ha List.not_mem_nil
  have hlive := hr.live a ha
  obtain ⟨ys, zs, rfl⟩ := List.append_of_mem ha
  have hnd := hr.nodup
  have hnot : a ∉ ys ++ zs := (List.nodup_middle.mp hnd |> List.nodup_cons.mp).1
  have herase : (ys ++ a :: zs).erase a = ys ++ zs := by
    rw [List.erase_append_right _ fun h => hnot (List.mem_append_left _ h), List.erase_cons_head]
  have hprev := hr.app.prev_eq
  have hnext := hr.app.next_eq
  rw [Option.or_none] at hprev hnext
  rw [herase]
  by_cases hmore : ys.getLast? = none ∧ zs.head? = none
  · -- the last item, with which the table goes
    refine ⟨{ h with head := none, tbl := none }, ?_, Or.inl ⟨?_, rfl⟩, rfl, rfl⟩
    · simp only [hashDelete, deref_eq hlive, hr.table_eq, hprev, hnext, hmore, and_self, if_true,
        bind, Except.bind]
    · rw [List.getLast?_eq_none_iff.mp hmore.1, List.head?_eq_none_iff.mp hmore.2]
      rfl
  · obtain ⟨tail, htail, hlast⟩ := hr.newTail hmore
    have hl := hr.toLinked.unlink hlast
    have hdprev : h.deref? ys.getLast? = .ok () := deref?_eq fun x hx =>
      hr.neighbour (Or.inl hx)
    have hdnext : h.deref? zs.head? = .ok () := deref?_eq fun x hx => hr.neighbour (Or.inr hx)
    obtain ⟨h', t', hok, hrep, hload', hkept⟩ :=
      hl.delInBkt ⟨hload.ineff, hload.bound⟩ hnot hr.live hr.num_items hr.few hr.chained
    refine ⟨h', ?_, Or.inr ⟨t', hrep, hload'⟩, hkept.live, hkept.key⟩
    simp only [hashDelete, deref_eq hlive, hr.table_eq, hprev, hnext, hmore, if_false, htail,
      hdprev, hdnext, hl.table_eq, bind, Except.bind]
    exact hok

/-! ### Iteration -/

omit [DecidableEq A] in
lemma Items.count (hi : Items hashFcn h items) : hashCount h = .ok items.length := by
  rcases hi with ⟨rfl, hhead⟩ | ⟨t, hr, hload⟩
  · rw [hashCount, hhead]
    rfl
  · obtain ⟨x, hx⟩ : ∃ x, h.head = some x := by
      rw [hr.head]
      exact Option.isSome_iff_exists.mp (by simpa using hr.ne_nil)
    simp only [hashCount, hx, hr.table_eq, bind, Except.bind, hr.num_items]

omit [DecidableEq A] in
lemma Items.head_eq (hi : Items hashFcn h items) : h.head = items.head? := by
  rcases hi with ⟨rfl, hhead⟩ | ⟨t, hr, hload⟩
  · exact hhead
  · exact hr.head

omit [DecidableEq A] in
lemma Items.next (hi : Items hashFcn h (xs ++ ys)) : hashNext h ys.head? = .ok ys.tail.head? := by
  cases ys with
  | nil => rfl
  | cons y ys =>
    rcases hi with ⟨hnil, -⟩ | ⟨t, hr, hload⟩
    · simp at hnil
    · have hnext := hr.app.next_eq
      rw [Option.or_none] at hnext
      have hlive := hr.live y (by simp)
      simp only [List.head?_cons, hashNext, deref_eq hlive, hnext, bind, Except.bind,
        List.tail_cons]

end Rep

section Iter

variable {σ : Type} {hash : σ → Hash A K} {body : A → σ → Except Stop σ}
  (I : List A → σ → Prop)

omit [DecidableEq A] in
lemma hashIterFrom_rule (hbody : ∀ y ys s, I (y :: ys) s → ∃ s', body y s = .ok s' ∧ I ys s')
    (hread : ∀ ys s, I ys s → hashNext (hash s) ys.head? = .ok ys.tail.head?) {s : σ} {n : ℕ}
    (hI : I ys s) (hn : ys.length ≤ n) :
    ∃ s', hashIterFrom hash body n ys.head? ys.tail.head? s = .ok s' ∧ I [] s' := by
  induction ys generalizing s n with
  | nil => exact ⟨s, by cases n <;> rfl, hI⟩
  | cons y ys ih =>
    obtain ⟨n, rfl⟩ : ∃ k, n = k + 1 := Nat.exists_eq_add_one.mpr (Nat.lt_of_lt_of_le (by simp) hn)
    obtain ⟨s', hs', hI'⟩ := hbody y ys s hI
    simp only [List.head?_cons, List.tail_cons, hashIterFrom, hs', hread ys s' hI', bind,
      Except.bind]
    exact ih hI' (Nat.le_of_succ_le_succ hn)

variable (hash body) in
omit [DecidableEq A] in
/-- **Rule of the loop**: the body may take the item it is at from the table, and free it. -/
lemma hashIter_rule (hashFcn : K → BitVec 32)
    (hbody : ∀ y ys s, I (y :: ys) s → ∃ s', body y s = .ok s' ∧ I ys s')
    (hread : ∀ ys s, I ys s → hashNext (hash s) ys.head? = .ok ys.tail.head?) {s : σ}
    (hi : Items hashFcn (hash s) xs) (hI : I xs s) :
    ∃ s', hashIter hash body s = .ok s' ∧ I [] s' := by
  simp only [hashIter, hi.count, hi.head_eq, hread xs s hI, bind, Except.bind]
  exact hashIterFrom_rule I hbody hread hI le_rfl

end Iter

end Gpiod.UtHash
