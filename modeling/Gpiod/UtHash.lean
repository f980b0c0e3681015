import Gpiod.NullList
import Mathlib.Algebra.Order.Ring.Nat
import Mathlib.Data.List.Range

/-!
The hash tables of `uthash.h`: the macros that `gpiod-chip.c` and `gpiod-dispatch.c` use, as they
are compiled without `HASH_BLOOM`, `HASH_DEBUG` and `HASH_NONFATAL_OOM`.

An item and the handle inside it are one address. Two keys are equal where their lengths are and
`memcmp` returns zero. The handles point at each other twice: forward and back in the order of
insertion, and forward and back in the chain of a bucket. All handles have the one table. The
counters are of the type `unsigned`, and wrap.
-/

namespace Gpiod.UtHash

open Gpiod.NullList

inductive Stop where
  /-- a null pointer or freed memory is read, an index is past its array, a zero divides -/
  | fault
  /-- the process ends: `uthash_fatal`, or a child whose `execvpe` failed -/
  | exited
  /-- a loop over a list takes more steps than there are items -/
  | diverged
  deriving DecidableEq, Repr

/-- A number in a member of the type `unsigned`. -/
def unsigned (n : ℕ) : ℕ := n % 2 ^ 32

structure UtHashBucket (A : Type) where
  hh_head : Option A
  count : ℕ
  expand_mult : ℕ

structure Buckets (A : Type) where
  size : ℕ
  bucket : ℕ → UtHashBucket A

structure UtHashTable (A : Type) where
  buckets : Buckets A
  num_buckets : BitVec 32
  log2_num_buckets : ℕ
  num_items : ℕ
  tail : A
  ideal_chain_maxlen : ℕ
  nonideal_items : ℕ
  ineff_expands : ℕ
  noexpand : ℕ

/-- The memory of the items, the variable that holds the first one, and the table. -/
structure Hash (A K : Type) where
  /-- the items that are allocated -/
  live : A → Bool
  /-- `prev` and `next` -/
  app : Ptrs A
  /-- `hh_prev` and `hh_next` -/
  chain : Ptrs A
  hashv : A → BitVec 32
  key : A → K
  head : Option A
  tbl : Option (UtHashTable A)

def hashInitialNumBuckets : BitVec 32 := 32
def hashInitialNumBucketsLog2 : ℕ := 5
def hashBktCapacityThresh : ℕ := 10
/-- `sizeof(UT_hash_table)`. -/
def sizeofTable : ℕ := 64
/-- `sizeof(struct UT_hash_bucket)`. -/
def sizeofBucket : ℕ := 16

lemma unsigned_of_lt {n : ℕ} (h : n < 2 ^ 32) : unsigned n = n := Nat.mod_eq_of_lt h

lemma unsigned_pred {n : ℕ} (hpos : 0 < n) (h : n < 2 ^ 32) :
    unsigned (n + 2 ^ 32 - 1) = n - 1 := by
  rw [unsigned]
  omega

variable {A K : Type}

/-! ### Reading memory -/

/-- `uthash_bzero` of an array. -/
def Buckets.zero (size : ℕ) : Buckets A := ⟨size, fun _ => ⟨none, 0, 0⟩⟩

def Buckets.get (bs : Buckets A) (i : ℕ) : Except Stop (UtHashBucket A) :=
  if i < bs.size then .ok (bs.bucket i) else .error .fault

def Buckets.set (bs : Buckets A) (i : ℕ) (b : UtHashBucket A) : Buckets A :=
  { bs with bucket := Function.update bs.bucket i b }

def Hash.deref (h : Hash A K) (a : A) : Except Stop Unit :=
  if h.live a then .ok () else .error .fault

/-- A pointer that may be null is read if it is not. -/
def Hash.deref? (h : Hash A K) : Option A → Except Stop Unit
  | none => .ok ()
  | some a => h.deref a

/-- `(head)->hh.tbl`. -/
def Hash.table (h : Hash A K) : Except Stop (UtHashTable A) := do
  match h.head with
  | none => .error .fault
  | some head => h.deref head
  match h.tbl with
  | none => .error .fault
  | some t => .ok t

def hashToBkt (hashv num_bkts : BitVec 32) : ℕ := (hashv &&& (num_bkts - 1)).toNat

/-! ### Buckets that double -/

/-- `tbl->ideal_chain_maxlen` of twice as many buckets. -/
def idealChainMaxlen (t : UtHashTable A) : ℕ :=
  unsigned (t.num_items >>> (t.log2_num_buckets + 1) +
    if t.num_items &&& (t.num_buckets * 2 - 1).toNat ≠ 0 then 1 else 0)

/-- What the loops of `HASH_EXPAND_BUCKETS` set. -/
structure Rehash (A : Type) where
  chain : Ptrs A
  new_buckets : Buckets A
  nonideal_items : ℕ

/-- `expand_mult` and `nonideal_items` for an item that is counted as the last of its bucket. -/
def overflow (ideal count : ℕ) (b : UtHashBucket A) (nonideal_items : ℕ) :
    Except Stop (ℕ × ℕ) :=
  if count > ideal then
    if ideal = 0 then .error .fault else .ok (count / ideal, unsigned (nonideal_items + 1))
  else .ok (b.expand_mult, nonideal_items)

variable [DecidableEq A]

/-- The item goes to the front of its new bucket. -/
def rehashItem (h : Hash A K) (ideal : ℕ) (num_bkts : BitVec 32) (thh : A) (s : Rehash A) :
    Except Stop (Rehash A) := do
  let bkt := hashToBkt (h.hashv thh) num_bkts
  let newbkt ← s.new_buckets.get bkt
  let count := unsigned (newbkt.count + 1)
  let (expand_mult, nonideal_items) ← overflow ideal count newbkt s.nonideal_items
  h.deref? newbkt.hh_head
  .ok ⟨s.chain.push thh newbkt.hh_head,
    s.new_buckets.set bkt ⟨some thh, count, expand_mult⟩, nonideal_items⟩

/-- The items of an old bucket, from one on. -/
def rehashChain (h : Hash A K) (ideal : ℕ) (num_bkts : BitVec 32) :
    ℕ → Option A → Rehash A → Except Stop (Rehash A)
  | _, none, s => .ok s
  | 0, some _, _ => .error .diverged
  | n + 1, some thh, s => do
    h.deref thh
    let hh_nxt := s.chain.next thh
    let s ← rehashItem h ideal num_bkts thh s
    rehashChain h ideal num_bkts n hh_nxt s

/-- The first `n` old buckets. -/
def rehashBuckets (h : Hash A K) (t : UtHashTable A) (ideal : ℕ) (n : ℕ) (s : Rehash A) :
    Except Stop (Rehash A) :=
  (List.range n).foldlM (fun s i => do
    let b ← t.buckets.get i
    rehashChain h ideal (t.num_buckets * 2) t.num_items b.hh_head s) s

/-- The table with the new buckets. -/
def expanded (t : UtHashTable A) (s : Rehash A) : UtHashTable A :=
  let ineff_expands :=
    if s.nonideal_items > t.num_items >>> 1 then unsigned (t.ineff_expands + 1) else 0
  { t with
    buckets := s.new_buckets
    num_buckets := t.num_buckets * 2
    log2_num_buckets := unsigned (t.log2_num_buckets + 1)
    ideal_chain_maxlen := idealChainMaxlen t
    nonideal_items := s.nonideal_items
    ineff_expands := ineff_expands
    noexpand := if ineff_expands > 1 then 1 else t.noexpand }

/-- `HASH_EXPAND_BUCKETS`; `malloc` tells whether a block of so many bytes is given. -/
def hashExpandBuckets (malloc : ℕ → Bool) (h : Hash A K) (t : UtHashTable A) :
    Except Stop (Hash A K) := do
  if !malloc (2 * t.num_buckets.toNat * sizeofBucket) then .error .exited
  let s ← rehashBuckets h t (idealChainMaxlen t) t.num_buckets.toNat
    ⟨h.chain, .zero (2 * t.num_buckets.toNat), 0⟩
  .ok { h with chain := s.chain, tbl := some (expanded t s) }

/-! ### Items that are added -/

/-- The table of one item, before the item is put into its bucket. -/
def emptyTable (head : A) : UtHashTable A where
  buckets := .zero hashInitialNumBuckets.toNat
  num_buckets := hashInitialNumBuckets
  log2_num_buckets := hashInitialNumBucketsLog2
  num_items := 0
  tail := head
  ideal_chain_maxlen := 0
  nonideal_items := 0
  ineff_expands := 0
  noexpand := 0

def hashMakeTable (malloc : ℕ → Bool) (head : A) (h : Hash A K) : Except Stop (Hash A K) :=
  if !malloc sizeofTable then .error .exited
  else if !malloc (hashInitialNumBuckets.toNat * sizeofBucket) then .error .exited
  else .ok { h with tbl := some (emptyTable head) }

def hashAppendList (h : Hash A K) (add : A) : Except Stop (Hash A K) := do
  let t ← h.table
  h.deref t.tail
  .ok { h with app := h.app.append add t.tail, tbl := some { t with tail := add } }

/-- The length at which the chain of a bucket has the buckets double. -/
def threshold (b : UtHashBucket A) : ℕ :=
  unsigned (unsigned (b.expand_mult + 1) * hashBktCapacityThresh)

def hashAddToBkt (malloc : ℕ → Bool) (h : Hash A K) (t : UtHashTable A) (bkt : ℕ) (add : A) :
    Except Stop (Hash A K) := do
  let b ← t.buckets.get bkt
  h.deref? b.hh_head
  let b' : UtHashBucket A := { b with hh_head := some add, count := unsigned (b.count + 1) }
  let t' := { t with buckets := t.buckets.set bkt b' }
  let h' := { h with chain := h.chain.push add b.hh_head, tbl := some t' }
  if b'.count ≥ threshold b' ∧ t'.noexpand = 0 then
    hashExpandBuckets malloc h' t'
  else .ok h'

def hashAddToTable (malloc : ℕ → Bool) (h : Hash A K) (hashval : BitVec 32) (add : A) :
    Except Stop (Hash A K) := do
  let t ← h.table
  let t := { t with num_items := unsigned (t.num_items + 1) }
  hashAddToBkt malloc h t (hashToBkt hashval t.num_buckets) add

/-- The handle has its hash value and its key. -/
def Hash.setKey (h : Hash A K) (add : A) (keyptr : K) (hashval : BitVec 32) : Hash A K :=
  { h with
    hashv := Function.update h.hashv add hashval
    key := Function.update h.key add keyptr }

/-- The first item has no neighbours. -/
def Hash.alone (h : Hash A K) (add : A) : Hash A K :=
  { h with app := (h.app.setNext add none).setPrev add none }

def hashAddKeyptrByhashvalue (malloc : ℕ → Bool) (h : Hash A K) (keyptr : K)
    (hashval : BitVec 32) (add : A) : Except Stop (Hash A K) := do
  h.deref add
  let h := h.setKey add keyptr hashval
  match h.head with
  | none =>
    let h ← hashMakeTable malloc add (h.alone add)
    hashAddToTable malloc { h with head := some add } hashval add
  | some _ =>
    let h ← hashAppendList h add
    hashAddToTable malloc h hashval add

/-- `HASH_ADD`, with the hash function `hashFcn`. -/
def hashAdd (hashFcn : K → BitVec 32) (malloc : ℕ → Bool) (h : Hash A K) (key : K) (add : A) :
    Except Stop (Hash A K) :=
  hashAddKeyptrByhashvalue malloc h key (hashFcn key) add

/-! ### Items that are found -/

section Find

variable [DecidableEq K]

/-- `HASH_FIND_IN_BKT`, from an item on. -/
def hashFindInBkt (h : Hash A K) (keyptr : K) (hashval : BitVec 32) :
    ℕ → Option A → Except Stop (Option A)
  | _, none => .ok none
  | 0, some _ => .error .diverged
  | n + 1, some out => do
    h.deref out
    if h.hashv out = hashval ∧ h.key out = keyptr then .ok (some out)
    else hashFindInBkt h keyptr hashval n (h.chain.next out)

def hashFind (hashFcn : K → BitVec 32) (h : Hash A K) (keyptr : K) : Except Stop (Option A) :=
  match h.head with
  | none => .ok none
  | some _ => do
    let t ← h.table
    let b ← t.buckets.get (hashToBkt (hashFcn keyptr) t.num_buckets)
    hashFindInBkt h keyptr (hashFcn keyptr) t.num_items b.hh_head

end Find

/-! ### Items that are deleted -/

def hashDelInBkt (h : Hash A K) (t : UtHashTable A) (bkt : ℕ) (delhh : A) :
    Except Stop (Hash A K) := do
  let b ← t.buckets.get bkt
  h.deref? (h.chain.prev delhh)
  h.deref? (h.chain.next delhh)
  let b' : UtHashBucket A := { b with
    count := unsigned (b.count + 2 ^ 32 - 1)
    hh_head := if b.hh_head = some delhh then h.chain.next delhh else b.hh_head }
  .ok { h with
    chain := h.chain.unlink delhh
    tbl := some { t with
      buckets := t.buckets.set bkt b'
      num_items := unsigned (t.num_items + 2 ^ 32 - 1) } }

/-- The tail in front of an item that goes. -/
def newTail (t : UtHashTable A) (prev : Option A) (del : A) : Except Stop A :=
  if del = t.tail then
    match prev with
    | none => .error .fault
    | some p => .ok p
  else .ok t.tail

/-- `HASH_DELETE_HH`. -/
def hashDelete (h : Hash A K) (del : A) : Except Stop (Hash A K) := do
  h.deref del
  let t ← h.table
  let prev := h.app.prev del
  let next := h.app.next del
  if prev = none ∧ next = none then .ok { h with head := none, tbl := none }
  else
    let tail ← newTail t prev del
    h.deref? prev
    h.deref? next
    let h := { h with
      app := h.app.unlink del
      head := if prev = none then next else h.head
      tbl := some { t with tail := tail } }
    let t ← h.table
    hashDelInBkt h t (hashToBkt (h.hashv del) t.num_buckets) del

/-! ### The loop over the items -/

/-- `el->hh.next` of an item that may be null. -/
def hashNext (h : Hash A K) : Option A → Except Stop (Option A)
  | none => .ok none
  | some el => do
    h.deref el
    .ok (h.app.next el)

/-- The steps of `HASH_ITER`: the item behind is read before the body runs. -/
def hashIterFrom {S : Type} (hash : S → Hash A K) (body : A → S → Except Stop S) :
    ℕ → Option A → Option A → S → Except Stop S
  | _, none, _, s => .ok s
  | 0, some _, _, _ => .error .diverged
  | n + 1, some el, tmp, s => do
    let s ← body el s
    let tmp' ← hashNext (hash s) tmp
    hashIterFrom hash body n tmp tmp' s

def hashCount (h : Hash A K) : Except Stop ℕ :=
  match h.head with
  | none => .ok 0
  | some _ => do
    let t ← h.table
    .ok t.num_items

def hashIter {S : Type} (hash : S → Hash A K) (body : A → S → Except Stop S) (s : S) :
    Except Stop S := do
  let n ← hashCount (hash s)
  let tmp ← hashNext (hash s) (hash s).head
  hashIterFrom hash body n (hash s).head tmp s

end Gpiod.UtHash
