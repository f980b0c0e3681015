import Gpiod.Pin

/-!
Loading a tab file, as `gpiod-hooktab.c` does.

A cursor into the buffer of `getline` is the memory from it to the end of the allocation: a
step forward is a tail, the distance of two cursors the difference of their lengths. The
buffer holds the line, the NUL `getline` puts after it, and whatever bytes earlier lines and
the allocator left behind that. Reading at the empty memory is a fault, so to run a parser on
a buffer cut off behind the NUL is to ask whether it inspects a byte behind the NUL.

The length of a token is kept in eight bits, as in the source. A copy into the token buffer
is read back here as it was written, so the parsers of this module say what the cursors do where
a copy that does not fit the buffer is harmless; `TabBuffer` runs them with the buffer.
-/

namespace Gpiod.TabScan

open Gpiod.Pin

/-- The memory from a cursor to the end of the allocation. -/
abbrev Mem := List UInt8

inductive Fault
  | /-- a byte behind the end of the memory was read -/ read
  | /-- the bound on the iterations of a loop was reached -/ fuel
  | /-- a byte behind the end of the token buffer was written or read -/ overrun
  deriving DecidableEq, Repr

/-- The size of the token buffer. -/
def gpiodTabMaxArgumentLength : ℕ := 128

/-! ### Keywords -/

def gpiodHookModifies : List Str :=
  ["EDGE_RISING", "EDGE_FALLING", "EDGE_BOTH", "NO_LOOP", "ONESHOT"].map bytes

def gpiodSpecialArgsArray : List (Str × HooktabArgs) :=
  [(bytes "$@", .label), (bytes "$%", .eventText), (bytes "$&", .eventNum)]

/-- The enumerator returned is the index of the keyword plus one. -/
def tabParseMod (value : Str) : ℕ :=
  match gpiodHookModifies.findIdx? fun name => strncmpEq value name value.length with
  | some i => i + 1
  | none => hooktabModMax

def tabParseArgs (value : Str) : HooktabArgs :=
  match gpiodSpecialArgsArray.find? fun e => strncmpEq value e.1 value.length with
  | some e => e.2
  | none => .max

/-! ### Cursors -/

def isBlank (c : UInt8) : Bool := c == 0x20 || c == 0x09

/-- What ends a token: a blank, a line feed or a carriage return. -/
def isSpace (c : UInt8) : Bool := c == 0x20 || c == 0x09 || c == 0x0a || c == 0x0d

def eatSpace : Mem → Except Fault Mem
  | [] => .error .read
  | c :: m => if c = 0 then .ok (c :: m) else if isBlank c then eatSpace m else .ok (c :: m)

def nextSpace : Mem → Except Fault Mem
  | [] => .error .read
  | c :: m => if c = 0 then .ok (c :: m) else if isSpace c then .ok (c :: m) else nextSpace m

/-- `*tmp`. -/
def peek : Mem → Except Fault UInt8
  | [] => .error .read
  | c :: _ => .ok c

/-- `len = tmp2 - tmp1`, in a `uint8_t`. -/
def cursorDist (tmp1 tmp2 : Mem) : ℕ := (tmp1.length - tmp2.length) % 256

/-- `memchr(tmp1, c, len)`. -/
def memchr (c : UInt8) : ℕ → Mem → Option Mem
  | 0, _ => none
  | _ + 1, [] => none
  | n + 1, a :: m => if a = c then some (a :: m) else memchr c n m

/-- The C string that `strncpy(buffer, tmp1, len)` leaves in the buffer. -/
def strncpy (tmp1 : Mem) (len : ℕ) : Str := (tmp1.take len).takeWhile (· != 0)

/-! ### The modifiers -/

/-- The first half of a pass of the modifier loop: the word in the buffer, whether `coma` is
not null, and `tmp2`. -/
def cutWord (tmp2 : Mem) : Except Fault (Str × Bool × Mem) := do
  let tmp1 ← eatSpace tmp2
  let tmp2 ← nextSpace tmp1
  let coma := memchr 0x2c (cursorDist tmp1 tmp2) tmp1
  let tmp2 := coma.getD tmp2
  return (strncpy tmp1 (cursorDist tmp1 tmp2), coma.isSome, tmp2)

/-- One pass of the modifier loop: the flags, whether `coma` is not null at the test of the
loop, and `tmp2` there. An unknown word skips the step past the separator. -/
def modPass (flags : ℕ) (tmp2 : Mem) : Except Fault (ℕ × Bool × Mem) := do
  let (word, coma, tmp2) ← cutWord tmp2
  if tabParseMod word = hooktabModMax then
    return (flags, coma, tmp2)
  else
    let tmp3 ← eatSpace tmp2
    let c ← peek tmp3
    if c = 0x2c then
      return (flags ||| tabParseMod word, true, tmp3.tail)
    else
      return (flags ||| tabParseMod word, coma, tmp2.tail)

/-- The modifier loop; a pass that goes on moves the cursor forward, so a bound above the
length of the memory is never reached. -/
def modLoop : ℕ → ℕ → Mem → Except Fault (ℕ × Mem)
  | 0, _, _ => .error .fuel
  | fuel + 1, flags, tmp2 => do
    let (flags, coma, tmp2) ← modPass flags tmp2
    if coma then modLoop fuel flags tmp2 else return (flags, tmp2)

/-! ### Path and arguments -/

/-- The entry made for an argument. -/
def mkArg (tmp : Str) : GpiodHookArgs :=
  if tmp = [] then ⟨.max, none⟩
  else if tmp.head? = some 0x24 ∧ tabParseArgs tmp ≠ .max then ⟨tabParseArgs tmp, none⟩
  else ⟨.max, some tmp⟩

def argLoop : ℕ → Mem → Mem → Except Fault (List GpiodHookArgs)
  | 0, _, _ => .error .fuel
  | fuel + 1, tmp1, tmp2 =>
    if tmp1.length = tmp2.length then .ok []
    else do
      let tmp1 ← eatSpace tmp2
      let tmp2 ← nextSpace tmp1
      let args ← argLoop fuel tmp1 tmp2
      return mkArg (strncpy tmp1 (cursorDist tmp1 tmp2)) :: args

/-- The hook made of a line, from the cursor behind the label on. -/
def tabHook (tmp2 : Mem) : Except Fault GpiodHook := do
  let (flags, tmp2) ← modLoop (tmp2.length + 1) 0 tmp2
  let tmp1 ← eatSpace tmp2
  let tmp2 ← nextSpace tmp1
  let args ← argLoop (tmp1.length + 2) tmp1 tmp2
  return {
    path := strncpy tmp1 (cursorDist tmp1 tmp2)
    flags := flags
    fired := 0
    spawned := -1
    arg_list_size := args.length % 256
    arg_list := args }

/-! ### Lines and files -/

/-- The label in the buffer, and the cursor behind it. -/
def tabLabel (line : Mem) : Except Fault (Str × Mem) := do
  let tmp1 ← eatSpace line
  let tmp2 ← nextSpace tmp1
  return (strncpy tmp1 (cursorDist tmp1 tmp2), tmp2)

/-- One iteration of the loop over the lines, on the buffer `getline` has filled. -/
def loadLine (gp_list : List GpioPin) (line : Mem) : Except Fault (List GpioPin) := do
  let (label, tmp2) ← tabLabel line
  match findPinByLabel gp_list label with
  | none => return gp_list
  | some i => do
    let hook ← tabHook tmp2
    return gp_list.modify i (·.addHook hook)

def splitLines : Str → List Str
  | [] => []
  | c :: s =>
    if c = 0x0a then [c] :: splitLines s
    else match splitLines s with
      | [] => [[c]]
      | l :: ls => (c :: l) :: ls

/-- The buffer after `getline`: the line, a NUL, what the buffer held there before, and the
bytes `fresh` that came with it when it had to grow. -/
def getline (buf line fresh : Mem) : Mem :=
  line ++ 0 :: (buf.drop (line.length + 1) ++ fresh)

/-- The lines `getline` delivers, each with the bytes its buffer grows by. -/
def fileLines (text : Str) (fresh : ℕ → Mem) : List (Str × Mem) :=
  (splitLines text).zipIdx.map fun l => (l.1, fresh l.2)

section File

variable (load : List GpioPin → Mem → Except Fault (List GpioPin))

/-- The loop over the lines, with the body `load`. -/
def loadLinesBy : List GpioPin → Mem → List (Str × Mem) → Except Fault (List GpioPin)
  | gp_list, _, [] => return gp_list
  | gp_list, buf, (line, fresh) :: lines => do
    let gp_list ← load gp_list (getline buf line fresh)
    loadLinesBy gp_list (getline buf line fresh) lines

/-- `loadTab` on the contents of the file, or on none where it cannot be opened; the bytes the
buffer grows by at each line are the allocator's. -/
def loadTabBy (gp_list : List GpioPin) (file : Option Str) (fresh : ℕ → Mem) :
    Except Fault (ℤ × List GpioPin) :=
  match file with
  | none => return (-1, gp_list)
  | some text => do
    let gp_list ← loadLinesBy load gp_list [] (fileLines text fresh)
    return (0, gp_list)

end File

abbrev loadLines : List GpioPin → Mem → List (Str × Mem) → Except Fault (List GpioPin) :=
  loadLinesBy loadLine

abbrev loadTab : List GpioPin → Option Str → (ℕ → Mem) → Except Fault (ℤ × List GpioPin) :=
  loadTabBy loadLine

/-! ### What a result comes from -/

section Results

variable {α β : Type} {m tmp1 tmp2 : Mem}

lemma bind_ok {ε : Type} {x : Except ε α} {k : α → Except ε β} {b : β} (h : x.bind k = .ok b) :
    ∃ a, x = .ok a ∧ k a = .ok b := by
  cases x with
  | error e => cases h
  | ok a => exact ⟨a, rfl, h⟩

lemma cutWord_ok {r : Str × Bool × Mem} (h : cutWord m = .ok r) :
    ∃ tmp1 tmp2, eatSpace m = .ok tmp1 ∧ nextSpace tmp1 = .ok tmp2 ∧
      r = (strncpy tmp1 (cursorDist tmp1 ((memchr 0x2c (cursorDist tmp1 tmp2) tmp1).getD tmp2)),
        (memchr 0x2c (cursorDist tmp1 tmp2) tmp1).isSome,
        (memchr 0x2c (cursorDist tmp1 tmp2) tmp1).getD tmp2) := by
  obtain ⟨tmp1, h1, h⟩ := bind_ok h
  obtain ⟨tmp2, h2, h⟩ := bind_ok h
  exact ⟨tmp1, tmp2, h1, h2, (Except.ok.inj h).symm⟩

lemma modPass_ok {f : ℕ} {r : ℕ × Bool × Mem} (h : modPass f m = .ok r) :
    ∃ word coma tmp2, cutWord m = .ok (word, coma, tmp2) ∧
      ((tabParseMod word = hooktabModMax ∧ r = (f, coma, tmp2)) ∨
        (tabParseMod word ≠ hooktabModMax ∧ ∃ tmp3 c, eatSpace tmp2 = .ok tmp3 ∧
          peek tmp3 = .ok c ∧ r = if c = 0x2c then (f ||| tabParseMod word, true, tmp3.tail)
            else (f ||| tabParseMod word, coma, tmp2.tail))) := by
  obtain ⟨⟨word, coma, tmp2⟩, hcut, h⟩ := bind_ok h
  refine ⟨word, coma, tmp2, hcut, ?_⟩
  dsimp only at h
  split at h
  · next hk => exact Or.inl ⟨hk, (Except.ok.inj h).symm⟩
  · next hk =>
    obtain ⟨tmp3, h3, h⟩ := bind_ok h
    obtain ⟨c, hc, h⟩ := bind_ok h
    refine Or.inr ⟨hk, tmp3, c, h3, hc, ?_⟩
    split at h
    · next hcomma => rw [if_pos hcomma]; exact (Except.ok.inj h).symm
    · next hcomma => rw [if_neg hcomma]; exact (Except.ok.inj h).symm

lemma argLoop_ok {n : ℕ} {args : List GpiodHookArgs} (hne : tmp1.length ≠ tmp2.length)
    (h : argLoop (n + 1) tmp1 tmp2 = .ok args) :
    ∃ tmp1' tmp2' rest, eatSpace tmp2 = .ok tmp1' ∧ nextSpace tmp1' = .ok tmp2' ∧
      argLoop n tmp1' tmp2' = .ok rest := by
  rw [argLoop, if_neg hne] at h
  obtain ⟨tmp1', h1, h⟩ := bind_ok h
  obtain ⟨tmp2', h2, h⟩ := bind_ok h
  obtain ⟨rest, h3, -⟩ := bind_ok h
  exact ⟨tmp1', tmp2', rest, h1, h2, h3⟩

lemma tabHook_ok {hook : GpiodHook} (h : tabHook m = .ok hook) :
    ∃ flags tmp2 tmp1 tmp2' args, modLoop (m.length + 1) 0 m = .ok (flags, tmp2) ∧
      eatSpace tmp2 = .ok tmp1 ∧ nextSpace tmp1 = .ok tmp2' ∧
      argLoop (tmp1.length + 2) tmp1 tmp2' = .ok args ∧
      hook = ⟨strncpy tmp1 (cursorDist tmp1 tmp2'), flags, 0, -1, args.length % 256, args⟩ := by
  obtain ⟨⟨flags, tmp2⟩, hloop, h⟩ := bind_ok h
  obtain ⟨tmp1, h1, h⟩ := bind_ok h
  obtain ⟨tmp2', h2, h⟩ := bind_ok h
  obtain ⟨args, h3, h⟩ := bind_ok h
  exact ⟨flags, tmp2, tmp1, tmp2', args, hloop, h1, h2, h3, (Except.ok.inj h).symm⟩

variable {load load' : List GpioPin → Mem → Except Fault (List GpioPin)}

lemma loadLines_ok {gp_list gp_list' : List GpioPin} {buf : Mem} {line : Str} {fresh : Mem}
    {lines : List (Str × Mem)}
    (h : loadLinesBy load gp_list buf ((line, fresh) :: lines) = .ok gp_list') :
    ∃ gp₁, load gp_list (getline buf line fresh) = .ok gp₁ ∧
      loadLinesBy load gp₁ (getline buf line fresh) lines = .ok gp_list' :=
  bind_ok h

lemma loadTab_ok {gp_list gp_list' : List GpioPin} {text : Str} {fresh : ℕ → Mem} {ret : ℤ}
    (h : loadTabBy load gp_list (some text) fresh = .ok (ret, gp_list')) :
    loadLinesBy load gp_list [] (fileLines text fresh) = .ok gp_list' := by
  obtain ⟨gp₁, hlines, h⟩ := bind_ok h
  cases h
  exact hlines

lemma loadLinesBy_cons {gp_list gp₁ : List GpioPin} {buf : Mem} {line : Str} {fresh : Mem}
    (h : load gp_list (getline buf line fresh) = .ok gp₁) (lines : List (Str × Mem)) :
    loadLinesBy load gp_list buf ((line, fresh) :: lines) =
      loadLinesBy load gp₁ (getline buf line fresh) lines := by
  rw [loadLinesBy, h]
  rfl

lemma loadTabBy_text {gp_list gp_list' : List GpioPin} {text : Str} {fresh : ℕ → Mem}
    (h : loadLinesBy load gp_list [] (fileLines text fresh) = .ok gp_list') :
    loadTabBy load gp_list (some text) fresh = .ok (0, gp_list') := by
  rw [loadTabBy, h]
  rfl

lemma loadLinesBy_mono (hload : ∀ gp_list mem gp_list', load gp_list mem = .ok gp_list' →
    load' gp_list mem = .ok gp_list') {lines : List (Str × Mem)} {gp_list gp_list' : List GpioPin}
    {buf : Mem} (h : loadLinesBy load gp_list buf lines = .ok gp_list') :
    loadLinesBy load' gp_list buf lines = .ok gp_list' := by
  induction lines generalizing gp_list buf with
  | nil => exact h
  | cons l lines ih =>
    obtain ⟨gp₁, hline, hrest⟩ := loadLines_ok h
    rw [loadLinesBy_cons (hload _ _ _ hline)]
    exact ih hrest

lemma loadTabBy_mono (hload : ∀ gp_list mem gp_list', load gp_list mem = .ok gp_list' →
    load' gp_list mem = .ok gp_list') {gp_list : List GpioPin} {file : Option Str}
    {fresh : ℕ → Mem} {r : ℤ × List GpioPin} (h : loadTabBy load gp_list file fresh = .ok r) :
    loadTabBy load' gp_list file fresh = .ok r := by
  cases file with
  | none => exact h
  | some text =>
    obtain ⟨gp₁, hlines, h⟩ := bind_ok h
    rw [loadTabBy, loadLinesBy_mono hload hlines]
    exact h

end Results

end Gpiod.TabScan
