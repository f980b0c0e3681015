import Gpiod.TabArgs
import Gpiod.TabRoute
import Gpiod.Trace

/-!
The copies `loadTab` makes of the tokens of a line, and the lengths it makes them with.

The parser is run with its searches and copies as events. The distance between two cursors goes
through the width of the variable that holds it: eight bits in the code, and none cut off for
the tokens as they stand in the line. Nothing compares a length with the buffer.
-/

namespace Gpiod.TabCopies

open Gpiod.Pin Gpiod.TabScan Gpiod.TabField Gpiod.TabArgs Gpiod.TabRoute Gpiod.Trace

/-! ### The buffer -/

/-- The buffer after bytes are written from its start on. -/
def overwrite (buffer bytes : Str) : Str := bytes ++ buffer.drop bytes.length

/-- The C string at the start of a buffer, if one ends in it. -/
def cString (buffer : Str) : Option Str :=
  if 0 ∈ buffer then some (buffer.takeWhile (· != 0)) else none

/-- `char buffer[GPIOD_TAB_MAX_ARGUMENT_LENGTH] = {0}`. -/
def zeroed : Str := List.replicate gpiodTabMaxArgumentLength 0

/-- Bytes written over a buffer stay inside it and leave the token in it. -/
structure Leaves (buffer bytes token : Str) : Prop where
  inside : bytes.length ≤ gpiodTabMaxArgumentLength
  reads : cString (overwrite buffer bytes) = some token

/-! ### Searches and copies -/

inductive Access
  | /-- the search for a comma, over `len` of the `dist` bytes -/ search (dist len : ℕ)
  | /-- `strncpy(buffer, token, len)`, into the zeroed buffer -/ label (token : Str) (len : ℕ)
  | /-- the same, and `tmp[len] = '\0'` -/ copy (token : Str) (len : ℕ)

/-- The length used is the distance, and the token is left in the buffer, whatever the earlier
tokens of the line left there. -/
def Access.Exact : Access → Prop
  | search dist len => len = dist
  | label token len => len = token.length ∧ Leaves zeroed (token.take len) token
  | copy token len => len = token.length ∧ ∀ buffer : Str,
      buffer.length = gpiodTabMaxArgumentLength → Leaves buffer (token.take len ++ [0]) token

/-- A token fits that is shorter than the buffer, a stretch that eight bits hold the length of. -/
def Access.Fits : Access → Prop
  | search dist _ => dist < 256
  | label token _ => token.length < gpiodTabMaxArgumentLength
  | copy token _ => token.length < gpiodTabMaxArgumentLength

/-- The access stays inside the buffer, the NUL behind a token with it. A label that fills the
buffer leaves none, and is read on behind it. -/
def Access.inside : Access → Bool
  | search _ _ => true
  | label _ len => len < gpiodTabMaxArgumentLength
  | copy _ len => len < gpiodTabMaxArgumentLength

/-! ### The parser with its accesses -/

abbrev Parse (α : Type) := Traced Access Fault α

section Parser

variable (width : ℕ → ℕ)

/-- `len = tmp2 - tmp1`. -/
def distOf (tmp1 tmp2 : Mem) : ℕ := width (tmp1.length - tmp2.length)

/-- The bytes between two cursors. -/
def between (tmp1 tmp2 : Mem) : Str := tmp1.take (tmp1.length - tmp2.length)

def copyOf (tmp1 tmp2 : Mem) : Parse Str := do
  Traced.emit (.copy (between tmp1 tmp2) (distOf width tmp1 tmp2))
  return strncpy tmp1 (distOf width tmp1 tmp2)

/-- The search for a comma in the stretch between two cursors. -/
def searchOf (tmp1 tmp2 : Mem) : Parse (Option Mem) := do
  Traced.emit (.search (tmp1.length - tmp2.length) (distOf width tmp1 tmp2))
  return memchr 0x2c (distOf width tmp1 tmp2) tmp1

def cutWordOf (tmp2 : Mem) : Parse (Str × Bool × Mem) := do
  let tmp1 ← Traced.lift (eatSpace tmp2)
  let tmp2 ← Traced.lift (nextSpace tmp1)
  let coma ← searchOf width tmp1 tmp2
  let tmp2 := coma.getD tmp2
  let word ← copyOf width tmp1 tmp2
  return (word, coma.isSome, tmp2)

def modPassOf (flags : ℕ) (tmp2 : Mem) : Parse (ℕ × Bool × Mem) := do
  let (word, coma, tmp2) ← cutWordOf width tmp2
  if tabParseMod word = hooktabModMax then
    return (flags, coma, tmp2)
  else
    let tmp3 ← Traced.lift (eatSpace tmp2)
    let c ← Traced.lift (peek tmp3)
    if c = 0x2c then
      return (flags ||| tabParseMod word, true, tmp3.tail)
    else
      return (flags ||| tabParseMod word, coma, tmp2.tail)

def modLoopOf : ℕ → ℕ → Mem → Parse (ℕ × Mem)
  | 0, _, _ => Traced.lift (.error .fuel)
  | fuel + 1, flags, tmp2 => do
    let (flags, coma, tmp2) ← modPassOf width flags tmp2
    if coma then modLoopOf fuel flags tmp2 else return (flags, tmp2)

def argLoopOf : ℕ → Mem → Mem → Parse (List GpiodHookArgs)
  | 0, _, _ => Traced.lift (.error .fuel)
  | fuel + 1, tmp1, tmp2 =>
    if tmp1.length = tmp2.length then return []
    else do
      let tmp1 ← Traced.lift (eatSpace tmp2)
      let tmp2 ← Traced.lift (nextSpace tmp1)
      let tmp ← copyOf width tmp1 tmp2
      let args ← argLoopOf fuel tmp1 tmp2
      return mkArg tmp :: args

def tabHookOf (tmp2 : Mem) : Parse GpiodHook := do
  let (flags, tmp2) ← modLoopOf width (tmp2.length + 1) 0 tmp2
  let tmp1 ← Traced.lift (eatSpace tmp2)
  let tmp2 ← Traced.lift (nextSpace tmp1)
  let path ← copyOf width tmp1 tmp2
  let args ← argLoopOf width (tmp1.length + 2) tmp1 tmp2
  return {
    path := path
    flags := flags
    fired := 0
    spawned := -1
    arg_list_size := args.length % 256
    arg_list := args }

def tabLabelOf (line : Mem) : Parse (Str × Mem) := do
  let tmp1 ← Traced.lift (eatSpace line)
  let tmp2 ← Traced.lift (nextSpace tmp1)
  Traced.emit (.label (between tmp1 tmp2) (distOf width tmp1 tmp2))
  return (strncpy tmp1 (distOf width tmp1 tmp2), tmp2)

def loadLineOf (gp_list : List GpioPin) (line : Mem) : Parse (List GpioPin) := do
  let (label, tmp2) ← tabLabelOf width line
  match findPinByLabel gp_list label with
  | none => return gp_list
  | some i => do
    let hook ← tabHookOf width tmp2
    return gp_list.modify i (·.addHook hook)

end Parser

/-- The `uint8_t` that holds the lengths. -/
def len8 (n : ℕ) : ℕ := n % 256

/-- Every token of a line is copied as it stands, inside the buffer. -/
def CopiesExact (gp_list : List GpioPin) (line : Mem) : Prop :=
  ∀ a ∈ (loadLineOf len8 gp_list line).events, a.Exact

/-- The tokens of the line, as they stand in it, are shorter than the buffer, and eight bits
hold the lengths of the stretches that are searched for a comma. -/
def TokensFit (gp_list : List GpioPin) (line : Mem) : Prop :=
  ∀ a ∈ (loadLineOf id gp_list line).events, a.Fits

/-! ### Without the accesses it is the parser -/

lemma cutWordOf_result (m : Mem) : (cutWordOf len8 m).result = cutWord m := by
  simp only [cutWordOf, cutWord, searchOf, copyOf, bind_result, lift_result, emit_result,
    pure_result]
  rfl

lemma modPassOf_result (f : ℕ) (m : Mem) : (modPassOf len8 f m).result = modPass f m := by
  simp only [modPassOf, modPass, bind_result, cutWordOf_result]
  congr 1
  funext r
  obtain ⟨word, coma, tmp2⟩ := r
  dsimp only
  split
  · rfl
  · simp only [bind_result, lift_result]
    congr 1
    funext tmp3
    congr 1
    funext c
    split <;> rfl

lemma modLoopOf_result (n f : ℕ) (m : Mem) : (modLoopOf len8 n f m).result = modLoop n f m := by
  induction n generalizing f m with
  | zero => rfl
  | succ n ih =>
    simp only [modLoopOf, modLoop, bind_result, modPassOf_result]
    congr 1
    funext r
    obtain ⟨flags, coma, tmp2⟩ := r
    cases coma with
    | false => rfl
    | true => exact ih flags tmp2

lemma argLoopOf_result (n : ℕ) (tmp1 tmp2 : Mem) :
    (argLoopOf len8 n tmp1 tmp2).result = argLoop n tmp1 tmp2 := by
  induction n generalizing tmp1 tmp2 with
  | zero => rfl
  | succ n ih =>
    rw [argLoopOf, argLoop]
    split
    · rfl
    · simp only [copyOf, bind_result, lift_result, emit_result, pure_result, ih]
      rfl

lemma tabHookOf_result (m : Mem) : (tabHookOf len8 m).result = tabHook m := by
  simp only [tabHookOf, tabHook, copyOf, bind_result, lift_result, emit_result, pure_result,
    modLoopOf_result, argLoopOf_result]
  rfl

lemma tabLabelOf_result (line : Mem) : (tabLabelOf len8 line).result = tabLabel line := by
  simp only [tabLabelOf, tabLabel, bind_result, lift_result, emit_result, pure_result]
  rfl

/-- **The accesses are those of the parser**: forgetting them leaves `loadLine`. -/
theorem loadLineOf_result (gp_list : List GpioPin) (line : Mem) :
    (loadLineOf len8 gp_list line).result = loadLine gp_list line := by
  simp only [loadLineOf, loadLine, bind_result, tabLabelOf_result]
  congr 1
  funext r
  obtain ⟨label, tmp2⟩ := r
  dsimp only
  cases findPinByLabel gp_list label with
  | none => rfl
  | some i =>
    simp only [bind_result, tabHookOf_result]
    rfl

/-! ### One access -/

section Access

lemma cString_of_nul {token rest : Str} (h : 0 ∉ token) :
    cString (token ++ 0 :: rest) = some token := by
  have htoken : ∀ c ∈ token, (c != 0) = true := by
    intro c hc
    simpa using fun h0 : c = 0 => h (h0 ▸ hc)
  rw [cString, if_pos (by simp), List.takeWhile_append_of_pos htoken]
  simp

lemma len8_eq {n : ℕ} : len8 n = n ↔ n < 256 := by
  unfold len8
  omega

lemma exact_copy {token : Str} (h : 0 ∉ token) :
    (Access.copy token (len8 token.length)).Exact ↔ token.length < gpiodTabMaxArgumentLength := by
  constructor
  · rintro ⟨hlen, hleaves⟩
    have hin := (hleaves zeroed (List.length_replicate ..)).inside
    rw [hlen, List.take_length, List.length_append, List.length_singleton] at hin
    omega
  · intro hlt
    have hlen : len8 token.length = token.length :=
      len8_eq.mpr (hlt.trans (by decide))
    refine ⟨hlen, fun buffer hbuf => ?_⟩
    rw [hlen, List.take_length]
    refine ⟨by rw [List.length_append, List.length_singleton]; omega, ?_⟩
    rw [overwrite, List.append_assoc]
    exact cString_of_nul h

/-- The label has no NUL of its own behind it: it is that of the zeroed buffer. -/
lemma exact_label {token : Str} (h : 0 ∉ token) :
    (Access.label token (len8 token.length)).Exact ↔ token.length < gpiodTabMaxArgumentLength := by
  constructor
  · rintro ⟨hlen, hin, hreads⟩
    rw [hlen, List.take_length] at hin hreads
    by_contra hge
    have hfull : gpiodTabMaxArgumentLength - token.length = 0 := by omega
    rw [overwrite, zeroed, List.drop_replicate, hfull, List.replicate_zero, List.append_nil,
      cString, if_neg h] at hreads
    cases hreads
  · intro hlt
    have hlen : len8 token.length = token.length :=
      len8_eq.mpr (hlt.trans (by decide))
    refine ⟨hlen, ?_⟩
    rw [hlen, List.take_length]
    refine ⟨hlt.le, ?_⟩
    obtain ⟨k, hk⟩ : ∃ k, gpiodTabMaxArgumentLength - token.length = k + 1 :=
      ⟨gpiodTabMaxArgumentLength - token.length - 1, by omega⟩
    rw [overwrite, zeroed, List.drop_replicate, hk, List.replicate_succ]
    exact cString_of_nul h

end Access

/-! ### The parser with eight bits and with full width -/

/-- The same accesses as far as the tokens fit. -/
abbrev Alike {α : Type} (x y : Parse α) : Prop := Agree Access.Exact Access.Fits x y

lemma between_append (p m : Mem) : between (p ++ m) m = p := by
  rw [between, List.length_append, Nat.add_sub_cancel, List.take_left]

lemma distOf_append (width : ℕ → ℕ) (p m : Mem) : distOf width (p ++ m) m = width p.length := by
  rw [distOf, List.length_append, Nat.add_sub_cancel]

lemma alike_copy {p : Str} (h : 0 ∉ p) (m : Mem) :
    Alike (copyOf len8 (p ++ m) m) (copyOf id (p ++ m) m) := by
  unfold copyOf
  rw [between_append, distOf_append, distOf_append]
  refine agree_emit (exact_copy h) fun hfits => ?_
  have hlen : len8 p.length = p.length := (exact_copy h |>.mpr hfits).1
  rw [hlen]
  exact ⟨rfl, rfl⟩

lemma alike_search (p m : Mem) : Alike (searchOf len8 (p ++ m) m) (searchOf id (p ++ m) m) := by
  unfold searchOf
  rw [distOf_append, distOf_append, List.length_append, Nat.add_sub_cancel]
  refine agree_emit len8_eq fun hfits => ?_
  rw [len8_eq.mpr hfits]
  exact ⟨rfl, rfl⟩

lemma solid_before_comma {p w m t : Mem} {n : ℕ} (hp : Solid p) (h : p ++ m = w ++ t)
    (hw : w.length < n) (hn : n ≤ p.length) : Solid w := by
  have hw' : w <+: p ++ m := h ▸ List.prefix_append w t
  have hpre : w <+: p :=
    List.prefix_of_prefix_length_le hw' (List.prefix_append p m) (by omega)
  exact fun c hc => hp c (hpre.subset hc)

lemma nul_not_mem {p : Str} (h : Solid p) : 0 ∉ p := fun hc => (h 0 hc).1 rfl

lemma alike_cutWord (m : Mem) : Alike (cutWordOf len8 m) (cutWordOf id m) := by
  refine (agree_lift _).bind fun tmp1 _ _ => (agree_lift _).bind fun tmp2 _ h2 => ?_
  obtain ⟨p, r, x, rfl, hp, -⟩ := nextSpace_split h2
  refine (alike_search p tmp2).bind fun coma _ hcoma => ?_
  have hcoma : memchr 0x2c p.length (p ++ tmp2) = coma := by
    have hid := distOf_append id p tmp2
    rw [searchOf, bind_result, hid] at hcoma
    exact Except.ok.inj hcoma
  refine Agree.bind ?_ fun word _ _ => agree_pure _
  cases coma with
  | none => exact alike_copy (nul_not_mem hp) tmp2
  | some c =>
    obtain ⟨w, hw, hlt⟩ := memchr_split hcoma
    have hsolid := solid_before_comma hp hw hlt le_rfl
    rw [Option.getD_some, hw]
    exact alike_copy (nul_not_mem hsolid) c

lemma alike_modPass (f : ℕ) (m : Mem) : Alike (modPassOf len8 f m) (modPassOf id f m) := by
  refine (alike_cutWord m).bind fun r _ _ => ?_
  obtain ⟨word, coma, tmp2⟩ := r
  dsimp only
  split
  · exact agree_pure _
  · refine (agree_lift _).bind fun tmp3 _ _ => (agree_lift _).bind fun c _ _ => ?_
    split <;> exact agree_pure _

lemma alike_modLoop (n f : ℕ) (m : Mem) : Alike (modLoopOf len8 n f m) (modLoopOf id n f m) := by
  induction n generalizing f m with
  | zero => exact agree_lift _
  | succ n ih =>
    refine (alike_modPass f m).bind fun r _ _ => ?_
    obtain ⟨flags, coma, tmp2⟩ := r
    cases coma with
    | false => exact agree_pure _
    | true => exact ih flags tmp2

lemma alike_argLoop (n : ℕ) (tmp1 tmp2 : Mem) :
    Alike (argLoopOf len8 n tmp1 tmp2) (argLoopOf id n tmp1 tmp2) := by
  induction n generalizing tmp1 tmp2 with
  | zero => exact agree_lift _
  | succ n ih =>
    rw [argLoopOf, argLoopOf]
    split
    · exact agree_pure _
    · refine (agree_lift _).bind fun tmp1 _ _ => (agree_lift _).bind fun tmp2 _ h2 => ?_
      obtain ⟨p, r, x, rfl, hp, -⟩ := nextSpace_split h2
      refine (alike_copy (nul_not_mem hp) tmp2).bind fun tmp _ _ => ?_
      exact (ih _ tmp2).bind fun args _ _ => agree_pure _

lemma alike_tabHook (m : Mem) : Alike (tabHookOf len8 m) (tabHookOf id m) := by
  refine (alike_modLoop _ 0 m).bind fun r _ _ => ?_
  refine (agree_lift _).bind fun tmp1 _ _ => (agree_lift _).bind fun tmp2 _ h2 => ?_
  obtain ⟨p, r, x, rfl, hp, -⟩ := nextSpace_split h2
  refine (alike_copy (nul_not_mem hp) tmp2).bind fun path _ _ => ?_
  exact (alike_argLoop _ _ tmp2).bind fun args _ _ => agree_pure _

lemma alike_tabLabel (line : Mem) : Alike (tabLabelOf len8 line) (tabLabelOf id line) := by
  refine (agree_lift _).bind fun tmp1 _ _ => (agree_lift _).bind fun tmp2 _ h2 => ?_
  obtain ⟨p, r, x, rfl, hp, -⟩ := nextSpace_split h2
  rw [between_append, distOf_append, distOf_append]
  refine agree_emit (exact_label (nul_not_mem hp)) fun hfits => ?_
  have hlen : len8 p.length = p.length := ((exact_label (nul_not_mem hp)).mpr hfits).1
  rw [hlen]
  exact ⟨rfl, rfl⟩

lemma alike_loadLine (gp_list : List GpioPin) (line : Mem) :
    Alike (loadLineOf len8 gp_list line) (loadLineOf id gp_list line) := by
  refine (alike_tabLabel line).bind fun r _ _ => ?_
  obtain ⟨label, tmp2⟩ := r
  dsimp only
  cases findPinByLabel gp_list label with
  | none => exact agree_pure _
  | some i => exact (alike_tabHook tmp2).bind fun hook _ _ => agree_pure _

/-- **Which lines are copied exactly**: those whose tokens, as they stand in the line, are all
shorter than the buffer, and whose searched stretches are shorter than 256 bytes. No token is
ever rejected for its length. -/
theorem copiesExact_iff (gp_list : List GpioPin) (line : Mem) :
    CopiesExact gp_list line ↔ TokensFit gp_list line :=
  (alike_loadLine gp_list line).events

/-! ### Long labels -/

section Label

variable {p m : Str} {r : UInt8}

lemma label_mem (gp_list : List GpioPin) (hp : Solid p) (hne : p ≠ []) (hr : Stops r) :
    Access.label p (len8 p.length) ∈ (loadLineOf len8 gp_list (p ++ r :: m)).events := by
  have heat : eatSpace (p ++ r :: m) = .ok (p ++ r :: m) :=
    eatSpace_piece (b := []) (by simp [Blanks]) hp fun hnil => absurd hnil hne
  refine events_subset_bind _ _ ?_
  rw [tabLabelOf, heat, lift_ok_bind, nextSpace_piece hp hr, lift_ok_bind, between_append,
    distOf_append]
  exact List.mem_cons_self

lemma not_exact_of_label (gp_list : List GpioPin) (hp : Solid p) (hr : Stops r)
    (hlen : gpiodTabMaxArgumentLength ≤ p.length) : ¬ CopiesExact gp_list (p ++ r :: m) := by
  have hne : p ≠ [] := by
    rintro rfl
    exact absurd hlen (by decide)
  intro h
  have hlt := (exact_label (nul_not_mem hp)).mp (h _ (label_mem gp_list hp hne hr))
  omega

end Label

/-- `WD0` and 256 bytes more. -/
def longLabel : Str := bytes "WD0" ++ List.replicate 256 0x78

lemma longLabel_solid : Solid longLabel := by
  refine Solid.append.mpr ⟨by decide, fun c hc => ?_⟩
  rw [List.eq_of_mem_replicate hc]
  decide

lemma tabLabel_longLabel (m : Mem) :
    tabLabel (longLabel ++ 0x20 :: m) = .ok (bytes "WD0", 0x20 :: m) := by
  have hne : longLabel ≠ [] := List.append_ne_nil_of_left_ne_nil (by decide) _
  have heat : eatSpace (longLabel ++ 0x20 :: m) = .ok (longLabel ++ 0x20 :: m) :=
    eatSpace_piece (b := []) (by simp [Blanks]) longLabel_solid fun hnil => absurd hnil hne
  have hnext : nextSpace (longLabel ++ 0x20 :: m) = .ok (0x20 :: m) :=
    nextSpace_piece longLabel_solid (Or.inr rfl)
  have hlen : longLabel.length = 259 := by
    rw [longLabel, List.length_append, List.length_replicate]
    rfl
  have hcopy : strncpy (longLabel ++ 0x20 :: m) (longLabel.length % 256) = bytes "WD0" := by
    rw [strncpy_append longLabel_solid _ (Nat.mod_le _ _), hlen]
    exact List.take_left' rfl
  simp only [tabLabel, heat, hnext, bind, Except.bind, cursorDist_append, hcopy, pure, Except.pure]

/-- A label of 200 bytes is written over the end of the buffer, and one of 259 bytes is cut to
its first three and finds the pin of that name. -/
theorem label_overrun_and_truncated :
    ¬ CopiesExact wd0 (List.replicate 200 0x61 ++ 0x0a :: [0]) ∧
      ¬ CopiesExact wd0 (longLabel ++ 0x20 :: bytes "EDGE_BOTH /bin/a\n\x00") ∧
      loadLine wd0 (longLabel ++ 0x20 :: bytes "EDGE_BOTH /bin/a\n\x00") =
        .ok (wd0.modify 0 (·.addHook hookA)) := by
  have hsolid : Solid (List.replicate 200 0x61) := fun c hc => by
    rw [List.eq_of_mem_replicate hc]
    decide
  refine ⟨not_exact_of_label wd0 hsolid (Or.inr rfl) ?_,
    not_exact_of_label wd0 longLabel_solid (Or.inr rfl) ?_, ?_⟩
  · rw [List.length_replicate]
    decide
  · rw [longLabel, List.length_append, List.length_replicate]
    decide
  · rw [loadLine, tabLabel_longLabel]
    decide

end Gpiod.TabCopies
