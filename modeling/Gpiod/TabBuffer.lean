import Gpiod.TabBounds
import Gpiod.TabCopies

/-!
Loading a tab file with the token buffer.

The parser runs up to the first access that leaves the buffer. Which accesses do is a matter of the
lengths of the words and the tokens a line is taken apart into, as the eight-bit length cuts them;
a line is loaded exactly if these are all shorter than the buffer and the line does not send a
cursor over the end of the memory.
-/

namespace Gpiod.TabBuffer

open Gpiod.Pin Gpiod.TabScan Gpiod.TabField Gpiod.TabArgs Gpiod.TabRoute Gpiod.TabBounds
open Gpiod.TabCopies Gpiod.TabTotal Gpiod.Trace

/-! ### The loader -/

/-- The label in the buffer, and the cursor behind it. -/
def tabLabel (line : Mem) : Except Fault (Str × Mem) :=
  (tabLabelOf len8 line).guard Access.inside .overrun

/-- The hook made of a line, from the cursor behind the label on. -/
def tabHook (tmp2 : Mem) : Except Fault GpiodHook :=
  (tabHookOf len8 tmp2).guard Access.inside .overrun

/-- One iteration of the loop over the lines. -/
def loadLine (gp_list : List GpioPin) (line : Mem) : Except Fault (List GpioPin) :=
  (loadLineOf len8 gp_list line).guard Access.inside .overrun

abbrev loadLines : List GpioPin → Mem → List (Str × Mem) → Except Fault (List GpioPin) :=
  loadLinesBy loadLine

abbrev loadTab : List GpioPin → Option Str → (ℕ → Mem) → Except Fault (ℤ × List GpioPin) :=
  loadTabBy loadLine

/-- The accesses of a computation stay inside the buffer. -/
def Inside {α : Type} (x : Parse α) : Prop := ∀ a ∈ x.events, a.inside = true

lemma tabHook_ok_iff {m : Mem} {hook : GpiodHook} :
    tabHook m = .ok hook ↔ Inside (tabHookOf len8 m) ∧ TabScan.tabHook m = .ok hook := by
  rw [tabHook, guard_ok_iff, tabHookOf_result]
  rfl

lemma loadLine_ok_iff {gp_list gp_list' : List GpioPin} {line : Mem} :
    loadLine gp_list line = .ok gp_list' ↔
      Inside (loadLineOf len8 gp_list line) ∧ TabScan.loadLine gp_list line = .ok gp_list' := by
  rw [loadLine, guard_ok_iff, loadLineOf_result]
  rfl

lemma loadLine_bind (gp_list : List GpioPin) (line : Mem) :
    loadLine gp_list line = (tabLabel line).bind fun r =>
      match findPinByLabel gp_list r.1 with
      | none => .ok gp_list
      | some i => (tabHook r.2).bind fun hook => .ok (gp_list.modify i (·.addHook hook)) := by
  rw [loadLine, loadLineOf, guard_bind]
  refine congrArg (Except.bind _) (funext fun r => ?_)
  dsimp only
  cases findPinByLabel gp_list r.1 with
  | none => rfl
  | some i => exact guard_bind _ _

/-- **Inside the buffer** the lines do what they do without it. -/
theorem loadTab_unbuffered {gp_list : List GpioPin} {file : Option Str} {fresh : ℕ → Mem}
    {r : ℤ × List GpioPin} (h : loadTab gp_list file fresh = .ok r) :
    TabScan.loadTab gp_list file fresh = .ok r :=
  loadTabBy_mono (fun _ _ _ h => (loadLine_ok_iff.mp h).2) h

/-! ### Lengths -/

/-- The buffer has room for the words, which are as the loop cuts them, and for what the eight-bit
length keeps of the tokens. -/
def Short (ws ts : List Str) : Prop :=
  (∀ w ∈ ws, w.length < gpiodTabMaxArgumentLength) ∧
    ∀ t ∈ ts, t.length % 256 < gpiodTabMaxArgumentLength

section Inside

variable {α β : Type}

lemma inside_bind {x : Parse α} {a : α} (h : x.result = .ok a) (k : α → Parse β) :
    Inside (x >>= k) ↔ Inside x ∧ Inside (k a) := by
  unfold Inside
  rw [bind_of_ok h]
  simp only [List.mem_append, or_imp, forall_and]

lemma inside_lift (x : Except Fault α) : Inside (Traced.lift x : Parse α) :=
  fun _ h => absurd h List.not_mem_nil

lemma inside_pure (a : α) : Inside (pure a : Parse α) := inside_lift (.ok a)

lemma inside_lift_bind {x : Except Fault α} {a : α} (h : x = .ok a) (k : α → Parse β) :
    Inside (Traced.lift x >>= k) ↔ Inside (k a) := by
  subst h
  rw [lift_ok_bind]

lemma inside_copy (p m : Mem) : Inside (copyOf len8 (p ++ m) m) ↔
    p.length % 256 < gpiodTabMaxArgumentLength := by
  unfold copyOf
  rw [distOf_append]
  show (∀ a ∈ [_], _) ↔ _
  simp [Access.inside, len8]

lemma copyOf_result (tmp1 tmp2 : Mem) :
    (copyOf len8 tmp1 tmp2).result = .ok (strncpy tmp1 (cursorDist tmp1 tmp2)) := by
  rw [copyOf, bind_result]
  rfl

lemma inside_search (tmp1 tmp2 : Mem) : Inside (searchOf len8 tmp1 tmp2) := by
  unfold searchOf
  show ∀ a ∈ [_], _
  simp [Access.inside]

end Inside

lemma inside_cutWord {m t : Mem} {w : Str} {coma : Bool} (h : cutWord m = .ok (w, coma, t)) :
    Inside (cutWordOf len8 m) ↔ w.length < gpiodTabMaxArgumentLength := by
  obtain ⟨tmp1, tmp2, h1, h2, hr⟩ := cutWord_ok h
  obtain ⟨b, p, r, x, rfl, rfl, rfl, hb, hp, -, -⟩ := cursors_split h1 h2
  obtain ⟨rfl, -, -⟩ := by simpa only [Prod.mk.injEq] using hr
  have hsearch : (searchOf len8 (p ++ r :: x) (r :: x)).result =
      .ok (memchr 0x2c (cursorDist (p ++ r :: x) (r :: x)) (p ++ r :: x)) := by
    rw [searchOf, bind_result]
    rfl
  unfold cutWordOf
  rw [inside_lift_bind h1, inside_lift_bind h2, inside_bind hsearch,
    and_iff_right (inside_search _ _)]
  -- the bytes in front of the place the word ends at
  obtain ⟨v, t, hsplit, ht, hv⟩ : ∃ v t, p ++ r :: x = v ++ t ∧
      (memchr 0x2c (cursorDist (p ++ r :: x) (r :: x)) (p ++ r :: x)).getD (r :: x) = t ∧
        Solid v := by
    cases hc : memchr 0x2c (cursorDist (p ++ r :: x) (r :: x)) (p ++ r :: x) with
    | none => exact ⟨p, r :: x, rfl, rfl, hp⟩
    | some c =>
      obtain ⟨v, hv, hlt⟩ := memchr_split hc
      rw [cursorDist_append] at hlt
      exact ⟨v, c, hv, rfl, solid_before_comma hp hv hlt (Nat.mod_le _ _)⟩
  rw [hsplit] at ht ⊢
  dsimp only
  rw [ht, inside_bind (copyOf_result _ _), and_iff_left (inside_pure _), inside_copy,
    strncpy_token hv, keep, List.length_take, Nat.min_eq_left (Nat.mod_le _ _)]

lemma inside_modPass {f : ℕ} {m t : Mem} {w : Str} {coma : Bool}
    (h : cutWord m = .ok (w, coma, t)) (r : ℕ × Bool × Mem) (hr : modPass f m = .ok r) :
    Inside (modPassOf len8 f m) ↔ w.length < gpiodTabMaxArgumentLength := by
  have hcut : (cutWordOf len8 m).result = .ok (w, coma, t) := (cutWordOf_result m).trans h
  rw [modPassOf, inside_bind hcut, inside_cutWord h, and_iff_left_iff_imp]
  intro _
  obtain ⟨w', coma', t', hcut', hbehind⟩ := modPass_ok hr
  cases h.symm.trans hcut'
  dsimp only
  split
  · exact inside_pure _
  · next hk =>
    obtain ⟨-, tmp3, c, h3, hc, -⟩ := hbehind.resolve_left fun hno => hk hno.1
    rw [inside_lift_bind h3, inside_lift_bind hc]
    split <;> exact inside_pure _

/-- **The modifier loop** stays inside the buffer exactly if every word it cuts does. -/
lemma inside_modLoop {m y : Mem} {ws : List Str} (h : Cuts m ws y) :
    ∀ n f, m.length < n → (Inside (modLoopOf len8 n f m) ↔
      ∀ w ∈ ws, w.length < gpiodTabMaxArgumentLength) := by
  induction h with
  | @last m t u w c hcut h =>
    intro n f hn
    obtain ⟨n, rfl⟩ : ∃ k, n = k + 1 := ⟨n - 1, by omega⟩
    have hres : (modPassOf len8 f m).result = .ok (f ||| wordFlags w, false, t) :=
      (modPassOf_result f m).trans (h f)
    rw [modLoopOf, inside_bind hres, inside_modPass hcut _ (h f), List.forall_mem_cons]
    exact and_congr_right fun _ => iff_of_true (inside_pure _) (List.forall_mem_nil _)
  | @more m t u y w c ws hcut h ht ih =>
    intro n f hn
    obtain ⟨n, rfl⟩ : ∃ k, n = k + 1 := ⟨n - 1, by omega⟩
    have hlt := (modPass_spec f m).2 _ _ (h f)
    have hres : (modPassOf len8 f m).result = .ok (f ||| wordFlags w, true, t) :=
      (modPassOf_result f m).trans (h f)
    rw [modLoopOf, inside_bind hres, inside_modPass hcut _ (h f), List.forall_mem_cons]
    exact and_congr_right fun _ => ih n _ (by omega)

/-- **The argument loop**, likewise; the empty token behind the last one is copied too. -/
lemma inside_argLoop {m : Mem} {ts : List Str} (h : Tokens m ts) :
    ∀ n tmp1, m.length + 1 ≤ n → tmp1.length ≠ m.length → (Inside (argLoopOf len8 n tmp1 m) ↔
      ∀ t ∈ ts, t.length % 256 < gpiodTabMaxArgumentLength) := by
  have hargs : ∀ n tmp1 m args, argLoop n tmp1 m = .ok args →
      (argLoopOf len8 n tmp1 m).result = .ok args := fun n tmp1 m args h =>
    (argLoopOf_result n tmp1 m).trans h
  induction h with
  | @done b m r hb hr hbr =>
    intro n tmp1 hn hne
    simp only [List.length_append, List.length_cons] at hn
    obtain ⟨n, rfl⟩ : ∃ k, n = k + 2 := ⟨n - 2, by omega⟩
    have hempty := inside_copy [] (r :: m)
    rw [List.nil_append] at hempty
    rw [argLoopOf, if_neg hne, inside_lift_bind (eatSpace_found hb hbr m),
      inside_lift_bind (nextSpace_stop hr m), inside_bind (copyOf_result _ _), hempty, argLoopOf,
      if_pos rfl]
    exact iff_of_true ⟨by decide, inside_pure _⟩ (List.forall_mem_nil _)
  | @token b p m r ts hb hp hne hr h ih =>
    intro n tmp1 hn hlen
    simp only [List.length_append, List.length_cons] at hn
    obtain ⟨n, rfl⟩ : ∃ k, n = k + 1 := ⟨n - 1, by omega⟩
    have hpos : 0 < p.length := List.length_pos_iff.mpr hne
    have hlen' : (p ++ r :: m).length ≠ (r :: m).length := by
      rw [List.length_append]
      omega
    have hn' : (r :: m).length + 1 ≤ n := by
      rw [List.length_cons]
      omega
    rw [argLoopOf, if_neg hlen, inside_lift_bind (eatSpace_piece hb hp fun hp => absurd hp hne),
      inside_lift_bind (nextSpace_piece hp hr), inside_bind (copyOf_result _ _), inside_copy,
      inside_bind (hargs _ _ _ _ (h.run n _ hn' hlen')), and_iff_left (inside_pure _),
      List.forall_mem_cons, ih n _ hn' hlen']

/-- **The hook of a text** is read inside the buffer exactly if its words and tokens are short. -/
lemma inside_tabHook {m y : Mem} {ws ts : List Str} (hcuts : Cuts m ws y) (hts : Tokens y ts) :
    Inside (tabHookOf len8 m) ↔ Short ws ts := by
  have hn : m.length < m.length + 1 := Nat.lt_succ_self _
  have hloop : (modLoopOf len8 (m.length + 1) 0 m).result = .ok (Mask.join wordFlags 0 ws, y) :=
    (modLoopOf_result _ _ _).trans (hcuts.run _ 0 hn)
  rw [tabHookOf, inside_bind hloop, inside_modLoop hcuts _ 0 hn]
  refine and_congr_right fun _ => ?_
  cases hts with
  | @done b m' r hb hr hbr =>
    have hempty := inside_copy [] (r :: m')
    rw [List.nil_append] at hempty
    rw [inside_lift_bind (eatSpace_found hb hbr m'), inside_lift_bind (nextSpace_stop hr m'),
      inside_bind (copyOf_result _ _), hempty, argLoopOf, if_pos rfl]
    exact iff_of_true ⟨by decide, inside_pure _⟩ (List.forall_mem_nil _)
  | @token b p m' r args hb hp hne hr hargs =>
    have hpos : 0 < p.length := List.length_pos_iff.mpr hne
    have hlen : (p ++ r :: m').length ≠ (r :: m').length := by
      rw [List.length_append]
      omega
    have hn : (r :: m').length + 1 ≤ (p ++ r :: m').length + 2 := by
      rw [List.length_append]
      omega
    have hres : (argLoopOf len8 ((p ++ r :: m').length + 2) (p ++ r :: m') (r :: m')).result =
        .ok (entries args) := (argLoopOf_result _ _ _).trans (hargs.run _ _ hn hlen)
    rw [inside_lift_bind (eatSpace_piece hb hp fun hp => absurd hp hne),
      inside_lift_bind (nextSpace_piece hp hr), inside_bind (copyOf_result _ _), inside_copy,
      inside_bind hres, and_iff_left (inside_pure _), List.forall_mem_cons,
      inside_argLoop hargs _ _ hn hlen]

/-! ### The line -/

/-- The label fits, and what stands behind it is taken apart into short words and tokens. -/
structure LineLoads (gp_list : List GpioPin) (line : Str) (stale : Mem) : Prop where
  label : (firstToken line).length % 256 < gpiodTabMaxArgumentLength
  hook : LabelFound gp_list line →
    ∃ ws ts, Reads (afterToken line ++ 0 :: stale) ws ts ∧ Short ws ts

lemma Reads.inside {m : Mem} {ws ts : List Str} (h : Reads m ws ts) :
    Inside (tabHookOf len8 m) ↔ Short ws ts := by
  obtain ⟨y, hends, hts⟩ := h
  exact inside_tabHook hends.cuts hts

lemma tabHook_iff {m y : Mem} {ws ts : List Str} (h : Cuts m ws y) (hts : Tokens y ts)
    {hook : GpiodHook} :
    tabHook m = .ok hook ↔ Short ws ts ∧ hook = hookOf (Mask.join wordFlags 0 ws) ts := by
  rw [tabHook_ok_iff, inside_tabHook h hts, tabHook_of h hts, Except.ok.injEq, eq_comm]

lemma tabHook_of_cuts {m y : Mem} {ws ts : List Str} (h : Cuts m ws y) (hts : Tokens y ts)
    (hs : Short ws ts) : tabHook m = .ok (hookOf (Mask.join wordFlags 0 ws) ts) :=
  (tabHook_iff h hts).mpr ⟨hs, rfl⟩

lemma tabHook_of_short {m : Mem} {ws ts : List Str} (h : Reads m ws ts) (hs : Short ws ts) :
    tabHook m = .ok (hookOf (Mask.join wordFlags 0 ws) ts) := by
  obtain ⟨y, hends, hts⟩ := h
  exact tabHook_of_cuts hends.cuts hts hs

lemma short_of_tabHook {m : Mem} {hook : GpiodHook} (h : tabHook m = .ok hook) :
    ∃ ws ts, Reads m ws ts ∧ Short ws ts := by
  obtain ⟨hin, hhook⟩ := tabHook_ok_iff.mp h
  obtain ⟨ws, ts, hreads⟩ := of_tabHook hhook
  exact ⟨ws, ts, hreads, (Reads.inside hreads).mp hin⟩

lemma inside_tabLabel (line : Str) (stale : Mem) :
    Inside (tabLabelOf len8 (line ++ 0 :: stale)) ↔
      (firstToken line).length % 256 < gpiodTabMaxArgumentLength := by
  obtain ⟨r, m, hr, hbr, hsplit, -⟩ := split_token line stale
  rw [hsplit, tabLabelOf,
    inside_lift_bind (eatSpace_piece (blanks_takeWhile line) (solid_firstToken line) hbr),
    inside_lift_bind (nextSpace_piece (solid_firstToken line) hr), distOf_append]
  show (∀ a ∈ [_], _) ↔ _
  simp [Access.inside, len8]

/-- The line is loaded as its label, and the hook of what stands behind it. -/
lemma loadLine_eq {gp_list gp_list' : List GpioPin} {line : Str} {stale : Mem} :
    loadLine gp_list (line ++ 0 :: stale) = .ok gp_list' ↔
      (firstToken line).length % 256 < gpiodTabMaxArgumentLength ∧
        match findPinByLabel gp_list (keep (firstToken line)) with
        | none => gp_list' = gp_list
        | some k => ∃ hook, tabHook (afterToken line ++ 0 :: stale) = .ok hook ∧
            gp_list' = gp_list.modify k (·.addHook hook) := by
  have hlabel : (tabLabelOf len8 (line ++ 0 :: stale)).result =
      .ok (keep (firstToken line), afterToken line ++ 0 :: stale) :=
    (tabLabelOf_result _).trans (tabLabel_eq line stale)
  rw [loadLine_ok_iff, loadLineOf, inside_bind hlabel, inside_tabLabel, and_assoc,
    loadLine_congr rfl]
  refine and_congr_right fun _ => ?_
  dsimp only
  cases findPinByLabel gp_list (keep (firstToken line)) with
  | none => exact ⟨fun h => (Except.ok.inj h.2).symm, fun h => ⟨inside_pure _, h ▸ rfl⟩⟩
  | some k =>
    constructor
    · rintro ⟨hin, h⟩
      obtain ⟨hook, hhook, h⟩ := bind_ok h
      have hres := (tabHookOf_result (afterToken line ++ 0 :: stale)).trans hhook
      exact ⟨hook, tabHook_ok_iff.mpr ⟨((inside_bind hres _).mp hin).1, hhook⟩,
        (Except.ok.inj h).symm⟩
    · rintro ⟨hook, h, rfl⟩
      obtain ⟨hin, hhook⟩ := tabHook_ok_iff.mp h
      have hres := (tabHookOf_result (afterToken line ++ 0 :: stale)).trans hhook
      exact ⟨(inside_bind hres _).mpr ⟨hin, inside_pure _⟩, by rw [hhook]; rfl⟩

/-- **Which lines are loaded.** -/
theorem loadLine_iff {gp_list : List GpioPin} {line : Str} {stale : Mem} :
    (∃ gp_list', loadLine gp_list (line ++ 0 :: stale) = .ok gp_list') ↔
      LineLoads gp_list line stale := by
  constructor
  · rintro ⟨gp_list', h⟩
    obtain ⟨hlabel, hbehind⟩ := loadLine_eq.mp h
    refine ⟨hlabel, fun hf => ?_⟩
    obtain ⟨k, hk⟩ := Option.ne_none_iff_exists'.mp ((labelFound_iff gp_list line).mp hf)
    rw [hk] at hbehind
    obtain ⟨hook, hhook, -⟩ := hbehind
    exact short_of_tabHook hhook
  · rintro ⟨hlabel, hhook⟩
    cases hf : findPinByLabel gp_list (keep (firstToken line)) with
    | none => exact ⟨gp_list, loadLine_eq.mpr ⟨hlabel, by rw [hf]⟩⟩
    | some k =>
      obtain ⟨ws, ts, hreads, hs⟩ := hhook ((labelFound_iff gp_list line).mpr (by rw [hf]; nofun))
      exact ⟨_, loadLine_eq.mpr ⟨hlabel, by rw [hf]; exact ⟨_, tabHook_of_short hreads hs, rfl⟩⟩⟩

/-! ### The lines of a file -/

/-- The lines of a file, each with what stands behind its NUL as it is loaded. -/
def buffers : Mem → List (Str × Mem) → List (Str × Mem)
  | _, [] => []
  | buf, (line, fresh) :: lines =>
    (line, buf.drop (line.length + 1) ++ fresh) :: buffers (getline buf line fresh) lines

lemma labelFound_congr {gp_list gp_list' : List GpioPin}
    (h : gp_list'.map (·.label) = gp_list.map (·.label)) (line : Str) :
    LabelFound gp_list' line ↔ LabelFound gp_list line := by
  rw [labelFound_iff, labelFound_iff, findPinByLabel_congr h]

lemma lineLoads_congr {gp_list gp_list' : List GpioPin}
    (h : gp_list'.map (·.label) = gp_list.map (·.label)) (line : Str) (stale : Mem) :
    LineLoads gp_list' line stale ↔ LineLoads gp_list line stale := by
  have hfound := labelFound_congr h line
  exact ⟨fun hl => ⟨hl.label, fun hf => hl.hook (hfound.mpr hf)⟩,
    fun hl => ⟨hl.label, fun hf => hl.hook (hfound.mp hf)⟩⟩

lemma loadLine_labels {gp_list gp_list' : List GpioPin} {line : Str} {stale : Mem}
    (h : loadLine gp_list (line ++ 0 :: stale) = .ok gp_list') :
    gp_list'.map (·.label) = gp_list.map (·.label) :=
  TabRoute.loadLine_labels (loadLine_ok_iff.mp h).2

end Gpiod.TabBuffer
