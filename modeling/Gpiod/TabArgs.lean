import Gpiod.Mask
import Gpiod.TabTotal

/-!
The path and the arguments of a tab line, in terms of its text.

The text behind the label is a list of modifiers, which `ListEnds` takes apart as far as the
modifier loop reads it, and then tokens between blanks. The first token is the path. The argument
loop makes an entry of every further token and one more of the empty token behind them, which is
the terminating entry; where there is no path it makes no entry at all.
-/

namespace Gpiod.TabArgs

open Gpiod.Mask Gpiod.Pin Gpiod.TabScan Gpiod.TabField Gpiod.TabTotal

/-! ### The text behind the label -/

/-- The list of modifiers at the head of a text: the words the loop cuts from it, and the text
it leaves behind them. -/
inductive ListEnds : Mem → List Str → Mem → Prop
  /-- a word that is not recognised, up to the byte that stops it -/
  | unknown {b p m : Mem} {r : UInt8} (hb : Blanks b) (hp : Solid p) (hr : Stops r)
      (hbr : p = [] → isBlank r = false) (hc : 0x2c ∉ keep p) (hk : ¬ Known (keep p)) :
      ListEnds (b ++ (p ++ r :: m)) [keep p] (r :: m)
  /-- a recognised word, and the byte that stops it -/
  | last {b p m s x : Mem} {r c : UInt8} (hb : Blanks b) (hp : Solid p) (hr : Stops r)
      (hbr : p = [] → isBlank r = false) (hc : 0x2c ∉ keep p) (hk : Known (keep p))
      (hs : Blanks s) (hm : r :: m = s ++ c :: x) (hcb : isBlank c = false) (hcc : c ≠ 0x2c) :
      ListEnds (b ++ (p ++ r :: m)) [keep p] m
  /-- a recognised word, blanks and a comma -/
  | blank {b p s x y : Mem} {r : UInt8} {ws : List Str} (hb : Blanks b) (hp : Solid p)
      (hne : p ≠ []) (hc : 0x2c ∉ keep p) (hk : Known (keep p)) (hs : Blanks (r :: s))
      (h : ListEnds x ws y) : ListEnds (b ++ (p ++ r :: (s ++ 0x2c :: x))) (keep p :: ws) y
  /-- a word and a comma in one stretch, the comma seen by the eight-bit length -/
  | comma {b w q m y : Mem} {r : UInt8} {ws : List Str} (hb : Blanks b)
      (hp : Solid (w ++ 0x2c :: q)) (hr : Stops r) (hw : 0x2c ∉ w)
      (hl : w.length < (w ++ 0x2c :: q).length % 256) (hk : Known w)
      (h : ListEnds (q ++ r :: m) ws y) : ListEnds (b ++ (w ++ 0x2c :: q ++ r :: m)) (w :: ws) y
  /-- the same with a word that is not recognised: the list goes on at the comma -/
  | skip {b w q m y : Mem} {r : UInt8} {ws : List Str} (hb : Blanks b)
      (hp : Solid (w ++ 0x2c :: q)) (hr : Stops r) (hw : 0x2c ∉ w)
      (hl : w.length < (w ++ 0x2c :: q).length % 256) (hk : ¬ Known w)
      (h : ListEnds (0x2c :: q ++ r :: m) ws y) :
      ListEnds (b ++ (w ++ 0x2c :: q ++ r :: m)) (w :: ws) y

def wordFlags (w : Str) : ℕ := if Known w then tabParseMod w else 0

lemma wordFlags_known {w : Str} (h : Known w) : wordFlags w = tabParseMod w := if_pos h

lemma wordFlags_unknown {w : Str} (h : ¬ Known w) : wordFlags w = 0 := if_neg h

lemma join_known {ws : List Str} (h : ∀ w ∈ ws, Known w) (f : ℕ) :
    join wordFlags f ws = join tabParseMod f ws := by
  induction ws generalizing f with
  | nil => rfl
  | cons w ws ih =>
    obtain ⟨hw, hrest⟩ := List.forall_mem_cons.mp h
    rw [join_cons, join_cons, wordFlags_known hw, ih hrest]

/-- The tokens at the head of a text, up to the byte that ends the line. -/
inductive Tokens : Mem → List Str → Prop
  | done {b m : Mem} {r : UInt8} (hb : Blanks b) (hr : Stops r) (hbr : isBlank r = false) :
      Tokens (b ++ r :: m) []
  | token {b p m : Mem} {r : UInt8} {ts : List Str} (hb : Blanks b) (hp : Solid p) (hne : p ≠ [])
      (hr : Stops r) (h : Tokens (r :: m) ts) : Tokens (b ++ (p ++ r :: m)) (p :: ts)

/-! ### Cursors -/

lemma eatSpace_split {m t : Mem} (h : eatSpace m = .ok t) :
    ∃ b c x, m = b ++ t ∧ Blanks b ∧ t = c :: x ∧ isBlank c = false := by
  induction m with
  | nil => cases h
  | cons c m ih =>
    rw [eatSpace] at h
    split_ifs at h with h0 hc
    · cases h
      exact ⟨[], c, m, rfl, by simp [Blanks], rfl, h0 ▸ by decide⟩
    · obtain ⟨b, c', x, rfl, hb, ht, hc'⟩ := ih h
      refine ⟨c :: b, c', x, rfl, fun d hd => ?_, ht, hc'⟩
      rcases List.mem_cons.mp hd with rfl | hd
      · exact hc
      · exact hb d hd
    · cases h
      exact ⟨[], c, m, rfl, by simp [Blanks], rfl, by simpa using hc⟩

lemma nextSpace_split {m t : Mem} (h : nextSpace m = .ok t) :
    ∃ p r x, m = p ++ t ∧ Solid p ∧ t = r :: x ∧ Stops r := by
  induction m with
  | nil => cases h
  | cons c m ih =>
    rw [nextSpace] at h
    split_ifs at h with h0 hc
    · cases h
      exact ⟨[], c, m, rfl, by simp [Solid], rfl, Or.inl h0⟩
    · cases h
      exact ⟨[], c, m, rfl, by simp [Solid], rfl, Or.inr hc⟩
    · obtain ⟨p, r, x, rfl, hp, ht, hr⟩ := ih h
      refine ⟨c :: p, r, x, rfl, fun d hd => ?_, ht, hr⟩
      rcases List.mem_cons.mp hd with rfl | hd
      · exact ⟨h0, by simpa using hc⟩
      · exact hp d hd

/-- **The two cursors around a token**: blanks, the token, and the byte that stops it. -/
lemma cursors_split {m tmp1 tmp2 : Mem} (h1 : eatSpace m = .ok tmp1)
    (h2 : nextSpace tmp1 = .ok tmp2) :
    ∃ b p r x, m = b ++ (p ++ r :: x) ∧ tmp1 = p ++ r :: x ∧ tmp2 = r :: x ∧
      Blanks b ∧ Solid p ∧ Stops r ∧ (p = [] → isBlank r = false) := by
  obtain ⟨b, c, x₁, rfl, hb, ht1, hc⟩ := eatSpace_split h1
  obtain ⟨p, r, x, rfl, hp, rfl, hr⟩ := nextSpace_split h2
  refine ⟨b, p, r, x, rfl, rfl, rfl, hb, hp, hr, fun hnil => ?_⟩
  rw [hnil, List.nil_append, List.cons.injEq] at ht1
  rw [ht1.1]
  exact hc

/-! ### The modifier loop -/

/-- The words that the loop cuts from a text, one in a pass, and the text it leaves. -/
inductive Cuts : Mem → List Str → Mem → Prop
  | last {m t u : Mem} {w : Str} {c : Bool} (hcut : cutWord m = .ok (w, c, u))
      (h : ∀ f, modPass f m = .ok (f ||| wordFlags w, false, t)) : Cuts m [w] t
  | more {m t u y : Mem} {w : Str} {c : Bool} {ws : List Str} (hcut : cutWord m = .ok (w, c, u))
      (h : ∀ f, modPass f m = .ok (f ||| wordFlags w, true, t)) (ht : Cuts t ws y) :
      Cuts m (w :: ws) y

lemma Cuts.run {m y : Mem} {ws : List Str} (h : Cuts m ws y) :
    ∀ n f, m.length < n → modLoop n f m = .ok (join wordFlags f ws, y) := by
  induction h with
  | last hcut h =>
    intro n f hn
    obtain ⟨n, rfl⟩ : ∃ k, n = k + 1 := ⟨n - 1, by omega⟩
    exact modLoop_done (h f)
  | more hcut h ht ih =>
    intro n f hn
    obtain ⟨n, rfl⟩ : ∃ k, n = k + 1 := ⟨n - 1, by omega⟩
    have hlt := (modPass_spec f _).2 _ _ (h f)
    exact (modLoop_more (h f)).trans (ih n _ (by omega))

lemma cuts_unknown {m t : Mem} {w : Str} (hcut : cutWord m = .ok (w, false, t))
    (hk : ¬ Known w) : Cuts m [w] t := by
  refine .last hcut fun f => ?_
  rw [wordFlags_unknown hk, Nat.or_zero]
  exact modPass_unknown f hcut hk

lemma cuts_skip {m t y : Mem} {w : Str} {ws : List Str} (hcut : cutWord m = .ok (w, true, t))
    (hk : ¬ Known w) (ht : Cuts t ws y) : Cuts m (w :: ws) y := by
  refine .more hcut (fun f => ?_) ht
  rw [wordFlags_unknown hk, Nat.or_zero]
  exact modPass_unknown f hcut hk

lemma cuts_comma {m t x y : Mem} {w s : Str} {coma : Bool} {ws : List Str}
    (hcut : cutWord m = .ok (w, coma, t)) (hk : Known w) (hs : Blanks s) (ht : t = s ++ 0x2c :: x)
    (hx : Cuts x ws y) : Cuts m (w :: ws) y := by
  refine .more hcut (fun f => ?_) hx
  rw [wordFlags_known hk]
  exact modPass_known_comma f hcut hk hs ht

lemma cuts_end {m t x : Mem} {w : Str} {c : UInt8} (hcut : cutWord m = .ok (w, false, t))
    (hk : Known w) (ht : eatSpace t = .ok (c :: x)) (hc : c ≠ 0x2c) : Cuts m [w] t.tail := by
  refine .last hcut fun f => ?_
  rw [wordFlags_known hk]
  exact modPass_known_end f hcut hk ht hc

lemma ListEnds.cuts {m y : Mem} {ws : List Str} (h : ListEnds m ws y) : Cuts m ws y := by
  induction h with
  | unknown hb hp hr hbr hc hk => exact cuts_unknown (cutWord_piece hb hp hr hbr hc) hk
  | @last b p m s x r c hb hp hr hbr hc hk hs hm hcb hcc =>
    have hnext : eatSpace (r :: m) = .ok (c :: x) := by
      rw [hm]
      exact eatSpace_found hs hcb x
    exact cuts_end (cutWord_piece hb hp hr hbr hc) hk hnext hcc
  | @blank b p s x y r ws hb hp hne hc hk hs h ih =>
    have hr : Stops r := Or.inr (space_of_blank (hs r (by simp)))
    exact cuts_comma (s := r :: s) (cutWord_piece hb hp hr (fun hp => absurd hp hne) hc) hk hs rfl
      ih
  | comma hb hp hr hw hl hk h ih =>
    exact cuts_comma (s := []) (cutWord_comma hb hp hr hw hl) hk (by simp [Blanks]) rfl ih
  | skip hb hp hr hw hl hk h ih => exact cuts_skip (cutWord_comma hb hp hr hw hl) hk ih

/-- **Where the loop ends**, a list of modifiers does. -/
lemma listEnds_of_modLoop {n f g : ℕ} {m y : Mem} (h : modLoop n f m = .ok (g, y)) :
    ∃ ws, ListEnds m ws y := by
  induction n generalizing f m with
  | zero => cases h
  | succ n ih =>
    -- the stretch that the word of this pass is cut from
    obtain ⟨pass, hpass, -⟩ := bind_ok h
    obtain ⟨word, coma, t, hword, hbehind⟩ := modPass_ok hpass
    obtain ⟨tmp1, tmp2, h1, h2, -⟩ := cutWord_ok hword
    obtain ⟨b, p, r, x, rfl, -, -, hb, hp, hr, hbr⟩ := cursors_split h1 h2
    by_cases hcomma : 0x2c ∈ keep p
    · obtain ⟨w, q, rfl, hw, hl⟩ := keep_comma hcomma
      have hcut := cutWord_comma (m := x) hb hp hr hw hl
      by_cases hk : Known w
      · have hpass := modPass_known_comma (s := []) (x := q ++ r :: x) f hcut hk
          (by simp [Blanks]) (by simp)
        rw [modLoop_more hpass] at h
        obtain ⟨ws, hends⟩ := ih h
        exact ⟨_, .comma hb hp hr hw hl hk hends⟩
      · rw [modLoop_more (modPass_unknown f hcut hk)] at h
        obtain ⟨ws, hends⟩ := ih h
        exact ⟨_, .skip hb hp hr hw hl hk hends⟩
    · have hcut := cutWord_piece (m := x) hb hp hr hbr hcomma
      by_cases hk : Known (keep p)
      · cases hword.symm.trans hcut
        obtain ⟨-, tmp3, -, h3, -, -⟩ := hbehind.resolve_left fun hno => hk hno.1
        obtain ⟨s, c, z, hsplit, hs, rfl, hcb⟩ := eatSpace_split h3
        by_cases hc : c = 0x2c
        · subst hc
          rw [modLoop_more (modPass_known_comma f hcut hk hs hsplit)] at h
          cases s with
          | nil =>
            rw [List.nil_append, List.cons.injEq] at hsplit
            exact absurd hsplit.1 (ne_comma_of_stops hr)
          | cons r' s =>
            rw [List.cons_append, List.cons.injEq] at hsplit
            obtain ⟨rfl, rfl⟩ := hsplit
            have hne : p ≠ [] := fun hp => by
              rw [hs r (by simp)] at hbr
              cases hbr hp
            obtain ⟨ws, hends⟩ := ih h
            exact ⟨_, .blank hb hp hne hcomma hk hs hends⟩
        · rw [modLoop_done (modPass_known_end f hcut hk h3 hc)] at h
          cases h
          exact ⟨_, .last hb hp hr hbr hcomma hk hs hsplit hcb hc⟩
      · rw [modLoop_done (modPass_unknown f hcut hk)] at h
        cases h
        exact ⟨_, .unknown hb hp hr hbr hcomma hk⟩

/-! ### The argument loop -/

def terminator : GpiodHookArgs := ⟨.max, none⟩

def entry (p : Str) : GpiodHookArgs := mkArg (keep p)

/-- The entries the loop makes of tokens: one each, and the one of the empty token behind them. -/
def entries (ts : List Str) : List GpiodHookArgs := ts.map entry ++ [terminator]

lemma strncpy_token {p m : Mem} (hp : Solid p) :
    strncpy (p ++ m) (cursorDist (p ++ m) m) = keep p := by
  rw [cursorDist_append]
  exact strncpy_append hp m (Nat.mod_le _ _)

lemma argLoop_token {n : ℕ} {tmp1 b p m : Mem} {r : UInt8}
    (hne : tmp1.length ≠ (b ++ (p ++ r :: m)).length) (hb : Blanks b) (hp : Solid p) (hr : Stops r)
    (hbr : p = [] → isBlank r = false) :
    argLoop (n + 1) tmp1 (b ++ (p ++ r :: m)) =
      (argLoop n (p ++ r :: m) (r :: m)).bind fun args => .ok (entry p :: args) := by
  rw [argLoop, if_neg hne, eatSpace_piece hb hp hbr]
  simp only [bind, Except.bind, nextSpace_piece hp hr, strncpy_token hp, pure, Except.pure, entry]

lemma Tokens.run {m : Mem} {ts : List Str} (h : Tokens m ts) :
    ∀ n tmp1, m.length + 1 ≤ n → tmp1.length ≠ m.length → argLoop n tmp1 m = .ok (entries ts) := by
  induction h with
  | @done b m r hb hr hbr =>
    intro n tmp1 hn hne
    simp only [List.length_append, List.length_cons] at hn
    obtain ⟨n, rfl⟩ : ∃ k, n = k + 2 := ⟨n - 2, by omega⟩
    have hpass := argLoop_token (n := n + 1) (p := []) hne hb (by simp [Solid]) hr fun _ => hbr
    rw [List.nil_append] at hpass
    rw [hpass, argLoop, if_pos rfl]
    rfl
  | @token b p m r ts hb hp hne hr h ih =>
    intro n tmp1 hn hlen
    simp only [List.length_append, List.length_cons] at hn
    obtain ⟨n, rfl⟩ : ∃ k, n = k + 1 := ⟨n - 1, by omega⟩
    have hpos : 0 < p.length := List.length_pos_iff.mpr hne
    rw [argLoop_token hlen hb hp hr fun hp => absurd hp hne]
    rw [ih n (p ++ r :: m) (by rw [List.length_cons]; omega) (by rw [List.length_append]; omega)]
    rfl

lemma tokens_of_argLoop {n : ℕ} {tmp1 m : Mem} {args : List GpiodHookArgs}
    (h : argLoop n tmp1 m = .ok args) (hne : tmp1.length ≠ m.length) : ∃ ts, Tokens m ts := by
  induction n generalizing tmp1 m args with
  | zero => cases h
  | succ n ih =>
    obtain ⟨tmp1', tmp2', rest, h1, h2, h3⟩ := argLoop_ok hne h
    obtain ⟨b, p, r, x, rfl, rfl, rfl, hb, hp, hr, hbr⟩ := cursors_split h1 h2
    by_cases hnil : p = []
    · subst hnil
      exact ⟨[], .done hb hr (hbr rfl)⟩
    · have hpos : 0 < p.length := List.length_pos_iff.mpr hnil
      obtain ⟨ts, hts⟩ := ih h3 (by rw [List.length_append]; omega)
      exact ⟨p :: ts, .token hb hp hnil hr hts⟩

/-! ### The hook -/

/-- The hook of a line with flags `g`, whose tokens behind the modifiers are `ts`. -/
def hookOf (g : ℕ) : List Str → GpiodHook
  | [] => ⟨[], g, 0, -1, 0, []⟩
  | p :: args => ⟨keep p, g, 0, -1, (entries args).length % 256, entries args⟩

lemma tabHook_of_loop {m y : Mem} {g : ℕ} {ts : List Str}
    (hg : modLoop (m.length + 1) 0 m = .ok (g, y)) (hts : Tokens y ts) :
    tabHook m = .ok (hookOf g ts) := by
  unfold tabHook
  rw [hg]
  cases hts with
  | @done b m r hb hr hbr =>
    have h1 := eatSpace_piece (p := []) (m := m) hb (by simp [Solid]) fun _ => hbr
    rw [List.nil_append] at h1
    simp only [bind, Except.bind, h1, nextSpace_stop hr, argLoop, ↓reduceIte]
    simp [hookOf, cursorDist, strncpy, pure, Except.pure]
  | @token b p m r args hb hp hne hr hargs =>
    have hpos : 0 < p.length := List.length_pos_iff.mpr hne
    have hloop := hargs.run ((p ++ r :: m).length + 2) (p ++ r :: m)
      (by simp only [List.length_append, List.length_cons]; omega)
      (by simp only [List.length_append, List.length_cons]; omega)
    simp only [bind, Except.bind, eatSpace_piece hb hp fun hp => absurd hp hne,
      nextSpace_piece hp hr, hloop, strncpy_token hp, pure, Except.pure, hookOf]

/-- The text behind a label taken apart: the words of the list of modifiers at its head, and the
tokens behind the list. -/
def Reads (m : Mem) (ws ts : List Str) : Prop := ∃ y, ListEnds m ws y ∧ Tokens y ts

/-- **The hook of a text**: its flags are joined of the words, its path is the first token behind
the modifiers, and its entries are those of the other tokens. -/
theorem tabHook_of {m y : Mem} {ws ts : List Str} (h : Cuts m ws y) (hts : Tokens y ts) :
    tabHook m = .ok (hookOf (join wordFlags 0 ws) ts) :=
  tabHook_of_loop (h.run (m.length + 1) 0 (Nat.lt_succ_self _)) hts

lemma Reads.tabHook {m : Mem} {ws ts : List Str} (h : Reads m ws ts) :
    tabHook m = .ok (hookOf (join wordFlags 0 ws) ts) := by
  obtain ⟨y, hends, hts⟩ := h
  exact tabHook_of hends.cuts hts

/-- A text that a hook is made of is a list of modifiers and tokens. -/
theorem of_tabHook {m : Mem} {hook : GpiodHook} (h : tabHook m = .ok hook) :
    ∃ ws ts, Reads m ws ts := by
  obtain ⟨flags, y, tmp1, tmp2, args, hl, h1, h2, h3, -⟩ := tabHook_ok h
  obtain ⟨ws, hends⟩ := listEnds_of_modLoop hl
  obtain ⟨b, p, r, x, rfl, rfl, rfl, hb, hp, hr, hbr⟩ := cursors_split h1 h2
  by_cases hnil : p = []
  · subst hnil
    exact ⟨ws, [], _, hends, .done hb hr (hbr rfl)⟩
  · have hpos : 0 < p.length := List.length_pos_iff.mpr hnil
    obtain ⟨ts, hts⟩ := tokens_of_argLoop h3 (by rw [List.length_append]; omega)
    exact ⟨ws, p :: ts, _, hends, .token hb hp hnil hr hts⟩

end Gpiod.TabArgs
