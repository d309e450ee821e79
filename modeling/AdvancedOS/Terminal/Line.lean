import AdvancedOS.Stdio.Input
import AdvancedOS.Terminal.Cursor

/-!
# Editing a line

* `Displayed`: the line is in the text, from the place on where it was begun, and in the window;
* `getlineLoop_key`: **a key keeps the line displayed while it has less than 1000 characters**;
* `getline_edits`: **what `getline` stores is the edited line, and at every key the cells before the
  cursor show it.**
-/

namespace AdvancedOS.Stdio

variable {r : Routing} {c c' : Console} {t : Text (Byte × Byte)} {start : ℕ} {attr ch : Byte}
  {l keys : List Byte}

theorem notMem_foldl_editKey {x : Byte} (hl : x ∉ l) (hk : ∀ ch ∈ keys, ch ≠ x) :
    x ∉ keys.foldl editKey l := by
  induction keys generalizing l with
  | nil => exact hl
  | cons ch keys ih =>
    refine ih ?_ fun y hy => hk y (List.mem_cons_of_mem ch hy)
    unfold editKey
    split_ifs
    · exact fun h => hl (List.mem_of_mem_dropLast h)
    · rw [List.mem_append, List.mem_singleton]
      exact fun h => h.elim hl fun he => hk ch List.mem_cons_self he.symm

theorem notMem_edit {x : Byte} (hk : ∀ ch ∈ keys, ch ≠ x) : x ∉ edit keys :=
  notMem_foldl_editKey List.not_mem_nil hk

/-- The line `l`, which was begun at the place `start`, is in the text `t`, and no row of it has left
the window. -/
structure Displayed (attr : Byte) (start : ℕ) (l : List Byte) (t : Text (Byte × Byte)) : Prop where
  pos : t.pos = start + l.length
  cells : ∀ (j : ℕ) (x : Byte), l[j]? = some x → t.cells (start + j) = (x, attr)
  top : t.top * MAX_COLS ≤ start

theorem Displayed.typed (h : Displayed attr start l t) (hch : ch ≠ 0x0A) (hlen : l.length < 999) :
    Displayed attr start (l ++ [ch]) (typed attr t ch) := by
  have hcols : MAX_COLS = 80 := rfl
  have hrows : MAX_ROWS = 25 := rfl
  have hpos := h.pos
  have htop := h.top
  rw [AdvancedOS.typed, if_neg hch, Text.put, Text.moveTo, Text.setCell]
  refine ⟨?_, fun j x hx => ?_, ?_⟩
  · simp only [hpos, List.length_append, List.length_singleton]
    omega
  · simp only [hpos]
    rcases Nat.lt_trichotomy j l.length with hj | rfl | hj
    · rw [Function.update_of_ne (by omega)]
      exact h.cells j x (by rwa [List.getElem?_append_left hj] at hx)
    · rw [Function.update_self]
      rw [List.getElem?_concat_length] at hx
      rw [Option.some.inj hx]
    · rw [List.getElem?_eq_none (by simp only [List.length_append, List.length_singleton]; omega)] at hx
      cases hx
  · have hrow : ((t.pos + 1) / MAX_COLS + 1 - MAX_ROWS) * MAX_COLS ≤ start := by
      rw [hcols, hrows]
      omega
    rcases Nat.le_total t.top ((t.pos + 1) / MAX_COLS + 1 - MAX_ROWS) with hle | hle
    · exact (congrArg (· * MAX_COLS) (max_eq_right hle)).trans_le hrow
    · exact (congrArg (· * MAX_COLS) (max_eq_left hle)).trans_le htop

theorem Displayed.erased (h : Displayed attr start l t) (hne : l ≠ []) :
    Displayed attr start l.dropLast (erased attr t) := by
  have hpos := h.pos
  have hlen : 0 < l.length := List.length_pos_of_ne_nil hne
  refine ⟨?_, fun j x hx => ?_, h.top⟩
  · simp only [AdvancedOS.erased, Text.erase, List.length_dropLast]
    omega
  · have hj : j < l.dropLast.length := (List.getElem?_eq_some_iff.mp hx).1
    rw [List.length_dropLast] at hj
    have hx' : l[j]? = some x := by
      rw [List.dropLast_eq_take, List.getElem?_take_of_lt hj] at hx
      exact hx
    simp only [AdvancedOS.erased, Text.erase]
    rw [Function.update_of_ne (by omega), h.cells j x hx']

theorem Displayed.cursor_ne (h : Displayed attr start l t) (hne : l ≠ []) :
    t.cursor MAX_COLS ≠ 0 := by
  have hpos := h.pos
  have htop := h.top
  have hlen : 0 < l.length := List.length_pos_of_ne_nil hne
  rw [Text.cursor]
  omega

/-! ## Keys -/

/-- The console shows the text with the line `l` in it. -/
structure Editing (r : Routing) (attr : Byte) (start : ℕ) (l : List Byte)
    (t : Text (Byte × Byte)) (c : Console) : Prop where
  shows : Shows r t c
  displayed : Displayed attr start l t
  attr : c.attributeVal = attr

/-- **A key.** The line stays displayed, and an erased character is blanked. -/
theorem getlineLoop_key (h : Editing r attr start l t c) (hr : ch ≠ 0x0D) (hn : ch ≠ 0x0A)
    (hlen : (editKey l ch).length ≤ 999) :
    ∃ c' t', (∀ keys, getlineLoop r (ch :: keys) l c = getlineLoop r keys (editKey l ch) c') ∧
      Editing r attr start (editKey l ch) t' c' ∧
      (ch = 0x08 → l ≠ [] → t'.cells t'.pos = (0x20, attr)) := by
  obtain ⟨hs, hd, ha⟩ := h
  unfold editKey at hlen ⊢
  by_cases hb : ch = 0x08
  · by_cases hl : l = []
    · refine ⟨c, t, fun keys => ?_, ?_, fun _ hne => absurd hl hne⟩
      · simp only [getlineLoop, hb, hl, if_true, List.dropLast_nil]
      · simp only [hb, hl, if_true, List.dropLast_nil]
        exact ⟨hs, hl ▸ hd, ha⟩
    · obtain ⟨c', hc', hs', hdraw⟩ := putchar_erased hs (hd.cursor_ne hl)
      rw [ha] at hs'
      have herase : eraseChar r c = some c' := (eraseChar_eq hs.onScreen).trans hc'
      refine ⟨c', erased attr t, fun keys => ?_, ?_, fun _ _ => Function.update_self ..⟩
      · simp only [getlineLoop, hb, hl, if_true, if_false, herase, Option.bind_eq_bind,
          Option.bind_some]
      · rw [if_pos hb]
        exact ⟨hs', hd.erased hl, hdraw.attributeVal.trans ha⟩
  · rw [if_neg hb] at hlen ⊢
    rw [List.length_append, List.length_singleton] at hlen
    obtain ⟨c', hc', hs', hdraw⟩ := putchar_typed hs hb
    rw [ha] at hs'
    have hput : printChar r ch c = some c' := hc'
    refine ⟨c', typed attr t ch, fun keys => ?_, ?_, fun h => absurd h hb⟩
    · simp only [getlineLoop, hb, hr, hn, or_self, if_false, hput, Option.bind_eq_bind,
        Option.bind_some]
    · exact ⟨hs', hd.typed hn hlen, hdraw.attributeVal.trans ha⟩

theorem getlineLoop_keys (h : Editing r attr start l t c)
    (hk : ∀ ch ∈ keys, ch ≠ 0x0D ∧ ch ≠ 0x0A)
    (hlen : ∀ pre, pre <+: keys → (pre.foldl editKey l).length ≤ 999) :
    ∃ c' t', (∀ rest, getlineLoop r (keys ++ rest) l c =
        getlineLoop r rest (keys.foldl editKey l) c') ∧
      Editing r attr start (keys.foldl editKey l) t' c' := by
  induction keys generalizing l t c with
  | nil => exact ⟨c, t, fun _ => rfl, h⟩
  | cons ch keys ih =>
    obtain ⟨hr, hn⟩ := hk ch List.mem_cons_self
    obtain ⟨c₁, t₁, hc₁, h₁, -⟩ := getlineLoop_key h hr hn
      (hlen [ch] (List.prefix_append [ch] keys))
    obtain ⟨c₂, t₂, hc₂, h₂⟩ := ih h₁ (fun x hx => hk x (List.mem_cons_of_mem ch hx))
      fun pre hpre => hlen (ch :: pre) ((List.prefix_cons_inj ch).mpr hpre)
    exact ⟨c₂, t₂, fun rest => (hc₁ (keys ++ rest)).trans (hc₂ rest), h₂⟩

/-! ## The result -/

/-- The cells before the cursor show the line `l`. -/
structure ShowsLine (r : Routing) (l : List Byte) (c : Console) : Prop where
  onScreen : OnScreen r c
  length_le : l.length ≤ (getCursor r c).toNat / 2
  cells : ∀ (j : ℕ) (x : Byte), l[j]? = some x →
    (c.screen r).cell ((getCursor r c).toNat / 2 - l.length + j) = (x, c.attributeVal)

theorem Editing.cursor (h : Editing r attr start l t c) :
    (getCursor r c).toNat / 2 = t.cursor MAX_COLS := by
  have hcur := h.shows.cursor
  omega

theorem Editing.showsLine (h : Editing r attr start l t c) : ShowsLine r l c := by
  have hcur := h.cursor
  have hpos := h.displayed.pos
  have htop := h.displayed.top
  have hfit := Text.pos_eq h.shows.fits
  have hlt : t.cursor MAX_COLS < MAX_ROWS * MAX_COLS := Text.cursor_lt h.shows.fits
  refine ⟨h.shows.onScreen, by omega, fun j x hx => ?_⟩
  have hj : j < l.length := (List.getElem?_eq_some_iff.mp hx).1
  have hplace : t.top * MAX_COLS + (t.cursor MAX_COLS - l.length + j) = start + j := by omega
  rw [hcur, h.shows.cells _ (by omega), Text.view, hplace, h.displayed.cells j x hx, h.attr]

theorem editing_textOf (h : OnScreen r c) :
    Editing r c.attributeVal (textOf r c).pos [] (textOf r c) c where
  shows := shows_textOf h
  displayed := {
    pos := rfl
    cells := fun j x hx => by cases hx
    top := by
      rw [textOf_top, Nat.zero_mul]
      exact Nat.zero_le _ }
  attr := rfl

/-- **Line editing keeps the buffer and the display in agreement.** -/
theorem getline_edits (h : OnScreen r c) (hk : ∀ ch ∈ keys, ch ≠ 0 ∧ ch ≠ 0x0D ∧ ch ≠ 0x0A)
    (hlen : ∀ pre, pre <+: keys → (edit pre).length ≤ 999) :
    (∃ c', getline r (keys ++ [0x0A]) c = some ⟨edit keys, true, c'⟩) ∧
      (CStr.ofList (edit keys)).toList = edit keys ∧
      ∀ pre, pre <+: keys → ∃ c', getline r pre c = some ⟨edit pre, false, c'⟩ ∧
        ShowsLine r (edit pre) c' ∧
        ∀ typed, pre = typed ++ [0x08] → edit typed ≠ [] →
          (c'.screen r).cell ((getCursor r c').toNat / 2) = (0x20, c'.attributeVal) := by
  have hstart := editing_textOf h
  have hk' : ∀ ch ∈ keys, ch ≠ 0x0D ∧ ch ≠ 0x0A := fun ch hch => (hk ch hch).2
  refine ⟨?_, ?_, fun pre hpre => ?_⟩
  · -- the newline is printed, and the line has been stored
    obtain ⟨c₁, t₁, hc₁, h₁⟩ := getlineLoop_keys hstart hk' hlen
    obtain ⟨c₂, hc₂, -, -⟩ := putchar_typed (x := 0x0A) h₁.shows (by decide)
    have hend : getlineLoop r [0x0A] (edit keys) c₁ = some ⟨edit keys, true, c₂⟩ := by
      have hput : printChar r 0x0A c₁ = some c₂ := hc₂
      have hne : (0x0A : Byte) ≠ 0x08 := by decide
      rw [getlineLoop, if_neg hne, hput]
      rfl
    exact ⟨c₂, (hc₁ [0x0A]).trans hend⟩
  · exact CStr.ofList_of_notMem (notMem_edit fun ch hch => (hk ch hch).1)
  · have hsub : ∀ ch ∈ pre, ch ≠ 0x0D ∧ ch ≠ 0x0A := fun ch hch => hk' ch (hpre.subset hch)
    have hlen' : ∀ q, q <+: pre → (edit q).length ≤ 999 := fun q hq => hlen q (hq.trans hpre)
    rcases pre.eq_nil_or_concat' with rfl | ⟨q, ch, rfl⟩
    · refine ⟨c, rfl, hstart.showsLine, fun typed hty => ?_⟩
      exact absurd hty.symm (List.append_ne_nil_of_right_ne_nil typed (List.cons_ne_nil _ _))
    · obtain ⟨c₁, t₁, hc₁, h₁⟩ := getlineLoop_keys hstart
        (fun x hx => hsub x (List.mem_append_left _ hx)) fun p hp =>
          hlen' p (hp.trans (List.prefix_append q [ch]))
      obtain ⟨hr, hn⟩ := hsub ch (List.mem_append_right q List.mem_cons_self)
      have hedit : edit (q ++ [ch]) = editKey (edit q) ch := List.foldl_append
      obtain ⟨c₂, t₂, hc₂, h₂, hblank⟩ := getlineLoop_key h₁ hr hn
        (hedit ▸ hlen' _ (List.prefix_refl _))
      refine ⟨c₂, ?_, ?_, fun typed hty hne => ?_⟩
      · rw [hedit]
        exact (hc₁ [ch]).trans (hc₂ [])
      · rw [hedit]
        exact h₂.showsLine
      · obtain ⟨rfl, hch⟩ := List.append_inj' hty rfl
        have hlt : t₂.cursor MAX_COLS < MAX_ROWS * MAX_COLS := Text.cursor_lt h₂.shows.fits
        rw [h₂.cursor, h₂.shows.cells _ hlt, Text.view, ← Text.pos_eq h₂.shows.fits, h₂.attr]
        exact hblank (List.singleton_inj.mp hch) hne

/-- Two characters are typed and one of them is erased. -/
theorem getline_edits_twoKeys :
    (∃ c', getline ⟨0, 0⟩ ([0x61, 0x62, 0x08] ++ [0x0A]) blankConsole =
      some ⟨edit [0x61, 0x62, 0x08], true, c'⟩) ∧ edit [0x61, 0x62, 0x08] = [0x61] := by
  have hlen : ∀ pre, pre <+: [0x61, 0x62, 0x08] → (edit pre).length ≤ 999 := by
    intro pre hpre
    rw [← List.mem_inits] at hpre
    revert hpre pre
    decide
  exact ⟨(getline_edits (c := blankConsole) (by decide) (by decide) hlen).1, by decide⟩

end AdvancedOS.Stdio
