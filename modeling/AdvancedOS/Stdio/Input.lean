import AdvancedOS.Stdio.Code

/-!
# Lines that are typed

What `getline` stores, apart from what it displays.

* `editKey`, `edit`: the line that a sequence of keys leaves;
* `LineFits`: there is room in `res` whenever a key is stored;
* `lineOf`: the line that is read first, and the keys after it;
* `lineRead_eq_ok`: **a line is read to its end exactly if it fits, and it is this line**;
* `lineRead_getlineLoop`: it is the one that `getline` returns.
-/

namespace AdvancedOS.Stdio

variable {r : Routing} {c : Console} {x : Line} {keys more l : List Byte} {ch : Byte}
  {o : Option (List Byte × List Byte)}

/-- The line after a key. -/
def editKey (l : List Byte) (ch : Byte) : List Byte := if ch = 0x08 then l.dropLast else l ++ [ch]

/-- The line that the keys leave. -/
def edit (keys : List Byte) : List Byte := keys.foldl editKey []

/-- Whenever a key is stored before the line has ended, there is room for it. -/
def FitsFrom (l keys : List Byte) : Prop :=
  ∀ p ch more, keys = p ++ ch :: more → (∀ c ∈ p, isEnd c = false) → ch ≠ 0x08 →
    (p.foldl editKey l).length < MAX_BUF_LEN

/-- The line, with the keys after it. -/
def lineFrom (l keys : List Byte) : Option (List Byte × List Byte) :=
  match keys.dropWhile fun c => !isEnd c with
  | [] => none
  | _ :: more => some ((keys.takeWhile fun c => !isEnd c).foldl editKey l, more)

/-- The line fits the buffer. -/
def LineFits (keys : List Byte) : Prop := FitsFrom [] keys

/-- The line that is typed first, and what is typed after it. -/
def lineOf (keys : List Byte) : Option (List Byte × List Byte) := lineFrom [] keys

theorem fitsFrom_cons : FitsFrom l (ch :: keys) ↔
    (ch ≠ 0x08 → l.length < MAX_BUF_LEN) ∧ (isEnd ch = false → FitsFrom (editKey l ch) keys) := by
  constructor
  · intro h
    refine ⟨fun h8 => h [] ch keys rfl (by simp) h8, fun hend p c more hp hall h8 => ?_⟩
    exact h (ch :: p) c more (by rw [hp]; rfl) (by simpa [hend] using hall) h8
  · rintro ⟨h1, h2⟩ p c more hp hall h8
    cases p with
    | nil =>
      cases hp
      exact h1 h8
    | cons d p =>
      cases hp
      rw [List.forall_mem_cons] at hall
      exact h2 hall.1 p c more rfl hall.2 h8

theorem lineFrom_cons : lineFrom l (ch :: keys) =
    if isEnd ch then some (l, keys) else lineFrom (editKey l ch) keys := by
  cases h : isEnd ch <;> simp [lineFrom, h]

theorem lineRead_eq (keys l : List Byte) :
    FitsFrom l keys ∧ lineRead keys l = .ok (lineFrom l keys) ∨
      ¬ FitsFrom l keys ∧ lineRead keys l = .error .bounds := by
  induction keys generalizing l with
  | nil =>
    refine .inl ⟨fun p ch more hp => ?_, rfl⟩
    simp at hp
  | cons ch keys ih =>
    rw [fitsFrom_cons, lineFrom_cons, lineRead]
    by_cases h8 : ch = 0x08
    · subst h8
      have hedit : editKey l 0x08 = l.dropLast := if_pos rfl
      have hend : isEnd 0x08 = false := by decide
      rw [if_pos rfl, hend, hedit]
      simpa using ih l.dropLast
    · rw [if_neg h8]
      by_cases hlen : l.length < MAX_BUF_LEN
      · rw [if_pos hlen]
        cases hend : isEnd ch with
        | true => simp [hlen]
        | false =>
          have hedit : editKey l ch = l ++ [ch] := if_neg h8
          rw [hedit]
          simpa [h8, hlen] using ih (l ++ [ch])
      · rw [if_neg hlen]
        exact .inr ⟨fun h => hlen (h.1 h8), rfl⟩

theorem lineRead_eq_ok : lineRead keys [] = .ok o ↔ LineFits keys ∧ o = lineOf keys := by
  rcases lineRead_eq keys [] with ⟨hfits, hr⟩ | ⟨hfits, hr⟩
  · rw [hr, Except.ok.injEq, eq_comm]
    exact (and_iff_right hfits).symm
  · rw [hr]
    exact iff_of_false (fun h => by cases h) fun h => hfits h.1

theorem lineRead_eq_error {e : StdFault} :
    lineRead keys [] = .error e ↔ ¬ LineFits keys ∧ e = .bounds := by
  rcases lineRead_eq keys [] with ⟨hfits, hr⟩ | ⟨hfits, hr⟩
  · rw [hr]
    exact iff_of_false (fun h => by cases h) fun h => h.1 hfits
  · rw [hr, Except.error.injEq, eq_comm]
    exact (and_iff_right hfits).symm

/-- **`getline` stores this line, whatever it displays.** -/
theorem lineRead_getlineLoop (h : getlineLoop r keys l c = some x) (hr : lineRead keys l = .ok o) :
    o.map Prod.fst = if x.ended then some x.res else none := by
  induction keys generalizing l c with
  | nil =>
    cases h
    cases hr
    rfl
  | cons ch keys ih =>
    rw [getlineLoop] at h
    rw [lineRead] at hr
    by_cases h8 : ch = 0x08
    · rw [if_pos h8] at h hr
      by_cases hl : l = []
      · rw [if_pos hl] at h
        rw [hl, List.dropLast_nil] at hr
        rw [hl] at h
        exact ih h hr
      · rw [if_neg hl] at h
        obtain ⟨c', -, h⟩ := Option.bind_eq_some_iff.mp h
        exact ih h hr
    · rw [if_neg h8] at h hr
      obtain ⟨c', -, h⟩ := Option.bind_eq_some_iff.mp h
      by_cases hlen : l.length < MAX_BUF_LEN
      · rw [if_pos hlen] at hr
        have hend : (ch = 0x0D ∨ ch = 0x0A) ↔ isEnd ch = true := by simp [isEnd]
        by_cases he : isEnd ch = true
        · rw [if_pos (hend.mpr he)] at h
          rw [if_pos he] at hr
          cases h
          cases hr
          rfl
        · rw [if_neg (mt hend.mp he)] at h
          rw [if_neg he] at hr
          exact ih h hr
      · rw [if_neg hlen] at hr
        cases hr

theorem length_editKey_le (l : List Byte) (ch : Byte) : (editKey l ch).length ≤ l.length + 1 := by
  unfold editKey
  split
  · rw [List.length_dropLast]
    omega
  · rw [List.length_append, List.length_singleton]

theorem lineFits_of_length (h : keys.length ≤ MAX_BUF_LEN) : LineFits keys := by
  have hedit : ∀ (p l : List Byte), (p.foldl editKey l).length ≤ l.length + p.length := by
    intro p
    induction p with
    | nil => exact fun l => le_rfl
    | cons ch p ih =>
      intro l
      have hkey := length_editKey_le l ch
      refine (ih (editKey l ch)).trans ?_
      rw [List.length_cons]
      omega
  rintro p ch more rfl - -
  rw [List.length_append, List.length_cons] at h
  refine (hedit p []).trans_lt ?_
  rw [List.length_nil]
  omega

end AdvancedOS.Stdio
