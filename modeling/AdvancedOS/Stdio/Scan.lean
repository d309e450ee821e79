import Mathlib.Data.List.DropRight
import AdvancedOS.Stdio.Format

/-!
# Formatted input

* `scanLoop_end`, `scanLoop_lit`, `scanLoop_conv`: **what the loop of `sscanf` and `scanf` does at the
  end, at a literal character and at a conversion**;
* `Directive`: the parts of a format of `sscanf`, with what each takes from the input and leaves of it;
* `scanLoop_directives`, `sscanf_directives`: **what becomes of such a format**;
* `sscanf_sprintf`: **`sscanf` stores what `sprintf` was given.**
-/

namespace AdvancedOS.Stdio

variable {format s : CStr} {args : ℕ → Arg} {p q a b : List Byte} {c : Byte} {k n : ℕ} {v : Scan}

/-! ## The loop -/

theorem scanLoop_end (n : ℕ) (v : Scan) : scanLoop s format (n + 1) format.length v = .ok v := by
  have hchar := charAt_head (s := format) (p := format.toList) (q := []) (List.append_nil _).symm
  rw [scanLoop, CStr.length, hchar]
  rfl

theorem scanLoop_lit (h : format.toList = p ++ c :: q) (hc : c ≠ 0x25) (n : ℕ) (v : Scan) :
    scanLoop s format (n + 1) p.length v =
      (scanMatch s c v).bind (scanLoop s format n (p ++ [c]).length) := by
  have hchar : charAt format p.length = .ok c := charAt_head h
  have h0 := ne_zero_of_toList h
  have hlen : (p ++ [c]).length = p.length + 1 := List.length_append
  simp only [scanLoop, hchar, hlen, bind, Except.bind, h0, hc, if_false]

theorem scanLoop_conv (h : format.toList = p ++ 0x25 :: q) (n : ℕ) (v : Scan) :
    scanLoop s format (n + 1) p.length v =
      (scanConvert s (q.headD 0) v).bind fun v =>
        scanLoop s format n (p.length + 2) { v with si := v.si + v.offset } := by
  have hpercent : charAt format p.length = .ok 0x25 := charAt_head h
  have hne : (0x25 : Byte) ≠ 0 := by decide
  have hconv : charAt format (p.length + 1) = .ok (q.headD 0) := by
    have hchar := charAt_head (s := format) (p := p ++ [0x25]) (q := q) (by rw [h, List.append_assoc]; rfl)
    rw [List.length_append, List.length_singleton, Nat.cast_add, Nat.cast_one] at hchar
    exact hchar
  simp only [scanLoop, hpercent, hconv, bind, Except.bind, hne, if_false, if_true]

/-! ## The parts of a format -/

/-- A part of a format: a character that is matched, `%c`, `%d` and `%s`. -/
inductive Directive where
  | lit (c : Byte)
  | char
  | int
  | str
  deriving DecidableEq

namespace Directive

/-- The characters in the format. -/
def text : Directive → List Byte
  | lit c => [c]
  | char => [0x25, 0x63]
  | int => [0x25, 0x64]
  | str => [0x25, 0x73]

/-- A character that is matched is no `%`. -/
def Ok : Directive → Prop
  | lit c => c ≠ 0x25
  | _ => True

/-- What is left of the input. -/
def left : Directive → List Byte → List Byte
  | lit c, b => if c = 0x20 then b.dropWhile isspace else if b.head? = some c then b.tail else b
  | char, b => b.tail
  | int, b => b.drop (readInt b).2
  | str, b => b.dropWhile fun c => !isspace c

/-- What is stored. -/
def taken : Directive → List Byte → List Stored
  | lit _, _ => []
  | char, b => [.char (b.headD 0)]
  | int, b => [.int (readInt b).1]
  | str, b => [.str (.ofList (b.takeWhile fun c => !isspace c))]

end Directive

/-- What a format stores of an input. -/
def scanned : List Directive → List Byte → List Stored
  | [], _ => []
  | d :: ds, b => d.taken b ++ scanned ds (d.left b)

/-- No `%c` with something behind it meets the end of the input. -/
def Supplied : List Directive → List Byte → Prop
  | [], _ => True
  | d :: ds, b => (d = .char → ds ≠ [] → b ≠ []) ∧ Supplied ds (d.left b)

/-- `b` is what is left of the input. -/
def Scan.Left (s : CStr) (v : Scan) (b : List Byte) : Prop := ∃ a, s.toList = a ++ b ∧ v.si = a.length

theorem Scan.Left.charAt (h : v.Left s b) : charAt s v.si = .ok (b.headD 0) := by
  obtain ⟨a, hs, hv⟩ := h
  rw [hv]
  exact charAt_head hs

theorem Scan.Left.restAt (h : v.Left s b) : restAt s v.si.toNat = b := by
  obtain ⟨a, hs, hv⟩ := h
  rw [hv, Int.toNat_natCast]
  exact restAt_append hs 0

theorem Scan.Left.move (h : v.Left s b) (hb : b = p ++ q) {v' : Scan} (hv : v'.si = v.si + p.length) :
    v'.Left s q := by
  obtain ⟨a, hs, hsi⟩ := h
  refine ⟨a ++ p, by rw [hs, hb, List.append_assoc], ?_⟩
  rw [hv, hsi, List.length_append, Nat.cast_add]

theorem readDigits_snd_le (l : List Byte) (ret : Word) (cnt : ℕ) :
    (readDigits l ret cnt).2 ≤ cnt + l.length := by
  induction l generalizing ret cnt with
  | nil => exact le_rfl
  | cons c l ih =>
    rw [readDigits]
    split_ifs
    · have hle := ih (ret * 10 + (c.setWidth 32 - 0x30)) (cnt + 1)
      rw [List.length_cons]
      omega
    · exact Nat.le_add_right _ _

theorem readInt_snd_le (l : List Byte) : (readInt l).2 ≤ l.length := by
  have hcount : (readInt l).2 =
      if l.head? = some 0x2D then (readDigits l.tail 0 1).2 else (readDigits l 0 0).2 := by
    rw [readInt]
    split_ifs
    · cases readDigits l.tail 0 1
      rfl
    · cases readDigits l 0 0
      rfl
  rw [hcount]
  split_ifs with h
  · obtain ⟨l', rfl⟩ : ∃ l', l = 0x2D :: l' := List.head?_eq_some_iff.mp h
    have hle := readDigits_snd_le l' 0 1
    rw [List.tail_cons, List.length_cons]
    omega
  · have hle := readDigits_snd_le l 0 0
    rw [Nat.zero_add] at hle
    exact hle

theorem scanMatch_left (h0 : c ≠ 0) (hv : v.Left s b) : ∃ v', scanMatch s c v = .ok v' ∧
    v'.stored = v.stored ∧ v'.stale = v.stale ∧ v'.Left s (Directive.left (.lit c) b) := by
  have hchar := hv.charAt
  have hrest := hv.restAt
  by_cases hsp : c = 0x20
  · refine ⟨{ v with si := v.si + (b.takeWhile isspace).length }, ?_, rfl, rfl,
      hv.move (p := b.takeWhile isspace) ?_ rfl⟩
    · rw [scanMatch, hchar, hrest]
      simp only [bind, Except.bind, if_pos hsp]
      rfl
    · rw [Directive.left, if_pos hsp, List.takeWhile_append_dropWhile]
  · by_cases heq : b.head? = some c
    · obtain ⟨b', rfl⟩ : ∃ b', b = c :: b' := List.head?_eq_some_iff.mp heq
      have hhead : c = (c :: b').headD 0 := rfl
      refine ⟨{ v with si := v.si + 1 }, ?_, rfl, rfl, hv.move (p := [c]) ?_ rfl⟩
      · rw [scanMatch, hchar]
        simp only [bind, Except.bind, if_neg hsp]
        rw [if_pos hhead]
        rfl
      · rw [Directive.left, if_neg hsp, if_pos heq]
        rfl
    · refine ⟨v, ?_, rfl, rfl, ?_⟩
      · have hne : c ≠ b.headD 0 := by
          cases b with
          | nil => exact h0
          | cons x b => exact fun hx => heq (congrArg some hx.symm)
        rw [scanMatch, hchar]
        simp only [bind, Except.bind, if_neg hsp, if_neg hne]
        rfl
      · rw [Directive.left, if_neg hsp, if_neg heq]
        exact hv

theorem scanLoop_directive (d : Directive) (hd : d.Ok) (h : format.toList = p ++ (d.text ++ q))
    (hv : v.Left s b) (n : ℕ) :
    ∃ v' : Scan, scanLoop s format (n + 1) p.length v = scanLoop s format n (p ++ d.text).length v' ∧
      v'.stored = v.stored ++ d.taken b ∧ v'.stale = v.stale ∧
      ((d = .char → b ≠ []) → v'.Left s (d.left b)) := by
  have hchar := hv.charAt
  have hrest := hv.restAt
  cases d with
  | lit c =>
    obtain ⟨v', hmatch, hstored, hstale, hleft⟩ := scanMatch_left (ne_zero_of_toList h) hv
    rw [scanLoop_lit h hd, hmatch]
    exact ⟨v', rfl, hstored.trans (List.append_nil _).symm, hstale, fun _ => hleft⟩
  | char =>
    rw [scanLoop_conv h]
    refine ⟨⟨v.stored ++ [.char (b.headD 0)], v.si + 1, 1, v.stale⟩, ?_, rfl, rfl, fun hb => ?_⟩
    · show (scanConvert s 0x63 v).bind _ = _
      rw [scanConvert, if_pos rfl, hchar, List.length_append]
      rfl
    · obtain ⟨x, b', rfl⟩ := List.exists_cons_of_ne_nil (hb rfl)
      exact hv.move (p := [x]) rfl rfl
  | int =>
    rw [scanLoop_conv h]
    refine ⟨⟨v.stored ++ [.int (readInt b).1], v.si + (readInt b).2, (readInt b).2, v.stale⟩, ?_, rfl,
      rfl, fun _ => hv.move (p := b.take (readInt b).2) ?_ ?_⟩
    · show (scanConvert s 0x64 v).bind _ = _
      rw [scanConvert, if_neg (by decide), if_pos rfl, hchar, hrest, List.length_append]
      rfl
    · exact (List.take_append_drop _ _).symm
    · rw [List.length_take, Nat.min_eq_left (readInt_snd_le b)]
  | str =>
    rw [scanLoop_conv h]
    let w := b.takeWhile fun c => !isspace c
    refine ⟨⟨v.stored ++ [.str (.ofList w)], v.si + w.length, 0, v.stale⟩, ?_, rfl, rfl,
      fun _ => hv.move (p := w) List.takeWhile_append_dropWhile.symm rfl⟩
    show (scanConvert s 0x73 v).bind _ = _
    rw [scanConvert, if_neg (by decide), if_neg (by decide), if_pos rfl, hchar, hrest,
      List.length_append]
    show scanLoop s format n _ ⟨v.stored ++ [.str (.ofList w)], v.si + w.length + 0, 0, v.stale⟩ = _
    rw [add_zero]
    rfl

/-- **What the loop makes of the parts of a format.** -/
theorem scanLoop_directives (ds : List Directive) (hok : ∀ d ∈ ds, d.Ok)
    (h : format.toList = p ++ ds.flatMap Directive.text) (hn : ds.length < n) (hv : v.Left s b)
    (hb : Supplied ds b) :
    ∃ v', scanLoop s format n p.length v = .ok v' ∧ v'.stored = v.stored ++ scanned ds b ∧
      v'.stale = v.stale := by
  induction ds generalizing p n v b with
  | nil =>
    obtain ⟨n, rfl⟩ := Nat.exists_eq_succ_of_ne_zero (Nat.ne_zero_of_lt hn)
    rw [List.flatMap_nil, List.append_nil] at h
    refine ⟨v, ?_, (List.append_nil _).symm, rfl⟩
    rw [← h]
    exact scanLoop_end n v
  | cons d ds ih =>
    obtain ⟨n, rfl⟩ := Nat.exists_eq_succ_of_ne_zero (Nat.ne_zero_of_lt hn)
    have hok' : ∀ x ∈ ds, x.Ok := fun x hx => hok x (List.mem_cons_of_mem d hx)
    have hn' : ds.length < n := Nat.lt_of_succ_lt_succ hn
    rw [List.flatMap_cons] at h
    obtain ⟨v', hloop, hstored, hstale, hleft⟩ :=
      scanLoop_directive d (hok d List.mem_cons_self) h hv n
    have h' : format.toList = (p ++ d.text) ++ ds.flatMap Directive.text := by
      rw [h, List.append_assoc]
    rw [hloop, scanned, ← List.append_assoc, ← hstored, ← hstale]
    by_cases hend : ds = []
    · -- nothing is read behind the last part, wherever it has led to
      subst hend
      obtain ⟨n, rfl⟩ := Nat.exists_eq_succ_of_ne_zero (Nat.ne_zero_of_lt hn')
      rw [List.flatMap_nil, List.append_nil] at h'
      refine ⟨v', ?_, (List.append_nil _).symm, rfl⟩
      rw [← h']
      exact scanLoop_end n v'
    · exact ih hok' h' hn' (hleft fun hc => hb.1 hc hend) hb.2

theorem length_le_flatMap_text (ds : List Directive) :
    ds.length ≤ (ds.flatMap Directive.text).length := by
  induction ds with
  | nil => exact le_rfl
  | cons d ds ih =>
    have hone : 1 ≤ d.text.length := by
      cases d <;> exact Nat.succ_le_succ (Nat.zero_le _)
    rw [List.flatMap_cons, List.length_append, List.length_cons]
    omega

theorem sscanf_directives {ds : List Directive} (hok : ∀ d ∈ ds, d.Ok)
    (h : format.toList = ds.flatMap Directive.text) (hb : Supplied ds s.toList) (junk : ℤ) :
    ∃ v, sscanf s format junk = .ok v ∧ v.stored = scanned ds s.toList ∧ v.stale = false := by
  have hlen : ds.length < format.length + 2 := by
    have hle := length_le_flatMap_text ds
    rw [CStr.length, h]
    omega
  exact scanLoop_directives (p := []) ds hok h hlen ⟨[], rfl, rfl⟩ hb

/-! ## Scanning what has been formatted -/

namespace Item

/-- The parts that formats for output and for input share. -/
def Plain : Item → Prop
  | lit c => c ≠ 0x25 ∧ c ≠ 0x0D
  | dec w => w = []
  | hex _ => False
  | str => True

instance (x : Item) : Decidable x.Plain :=
  match x with
  | lit _ => inferInstanceAs (Decidable (_ ∧ _))
  | dec w => inferInstanceAs (Decidable (w = []))
  | hex _ => instDecidableFalse
  | str => instDecidableTrue

/-- The same part in a format for input. -/
def directive : Item → Directive
  | lit c => .lit c
  | dec _ => .int
  | hex _ => .int
  | str => .str

theorem Plain.ok {x : Item} (h : x.Plain) : x.Ok := by
  cases x with
  | lit c => exact h
  | dec w =>
    subst h
    decide
  | hex w => exact h.elim
  | str => trivial

theorem Plain.directive_ok {x : Item} (h : x.Plain) : x.directive.Ok := by
  cases x with
  | lit c => exact h.1
  | dec w => trivial
  | hex w => trivial
  | str => trivial

theorem Plain.directive_text {x : Item} (h : x.Plain) : x.directive.text = x.text := by
  cases x with
  | lit c => rfl
  | dec w =>
    subst h
    rfl
  | hex w => exact h.elim
  | str => rfl

end Item

variable {items : List Item}

/-- A space comes behind every conversion, or the end. -/
def Spaced : List Item → Prop
  | [] => True
  | .lit _ :: l => Spaced l
  | _ :: l => (l = [] ∨ l.head? = some (.lit 0x20)) ∧ Spaced l

/-- The arguments that a format takes. -/
def fields (args : ℕ → Arg) : ℕ → List Item → List Stored
  | _, [] => []
  | k, .lit _ :: l => fields args k l
  | k, .dec _ :: l => .int (args k).word :: fields args (k + 1) l
  | k, .hex _ :: l => .int (args k).word :: fields args (k + 1) l
  | k, .str :: l => .str (args k).text :: fields args (k + 1) l

/-- What is output behind a conversion begins with a space. -/
theorem head_actual (h : items = [] ∨ items.head? = some (.lit 0x20)) (args : ℕ → Arg) (k : ℕ) :
    ∀ c ∈ (actual args k items).head?, c = 0x20 := by
  intro c hc
  rcases h with rfl | h
  · cases hc
  · obtain ⟨l, rfl⟩ : ∃ l, items = .lit 0x20 :: l := List.head?_eq_some_iff.mp h
    exact (Option.some.inj hc).symm

theorem dropWhile_isspace (ha : a ≠ []) (hsp : 0x20 ∉ a) (b : List Byte) :
    (a ++ b).dropWhile isspace = a ++ b := by
  obtain ⟨c, a', rfl⟩ := List.exists_cons_of_ne_nil ha
  have hc : ¬ isspace c = true := fun h => hsp ((eq_of_beq h) ▸ List.mem_cons_self)
  rw [List.cons_append, List.dropWhile_cons_of_neg hc]

theorem space_notMem_digitText (m : ℕ) : 0x20 ∉ digitText 10 m := fun h =>
  absurd (isdigit_of_mem_digitText h) (by decide)

theorem takeWhile_dropWhile_word (ha : 0x20 ∉ a) (hb : ∀ c ∈ b.head?, c = 0x20) :
    ((a ++ b).takeWhile fun c => !isspace c) = a ∧ ((a ++ b).dropWhile fun c => !isspace c) = b := by
  have hall : ∀ c ∈ a, (!isspace c) = true := by
    intro c hc
    have hne : c ≠ 0x20 := fun h => ha (h ▸ hc)
    rw [isspace, beq_false_of_ne hne]
    rfl
  rw [List.takeWhile_append_of_pos hall, List.dropWhile_append_of_pos hall]
  cases b with
  | nil => exact ⟨List.append_nil a, rfl⟩
  | cons c b =>
    have hc : c = 0x20 := hb c rfl
    subst hc
    exact ⟨List.append_nil a, rfl⟩

/-- **What is stored of the output**, all of it or without the spaces at its start. -/
theorem scanned_actual (items : List Item) (hok : ∀ x ∈ items, x.Plain) (hsp : Spaced items)
    (args : ℕ → Arg) (k : ℕ)
    (hw : ∀ t, .str t ∈ fields args k items → t.toList ≠ [] ∧ 0x20 ∉ t.toList)
    (hb : b = actual args k items ∨ b = (actual args k items).dropWhile isspace) :
    scanned (items.map Item.directive) b = fields args k items := by
  induction items generalizing k b with
  | nil => rfl
  | cons x items ih =>
    have hok' : ∀ y ∈ items, y.Plain := fun y hy => hok y (List.mem_cons_of_mem x hy)
    rw [List.map_cons, scanned]
    cases x with
    | lit c =>
      apply ih hok' hsp k hw
      rw [actual] at hb
      by_cases hc : c = 0x20
      · right
        have hskip : ((0x20 : Byte) :: actual args k items).dropWhile isspace =
            (actual args k items).dropWhile isspace := rfl
        rw [Item.directive, Directive.left, if_pos hc]
        subst hc
        rw [hskip] at hb
        rcases hb with rfl | rfl
        · exact hskip
        · exact List.dropWhile_idempotent _ _
      · left
        have hkeep : b = c :: actual args k items := by
          have hstay : ¬ isspace c = true := fun h => hc (eq_of_beq h)
          rw [List.dropWhile_cons_of_neg hstay, or_self] at hb
          exact hb
        rw [Item.directive, Directive.left, if_neg hc, hkeep]
        exact if_pos rfl
    | hex w => exact (hok _ List.mem_cons_self).elim
    | dec w =>
      have hhead := head_actual hsp.1 args (k + 1)
      have hkeep : b = digitText 10 (args k).word.toNat ++ actual args (k + 1) items := by
        rw [actual, dropWhile_isspace (digitText_ne_nil _ _) (space_notMem_digitText _), or_self] at hb
        exact hb
      have hread := readInt_digitText (args k).word (s := actual args (k + 1) items) fun c hc => by
        rw [hhead c hc]
        decide
      rw [Item.directive, Directive.taken, Directive.left, hkeep, hread, List.drop_left, fields]
      exact congrArg _ (ih hok' hsp.2 (k + 1) (fun t ht => hw t (List.mem_cons_of_mem _ ht)) (.inl rfl))
    | str =>
      have hword := hw (args k).text List.mem_cons_self
      have hkeep : b = (args k).text.toList ++ actual args (k + 1) items := by
        rw [actual, dropWhile_isspace hword.1 hword.2, or_self] at hb
        exact hb
      have hread := takeWhile_dropWhile_word hword.2 (head_actual hsp.1 args (k + 1))
      rw [Item.directive, Directive.taken, Directive.left, hkeep, hread.1, hread.2,
        CStr.ofList_toList, fields]
      exact congrArg _ (ih hok' hsp.2 (k + 1) (fun t ht => hw t (List.mem_cons_of_mem _ ht)) (.inl rfl))

/-- Only a `%c` can meet the end of the input. -/
theorem supplied_of_notMem {ds : List Directive} (h : Directive.char ∉ ds) (b : List Byte) :
    Supplied ds b := by
  induction ds generalizing b with
  | nil => trivial
  | cons d ds ih =>
    exact ⟨fun hd => (h (hd ▸ List.mem_cons_self)).elim, ih (fun hm => h (List.mem_cons_of_mem d hm)) _⟩

/-- **`sscanf` with the format of `sprintf` stores the arguments of `sprintf`.** -/
theorem sscanf_sprintf (items : List Item) (hok : ∀ x ∈ items, x.Plain) (hsp : Spaced items)
    (h : format.toList = items.flatMap Item.text) (args : ℕ → Arg)
    (hw : ∀ t, .str t ∈ fields args 0 items → t.toList ≠ [] ∧ 0x20 ∉ t.toList) (junk : ℤ) :
    ∃ s v, sprintf format args = .ok s ∧ sscanf s format junk = .ok v ∧
      v.stored = fields args 0 items := by
  obtain ⟨s, hs, hlist⟩ := sprintf_items (fun x hx => (hok x hx).ok) h args
  have hds : ∀ d ∈ items.map Item.directive, d.Ok := by
    intro d hd
    obtain ⟨x, hx, rfl⟩ := List.mem_map.mp hd
    exact (hok x hx).directive_ok
  have hchar : Directive.char ∉ items.map Item.directive := by
    intro hd
    obtain ⟨x, hx, heq⟩ := List.mem_map.mp hd
    cases x <;> cases heq
  have htext : format.toList = (items.map Item.directive).flatMap Directive.text := by
    rw [h, List.flatMap_map]
    exact List.flatMap_congr fun x hx => (hok x hx).directive_text.symm
  obtain ⟨v, hv, hstored, -⟩ := sscanf_directives hds htext (supplied_of_notMem hchar s.toList) junk
  rw [scanned_actual items hok hsp args 0 hw (.inl hlist)] at hstored
  exact ⟨s, v, hs, hv, hstored⟩

/-- `"i:abc n:123"`, by `"i:%s n:%d"`. -/
theorem sscanf_sprintf_info : ∃ s v,
    sprintf (.ofChars "i:%s n:%d".toList) (argsOf [⟨0, .ofChars "abc".toList⟩, .ofWord 123]) = .ok s ∧
      sscanf s (.ofChars "i:%s n:%d".toList) 0 = .ok v ∧
      v.stored = [.str (.ofChars "abc".toList), .int 123] :=
  sscanf_sprintf [.lit 0x69, .lit 0x3A, .str, .lit 0x20, .lit 0x6E, .lit 0x3A, .dec []] (by decide)
    ⟨.inr rfl, .inl rfl, trivial⟩ (by decide) _
    (fun t ht => by
      have ht : t = .ofChars "abc".toList := by simpa [fields, argsOf] using ht
      subst ht
      decide) 0

end AdvancedOS.Stdio
