import AdvancedOS.Stdio.Input
import AdvancedOS.Stdio.Scan

/-!
# Reading inside the strings

* `Finished`, `formatLoop_ok_iff`: **`sprintf` and `printf` stay inside their format exactly if a
  character comes behind every `%` and its width**;
* `Scannable`, `sscanf_safe_iff`: **`sscanf` stays inside its strings, and takes no offset that was not
  assigned, exactly if the format has no other conversions than `%c`, `%d` and `%s`, and no `%c` with
  something behind it meets the end of the input**;
* `TextCall.safe_iff_covered`: the four functions together;
* `TextCall.not_all_safe`: a format that ends in `%`, an unknown conversion, and an input that is too
  short.
-/

namespace AdvancedOS.Stdio

variable {σ : Type} {out : Output σ} {format s : CStr} {args : ℕ → Arg} {p q b : List Byte} {c d : Byte}
  {k n : ℕ} {i : ℤ} {t : σ} {v v' : Scan}

theorem charAt_past (h : s.length < i) : charAt s i = .error .pastEnd :=
  if_neg fun hin => absurd hin.2 (not_le.mpr h)

/-! ## Formatted output -/

/-- Behind every `%` and its width there is a character. -/
inductive Finished : List Byte → Prop
  | nil : Finished []
  | lit {c : Byte} {l : List Byte} : c ≠ 0x25 → Finished l → Finished (c :: l)
  | conv {c : Byte} {l l' : List Byte} :
    l.drop (widthOf l) = c :: l' → Finished l' → Finished (0x25 :: l)

theorem finished_lit (hc : c ≠ 0x25) : Finished (c :: q) ↔ Finished q := by
  constructor
  · intro h
    cases h with
    | lit _ h => exact h
    | conv _ _ => exact absurd rfl hc
  · exact .lit hc

theorem finished_conv (hd : q.drop (widthOf q) = d :: p) : Finished (0x25 :: q) ↔ Finished p := by
  constructor
  · intro h
    cases h with
    | lit hne _ => exact absurd rfl hne
    | conv hd' h =>
      obtain ⟨-, rfl⟩ := List.cons.inj (hd.symm.trans hd')
      exact h
  · exact .conv hd

theorem not_finished_cut (hd : q.drop (widthOf q) = []) : ¬ Finished (0x25 :: q) := by
  intro h
  cases h with
  | lit hne _ => exact absurd rfl hne
  | conv hd' _ => exact List.cons_ne_nil _ _ (hd'.symm.trans hd)

theorem widthOf_le (l : List Byte) : widthOf l ≤ l.length := by
  rw [widthOf]
  split_ifs
  · exact readInt_snd_le l
  · exact Nat.zero_le _

theorem convert_ok (c : Byte) (k : ℕ) (t : σ) : ∃ x, convert out args c k t = .ok x := by
  rw [convert, itoa_ten, itoa_sixteen]
  split_ifs
  · exact ⟨_, rfl⟩
  · exact ⟨_, rfl⟩
  · exact ⟨_, rfl⟩
  · exact ⟨_, rfl⟩
  · exact ⟨_, rfl⟩
  · exact ⟨_, rfl⟩

/-- **Behind a `%` and its width at the end of the format, the loop steps over the terminating zero.** -/
theorem formatLoop_cut (h : format.toList = p ++ 0x25 :: q) (hq : q.drop (widthOf q) = []) (n k : ℕ)
    (t : σ) : formatLoop out format args (n + 2) p.length k t = .error .pastEnd := by
  have hw : widthOf q = q.length := le_antisymm (widthOf_le q) (List.drop_eq_nil_iff.mp hq)
  have hlen : format.length = p.length + (q.length + 1) := by
    rw [CStr.length, h, List.length_append, List.length_cons]
  have hpercent : charAt format p.length = .ok 0x25 := charAt_head h
  have hdigit := digitLength_eq h
  have hzero : charAt format (p.length + q.length + 1) = .ok 0 := by
    have hchar := charAt_append h (j := q.length + 1) le_rfl
    rw [Nat.cast_add, Nat.cast_one, ← add_assoc] at hchar
    rw [hchar, List.getElem?_cons_succ, List.getElem?_eq_none le_rfl]
    rfl
  have hpast : charAt format ((p.length + (1 + q.length) + 1 : ℕ) : ℤ) = .error .pastEnd :=
    charAt_past (by omega)
  rw [formatLoop, hpercent, hdigit, hw]
  show (charAt format (p.length + q.length + 1)).bind _ = _
  rw [hzero]
  show (charAt format ((p.length + (1 + q.length) + 1 : ℕ) : ℤ)).bind _ = _
  rw [hpast]
  rfl

/-- **The loop ends at the end of the format exactly if the format is finished.** -/
theorem formatLoop_ok_iff (h : format.toList = p ++ q) (hn : q.length < n) :
    (∃ t', formatLoop out format args n p.length k t = .ok t') ↔ Finished q := by
  induction n generalizing p q k t with
  | zero => exact absurd hn (Nat.not_lt_zero _)
  | succ n ih =>
    cases q with
    | nil =>
      rw [List.append_nil] at h
      rw [← h]
      exact iff_of_true ⟨t, formatLoop_end n k t⟩ .nil
    | cons c q =>
      have hn' : q.length < n := Nat.lt_of_succ_lt_succ hn
      by_cases hc : c = 0x25
      · subst hc
        cases hd : q.drop (widthOf q) with
        | nil =>
          obtain ⟨n, rfl⟩ := Nat.exists_eq_succ_of_ne_zero (Nat.ne_zero_of_lt hn')
          rw [formatLoop_cut h hd]
          refine iff_of_false ?_ (not_finished_cut hd)
          rintro ⟨t', ht⟩
          cases ht
        | cons d q' =>
          have hq : q = q.take (widthOf q) ++ d :: q' := by rw [← hd, List.take_append_drop]
          have hw : widthOf q = (q.take (widthOf q)).length := by
            rw [List.length_take, Nat.min_eq_left (widthOf_le q)]
          rw [finished_conv hd]
          generalize q.take (widthOf q) = w at hq hw
          subst hq
          obtain ⟨x, hx⟩ : ∃ x, convert out args d k t = .ok x := convert_ok d k t
          rw [formatLoop_conv h hw, hx]
          apply ih
          · rw [h, List.append_assoc, List.cons_append, List.append_assoc, List.singleton_append]
          · rw [List.length_append, List.length_cons] at hn'
            omega
      · rw [formatLoop_lit h hc, finished_lit hc]
        apply ih _ hn'
        rw [h, List.append_assoc, List.singleton_append]

theorem sprintf_ok_iff (format : CStr) (args : ℕ → Arg) :
    (∃ s, sprintf format args = .ok s) ↔ Finished format.toList :=
  formatLoop_ok_iff (p := []) rfl (Nat.lt_add_of_pos_right Nat.two_pos)

theorem printf_ok_iff (r : Routing) (format : CStr) (args : ℕ → Arg) (c : Option Console) :
    (∃ c', printf r format args c = .ok c') ↔ Finished format.toList :=
  formatLoop_ok_iff (p := []) rfl (Nat.lt_add_of_pos_right Nat.two_pos)

/-! ## Formatted input -/

/-- The scan ended at the end of the format, and took no offset that was not assigned. -/
def SafeScan (e : Except StdFault Scan) : Prop := ∃ v, e = .ok v ∧ v.stale = false

/-- The format has no other conversions than `%c`, `%d` and `%s`, and no `%c` with something behind it
meets the end of the input. -/
def Scannable (format input : List Byte) : Prop :=
  ∃ ds : List Directive, (∀ d ∈ ds, d.Ok) ∧ format = ds.flatMap Directive.text ∧ Supplied ds input

theorem not_safeScan_error (e : StdFault) : ¬ SafeScan (.error e) := by
  rintro ⟨v, hv, -⟩
  cases hv

theorem scanConvert_stale (h : scanConvert s c v = .ok v') (hv : v.stale = true) :
    v'.stale = true := by
  unfold scanConvert at h
  cases hx : charAt s v.si with
  | error e =>
    rw [hx] at h
    split_ifs at h <;> cases h
    rfl
  | ok x =>
    rw [hx] at h
    split_ifs at h <;> cases h
    · exact hv
    · exact hv
    · exact hv
    · rfl

theorem scanMatch_stale (h : scanMatch s c v = .ok v') (hv : v.stale = true) : v'.stale = true := by
  unfold scanMatch at h
  cases hx : charAt s v.si with
  | error e =>
    rw [hx] at h
    cases h
  | ok x =>
    rw [hx] at h
    simp only [bind, Except.bind] at h
    split_ifs at h <;> cases h
    · exact hv
    · exact hv
    · exact hv

theorem not_safeScan_stale (hv : v.stale = true) (n j : ℕ) :
    ¬ SafeScan (scanLoop s format n j v) := by
  induction n generalizing j v with
  | zero => exact not_safeScan_error _
  | succ n ih =>
    simp only [scanLoop, bind, Except.bind]
    cases charAt format j with
    | error e => exact not_safeScan_error e
    | ok c =>
      simp only
      split_ifs
      · rintro ⟨v', hv', hstale⟩
        cases hv'
        exact absurd (hv.symm.trans hstale) (by decide)
      · cases charAt format (j + 1) with
        | error e => exact not_safeScan_error e
        | ok c' =>
          simp only
          cases hx : scanConvert s c' v with
          | error e => exact not_safeScan_error e
          | ok v' =>
            have hv' : v'.stale = true := scanConvert_stale hx hv
            exact ih (v := { v' with si := v'.si + v'.offset }) hv' _
      · cases hx : scanMatch s c v with
        | error e => exact not_safeScan_error e
        | ok v' => exact ih (scanMatch_stale hx hv) _

theorem not_safeScan_past {j : ℕ} (h : format.length < j) (n : ℕ) (v : Scan) :
    ¬ SafeScan (scanLoop s format n j v) := by
  cases n with
  | zero => exact not_safeScan_error _
  | succ n =>
    rw [scanLoop, charAt_past (Nat.cast_lt.mpr h)]
    exact not_safeScan_error _

theorem scanConvert_unknown (h : c ≠ 0x63 ∧ c ≠ 0x64 ∧ c ≠ 0x73) (v : Scan) :
    scanConvert s c v = .ok { v with stale := true } := by
  rw [scanConvert, if_neg h.1, if_neg h.2.1, if_neg h.2.2]
  rfl

theorem not_safeScan_beyond (h : format.toList = p ++ q) (hq : q ≠ []) (hv : s.length < v.si) (n : ℕ) :
    ¬ SafeScan (scanLoop s format n p.length v) := by
  cases n with
  | zero => exact not_safeScan_error _
  | succ n =>
    have hchar : charAt s v.si = .error .pastEnd := charAt_past hv
    obtain ⟨c, q', rfl⟩ := List.exists_cons_of_ne_nil hq
    by_cases hc : c = 0x25
    · subst hc
      rw [scanLoop_conv h]
      by_cases hk : q'.headD 0 ≠ 0x63 ∧ q'.headD 0 ≠ 0x64 ∧ q'.headD 0 ≠ 0x73
      · rw [scanConvert_unknown hk]
        exact not_safeScan_stale rfl _ _
      · have herror : scanConvert s (q'.headD 0) v = .error .pastEnd := by
          rw [scanConvert, hchar]
          split_ifs with h₁ h₂ h₃
          · rfl
          · rfl
          · rfl
          · exact absurd ⟨h₁, h₂, h₃⟩ hk
        rw [herror]
        exact not_safeScan_error _
    · rw [scanLoop_lit h hc, scanMatch, hchar]
      exact not_safeScan_error _

theorem Scannable.cons {d : Directive} (hd : d.Ok) (hb : d = .char → q ≠ [] → b ≠ [])
    (h : Scannable q (d.left b)) : Scannable (d.text ++ q) b := by
  obtain ⟨ds, hok, rfl, hsupplied⟩ := h
  refine ⟨d :: ds, List.forall_mem_cons.mpr ⟨hd, hok⟩, rfl, fun hc hds => hb hc fun hnil => ?_,
    hsupplied⟩
  have hle := length_le_flatMap_text ds
  rw [hnil] at hle
  exact hds (List.length_eq_zero_iff.mp (Nat.le_zero.mp hle))

theorem scannable_nil (b : List Byte) : Scannable [] b :=
  ⟨[], fun _ hd => (List.not_mem_nil hd).elim, rfl, trivial⟩

/-- At the end of the input `%c` leads behind it, so that nothing can come after. -/
theorem scannable_char_end (h : format.toList = p ++ 0x25 :: 0x63 :: q) (hv : v.Left s [])
    (hsafe : SafeScan (scanLoop s format (n + 1) p.length v)) : Scannable (0x25 :: 0x63 :: q) [] := by
  by_cases hq : q = []
  · subst hq
    exact Scannable.cons (d := .char) trivial (fun _ hne => absurd rfl hne) (scannable_nil _)
  · have h' : format.toList = (p ++ [0x25, 0x63]) ++ q := by
      rw [h, List.append_assoc]
      rfl
    have hlen : p.length + 2 = (p ++ [0x25, 0x63]).length := by
      rw [List.length_append]
      rfl
    rw [scanLoop_conv h, List.headD_cons, scanConvert, if_pos rfl, hv.charAt, hlen] at hsafe
    refine (not_safeScan_beyond h' hq ?_ n hsafe).elim
    obtain ⟨a, hs, hsi⟩ := hv
    rw [List.append_nil] at hs
    show _ < v.si + 1
    rw [CStr.length, hs, hsi]
    exact lt_add_one _

/-- **A scan that is safe has a format and an input that allow it.** -/
theorem scannable_of_safe (h : format.toList = p ++ q) (hv : v.Left s b)
    (hsafe : SafeScan (scanLoop s format n p.length v)) : Scannable q b := by
  induction n generalizing p q b v with
  | zero => exact (not_safeScan_error _ hsafe).elim
  | succ n ih =>
    -- one part that the loop goes on behind
    have hpart : ∀ (d : Directive) (q' : List Byte), d.Ok → (d = .char → b ≠ []) →
        format.toList = p ++ (d.text ++ q') → Scannable (d.text ++ q') b := by
      intro d q' hd hb h
      obtain ⟨v', hloop, -, -, hleft⟩ := scanLoop_directive d hd h hv n
      rw [hloop] at hsafe
      exact .cons hd (fun hc _ => hb hc)
        (ih (h.trans (List.append_assoc _ _ _).symm) (hleft hb) hsafe)
    cases q with
    | nil => exact scannable_nil b
    | cons c q =>
      by_cases hc : c = 0x25
      · subst hc
        cases q with
        | nil =>
          rw [scanLoop_conv h, scanConvert_unknown (by decide)] at hsafe
          refine (not_safeScan_past ?_ _ _ hsafe).elim
          rw [CStr.length, h, List.length_append, List.length_singleton]
          exact Nat.lt_succ_self _
        | cons c q =>
          by_cases h₁ : c = 0x63
          · subst h₁
            by_cases hb : b = []
            · subst hb
              exact scannable_char_end h hv hsafe
            · exact hpart .char q trivial (fun _ => hb) h
          · by_cases h₂ : c = 0x64
            · subst h₂
              exact hpart .int q trivial (fun hd => Directive.noConfusion hd) h
            · by_cases h₃ : c = 0x73
              · subst h₃
                exact hpart .str q trivial (fun hd => Directive.noConfusion hd) h
              · rw [scanLoop_conv h, List.headD_cons, scanConvert_unknown ⟨h₁, h₂, h₃⟩] at hsafe
                exact (not_safeScan_stale rfl _ _ hsafe).elim
      · exact hpart (.lit c) q hc (fun hd => Directive.noConfusion hd) h

/-- **`sscanf` is safe exactly for formats and inputs that allow it.** -/
theorem sscanf_safe_iff (s format : CStr) (junk : ℤ) :
    SafeScan (sscanf s format junk) ↔ Scannable format.toList s.toList := by
  constructor
  · exact scannable_of_safe (p := []) (b := s.toList) rfl ⟨[], rfl, rfl⟩
  · rintro ⟨ds, hok, htext, hsupplied⟩
    obtain ⟨v, hv, -, hstale⟩ := sscanf_directives hok htext hsupplied junk
    exact ⟨v, hv, hstale⟩

/-! ## The four functions -/

/-- A call of one of the functions. -/
inductive TextCall where
  | sprintf (format : CStr) (args : ℕ → Arg)
  | printf (r : Routing) (format : CStr) (args : ℕ → Arg) (c : Option Console)
  | sscanf (s format : CStr) (junk : ℤ)
  | scanf (r : Routing) (junk : ℤ) (format : CStr) (keys : List Byte) (c : Console)

namespace TextCall

/-- The call reads inside its strings, ends at the end of the format, and takes no offset that was not
assigned; and `scanf` stores the line inside its array. -/
def Safe : TextCall → Prop
  | sprintf format args => ∃ s, Stdio.sprintf format args = .ok s
  | printf r format args c => ∃ c', Stdio.printf r format args c = .ok c'
  | sscanf s format junk => SafeScan (Stdio.sscanf s format junk)
  | scanf r junk format keys c => ∀ e ∈ (Stdio.scanf r junk format keys c).2, SafeScan e

/-- What the strings of the call must be like. -/
def Covered : TextCall → Prop
  | sprintf format _ => Finished format.toList
  | printf _ format _ _ => Finished format.toList
  | sscanf s format _ => Scannable format.toList s.toList
  | scanf _ _ format keys _ => LineFits keys ∧
    ∀ l more, lineOf keys = some (l, more) → Scannable format.toList (CStr.ofList l).toList

/-- **A call is safe exactly if its strings allow it.** -/
theorem safe_iff_covered (call : TextCall) : call.Safe ↔ call.Covered := by
  cases call with
  | sprintf format args => exact sprintf_ok_iff format args
  | printf r format args c => exact printf_ok_iff r format args c
  | sscanf s format junk => exact sscanf_safe_iff s format junk
  | scanf r junk format keys c =>
    show (∀ e ∈ (Stdio.scanf r junk format keys c).2, SafeScan e) ↔ LineFits keys ∧
      ∀ l more, lineOf keys = some (l, more) → Scannable format.toList (CStr.ofList l).toList
    rw [Stdio.scanf]
    cases hr : lineRead keys [] with
    | error e =>
      have hlong := (lineRead_eq_error.mp hr).1
      exact iff_of_false (fun h => not_safeScan_error e (h _ rfl)) fun h => hlong h.1
    | ok o =>
      obtain ⟨hfits, rfl⟩ := lineRead_eq_ok.mp hr
      rw [and_iff_right hfits]
      cases hl : lineOf keys with
      | none => exact iff_of_true (fun _ he => by cases he) fun _ _ hn => by cases hn
      | some p =>
        obtain ⟨l, more⟩ := p
        simp only [Option.mem_def, Option.some.injEq, forall_eq', sscanf_safe_iff, Prod.mk.injEq]
        exact ⟨fun h _ _ hp => hp.1 ▸ h, fun h => h l more ⟨rfl, rfl⟩⟩

/-- `sprintf(buf, "%")`, `sscanf("", "%c%c", &a, &b)` and `sscanf("x", "%q")`. -/
theorem not_all_safe : ¬ (sprintf (.ofChars "%".toList) (argsOf [])).Safe ∧
    ¬ (sscanf (.ofList []) (.ofChars "%c%c".toList) 0).Safe ∧
    ¬ (sscanf (.ofChars "x".toList) (.ofChars "%q".toList) 0).Safe := by
  refine ⟨?_, not_safeScan_error .pastEnd, ?_⟩
  · rintro ⟨s, hs⟩
    have herror : Stdio.sprintf (.ofChars "%".toList) (argsOf []) = .error .pastEnd := rfl
    cases herror.symm.trans hs
  · rintro ⟨v, hv, hstale⟩
    have hunknown : Stdio.sscanf (.ofChars "x".toList) (.ofChars "%q".toList) 0 =
      .ok ⟨[], 0, 0, true⟩ := rfl
    cases hunknown.symm.trans hv
    cases hstale

end TextCall

end AdvancedOS.Stdio
