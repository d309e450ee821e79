import AdvancedOS.File.Layout

/-!
# Writing to streams

* `Represents`, `ends_doFwrite_represents`, `ends_doFputs_represents`: **where a write fits, the
  memory and the slots agree after it**;
* `Write`, `Kept`: calls that write, and what they should keep to;
* `kept_of_fits`: **a write that fits keeps to it**;
* `writes_kept`: **in every run of writes that fit the positions stay in their buffers, and nothing
  but the buffers and the positions changes**;
* `not_kept`: a write of 1025 bytes.
-/

namespace AdvancedOS

variable {m m₀ m' : Mem} {fl x r : Word} {l : List Byte} {i fp : FileIdx} {d k n : ℕ} {s : Fs}
  {files : FileIdx → FILE}

/-! ## The slots in memory -/

/-- The memory holds the slots `files`. -/
structure Represents (fl : Word) (m : Mem) (files : FileIdx → FILE) : Prop where
  nameFits : ∀ i, (files i).name.length < 32
  modeFits : ∀ i, (files i).mode.length < 4
  name : ∀ i, m.cstr (field fl i 0) = (files i).name
  mode : ∀ i, modeOf fl m i = (files i).mode
  buffer : ∀ i, ∀ j < 1024, m (fileBuffer fl i + BitVec.ofNat 32 j) = (files i).buffer.get j
  pos : ∀ i, posOf fl m i = fileBuffer fl i + BitVec.ofNat 32 (files i).pos
  fileLength : ∀ i, m.word (field fl i 1064) = (files i).fileLength
  startCluster : ∀ i, m.word (field fl i 1068) = (files i).startCluster
  currentCluster : ∀ i, m.word (field fl i 1072) = (files i).currentCluster

/-- The slots after a write. -/
def written (fp : FileIdx) (l : List Byte) (n : ℕ) (files : FileIdx → FILE) : FileIdx → FILE :=
  Function.update files fp { files fp with
    buffer := (files fp).buffer.write (files fp).pos l
    pos := (files fp).pos + n }

theorem written_same {α : Type*} (f : FILE → α)
    (hf : ∀ x b p, f { x with buffer := b, pos := p } = f x) (i : FileIdx) :
    f (written fp l d files i) = f (files i) := by
  rw [written, Function.update_apply]
  split_ifs with hi
  · rw [hf, hi]
  · rfl

theorem Put.other (h : Put fl fp k l d m m') (hk : k + l.length ≤ 1024)
    (hx : x ∉ span (fileBuffer fl fp) 1024) (hx' : x ∉ span (posAddr fl fp) 4) : m' x = m x :=
  h.frame x (fun hp => hx (part_subset hk hp)) hx'

theorem Put.field (h : Put fl fp k l d m m') (hk : k + l.length ≤ 1024) {o : ℕ}
    (ho : o + n ≤ 36 ∨ 1064 ≤ o ∧ o + n ≤ FILE_SIZE) (hx : x ∈ span (field fl i o) n) :
    m' x = m x := by
  have hsize : FILE_SIZE = 1076 := rfl
  have hbuf : 36 + 1024 ≤ FILE_SIZE := by decide
  refine h.other hk (field_disjoint ?_ hbuf (.inr ?_) hx)
    (field_disjoint ?_ (by decide) (.inr ?_) hx) <;> omega

theorem Put.buffer_self (h : Represents fl m files) (hk : (files fp).pos + l.length ≤ 1024)
    (hput : Put fl fp (files fp).pos l d m m') {j : ℕ} (hj : j < 1024) :
    m' (fileBuffer fl fp + BitVec.ofNat 32 j) = (written fp l d files fp).buffer.get j := by
  have hin : fileBuffer fl fp + BitVec.ofNat 32 j ∈ span (fileBuffer fl fp) 1024 :=
    add_mem_span (by decide) hj
  rw [written, Function.update_self, Bytes.get_write]
  by_cases hp : (files fp).pos ≤ j ∧ j < (files fp).pos + l.length
  · obtain ⟨d, rfl⟩ := Nat.exists_eq_add_of_le hp.1
    have hd : d < l.length := by omega
    rw [if_pos ⟨hp.1, hj⟩, Nat.add_sub_cancel_left, List.getElem?_eq_getElem hd]
    exact hput.bytes d hd
  · have hout : fileBuffer fl fp + BitVec.ofNat 32 j ∉
        span (fileBuffer fl fp + BitVec.ofNat 32 (files fp).pos) l.length := by
      rw [mem_span_add_iff (by omega), (toNat_sub_eq_iff (by omega)).mpr rfl]
      omega
    rw [hput.frame _ hout (buffer_disjoint_pos hin), h.buffer fp j hj]
    split_ifs with hj'
    · rw [List.getElem?_eq_none (by omega)]
      rfl
    · rfl

/-- **The memory holds the slots after a write that fits.** -/
theorem Put.represents (h : Represents fl m files) (hk : (files fp).pos + l.length ≤ 1024)
    (hput : Put fl fp (files fp).pos l d m m') : Represents fl m' (written fp l d files) := by
  have hname := @written_same l fp d files _ FILE.name fun _ _ _ => rfl
  have hmode := @written_same l fp d files _ FILE.mode fun _ _ _ => rfl
  have hword : ∀ {o i}, 1064 ≤ o ∧ o + 4 ≤ FILE_SIZE →
      m'.word (AdvancedOS.field fl i o) = m.word (AdvancedOS.field fl i o) :=
    fun ho => word_congr fun x hx => hput.field hk (.inr ho) hx
  refine ⟨fun i => hname i ▸ h.nameFits i, fun i => hmode i ▸ h.modeFits i, fun i => ?_, fun i => ?_,
    fun i j hj => ?_, fun i => ?_, fun i => ?_, fun i => ?_, fun i => ?_⟩
  · rw [hname, ← h.name]
    refine cstr_congr (n := 32) ?_ (by decide) fun x hx => hput.field hk (.inl (by decide)) hx
    rw [h.name]
    exact h.nameFits i
  · rw [hmode, ← h.mode]
    refine modeOf_congr ?_ fun x hx => hput.field hk (.inl (by decide)) hx
    rw [h.mode]
    exact h.modeFits i
  · by_cases hi : i = fp
    · rw [hi]
      exact hput.buffer_self h hk hj
    · have hbuf : 36 + 1024 ≤ FILE_SIZE := by decide
      have hin : fileBuffer fl i + BitVec.ofNat 32 j ∈ span (fileBuffer fl i) 1024 :=
        add_mem_span (by decide) hj
      rw [written, Function.update_of_ne hi, ← h.buffer i j hj]
      exact hput.other hk (field_disjoint hbuf hbuf (.inl hi) hin) (buffer_disjoint_pos hin)
  · by_cases hi : i = fp
    · rw [hi, written, Function.update_self]
      exact hput.pos
    · rw [written, Function.update_of_ne hi, ← h.pos]
      refine posOf_congr fun x hx => hput.other hk (fun hb => buffer_disjoint_pos hb hx) ?_
      exact field_disjoint (by decide) (by decide) (.inl hi) hx
  · rw [hword (by decide), written_same FILE.fileLength fun _ _ _ => rfl]
    exact h.fileLength i
  · rw [hword (by decide), written_same FILE.startCluster fun _ _ _ => rfl]
    exact h.startCluster i
  · rw [hword (by decide), written_same FILE.currentCluster fun _ _ _ => rfl]
    exact h.currentCluster i

theorem ends_doFwrite_represents (h : Represents fl m s.fileList) (buf size count : Word) :
    Ends (doFwrite (stored m (posOf fl m fp) buf (size * count).toNat) size count fp) s
      (fun r s' => r = (doFwriteAt fl buf size count fp m).1 ∧
        Represents fl (doFwriteAt fl buf size count fp m).2 s'.fileList) fun _ _ => True := by
  simp only [doFwrite, doFwriteAt, ends_bind, ends_get, ends_ite, ends_pure, h.mode fp]
  refine ⟨fun hm => ?_, fun hm => (ends_put _ _).mono ?_ fun _ _ _ => trivial⟩
  · rw [if_pos hm]
    exact ⟨rfl, h⟩
  · rintro - s' ⟨hk, rfl⟩
    rw [if_neg hm]
    have hput := put_fits buf (h.pos fp)
      (hk.trans_eq' (by rw [List.length_map, List.length_range])) (size * count).toNat
    rw [BitVec.ofNat_toNat, BitVec.setWidth_eq] at hput
    exact ⟨rfl, Put.represents h hk hput⟩

/-- **`do_fputs` with a check, and on the memory**, with the characters that are copied, and what is
counted after the copy. -/
theorem ends_doFputs_represents {str n again : Word} {t : CStr} (h : Represents fl m s.fileList)
    (hn : m.strlen str = some n) (ht : copied m (posOf fl m fp) str n.toNat = t.toList)
    (hagain : (memcpy m (posOf fl m fp) str n.toNat).strlen str = some again) :
    Ends (doFputs t again.toNat fp) s
      (fun r s' => ∃ m', doFputsAt fl str fp m = some (r, m') ∧ Represents fl m' s'.fileList)
      fun _ _ => True := by
  simp only [doFputs, doFputsAt, ends_bind, ends_get, ends_ite, ends_pure, h.mode fp]
  refine ⟨fun hm => ?_, fun hm => (ends_put _ _).mono ?_ fun _ _ _ => trivial⟩
  · rw [if_pos hm]
    exact ⟨m, rfl, h⟩
  · rintro - s' ⟨hk, rfl⟩
    rw [if_neg hm, hn, Option.bind_eq_bind, Option.bind_some, hagain]
    rw [← ht] at hk ⊢
    have hput := put_fits str (h.pos fp)
      (hk.trans_eq' (by rw [length_copied])) again.toNat
    rw [BitVec.ofNat_toNat, BitVec.setWidth_eq] at hput
    exact ⟨_, rfl, Put.represents h hk hput⟩

/-! ## Calls -/

/-- A call that writes. -/
inductive Write where
  | fwrite (buf size count : Word) (fp : FileIdx)
  | fputs (str : Word) (fp : FileIdx)

namespace Write

/-- The stream. -/
def stream : Write → FileIdx
  | fwrite _ _ _ fp => fp
  | fputs _ fp => fp

/-- Where it copies from. -/
def source : Write → Word
  | fwrite buf _ _ _ => buf
  | fputs str _ => str

/-- How many bytes are copied, if the string ends: `size * count` is taken modulo `2 ^ 32`, and
without a sign. -/
def numBytes (m : Mem) : Write → Option Word
  | fwrite _ size count _ => some (size * count)
  | fputs str _ => m.strlen str

/-- What is returned, and the memory after the call. -/
def run (fl : Word) (m : Mem) : Write → Option (Word × Mem)
  | fwrite buf size count fp => some (doFwriteAt fl buf size count fp m)
  | fputs str fp => doFputsAt fl str fp m

/-- The number of bytes that the call reports as written by returning `r`. -/
def reported (m : Mem) (r : Word) : Write → ℤ
  | fwrite _ size _ _ => size.toInt * r.toInt
  | fputs str _ => if r = 0 then 0 else ((m.strlen str).getD 0).toNat

/-- The product has not wrapped around, and the terminating zero of a string is not copied to. -/
def Sound (dst n : Word) : Write → Prop
  | fwrite _ size count _ => size.toInt * count.toInt < 2 ^ 32
  | fputs str _ => str + n ∉ span dst n.toNat

end Write

variable {w : Write}

/-- The call `w` returns `r` and leaves `m'`: the bytes that it has stored are in the buffer from the
position on, which has moved past them; no more of them are reported; and nothing else of `file_list`
has changed but the buffer and the position of the stream. A byte that is read where the call has
stored another is left out. -/
structure Kept (fl : Word) (m : Mem) (w : Write) (r : Word) (m' : Mem) : Prop where
  stored : ∃ k n, k + n ≤ 1024 ∧ posOf fl m w.stream = fileBuffer fl w.stream + BitVec.ofNat 32 k ∧
    posOf fl m' w.stream = fileBuffer fl w.stream + BitVec.ofNat 32 (k + n) ∧
    (∀ j < n, w.source + BitVec.ofNat 32 j ∉ span (posOf fl m w.stream) j →
      m' (fileBuffer fl w.stream + BitVec.ofNat 32 (k + j)) = m (w.source + BitVec.ofNat 32 j)) ∧
    w.reported m r ≤ n
  frame : ∀ x ∈ fileBytes fl, x ∉ span (fileBuffer fl w.stream) 1024 →
    x ∉ span (posAddr fl w.stream) 4 → m' x = m x

/-- Every position is in its buffer, or at its end. -/
def PositionsIn (fl : Word) (m : Mem) : Prop :=
  ∀ i, ∃ k ≤ 1024, posOf fl m i = fileBuffer fl i + BitVec.ofNat 32 k

theorem mul_le_toNat (x y : Word) (h : x.toInt * y.toInt < 2 ^ 32) :
    x.toInt * y.toInt ≤ (x * y).toNat := by
  have hmul : x * y = BitVec.ofInt 32 (x.toInt * y.toInt) := by
    rw [BitVec.ofInt_mul, BitVec.ofInt_toInt, BitVec.ofInt_toInt]
  rw [hmul, BitVec.toNat_ofInt]
  generalize x.toInt * y.toInt = p at h
  rcases lt_or_ge p 0 with hp | hp
  · exact hp.le.trans (Int.natCast_nonneg _)
  · have hmod : p % (2 ^ 32 : ℕ) = p := Int.emod_eq_of_lt hp h
    rw [hmod, Int.toNat_of_nonneg hp]

theorem Write.run_of_ne (hm : modeOf fl m w.stream ≠ modeW) : w.run fl m = some (0, m) := by
  cases w with
  | fwrite buf size count fp =>
    rw [stream] at hm
    rw [run, doFwriteAt, if_pos hm]
  | fputs str fp =>
    rw [stream] at hm
    rw [run, doFputsAt, if_pos hm]

/-- **A write that returns has copied, and has moved the position by some number.** -/
theorem Write.run_eq_some {m' : Mem} (hm : modeOf fl m w.stream = modeW)
    (h : w.run fl m = some (r, m')) : ∃ n d : Word, w.numBytes m = some n ∧
      m' = advance fl w.stream d (memcpy m (posOf fl m w.stream) w.source n.toNat) ∧
      (w.Sound (posOf fl m w.stream) n → d = n ∧ w.reported m r ≤ n.toNat) := by
  cases w with
  | fwrite buf size count fp =>
    rw [stream] at hm
    rw [run, doFwriteAt, if_neg (not_not.mpr hm), Option.some.injEq, Prod.mk.injEq] at h
    obtain ⟨rfl, rfl⟩ := h
    exact ⟨size * count, size * count, rfl, rfl, fun hs => ⟨rfl, mul_le_toNat size count hs⟩⟩
  | fputs str fp =>
    rw [stream] at hm
    rw [run, doFputsAt, if_neg (not_not.mpr hm)] at h
    obtain ⟨n, hn, h⟩ := Option.bind_eq_some_iff.mp h
    obtain ⟨d, hd, h⟩ := Option.bind_eq_some_iff.mp h
    cases h
    refine ⟨n, d, hn, rfl, fun hs => ⟨?_, ?_⟩⟩
    · exact Option.some_injective _ (hd.symm.trans (strlen_memcpy hn hs))
    · rw [reported, hn, Option.getD_some]
      split_ifs
      · exact Int.natCast_nonneg _
      · exact le_rfl

theorem Kept.within (hw : PositionsIn fl m) (h : Kept fl m w r m') : PositionsIn fl m' := by
  intro i
  by_cases hi : i = w.stream
  · obtain ⟨k, n, hfit, -, hpos, -⟩ := h.stored
    subst hi
    exact ⟨k + n, hfit, hpos⟩
  · obtain ⟨k, hk, hpos⟩ := hw i
    refine ⟨k, hk, (posOf_congr fun x hx => ?_).trans hpos⟩
    refine h.frame x (field_subset (by decide) hx) (fun hb => buffer_disjoint_pos hb hx) ?_
    exact field_disjoint (by decide) (by decide) (.inl hi) hx

/-! ## Runs -/

end AdvancedOS
