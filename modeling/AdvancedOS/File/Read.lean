import AdvancedOS.Fat.Image
import AdvancedOS.File.Open
import AdvancedOS.Lib.Pieces
import Mathlib.Algebra.Order.BigOperators.Group.List

/-!
# Reading from a stream

`do_fread` and `do_fgets` copy from the start of the buffer each time.

* `ReadOp`, `readAll`: the calls, and what a sequence of them delivers;
* `InOrder`: that is the file, once and in order;
* `delivers_iff`: **this is so exactly if the file has as many bytes as are asked for, and at every
  place where a call goes on the same ones as at its start**;
* `not_delivers`: the two bytes of a file, one after the other.
-/

namespace AdvancedOS

/-! ## The calls -/

/-- A call of `fread` or `fgets`. -/
inductive ReadOp where
  | fread (buf size count : Word)
  | fgets (str count : Word)

namespace ReadOp

/-- The code of a call. -/
def code (fp : FileIdx) : ReadOp → FsKern Word
  | fread buf size count => doFread buf size count fp
  | fgets str count => doFgets str count fp

/-- Where the bytes go. -/
def dst : ReadOp → Word
  | fread buf _ _ => buf
  | fgets str _ => str

/-- The number of bytes that are copied. -/
def numBytes : ReadOp → Word
  | fread _ size count => size * count
  | fgets _ count => count

/-- What is returned. -/
def value : ReadOp → Word
  | fread _ _ count => count
  | fgets str _ => str

/-- The number of bytes that are asked for. -/
def asked : ReadOp → ℕ
  | fread _ size count => size.toNat * count.toNat
  | fgets _ count => count.toNat

/-- The code, with the bytes that it delivers. -/
def read (fp : FileIdx) (op : ReadOp) : FsKern (List Byte × Word) := do
  return (← copyOut op.dst op.numBytes.toNat fp, op.value)

/-- A number of objects is returned, and so many have been delivered. -/
def Whole : ReadOp → List Byte × Word → Prop
  | fread _ size _, r => r.2.toNat * size.toNat ≤ r.1.length
  | fgets .., _ => True

end ReadOp

variable {s s' s₁ : Fs} {fp i : FileIdx} {pname mode : CStr} {content : List Byte}
  {ops : List ReadOp} {op : ReadOp} {n : ℕ} {dst : Word}

theorem ReadOp.code_eq (op : ReadOp) (fp : FileIdx) :
    op.code fp = op.read fp >>= fun r => pure r.2 := by
  have hcopy : ∀ (x : FsKern (List Byte)) (v : Word), (do discard x; return v) =
      (do return (← x, v)) >>= fun r : List Byte × Word => pure r.2 := by
    intro x v
    funext s
    change EStateM.bind (EStateM.map _ x) _ s = EStateM.bind (EStateM.bind x _) _ s
    unfold EStateM.bind EStateM.map
    cases x s <;> rfl
  cases op with
  | fread buf size count => exact hcopy _ count
  | fgets str count => exact hcopy _ str

/-- The calls one after the other, with what each delivers and returns. -/
def readAll (fp : FileIdx) : List ReadOp → FsKern (List (List Byte × Word))
  | [] => pure []
  | op :: ops => do
    let r ← op.read fp
    return r :: (← readAll fp ops)

/-- The file that is found under a name has these bytes. -/
def FileBytes (s : Fs) (pname : CStr) (content : List Byte) : Prop :=
  ∃ l cs, foundAt s pname = some l ∧ s.volume.Chain l cs ∧
    content = (bytesOf (cs.map (clusterSector s.disk))).take (s.volume.entry l).fileLength.toNat

/-- The bytes that are delivered are the beginning of the file, each call goes on where the ones
before it stopped, and the objects that are counted have been delivered. -/
structure InOrder (content : List Byte) (ops : List ReadOp) (rs : List (List Byte × Word)) :
    Prop where
  start : (rs.map Prod.fst).flatten <+: content
  goesOn : ∀ pre r post, rs = pre ++ r :: post →
    r.1 <+: content.drop (pre.map Prod.fst).flatten.length
  whole : List.Forall₂ ReadOp.Whole ops rs

/-- The calls return, and deliver the file in order. -/
def Delivers (content : List Byte) (ops : List ReadOp) (fp : FileIdx) (s : Fs) : Prop :=
  ∃ rs s', readAll fp ops s = .ok rs s' ∧ InOrder content ops rs

/-- There are as many bytes as are asked for, and at every place where a call goes on the same ones
as at the start. -/
structure Repeats (content : List Byte) (ops : List ReadOp) : Prop where
  enough : (ops.map ReadOp.asked).sum ≤ content.length
  same : ∀ pre n post, ops.map ReadOp.asked = pre ++ n :: post →
    ∀ i < n, content[pre.sum + i]? = content[i]?

/-! ## What is delivered -/

theorem ends_copyOut : Ends (copyOut dst n fp) s
    (fun l s' => n ≤ 1024 ∧ l = (List.ofFn (s.fileList fp).buffer).take n ∧
      s'.fileList = s.fileList)
    fun _ _ => 1024 < n := by
  simp only [copyOut, ends_ite, ends_bind, ends_get, ends_modify, ends_pure, ends_outOfBounds]
  exact ⟨fun h => ⟨h, trivial, rfl⟩, fun h => not_le.mp h⟩

/-- What a call delivers and returns, for what is in the buffer. -/
def ReadOp.result (buffer : Bytes 1024) (op : ReadOp) : List Byte × Word :=
  ((List.ofFn buffer).take op.numBytes.toNat, op.value)

theorem ends_readAll : Ends (readAll fp ops) s
    (fun rs _ => (∀ op ∈ ops, op.numBytes.toNat ≤ 1024) ∧
      rs = ops.map (ReadOp.result (s.fileList fp).buffer))
    fun _ _ => ¬ ∀ op ∈ ops, op.numBytes.toNat ≤ 1024 := by
  induction ops generalizing s with
  | nil => exact (ends_pure _).mpr ⟨fun _ h => absurd h List.not_mem_nil, rfl⟩
  | cons op ops ih =>
    simp only [readAll, ReadOp.read, ends_bind, ends_pure, List.forall_mem_cons]
    refine ends_copyOut.mono ?_ fun _ _ hn h => not_le.mpr hn h.1
    rintro l s₁ ⟨hn, hl, hs₁⟩
    refine ih.mono ?_ fun _ _ hns h => hns h.2
    rintro rs s₂ ⟨hns, hrs⟩
    refine ⟨⟨hn, hns⟩, ?_⟩
    rw [hrs, hs₁, hl]
    rfl

/-- As many objects as are counted have been delivered, unless the number of bytes has wrapped
around. -/
theorem ReadOp.counted_iff {buffer : Bytes 1024} (h : op.numBytes.toNat ≤ 1024) :
    op.Whole (op.result buffer) ↔ op.numBytes.toNat = op.asked := by
  cases op with
  | fgets str count => exact iff_of_true trivial rfl
  | fread buf size count =>
    have hlen : ((List.ofFn buffer).take (size * count).toNat).length = (size * count).toNat :=
      List.length_take_of_le (by rwa [List.length_ofFn])
    have hle : (size * count).toNat ≤ size.toNat * count.toNat := by
      rw [BitVec.toNat_mul]
      exact Nat.mod_le _ _
    change count.toNat * size.toNat ≤ List.length (List.take (size * count).toNat _) ↔
      (size * count).toNat = size.toNat * count.toNat
    rw [hlen, Nat.mul_comm count.toNat]
    exact ⟨fun hge => le_antisymm hle hge, fun he => he.ge⟩

theorem ReadOp.numBytes_eq (h : op.asked ≤ 1024) : op.numBytes.toNat = op.asked := by
  cases op with
  | fgets str count => rfl
  | fread buf size count =>
    change size.toNat * count.toNat ≤ 1024 at h
    change (size * count).toNat = size.toNat * count.toNat
    rw [BitVec.toNat_mul, Nat.mod_eq_of_lt (by omega)]

/-- If there are as many bytes as are asked for, no number of bytes has wrapped around. -/
theorem Repeats.numBytes_eq {buffer : Bytes 1024} (h : Repeats content ops)
    (hc : content <+: List.ofFn buffer) : ∀ op ∈ ops, op.numBytes.toNat = op.asked ∧
      op.asked ≤ 1024 := by
  intro op hop
  have hle : op.asked ≤ 1024 := calc
    op.asked ≤ (ops.map ReadOp.asked).sum :=
      List.single_le_sum (fun _ _ => Nat.zero_le _) _ (List.mem_map_of_mem hop)
    _ ≤ content.length := h.enough
    _ ≤ (List.ofFn buffer).length := hc.length_le
    _ = 1024 := List.length_ofFn
  exact ⟨ReadOp.numBytes_eq hle, hle⟩

theorem inOrder_iff {buffer : Bytes 1024} (hc : content <+: List.ofFn buffer)
    (h : ∀ op ∈ ops, op.numBytes.toNat ≤ 1024) :
    InOrder content ops (ops.map (ReadOp.result buffer)) ↔ Repeats content ops := by
  have hpieces : (ops.map (ReadOp.result buffer)).map Prod.fst =
      (ops.map fun op => op.numBytes.toNat).map fun n => (List.ofFn buffer).take n := by
    rw [List.map_map, List.map_map]
    rfl
  have hlen : ∀ n ∈ ops.map fun op => op.numBytes.toNat, n ≤ (List.ofFn buffer).length := by
    rw [List.length_ofFn]
    exact List.forall_mem_map.mpr h
  have hwhole : List.Forall₂ ReadOp.Whole ops (ops.map (ReadOp.result buffer)) ↔
      ∀ op ∈ ops, op.numBytes.toNat = op.asked := by
    rw [List.forall₂_map_right_iff, List.forall₂_same]
    exact forall₂_congr fun op hop => ReadOp.counted_iff (h op hop)
  have hstart := Pieces.flatten_take_iff hc hlen
  rw [← hpieces] at hstart
  constructor
  · intro hr
    have hasked : (ops.map fun op => op.numBytes.toNat) = ops.map ReadOp.asked :=
      List.map_congr_left (hwhole.mp hr.whole)
    rw [hasked] at hstart
    exact ⟨(hstart.mp hr.start).1, (hstart.mp hr.start).2⟩
  · intro hr
    have heq : ∀ op ∈ ops, op.numBytes.toNat = op.asked := fun op hop =>
      (hr.numBytes_eq hc op hop).1
    have hasked : (ops.map fun op => op.numBytes.toNat) = ops.map ReadOp.asked :=
      List.map_congr_left heq
    rw [hasked] at hstart
    have hflat := hstart.mpr ⟨hr.enough, hr.same⟩
    refine ⟨hflat, fun pre r post hrs => ?_, hwhole.mpr heq⟩
    refine Pieces.flatten_iff.mp hflat (pre.map Prod.fst) r.1 (post.map Prod.fst) ?_
    rw [hrs, List.map_append, List.map_cons]

theorem delivers_iff_of_buffer (hc : content <+: List.ofFn (s.fileList fp).buffer) :
    Delivers content ops fp s ↔ Repeats content ops := by
  constructor
  · rintro ⟨rs, s', hrs, hr⟩
    obtain ⟨hle, rfl⟩ := ends_readAll.of_ok hrs
    exact (inOrder_iff hc hle).mp hr
  · intro hr
    have hle : ∀ op ∈ ops, op.numBytes.toNat ≤ 1024 := fun op hop =>
      (hr.numBytes_eq hc op hop).1.trans_le (hr.numBytes_eq hc op hop).2
    obtain ⟨rs, s', hrs, -, rfl⟩ := exists_ok_iff.mpr <|
      (@ends_readAll s fp ops).mono (fun _ _ h => h) fun _ _ hn => hn hle
    exact ⟨_, s', hrs, (inOrder_iff hc hle).mpr hr⟩

/-! ## What is in the buffer -/

theorem FileBytes.unique {content' : List Byte} (h : FileBytes s pname content)
    (h' : FileBytes s pname content') : content = content' := by
  obtain ⟨l, cs, hl, hcs, rfl⟩ := h
  obtain ⟨l', cs', hl', hcs', rfl⟩ := h'
  cases hl.symm.trans hl'
  rw [FatChain.unique hcs hcs']

/-- **A stream that has been opened for reading is that of a file, and its buffer starts with it.** -/
theorem exists_fileBytes (h : doFopen pname modeR s = .ok (some fp) s₁) :
    ∃ content, FileBytes s pname content ∧ content <+: List.ofFn (s₁.fileList fp).buffer := by
  cases hi : unusedFile s.fileList with
  | none =>
    have hend : Ends (doFopen pname modeR) s (fun o _ => o = none) fun _ _ => True := by
      simp only [doFopen, ends_bind, ends_get, hi]
      exact (ends_pure _).mpr rfl
    cases hend.of_ok h
  | some i =>
    have hopen := ((ends_fopen hi).of_ok h).2
    cases hl : foundAt s pname with
    | none => cases (hopen.missing hl).mpr (by decide)
    | some l =>
      obtain ⟨hfp, cs, hcs, hbuf⟩ := hopen.found l hl
      cases hfp
      exact ⟨_, ⟨l, cs, hl, hcs, rfl⟩, (List.take_prefix _ _).trans hbuf⟩

/-- **For every file that has been opened for reading and every sequence of calls: what is delivered
is the file, once and in order, exactly if the calls ask for no more bytes than it has, and at every
place where a call goes on the file has the same bytes as at its start.** -/
theorem delivers_iff (h : doFopen pname modeR s = .ok (some fp) s₁)
    (hfile : FileBytes s pname content) (ops : List ReadOp) :
    Delivers content ops fp s₁ ↔ Repeats content ops := by
  obtain ⟨content', hfile', hc⟩ := exists_fileBytes h
  obtain rfl := hfile.unique hfile'
  exact delivers_iff_of_buffer hc

/-! ## A file of two bytes -/

/-- The entry of a file `B` of two bytes. -/
def entryB : FileEntry :=
  .ofList (0x42 :: List.replicate 10 0x20 ++ 0x20 :: List.replicate 14 0 ++ Bytes.le16 2 ++
    Bytes.le32 2)

/-- A drive with this file, which has the bytes `a` and `b`. -/
def twoBytes : Fs :=
  { formatted with
    disk := driveOf (fun _ => 0xFFF) (fun i => if i = 0 then entryB else fun _ => 0) fun _ =>
      .ofList [0x61, 0x62] }

namespace twoBytes

/-- The volume on this drive. -/
abbrev vol : Volume := onDrive twoBytes.disk

theorem fat_eq : vol.fat = fun _ => 0xFFF := onDrive_driveOf_fat fun _ => by decide

theorem entry_root : vol.entry (.root 0) = entryB := congrFun onDrive_driveOf_rootDir 0

theorem chain : vol.Chain (.root 0) [2] := by
  refine FatChain.single (fatIdx_eq_some.mpr ?_) ?_
  · rw [entry_root]
    decide
  · rw [fat_eq]
    decide

theorem found (hv : s.volume = vol) (hcurr : s.currDir = FAT_ROOT_REGION_START) :
    foundAt s (.ofChars ['b']) = some (.root 0) := by
  have hroot : s.rootDir 0 = entryB := (congrFun (congrArg Volume.rootDir hv) 0).trans entry_root
  have hfind : findRoot s.rootDir (.ofChars ['b']) = some 0 := by
    apply findRoot_zero
    rw [hroot]
    decide +kernel
  rw [foundAt, if_pos hcurr, hfind]
  rfl

theorem fileBytes (hv : s.volume = vol) (hcurr : s.currDir = FAT_ROOT_REGION_START) :
    FileBytes s (.ofChars ['b']) [0x61, 0x62] := by
  refine ⟨.root 0, [2], found hv hcurr, hv ▸ chain, ?_⟩
  have hdisk : s.disk = twoBytes.disk := congrArg Volume.disk hv
  have hsec : clusterSector s.disk 2 = .ofList [0x61, 0x62] := by
    rw [hdisk]
    exact clusterSector_driveOf (by decide)
  rw [hv, entry_root, List.map_singleton, hsec, bytesOf_singleton]
  decide +kernel

theorem exists_opened : ∃ s₀ s s₁, fat12Init twoBytes = .ok () s₀ ∧ fileInit s₀ = .ok () s ∧
    doFopen (.ofChars ['b']) modeR s = .ok (some 0) s₁ ∧
      FileBytes s (.ofChars ['b']) [0x61, 0x62] := by
  obtain ⟨s₀, h₀, hv, hcurr, -⟩ := exists_init twoBytes
  set s : Fs := s₀.change fun v => { v with fileList := fun _ => emptyFile } with hs
  have hslot : unusedFile s.fileList = some 0 := by
    have hunused : unusedFile (fun _ => emptyFile) = some 0 := by decide
    exact hunused
  have hfound : foundAt s (.ofChars ['b']) = some (.root 0) := found hv hcurr
  have hopen : Openable s (.ofChars ['b']) modeR := by
    refine ⟨by decide, by decide, .inl hcurr, fun _ => .inr rfl, fun l hl => ?_⟩
    cases hfound.symm.trans hl
    have hvol : s.volume = vol := hv
    exact ⟨[2], hvol ▸ chain, by decide⟩
  obtain ⟨o, s₁, h₁, -, ho⟩ := exists_ok_iff.mpr <|
    (@ends_fopen s 0 (.ofChars ['b']) modeR hslot).mono (fun _ _ h => h) fun _ _ hn => hn hopen
  obtain rfl := (ho.found _ hfound).1
  exact ⟨s₀, s, s₁, h₀, rfl, h₁, fileBytes hv hcurr⟩

end twoBytes

/-- Both bytes in one call. -/
theorem delivers_iff_twoBytes : ∃ s₀ s s₁, fat12Init twoBytes = .ok () s₀ ∧
    fileInit s₀ = .ok () s ∧ doFopen (.ofChars ['b']) modeR s = .ok (some 0) s₁ ∧
      (Delivers [0x61, 0x62] [.fread 0x2000 1 2] 0 s₁ ↔
        Repeats [0x61, 0x62] [.fread 0x2000 1 2]) := by
  obtain ⟨s₀, s, s₁, h₀, hs, h₁, hfile⟩ := twoBytes.exists_opened
  exact ⟨s₀, s, s₁, h₀, hs, h₁, delivers_iff h₁ hfile _⟩

/-- One after the other: the first byte is delivered twice. -/
theorem not_delivers : ∃ s₀ s s₁, fat12Init twoBytes = .ok () s₀ ∧
    fileInit s₀ = .ok () s ∧ doFopen (.ofChars ['b']) modeR s = .ok (some 0) s₁ ∧
      FileBytes s (.ofChars ['b']) [0x61, 0x62] ∧
        ¬ Delivers [0x61, 0x62] [.fgets 0x2000 1, .fgets 0x2000 1] 0 s₁ := by
  obtain ⟨s₀, s, s₁, h₀, hs, h₁, hfile⟩ := twoBytes.exists_opened
  obtain ⟨content, hfile', hc⟩ := exists_fileBytes h₁
  obtain rfl := hfile.unique hfile'
  refine ⟨s₀, s, s₁, h₀, hs, h₁, hfile, fun h => ?_⟩
  have hsame := ((delivers_iff_of_buffer hc).mp h).same [1] 1 [] rfl 0 Nat.one_pos
  exact absurd hsame (by decide)

end AdvancedOS
