import AdvancedOS.Machine.Reach

/-!
# The stacks of children and threads

`do_fork` and `do_thread_create` copy the stack of their caller upwards by 256 bytes for each number
that has been given as an identifier, and they copy twice the frame.

* `memcpy_of_le`, `memcpy_of_lt`, `memcpy_irrelevant`: what `memcpy` leaves, copies and overwrites;
* `copiesAlways_iff`: **when a copy upwards is one for every content of the memory**;
* `CopiesStack`: the child gets the frame of its parent, and no frame of a live process changes;
* `stack_copied_iff`: **when this is so**: the frame is smaller than the distance, and nothing that
  is written lies in a frame.
-/

namespace AdvancedOS

open Function (update)

variable {m m' : Mem} {dst src a x : Word} {n j : ℕ} {k k' : Kernel} {p q i : Slot} {r : Regs}

/-! ## Copying upwards -/

theorem memcpy_of_le (h : n ≤ (x - dst).toNat) : memcpy m dst src n x = m x := by
  induction n with
  | zero => rfl
  | succ n ih =>
    rw [memcpy, Function.update_of_ne ?_, ih (Nat.le_of_succ_le h)]
    rintro rfl
    rw [add_sub_cancel_left, BitVec.toNat_ofNat] at h
    have := Nat.mod_le n (2 ^ 32)
    omega

theorem memcpy_of_lt (hn : n ≤ 2 ^ 32) (hj : j < n)
    (h : ∀ l < j, src + BitVec.ofNat 32 j ≠ dst + BitVec.ofNat 32 l) :
    memcpy m dst src n (dst + BitVec.ofNat 32 j) = m (src + BitVec.ofNat 32 j) := by
  induction n with
  | zero => cases hj
  | succ n ih =>
    rw [memcpy]
    rcases Nat.lt_succ_iff_lt_or_eq.mp hj with hlt | rfl
    · rw [Function.update_of_ne ?_, ih (Nat.le_of_succ_le hn) hlt]
      intro he
      have := congrArg BitVec.toNat (add_left_cancel he)
      rw [BitVec.toNat_ofNat, BitVec.toNat_ofNat] at this
      omega
    · rw [Function.update_self, memcpy_of_le]
      -- the byte is read outside what has been stored
      by_contra hlt
      refine h (src + BitVec.ofNat 32 j - dst).toNat (Nat.not_le.mp hlt) ?_
      rw [BitVec.ofNat_toNat, BitVec.setWidth_eq]
      bv_omega

theorem memcpy_irrelevant {d : ℕ} (hd : 0 < d) (hdn : d + n ≤ 2 ^ 32)
    (hdst : dst = src + BitVec.ofNat 32 d) (ha : (a - dst).toNat < n)
    (h : ∀ x, x ≠ a → m x = m' x) : memcpy m dst src n = memcpy m' dst src n := by
  have key : ∀ l ≤ n, ∀ x, (x ≠ a ∨ (a - dst).toNat < l) →
      memcpy m dst src l x = memcpy m' dst src l x := by
    intro l
    induction l with
    | zero => exact fun _ x hx => h x (hx.resolve_right (Nat.not_lt_zero _))
    | succ l ih =>
      intro hl x hx
      have ih := ih (Nat.le_of_succ_le hl)
      rw [memcpy, memcpy]
      by_cases hxl : x = dst + BitVec.ofNat 32 l
      · -- the byte that is read has been stored already, or is another
        rw [hxl, Function.update_self, Function.update_self]
        refine ih _ (or_iff_not_imp_left.mpr fun he => ?_)
        rw [not_not] at he
        subst hdst he
        bv_omega
      · rw [Function.update_of_ne hxl, Function.update_of_ne hxl]
        refine ih x (or_iff_not_imp_left.mpr fun hxa => ?_)
        obtain rfl := not_not.mp hxa
        have hlt := hx.resolve_left hxa
        have hne : (x - dst).toNat ≠ l := by
          rintro rfl
          apply hxl
          rw [BitVec.ofNat_toNat, BitVec.setWidth_eq, add_sub_cancel]
        omega
  funext x
  refine key n le_rfl x ?_
  by_cases hxa : x = a
  · exact .inr ha
  · exact .inl hxa

/-- Whatever is in memory, `f` copies `n` bytes and changes nothing in `S`. -/
def CopiesAlways (f : Mem → Mem) (dst src : Word) (n : ℕ) (S : Set Word) : Prop :=
  ∀ m, (∀ j < n, f m (dst + BitVec.ofNat 32 j) = m (src + BitVec.ofNat 32 j)) ∧
    ∀ a ∈ S, f m a = m a

theorem byte_ne_succ (b : BitVec 8) : b ≠ b + 1 := by
  revert b
  decide

/-- **`memcpy` of twice the frame upwards, with constants stored in `P` afterwards, copies the frame
and keeps `S`, which contains it, exactly if the frame is smaller than the distance, nothing in `S`
is stored to, and no constant is stored in the copy.** -/
theorem copiesAlways_iff {f : Mem → Mem} {P S : Set Word} {g : Word → BitVec 8} {d F : ℕ}
    (hP : ∀ m, ∀ x ∈ P, f m x = g x)
    (hf : ∀ m, ∀ x ∉ P, f m x = memcpy m dst src (2 * F % 2 ^ 32) x) (hd : 0 < d) (hd' : d < 2 ^ 16)
    (hdst : dst = src + BitVec.ofNat 32 d) (hS : ∀ j ≤ F, src + BitVec.ofNat 32 j ∈ S) :
    CopiesAlways f dst src F S ↔ F < d ∧ (∀ a ∈ S, a ∉ P ∧ 2 * F % 2 ^ 32 ≤ (a - dst).toNat) ∧
      ∀ j < F, dst + BitVec.ofNat 32 j ∉ P := by
  constructor
  · intro h
    have hSP : ∀ a ∈ S, a ∉ P := by
      intro a ha haP
      have h1 := (h fun _ => g a + 1).2 a ha
      rw [hP _ a haP] at h1
      exact byte_ne_succ _ h1
    have hlt : F < d := by
      by_contra hge
      have hge := Nat.not_lt.mp hge
      have hdS : dst ∈ S := hdst ▸ hS d hge
      -- the first byte of the copy lies in the frame
      have h1 := (h fun x => if x = dst then 1 else 0).2 dst hdS
      have h2 := (h fun x => if x = dst then 1 else 0).1 0 (hd.trans_le hge)
      have hne : src ≠ dst := by
        subst hdst
        bv_omega
      rw [BitVec.add_zero, BitVec.add_zero, h1, if_pos rfl, if_neg hne] at h2
      exact absurd h2 (by decide)
    have hN : 2 * F % 2 ^ 32 = 2 * F := Nat.mod_eq_of_lt (by omega)
    refine ⟨hlt, fun a ha => ⟨hSP a ha, ?_⟩, fun j hj hjP => ?_⟩
    · by_contra hge
      -- two memories that differ there only are made equal
      let m₀ : Mem := fun _ => 0
      have h0 := (h m₀).2 a ha
      have h1 := (h (update m₀ a 1)).2 a ha
      have heq := memcpy_irrelevant (m := m₀) hd (by omega) hdst (Nat.not_le.mp hge)
        fun x hx => (Function.update_of_ne hx 1 m₀).symm
      rw [hf _ a (hSP a ha), heq, ← hf _ a (hSP a ha), h1, Function.update_self] at h0
      exact absurd h0 (by decide)
    · have h1 := (h fun _ => g (dst + BitVec.ofNat 32 j) + 1).1 j hj
      rw [hP _ _ hjP] at h1
      exact byte_ne_succ _ h1
  · rintro ⟨hlt, hSP, hcopy⟩ m
    have hN : 2 * F % 2 ^ 32 = 2 * F := Nat.mod_eq_of_lt (by omega)
    refine ⟨fun j hj => ?_, fun a ha => ?_⟩
    · rw [hf m _ (hcopy j hj), hN]
      refine memcpy_of_lt (by omega) (by omega) fun l hl he => ?_
      subst hdst
      bv_omega
    · rw [hf m a (hSP a ha).1]
      exact memcpy_of_le (hSP a ha).2

/-! ## Frames -/

/-- The process has been created and has not exited. -/
def Process.Alive (e : Process) : Prop := e.status ≠ .new ∧ e.status ≠ .terminated

namespace Regs

/-- The addresses from `user_esp` up to `ebp`. -/
def frame (r : Regs) : Set Word := {a | r.userEsp ≤ a ∧ a ≤ r.ebp}

def frameSize (r : Regs) : ℕ := (r.ebp - r.userEsp).toNat

/-- `user_esp` of a child with the identifier `pid`, before anything is pushed. -/
def childEsp (r : Regs) (pid : Word) : Word := r.userEsp + pid * 0x100

/-- Where `do_fork` stores. -/
def forkWrites (r : Regs) (pid : Word) : Set Word :=
  {a | (a - r.childEsp pid).toNat < ((r.ebp - r.userEsp) * 2).toNat}

/-- Where `do_thread_create` pushes the argument and the return address. -/
def pushes (r : Regs) (pid : Word) : Set Word := {a | (a - (r.childEsp pid - 8)).toNat < 8}

end Regs

/-- The four bytes of `*tid`. -/
def wordAt (tid : Word) : Set Word := {a | (a - tid).toNat < 4}

/-- The frame of `p` has been copied for its child `i`, and no byte in the frame of `p` or of another
live process has changed. -/
structure CopiesStack (p i : Slot) (k k' : Kernel) : Prop where
  copied : ∀ j < (k.procList p).regImg.frameSize,
    k'.mem ((k.procList p).regImg.childEsp (k'.procList i).pid + BitVec.ofNat 32 j) =
      k.mem ((k.procList p).regImg.userEsp + BitVec.ofNat 32 j)
  frame : ∀ q, q = p ∨ (k.procList q).Alive → ∀ a ∈ (k.procList q).regImg.frame, k'.mem a = k.mem a

/-- The frames of `p` and of the live processes. -/
def Kernel.frameBytes (p : Slot) (k : Kernel) : Set Word :=
  {a | ∃ q, (q = p ∨ (k.procList q).Alive) ∧ a ∈ (k.procList q).regImg.frame}

/-- The kernel with other contents of the memory. -/
@[simps -fullyApplied]
def Kernel.setMem (mem : Mem) (k : Kernel) : Kernel := { k with mem := mem }

/-! ### What the calls store -/

theorem write_of_lt {w : Word} (h : x ∈ wordAt a) : m.write a w x = m'.write a w x := by
  unfold Mem.write
  split_ifs with h0 h1 h2 h3
  · rfl
  · rfl
  · rfl
  · rfl
  · have hx : (x - a).toNat < 4 := h
    bv_omega

theorem write_of_notMem {w : Word} (h : x ∉ wordAt a) : m.write a w x = m x := by
  have hx : ¬ (x - a).toNat < 4 := h
  unfold Mem.write
  rw [if_neg, if_neg, if_neg, if_neg]
  all_goals
    rintro rfl
    bv_omega

theorem mem_pushes {pid : Word} : x ∈ r.pushes pid ↔
    x ∈ wordAt (r.childEsp pid - 4) ∨ x ∈ wordAt (r.childEsp pid - 4 - 4) := by
  change (x - (r.childEsp pid - 8)).toNat < 8 ↔
    (x - (r.childEsp pid - 4)).toNat < 4 ∨ (x - (r.childEsp pid - 4 - 4)).toNat < 4
  generalize r.childEsp pid = b
  bv_omega

theorem frame_add {j : ℕ} (hr : r.userEsp ≤ r.ebp) (hj : j ≤ r.frameSize) :
    r.userEsp + BitVec.ofNat 32 j ∈ r.frame := by
  have hj' : j ≤ (r.ebp - r.userEsp).toNat := hj
  change r.userEsp ≤ r.userEsp + BitVec.ofNat 32 j ∧ r.userEsp + BitVec.ofNat 32 j ≤ r.ebp
  bv_omega

theorem double_toNat (w : Word) : (w * 2).toNat = 2 * w.toNat % 2 ^ 32 := by
  rw [BitVec.toNat_mul, Nat.mul_comm]
  rfl

/-! ### The two calls -/

theorem currPid_bounds (hw : k.sched.Wf) (hi : freeSlot k.procList = some i) :
    0 < (k.currPid + 1).toNat ∧ (k.currPid + 1).toNat ≤ MAX_PROCESS := by
  have h := (hw.spawn (freeSlot_eq_some hi) (hw.parent i)).currPid_le
  have hs : (k.currPid + 1).toNat = k.currPid.toNat + 1 := hw.currPid_succ
  exact ⟨by omega, h⟩

theorem distance_bounds (hw : k.sched.Wf) (hi : freeSlot k.procList = some i) :
    0 < ((k.currPid + 1) * 0x100).toNat ∧ ((k.currPid + 1) * 0x100).toNat < 2 ^ 16 := by
  obtain ⟨hpos, hle⟩ := currPid_bounds hw hi
  have hM : MAX_PROCESS = 20 := rfl
  have hd : ((k.currPid + 1) * 0x100).toNat = (k.currPid + 1).toNat * 256 := by
    rw [BitVec.toNat_mul]
    apply Nat.mod_eq_of_lt
    show (k.currPid + 1).toNat * 256 < 2 ^ 32
    omega
  omega

variable (hw : k.sched.Wf) (hp : k.currProc = some p) (hi : freeSlot k.procList = some i)
  (hr : (k.procList p).regImg.userEsp ≤ (k.procList p).regImg.ebp)

include hw hi hr in
theorem copiesAlways_frame {f : Mem → Mem} {P : Set Word} {g : Word → BitVec 8}
    (hP : ∀ m, ∀ x ∈ P, f m x = g x)
    (hf : ∀ m, ∀ x ∉ P, f m x = forkMem (k.procList p).regImg (k.currPid + 1) m x) :
    CopiesAlways f ((k.procList p).regImg.childEsp (k.currPid + 1))
        (k.procList p).regImg.userEsp (k.procList p).regImg.frameSize (k.frameBytes p) ↔
      (k.procList p).regImg.frameSize < ((k.currPid + 1) * 0x100).toNat ∧
      (∀ a ∈ k.frameBytes p, a ∉ P ∧ a ∉ (k.procList p).regImg.forkWrites (k.currPid + 1)) ∧
      ∀ j < (k.procList p).regImg.frameSize,
        (k.procList p).regImg.childEsp (k.currPid + 1) + BitVec.ofNat 32 j ∉ P := by
  obtain ⟨hpos, hlt⟩ := distance_bounds hw hi
  have hdst : (k.procList p).regImg.childEsp (k.currPid + 1) =
      (k.procList p).regImg.userEsp + BitVec.ofNat 32 ((k.currPid + 1) * 0x100).toNat := by
    rw [BitVec.ofNat_toNat, BitVec.setWidth_eq]
    rfl
  have hS : ∀ j ≤ (k.procList p).regImg.frameSize,
      (k.procList p).regImg.userEsp + BitVec.ofNat 32 j ∈ k.frameBytes p :=
    fun j hj => ⟨p, .inl rfl, frame_add hr hj⟩
  have hf' : ∀ m, ∀ x ∉ P, f m x = memcpy m ((k.procList p).regImg.childEsp (k.currPid + 1))
      (k.procList p).regImg.userEsp (2 * (k.procList p).regImg.frameSize % 2 ^ 32) x := by
    intro m x hx
    rw [hf m x hx, forkMem, double_toNat]
    rfl
  rw [copiesAlways_iff hP hf' hpos hlt hdst hS]
  refine and_congr_right fun _ => and_congr_left fun _ => forall₂_congr fun a _ =>
    and_congr_right fun _ => ?_
  change _ ↔ ¬ (a - _).toNat < _
  rw [double_toNat, Nat.not_lt]
  rfl

theorem copiesStack_iff {mem : Mem} {f : Mem → Mem} (hm : k'.mem = f mem)
    (hpid : (k'.procList i).pid = k.currPid + 1) : CopiesStack p i (k.setMem mem) k' ↔
      (∀ j < (k.procList p).regImg.frameSize,
        f mem ((k.procList p).regImg.childEsp (k.currPid + 1) + BitVec.ofNat 32 j) =
          mem ((k.procList p).regImg.userEsp + BitVec.ofNat 32 j)) ∧
      ∀ a ∈ k.frameBytes p, f mem a = mem a := by
  constructor
  · rintro ⟨h1, h2⟩
    rw [hm, hpid] at h1
    rw [hm] at h2
    exact ⟨h1, fun a ⟨q, hq, ha⟩ => h2 q hq a ha⟩
  · rintro ⟨h1, h2⟩
    refine ⟨?_, fun q hq a ha => ?_⟩
    · rw [hm, hpid]
      exact h1
    · rw [hm]
      exact h2 a ⟨q, hq, ha⟩

include hw hp hi hr in
/-- Copying the stack of the caller for a child. -/
theorem doFork_copies_iff :
    (∀ mem, ∃ w k', doFork (k.setMem mem) = .ok w k' ∧ CopiesStack p i (k.setMem mem) k') ↔
      (k.procList p).regImg.frameSize < ((k.currPid + 1) * 0x100).toNat ∧
      ∀ a ∈ k.frameBytes p, a ∉ (k.procList p).regImg.forkWrites (k.currPid + 1) := by
  have h := copiesAlways_frame (P := ∅) (g := fun _ => 0) hw hi hr
    (f := forkMem (k.procList p).regImg (k.currPid + 1)) (fun _ x hx => hx.elim) fun _ _ _ => rfl
  simp only [Set.mem_empty_iff_false, not_false_iff, true_and, implies_true, and_true] at h
  rw [← h]
  refine forall_congr' fun mem => ?_
  have hp' : (k.setMem mem).currProc = some p := hp
  have hi' : freeSlot (k.setMem mem).procList = some i := hi
  rw [exists_ok_iff, ends_doFork hp']
  simp only [hi', reduceCtorEq, false_implies, Option.some.injEq, forall_eq', true_and]
  exact copiesStack_iff (f := forkMem (k.procList p).regImg (k.currPid + 1)) rfl
    (by simp [Kernel.spawn])

include hw hp hi hr in
theorem doThreadCreate_copies_iff (tid func args : Word) :
    (∀ mem, ∃ w k', doThreadCreate tid func args (k.setMem mem) = .ok w k' ∧
        CopiesStack p i (k.setMem mem) k') ↔
      (k.procList p).regImg.frameSize < ((k.currPid + 1) * 0x100).toNat ∧
      (∀ a ∈ k.frameBytes p, a ∉ (k.procList p).regImg.pushes (k.currPid + 1) ∪ wordAt tid ∧
        a ∉ (k.procList p).regImg.forkWrites (k.currPid + 1)) ∧
      ∀ j < (k.procList p).regImg.frameSize,
        (k.procList p).regImg.childEsp (k.currPid + 1) + BitVec.ofNat 32 j ∉ wordAt tid := by
  let f := threadMem (k.procList p).regImg (k.currPid + 1) args k.pthreadReturn tid
  let P := (k.procList p).regImg.pushes (k.currPid + 1) ∪ wordAt tid
  have hP : ∀ m, ∀ x ∈ P, f m x = f (fun _ => 0) x := by
    intro m x hx
    by_cases ht : x ∈ wordAt tid
    · exact write_of_lt ht
    have hpush := mem_pushes.mp (hx.resolve_right ht)
    refine (write_of_notMem ht).trans (Eq.trans ?_ (write_of_notMem ht).symm)
    by_cases h4 : x ∈ wordAt ((k.procList p).regImg.childEsp (k.currPid + 1) - 4 - 4)
    · exact write_of_lt h4
    · refine (write_of_notMem h4).trans (Eq.trans ?_ (write_of_notMem h4).symm)
      exact write_of_lt (hpush.resolve_right h4)
  have hf : ∀ m, ∀ x ∉ P, f m x = forkMem (k.procList p).regImg (k.currPid + 1) m x := by
    intro m x hx
    obtain ⟨hpush, ht⟩ := not_or.mp hx
    obtain ⟨h0, h4⟩ := not_or.mp (mem_pushes.not.mp hpush)
    exact (write_of_notMem ht).trans ((write_of_notMem h4).trans (write_of_notMem h0))
  have h := copiesAlways_frame hw hi hr hP hf
  have hrun : (∀ mem, ∃ w k', doThreadCreate tid func args (k.setMem mem) = .ok w k' ∧
      CopiesStack p i (k.setMem mem) k') ↔ CopiesAlways f
        ((k.procList p).regImg.childEsp (k.currPid + 1)) (k.procList p).regImg.userEsp
        (k.procList p).regImg.frameSize (k.frameBytes p) := by
    refine forall_congr' fun mem => ?_
    have hp' : (k.setMem mem).currProc = some p := hp
    have hi' : freeSlot (k.setMem mem).procList = some i := hi
    rw [exists_ok_iff, ends_doThreadCreate tid func args hp']
    simp only [hi', reduceCtorEq, false_implies, Option.some.injEq, forall_eq', true_and]
    exact copiesStack_iff (f := f) rfl (by simp [Kernel.spawn])
  rw [hrun, h]
  refine and_congr_right fun hlt => and_congr_right fun _ => forall₂_congr fun j hj => ?_
  -- what is pushed lies below the copy
  have hbelow : (k.procList p).regImg.childEsp (k.currPid + 1) + BitVec.ofNat 32 j ∉
      (k.procList p).regImg.pushes (k.currPid + 1) := by
    have hd := (distance_bounds hw hi).2
    change ¬ (_ + BitVec.ofNat 32 j - (_ - 8)).toNat < 8
    generalize (k.procList p).regImg.childEsp (k.currPid + 1) = b
    bv_omega
  exact ⟨fun hn ht => hn (.inr ht), fun hn hP => hP.elim hbelow hn⟩

/-- **In every reachable state, for every image of the caller with `user_esp ≤ ebp`: whatever the
memory holds, `do_fork` copies the frame for the child and changes no frame of its caller or of a
live process exactly if the frame is smaller than the distance and none of the bytes that are stored
lies in such a frame. For `do_thread_create` these bytes include the two words that are pushed and
`*tid`, and `*tid` must not lie in the copy either.** -/
theorem stack_copied_iff {m : Machine} (h : Reachable anyStep m) (hp : m.k.currProc = some p)
    (a : Regs) (hr : a.userEsp ≤ a.ebp) (hi : freeSlot (m.k.save p a).procList = some i) :
    ((∀ mem, ∃ w k', doFork ((m.k.save p a).setMem mem) = .ok w k' ∧
        CopiesStack p i ((m.k.save p a).setMem mem) k') ↔
      (savedImage a).frameSize < ((m.k.currPid + 1) * 0x100).toNat ∧
      ∀ x ∈ (m.k.save p a).frameBytes p, x ∉ (savedImage a).forkWrites (m.k.currPid + 1)) ∧
    ∀ tid func args,
      ((∀ mem, ∃ w k', doThreadCreate tid func args ((m.k.save p a).setMem mem) = .ok w k' ∧
          CopiesStack p i ((m.k.save p a).setMem mem) k') ↔
        (savedImage a).frameSize < ((m.k.currPid + 1) * 0x100).toNat ∧
        (∀ x ∈ (m.k.save p a).frameBytes p,
          x ∉ (savedImage a).pushes (m.k.currPid + 1) ∪ wordAt tid ∧
            x ∉ (savedImage a).forkWrites (m.k.currPid + 1)) ∧
        ∀ j < (savedImage a).frameSize,
          (savedImage a).childEsp (m.k.currPid + 1) + BitVec.ofNat 32 j ∉ wordAt tid) := by
  have hw : (m.k.save p a).sched.Wf := by
    rw [sched_save]
    exact h.wf.s
  have himg : ((m.k.save p a).procList p).regImg = savedImage a := by simp [Kernel.save]
  have hr' : ((m.k.save p a).procList p).regImg.userEsp ≤
      ((m.k.save p a).procList p).regImg.ebp := by
    rw [himg]
    exact hr
  have h1 := doFork_copies_iff hw (show (m.k.save p a).currProc = some p from hp) hi hr'
  have h2 := fun tid func args => doThreadCreate_copies_iff hw
    (show (m.k.save p a).currProc = some p from hp) hi hr' tid func args
  rw [himg] at h1
  simp only [himg] at h2
  exact ⟨h1, h2⟩

/-- A program with 16 bytes in its frame may fork. -/
theorem stack_copied_iff_first : ∃ (m : Machine) (a : Regs), Reachable anyStep m ∧
    ((∀ mem, ∃ w k', doFork ((m.k.save 0 a).setMem mem) = .ok w k' ∧
        CopiesStack 0 1 ((m.k.save 0 a).setMem mem) k') ↔
      (savedImage a).frameSize < ((m.k.currPid + 1) * 0x100).toNat ∧
      ∀ x ∈ (m.k.save 0 a).frameBytes 0, x ∉ (savedImage a).forkWrites (m.k.currPid + 1)) := by
  obtain ⟨m, hm, hp, hi⟩ := RunsTo.of_exec (G := anyStep.on)
    (P := fun m => m.k.currProc = some 0 ∧
      freeSlot (m.k.save 0 { userEsp := 0x2FFE0, ebp := 0x2FFF0 }).procList = some 1)
    [.load, .schedule] (by decide +kernel) (by decide +kernel)
  exact ⟨m, _, hm, (stack_copied_iff hm hp _ (by decide) hi).1⟩

@[simp] theorem spawn_mem (parent : Option Slot) (t : ℕ) : (k.spawn i r parent t m).mem = m := rfl

theorem forkMem_first {pid : Word} (h : 0 < ((r.ebp - r.userEsp) * 2).toNat) :
    forkMem r pid m (r.childEsp pid) = m r.userEsp := by
  have hc := @memcpy_of_lt m (r.childEsp pid) r.userEsp _ 0 (BitVec.isLt _).le h
    fun l hl => absurd hl (Nat.not_lt_zero l)
  rwa [BitVec.add_zero, BitVec.add_zero] at hc

/-- A program with 512 bytes in its frame forks its first child: the last byte of its frame is
overwritten with the first. -/
theorem not_stack_copied : ∃ (m : Machine) (a : Regs) (mem : Mem), Reachable anyStep m ∧
    m.k.currProc = some 0 ∧ a.userEsp ≤ a.ebp ∧
      ∃ w k', doFork ((m.k.save 0 a).setMem mem) = .ok w k' ∧
        ¬ CopiesStack 0 1 ((m.k.save 0 a).setMem mem) k' := by
  let a : Regs := { userEsp := 0x2F000, ebp := 0x2F200 }
  obtain ⟨m, hm, hp, hi, hpid⟩ := RunsTo.of_exec (G := anyStep.on)
    (P := fun m => m.k.currProc = some 0 ∧ freeSlot (m.k.save 0 a).procList = some 1 ∧
      m.k.currPid = 1) [.load, .schedule] (by decide +kernel) (by decide +kernel)
  let mem : Mem := fun x => if x = 0x2F200 then 1 else 0
  refine ⟨m, a, mem, hm, hp, by decide, ?_⟩
  let k := (m.k.save 0 a).setMem mem
  have hends : Ends doFork k (fun _ k' => ¬ CopiesStack 0 1 k k') fun _ _ => False := by
    rw [ends_doFork (k := k) (p := 0) hp]
    refine ⟨fun hn => ?_, fun i _ hc => ?_⟩
    · rw [show freeSlot k.procList = some 1 from hi] at hn
      cases hn
    · have himg : (k.procList 0).regImg = savedImage a := by simp [k, Kernel.save]
      have hpid' : k.currPid + 1 = 2 := congrArg (· + 1) hpid
      have hframe := hc.frame 0 (.inl rfl) ((savedImage a).childEsp 2)
        (by rw [himg]; exact ⟨by decide, by decide⟩)
      have hmem : k.mem = mem := rfl
      rw [spawn_mem, himg, hpid', forkMem_first (by decide), hmem] at hframe
      exact absurd hframe (by decide)
  obtain ⟨w, k', hk, hn⟩ := exists_ok_iff.mpr hends
  exact ⟨w, k', hk, hn⟩

end AdvancedOS
