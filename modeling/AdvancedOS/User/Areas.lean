import AdvancedOS.User.Loader
import AdvancedOS.User.Store
import AdvancedOS.User.Torn

/-!
# The areas of loaded programs

* `Live`, `Apart`: the processes that were created for programs, and what the areas of the live ones
  have to do with each other;
* `SoundToken`, `noneRevived`: what a program has to be like to be loaded, and what a process that
  has terminated must not do;
* `SoundToken.no_out`: **while an `.out` program lives nothing can be loaded**, since the stack of the
  kernel is in its area;
* `Placed`, `Housed`: **the invariant: every live process is in a place of its own**;
* `apart_run`: **in every run of sound steps the areas are apart, and loading a program changes no
  byte of one.**
-/

namespace AdvancedOS

variable {s s' : Sys} {junk : Junk} {name ext : CStr} {c c' : Creation} {x y : Loader}
  {foot : Footprint} {left : Mem}

/-- The process has not terminated. -/
def Sys.Live (s : Sys) (c : Creation) : Prop := (s.k.procList c.slot).status ≠ .terminated

/-- The areas of live processes are disjoint, and every process starts in the place of its
program. -/
structure Sys.Apart (s : Sys) : Prop where
  disjoint : s.created.Pairwise fun c c' => s.Live c → s.Live c' →
    ∀ a ∈ area c.addr, a ∉ area c'.addr
  entry : ∀ c ∈ s.created, c.addr ∈ span c.base c.size

/-- The programs with an address in the table. -/
def Known (name : CStr) : Prop :=
  name = prgName '1' ∨ name = prgName '2' ∨ name = prgName '3' ∨ name = prgName '4'

/-- What `exec_user_prg` can be given. -/
structure SoundToken (foot : Footprint) (s : Sys) (junk : Junk) (name : CStr) : Prop where
  short : name.length < 20
  extension : name.after 0x2E ≠ none
  /-- No live process has memory of the kernel in its area. -/
  kernel : ∀ c ∈ s.created, s.Live c → ∀ z ∈ area c.addr, foot.owns z = false
  /-- Neither the program nor the address that it returns to is stored over the kernel. -/
  clear : ∀ ext addr base size, name.after 0x2E = some ext →
    Loaded junk s.fs name ext (addr, base, size) →
      foot.hit base size = false ∧ foot.hit (addr + PROC_SIZE - 4) 4 = false
  /-- A `.com` file has an address, is not loaded to where it lives, and does not reach up to a live
  process. -/
  com : name.after 0x2E = some comExt → findRoot s.fs.rootDir name ≠ none → Known name ∧
    ∃ cs, Found (some (comAddr junk.addr name)) s.fs name cs ∧ ∀ c ∈ s.created, s.Live c →
      c.name ≠ name ∧ (comAddr junk.addr name ≤ c.addr →
        (comAddr junk.addr name).toNat + cs.length * FAT_SECTOR_SIZE ≤ c.addr.toNat)
  /-- An `.out` file can be loaded, starts in its segment, and no other one lives. -/
  out : name.after 0x2E = some outExt → findRoot s.fs.rootDir name ≠ none →
    ∃ cs, Found none s.fs name cs ∧ Elf.Fits junk.header (programImage s.fs cs) ∧
      Elf.entry (programImage s.fs cs) ∈
        span outAddr (Elf.loadSize junk.header (programImage s.fs cs)) ∧
      ∀ c ∈ s.created, s.Live c → c.name.after 0x2E ≠ some outExt

/-- A process that has terminated does not begin to wait. -/
def noneRevived : Guard := fun x c => ∀ p, x.s.curr = some p → x.s.status p = .terminated →
  ∀ call, c = some call → ¬ call.Waits ∧ ∀ i : SemId, call = .semP i → 0 < (x.s.sem i).val

/-- What the steps of a run meet. -/
def SoundAct (foot : Footprint) (x : Loader) : Act → Prop
  | .machine l => noneRevived.on x.machine l
  | .exec junk name _ _ => SoundToken foot x.sys junk name

/-! ## Who has terminated stays so -/

section

variable {u : Sched} {m : Mode} {p i : Slot} {v w : View} {call : Call}

theorem Seeks.terminated (h : Seeks u m v) (hi : u.status i = .terminated) :
    v.s.status i = .terminated := by
  cases h with
  | nobody => exact hi
  | user hq | lost hq => exact (promote_pick hq (by decide) (by decide)).mpr hi

theorem update_terminated {t : Slot → Status} {st : Status} (hi : t i = .terminated)
    (hp : i = p → st = .terminated) : Function.update t p st i = .terminated := by
  by_cases h : i = p
  · rw [h, Function.update_self, hp h]
  · rwa [Function.update_of_ne h]

theorem Serves.terminated (h : Serves p u call v) (hi : u.status i = .terminated)
    (hg : u.status p = .terminated →
      ¬ call.Waits ∧ ∀ j : SemId, call = .semP j → 0 < (u.sem j).val) :
    v.s.status i = .terminated := by
  cases h with
  | quiet | file | full | noSem | gotSem | freed | badFreeSem | badSemP | badSemV | taken
  | released | headless | missed => exact hi
  | spawned _ hj =>
    refine update_terminated hi ?_
    rintro rfl
    rw [hj] at hi
    cases hi
  | waits hw hy =>
    refine hy.terminated (update_terminated hi ?_)
    rintro rfl
    exact absurd hw (hg hi).1
  | ends => exact update_terminated hi fun _ => rfl
  | @endsWaking _ q _ _ _ hq hy =>
    have hend : (u.ended p).status i = .terminated := update_terminated hi fun _ => rfl
    refine hy.terminated (update_terminated hend ?_)
    rintro rfl
    rw [hq] at hend
    cases hend
  | leaves => exact update_terminated hi fun _ => rfl
  | blocked hv hy =>
    refine hy.terminated (update_terminated hi ?_)
    rintro rfl
    exact absurd hv ((hg hi).2 _ rfl).not_ge
  | wakes _ _ hh hy =>
    refine hy.terminated (update_terminated hi ?_)
    rintro rfl
    rw [hh] at hi
    cases hi

theorem Moves.terminated {o : Option Call} (h : Moves v o w) (hg : noneRevived v o)
    (hi : v.s.status i = .terminated) : w.s.status i = .terminated := by
  cases h with
  | served _ hp hy => exact hy.terminated hi fun ht => hg _ hp ht _ rfl
  | finished | idle | failed => exact hi
  | sought _ hy => exact hy.terminated hi
  | created hj =>
    refine update_terminated hi ?_
    rintro rfl
    rw [hj] at hi
    cases hi

end

/-! ## Places -/

/-- Where a program lives: a `.com` program of the table at its address, an `.out` program in the
sixth area. -/
inductive Placed (c : Creation) : Prop
  | com : Known c.name → c.addr = comAddr 0 c.name → c.base = c.addr → 0 < c.size → Placed c
  | out : c.name.after 0x2E = some outExt → c.base = outAddr → c.size ≤ BIN_SIZE →
      c.addr ∈ span outAddr c.size → Placed c

/-- Two programs do not share a place. -/
def Elsewhere (c c' : Creation) : Prop :=
  c.name ≠ c'.name ∧ (c.name.after 0x2E = some outExt → c'.name.after 0x2E ≠ some outExt)

/-- Every live process is in a place of its own. -/
structure Sys.Housed (s : Sys) : Prop where
  placed : ∀ c ∈ s.created, Placed c
  alone : s.created.Pairwise fun c c' => s.Live c → s.Live c' → Elsewhere c c'

theorem Known.comAddr_eq (h : Known name) (w : Word) : comAddr w name = comAddr 0 name := by
  rcases h with rfl | rfl | rfl | rfl <;> rfl

theorem Known.bounds (h : Known name) :
    0x20000 ≤ (comAddr 0 name).toNat ∧ (comAddr 0 name).toNat ≤ 0x50000 := by
  rcases h with rfl | rfl | rfl | rfl <;> decide

theorem Known.apart {name' : CStr} (h : Known name) (h' : Known name') (hne : name ≠ name') :
    (comAddr 0 name).toNat + 0x10000 ≤ (comAddr 0 name').toNat ∨
      (comAddr 0 name').toNat + 0x10000 ≤ (comAddr 0 name).toNat := by
  revert hne
  rcases h with rfl | rfl | rfl | rfl <;> rcases h' with rfl | rfl | rfl | rfl <;> decide

theorem out_bounds {a : Word} {n : ℕ} (hn : n ≤ BIN_SIZE) (h : a ∈ span outAddr n) :
    0x80000 ≤ a.toNat ∧ a.toNat < 0x90000 := by
  have hn' : n ≤ 15360 := hn
  have hout : outAddr.toNat = 0x80000 := by decide
  have ha := (mem_span_iff (by omega)).mp h
  omega

/-- The area of an `.out` program contains the top of the stack. -/
theorem top_mem_area {a : Word} {n : ℕ} (hn : n ≤ BIN_SIZE) (h : a ∈ span outAddr n) :
    STACK_TOP - 1 ∈ area a := by
  have hb := out_bounds hn h
  have htop : (STACK_TOP - 1).toNat = 0x8FFFF := by decide
  have hsize : PROC_SIZE.toNat = 0x10000 := rfl
  exact (mem_span_iff (by omega)).mpr (by omega)

theorem area_disjoint {a b : Word} (h : a.toNat + 0x10000 ≤ b.toNat)
    (hb : b.toNat + 0x10000 ≤ 2 ^ 32) {z : Word} : z ∈ area a → z ∉ area b :=
  span_disjoint h hb

/-- **The areas of programs in different places are disjoint.** -/
theorem Placed.disjoint (h : Placed c) (h' : Placed c') (he : Elsewhere c c') {z : Word}
    (hz : z ∈ area c.addr) : z ∉ area c'.addr := by
  cases h with
  | com hk ha =>
    have hb := hk.bounds
    rw [← ha] at hb
    cases h' with
    | com hk' ha' =>
      have hb' := hk'.bounds
      rw [← ha'] at hb'
      have hsep := hk.apart hk' he.1
      rw [← ha, ← ha'] at hsep
      rcases hsep with hsep | hsep
      · exact area_disjoint hsep (by omega) hz
      · exact fun hz' => area_disjoint hsep (by omega) hz' hz
    | out _ _ hn hm =>
      have hb' := out_bounds hn hm
      exact area_disjoint (by omega) (by omega) hz
  | out hext _ hn hm =>
    have hb := out_bounds hn hm
    cases h' with
    | com hk' ha' =>
      have hb' := hk'.bounds
      rw [← ha'] at hb'
      exact fun hz' => area_disjoint (by omega) (by omega) hz' hz
    | out hext' => exact absurd hext' (he.2 hext)

theorem Placed.bounds (h : Placed c) : 0x20000 ≤ c.addr.toNat ∧ c.addr.toNat < 0x90000 := by
  cases h with
  | com hk ha =>
    have hb := hk.bounds
    rw [← ha] at hb
    omega
  | out _ _ hn hm =>
    have hb := out_bounds hn hm
    omega

/-- A process that lives below the place of another program of the table ends before it. -/
theorem Placed.below (h : Placed c) (hk : Known name) (hne : c.name ≠ name)
    (hlt : c.addr.toNat < (comAddr 0 name).toNat) :
    c.addr.toNat + 0x10000 ≤ (comAddr 0 name).toNat := by
  cases h with
  | com hkc ha =>
    have hsep := hkc.apart hk hne
    rw [← ha] at hsep
    omega
  | out _ _ hn hm =>
    have hb := hk.bounds
    have hbc := out_bounds hn hm
    omega

theorem Placed.entry (h : Placed c) : c.addr ∈ span c.base c.size := by
  cases h with
  | com _ _ hb hs =>
    rw [hb]
    exact self_mem_span hs
  | out _ hb _ hm => rwa [hb]

/-- **While an `.out` program lives nothing can be loaded.** -/
theorem SoundToken.no_out (hs : s.Housed) (hd : 0 < foot.depth) (h : SoundToken foot s junk name)
    (hc : c ∈ s.created) (hl : s.Live c) : ¬ c.base = outAddr := by
  intro hb
  cases hs.placed c hc with
  | com hk ha hba =>
    have hbounds := hk.bounds
    have hout : outAddr.toNat = 0x80000 := by decide
    rw [← ha, ← hba, hb] at hbounds
    omega
  | out _ _ hn hm =>
    have hfree := h.kernel c hc hl _ (top_mem_area hn hm)
    rw [Footprint.owns, sub_self, Bool.or_eq_false_iff] at hfree
    exact absurd hd (of_decide_eq_false hfree.2)

theorem Sys.Housed.apart (h : s.Housed) : s.Apart where
  disjoint := h.alone.imp_of_mem fun hc hc' he hl hl' _ =>
    (h.placed _ hc).disjoint (h.placed _ hc') (he hl hl')
  entry c hc := (h.placed c hc).entry

/-! ## Loading a program -/

section

variable {addr base : Word} {size : ℕ}

/-- **A program that is loaded gets a place of its own.** -/
theorem SoundToken.placed (h : SoundToken foot s junk name) (hext : name.after 0x2E = some ext)
    (hl : Loaded junk s.fs name ext (addr, base, size)) (i : Slot) :
    Placed ⟨name, i, addr, base, size⟩ ∧
      ∀ c ∈ s.created, s.Live c → Elsewhere c ⟨name, i, addr, base, size⟩ := by
  have hne : comExt ≠ outExt := by decide
  cases hl with
  | @com cs hcom hf =>
    obtain ⟨i', hi', hchain, -⟩ := hf
    obtain ⟨hk, cs', -, hlive⟩ := h.com (hcom ▸ hext) (hi' ▸ Option.some_ne_none _)
    refine ⟨.com hk (hk.comAddr_eq _) rfl ?_, fun c hc hl => ⟨(hlive c hc hl).1, fun _ hout => ?_⟩⟩
    · exact Nat.mul_pos (List.length_pos_of_ne_nil hchain.ne_nil) (by decide)
    · rw [hext, hcom] at hout
      exact hne (Option.some.inj hout)
  | @out cs hout hf hfits =>
    obtain ⟨i', hi', -⟩ := id hf
    obtain ⟨cs', hf', -, hentry, hlive⟩ := h.out (hout ▸ hext) (hi' ▸ Option.some_ne_none _)
    cases hf.unique hf'
    refine ⟨.out (hout ▸ hext) rfl hfits.loadSize_le hentry, fun c hc hl => ⟨?_, fun ho => ?_⟩⟩
    · rintro rfl
      exact hlive c hc hl (hout ▸ hext)
    · exact absurd ho (hlive c hc hl)

/-- A `.com` file is not read over a live process. -/
theorem SoundToken.com_notMem {cs : List FatIdx} (h : SoundToken foot s junk name)
    (hext : name.after 0x2E = some comExt) (hf : Found (some (comAddr junk.addr name)) s.fs name cs)
    (hc : c ∈ s.created) (hlive : s.Live c) (hp : Placed c) {z : Word} (hz : z ∈ area c.addr) :
    z ∉ span (comAddr junk.addr name) (cs.length * FAT_SECTOR_SIZE) := by
  obtain ⟨i, hi, hchain, -⟩ := id hf
  obtain ⟨hk, cs', hf', hreach⟩ := h.com hext (hi ▸ Option.some_ne_none _)
  cases hf.unique hf'
  obtain ⟨hne, hreach⟩ := hreach c hc hlive
  have hlow := hp.bounds
  have hsize : PROC_SIZE.toNat = 0x10000 := rfl
  by_cases hle : comAddr junk.addr name ≤ c.addr
  · exact fun hspan => span_disjoint (hreach hle) (by omega) hspan hz
  · have hbase := hk.comAddr_eq junk.addr
    have hlt : c.addr.toNat < (comAddr junk.addr name).toNat := not_le.mp hle
    have hb := hk.bounds
    rw [hbase] at hlt ⊢
    have hsep := hp.below hk hne hlt
    have hcs : cs.length ≤ FAT_NUM_ENTRY :=
      hchain.nodup.length_le_card.trans_eq (Fintype.card_fin _)
    have hentries : FAT_NUM_ENTRY * FAT_SECTOR_SIZE = 0x180000 := by decide
    have hlen := Nat.mul_le_mul_right FAT_SECTOR_SIZE hcs
    exact fun hspan => span_disjoint (a := c.addr) hsep (by omega) hz hspan

/-- The segment of an `.out` file is not copied over a live process. -/
theorem out_notMem {n : ℕ} (hn : n ≤ BIN_SIZE) (hp : Placed c)
    (hno : c.name.after 0x2E ≠ some outExt) {z : Word} (hz : z ∈ area c.addr) :
    z ∉ span outAddr n := by
  have hbin : BIN_SIZE = 15360 := rfl
  have hsize : PROC_SIZE.toNat = 0x10000 := rfl
  have houtAddr : outAddr.toNat = 0x80000 := by decide
  cases hp with
  | com hk ha =>
    have hb := hk.bounds
    rw [← ha] at hb
    exact fun hspan => span_disjoint (a := c.addr) (by omega) (by omega) hz hspan
  | out hext => exact absurd hext hno

/-- **Nothing is stored in the area of a live process.** -/
theorem SoundToken.notMem (h : SoundToken foot s junk name) (hext : name.after 0x2E = some ext)
    (hl : Loaded junk s.fs name ext (addr, base, size)) (hc : c ∈ s.created) (hlive : s.Live c)
    (hp : Placed c) {z : Word} (hz : z ∈ area c.addr) :
    z ∉ driveBuffer ∪ span base size ∪ area addr := by
  obtain ⟨hnew, helse⟩ := h.placed hext hl 0
  have he := helse c hc hlive
  have hlow := hp.bounds
  have hsize : PROC_SIZE.toNat = 0x10000 := rfl
  rintro ((hbuf | hspan) | harea)
  · have htmp : TMP_USER_ADDR.toNat + FAT_SECTOR_SIZE ≤ c.addr.toNat :=
      le_trans (by decide) hlow.1
    exact span_disjoint htmp (by omega) hbuf hz
  · cases hl with
    | com hcom hf => exact h.com_notMem (hcom ▸ hext) hf hc hlive hp hz hspan
    | out hout _ hfits =>
      exact out_notMem hfits.loadSize_le hp (fun hext' => he.2 hext' (hout ▸ hext)) hz hspan
  · exact hp.disjoint hnew he hz harea

end

/-- A further program has been loaded, or it has not. -/
structure Sys.Lodges (s s' : Sys) : Prop where
  final : ∀ i, (s.k.procList i).status = .terminated → (s'.k.procList i).status = .terminated
  kept : ∀ c ∈ s.created, s.Live c → ∀ z ∈ area c.addr, s'.k.mem z = s.k.mem z
  created : s'.created = s.created ∨ ∃ c, s'.created = s.created ++ [c] ∧ Placed c ∧
    (∀ c' ∈ s.created, s.Live c' → Elsewhere c' c) ∧
    (s'.k.procList c.slot).regImg.eip = c.addr

theorem Sys.Lodges.refl (s : Sys) : s.Lodges s := ⟨fun _ h => h, fun _ _ _ _ _ => rfl, .inl rfl⟩

/-- Nothing is loaded for a file that is not there, or is not a program. -/
theorem ends_loadProgram_absent (hext : name.after 0x2E = some ext)
    (h : findRoot s.fs.rootDir name = none ∨ ext ≠ comExt ∧ ext ≠ outExt) :
    Ends (loadProgram junk name) s (fun _ s' => s' = s) fun _ s' => s' = s := by
  have hfile : ∀ dst, findRoot s.fs.rootDir name = none →
      Ends (loadFile dst name) s (fun o s' => o = none ∧ s' = s) fun _ s' => s' = s := by
    intro dst hn
    simp only [loadFile, ends_bind, ends_get, hn, ends_pure, and_self]
  have hread : Ends (readProgram junk name ext) s (fun o s' => o = none ∧ s' = s)
      fun _ s' => s' = s := by
    unfold readProgram
    rw [ends_ite, ends_ite]
    refine ⟨fun hcom => ?_, fun hcom => ⟨fun hout => ?_, fun _ => (ends_pure _).mpr ⟨rfl, rfl⟩⟩⟩
    · rw [ends_bind]
      refine (hfile _ (h.resolve_right fun h => h.1 hcom)).mono ?_ fun _ _ h => h
      rintro o s' ⟨rfl, rfl⟩
      exact (ends_pure _).mpr ⟨rfl, rfl⟩
    · rw [ends_bind]
      refine (hfile _ (h.resolve_right fun h => h.2 hout)).mono ?_ fun _ _ h => h
      rintro o s' ⟨rfl, rfl⟩
      exact (ends_pure _).mpr ⟨rfl, rfl⟩
  rw [loadProgram, ends_ite]
  refine ⟨fun _ => ?_, fun _ => (ends_onFs _).mpr (ends_outOfBounds.mpr rfl)⟩
  rw [ends_bind, ends_onFs, ends_pointee]
  change Ends _ s _ _
  simp only [strsep, hext, Option.getD_some]
  rw [ends_bind]
  refine hread.mono ?_ fun _ _ h => h
  rintro o s' ⟨rfl, rfl⟩
  exact (ends_pure _).mpr rfl

theorem SoundToken.loaded (h : SoundToken foot s junk name) (hext : name.after 0x2E = some ext)
    (hi : findRoot s.fs.rootDir name ≠ none) (hp : ext = comExt ∨ ext = outExt) :
    ∃ r, Loaded junk s.fs name ext r := by
  rcases hp with rfl | rfl
  · obtain ⟨-, cs, hf, -⟩ := h.com hext hi
    exact ⟨_, .com rfl hf⟩
  · obtain ⟨cs, hf, hfits, -⟩ := h.out hext hi
    exact ⟨_, .out rfl hf hfits⟩

/-- **Loading a sound program leaves the places of the others alone.** -/
theorem ends_loadProgram_lodges (hs : s.Housed) (h : SoundToken foot s junk name)
    (hc : s.k.currProc = none) :
    Ends (loadProgram junk name) s (fun _ s' => s.Lodges s') fun _ s' => s.Lodges s' := by
  obtain ⟨ext, hext⟩ := Option.ne_none_iff_exists'.mp h.extension
  by_cases hl : ∃ r, Loaded junk s.fs name ext r
  · obtain ⟨⟨addr, base, size⟩, hl⟩ := hl
    have htouch := ends_loadProgram_touches (W := driveBuffer ∪ span base size ∪ area addr)
      (fun _ hz => .inl (.inl hz)) hc hext hl (fun _ hz => .inl (.inr hz)) fun _ hz => .inr hz
    have hkept : ∀ {s'}, s.Touches (driveBuffer ∪ span base size ∪ area addr) s' →
        ∀ c ∈ s.created, s.Live c → ∀ z ∈ area c.addr, s'.k.mem z = s.k.mem z :=
      fun ht c hcr hlive z hz => ht.mem z (h.notMem hext hl hcr hlive (hs.placed c hcr) hz)
    refine ((ends_loadProgram junk h.short h.extension hc).and htouch).mono ?_ ?_
    · rintro b s' ⟨⟨htrue, hfalse⟩, ht⟩
      refine ⟨ht.final, hkept ht, ?_⟩
      cases b with
      | false => exact .inl (hfalse rfl).2.created
      | true =>
        obtain ⟨ext', r, i, hext', hr, hcr, heip, -⟩ := (htrue rfl).2.2.created
        cases hext.symm.trans hext'
        cases hl.unique hr
        exact .inr ⟨_, hcr, (h.placed hext hl i).1, (h.placed hext hl i).2, heip⟩
    · rintro e s' ⟨he, ht⟩
      refine ⟨ht.final, hkept ht, .inl ?_⟩
      rcases he with he | he
      · exact he.2.2
      · exact he.1
  · have habsent : findRoot s.fs.rootDir name = none ∨ ext ≠ comExt ∧ ext ≠ outExt := by
      by_contra hno
      obtain ⟨hi, hp⟩ := not_or.mp hno
      exact hl (h.loaded hext hi (by rwa [← not_or, not_not] at hp))
    refine (ends_loadProgram_absent hext habsent).mono ?_ ?_
    all_goals
      rintro _ s' rfl
      exact .refl s'

/-! ## Runs -/

theorem Sys.Lodges.housed (h : s.Lodges s') (hs : s.Housed) : s'.Housed := by
  have hlive : ∀ {c}, s'.Live c → s.Live c := fun hl ht => hl (h.final _ ht)
  have halone : s.created.Pairwise fun c c' => s'.Live c → s'.Live c' → Elsewhere c c' :=
    hs.alone.imp fun he hl hl' => he (hlive hl) (hlive hl')
  rcases h.created with hcr | ⟨c, hcr, hp, he, -⟩
  · exact ⟨hcr ▸ hs.placed, hcr ▸ halone⟩
  · refine ⟨?_, ?_⟩
    · rw [hcr, List.forall_mem_append, List.forall_mem_singleton]
      exact ⟨hs.placed, hp⟩
    · rw [hcr, List.pairwise_append]
      refine ⟨halone, List.pairwise_singleton _ _, fun c₁ h₁ c₂ h₂ hl₁ _ => ?_⟩
      cases List.mem_singleton.mp h₂
      exact he c₁ h₁ (hlive hl₁)

theorem leave_keeps (e : Exit) (k : Kernel) :
    (leave e k).k.procList = k.procList ∧ (leave e k).k.mem = k.mem := by
  cases e with
  | shell | processReturn | fault => exact ⟨rfl, rfl⟩
  | resumed c =>
    change (land c k).k.procList = _ ∧ (land c k).k.mem = _
    unfold land toUser
    split
    · split <;> exact ⟨rfl, rfl⟩
    · exact ⟨rfl, rfl⟩

theorem Sys.Lodges.leave (h : s.Lodges s') (e : Exit) :
    s.Lodges (s'.setKernel (leave e s'.k).k) := by
  obtain ⟨hp, hm⟩ := leave_keeps e s'.k
  refine ⟨fun i hi => ?_, fun c hc hl z hz => ?_, ?_⟩
  · rw [Sys.setKernel_k, hp]
    exact h.final i hi
  · rw [Sys.setKernel_k, hm]
    exact h.kept c hc hl z hz
  · rw [Sys.setKernel_k, Sys.setKernel_created, hp]
    exact h.created

theorem Sys.Lodges.stirred (h : s.Lodges s')
    (hk : ∀ c ∈ s.created, s.Live c → ∀ z ∈ area c.addr, foot.owns z = false) :
    s.Lodges (s'.stirred foot left) := by
  refine ⟨h.final, fun c hc hl z hz => ?_, h.created⟩
  change (if foot.owns z then left z else s'.k.mem z) = _
  rw [hk c hc hl z hz]
  exact h.kept c hc hl z hz

theorem act_exec_lodges {a : ℕ → List Trap} (hx : x.machine.view.Wf) (hs : x.sys.Housed)
    (h : SoundToken foot x.sys junk name) (he : act foot x (.exec junk name a left) = some y) :
    x.sys.Lodges y.sys := by
  obtain ⟨hshell, rfl⟩ := act_exec.mp he
  have hend := ends_loadProgram_lodges (s := x.sys.withArrivals a) ⟨hs.placed, hs.alone⟩
    ⟨h.short, h.extension, h.kernel, h.clear, h.com, h.out⟩ (Loader.currProc hx hshell)
  refine Sys.Lodges.stirred ?_ h.kernel
  refine (ends_result _ fun r => x.sys.Lodges (Loader.after r).sys).mp
    (hend.mono (fun _ s' h' => ⟨h'.final, h'.kept, h'.created⟩) fun e s' h' => ?_)
  have h' : x.sys.Lodges s' := ⟨h'.final, h'.kept, h'.created⟩
  cases e with
  | halt => exact h'
  | exit e => exact h'.leave e

/-- **Every sound step keeps the live processes in places of their own.** -/
theorem act_housed {a : Act} (hx : x.machine.view.Wf) (hs : x.sys.Housed) (hg : SoundAct foot x a)
    (he : act foot x a = some y) : y.sys.Housed := by
  cases a with
  | exec junk name arrivals left => exact (act_exec_lodges hx hs hg he).housed hs
  | machine l =>
    obtain ⟨m, hm, rfl⟩ := act_machine.mp he
    have hfinal : ∀ {c}, (x.sys.setKernel m.k).Live c → x.sys.Live c := fun hl ht =>
      hl ((step_moves hx hm).terminated hg ht)
    exact ⟨hs.placed, hs.alone.imp fun h hl hl' => h (hfinal hl) (hfinal hl')⟩

/-- **In every run of sound steps the areas of live processes are apart.** A program that is loaded
changes no byte of one and starts at its entry. -/
theorem apart_run {pr ptr : Word} {mem : Mem} {fs : FileSystem}
    (h : Run.Reach (act foot) (SoundAct foot) (Loader.start pr ptr mem fs) x) : x.sys.Apart ∧
      ∀ junk name a left y, SoundToken foot x.sys junk name →
        act foot x (.exec junk name a left) = some y →
        (∀ c ∈ x.sys.created, x.sys.Live c → ∀ z ∈ area c.addr, y.sys.k.mem z = x.sys.k.mem z) ∧
        ∀ c, y.sys.created = x.sys.created ++ [c] →
          (y.sys.k.procList c.slot).regImg.eip = c.addr := by
  have hhoused : x.sys.Housed := by
    refine h.invariant₂ (J := fun x => x.machine.view.Wf) (I := fun x => x.sys.Housed)
      (fun _ hr => Loader.wf hr) ⟨fun c hc => ?_, List.Pairwise.nil⟩
      fun _ _ _ hw hs hg he => act_housed hw hs hg he
    exact absurd hc List.not_mem_nil
  refine ⟨hhoused.apart, fun junk name a left y ht he => ?_⟩
  have hlodges := act_exec_lodges (Loader.wf h) hhoused ht he
  refine ⟨hlodges.kept, fun c hc => ?_⟩
  rcases hlodges.created with hcr | ⟨c', hcr, -, -, heip⟩
  · exact absurd (hcr.symm.trans hc) fun h => by simpa using congrArg List.length h
  · obtain rfl : c' = c := by simpa using hcr.symm.trans hc
    exact heip

/-! ## One program, and the same once more -/

/-- A program that can be loaded gets a process if no interrupt arrives. -/
theorem act_creates (hx : x.machine.view.Wf) (hm : x.mode = .shell) (hlen : name.length < 20)
    (hl : Loadable x.sys.fs junk name) (hfree : 0 < x.sys.k.freeSlots) :
    ∃ y, act foot x (.exec junk name (fun _ => []) left) = some y ∧ y.mode = .shell ∧
      (x.sys.withArrivals fun _ => []).Creates junk name y.sys := by
  have hext : name.after 0x2E ≠ none := by
    obtain ⟨ext, hext, -⟩ := hl
    exact hext ▸ Option.some_ne_none ext
  have hend : Ends (loadProgram junk name) (x.sys.withArrivals fun _ => [])
      (fun _ s' => (x.sys.withArrivals fun _ => []).Creates junk name s') fun _ _ => False := by
    refine (ends_loadProgram (s := x.sys.withArrivals fun _ => []) junk hlen hext
      (Loader.currProc hx hm)).mono (fun b s' hb => ?_) fun e s' he => ?_
    · cases b with
      | true => exact (hb.1 rfl).2.2
      | false => exact absurd hl (hb.2 rfl).1
    · rcases he with ⟨-, ⟨⟨n, hn⟩, -⟩, -⟩ | ⟨-, hn⟩
      · exact hn rfl
      · exact hn ⟨hl, hfree⟩
  obtain ⟨b, s', hok, hcr⟩ := exists_ok_iff.mpr hend
  refine ⟨_, act_exec.mpr ⟨hm, rfl⟩, ?_⟩
  rw [hok]
  exact ⟨rfl, hcr.fs, hcr.created, hcr.currProc, hcr.currPid, hcr.ready, hcr.freeSlots, hcr.arrivals⟩

/-- A drive with the program `prg1.com`. -/
def oneProgram : FileSystem :=
  { formatted.toFileSystem with
    fat := fun i => if i = 0 then 0xFF0 else if (i : ℕ) ≤ 2 then 0xFFF else 0
    rootDir := fun i =>
      if i = 0 then enterFile (fun _ => 0) (.ofChars "prg1".toList) comExt 2 512 else fun _ => 0 }

namespace oneProgram

theorem find : findRoot oneProgram.rootDir (prgName '1') = some 0 :=
  findRoot_zero (by decide +kernel)

theorem found (dst : Option Word) : Found dst oneProgram (prgName '1') [2] := by
  refine ⟨0, find, ?_, fun _ => by decide⟩
  have hc : (oneProgram.rootDir 0).startCluster.setWidth 32 = BitVec.ofNat 32 (2 : FatIdx) := by
    decide +kernel
  rw [hc]
  exact .single (fatIdx_ofNat 2) (by decide)

theorem loadable (junk : Junk) : Loadable oneProgram junk (prgName '1') :=
  ⟨comExt, by decide, _, .com rfl (found _)⟩

theorem eq_of_loaded {ext : CStr} {r : Word × Word × ℕ} (hext : (prgName '1').after 0x2E = some ext)
    (hl : Loaded junk oneProgram (prgName '1') ext r) : r = (0x20000, 0x20000, 512) := by
  cases hl with
  | com _ hf =>
    cases hf.unique (found none)
    rfl
  | out hout =>
    rw [hout] at hext
    exact absurd hext (by decide)

/-- A kernel below 0x20000 with a stack of 32 KiB. -/
def below : Footprint := ⟨fun x => x.toNat < 0x20000, 0x8000⟩

theorem below_hit {a : Word} {n : ℕ} (ha : 0x20000 ≤ a.toNat) (hn : a.toNat + n ≤ 0x80000) :
    below.hit a n = false := by
  refine List.any_eq_false.mpr fun i hi => ?_
  have hi := List.mem_range.mp hi
  have hx : (a + BitVec.ofNat 32 i).toNat = a.toNat + i := by bv_omega
  have hstack : ¬ (STACK_TOP - 1 - (a + BitVec.ofNat 32 i)).toNat < 0x8000 := by
    unfold STACK_TOP
    bv_omega
  have hstatic : ¬ (a + BitVec.ofNat 32 i).toNat < 0x20000 := by omega
  exact ne_true_of_eq_false
    (Bool.or_eq_false_iff.mpr ⟨decide_eq_false hstatic, decide_eq_false hstack⟩)

theorem sound (hfs : s.fs = oneProgram) (hcr : s.created = []) (junk : Junk) :
    SoundToken below s junk (prgName '1') where
  short := by decide
  extension := by decide
  kernel c hc := by
    rw [hcr] at hc
    exact absurd hc List.not_mem_nil
  clear ext addr base size hext hl := by
    cases eq_of_loaded hext (hfs ▸ hl)
    exact ⟨below_hit (by decide) (by decide), below_hit (by decide) (by decide)⟩
  com _ _ := by
    refine ⟨.inl rfl, [2], hfs ▸ found _, fun c hc => ?_⟩
    rw [hcr] at hc
    exact absurd hc List.not_mem_nil
  out hext := absurd hext (by decide)

end oneProgram

/-- The program by itself. -/
theorem apart_one : ∃ x, Run.Reach (act oneProgram.below) (SoundAct oneProgram.below)
    (Loader.start 0 0 (fun _ => 0) oneProgram) x ∧ x.sys.names = [prgName '1'] ∧ x.sys.Apart := by
  obtain ⟨x, he, -, hcr⟩ := @act_creates ⟨0, fun _ => 0, 0⟩ _ (.start 0 0 (fun _ => 0) oneProgram)
    oneProgram.below (fun _ => 0xFF)
    (Loader.start_wf _ _ _ _) rfl (by decide) (oneProgram.loadable _)
    (freeSlots_boot ▸ Nat.succ_pos 19)
  have hsound : SoundToken oneProgram.below (Loader.start 0 0 (fun _ => 0) oneProgram).sys
      ⟨0, fun _ => 0, 0⟩ (prgName '1') := oneProgram.sound rfl rfl _
  have hx : Run.Reach (act oneProgram.below) (SoundAct oneProgram.below)
      (Loader.start 0 0 (fun _ => 0) oneProgram) x :=
    .step (.exec ⟨0, fun _ => 0, 0⟩ (prgName '1') (fun _ => []) fun _ => 0xFF) .init hsound he
  exact ⟨x, hx, hcr.names, (apart_run hx).1⟩

/-- The program twice. -/
theorem not_apart : ∃ x, Run.Reach (act oneProgram.below) (fun _ _ => True)
    (Loader.start 0 0 (fun _ => 0) oneProgram) x ∧
      x.sys.names = [prgName '1', prgName '1'] ∧ ¬ x.sys.Apart := by
  obtain ⟨x, hex, hm, hx⟩ := @act_creates ⟨0, fun _ => 0, 0⟩ _ (.start 0 0 (fun _ => 0) oneProgram)
    oneProgram.below (fun _ => 0) (Loader.start_wf _ _ _ _) rfl (by decide) (oneProgram.loadable _)
    (freeSlots_boot ▸ Nat.succ_pos 19)
  have hfs : x.sys.fs = oneProgram := hx.fs
  have hfree : x.sys.k.freeSlots + 1 = 20 := hx.freeSlots.trans freeSlots_boot
  obtain ⟨y, hey, -, hy⟩ := @act_creates ⟨0, fun _ => 0, 0⟩ _ x oneProgram.below (fun _ => 0)
    (act_wf (Loader.start_wf _ _ _ _) hex) hm (by decide) (hfs ▸ oneProgram.loadable _) (by omega)
  refine ⟨y, .step _ (.step _ .init trivial hex) trivial hey, ?_, fun hapart => ?_⟩
  · exact hy.names.trans (congrArg (· ++ [prgName '1']) hx.names)
  obtain ⟨ext, r, i, hext, hl, hcr, -, hready, -⟩ := hx.created
  obtain ⟨ext', r', i', hext', hl', hcr', -, hready', hkept⟩ := hy.created
  have hl' : Loaded ⟨0, fun _ => 0, 0⟩ oneProgram (prgName '1') ext' r' := hfs ▸ hl'
  have hpair : y.sys.created =
      [⟨prgName '1', i, r.1, r.2.1, r.2.2⟩, ⟨prgName '1', i', r'.1, r'.2.1, r'.2.2⟩] :=
    hcr'.trans (congrArg (· ++ [_]) hcr)
  -- both live
  have hlive : (y.sys.k.procList i).status = .ready := by
    by_cases hi : i = i'
    · rw [hi]
      exact hready'
    · rw [hkept i hi]
      exact hready
  have hdisj := hapart.disjoint
  rw [hpair, List.pairwise_pair] at hdisj
  have hself : (0x20000 : Word) ∈ area 0x20000 := self_mem_span (by decide)
  refine hdisj (fun h => ?_) (fun h => ?_) 0x20000 ?_ ?_
  · cases hlive.symm.trans h
  · cases hready'.symm.trans h
  · rw [oneProgram.eq_of_loaded hext hl]
    exact hself
  · rw [oneProgram.eq_of_loaded hext' hl']
    exact hself

end AdvancedOS
