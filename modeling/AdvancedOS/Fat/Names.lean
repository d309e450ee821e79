import AdvancedOS.Fat.Entry
import AdvancedOS.File.Spec
import AdvancedOS.Lib.Run

/-!
# Names in the root directory

* `Used`, `UniqueNames`: entries in use, and that no two of them are listed under one name;
* `NewName`: no entry in use is listed under the name that a call enters;
* `names_unique_iff`: **a run keeps the names unique exactly when every file it enters has a new
  name**, which nothing in the code looks for;
* `not_names_unique`: the same file twice.
-/

namespace AdvancedOS

open Function (update)

variable {s s' : Fs} {op : FsOp} {rootDir : RootIdx → FileEntry} {i : RootIdx} {e : FileEntry}

/-- The entry is neither free nor deleted. -/
def Used (e : FileEntry) : Prop := e.get 0 ≠ 0 ∧ e.get 0 ≠ 0xE5

instance (e : FileEntry) : Decidable (Used e) := inferInstanceAs (Decidable (_ ∧ _))

/-- No two entries in use are listed under one name. -/
def UniqueNames (rootDir : RootIdx → FileEntry) : Prop :=
  ∀ i j, Used (rootDir i) → Used (rootDir j) →
    fat12ConstructFileName (rootDir i) = fat12ConstructFileName (rootDir j) → i = j

/-- If a call enters a file, no entry in use is listed under its name. A name that starts with the
mark of a deleted file makes no entry in use. -/
def NewName (s : Fs) (op : FsOp) : Prop :=
  ∀ p ∈ creates s op, (newEntry s.rootDir).isSome →
    (p.2.before 0x2E).toList.head? ≠ some 0xE5 → ∀ j, Used (s.rootDir j) →
      fat12ConstructFileName (s.rootDir j) ≠ shortName (p.2.before 0x2E) (extensionOf p.2 s)

theorem newEntry_iff : newEntry rootDir = some i ↔
    (rootDir i).get 0 = 0 ∧ ∀ j < i, (rootDir j).get 0 ≠ 0 := by
  rw [newEntry, ← Fin.find?_eq_find?_finRange, Fin.find?_eq_some_iff]
  simp only [decide_eq_true_eq, decide_eq_false_iff_not]

theorem newEntry_free (h : newEntry rootDir = some i) : (rootDir i).get 0 = 0 :=
  (newEntry_iff.mp h).1

theorem not_used_removed : ¬ Used (e.write 0 [0xE5]) := by
  intro h
  refine h.2 ?_
  rw [Bytes.get_write, if_pos (by omega)]
  rfl

/-- An entry is in use after it has been filled in, unless the name starts with the mark. -/
theorem used_enterFile {t x : CStr} {cstart : ℕ} {size : ℤ} (ht : t.length < 20)
    (hx : x.length < 24) :
    Used (enterFile e t x cstart size) ↔ t.toList.head? ≠ some 0xE5 := by
  unfold Used
  rw [enterFile_get ht hx (by omega), if_pos (by omega)]
  cases hl : t.toList with
  | nil => exact iff_of_true (by decide) (by simp)
  | cons b l =>
    have hb : b ≠ 0 := fun h => t.noNul (hl ▸ h ▸ List.mem_cons_self)
    have hbz : b ≠ 0#8 := hb
    simpa using fun _ => hbz

theorem uniqueNames_update (h : UniqueNames rootDir) (hi : ¬ Used (rootDir i)) :
    UniqueNames (update rootDir i e) ↔ (Used e → ∀ j, Used (rootDir j) →
      fat12ConstructFileName (rootDir j) ≠ fat12ConstructFileName e) := by
  constructor
  · intro hu he j hj heq
    have hji : j ≠ i := fun h => hi (h ▸ hj)
    refine hji (hu j i ?_ ?_ ?_)
    · rwa [Function.update_of_ne hji]
    · rwa [Function.update_self]
    · rwa [Function.update_of_ne hji, Function.update_self]
  · intro hn j k hj hk heq
    by_cases hji : j = i
    · by_cases hki : k = i
      · rw [hji, hki]
      · rw [hji, Function.update_self] at hj heq
        rw [Function.update_of_ne hki] at hk heq
        exact (hn hj k hk heq.symm).elim
    · rw [Function.update_of_ne hji] at hj heq
      by_cases hki : k = i
      · rw [hki, Function.update_self] at hk heq
        exact (hn hk j hj heq).elim
      · rw [Function.update_of_ne hki] at hk heq
        exact h j k hj hk heq

theorem UniqueNames.remove (h : UniqueNames rootDir) (he : ¬ Used e) :
    UniqueNames (update rootDir i e) := by
  have hof : ∀ j, Used (update rootDir i e j) → j ≠ i := by
    rintro j hj rfl
    rw [Function.update_self] at hj
    exact he hj
  intro j k hj hk heq
  have hji := hof j hj
  have hki := hof k hk
  rw [Function.update_of_ne hji] at hj heq
  rw [Function.update_of_ne hki] at hk heq
  exact h j k hj hk heq

/-- **A step keeps the names unique exactly if a file that it enters has a new name.** -/
theorem uniqueNames_step (h : UniqueNames s.rootDir) (hs : fsStep s op = some s') :
    UniqueNames s'.rootDir ↔ NewName s op := by
  have hroot : s'.rootDir = (effect s op).rootDir := congrArg Volume.rootDir (fsStep_volume hs).1
  have hfits := fsStep_fits hs
  rw [hroot]
  unfold effect NewName
  cases hc : creates s op with
  | none =>
    refine iff_of_true ?_ fun p hp => (Option.not_mem_none p hp).elim
    cases removes s op with
    | none => exact h
    | some i => exact h.remove not_used_removed
  | some p =>
    obtain ⟨size, name⟩ := p
    simp only [Option.mem_def, Option.some.injEq, forall_eq']
    cases hn : newEntry s.rootDir with
    | none =>
      rw [Volume.create_rootDir_none (by exact hn)]
      exact iff_of_true h fun hf => (Bool.false_ne_true hf).elim
    | some i =>
      have hfit := hfits (size, name) hc (by rw [hn]; rfl)
      have ht := hfit.before_lt
      have hfree : ¬ Used (s.rootDir i) := fun hu => hu.1 (newEntry_free hn)
      rw [Volume.create_rootDir_some (by exact hn)]
      refine (uniqueNames_update h hfree).trans ?_
      rw [used_enterFile ht hfit.2, construct_enterFile ht hfit.2]
      exact ⟨fun hu _ => hu, fun hu => hu rfl⟩

/-- **Along a run from unique names, the names in the root directory are unique in every state
exactly when every file that is entered has a new name.** -/
theorem names_unique_iff (h : UniqueNames s.rootDir) (ops : List FsOp)
    (hrun : (Run.exec fsStep s ops).isSome) :
    Run.Always fsStep (fun s => UniqueNames s.rootDir) s ops ↔ Run.Meets fsStep NewName s ops :=
  Run.always_iff_meets (fun _ _ _ => uniqueNames_step) ops s h hrun

theorem uniqueNames_formatted : UniqueNames formatted.rootDir := fun _ _ hi => (hi.1 rfl).elim

theorem names_unique_oneFile :
    Run.Always fsStep (fun s => UniqueNames s.rootDir) formatted oneFile ↔
      Run.Meets fsStep NewName formatted oneFile :=
  names_unique_iff uniqueNames_formatted oneFile (by decide +kernel)

theorem not_newName_again {name x : CStr} {addr : List Byte} {size : ℤ}
    (hs : fsStep s (.create addr size name) = some s') (hx : name.after 0x2E = some x)
    (hd : (name.before 0x2E).toList.head? ≠ some 0xE5) (hn : newEntry s.rootDir = some i)
    (hn' : (newEntry s'.rootDir).isSome) : ¬ NewName s' (.create addr size name) := by
  have hfit := fsStep_fits hs (size, name) rfl (by rw [hn]; rfl)
  have ht := hfit.before_lt
  have hroot : s'.rootDir = update s.rootDir i _ :=
    (congrArg Volume.rootDir (fsStep_volume hs).1).trans (Volume.create_rootDir_some (by exact hn))
  have hext : extensionOf name s' = extensionOf name s := by
    unfold extensionOf
    rw [hx, Option.getD_some, Option.getD_some]
  intro h
  refine h (size, name) rfl hn' hd i ?_ ?_
  · rw [hroot, Function.update_self]
    exact (used_enterFile ht hfit.2).mpr hd
  · rw [hroot, Function.update_self, construct_enterFile ht hfit.2, hext]

/-- A file of one byte. -/
def oneByte : FsOp := .create [] 1 (.ofChars ['a', '.', 'b'])

/-- The same file is written twice. -/
theorem not_names_unique : UniqueNames formatted.rootDir ∧
    ∃ s, Run.Reach fsStep (fun _ _ => True) formatted s ∧ ¬ UniqueNames s.rootDir := by
  have hrun : (fsStep formatted oneByte).any (fun s => (newEntry s.rootDir).isSome ∧
      (fsStep s oneByte).isSome) := by decide +kernel
  obtain ⟨s₁, h₁, hP⟩ := (Option.any_eq_true _ _).mp hrun
  obtain ⟨hn₁, h₂⟩ := of_decide_eq_true hP
  obtain ⟨s₂, h₂⟩ := Option.isSome_iff_exists.mp h₂
  have hn : newEntry formatted.rootDir = some 0 := by decide +kernel
  have hnew := not_newName_again (x := .ofChars ['b']) h₁ (by decide) (by decide) hn hn₁
  have hu : UniqueNames s₁.rootDir := by
    refine (uniqueNames_step uniqueNames_formatted h₁).mpr fun p hp _ _ j hj => ?_
    exact (hj.1 rfl).elim
  exact ⟨uniqueNames_formatted, s₂, (Run.Reach.step _ .init trivial h₁).step _ trivial h₂,
    fun hu₂ => hnew ((uniqueNames_step hu h₂).mp hu₂)⟩

end AdvancedOS
