import AdvancedOS.Lib.Bytes

/-!
# The functions of `string.h`

The functions on C strings that the file system and the shell call. A `char *` that may be `NULL` is
an `Option CStr`. The functions work in place in the source; here they return the new string, and
the callers check that it fits.
-/

namespace AdvancedOS

/-- `strsep(&str, d)` for one delimiter `d`: the token, and what `str` is afterwards. -/
def strsep (d : Byte) : Option CStr → Option CStr × Option CStr
  | none => (none, none)
  | some s => (some (s.before d), s.after d)

/-- `strcat`. -/
def strcat (dst src : CStr) : CStr where
  toList := dst.toList ++ src.toList
  noNul h := (List.mem_append.mp h).elim dst.noNul src.noNul

/-- `reverse`. -/
def reverse (s : CStr) : CStr where
  toList := s.toList.reverse
  noNul h := s.noNul (List.mem_reverse.mp h)

/-- A letter from `A` to `Z` becomes small. -/
def lowerByte (c : Byte) : Byte := if 0x41 ≤ c ∧ c ≤ 0x5A then c + 0x20 else c

theorem lowerByte_eq_zero {c : Byte} (h : lowerByte c = 0) : c = 0 := by
  revert h
  revert c
  decide

/-- `tolower`. -/
def tolower (s : CStr) : CStr where
  toList := s.toList.map lowerByte
  noNul h := by
    obtain ⟨c, hc, h0⟩ := List.mem_map.mp h
    exact s.noNul (lowerByte_eq_zero h0 ▸ hc)

theorem lowerByte_capital (c : Byte) :
    (∀ k < 26, c.toNat = 0x41 + k → (lowerByte c).toNat = 0x61 + k) ∧
      ((∀ k < 26, c.toNat ≠ 0x41 + k) → lowerByte c = c) := by
  refine ⟨fun k hk hc => ?_, fun h => if_neg ?_⟩
  · rw [lowerByte, if_pos (by bv_omega)]
    bv_omega
  · rintro ⟨h1, h2⟩
    exact h (c.toNat - 0x41) (by bv_omega) (by bv_omega)

/-- **Character by character, `A` to `Z` become `a` to `z`, and nothing else changes.** -/
theorem tolower_getElem? {s : CStr} {i : ℕ} {c : Byte} (h : s.toList[i]? = some c) :
    ∃ d, (tolower s).toList[i]? = some d ∧ (∀ k < 26, c.toNat = 0x41 + k → d.toNat = 0x61 + k) ∧
      ((∀ k < 26, c.toNat ≠ 0x41 + k) → d = c) := by
  refine ⟨lowerByte c, ?_, lowerByte_capital c⟩
  rw [tolower, List.getElem?_map, h]
  rfl

end AdvancedOS
