import AdvancedOS.Fat.Entry

/-!
# The date and the time of a directory entry

A listing takes the two fields apart again. The numbers are not negative, so they are natural.

* `intToDate`, `intToTime`: what a listing shows of the fields;
* `stamps_listed`: **no two fields are listed alike, a date and a time that fit are listed as they
  were put together, but for an odd second, and a new file has the date that is in the code.**
-/

namespace AdvancedOS

/-! ## The functions -/

/-- `struct fat_date`; a listing adds 1980 to the year. -/
structure FatDate where
  year : ℕ
  month : ℕ
  day : ℕ
  deriving DecidableEq

/-- `struct fat_time`. -/
structure FatTime where
  hour : ℕ
  minute : ℕ
  second : ℕ
  deriving DecidableEq

/-- `int_to_date`. -/
def intToDate (date : BitVec 16) : FatDate :=
  let year := date.toNat / 512
  let month := (date.toNat - year * 512) / 32
  ⟨year, month, date.toNat - year * 512 - month * 32⟩

/-- `int_to_time`. -/
def intToTime (t : BitVec 16) : FatTime :=
  let hour := t.toNat / 2048
  let minute := (t.toNat - hour * 2048) / 32
  ⟨hour, minute, (t.toNat - hour * 2048 - minute * 32) * 2⟩

def FileEntry.time (e : FileEntry) : BitVec 16 := e.u16 22

def FileEntry.date (e : FileEntry) : BitVec 16 := e.u16 24

/-! ## Both ways -/

/-- The fields have room for the date. -/
structure FatDate.Fits (d : FatDate) : Prop where
  year : d.year < 128
  month : d.month < 16
  day : d.day < 32

/-- The fields have room for the time. -/
structure FatTime.Fits (t : FatTime) : Prop where
  hour : t.hour < 32
  minute : t.minute < 64
  second : t.second < 64

variable {year month day hour minute second : ℕ}

theorem dateToInt_eq : dateToInt year month day = (year - 1980) * 512 + month * 32 + day := by
  rw [dateToInt, Nat.shiftLeft_eq, Nat.shiftLeft_eq]

theorem timeToInt_eq : timeToInt hour minute second = hour * 2048 + minute * 32 + second / 2 := by
  rw [timeToInt, Nat.shiftLeft_eq, Nat.shiftLeft_eq]

theorem dateToInt_intToDate (b : BitVec 16) : (intToDate b).Fits ∧
    dateToInt ((intToDate b).year + 1980) (intToDate b).month (intToDate b).day = b.toNat := by
  rw [dateToInt_eq]
  simp only [intToDate]
  constructor
  · constructor <;> dsimp only <;> omega
  · omega

theorem timeToInt_intToTime (b : BitVec 16) : (intToTime b).Fits ∧
    timeToInt (intToTime b).hour (intToTime b).minute (intToTime b).second = b.toNat := by
  rw [timeToInt_eq]
  simp only [intToTime]
  constructor
  · constructor <;> dsimp only <;> omega
  · omega

theorem intToDate_dateToInt {d : FatDate} (h : d.Fits) :
    intToDate (.ofNat 16 (dateToInt (d.year + 1980) d.month d.day)) = d := by
  obtain ⟨year, month, day⟩ := d
  obtain ⟨hy, hm, hd⟩ := h
  have hlt : dateToInt (year + 1980) month day < 2 ^ 16 := by
    rw [dateToInt_eq]
    dsimp only at hy hm hd
    omega
  simp only [intToDate, BitVec.toNat_ofNat, Nat.mod_eq_of_lt hlt, FatDate.mk.injEq]
  rw [dateToInt_eq]
  dsimp only at hy hm hd
  omega

theorem intToTime_timeToInt {t : FatTime} (h : t.Fits) :
    intToTime (.ofNat 16 (timeToInt t.hour t.minute t.second)) =
      { t with second := t.second / 2 * 2 } := by
  obtain ⟨hour, minute, second⟩ := t
  obtain ⟨hh, hm, hs⟩ := h
  have hlt : timeToInt hour minute second < 2 ^ 16 := by
    rw [timeToInt_eq]
    dsimp only at hh hm hs
    omega
  simp only [intToTime, BitVec.toNat_ofNat, Nat.mod_eq_of_lt hlt, FatTime.mk.injEq]
  rw [timeToInt_eq]
  dsimp only at hh hm hs
  omega

/-! ## Entries -/

variable {e : FileEntry} {t x : CStr} {cstart : ℕ} {size : ℤ}

theorem enterFile_date :
    (enterFile e t x cstart size).date = .ofNat 16 (dateToInt 2019 6 23) := by
  unfold enterFile FileEntry.date
  rw [Bytes.u16_write_of_disjoint (by decide), Bytes.u16_write _ (by decide)]

theorem enterFile_time : (enterFile e t x cstart size).time = .ofNat 16 (timeToInt 0 0 0) := by
  unfold enterFile FileEntry.time
  rw [Bytes.u16_write _ (by decide)]

/-- **A listing tells all dates and times apart, shows those that fit as they were put together, and
shows a new file with the date that is in the code.** -/
theorem stamps_listed :
    (∀ e : FileEntry, (intToDate e.date).Fits ∧ e.date.toNat =
      dateToInt ((intToDate e.date).year + 1980) (intToDate e.date).month (intToDate e.date).day) ∧
    (∀ e : FileEntry, (intToTime e.time).Fits ∧ e.time.toNat =
      timeToInt (intToTime e.time).hour (intToTime e.time).minute (intToTime e.time).second) ∧
    (∀ d : FatDate, d.Fits →
      intToDate (.ofNat 16 (dateToInt (d.year + 1980) d.month d.day)) = d) ∧
    (∀ t : FatTime, t.Fits → intToTime (.ofNat 16 (timeToInt t.hour t.minute t.second)) =
      { t with second := t.second / 2 * 2 }) ∧
    ∀ e t x cstart size, intToDate (enterFile e t x cstart size).date = ⟨2019 - 1980, 6, 23⟩ ∧
      intToTime (enterFile e t x cstart size).time = ⟨0, 0, 0⟩ := by
  refine ⟨fun e => ?_, fun e => ?_, fun d hd => intToDate_dateToInt hd,
    fun t ht => intToTime_timeToInt ht, fun e t x cstart size => ⟨?_, ?_⟩⟩
  · exact (dateToInt_intToDate e.date).imp_right Eq.symm
  · exact (timeToInt_intToTime e.time).imp_right Eq.symm
  · rw [enterFile_date]
    exact intToDate_dateToInt (d := ⟨39, 6, 23⟩) ⟨by decide, by decide, by decide⟩
  · rw [enterFile_time]
    exact intToTime_timeToInt (t := ⟨0, 0, 0⟩) ⟨by decide, by decide, by decide⟩

end AdvancedOS
