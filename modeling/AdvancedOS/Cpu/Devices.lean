import AdvancedOS.Cpu.Initialize
import Mathlib.Tactic.IntervalCases

/-!
# The interrupt controllers and the timer

What `hal_initialize` writes to the ports, and what the chips make of it. Of the controllers there are
the initialization words, the mask and the lines in service, and of the timer the values that its
counters start again from.

* `Pic`, `Counter`, `Devices`: the chips;
* `picInit`, `interruptdone`, `pitStartCounter`: the functions;
* `pitStartCounter_rate`: **at which frequencies the timer gets its rate, and where it fails**;
* `startDevices_wired`: **whatever state the chips were in, each line then raises a vector whose gate
  is that of its handler, nothing is raised while the timer is served, and `interruptdone` ends it.**
-/

namespace AdvancedOS

/-! ## The chips -/

/-- What a controller takes the next byte at its data port for. -/
inductive Phase where
  | icw2 | icw3 | icw4 | ready
  deriving DecidableEq

/-- An interrupt controller. -/
structure Pic where
  icw1 : Byte
  phase : Phase
  /-- The vector of its first line. -/
  base : Byte
  /-- The lines to other controllers, or the line that it is on. -/
  cascade : Byte
  icw4 : Byte
  mask : Byte
  inService : Byte
  deriving DecidableEq

namespace Pic

/-- A byte at the command port. -/
def command (c : Byte) (d : Pic) : Pic :=
  if c &&& 0x10 ≠ 0 then { d with icw1 := c, phase := .icw2, icw4 := 0, mask := 0, inService := 0 }
  -- the end of the interrupt that is served first
  else if c &&& 0xf8 = 0x20 then { d with inService := d.inService &&& (d.inService - 1) }
  else d

/-- The phase after the first words. -/
def last (d : Pic) : Phase := if d.icw1 &&& 1 ≠ 0 then .icw4 else .ready

/-- A byte at the data port. -/
def data (c : Byte) (d : Pic) : Pic :=
  match d.phase with
  | .icw2 => { d with base := c &&& 0xf8, phase := if d.icw1 &&& 2 ≠ 0 then d.last else .icw3 }
  | .icw3 => { d with cascade := c, phase := d.last }
  | .icw4 => { d with icw4 := c, phase := .ready }
  | .ready => { d with mask := c }

/-- The line `i` is not masked, and none of the first `n` lines is in service. -/
def Admits (d : Pic) (i n : ℕ) : Prop :=
  d.phase = .ready ∧ d.mask &&& ((1 : Byte) <<< i) = 0 ∧ d.inService &&& (((1 : Byte) <<< n) - 1) = 0

instance (d : Pic) (i n : ℕ) : Decidable (d.Admits i n) := inferInstanceAs (Decidable (_ ∧ _ ∧ _))

/-- The line `i` is in service, unless the interrupt ends by itself. -/
def serve (i : ℕ) (d : Pic) : Pic :=
  if d.icw4 &&& 2 ≠ 0 then d else { d with inService := d.inService ||| ((1 : Byte) <<< i) }

end Pic

/-- A counter of the timer. -/
structure Counter where
  control : Byte
  low : Option Byte
  reload : Option (BitVec 16)
  deriving DecidableEq

namespace Counter

/-- A byte at the command port that selects the counter. -/
def command (c : Byte) (d : Counter) : Counter := if c &&& 0x30 = 0 then d else ⟨c, none, none⟩

/-- A byte at the port of the counter. -/
def data (c : Byte) (d : Counter) : Counter :=
  if d.control &&& 0x30 = 0x10 then { d with reload := some ((0 : Byte) ++ c) }
  else if d.control &&& 0x30 = 0x20 then { d with reload := some (c ++ (0 : Byte)) }
  else
    match d.low with
    | none => { d with low := some c }
    | some l => { d with low := none, reload := some (c ++ l) }

end Counter

structure Devices where
  pic1 : Pic
  pic2 : Pic
  counter0 : Counter
  counter1 : Counter
  counter2 : Counter

def PIC1_REG_COMMAND : BitVec 16 := 0x20
def PIC1_REG_DATA : BitVec 16 := 0x21
def PIC2_REG_COMMAND : BitVec 16 := 0xa0
def PIC2_REG_DATA : BitVec 16 := 0xa1
def PIT_REG_COUNTER0 : BitVec 16 := 0x40
def PIT_REG_COUNTER1 : BitVec 16 := 0x41
def PIT_REG_COUNTER2 : BitVec 16 := 0x42
def PIT_REG_COMMAND : BitVec 16 := 0x43

def portByteOut (port : BitVec 16) (data : Byte) (d : Devices) : Devices :=
  if port = PIC1_REG_COMMAND then { d with pic1 := d.pic1.command data }
  else if port = PIC1_REG_DATA then { d with pic1 := d.pic1.data data }
  else if port = PIC2_REG_COMMAND then { d with pic2 := d.pic2.command data }
  else if port = PIC2_REG_DATA then { d with pic2 := d.pic2.data data }
  else if port = PIT_REG_COUNTER0 then { d with counter0 := d.counter0.data data }
  else if port = PIT_REG_COUNTER1 then { d with counter1 := d.counter1.data data }
  else if port = PIT_REG_COUNTER2 then { d with counter2 := d.counter2.data data }
  else if port = PIT_REG_COMMAND then
    if data &&& 0xc0 = 0 then { d with counter0 := d.counter0.command data }
    else if data &&& 0xc0 = 0x40 then { d with counter1 := d.counter1.command data }
    else if data &&& 0xc0 = 0x80 then { d with counter2 := d.counter2.command data }
    else d
  else d

/-- The processor takes an interrupt on `line`, of which the last eight are those of the second
controller: the vector, and the chips after it. -/
def Devices.accept (line : Fin 16) (d : Devices) : Option (Byte × Devices) :=
  if (line : ℕ) < 8 then
    if d.pic1.Admits line (line + 1) then
      some (d.pic1.base + .ofNat 8 line, { d with pic1 := d.pic1.serve line })
    else none
  else
    let i := (line : ℕ) - 8
    let c := d.pic2.cascade.toNat
    -- a controller that nests specially takes another line of the same controller
    let n := if d.pic1.icw4 &&& 0x10 ≠ 0 then c else c + 1
    if d.pic2.Admits i (i + 1) ∧ d.pic1.cascade &&& ((1 : Byte) <<< c) ≠ 0 ∧ d.pic1.Admits c n then
      some (d.pic2.base + .ofNat 8 i,
        { d with pic1 := d.pic1.serve c, pic2 := d.pic2.serve i })
    else none

/-! ## The functions -/

def picSendCommand (cmd picNum : Byte) (d : Devices) : Devices :=
  if picNum > 1 then d
  else portByteOut (if picNum = 1 then PIC2_REG_COMMAND else PIC1_REG_COMMAND) cmd d

def picSendData (data picNum : Byte) (d : Devices) : Devices :=
  if picNum > 1 then d
  else portByteOut (if picNum = 1 then PIC2_REG_DATA else PIC1_REG_DATA) data d

def picInit (d : Devices) : Devices :=
  let icw : Byte := 0
  let icw := (icw &&& ~~~0x10) ||| 0x10
  let icw := (icw &&& ~~~0x1) ||| 1
  let d := picSendCommand icw 0 d
  let d := picSendCommand icw 1 d
  let d := picSendData 0x20 0 d
  let d := picSendData 0x28 1 d
  let d := picSendData 0x04 0 d
  let d := picSendData 0x02 1 d
  let icw := (icw &&& ~~~0x1) ||| 1
  let d := picSendData icw 0 d
  picSendData icw 1 d

def interruptdone (intno : Word) (d : Devices) : Devices :=
  if intno > 16 then d
  else
    let d := if intno ≥ 8 then picSendCommand 0x20 1 d else d
    picSendCommand 0x20 0 d

def pitSendCommand (cmd : Byte) (d : Devices) : Devices := portByteOut PIT_REG_COMMAND cmd d

def pitSendData (data : BitVec 16) (counter : Byte) (d : Devices) : Devices :=
  let port := if counter = 0 then PIT_REG_COUNTER0
    else if counter = 0x40 then PIT_REG_COUNTER1 else PIT_REG_COUNTER2
  portByteOut port (data.setWidth 8) d

/-- `pit_start_counter`; there is no result where it divides by zero. -/
def pitStartCounter (freq : Word) (counter mode : Byte) (d : Devices) : Option Devices :=
  if freq = 0 then some d
  else if freq.setWidth 16 = (0 : BitVec 16) then none
  else
    let divisor := BitVec.ofNat 16 (1193181 / (freq.setWidth 16).toNat)
    let ocw : Byte := 0
    let ocw := (ocw &&& ~~~0xe) ||| mode
    let ocw := (ocw &&& ~~~0x30) ||| 0x30
    let ocw := (ocw &&& ~~~0xc0) ||| counter
    let d := pitSendCommand ocw d
    let d := pitSendData (divisor &&& 0xff) 0 d
    some (pitSendData ((divisor >>> 8) &&& 0xff) 0 d)

/-- What `hal_initialize` writes to the ports. -/
def startDevices (d : Devices) : Option Devices := pitStartCounter 100 0 6 (picInit d)

/-! ## The timer -/

variable {d : Devices} {freq : Word}

theorem ocw_bits (mode : Byte) :
    ((((mode &&& ~~~0x30) ||| 0x30) &&& ~~~0xc0) ||| 0) &&& (0xc0 : Byte) = 0 ∧
      ((((mode &&& ~~~0x30) ||| 0x30) &&& ~~~0xc0) ||| 0) &&& (0x30 : Byte) = 0x30 := by
  revert mode
  decide +kernel

theorem bytes_append (x : BitVec 16) :
    ((x >>> 8) &&& 0xff).setWidth 8 ++ (x &&& 0xff).setWidth 8 = x := by
  have hhi : ((x >>> 8) &&& 0xff).setWidth 8 = x.extractLsb' 8 8 := by
    ext i hi
    interval_cases i <;> simp
  have hlo : (x &&& 0xff).setWidth 8 = x.extractLsb' 0 8 := by
    ext i hi
    interval_cases i <;> simp
  rw [hhi, hlo, Bytes.le16_append]

theorem pitSendCommand_counter0 {c : Byte} (hc : c &&& 0xc0 = 0) (hr : c &&& 0x30 = 0x30) :
    pitSendCommand c d = { d with counter0 := ⟨c, none, none⟩ } := by
  have hport : pitSendCommand c d =
      if c &&& 0xc0 = 0 then { d with counter0 := d.counter0.command c }
      else if c &&& 0xc0 = 0x40 then { d with counter1 := d.counter1.command c }
      else if c &&& 0xc0 = 0x80 then { d with counter2 := d.counter2.command c }
      else d := rfl
  rw [hport, if_pos hc, Counter.command, if_neg (by rw [hr]; decide)]

theorem pitSendData_counter0 {c : Byte} (hr : c &&& 0x30 = 0x30) (x y : BitVec 16)
    (hd : d.counter0 = ⟨c, none, none⟩) : pitSendData y 0 (pitSendData x 0 d) =
      { d with counter0 := ⟨c, none, some (y.setWidth 8 ++ x.setWidth 8)⟩ } := by
  have hport : ∀ (x : BitVec 16) (d : Devices), pitSendData x 0 d =
      { d with counter0 := d.counter0.data (x.setWidth 8) } := fun _ _ => rfl
  have h1 : ¬ c &&& 0x30 = 0x10 := by
    rw [hr]
    decide
  have h2 : ¬ c &&& 0x30 = 0x20 := by
    rw [hr]
    decide
  simp only [hport, hd, Counter.data, if_neg h1, if_neg h2]

/-- **The first counter starts from the quotient of the frequencies.** -/
theorem pitStartCounter_reload (hf : freq.setWidth 16 ≠ (0 : BitVec 16)) (mode : Byte) : ∃ ocw,
    pitStartCounter freq 0 mode d = some { d with counter0 :=
      ⟨ocw, none, some (.ofNat 16 (1193181 / (freq.setWidth 16).toNat))⟩ } := by
  have h0 : freq ≠ 0 := by
    rintro rfl
    exact hf rfl
  obtain ⟨hc, hr⟩ := ocw_bits mode
  have hmode : (0 &&& ~~~0xe) ||| mode = mode := by simp
  refine ⟨(((mode &&& ~~~0x30) ||| 0x30) &&& ~~~0xc0) ||| 0, ?_⟩
  simp only [pitStartCounter, if_neg h0, if_neg hf, hmode]
  rw [pitSendCommand_counter0 hc hr, pitSendData_counter0 hr _ _ rfl, bytes_append]

/-- **It divides by zero for the multiples of 65536, and the rate is the right one from 19 Hz on, up to
where the frequency no longer fits.** -/
theorem pitStartCounter_rate (freq : Word) (mode : Byte) (d : Devices) :
    (pitStartCounter freq 0 mode d = none ↔ freq ≠ 0 ∧ freq.toNat % 2 ^ 16 = 0) ∧
    (19 ≤ freq.toNat → freq.toNat < 2 ^ 16 → ∃ e x, pitStartCounter freq 0 mode d = some e ∧
      e.counter0.reload = some x ∧ x.toNat = 1193181 / freq.toNat) := by
  have hlow : freq.setWidth 16 = (0 : BitVec 16) ↔ freq.toNat % 2 ^ 16 = 0 := by
    rw [← BitVec.toNat_inj, BitVec.toNat_setWidth]
    rfl
  constructor
  · by_cases h0 : freq = 0
    · simp [pitStartCounter, h0]
    by_cases hf : freq.setWidth 16 = (0 : BitVec 16)
    · rw [pitStartCounter, if_neg h0, if_pos hf]
      exact iff_of_true rfl ⟨h0, hlow.mp hf⟩
    · obtain ⟨ocw, h⟩ := pitStartCounter_reload (d := d) hf mode
      rw [h]
      exact iff_of_false nofun fun hm => hf (hlow.mpr hm.2)
  · intro hge hlt
    have hf : freq.setWidth 16 ≠ (0 : BitVec 16) := by
      rw [Ne, hlow, Nat.mod_eq_of_lt hlt]
      omega
    obtain ⟨ocw, h⟩ := pitStartCounter_reload (d := d) hf mode
    have hquot : 1193181 / freq.toNat < 2 ^ 16 := Nat.div_lt_of_lt_mul (by omega)
    refine ⟨_, _, h, rfl, ?_⟩
    rw [BitVec.toNat_ofNat, BitVec.toNat_setWidth, Nat.mod_eq_of_lt hlt, Nat.mod_eq_of_lt hquot]

/-! ## The controllers -/

/-- The handler of a line. -/
def lineHandler (line : Fin 16) : Handler :=
  if line = 0 then .pit else if line = 1 then .keyboard else .default

/-- The chips, and the gates in the memory, fit together. -/
structure Wired (a : Layout) (m : Mem) (d : Devices) : Prop where
  /-- Each line has the gate of its handler. -/
  gate : ∀ line, ∃ v e, d.accept line = some (v, e) ∧
    IsGate (a.handler (lineHandler line)) 0 (m.entry (entryAddr a.idt (v.setWidth 32)))
  /-- While the timer is served there is no other interrupt. -/
  timer : ∀ v e, d.accept 0 = some (v, e) → ∀ line, e.accept line = none
  /-- What a switch to another process writes without an interrupt has no effect. -/
  idle : interruptdone 0 d = d
  /-- After it there are interrupts again. -/
  done : ∀ line v e, d.accept line = some (v, e) → interruptdone (.ofNat 32 line) e = d
  /-- A hundred times a second. -/
  rate : d.counter0.reload = some 11931

/-- A controller that has been initialized. -/
def Pic.started (base cascade : Byte) : Pic := ⟨0x11, .ready, base, cascade, 0x11, 0, 0⟩

theorem picSendCommand_eq (c : Byte) (d : Devices) :
    picSendCommand c 0 d = { d with pic1 := d.pic1.command c } ∧
      picSendCommand c 1 d = { d with pic2 := d.pic2.command c } := ⟨rfl, rfl⟩

theorem picSendData_eq (c : Byte) (d : Devices) :
    picSendData c 0 d = { d with pic1 := d.pic1.data c } ∧
      picSendData c 1 d = { d with pic2 := d.pic2.data c } := ⟨rfl, rfl⟩

theorem Pic.words (d : Pic) {b : Byte} (hb : b &&& 0xf8 = b) (c : Byte) :
    (((d.command 0x11).data b).data c).data 0x11 = .started b c := by
  simpa [command, data, last, started] using hb

theorem picInit_eq (d : Devices) :
    picInit d = { d with pic1 := .started 0x20 4, pic2 := .started 0x28 2 } := by
  have hicw : ((0 : Byte) &&& ~~~0x10 ||| 0x10) &&& ~~~0x1 ||| 1 = 0x11 := by decide
  have hicw' : (0x11 : Byte) &&& ~~~0x1 ||| 1 = 0x11 := by decide
  simp only [picInit, hicw, hicw', (picSendCommand_eq _ _).1, (picSendCommand_eq _ _).2,
    (picSendData_eq _ _).1, (picSendData_eq _ _).2,
    Pic.words _ (show (0x20 : Byte) &&& 0xf8 = 0x20 by decide),
    Pic.words _ (show (0x28 : Byte) &&& 0xf8 = 0x28 by decide)]

namespace Pic

variable {b c : Byte} {i n : ℕ}

theorem admits_started : (started b c).Admits i n :=
  ⟨rfl, BitVec.zero_and, BitVec.zero_and⟩

theorem serve_started :
    (started b c).serve i = { started b c with inService := (1 : Byte) <<< i } := by
  have h : ¬ (started b c).icw4 &&& 2 ≠ 0 := by
    show ¬ (0x11 : Byte) &&& 2 ≠ 0
    decide
  rw [serve, if_neg h]
  exact congrArg (fun x => { started b c with inService := x }) BitVec.zero_or

theorem command_started : (started b c).command 0x20 = started b c := by
  rw [command, if_neg (by decide), if_pos (by decide)]
  exact congrArg (fun x => { started b c with inService := x }) BitVec.zero_and

theorem command_serve (hi : i < 8) : ((started b c).serve i).command 0x20 = started b c := by
  have hbit : ∀ i < 8, ((1 : Byte) <<< i) &&& (((1 : Byte) <<< i) - 1) = 0 := by decide
  rw [serve_started, command, if_neg (by decide), if_pos (by decide)]
  simp only [hbit i hi]
  rfl

end Pic

section Started

variable (c0 c1 c2 : Counter)

/-- The chips when the controllers have been initialized. -/
def Devices.started : Devices := ⟨.started 0x20 4, .started 0x28 2, c0, c1, c2⟩

theorem accept_first {line : Fin 16} (hl : (line : ℕ) < 8) :
    (Devices.started c0 c1 c2).accept line = some (.ofNat 8 (32 + line),
      { Devices.started c0 c1 c2 with pic1 := (Pic.started 0x20 4).serve line }) := by
  rw [Devices.accept, if_pos hl, BitVec.ofNat_add]
  exact if_pos Pic.admits_started

/-- A line of the second controller, which is on a line of the first one. -/
theorem accept_second {line : Fin 16} (hl : ¬ (line : ℕ) < 8) :
    (Devices.started c0 c1 c2).accept line = some (.ofNat 8 (32 + line),
      { Devices.started c0 c1 c2 with
        pic1 := (Pic.started 0x20 4).serve 2
        pic2 := (Pic.started 0x28 2).serve (line - 8) }) := by
  have hvec : (0x28 : Byte) + .ofNat 8 (line - 8) = .ofNat 8 (32 + line) := by bv_omega
  rw [Devices.accept, if_neg hl, ← hvec]
  have hcascade : (4 : Byte) &&& ((1 : Byte) <<< 2) ≠ 0 := by decide
  exact if_pos ⟨Pic.admits_started, hcascade, Pic.admits_started⟩

theorem accept_timer (line : Fin 16) :
    Devices.accept line
      { Devices.started c0 c1 c2 with pic1 := (Pic.started 0x20 4).serve 0 } = none := by
  have hbit : ∀ n < 9, 0 < n → ((1 : Byte) <<< 0) &&& (((1 : Byte) <<< n) - 1) ≠ 0 := by decide
  have hno : ∀ i n, n < 9 → 0 < n → ¬ ((Pic.started 0x20 4).serve 0).Admits i n := by
    intro i n hn hpos h
    rw [Pic.serve_started] at h
    exact hbit n hn hpos h.2.2
  have hn : ∀ b : Byte, (if b &&& 0x10 ≠ 0 then 2 else 2 + 1) < 9 ∧
      0 < if b &&& 0x10 ≠ 0 then 2 else 2 + 1 := by
    intro b
    split_ifs <;> decide
  by_cases hl : (line : ℕ) < 8
  · rw [Devices.accept, if_pos hl]
    exact if_neg (hno _ _ (by omega) (Nat.succ_pos _))
  · rw [Devices.accept, if_neg hl]
    exact if_neg fun h => hno 2 _ (hn _).1 (hn _).2 h.2.2

theorem interruptdone_started :
    interruptdone 0 (Devices.started c0 c1 c2) = Devices.started c0 c1 c2 := by
  have hgt : ¬ (0 : Word) > 16 := by decide
  have hge : ¬ (0 : Word) ≥ 8 := by decide
  rw [interruptdone, if_neg hgt]
  simp only [if_neg hge, (picSendCommand_eq _ _).1, Devices.started, Pic.command_started]

theorem interruptdone_accept {line : Fin 16} {v : Byte} {e : Devices}
    (he : (Devices.started c0 c1 c2).accept line = some (v, e)) :
    interruptdone (.ofNat 32 line) e = Devices.started c0 c1 c2 := by
  have hle : ¬ BitVec.ofNat 32 line > 16 := by bv_omega
  by_cases hl : (line : ℕ) < 8
  · obtain ⟨-, rfl⟩ := Prod.mk.inj (Option.some.inj ((accept_first c0 c1 c2 hl).symm.trans he))
    have hlt : ¬ BitVec.ofNat 32 line ≥ 8 := by bv_omega
    simp only [interruptdone, if_neg hle, if_neg hlt, (picSendCommand_eq _ _).1,
      Pic.command_serve hl]
    rfl
  · obtain ⟨-, rfl⟩ := Prod.mk.inj (Option.some.inj ((accept_second c0 c1 c2 hl).symm.trans he))
    have hge : BitVec.ofNat 32 line ≥ 8 := by bv_omega
    simp only [interruptdone, if_neg hle, if_pos hge, (picSendCommand_eq _ _).1,
      (picSendCommand_eq _ _).2, Pic.command_serve (show 2 < 8 by decide),
      Pic.command_serve (show (line : ℕ) - 8 < 8 by omega)]
    rfl

end Started

/-- **The chips are wired to the handlers.** -/
theorem startDevices_wired (a : Layout) (t : Tables) (d : Devices) :
    ∃ e, startDevices d = some e ∧ Wired a (halInitialize a t).mem e := by
  obtain ⟨ocw, hocw⟩ : ∃ ocw, startDevices d =
      some (.started ⟨ocw, none, some 11931⟩ d.counter1 d.counter2) := by
    have hf : (100 : Word).setWidth 16 ≠ (0 : BitVec 16) := by decide
    obtain ⟨ocw, h⟩ := pitStartCounter_reload (d := picInit d) hf 6
    rw [picInit_eq] at h
    exact ⟨ocw, by rw [startDevices, picInit_eq, h]; rfl⟩
  refine ⟨_, hocw, fun line => ?_, fun v e he line => ?_, interruptdone_started _ _ _,
    fun line v e he => ?_, rfl⟩
  · obtain ⟨e, he⟩ : ∃ e, (Devices.started ⟨ocw, none, some 11931⟩ d.counter1 d.counter2).accept line =
        some (.ofNat 8 (32 + line), e) := by
      by_cases hl : (line : ℕ) < 8
      · exact ⟨_, accept_first _ _ _ hl⟩
      · exact ⟨_, accept_second _ _ _ hl⟩
    have hline : ∀ l : Fin 16, vectorHandler (32 + l) = lineHandler l ∧ ¬ IsSystemCall (32 + l) ∧
        (BitVec.ofNat 8 (32 + l)).setWidth 32 = BitVec.ofNat 32 (32 + l) := by decide
    obtain ⟨hhandler, hsys, hvec⟩ := hline line
    have hgate := (gate_halInitialize (a := a) t
      (show 32 + (line : ℕ) < MAX_INTERRUPTS by simp only [MAX_INTERRUPTS]; omega)).isGate
    rw [if_neg hsys, hhandler, ← hvec] at hgate
    exact ⟨_, e, he, hgate⟩
  · obtain ⟨-, rfl⟩ := Prod.mk.inj (Option.some.inj ((accept_first _ _ _ (by decide)).symm.trans he))
    exact accept_timer _ _ _ line
  · exact interruptdone_accept _ _ _ he

end AdvancedOS
