import Mathlib

/-!
# The Arduino board

What the sketch drives the board through: pins, PWM, the ADC and the registers of
Timer1. `pin` is the last level written to each pin. `analogWrite` follows the
Arduino core, which turns the two ends of the duty cycle into plain levels, and
which drives pins 9 and 10, where they are outputs of Timer1, by its compare
registers and the COM bits of TCCR1A. `delay` and the serial console leave no
trace in the state.
-/

namespace ICar

/-- The microcontroller the sketch is built for (the `#if` of the motor shield). -/
inductive Mcu
  | atmega168
  | atmega328P
  | atmega32U4
  | other
deriving DecidableEq, Repr

/-- `defined(__AVR_ATmega168__) || defined(__AVR_ATmega328P__)`. -/
def Mcu.hasTimer1Shield : Mcu → Bool
  | .atmega168 | .atmega328P => true
  | .atmega32U4 | .other => false

/-- Pins 9 and 10 are the outputs OC1A and OC1B of Timer1. -/
def Mcu.hasTimer1Pins : Mcu → Bool
  | .atmega168 | .atmega328P | .atmega32U4 => true
  | .other => false

inductive Mode
  | INPUT
  | OUTPUT
deriving DecidableEq, Repr

/-- The last level written to a pin. -/
inductive Level
  | LOW
  | HIGH
  | pwm (duty : Int16)
deriving DecidableEq, Repr

/-- The duty cycle of a level, out of 255. -/
def Level.duty : Level → Int16
  | .LOW => 0
  | .HIGH => 255
  | .pwm v => v

structure Timer1 where
  TCCR1A : UInt8
  TCCR1B : UInt8
  TCNT1 : UInt16
  OCR1A : UInt16
  OCR1B : UInt16
  ICR1 : UInt16
  TIMSK1 : UInt8
deriving DecidableEq, Repr

/-- Timer1 without what a pin can write: the compare registers, and COM1A1 and COM1B1. -/
def Timer1.fixe (t : Timer1) : Timer1 :=
  { t with TCCR1A := t.TCCR1A &&& 0b01011111, OCR1A := 0, OCR1B := 0 }

/-- What `analogRead` returns. -/
abbrev Adc := Fin 1024

def Adc.toInt16 (a : Adc) : Int16 := Int16.ofNat a.val

theorem toInt_adc (p : Adc) : p.toInt16.toInt = p.val := by
  unfold Adc.toInt16
  have hp := p.isLt
  exact Int16.toInt_ofNat_of_lt (by omega)

/-- Analog pins, by their digital number. -/
def A0 : ℕ := 14
def A1 : ℕ := 15
def A4 : ℕ := 18

structure Board where
  mcu : Mcu
  mode : ℕ → Mode
  pin : ℕ → Level
  timer1 : Timer1
  /-- History: the speed last given to `setM1Speed`. -/
  m1Speed : Int16

namespace Board

def pinMode (p : ℕ) (m : Mode) (b : Board) : Board := { b with mode := Function.update b.mode p m }

/-- The bit of TCCR1A that connects a pin to Timer1: COM1A1 or COM1B1. -/
def com (p : ℕ) (b : Board) : UInt8 :=
  if b.mcu.hasTimer1Pins = true ∧ p = 9 then 0b10000000
  else if b.mcu.hasTimer1Pins = true ∧ p = 10 then 0b00100000
  else 0

/-- A level, on a pin disconnected from its timer. -/
def digitalWrite (p : ℕ) (l : Level) (b : Board) : Board :=
  { b with pin := Function.update b.pin p l, timer1.TCCR1A := b.timer1.TCCR1A &&& ~~~b.com p }

/-- A duty cycle, on a pin connected to its timer, with the compare register behind it. Timers other
than Timer1 are not modelled. -/
def connect (p : ℕ) (v : Int16) (b : Board) : Board :=
  { b with
    pin := Function.update b.pin p (.pwm v)
    timer1.TCCR1A := b.timer1.TCCR1A ||| b.com p
    timer1.OCR1A := if b.mcu.hasTimer1Pins = true ∧ p = 9 then v.toUInt16 else b.timer1.OCR1A
    timer1.OCR1B := if b.mcu.hasTimer1Pins = true ∧ p = 10 then v.toUInt16 else b.timer1.OCR1B }

def analogWrite (p : ℕ) (v : Int16) (b : Board) : Board :=
  let b := b.pinMode p .OUTPUT
  if v = 0 then b.digitalWrite p .LOW
  else if v = 255 then b.digitalWrite p .HIGH
  else b.connect p v

/-- A board at power-on: nothing driven, every pin an input. -/
def powerOn (mcu : Mcu) : Board where
  mcu := mcu
  mode := fun _ => .INPUT
  pin := fun _ => .LOW
  timer1 := ⟨0, 0, 0, 0, 0, 0, 0⟩
  m1Speed := 0

/-! ## What an operation leaves unchanged -/

variable (p q : ℕ) (m : Mode) (l : Level) (v : Int16) (b : Board)

@[simp] theorem pinMode_pin : (b.pinMode p m).pin = b.pin := rfl

@[simp] theorem pinMode_m1Speed : (b.pinMode p m).m1Speed = b.m1Speed := rfl

@[simp] theorem digitalWrite_m1Speed : (b.digitalWrite p l).m1Speed = b.m1Speed := rfl

@[simp] theorem pinMode_mcu : (b.pinMode p m).mcu = b.mcu := rfl

@[simp] theorem digitalWrite_mcu : (b.digitalWrite p l).mcu = b.mcu := rfl

@[simp] theorem digitalWrite_mode : (b.digitalWrite p l).mode = b.mode := rfl

@[simp] theorem pinMode_timer1 : (b.pinMode p m).timer1 = b.timer1 := rfl

@[simp] theorem digitalWrite_OCR1A : (b.digitalWrite p l).timer1.OCR1A = b.timer1.OCR1A := rfl

@[simp] theorem digitalWrite_self : (b.digitalWrite p l).pin p = l := Function.update_self ..

variable {p q}

theorem digitalWrite_pin_of_ne (h : q ≠ p) : (b.digitalWrite p l).pin q = b.pin q :=
  Function.update_of_ne h ..

/-- Only pins 9 and 10 are connected to Timer1. -/
theorem com_eq_zero (h9 : p ≠ 9) (h10 : p ≠ 10) : b.com p = 0 := by
  unfold com
  rw [if_neg fun hc => h9 hc.2, if_neg fun hc => h10 hc.2]

theorem digitalWrite_timer1 (h9 : p ≠ 9) (h10 : p ≠ 10) : (b.digitalWrite p l).timer1 = b.timer1 := by
  unfold digitalWrite
  rw [com_eq_zero b h9 h10]
  simp

@[simp] theorem connect_m1Speed : (b.connect p v).m1Speed = b.m1Speed := rfl

@[simp] theorem connect_mcu : (b.connect p v).mcu = b.mcu := rfl

@[simp] theorem connect_mode : (b.connect p v).mode = b.mode := rfl

@[simp] theorem connect_self : (b.connect p v).pin p = .pwm v := Function.update_self ..

theorem connect_pin_of_ne (h : q ≠ p) : (b.connect p v).pin q = b.pin q := Function.update_of_ne h ..

/-- Only a write to pin 9 reaches OCR1A, and only one to pin 10 OCR1B. -/
theorem connect_OCR1A (h : p ≠ 9) : (b.connect p v).timer1.OCR1A = b.timer1.OCR1A := if_neg fun hc => h hc.2

theorem connect_OCR1B (h : p ≠ 10) : (b.connect p v).timer1.OCR1B = b.timer1.OCR1B := if_neg fun hc => h hc.2

/-- `analogWrite` disconnects its pin, or connects it. -/
theorem analogWrite_cases : (∃ l, l.duty = v ∧ b.analogWrite p v = (b.pinMode p .OUTPUT).digitalWrite p l) ∨
    v ≠ 0 ∧ v ≠ 255 ∧ b.analogWrite p v = (b.pinMode p .OUTPUT).connect p v := by
  unfold analogWrite
  dsimp only
  split
  · exact .inl ⟨.LOW, by simp [Level.duty, *], rfl⟩
  · split
    · exact .inl ⟨.HIGH, by simp [Level.duty, *], rfl⟩
    · exact .inr ⟨‹_›, ‹_›, rfl⟩

/-- `analogWrite` writes its own pin only. -/
theorem analogWrite_pin_of_ne (h : q ≠ p) : (b.analogWrite p v).pin q = b.pin q := by
  rcases analogWrite_cases (p := p) v b with ⟨l, -, hw⟩ | ⟨-, -, hw⟩ <;> rw [hw]
  · rw [digitalWrite_pin_of_ne _ _ h, pinMode_pin]
  · rw [connect_pin_of_ne _ _ h, pinMode_pin]

@[simp] theorem analogWrite_m1Speed : (b.analogWrite p v).m1Speed = b.m1Speed := by
  rcases analogWrite_cases (p := p) v b with ⟨l, -, hw⟩ | ⟨-, -, hw⟩ <;> rw [hw]
  · simp
  · simp

@[simp] theorem analogWrite_mcu : (b.analogWrite p v).mcu = b.mcu := by
  rcases analogWrite_cases (p := p) v b with ⟨l, -, hw⟩ | ⟨-, -, hw⟩ <;> rw [hw]
  · simp
  · simp

theorem analogWrite_OCR1A (h : p ≠ 9) : (b.analogWrite p v).timer1.OCR1A = b.timer1.OCR1A := by
  rcases analogWrite_cases (p := p) v b with ⟨l, -, hw⟩ | ⟨-, -, hw⟩ <;> rw [hw]
  · rw [digitalWrite_OCR1A, pinMode_timer1]
  · rw [connect_OCR1A _ _ h, pinMode_timer1]

/-- The level `analogWrite` leaves carries the value written. -/
@[simp] theorem analogWrite_duty : ((b.analogWrite p v).pin p).duty = v := by
  rcases analogWrite_cases (p := p) v b with ⟨l, hl, hw⟩ | ⟨-, -, hw⟩ <;> rw [hw]
  · rw [digitalWrite_self, hl]
  · simp [Level.duty]

/-! ## What a pin writes of Timer1 -/

theorem and_not_com (r : UInt8) : (r &&& ~~~b.com p) &&& 0b01011111 = r &&& 0b01011111 := by
  have hcom : ~~~b.com p &&& 0b01011111 = 0b01011111 := by
    unfold com
    split <;> [rfl; split <;> rfl]
  rw [UInt8.and_assoc, hcom]

theorem or_and (r s t : UInt8) : (r ||| s) &&& t = (r &&& t) ||| (s &&& t) :=
  UInt8.toBitVec_inj.1 BitVec.and_or_distrib_right

theorem or_com (r : UInt8) : (r ||| b.com p) &&& 0b01011111 = r &&& 0b01011111 := by
  have hcom : b.com p &&& 0b01011111 = 0 := by
    unfold com
    split <;> [rfl; split <;> rfl]
  rw [or_and, hcom, UInt8.or_zero]

/-- Only a write to pin 9 connects it. -/
theorem or_com_of_ne (h : p ≠ 9) (r : UInt8) : (r ||| b.com p) &&& 0b10000000 = r &&& 0b10000000 := by
  have hcom : b.com p &&& 0b10000000 = 0 := by
    unfold com
    rw [if_neg fun hc => h hc.2]
    split <;> rfl
  rw [or_and, hcom, UInt8.or_zero]

theorem digitalWrite_fixe : (b.digitalWrite p l).timer1.fixe = b.timer1.fixe := by
  unfold digitalWrite Timer1.fixe
  dsimp only
  rw [and_not_com]

theorem analogWrite_fixe : (b.analogWrite p v).timer1.fixe = b.timer1.fixe := by
  rcases analogWrite_cases (p := p) v b with ⟨l, -, hw⟩ | ⟨-, -, hw⟩ <;> rw [hw]
  · rw [digitalWrite_fixe, pinMode_timer1]
  · unfold connect Timer1.fixe
    dsimp only
    rw [or_com, pinMode_timer1]

/-- Another pin keeps its mode. -/
theorem analogWrite_mode_of_ne (h : q ≠ p) : (b.analogWrite p v).mode q = b.mode q := by
  have hmode : (b.pinMode p .OUTPUT).mode q = b.mode q := Function.update_of_ne h ..
  rcases analogWrite_cases (p := p) v b with ⟨l, -, hw⟩ | ⟨-, -, hw⟩ <;> rw [hw]
  · rw [digitalWrite_mode, hmode]
  · rw [connect_mode, hmode]

end Board

end ICar
