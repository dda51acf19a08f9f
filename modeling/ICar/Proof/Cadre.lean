import ICar.Proof.Periode
import ICar.Proof.Volant

/-!
# What the running program leaves alone

After `setup` only five pins are written (`ecrites`), and the throttle's initialisation writes a
sixth with the level it has. So in every run the clutch pins, the LED and the sensor supply stay
as `setup` left them, every pin keeps its mode, and Timer1 keeps the mode of `initTimer1` and its
interrupt (`cadre`).

`initTimer1` comes after the shield's `init` and clears TCCR1A, which connected pin 9 to Timer1. On
the ATmega168/328P nothing connects it again: the brake's speeds go to OCR1A, and not to the pin.
The steering's pin is written by `analogWrite`, and OCR1B is its duty cycle.
-/

namespace ICar

open FixedWidth DualMC33926MotorShield

variable {mcu : Mcu} {m : Machine} {b : Board} {s : Sketch}

/-- The pins written after `setup`. -/
def ecrites : List ℕ := [Frein.md.nD2, Variateur.vaccPin, Frein.md.M1DIR, M1PWM, Direction.carteDePuissance]

/-- A board on which `setup` has been run, and only actuators have been driven since. -/
structure Cadre (mcu : Mcu) (b : Board) : Prop where
  carte : b.mcu = mcu
  pins : ∀ q ∉ ecrites, b.pin q = (Sketch.setup mcu).board.pin q
  modes : b.mode = (Sketch.setup mcu).board.mode
  /-- All but the bits that connect pins 9 and 10. -/
  TCCR1A : b.timer1.TCCR1A &&& 0b01011111 = 0
  TCCR1B : b.timer1.TCCR1B = 0b00001100
  TIMSK1 : b.timer1.TIMSK1 = 0b00000010
  ICR1 : mcu.hasTimer1Shield = true → b.timer1.ICR1 = 400
  /-- Pin 9 is not connected. -/
  COM1A1 : mcu.hasTimer1Shield = true → b.timer1.TCCR1A &&& 0b10000000 = 0
  OCR1B : mcu.hasTimer1Pins = true → b.timer1.OCR1B = (b.pin Direction.carteDePuissance).duty.toUInt16

theorem digitalWrite_same {p : ℕ} {l : Level} (h : b.pin p = l) (h9 : p ≠ 9) (h10 : p ≠ 10) : b.digitalWrite p l = b := by
  have hpin : Function.update b.pin p l = b.pin := Function.update_eq_self_iff.2 h.symm
  unfold Board.digitalWrite
  rw [hpin, Board.com_eq_zero b h9 h10]
  simp

theorem cadre_setup (mcu : Mcu) : Cadre mcu (Sketch.setup mcu).board where
  carte := by cases mcu <;> rfl
  pins _ _ := rfl
  modes := rfl
  TCCR1A := by cases mcu <;> decide
  TCCR1B := by cases mcu <;> decide
  TIMSK1 := by cases mcu <;> decide
  ICR1 := by cases mcu <;> decide
  COM1A1 := by cases mcu <;> decide
  OCR1B := by cases mcu <;> decide +kernel

/-! ## The board's operations -/

namespace Cadre

theorem digitalWrite (h : Cadre mcu b) {p : ℕ} (hp : p ∈ ecrites) (hne : p ≠ Direction.carteDePuissance)
    (l : Level) : Cadre mcu (b.digitalWrite p l) := by
  refine { h with pins := fun q hq => ?_, TCCR1A := ?_, COM1A1 := fun hmcu => ?_, OCR1B := fun hmcu => ?_ }
  · have hqp : q ≠ p := fun heq => hq (heq ▸ hp)
    rw [Board.digitalWrite_pin_of_ne _ _ hqp]
    exact h.pins q hq
  · exact (Board.and_not_com b _).trans h.TCCR1A
  · show (b.timer1.TCCR1A &&& ~~~b.com p) &&& 0b10000000 = 0
    rw [UInt8.and_assoc, UInt8.and_comm (~~~b.com p), ← UInt8.and_assoc, h.COM1A1 hmcu, UInt8.zero_and]
  · rw [Board.digitalWrite_pin_of_ne _ _ hne.symm]
    exact h.OCR1B hmcu

/-- A pin that `setup` made an output is one already. -/
theorem pinMode (h : Cadre mcu b) {p : ℕ} (hp : (Sketch.setup mcu).board.mode p = .OUTPUT) :
    b.pinMode p .OUTPUT = b := by
  have hmode : Function.update b.mode p .OUTPUT = b.mode := by
    rw [Function.update_eq_self_iff, h.modes, hp]
  unfold Board.pinMode
  rw [hmode]

/-- A duty cycle goes to its pin, and to the compare register behind it. -/
theorem connect (h : Cadre mcu b) {p : ℕ} (hp : p ∈ ecrites) (h9 : mcu.hasTimer1Shield = true → p ≠ 9) (v : Int16) :
    Cadre mcu (b.connect p v) := by
  refine { h with pins := fun q hq => ?_, TCCR1A := ?_, COM1A1 := fun hs => ?_, OCR1B := fun hpins => ?_ }
  · have hqp : q ≠ p := fun heq => hq (heq ▸ hp)
    rw [Board.connect_pin_of_ne _ _ hqp]
    exact h.pins q hq
  · exact (Board.or_com b _).trans h.TCCR1A
  · exact (Board.or_com_of_ne b (h9 hs) _).trans (h.COM1A1 hs)
  · by_cases h10 : p = Direction.carteDePuissance
    · subst h10
      rw [Board.connect_self]
      exact if_pos ⟨by rw [h.carte, hpins], rfl⟩
    · rw [Board.connect_OCR1B _ _ h10, Board.connect_pin_of_ne _ _ (Ne.symm h10)]
      exact h.OCR1B hpins

/-- A pin outside the steering's. -/
theorem analogWrite (h : Cadre mcu b) {p : ℕ} (hp : p ∈ ecrites) (hne : p ≠ Direction.carteDePuissance)
    (hmode : (Sketch.setup mcu).board.mode p = .OUTPUT) (h9 : mcu.hasTimer1Shield = true → p ≠ 9) (v : Int16) :
    Cadre mcu (b.analogWrite p v) := by
  rcases Board.analogWrite_cases (p := p) v b with ⟨l, -, hw⟩ | ⟨-, -, hw⟩ <;> rw [hw, h.pinMode hmode]
  · exact h.digitalWrite hp hne l
  · exact h.connect hp h9 v

/-- The steering's pin and its compare register are written together. -/
theorem analogWrite_volant (h : Cadre mcu b) {v : Int16} (h0 : v ≠ 0) (h255 : v ≠ 255) :
    Cadre mcu (b.analogWrite Direction.carteDePuissance v) := by
  unfold Board.analogWrite
  rw [h.pinMode (by cases mcu <;> decide)]
  dsimp only
  rw [if_neg h0, if_neg h255]
  exact h.connect (by decide) (fun _ => by decide) v

theorem setM1Speed (h : Cadre mcu b) (v : Int16) : Cadre mcu (Frein.md.setM1Speed v b) := by
  have hdir : Frein.md.M1DIR ∈ ecrites ∧ Frein.md.M1DIR ≠ Direction.carteDePuissance := by decide
  unfold DualMC33926MotorShield.setM1Speed
  dsimp only
  cases hs : b.mcu.hasTimer1Shield with
  | true =>
    rw [if_pos rfl]
    have hreg : ∀ w : UInt16, Cadre mcu { b with m1Speed := v, timer1.OCR1A := w } := fun w => { h with }
    split <;> exact (hreg _).digitalWrite hdir.1 hdir.2 _
  | false =>
    rw [if_neg Bool.false_ne_true]
    have hspeed : Cadre mcu { b with m1Speed := v } := { h with }
    have hpwm : ∀ w, Cadre mcu (Board.analogWrite M1PWM w { b with m1Speed := v }) := fun w =>
      hspeed.analogWrite (p := M1PWM) (by decide) (by decide) (by cases mcu <;> decide)
        (fun hmcu => by rw [← h.carte, hs] at hmcu; cases hmcu) w
    split <;> exact (hpwm _).digitalWrite hdir.1 hdir.2 _

/-- The throttle's initialisation writes the clutch pin with the level it has. -/
theorem initvar (h : Cadre mcu b) : Cadre mcu (Variateur.initvar b).2 := by
  have hfs : Variateur.fsPin ∈ ecrites ∧ Variateur.fsPin ≠ Direction.carteDePuissance := by decide
  have hmass : Variateur.massPin ∈ ecrites ∧ Variateur.massPin ≠ Direction.carteDePuissance := by decide
  have h1 := h.digitalWrite hfs.1 hfs.2 .LOW
  have hemb : (b.digitalWrite Variateur.fsPin .LOW).digitalWrite Variateur.embrayagePlus .HIGH =
      b.digitalWrite Variateur.fsPin .LOW := by
    refine digitalWrite_same ?_ (by decide) (by decide)
    rw [h1.pins _ (by decide)]
    cases mcu <;> rfl
  unfold Variateur.initvar
  dsimp only
  rw [hemb]
  exact ((((h1.digitalWrite hmass.1 hmass.2 _).digitalWrite hmass.1 hmass.2 _).digitalWrite hmass.1 hmass.2 _).digitalWrite
    hmass.1 hmass.2 _).digitalWrite hfs.1 hfs.2 _

/-! ## The sketch's operations -/

theorem dirCommande (h : Cadre mcu s.board) (v : Int16) (c : Sensors) : Cadre mcu (s.dirCommande v c).board := by
  have hmem := clamp_mem (show (65 : Int16) ≤ 245 by decide) (s.dir.asservissement v c.potar.toInt16).1
  unfold Sketch.dirCommande Direction.commande
  apply h.analogWrite_volant
  · intro h0
    rw [h0] at hmem
    exact absurd hmem.1 (by decide)
  · intro h255
    rw [h255] at hmem
    exact absurd hmem.2 (by decide)

theorem frCommande (h : Cadre mcu s.board) (v : Int16) (c : Sensors) : Cadre mcu (s.frCommande v c).board := by
  rw [Sketch.frCommande_board]
  exact h.setM1Speed _

theorem varCommande (h : Cadre mcu s.board) (v : Int16) : Cadre mcu (s.varCommande v).board := by
  unfold Sketch.varCommande Variateur.commande
  have hw : ∀ b, Cadre mcu b → Cadre mcu (b.analogWrite Variateur.vaccPin (clamp 0 155 v)) := fun b hb =>
    hb.analogWrite (by decide) (by decide) (by cases mcu <;> decide) (fun _ => by decide) _
  apply hw
  split
  · exact h
  · exact h.initvar

theorem varLock (h : Cadre mcu s.board) : Cadre mcu s.varLock.board :=
  (h.digitalWrite (by decide) (by decide) _).digitalWrite (by decide) (by decide) _

theorem exec (h : Cadre mcu s.board) (c : Sensors) (i : Stmt) : Cadre mcu (i.exec c s).board := by
  cases i with
  | dirCommande v => exact h.dirCommande v c
  | frCommande v => exact h.frCommande v c
  | varCommande v => exact h.varCommande v
  | varLock => exact h.varLock
  | _ => exact h

end Cadre

/-- **What the running program leaves alone**, in every state of every run: all pins but
`ecrites`, the pin modes, the timer's mode and its interrupt. By its registers the brake's PWM
does not reach its pin, and the timer's second compare register is the steering's. -/
theorem cadre (hm : (machine mcu).Reach m) : Cadre mcu m.sketch.board := by
  refine hm.inv (I := fun m => Cadre mcu m.sketch.board) (cadre_setup mcu) (fun t e t' _ ht hstep => ?_)
  rcases step_cases hstep with ⟨b, -, -, rfl⟩ | ⟨c, i, l, -, -, rfl⟩ | ⟨c, -, rfl⟩
  · unfold Machine.octet
    split <;> exact ht
  · exact ht.exec c i
  · exact ((ht.frCommande _ c).dirCommande _ c).varCommande _

/-- After a message `X` and an interrupt: the clutch pin is as `setup` left it, pin 9 is not connected,
and OCR1B is 245. -/
theorem cadre_X : ∃ m, (machine .atmega328P).Reach m ∧ m.sketch.board.pin Variateur.embrayagePlus = .HIGH ∧
    m.sketch.board.timer1.TCCR1A &&& 0b10000000 = 0 ∧ m.sketch.board.timer1.OCR1B = 245 := by
  have hrun : (machine .atmega328P).run (machine .atmega328P).init
      [.octet 88, .octet 10, .stmt ⟨0, 0⟩, .tick ⟨0, 0⟩] = some _ := rfl
  have h := cadre ⟨_, hrun⟩
  exact ⟨_, ⟨_, hrun⟩, h.pins _ (by decide), h.COM1A1 rfl, (h.OCR1B rfl).trans (by decide +kernel)⟩

end ICar
