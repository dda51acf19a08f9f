import ICar.Proof.Frein

/-!
# The period of the interrupt

`initTimer1` sets the compare register OCR1A of Timer1 for a period of half a second. On the
ATmega168/328P the brake's shield sets its PWM by the same register: every call of
`frein::commande` overwrites the period with a speed, at most 400 (`exec_ocr1a`, `isr_ocr1a`).
The steering and the throttle leave the register alone.

`periode_iff`: the period is that of `initTimer1` exactly until the first call of
`frein::commande`, so at the latest until the first interrupt.
-/

namespace ICar

open FixedWidth

variable {mcu : Mcu} {m m' : Machine} {es : List Ev}

/-! ## The compare register -/

/-- The value that a speed gives to the compare register. -/
def compare (speed : Int16) : UInt16 :=
  let v := if speed < 0 then -speed else speed
  (if v > 400 then 400 else v).toUInt16

theorem setM1Speed_OCR1A (md : DualMC33926MotorShield) (v : Int16) {b : Board} (h : b.mcu.hasTimer1Shield = true) :
    (md.setM1Speed v b).timer1.OCR1A = compare v := by
  unfold DualMC33926MotorShield.setM1Speed compare
  dsimp only
  rw [if_pos h]
  split <;> rw [Board.digitalWrite_OCR1A]

theorem setM1Speed_mcu (md : DualMC33926MotorShield) (v : Int16) (b : Board) :
    (md.setM1Speed v b).mcu = b.mcu := by
  unfold DualMC33926MotorShield.setM1Speed
  dsimp only
  split <;> rw [Board.digitalWrite_mcu] <;> split
  all_goals first
    | rfl
    | rw [Board.analogWrite_mcu]

/-- The speeds that `frein::commande` gives are limited, and so is the register. -/
theorem compare_le {v : Int16} (hlo : -400 ≤ v.toInt) (hhi : v.toInt ≤ 400) : compare v ≤ 400 := by
  have hlim : ∀ w : Int16, 0 ≤ w → w ≤ 400 → (if w > 400 then 400 else w).toUInt16 ≤ 400 := by
    intro w h0 h4
    rw [if_neg (Int16.not_lt.2 h4)]
    exact Int16.toUInt16_le h0 h4
  unfold compare
  have h0 : (0 : Int16).toInt = 0 := rfl
  have h4 : (400 : Int16).toInt = 400 := by decide
  apply hlim
  · split <;> rename_i hv <;> rw [Int16.lt_iff_toInt_lt, h0] at hv <;> rw [Int16.le_iff_toInt_le, h0]
    · rw [toInt_neg] <;> [omega; (unfold Fits; omega)]
    · omega
  · split <;> rename_i hv <;> rw [Int16.lt_iff_toInt_lt, h0] at hv <;> rw [Int16.le_iff_toInt_le, h4]
    · rw [toInt_neg] <;> [omega; (unfold Fits; omega)]
    · omega

theorem compare_vitesse_le (fr : Frein) (v : Int16) (p : Adc) : compare (fr.vitesse v p) ≤ 400 := by
  have h := clamp_mem (show (-400 : Int16) ≤ 400 by decide) (fr.asservissement v p.toInt16).1
  exact compare_le h.1 h.2

/-! ## What the sketch's operations write -/

/-- The compare value of Timer1. -/
def Sketch.ocr1a (s : Sketch) : UInt16 := s.board.timer1.OCR1A

section Operations

variable (s : Sketch) (c : Sensors) (value : Int16)

theorem initvar_timer1 (b : Board) : (Variateur.initvar b).2.timer1 = b.timer1 := by
  simp (disch := decide) only [Variateur.initvar, Board.digitalWrite_timer1]

theorem initvar_mcu (b : Board) : (Variateur.initvar b).2.mcu = b.mcu := by
  simp only [Variateur.initvar, Board.digitalWrite_mcu]

@[simp] theorem frCommande_mcu : (s.frCommande value c).board.mcu = s.board.mcu := by
  rw [Sketch.frCommande_board, setM1Speed_mcu]

@[simp] theorem dirCommande_mcu : (s.dirCommande value c).board.mcu = s.board.mcu := by
  simp only [Sketch.dirCommande, Direction.commande, Board.analogWrite_mcu]

@[simp] theorem varCommande_mcu : (s.varCommande value).board.mcu = s.board.mcu := by
  simp only [Sketch.varCommande, Variateur.commande, Board.analogWrite_mcu]
  split <;> [rfl; rw [initvar_mcu]]

@[simp] theorem varLock_mcu : s.varLock.board.mcu = s.board.mcu := by
  simp only [Sketch.varLock, Variateur.lock, Board.digitalWrite_mcu]

@[simp] theorem dirCommande_ocr1a : (s.dirCommande value c).ocr1a = s.ocr1a := by
  simp only [Sketch.ocr1a, Sketch.dirCommande, Direction.commande]
  exact Board.analogWrite_OCR1A _ _ (by decide)

@[simp] theorem varCommande_ocr1a : (s.varCommande value).ocr1a = s.ocr1a := by
  simp only [Sketch.ocr1a, Sketch.varCommande, Variateur.commande]
  rw [Board.analogWrite_OCR1A _ _ (by decide)]
  split <;> [rfl; rw [initvar_timer1]]

@[simp] theorem varLock_ocr1a : s.varLock.ocr1a = s.ocr1a := by
  simp only [Sketch.ocr1a, Sketch.varLock, Variateur.lock, Board.digitalWrite_OCR1A]

/-- The brake's speed goes to the register that holds the period. -/
theorem frCommande_ocr1a (h : s.board.mcu.hasTimer1Shield = true) :
    (s.frCommande value c).ocr1a = compare (s.fr.vitesse value c.pression) := by
  rw [Sketch.ocr1a, Sketch.frCommande_board, setM1Speed_OCR1A _ _ h]

theorem isr_mcu : (s.isr c).board.mcu = s.board.mcu := by simp [Sketch.isr]

theorem isr_ocr1a (h : s.board.mcu.hasTimer1Shield = true) :
    (s.isr c).ocr1a = compare (s.fr.vitesse s.commandeFrein c.pression) := by
  simp only [Sketch.isr, varCommande_ocr1a, dirCommande_ocr1a]
  exact frCommande_ocr1a s c _ h

theorem exec_mcu (i : Stmt) : (i.exec c s).board.mcu = s.board.mcu := by
  cases i <;> simp [Stmt.exec]

theorem exec_ocr1a (h : s.board.mcu.hasTimer1Shield = true) (i : Stmt) : (i.exec c s).ocr1a =
    match i with
    | .frCommande v => compare (s.fr.vitesse v c.pression)
    | _ => s.ocr1a := by
  cases i with
  | frCommande v => exact frCommande_ocr1a s c v h
  | dirCommande v => exact dirCommande_ocr1a s c v
  | varCommande v => exact varCommande_ocr1a s v
  | varLock => exact varLock_ocr1a s
  | _ => rfl

end Operations

/-! ## The runs -/

/-- The call of `frein::commande` that an event makes: the order and the reading. -/
def Machine.appelFr (m : Machine) : Ev → Option (Int16 × Adc)
  | .octet _ => none
  | .stmt c => match m.reste.head? with
    | some (.frCommande v) => some (v, c.pression)
    | _ => none
  | .tick c => some (m.sketch.commandeFrein, c.pression)

def Machine.appelsFr (m : Machine) (e : Ev) : ℕ := (m.appelFr e).elim 0 fun _ => 1

/-- The number of calls of `frein::commande` since start-up. -/
def nbAppelsFr (mcu : Mcu) (es : List Ev) : ℕ := (machine mcu).total Machine.appelsFr (machine mcu).init es

theorem reach_mcu (hm : (machine mcu).Reach m) : m.sketch.board.mcu = mcu := by
  refine hm.inv (I := fun m => m.sketch.board.mcu = mcu) (by cases mcu <;> rfl) (fun t e t' _ ht hstep => ?_)
  rcases step_cases hstep with ⟨b, -, -, rfl⟩ | ⟨c, i, l, -, -, rfl⟩ | ⟨c, -, rfl⟩
  · unfold Machine.octet
    split <;> exact ht
  · rw [exec_mcu]
    exact ht
  · rw [isr_mcu]
    exact ht

/-- **One event**: the register takes a speed when the event makes a call, and is left alone
otherwise. -/
theorem step_ocr1a {e : Ev} (hmcu : m.sketch.board.mcu.hasTimer1Shield = true)
    (h : (machine mcu).step m e = some m') : m'.sketch.ocr1a =
    match m.appelFr e with
    | some (v, p) => compare (m.sketch.fr.vitesse v p)
    | none => m.sketch.ocr1a := by
  rcases step_cases h with ⟨b, rfl, -, rfl⟩ | ⟨c, i, l, rfl, hr, rfl⟩ | ⟨c, rfl, rfl⟩
  · unfold Machine.octet
    split <;> rfl
  · rw [exec_ocr1a _ _ hmcu]
    unfold Machine.appelFr
    rw [hr]
    cases i <;> rfl
  · exact isr_ocr1a _ c hmcu

theorem ocr1a_setup (mcu : Mcu) : (machine mcu).init.sketch.ocr1a = 31250 := by
  cases mcu <;> rfl

/-- **How long the period of the interrupt lasts.** On the ATmega168/328P, in every state of
every run: exactly until the first call of `frein::commande`. From then on the compare value
is at most 400. -/
theorem periode_iff (hmcu : mcu.hasTimer1Shield = true) (h : (machine mcu).run (machine mcu).init es = some m) :
    (m.sketch.ocr1a = 31250 ↔ nbAppelsFr mcu es = 0) ∧ (nbAppelsFr mcu es ≠ 0 → m.sketch.ocr1a ≤ 400) := by
  have key := Sys.run_total (g := Machine.appelsFr) (a := 0)
    (P := fun t n => (machine mcu).Reach t ∧
      if n = 0 then t.sketch.ocr1a = 31250 else t.sketch.ocr1a ≤ 400)
    (fun t n e t' ht hstep => ?_) ⟨Sys.Reach.init, ocr1a_setup mcu⟩ h
  · rw [zero_add] at key
    have hn := key.2
    change if nbAppelsFr mcu es = 0 then _ else _ at hn
    split at hn
    · exact ⟨iff_of_true hn ‹_›, fun hne => absurd ‹_› hne⟩
    · -- no compare value of a speed is 31250
      refine ⟨iff_of_false (fun h3 => ?_) ‹_›, fun _ => hn⟩
      rw [h3] at hn
      exact absurd hn (by decide)
  obtain ⟨hreach, hper⟩ := ht
  refine ⟨hreach.step hstep, ?_⟩
  rw [step_ocr1a (by rw [reach_mcu hreach]; exact hmcu) hstep]
  unfold Machine.appelsFr
  cases ha : t.appelFr e with
  | none => exact hper
  | some a =>
    rw [Option.elim_some, if_neg (Nat.succ_ne_zero n)]
    exact compare_vitesse_le ..

/-- A throttle order received and executed: the period is still that of `initTimer1`. -/
theorem periode_V : ∃ m, (machine .atmega328P).run (machine .atmega328P).init
      [.octet 86, .octet 30, .octet 10, .stmt ⟨0, 0⟩, .stmt ⟨0, 0⟩, .stmt ⟨0, 0⟩] = some m ∧
    m.reste = [] ∧ m.sketch.ocr1a = 31250 := by
  obtain ⟨m, hrun, hidle⟩ : ∃ m, (machine .atmega328P).run (machine .atmega328P).init
      [.octet 86, .octet 30, .octet 10, .stmt ⟨0, 0⟩, .stmt ⟨0, 0⟩, .stmt ⟨0, 0⟩] = some m ∧ m.reste = [] :=
    ⟨_, rfl, rfl⟩
  exact ⟨m, hrun, hidle, (periode_iff rfl hrun).1.2 rfl⟩

/-- One interrupt after `setup`, at a pressure of 10: the compare value is a speed. -/
theorem not_periode_tick : ∃ es m, (machine .atmega328P).run (machine .atmega328P).init es = some m ∧
    m.sketch.ocr1a = 250 ∧ m.sketch.ocr1a ≠ 31250 :=
  ⟨[.tick ⟨10, 0⟩], _, rfl, by decide +kernel, by decide +kernel⟩

end ICar
