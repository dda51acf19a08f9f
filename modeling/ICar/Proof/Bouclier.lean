import ICar.Lib.FixedWidth
import ICar.Lib.Run
import ICar.Spec.Actionneurs

/-!
# The two motors of the shield

`DualMC33926MotorShield` offers `setM1Speed`, `setM2Speed` and `setSpeeds`. Each motor is driven
by a direction pin and a power, which is a compare register of Timer1 on the ATmega168/328P and
the duty cycle of a pin elsewhere. `moteurs`: after any calls in any order, each motor is driven
by the last speed given to it, limited to 400 and computed without overflow, as if the other
motor were not there. No other pin has changed. Where Timer1 drives the two pins, only its compare
registers have, and, if `analogWrite` is compiled in, the bits that connect the pins to them.
-/

namespace ICar

open FixedWidth

/-! ## One motor -/

/-- The value that `setM1Speed` and `setM2Speed` make of a speed. -/
def limite (speed : Int16) : Int16 :=
  let v := if speed < 0 then -speed else speed
  if v > 400 then 400 else v

/-- The power of a speed, from 0 to 400. -/
def puissance (speed : Int16) : ℕ := min speed.toInt.natAbs 400

/-- Without overflow, but for the one speed that has no opposite. -/
theorem limite_eq {speed : Int16} (h : speed ≠ -32768) : (limite speed).toInt = puissance speed := by
  have hmin : speed.toInt ≠ -32768 := fun heq => h (Int16.toInt_inj.1 heq)
  have hlo := speed.le_toInt
  have hhi := speed.toInt_lt
  have h0 : (0 : Int16).toInt = 0 := rfl
  have h4 : (400 : Int16).toInt = 400 := by decide
  have habs : (if speed < 0 then -speed else speed).toInt = speed.toInt.natAbs := by
    simp only [Int16.lt_iff_toInt_lt, h0]
    split
    · rw [toInt_neg (by unfold Fits; omega)]
      omega
    · omega
  unfold limite puissance
  dsimp only
  by_cases hv : (if speed < 0 then -speed else speed) > 400
  · rw [if_pos hv, h4]
    rw [gt_iff_lt, Int16.lt_iff_toInt_lt, h4, habs] at hv
    omega
  · rw [if_neg hv, habs]
    rw [gt_iff_lt, Int16.lt_iff_toInt_lt, h4, habs] at hv
    omega

/-- The scale of `analogWrite`. -/
theorem limite_pwm {speed : Int16} (h : speed ≠ -32768) :
    (limite speed * 51 / 80).toInt = (puissance speed * 51 / 80 : ℕ) := by
  have hl := limite_eq h
  have hp : puissance speed ≤ 400 := min_le_right ..
  have h51 : (51 : Int16).toInt = 51 := by decide
  have h80 : (80 : Int16).toInt = 80 := by decide
  have hmul : (limite speed * 51).toInt = puissance speed * 51 := by
    rw [toInt_mul (by rw [hl, h51]; unfold Fits; omega), hl, h51]
  have hdiv : ((puissance speed : ℤ) * 51).tdiv 80 = (puissance speed * 51 / 80 : ℕ) := by
    rw [Int.tdiv_eq_ediv_of_nonneg (by omega)]
    push_cast
    rfl
  rw [Int16.toInt_div, hmul, h80, hdiv, bmod_of_fits (by unfold Fits; omega)]

/-- A motor, as it is driven. -/
structure Moteur where
  carte : Mcu
  sens : Level
  /-- Out of 400 in a compare register, out of 255 on a pin. -/
  force : ℤ

/-- The motor once a speed is set. -/
def Moteur.tourne (speed : Int16) (m : Moteur) : Moteur :=
  { m with sens := if speed < 0 then .HIGH else .LOW,
           force := if m.carte.hasTimer1Shield then puissance speed else (puissance speed * 51 / 80 : ℕ) }

/-- A speed replaces the one before. -/
theorem Moteur.tourne_tourne (u v : Int16) (m : Moteur) : (m.tourne u).tourne v = m.tourne v := rfl

/-- What drives a motor: two pins and a register. -/
structure Canal where
  dir : ℕ
  pwm : ℕ
  lit : Timer1 → UInt16
  ecrit : UInt16 → Timer1 → Timer1

namespace Canal

variable {c c' : Canal} {b : Board} {speed : Int16}

def moteur (c : Canal) (b : Board) : Moteur :=
  ⟨b.mcu, b.pin c.dir, if b.mcu.hasTimer1Shield then (c.lit b.timer1).toNat else (b.pin c.pwm).duty.toInt⟩

/-- What `setM1Speed` and `setM2Speed` do. -/
def regle (c : Canal) (speed : Int16) (b : Board) : Board :=
  let b := if b.mcu.hasTimer1Shield then { b with timer1 := c.ecrit (limite speed).toUInt16 b.timer1 }
    else b.analogWrite c.pwm (limite speed * 51 / 80)
  b.digitalWrite c.dir (if speed < 0 then .HIGH else .LOW)

/-- The pins and the register are the channel's own, and its direction pin is not Timer1's. -/
structure Propre (c : Canal) : Prop where
  dir_ne : c.dir ≠ c.pwm
  dir_9 : c.dir ≠ 9
  dir_10 : c.dir ≠ 10
  lit_ecrit : ∀ v t, c.lit (c.ecrit v t) = v
  fixe_ecrit : ∀ v t, (c.ecrit v t).fixe = t.fixe
  TCCR1A_ecrit : ∀ v t, (c.ecrit v t).TCCR1A = t.TCCR1A

/-- A channel that another does not reach. -/
structure Separe (c c' : Canal) : Prop where
  dir_dir : c.dir ≠ c'.dir
  dir_pwm : c.dir ≠ c'.pwm
  pwm_dir : c.pwm ≠ c'.dir
  pwm_pwm : c.pwm ≠ c'.pwm
  lit_ecrit : ∀ v t, c.lit (c'.ecrit v t) = c.lit t

/-- **The motor runs at the speed set.** -/
theorem moteur_regle (hc : c.Propre) (hs : speed ≠ -32768) : c.moteur (c.regle speed b) = (c.moteur b).tourne speed := by
  unfold moteur regle Moteur.tourne
  dsimp only
  have hpwm (l : Level) (b : Board) : (b.digitalWrite c.dir l).pin c.pwm = b.pin c.pwm :=
    Board.digitalWrite_pin_of_ne l b hc.dir_ne.symm
  rw [Board.digitalWrite_mcu, Board.digitalWrite_self, Board.digitalWrite_timer1 _ _ hc.dir_9 hc.dir_10, hpwm]
  cases h : b.mcu.hasTimer1Shield with
  | true =>
    have hnat : (limite speed).toUInt16.toNat = puissance speed := by
      have h0 : 0 ≤ limite speed := by
        rw [Int16.le_iff_toInt_le, limite_eq hs]
        exact Int.natCast_nonneg _
      rw [Int16.toNat_toUInt16_of_le h0, Int16.toNatClampNeg, limite_eq hs, Int.toNat_natCast]
    simp [h, hc.lit_ecrit, hnat]
  | false => simp [h, limite_pwm hs]

/-- **The other motor does not notice.** -/
theorem moteur_regle_autre (hc : c.Separe c') (hp : c'.Propre) : c.moteur (c'.regle speed b) = c.moteur b := by
  unfold moteur regle
  dsimp only
  rw [Board.digitalWrite_mcu, Board.digitalWrite_pin_of_ne _ _ hc.dir_dir, Board.digitalWrite_pin_of_ne _ _ hc.pwm_dir,
    Board.digitalWrite_timer1 _ _ hp.dir_9 hp.dir_10]
  cases h : b.mcu.hasTimer1Shield with
  | true => simp [h, hc.lit_ecrit]
  | false => simp [h, Board.analogWrite_pin_of_ne _ _ hc.dir_pwm, Board.analogWrite_pin_of_ne _ _ hc.pwm_pwm]

theorem regle_mcu : (c.regle speed b).mcu = b.mcu := by
  unfold regle
  dsimp only
  rw [Board.digitalWrite_mcu]
  split
  · rfl
  · rw [Board.analogWrite_mcu]

/-- Another pin keeps its level and its mode. -/
theorem regle_pin {p : ℕ} (hd : p ≠ c.dir) (hp : p ≠ c.pwm) :
    (c.regle speed b).pin p = b.pin p ∧ (c.regle speed b).mode p = b.mode p := by
  unfold regle
  dsimp only
  rw [Board.digitalWrite_pin_of_ne _ _ hd, Board.digitalWrite_mode]
  split
  · exact ⟨rfl, rfl⟩
  · exact ⟨Board.analogWrite_pin_of_ne _ _ hp, Board.analogWrite_mode_of_ne _ _ hp⟩

/-- Of Timer1, at most what a pin can write. -/
theorem regle_fixe (hc : c.Propre) : (c.regle speed b).timer1.fixe = b.timer1.fixe := by
  unfold regle
  dsimp only
  rw [Board.digitalWrite_fixe]
  split
  · exact hc.fixe_ecrit _ _
  · rw [Board.analogWrite_fixe]

/-- By its registers, the shield leaves the connections of the pins. -/
theorem regle_TCCR1A (hc : c.Propre) (h : b.mcu.hasTimer1Shield = true) :
    (c.regle speed b).timer1.TCCR1A = b.timer1.TCCR1A := by
  unfold regle
  dsimp only
  rw [if_pos h, Board.digitalWrite_timer1 _ _ hc.dir_9 hc.dir_10]
  exact hc.TCCR1A_ecrit _ _

end Canal

namespace DualMC33926MotorShield

variable (md : DualMC33926MotorShield)

def canal1 : Canal := ⟨md.M1DIR, M1PWM, Timer1.OCR1A, fun v t => { t with OCR1A := v }⟩
def canal2 : Canal := ⟨md.M2DIR, M2PWM, Timer1.OCR1B, fun v t => { t with OCR1B := v }⟩

theorem digitalWrite_decide (p : ℕ) (c : Prop) [Decidable c] (b : Board) :
    (if decide c = true then b.digitalWrite p .HIGH else b.digitalWrite p .LOW) =
      b.digitalWrite p (if c then .HIGH else .LOW) := by
  by_cases h : c <;> simp [h]

theorem setM1Speed_eq (v : Int16) (b : Board) : md.setM1Speed v b = md.canal1.regle v { b with m1Speed := v } :=
  digitalWrite_decide ..

theorem setM2Speed_eq (v : Int16) (b : Board) : md.setM2Speed v b = md.canal2.regle v b :=
  digitalWrite_decide ..

/-- The pins of the two motors. -/
def broches : List ℕ := [md.M1DIR, M1PWM, md.M2DIR, M2PWM]

variable {md} {b b' b'' : Board}

theorem propre1 (h : md.broches.Nodup) : md.canal1.Propre := by
  simp only [broches, M1PWM, M2PWM, List.nodup_cons, List.mem_cons, List.not_mem_nil, or_false, not_or] at h
  obtain ⟨⟨h9, -, h10⟩, -⟩ := h
  exact ⟨h9, h9, h10, fun _ _ => rfl, fun _ _ => rfl, fun _ _ => rfl⟩

theorem propre2 (h : md.broches.Nodup) : md.canal2.Propre := by
  simp only [broches, M1PWM, M2PWM, List.nodup_cons, List.mem_cons, List.not_mem_nil, or_false, not_or] at h
  obtain ⟨-, ⟨h9, -⟩, h10, -⟩ := h
  exact ⟨h10, Ne.symm h9, h10, fun _ _ => rfl, fun _ _ => rfl, fun _ _ => rfl⟩

theorem separe (h : md.broches.Nodup) : md.canal1.Separe md.canal2 ∧ md.canal2.Separe md.canal1 := by
  simp only [broches, List.nodup_cons, List.mem_cons, List.not_mem_nil, or_false, not_or] at h
  obtain ⟨⟨-, h₁, h₂⟩, ⟨h₃, h₄⟩, -⟩ := h
  exact ⟨⟨h₁, h₂, h₃, h₄, fun _ _ => rfl⟩, ⟨Ne.symm h₁, Ne.symm h₃, Ne.symm h₂, Ne.symm h₄, fun _ _ => rfl⟩⟩

variable (md) in
/-- What is not the motors' keeps its value. -/
structure Autour (b b' : Board) : Prop where
  mcu : b'.mcu = b.mcu
  pin : ∀ p ∉ md.broches, b'.pin p = b.pin p ∧ b'.mode p = b.mode p
  fixe : b.mcu.hasTimer1Pins = true → b'.timer1.fixe = b.timer1.fixe
  TCCR1A : b.mcu.hasTimer1Shield = true → b'.timer1.TCCR1A = b.timer1.TCCR1A

theorem Autour.refl (b : Board) : md.Autour b b := ⟨rfl, fun _ _ => ⟨rfl, rfl⟩, fun _ => rfl, fun _ => rfl⟩

theorem Autour.trans (h : md.Autour b b') (h' : md.Autour b' b'') : md.Autour b b'' where
  mcu := h'.mcu.trans h.mcu
  pin p hp := ⟨(h'.pin p hp).1.trans (h.pin p hp).1, (h'.pin p hp).2.trans (h.pin p hp).2⟩
  fixe hb := (h'.fixe (h.mcu ▸ hb)).trans (h.fixe hb)
  TCCR1A hb := (h'.TCCR1A (h.mcu ▸ hb)).trans (h.TCCR1A hb)

/-- A channel of the shield stays among its pins and registers. -/
theorem autour_regle {c : Canal} (hd : c.dir ∈ md.broches) (hp : c.pwm ∈ md.broches) (hc : c.Propre) (v : Int16) :
    md.Autour b (c.regle v b) where
  mcu := Canal.regle_mcu
  pin _ h := Canal.regle_pin (fun heq => h (heq ▸ hd)) fun heq => h (heq ▸ hp)
  fixe _ := Canal.regle_fixe hc
  TCCR1A := Canal.regle_TCCR1A hc

theorem autour_setM1Speed (h : md.broches.Nodup) (v : Int16) : md.Autour b (md.setM1Speed v b) := by
  have h0 : md.Autour b { b with m1Speed := v } := ⟨rfl, fun _ _ => ⟨rfl, rfl⟩, fun _ => rfl, fun _ => rfl⟩
  rw [setM1Speed_eq]
  exact h0.trans (autour_regle (by simp [broches, canal1]) (by simp [broches, canal1]) (propre1 h) v)

theorem autour_setM2Speed (h : md.broches.Nodup) (v : Int16) : md.Autour b (md.setM2Speed v b) := by
  rw [setM2Speed_eq]
  exact autour_regle (by simp [broches, canal2]) (by simp [broches, canal2]) (propre2 h) v

/-! ## Calls -/

/-- A call. -/
inductive Demande
  | setM1Speed (speed : Int16)
  | setM2Speed (speed : Int16)
  | setSpeeds (m1Speed m2Speed : Int16)

namespace Demande

def exec (md : DualMC33926MotorShield) (b : Board) : Demande → Board
  | .setM1Speed v => md.setM1Speed v b
  | .setM2Speed v => md.setM2Speed v b
  | .setSpeeds v w => md.setSpeeds v w b

/-- The speed for the first motor. -/
def vitesse1 : Demande → Option Int16
  | .setM1Speed v | .setSpeeds v _ => some v
  | .setM2Speed _ => none

/-- The speed for the second motor. -/
def vitesse2 : Demande → Option Int16
  | .setM2Speed v | .setSpeeds _ v => some v
  | .setM1Speed _ => none

/-- No speed is -32768, which has no opposite. -/
def Licite (d : Demande) : Prop := d.vitesse1 ≠ some (-32768) ∧ d.vitesse2 ≠ some (-32768)

instance (d : Demande) : Decidable d.Licite := by unfold Licite; infer_instance

variable {d : Demande}

/-- **One call** sets the first motor to the speed it has for it, or leaves it alone. -/
theorem exec_moteur1 (h : md.broches.Nodup) (hd : d.Licite) (b : Board) :
    md.canal1.moteur (d.exec md b) = d.vitesse1.elim (md.canal1.moteur b) fun v => (md.canal1.moteur b).tourne v := by
  have hv : ∀ v, d.vitesse1 = some v → v ≠ -32768 := fun v hv heq => hd.1 (heq ▸ hv)
  cases d with
  | setM1Speed v =>
    show md.canal1.moteur (md.setM1Speed v b) = _
    rw [setM1Speed_eq, Canal.moteur_regle (propre1 h) (hv v rfl)]
    rfl
  | setM2Speed v =>
    show md.canal1.moteur (md.setM2Speed v b) = _
    rw [setM2Speed_eq, Canal.moteur_regle_autre (separe h).1 (propre2 h)]
    rfl
  | setSpeeds v w =>
    show md.canal1.moteur (md.setM2Speed w (md.setM1Speed v b)) = _
    rw [setM2Speed_eq, Canal.moteur_regle_autre (separe h).1 (propre2 h), setM1Speed_eq,
      Canal.moteur_regle (propre1 h) (hv v rfl)]
    rfl

/-- The second motor likewise. -/
theorem exec_moteur2 (h : md.broches.Nodup) (hd : d.Licite) (b : Board) :
    md.canal2.moteur (d.exec md b) = d.vitesse2.elim (md.canal2.moteur b) fun v => (md.canal2.moteur b).tourne v := by
  have hv : ∀ v, d.vitesse2 = some v → v ≠ -32768 := fun v hv heq => hd.2 (heq ▸ hv)
  cases d with
  | setM1Speed v =>
    show md.canal2.moteur (md.setM1Speed v b) = _
    rw [setM1Speed_eq, Canal.moteur_regle_autre (separe h).2 (propre1 h)]
    rfl
  | setM2Speed v =>
    show md.canal2.moteur (md.setM2Speed v b) = _
    rw [setM2Speed_eq, Canal.moteur_regle (propre2 h) (hv v rfl)]
    rfl
  | setSpeeds v w =>
    show md.canal2.moteur (md.setM2Speed w (md.setM1Speed v b)) = _
    rw [setM2Speed_eq, Canal.moteur_regle (propre2 h) (hv w rfl), setM1Speed_eq,
      Canal.moteur_regle_autre (separe h).2 (propre1 h)]
    rfl

theorem exec_autour (h : md.broches.Nodup) (d : Demande) (b : Board) : md.Autour b (d.exec md b) := by
  cases d with
  | setM1Speed v => exact autour_setM1Speed h v
  | setM2Speed v => exact autour_setM2Speed h v
  | setSpeeds v w => exact (autour_setM1Speed h v).trans (autour_setM2Speed h w)

end Demande

end DualMC33926MotorShield

open DualMC33926MotorShield

/-- **The motors of the shield**, after any calls: each is driven by the last speed given to it,
or as before if there is none; the pins and registers that are not the motors' keep their values. -/
theorem moteurs (md : DualMC33926MotorShield) (ds : List Demande) (b : Board) (h : md.broches.Nodup)
    (hds : ∀ d ∈ ds, d.Licite) :
    let b' := ds.foldl (Demande.exec md) b
    md.canal1.moteur b' =
      (ds.reverse.findSome? Demande.vitesse1).elim (md.canal1.moteur b) (fun v => (md.canal1.moteur b).tourne v) ∧
    md.canal2.moteur b' =
      (ds.reverse.findSome? Demande.vitesse2).elim (md.canal2.moteur b) (fun v => (md.canal2.moteur b).tourne v) ∧
    md.Autour b b' := by
  refine ⟨?_, ?_, ?_⟩
  · exact foldl_registre Moteur.tourne_tourne (fun d hd b => d.exec_moteur1 h (hds d hd) b) b
  · exact foldl_registre Moteur.tourne_tourne (fun d hd b => d.exec_moteur2 h (hds d hd) b) b
  · refine List.foldlRecOn ds _ (motive := fun b' => md.Autour b b') (.refl b) ?_
    exact fun b' hb' d _ => hb'.trans (d.exec_autour h b')

/-- Full speed ahead, then the second motor back, then the first one past its limit. -/
def DualMC33926MotorShield.Demande.exemple : List Demande := [.setSpeeds 400 100, .setM2Speed (-50), .setM1Speed 4000]

/-- By the registers, and by the pins where these are Timer1's too. -/
theorem moteurs_limite : ∃ b b', Demande.exemple.foldl (Demande.exec .default) (.powerOn .atmega328P) = b ∧
    Demande.exemple.foldl (Demande.exec .default) (.powerOn .atmega32U4) = b' ∧
    (b.timer1.OCR1A.toNat : ℤ) = 400 ∧ (b.timer1.OCR1B.toNat : ℤ) = 50 ∧ b.pin 7 = .LOW ∧ b.pin 8 = .HIGH ∧
    (b'.pin 9).duty.toInt = 255 ∧ (b'.pin 10).duty.toInt = 31 := by
  obtain ⟨h₁, h₂, -⟩ := moteurs .default Demande.exemple (.powerOn .atmega328P) (by decide) (by decide)
  obtain ⟨g₁, g₂, -⟩ := moteurs .default Demande.exemple (.powerOn .atmega32U4) (by decide) (by decide)
  exact ⟨_, _, rfl, rfl, congrArg Moteur.force h₁, congrArg Moteur.force h₂, congrArg Moteur.sens h₁,
    congrArg Moteur.sens h₂, congrArg Moteur.force g₁, congrArg Moteur.force g₂⟩

end ICar
