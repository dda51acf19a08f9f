import ICar.Lib.FixedWidth
import ICar.Spec.Carte

/-!
# The actuators

The motor shield, the brake (`frein`), the steering (`direction`) and the throttle
(`variateur`), as the classes of the sketch compute them. Each keeps its own pin
table; the tables overlap, and nothing in the code compares them.

`frein` and `direction` run the same regulator with their own gains
(`Asserv.asservissement`). Gains are read as exact rationals, 3/10 for the steering's
0.3, and the sum is converted to `int` as on the AVR: truncated, low sixteen bits.
-/

namespace ICar

open FixedWidth

/-! ## The motor shield -/

structure DualMC33926MotorShield where
  nD2 : ℕ
  M1DIR : ℕ
  M2DIR : ℕ
  nSF : ℕ
  M1FB : ℕ
  M2FB : ℕ

namespace DualMC33926MotorShield

def M1PWM : ℕ := 9
def M2PWM : ℕ := 10

/-- The default constructor's pin map. -/
def default : DualMC33926MotorShield where
  nD2 := 4
  M1DIR := 7
  M2DIR := 8
  nSF := 12
  M1FB := A0
  M2FB := A1

def init (md : DualMC33926MotorShield) (b : Board) : Board :=
  let b := b.pinMode md.M1DIR .OUTPUT
  let b := b.pinMode M1PWM .OUTPUT
  let b := b.pinMode md.M1FB .INPUT
  let b := b.pinMode md.M2DIR .OUTPUT
  let b := b.pinMode M2PWM .OUTPUT
  let b := b.pinMode md.M2FB .INPUT
  let b := b.pinMode md.nD2 .OUTPUT
  let b := b.digitalWrite md.nD2 .HIGH -- default to on
  let b := b.pinMode md.nSF .INPUT
  if b.mcu.hasTimer1Shield then
    { b with timer1.TCCR1A := 0b10100000, timer1.TCCR1B := 0b00010001, timer1.ICR1 := 400 }
  else b

def setM1Speed (md : DualMC33926MotorShield) (speed : Int16) (b : Board) : Board :=
  let reverse := decide (speed < 0)
  let v := if speed < 0 then -speed else speed
  let v := if v > 400 then 400 else v
  let b := { b with m1Speed := speed }
  -- pin 9 is driven through Timer1, or by `analogWrite` where the shield's PWM is not compiled in
  let b := if b.mcu.hasTimer1Shield then { b with timer1.OCR1A := v.toUInt16 }
    else b.analogWrite M1PWM (v * 51 / 80)
  if reverse then b.digitalWrite md.M1DIR .HIGH else b.digitalWrite md.M1DIR .LOW

def setM2Speed (md : DualMC33926MotorShield) (speed : Int16) (b : Board) : Board :=
  let reverse := decide (speed < 0)
  let v := if speed < 0 then -speed else speed
  let v := if v > 400 then 400 else v
  let b := if b.mcu.hasTimer1Shield then { b with timer1.OCR1B := v.toUInt16 }
    else b.analogWrite M2PWM (v * 51 / 80)
  if reverse then b.digitalWrite md.M2DIR .HIGH else b.digitalWrite md.M2DIR .LOW

def setSpeeds (md : DualMC33926MotorShield) (m1Speed m2Speed : Int16) (b : Board) : Board :=
  md.setM2Speed m2Speed (md.setM1Speed m1Speed b)

end DualMC33926MotorShield

/-! ## The regulator -/

/-- The three coefficients of a regulator. -/
structure Gains where
  kp : ℚ
  ki : ℚ
  kd : ℚ

/-- The accumulators of a regulator. -/
structure Asserv where
  erreurPrecP : Int16 := 0
  erreurSommeP : Int16 := 0
deriving DecidableEq, Repr

namespace Asserv

/-- `kp * erreur + ki * erreur_sommeP + kd * erreur_delta`, the sum and the difference
being sixteen-bit. The gains and the value are exact; the code computes it in `float`, where the
product by 0.3 is rounded and can fall short of an integer that it reaches here, or pass it. -/
def valeur (g : Gains) (erreur : Int16) (a : Asserv) : ℚ :=
  g.kp * erreur.toInt + g.ki * (a.erreurSommeP + erreur).toInt + g.kd * (erreur - a.erreurPrecP).toInt

/-- One step on an error: the command, and the accumulators after it. -/
def asservissement (g : Gains) (erreur : Int16) (a : Asserv) : Int16 × Asserv :=
  (ofQ (a.valeur g erreur),
    { erreurPrecP := erreur, erreurSommeP := a.erreurSommeP + erreur })

end Asserv

/-! ## The brake -/

structure Frein extends Asserv

namespace Frein

def ledPin : ℕ := 6
def auPin : ℕ := A0
def posVcc : ℕ := 4
def md : DualMC33926MotorShield := .default
def gains : Gains := ⟨25, 0, 0⟩

def init (b : Board) : Board :=
  let b := b.pinMode ledPin .OUTPUT
  let b := b.pinMode 13 .OUTPUT
  let b := b.pinMode auPin .INPUT
  let b := b.digitalWrite 13 .HIGH
  let b := b.digitalWrite posVcc .HIGH
  let b := b.analogWrite ledPin 127
  md.init b

def asservissement (pressionConsigne pressionReel : Int16) (fr : Frein) : Int16 × Frein :=
  let r := fr.toAsserv.asservissement gains ((pressionReel - pressionConsigne) * -1)
  (r.1, ⟨r.2⟩)

/-- The speed `commande` gives to the shield. -/
def vitesse (value : Int16) (pression : Adc) (fr : Frein) : Int16 :=
  clamp (-400) 400 (fr.asservissement value pression.toInt16).1

def commande (value : Int16) (pression : Adc) (fr : Frein) (b : Board) : Frein × Board :=
  ((fr.asservissement value pression.toInt16).2, md.setM1Speed (fr.vitesse value pression) b)

end Frein

/-! ## The steering -/

structure Direction extends Asserv

namespace Direction

def carteDePuissance : ℕ := 10
def retourPotar : ℕ := A4
def gains : Gains := ⟨5, 3 / 10, 0⟩

/-- Ten alternations of the two ends of the interval, to leave the safe mode. -/
def unlock (b : Board) : Board :=
  (fun b => (b.analogWrite carteDePuissance 245).analogWrite carteDePuissance 65)^[10] b

def init (b : Board) : Board :=
  unlock ((b.pinMode carteDePuissance .OUTPUT).pinMode retourPotar .INPUT)

def asservissement (posConsigne posReel : Int16) (dir : Direction) : Int16 × Direction :=
  let r := dir.toAsserv.asservissement gains (-1 * (posReel - posConsigne))
  (r.1, ⟨r.2⟩)

def commande (value : Int16) (potar : Adc) (dir : Direction) (b : Board) : Direction × Board :=
  let r := dir.asservissement value potar.toInt16
  (r.2, b.analogWrite carteDePuissance (clamp 65 245 r.1))

end Direction

/-! ## The throttle -/

structure Variateur where
  isInit : Bool := false
deriving DecidableEq, Repr

namespace Variateur

def embrayagePlus : ℕ := 8
def embrayageMin : ℕ := 3
def massPin : ℕ := 4
def vaccPin : ℕ := 5
def fsPin : ℕ := 7

/-- `massPin` is pulsed high once; it and `fsPin` end low. -/
def initvar (b : Board) : Variateur × Board :=
  let b := b.digitalWrite fsPin .LOW
  let b := b.digitalWrite embrayagePlus .HIGH
  let b := b.digitalWrite massPin .LOW
  let b := b.digitalWrite massPin .HIGH
  let b := b.digitalWrite massPin .LOW
  let b := b.digitalWrite massPin .LOW
  let b := b.digitalWrite fsPin .LOW
  (⟨true⟩, b)

def init (b : Board) : Variateur × Board :=
  let b := b.pinMode massPin .OUTPUT
  let b := b.pinMode vaccPin .OUTPUT
  let b := b.pinMode fsPin .OUTPUT
  let b := b.pinMode embrayageMin .OUTPUT
  let b := b.pinMode embrayagePlus .OUTPUT
  let b := b.digitalWrite embrayageMin .LOW
  let b := b.digitalWrite embrayagePlus .HIGH
  let b := b.digitalWrite massPin .LOW
  let b := b.digitalWrite fsPin .LOW -- high drives, low blocks
  let b := b.analogWrite vaccPin 0
  initvar b

def commande (value : Int16) (var : Variateur) (b : Board) : Variateur × Board :=
  let r := if var.isInit then (var, b) else initvar b
  (r.1, r.2.analogWrite vaccPin (clamp 0 155 value))

/-- The fault: power cut, and the controller marked for a new initialisation. -/
def lock (b : Board) : Variateur × Board :=
  let b := b.digitalWrite vaccPin .LOW
  let b := b.digitalWrite fsPin .LOW
  (⟨false⟩, b)

end Variateur

end ICar
