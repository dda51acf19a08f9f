import ICar.Lib.Blocs
import ICar.Spec.Actionneurs
import ICar.Spec.Programme

/-!
# The sketches before the central one

The steering, the brake and the throttle each had an Arduino of its own. Their `loop` reads a
block of bytes when some wait (`Serial.readBytes`, which gives up after a second), takes an order
from it, and drives its actuator from the order and the sensors. The array of the block is not
initialised: after a block cut short its end is what the stack held.

`asservissementF` and the throttle's `asservissement` are the regulator of the central sketch, with
their own gains. The prints and the delays leave no trace in the state.
-/

namespace ICar

open FixedWidth

/-! ## The steering: `direction.ino` -/

structure AncienDirection where
  consigne : Int16 := 0
  erreurSomme : Int16 := 0
  erreurPrec : Int16 := 0
  board : Board

namespace AncienDirection

def variateur : ℕ := 10
def alimPotar : ℕ := 6
def retourPotar : ℕ := A4
def kp : Int16 := 30
def ki : Int16 := 0
def kd : Int16 := 0

def setup (mcu : Mcu) : AncienDirection :=
  let b := Board.powerOn mcu
  let b := b.pinMode variateur .OUTPUT
  let b := b.pinMode alimPotar .OUTPUT
  let b := b.pinMode retourPotar .INPUT
  { board := b.digitalWrite alimPotar .HIGH }

/-- The order of a block of two bytes, or the one before. -/
def Consigne (lu : Option (ℕ → Int8)) (memo : Int16) : Int16 :=
  match lu with
  | some c => (((c 0).toInt16 - 48) * 10 + (c 1).toInt16 - 48) * 10
  | none => memo

def asservissement (consigne retourCapteur : Int16) (s : AncienDirection) : AncienDirection :=
  let erreur := consigne - retourCapteur
  let erreurSomme := s.erreurSomme + erreur
  let erreurDelta := s.erreurPrec - erreur
  let commande := erreur * kp + erreurSomme * ki + erreurDelta * kd
  { s with erreurSomme, erreurPrec := erreur, board := s.board.analogWrite 10 (clamp 65 245 commande) }

/-- Forty alternations of the two ends of the interval, to leave the safe mode. -/
def unlock (s : AncienDirection) : AncienDirection :=
  { s with board := (fun b => (b.analogWrite 10 245).analogWrite 10 65)^[40] s.board }

/-- Outside the interval: no torque on the wheel. -/
def lock (s : AncienDirection) : AncienDirection := { s with board := s.board.analogWrite 10 0 }

def loop (lu : Option (ℕ → Int8)) (potar : Adc) (s : AncienDirection) : AncienDirection :=
  let s := { s with consigne := Consigne lu s.consigne }
  if s.consigne = 0 then s.lock
  else if s.consigne = 10 then s.unlock
  else s.asservissement s.consigne potar.toInt16

def machine (mcu : Mcu) : Sys (Blocs.Etat Int8 AncienDirection) (Blocs.Ev Int8 Adc) :=
  Blocs.machine 2 (setup mcu) loop

end AncienDirection

/-! ## The brake: `frein.ino` -/

structure AncienFrein where
  sF : Int16 := 0
  /-- `erreur_precF` and `erreur_sommeF`. -/
  asservF : Asserv := {}
  /-- `erreur_precP` and `erreur_sommeP`. -/
  asservP : Asserv := {}
  board : Board

namespace AncienFrein

def ledPin : ℕ := 6
def md : DualMC33926MotorShield := .default
def gains : Gains := ⟨20, 0, 0⟩

/-- Its statements are those of the central sketch's `frein::init`. -/
def setup (mcu : Mcu) : AncienFrein := { board := Frein.init (Board.powerOn mcu) }

/-- What a turn reads: the emergency stop, the pressure and the jack's position. -/
structure Capteurs where
  au : Adc
  pression : Adc
  pos : Adc

def ConsigneF (lu : Option (ℕ → Int8)) (memo : Int16) : Int16 :=
  match lu with
  | some c =>
    let d := (c 0).toInt16 - 48
    let u := (c 1).toInt16 - 48
    (10 * d + u) * 10
  | none => memo

/-- The regulator on the pressure. -/
def asservissementF (posConsigne posReel : Int16) (s : AncienFrein) : AncienFrein :=
  let posConsigne := if posConsigne > 450 then 450 else posConsigne
  let r := s.asservF.asservissement gains (posConsigne - posReel)
  { s with asservF := r.2, board := md.setM1Speed (clamp (-400) 400 r.1) s.board }

/-- The regulator on the position, with integer gains. -/
def asservissementP (posConsigne posReel : Int16) (s : AncienFrein) : AncienFrein :=
  let posConsigne := -posConsigne
  let posReel := -posReel
  let erreur := posConsigne - posReel
  let erreurSommeP := s.asservP.erreurSommeP + erreur
  let erreurDelta := erreur - s.asservP.erreurPrecP
  let commande := 5 * erreur + 0 * erreurSommeP + 1 * erreurDelta
  { s with asservP := { erreurPrecP := erreur, erreurSommeP },
           board := md.setM1Speed (clamp (-400) 400 commande) s.board }

def loop (lu : Option (ℕ → Int8)) (c : Capteurs) (s : AncienFrein) : AncienFrein :=
  let s := { s with sF := ConsigneF lu s.sF }
  let npos := c.pression.toInt16 - 33
  let s := { s with board := s.board.analogWrite ledPin (if s.sF < 50 then 0 else 255) }
  if c.au.toInt16 < 50 then
    -- no braking: the jack goes back to its place
    if s.sF ≤ 0 then s.asservissementP 560 c.pos.toInt16 else s.asservissementF s.sF npos
  else s.asservissementF 400 npos

def machine (mcu : Mcu) : Sys (Blocs.Etat Int8 AncienFrein) (Blocs.Ev Int8 Capteurs) :=
  Blocs.machine 2 (setup mcu) loop

end AncienFrein

/-! ## The throttle: `variateur.ino` -/

structure AncienVariateur where
  consigneV : Int16 := 0
  /-- `erreur_precV` and `erreur_sommeV`. -/
  asservV : Asserv := {}
  board : Board

namespace AncienVariateur

def embrayagePlus : ℕ := 8
def embrayageMin : ℕ := 3
def massPin : ℕ := 4
def vaccPin : ℕ := 6
def fsPin : ℕ := 7
def gains : Gains := ⟨1 / 2, 0, 0⟩

/-- The statements and the pins are those of the central sketch's `variateur::initvar`. -/
def initvar (b : Board) : Board := (Variateur.initvar b).2

def lock (b : Board) : Board := (b.digitalWrite vaccPin .LOW).digitalWrite fsPin .LOW

def setup (mcu : Mcu) : AncienVariateur :=
  let b := Board.powerOn mcu
  let b := b.pinMode massPin .OUTPUT
  let b := b.pinMode vaccPin .OUTPUT
  let b := b.pinMode fsPin .OUTPUT
  let b := b.pinMode embrayageMin .OUTPUT
  let b := b.pinMode embrayagePlus .OUTPUT
  let b := b.digitalWrite embrayageMin .LOW
  let b := b.digitalWrite embrayagePlus .HIGH
  let b := b.digitalWrite massPin .LOW
  let b := b.digitalWrite fsPin .LOW -- high drives, low blocks
  let b := b.analogWrite vaccPin 0
  { board := initvar b }

/-- A field of a frame at `i`: a mark of two characters, and `1` to put the pin low. -/
def champ (m1 m2 : Char) (i p : ℕ) (c : ℕ → Int8) (b : Board) : Board :=
  if c i = car m1 ∧ c (i + 1) = car m2 then
    (if c (i + 2) = car '1' then b.digitalWrite p .LOW else b.digitalWrite p .HIGH)
  else b

/-- The fields of a frame and its order; then the two commands, which are read from the first
characters. -/
def USB (lu : Option (ℕ → Int8)) (memo : Int16) (b : Board) : Int16 × Board :=
  match lu with
  | some c =>
    let b := champ 'F' 'S' 0 fsPin c b
    let b := champ 'E' 'M' 3 embrayagePlus c b
    let b := champ 'M' 'A' 6 massPin c b
    let k := if c 9 = car 'C' ∧ c 10 = car 'D' then ((c 11).toInt16 - 48) * 10 + (c 12).toInt16 - 48 else 0
    let (k, b) := if c 0 = car 'i' ∧ c 1 = car 'n' ∧ c 2 = car 'i' ∧ c 3 = car 't' then (0, initvar b) else (k, b)
    if c 0 = car 'L' then (0, lock b) else (k, b)
  | none => (memo, b)

def asservissement (posConsigne : Int16) (s : AncienVariateur) : AncienVariateur :=
  let r := s.asservV.asservissement gains posConsigne
  let cmdV := if r.1 < 0 then 0 else if r.1 > 155 then 55 else r.1
  { s with asservV := r.2, board := s.board.analogWrite vaccPin cmdV }

def loop (lu : Option (ℕ → Int8)) (_ : Unit) (s : AncienVariateur) : AncienVariateur :=
  let r := USB lu s.consigneV s.board
  let s := { s with consigneV := r.1, board := r.2 }
  s.asservissement s.consigneV

def machine (mcu : Mcu) : Sys (Blocs.Etat Int8 AncienVariateur) (Blocs.Ev Int8 Unit) :=
  Blocs.machine 13 (setup mcu) loop

end AncienVariateur

end ICar
