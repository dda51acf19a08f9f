import ICar.Lib.While
import ICar.Spec.App
import ICar.Spec.Programme

/-!
# The bridge `main.cpp`

`main` reads the application's socket two bytes at a time into `buff` and passes the
pair to `commandeActionneur`, which writes it to the actuators' serial port. The result
of `recv` is not looked at: a read of one byte leaves `buff[1]` as it was, and one that
delivers nothing leaves all of `buff`.

`arduino_print_return` reads what the Arduino sends back, one byte at a time.
-/

namespace ICar

/-- What one `recv(csock, buff, 2, 0)` does. -/
inductive Recv
  | un (a : Int8)
  | deux (a b : Int8)
  | ferme
  | erreur
deriving DecidableEq, Repr

namespace Recv

/-- The bytes delivered. -/
def octets : Recv → List Int8
  | un a => [a]
  | deux a b => [a, b]
  | ferme | erreur => []

/-- `buff` after the call. -/
def remplit (buff : Int8 × Int8) : Recv → Int8 × Int8
  | un a => (a, buff.2)
  | deux a b => (a, b)
  | ferme | erreur => buff

end Recv

/-- `Int32::ToString`. -/
def toText (n : ℤ) : List Char :=
  if n < 0 then '-' :: Nat.toDigits 10 n.natAbs else Nat.toDigits 10 n.natAbs

/-- `InterfaceArduino::commandeActionneur`: the bytes written to the serial port. -/
def commandeActionneur (header value : ℤ) : List UInt8 :=
  (toText header ++ toText value ++ ['\n']).map fun c => UInt8.ofNat c.toNat

/-- The headers that `InterfaceArduino` declares. -/
inductive Entete
  | FREIN
  | DIRECTION
  | VARIATEUR
deriving DecidableEq, Repr

def Entete.code : Entete → ℤ
  | FREIN => 'F'.toNat
  | DIRECTION => 'D'.toNat
  | VARIATEUR => 'V'.toNat

/-- The loop of `main`: its buffer, the calls of `commandeActionneur` so far, and whether
it still runs. While it runs, the buffer does not begin with the stop header. -/
structure Pont where
  buff : Int8 × Int8 := (0, 0)
  appels : List (ℤ × ℤ) := []
  actif : Bool := true
  sain : actif = true → buff.1 ≠ car 'S' := by decide

namespace Pont

/-- One iteration of `while (1)`; nothing more once `main` has returned. -/
def tour (p : Pont) (r : Recv) : Pont :=
  if p.actif then
    let buff := r.remplit p.buff
    -- a stop ends the loop and is not passed on
    if h : buff.1 = car 'S' then { p with buff, actif := false, sain := by simp }
    else { p with buff, appels := p.appels ++ [(buff.1.toInt, buff.2.toInt)], sain := fun _ => h }
  else p

/-- `main` from `accept` on, over the results of its first calls of `recv`. -/
def main (rs : List Recv) : Pont := rs.foldl tour {}

end Pont

/-- A message as the Arduino receives it: the bytes of a call, read as `char`. -/
def messageDe (c : ℤ × ℤ) : List Int8 := (commandeActionneur c.1 c.2).map UInt8.toInt8

/-! ## Reading an answer -/

/-- The variables of `arduino_print_return`, and the number of bytes read so far as a history. -/
structure Lecture where
  octet : Int8 := car 'a'
  arduinoMsg : Vector Int8 1000
  i : ℕ := 0
  lus : ℕ := 0

namespace Lecture

/-- `byte != '\n' && i < taille`. -/
def test (taille : ℕ) (l : Lecture) : Bool := l.octet ≠ car '\n' && l.i < taille

/-- One turn of its loop, on a port that delivers the bytes of `flux` one after the other. -/
def tour (flux : ℕ → Int8) (l : Lecture) : Lecture :=
  let octet := flux l.lus
  { l with octet, arduinoMsg := l.arduinoMsg.setIfInBounds l.i octet, lus := l.lus + 1 }

end Lecture

/-- `arduino_print_return`, with at most `n` tests of its loop, on an array that holds `msg`. -/
def arduinoPrintReturn (n taille : ℕ) (flux : ℕ → Int8) (msg : Vector Int8 1000) : Option Lecture :=
  While.exec (Lecture.test taille) (Lecture.tour flux) n { arduinoMsg := msg }

end ICar
