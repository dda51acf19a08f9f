import ICar.Spec.Actionneurs

/-!
# The sketch `actionneurs.ino`

`Sketch` is the program's state: the board, the three actuators, the received text
and the stored orders. `parseMessage` gives the statements that one message makes the
program execute, in order; `Stmt.exec` is what a statement does. `Sketch.parseMessage`
runs them without interruption; the machine of `Spec/Machine.lean` lets the Timer1
interrupt fall between any two of them.

Every reading of a sensor is a parameter (`Sensors`): a statement or an interrupt reads
each sensor at most once for control. The second reading of the potentiometer in
`direction::commande` is for the console only.
-/

namespace ICar

open FixedWidth

/-- What `analogRead` returns for the brake pressure and the steering position. -/
structure Sensors where
  pression : Adc
  potar : Adc

structure Sketch where
  board : Board
  dir : Direction := {}
  var : Variateur := {}
  fr : Frein := {}
  inputString : List Int8 := []
  commandeFrein : Int16 := 0
  commandeVariateur : Int16 := 0
  commandeDirection : Int16 := 0

/-- A character constant of the source. -/
def car (c : Char) : Int8 := Int8.ofNat c.toNat

/-- `String::operator[]`, which reads 0 past the end. -/
def charAt (s : List Int8) (i : ℕ) : Int8 := s.getD i 0

/-- `c * 1.7 + 65` as an `int`: the steering order of a value character. -/
def echelle (c : Int8) : Int16 := ofQ (c.toInt * (17 / 10) + 65)

/-! ## Statements -/

/-- The statements of `parseMessage` and `arret`. -/
inductive Stmt
  | dirCommande (value : Int16)
  | frCommande (value : Int16)
  | varCommande (value : Int16)
  | varLock
  | commandeDirection (value : Int16)
  | commandeFrein (value : Int16)
  | commandeVariateur (value : Int16)
  | videInputString
deriving DecidableEq, Repr

namespace Sketch

/-- `dir.commande(value)`. -/
def dirCommande (value : Int16) (c : Sensors) (s : Sketch) : Sketch :=
  let r := s.dir.commande value c.potar s.board
  { s with dir := r.1, board := r.2 }

/-- `fr.commande(value)`. -/
def frCommande (value : Int16) (c : Sensors) (s : Sketch) : Sketch :=
  let r := s.fr.commande value c.pression s.board
  { s with fr := r.1, board := r.2 }

/-- `var.commande(value)`. -/
def varCommande (value : Int16) (s : Sketch) : Sketch :=
  let r := s.var.commande value s.board
  { s with var := r.1, board := r.2 }

/-- `var.lock()`. -/
def varLock (s : Sketch) : Sketch :=
  let r := Variateur.lock s.board
  { s with var := r.1, board := r.2 }

/-- `ISR(TIMER1_COMPA_vect)`: the stored orders are applied again. -/
def isr (c : Sensors) (s : Sketch) : Sketch :=
  ((s.frCommande s.commandeFrein c).dirCommande s.commandeDirection c).varCommande s.commandeVariateur

/-- The board after a call of the brake: its shield was given a speed. -/
theorem frCommande_board (value : Int16) (c : Sensors) (s : Sketch) :
    (s.frCommande value c).board = Frein.md.setM1Speed (s.fr.vitesse value c.pression) s.board := by
  unfold frCommande Frein.commande
  rfl

end Sketch

def Stmt.exec (c : Sensors) : Stmt → Sketch → Sketch
  | dirCommande value, s => s.dirCommande value c
  | frCommande value, s => s.frCommande value c
  | varCommande value, s => s.varCommande value
  | varLock, s => s.varLock
  | commandeDirection value, s => { s with commandeDirection := value }
  | commandeFrein value, s => { s with commandeFrein := value }
  | commandeVariateur value, s => { s with commandeVariateur := value }
  | videInputString, s => { s with inputString := [] }

/-! ## Messages -/

def arret : List Stmt :=
  -- the 50 is not scaled, unlike a value of the `D` branch
  [.dirCommande 50, .commandeDirection 50, .frCommande 100, .commandeFrein 100,
    .varCommande 0, .commandeVariateur 0]

/-- The `switch` on the header. -/
def branche (inputString : List Int8) : List Stmt :=
  let h := charAt inputString 0
  let v := charAt inputString 1
  if h = car 'D' then [.dirCommande (echelle v), .commandeDirection (echelle v)]
  else if h = car 'F' then [.frCommande v.toInt16, .commandeFrein v.toInt16]
  else if h = car 'V' then [.varCommande v.toInt16, .commandeVariateur v.toInt16]
  else if h = car 'S' then arret
  else if h = car 'R' then [.frCommande (-400), .commandeFrein (-400)]
  else .varLock :: arret -- the default branch

/-- The statements that `parseMessage()` executes on `inputString`. -/
def parseMessage (inputString : List Int8) : List Stmt := branche inputString ++ [.videInputString]

namespace Sketch

/-- Statements in a row, each with the readings it meets. -/
def execAll (c : Sensors) (l : List Stmt) (s : Sketch) : Sketch := l.foldl (fun s i => i.exec c s) s

/-- `parseMessage()` without interruption. -/
def parseMessage (c : Sensors) (s : Sketch) : Sketch := execAll c (ICar.parseMessage s.inputString) s

/-- One iteration of `serialEvent`'s loop: a byte, and the readings met if it ends a message. -/
def lireOctet (s : Sketch) (r : UInt8 × Sensors) : Sketch :=
  let inChar := r.1.toInt8
  let s := { s with inputString := s.inputString ++ [inChar] }
  if inChar = car '\n' then s.parseMessage r.2 else s

/-- `serialEvent()` on the bytes available. -/
def serialEvent (recus : List (UInt8 × Sensors)) (s : Sketch) : Sketch := recus.foldl lireOctet s

/-! ## Start-up -/

/-- The globals before `setup()`. -/
def powerOn (mcu : Mcu) : Sketch := { board := .powerOn mcu }

def WGM12 : UInt8 := 3
def CS12 : UInt8 := 2
def OCIE1A : UInt8 := 1

/-- CTC mode, prescaler 256, a compare match every 31250 counts, and its interrupt. -/
def initTimer1 (b : Board) : Board :=
  let b := { b with timer1.TCCR1A := 0, timer1.TCCR1B := 0, timer1.TCNT1 := 0, timer1.OCR1A := 31250 }
  let b := { b with timer1.TCCR1B := b.timer1.TCCR1B ||| (1 <<< WGM12) }
  let b := { b with timer1.TCCR1B := b.timer1.TCCR1B ||| (1 <<< CS12) }
  { b with timer1.TIMSK1 := b.timer1.TIMSK1 ||| (1 <<< OCIE1A) }

def setup (mcu : Mcu) : Sketch :=
  let s := { powerOn mcu with commandeDirection := 500 }
  let s := { s with board := Direction.init s.board }
  let v := Variateur.init s.board
  let s := { s with var := v.1, board := v.2 }
  let s := { s with board := Frein.init s.board }
  { s with board := initTimer1 s.board }

end Sketch

/-- At the end of `setup` the throttle is initialised, and the brake's enable pin is high. -/
example : (Sketch.setup .atmega328P).var.isInit = true ∧
    (Sketch.setup .atmega328P).board.pin Frein.md.nD2 = .HIGH ∧
    (Sketch.setup .atmega328P).board.timer1.OCR1A = 31250 := by decide

end ICar
