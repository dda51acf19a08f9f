import ICar.Spec.Programme

/-!
# The attitude board `Razor.cpp`

The board answers each request `#f` with three lines. `get_razor_data` reads each into a
`char[30]` array on its stack, up to a newline or 25 bytes, and `parse_razor_all_axis` scans
the first 25 bytes of the array for three numbers.

A read outside an array, or from a port that has nothing to deliver, has no result (`none`).
The contents of the arrays before a call are a parameter (`Tampons`), and `double` is read as
an exact rational.
-/

namespace ICar

/-- A `char[30]` array. -/
structure Tampon where
  octets : List Int8
  taille : octets.length = 30

namespace Tampon

/-- `data[i]`. -/
def lit (data : Tampon) (i : ℤ) : Option Int8 := if 0 ≤ i then data.octets[i.toNat]? else none

/-- `data[i] = c`. -/
def ecrit (data : Tampon) (i : ℕ) (c : Int8) : Tampon :=
  ⟨data.octets.set i c, by rw [List.length_set, data.taille]⟩

/-- `data[i] - 48`. -/
def chiffre (data : Tampon) (i : ℤ) : Option ℚ := (data.lit i).map fun c => (c.toInt : ℚ) - 48

end Tampon

/-- The number whose point is at `cnt`, `numberLength` being one more than its characters before it. -/
def parseRazorOneAxis (data : Tampon) (cnt numberLength : ℤ) : Option ℚ := do
  match numberLength with
  | 5 => -- three digits: the character before them can only be the sign
    return -((← data.chiffre (cnt - 3)) * 100 + (← data.chiffre (cnt - 2)) * 10 + (← data.chiffre (cnt - 1)) +
      (← data.chiffre (cnt + 1)) * (1 / 10) + (← data.chiffre (cnt + 2)) * (1 / 100))
  | 4 => -- two digits and a sign, or three digits
    if (← data.lit (cnt - 3)) = car '-' then
      return -((← data.chiffre (cnt - 2)) * 10 + (← data.chiffre (cnt - 1)) +
        (← data.chiffre (cnt + 1)) * (1 / 10) + (← data.chiffre (cnt + 2)) * (1 / 100))
    else
      return (← data.chiffre (cnt - 3)) * 100 + (← data.chiffre (cnt - 2)) * 10 + (← data.chiffre (cnt - 1)) +
        (← data.chiffre (cnt + 1)) * (1 / 10) + (← data.chiffre (cnt + 2)) * (1 / 100)
  | 3 => -- one digit and a sign, or two digits
    if (← data.lit (cnt - 2)) = car '-' then
      return -((← data.chiffre (cnt - 1)) +
        (← data.chiffre (cnt + 1)) * (1 / 10) + (← data.chiffre (cnt + 2)) * (1 / 100))
    else
      return (← data.chiffre (cnt - 2)) * 10 + (← data.chiffre (cnt - 1)) +
        (← data.chiffre (cnt + 1)) * (1 / 10) + (← data.chiffre (cnt + 2)) * (1 / 100)
  | _ =>
    return (← data.chiffre (cnt - 1)) +
      (← data.chiffre (cnt + 1)) * (1 / 10) + (← data.chiffre (cnt + 2)) * (1 / 100)

inductive Axe
  | x
  | y
  | z
deriving DecidableEq, Repr

/-- The variables of `parse_razor_all_axis`. -/
structure Balayage where
  numberLength : ℤ := 0
  xParse : Bool := false
  yParse : Bool := false
  zParse : Bool := false
  dataX : ℚ
  dataY : ℚ
  dataZ : ℚ
  /-- History: the outputs written, with the index and the length passed. -/
  ecrits : List (Axe × ℕ × ℤ) := []
deriving DecidableEq

/-- One iteration of its loop. -/
def tourAxes (data : Tampon) (b : Balayage) (cnt : ℕ) : Option Balayage := do
  let c ← data.lit cnt
  let b := if b.xParse || b.yParse || b.zParse then { b with numberLength := b.numberLength + 1 } else b
  let b := if c = car '=' then { b with xParse := true } else b
  -- in this order, so that a flag set by one test is not met by the next
  let b ← if b.zParse && c = car '.' then do
      let v ← parseRazorOneAxis data cnt b.numberLength
      some { b with dataZ := v, zParse := false, ecrits := b.ecrits ++ [(.z, cnt, b.numberLength)] }
    else some b
  let b ← if b.yParse && c = car '.' then do
      let v ← parseRazorOneAxis data cnt b.numberLength
      -- two digits and a comma come before the next number
      some { b with dataY := v, yParse := false, zParse := true, numberLength := -3,
                    ecrits := b.ecrits ++ [(.y, cnt, b.numberLength)] }
    else some b
  if b.xParse && c = car '.' then do
      let v ← parseRazorOneAxis data cnt b.numberLength
      some { b with dataX := v, xParse := false, yParse := true, numberLength := -3,
                    ecrits := b.ecrits ++ [(.x, cnt, b.numberLength)] }
    else some b

/-- The outputs keep the values given where nothing is written. -/
def parseRazorAllAxis (data : Tampon) (dataX dataY dataZ : ℚ) : Option Balayage :=
  (List.range 25).foldlM (tourAxes data) { dataX, dataY, dataZ }

/-! ## The dialogue -/

/-- The serial port: the bytes that wait to be read, and the board's answers to the requests
to come. -/
structure Port where
  entree : List Int8
  reponses : List (List Int8)

namespace Port

/-- `Write("#f")`: the board sends its next answer. -/
def write (p : Port) : Port := ⟨p.entree ++ p.reponses.headD [], p.reponses.tail⟩

/-- `ReadByte()`. -/
def readByte (p : Port) : Option (Int8 × Port) :=
  match p.entree with
  | [] => none
  | c :: l => some (c, { p with entree := l })

end Port

/-- A reading loop of `get_razor_data` from index `cnt` on, with `n` iterations left. -/
def lireLigne : ℕ → ℕ → Tampon → Port → Option (Tampon × Port)
  | 0, _, data, p => some (data, p)
  | n + 1, cnt, data, p => do
    let (razor, p) ← p.readByte
    let data := data.ecrit cnt razor
    if razor = car '\n' then some (data, p) else lireLigne n (cnt + 1) data p

structure Attitude where
  accelX : ℚ
  accelY : ℚ
  accelZ : ℚ
  magnX : ℚ
  magnY : ℚ
  magnZ : ℚ
  gyroX : ℚ
  gyroY : ℚ
  gyroZ : ℚ
deriving DecidableEq

/-- What the arrays hold before a call. -/
structure Tampons where
  accel : Tampon
  magn : Tampon
  gyro : Tampon

def getRazorData (t : Tampons) (p : Port) : Option (Attitude × Port) := do
  let p := p.write
  let (accel, p) ← lireLigne 25 0 t.accel p
  let (magn, p) ← lireLigne 25 0 t.magn p
  let (gyro, p) ← lireLigne 25 0 t.gyro p
  let a ← parseRazorAllAxis accel 0 0 0
  let m ← parseRazorAllAxis magn 0 0 0
  let g ← parseRazorAllAxis gyro 0 0 0
  some (⟨a.dataX, a.dataY, a.dataZ, m.dataX, m.dataY, m.dataZ, g.dataX, g.dataY, g.dataZ⟩, p)

/-- Successive calls, on arrays that hold `ts`. -/
def releves : List Tampons → Port → Option (List Attitude × Port)
  | [], p => some ([], p)
  | t :: ts, p => do
    let (a, p) ← getRazorData t p
    let (as, p) ← releves ts p
    some (a :: as, p)

end ICar
