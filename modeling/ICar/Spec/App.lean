import Mathlib

/-!
# The remote control `ConnectedActivity`

The bytes the application puts on its socket. A slider move sends two characters, the
slider's identifier and its progress; the STOP button sends one, and closes the socket.
The writer encodes characters in UTF-8, so a character below 128 is one byte.
-/

namespace ICar

/-- A character, by its code, as the writer encodes it. -/
def utf8 (c : ℕ) : List UInt8 := String.utf8EncodeChar (Char.ofNat c)

/-- `send(header, value)`. -/
def send (header value : ℕ) : List UInt8 := utf8 header ++ utf8 value

/-- The STOP button. -/
def onTouch : List UInt8 := utf8 'S'.toNat

/-- A command of two characters below 128. -/
structure Commande where
  header : Fin 128
  value : Fin 128
deriving DecidableEq, Repr

def Commande.send (c : Commande) : List UInt8 := ICar.send c.header c.value

/-- The three sliders. -/
inductive Curseur
  | seekFrein
  | seekVar
  | seekDir
deriving DecidableEq, Repr

def ID_FREIN : Fin 128 := 1
def ID_VAR : Fin 128 := 2
def ID_DIR : Fin 128 := 3

/-- The identifier that the slider's listener sends. -/
def Curseur.id : Curseur → Fin 128
  | seekFrein => ID_FREIN
  | seekVar => ID_VAR
  | seekDir => ID_DIR

/-- `onProgressChanged(seekBar, progress)`, the progress being a percentage. -/
structure Mouvement where
  curseur : Curseur
  progress : Fin 101
deriving DecidableEq, Repr

/-- What it sends. -/
def Mouvement.commande (m : Mouvement) : Commande := ⟨m.curseur.id, m.progress.castLE (by decide)⟩

theorem utf8_of_lt {c : ℕ} (h : c < 128) : utf8 c = [UInt8.ofNat c] := by
  have hv : Nat.isValidChar c := .inl (by omega)
  have hc : (Char.ofNat c).val.toNat = c := by
    rw [Char.ofNat, dif_pos hv]
    simp [Char.ofNatAux]
  unfold utf8 String.utf8EncodeChar
  simp only [hc]
  rw [if_pos (by omega)]

/-- A command is two bytes. -/
theorem Commande.send_eq (c : Commande) :
    c.send = [UInt8.ofNat c.header, UInt8.ofNat c.value] := by
  unfold Commande.send ICar.send
  rw [utf8_of_lt c.header.isLt, utf8_of_lt c.value.isLt]
  rfl

end ICar
