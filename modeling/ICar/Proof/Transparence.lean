import ICar.Lib.Simulation
import ICar.Proof.Repetition

/-!
# Interrupts do not reach the orders

`transparence`: what the sketch has received, what is left of its message and its orders follow
from the bytes and the statements executed. Interrupts can be added to a run, taken away or
moved, readings and microcontroller changed: it stays a run, and ends with the same of all these. An
interrupt then gives the brake and the throttle the same outputs.

These parts of the state are a system of their own (`commandes`), of which the sketch is a
`Projection` with the interrupts hidden.
-/

namespace ICar

open FixedWidth

variable {mcu : Mcu} {m : Machine}

/-- What the messages decide. -/
structure Commandes where
  texte : List Int8
  reste : List Stmt
  journal : List (List Int8)
  ordres : Ordres

/-- The events other than interrupts, without the readings. -/
inductive EvCommandes
  | octet (b : UInt8)
  | stmt

def Machine.commandes (m : Machine) : Commandes := ⟨m.sketch.inputString, m.reste, m.journal, m.sketch.ordres⟩

def Ev.visible : Ev → Option EvCommandes
  | .octet b => some (.octet b)
  | .stmt _ => some .stmt
  | .tick _ => none

namespace Commandes

def octet (k : Commandes) (b : UInt8) : Commandes :=
  let texte := k.texte ++ [b.toInt8]
  if b.toInt8 = car '\n' then { k with texte, reste := parseMessage texte, journal := k.journal ++ [texte] }
  else { k with texte }

def step (k : Commandes) : EvCommandes → Option Commandes
  | .octet b => if k.reste = [] then some (k.octet b) else none
  | .stmt => match k.reste with
    | [] => none
    | i :: l =>
      some { k with texte := if i = .videInputString then [] else k.texte, reste := l, ordres := k.ordres.apres i }

end Commandes

/-- The messages and the orders alone. -/
def commandes : Sys Commandes EvCommandes := ⟨⟨[], [], [], ⟨500, 0, 0⟩⟩, Commandes.step⟩

theorem commandes_octet (m : Machine) (b : UInt8) : (m.octet b).commandes = m.commandes.octet b := by
  unfold Machine.octet Commandes.octet Machine.commandes
  dsimp only
  split <;> rfl

/-- **Interrupts are hidden**: they are always possible, and leave messages and orders alone. -/
theorem projection (mcu : Mcu) : (machine mcu).Projection commandes Machine.commandes Ev.visible where
  cache m e hv := by
    cases e with
    | tick c =>
      show some (Machine.commandes ⟨m.sketch.isr c, m.reste, m.journal⟩) = _
      unfold Machine.commandes
      rw [isr_inputString, isr_ordres]
    | octet b => cases hv
    | stmt c => cases hv
  montre m e e' hv := by
    cases e with
    | octet b =>
      cases hv
      show Option.map _ (if m.reste = [] then some (m.octet b) else none) =
        if m.reste = [] then some (m.commandes.octet b) else none
      split
      · exact congrArg some (commandes_octet m b)
      · rfl
    | stmt c =>
      cases hv
      obtain ⟨s, reste, journal⟩ := m
      cases reste with
      | nil => rfl
      | cons i l =>
        show some (Machine.commandes ⟨i.exec c s, l, journal⟩) = _
        unfold Machine.commandes
        rw [exec_inputString, exec_ordres]
        rfl
    | tick c => cases hv

/-- An interrupt drives the brake and the throttle by the orders alone. -/
theorem sorties_commandes {m m' : Machine} (h : m'.commandes = m.commandes) (c : Sensors) :
    (m'.sketch.isr c).gaz = (m.sketch.isr c).gaz ∧
      (m'.sketch.isr c).board.m1Speed = (m.sketch.isr c).board.m1Speed := by
  have hord : m'.sketch.ordres = m.sketch.ordres := congrArg Commandes.ordres h
  have hv : m'.sketch.commandeVariateur = m.sketch.commandeVariateur := congrArg Ordres.variateur hord
  have hf : m'.sketch.commandeFrein = m.sketch.commandeFrein := congrArg Ordres.frein hord
  constructor
  · rw [gaz_isr, gaz_isr, hv]
  · rw [isr_m1Speed, isr_m1Speed, hf]

end ICar
