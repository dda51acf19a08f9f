import ICar.Spec.Machine
import ICar.Spec.Messages

/-!
# What the sketch is for

The controller that the sketch implements, without board, registers or machine integers: a text
that waits for its newline, the statements of the message under execution, the three orders, the
exact sum of the steering's errors, and three outputs, each within its interval by construction.
The steering's gains are 5 and exactly 3/10.

What the code shares or wraps is visible here too, since a driver sees it: the sum enters the
steering modulo 2^16, so does the brake's product, and the throttle's initialisation takes the
brake's enable pin down.
-/

namespace ICar

open FixedWidth

/-- An integer limited to an interval. -/
abbrev Sortie (lo hi : ℤ) := Set.Icc lo hi

theorem volant_ends : (65 : ℤ) ≤ 245 := by decide

theorem vitesse_ends : (-400 : ℤ) ≤ 400 := by decide

theorem gaz_ends : (0 : ℤ) ≤ 155 := by decide

structure Controleur where
  texte : List Int8
  reste : List Stmt
  -- the stored orders
  direction : ℤ
  frein : ℤ
  variateur : ℤ
  /-- The sum of all errors of the steering. -/
  somme : ℤ
  volant : Sortie 65 245
  vitesse : Sortie (-400) 400
  gaz : Sortie 0 155
  /-- The brake's shield is enabled. -/
  actif : Bool
  /-- The brake's motor turns backward. -/
  arriere : Bool
  /-- The throttle is initialised. -/
  pret : Bool

namespace Controleur

/-- Proportional and integral, the integral modulo 2^16. -/
def dirige (ordre : ℤ) (potar : Adc) (k : Controleur) : Controleur :=
  let erreur := ordre - potar.val
  let somme := k.somme + erreur
  { k with somme, volant := Set.projIcc 65 245 volant_ends (truncQ (5 * erreur + 3 / 10 * somme.bmod (2 ^ 16))) }

/-- Proportional, modulo 2^16. -/
def freine (ordre : ℤ) (pression : Adc) (k : Controleur) : Controleur :=
  let vitesse := Set.projIcc (-400) 400 vitesse_ends ((25 * (ordre - pression.val)).bmod (2 ^ 16))
  { k with vitesse, arriere := decide (vitesse.val < 0) }

/-- In fault, the throttle is initialised again, on pins that are the brake's. -/
def accelere (ordre : ℤ) (k : Controleur) : Controleur :=
  let k := if k.pret then k else { k with actif := false, arriere := false, pret := true }
  { k with gaz := Set.projIcc 0 155 gaz_ends ordre }

def verrouille (k : Controleur) : Controleur :=
  { k with gaz := Set.projIcc 0 155 gaz_ends 0, arriere := false, pret := false }

def exec (c : Sensors) : Stmt → Controleur → Controleur
  | .dirCommande v, k => k.dirige v.toInt c.potar
  | .frCommande v, k => k.freine v.toInt c.pression
  | .varCommande v, k => k.accelere v.toInt
  | .varLock, k => k.verrouille
  | .commandeDirection v, k => { k with direction := v.toInt }
  | .commandeFrein v, k => { k with frein := v.toInt }
  | .commandeVariateur v, k => { k with variateur := v.toInt }
  -- the text is already free: it was handed over with the newline
  | .videInputString, k => k

/-- The interrupt. -/
def tick (c : Sensors) (k : Controleur) : Controleur :=
  ((k.freine k.frein c.pression).dirige k.direction c.potar).accelere k.variateur

def octet (b : UInt8) (k : Controleur) : Controleur :=
  let texte := k.texte ++ [b.toInt8]
  if b.toInt8 = car '\n' then { k with texte := [], reste := (ordre texte).stmts ++ [.videInputString] }
  else { k with texte }

def step (k : Controleur) : Ev → Option Controleur
  | .octet b => if k.reste = [] then some (k.octet b) else none
  | .stmt c => match k.reste with
    | [] => none
    | i :: l => some { k.exec c i with reste := l }
  | .tick c => some (k.tick c)

/-! ## What the actuators leave unchanged -/

variable (ordre : ℤ) (c : Sensors) (i : Stmt) (k : Controleur)

@[simp] theorem accelere_texte : (k.accelere ordre).texte = k.texte := by
  unfold accelere
  dsimp only
  split <;> rfl

@[simp] theorem accelere_reste : (k.accelere ordre).reste = k.reste := by
  unfold accelere
  dsimp only
  split <;> rfl

@[simp] theorem exec_texte : (k.exec c i).texte = k.texte := by
  cases i with
  | varCommande v => exact accelere_texte v.toInt k
  | _ => rfl

@[simp] theorem tick_texte : (k.tick c).texte = k.texte := by
  unfold tick
  rw [accelere_texte]
  rfl

@[simp] theorem tick_reste : (k.tick c).reste = k.reste := by
  unfold tick
  rw [accelere_reste]
  rfl

/-- At the end of `setup`. -/
def debut : Controleur where
  texte := []
  reste := []
  direction := 500
  frein := 0
  variateur := 0
  somme := 0
  volant := Set.projIcc 65 245 volant_ends 65
  vitesse := Set.projIcc (-400) 400 vitesse_ends 0
  gaz := Set.projIcc 0 155 gaz_ends 0
  actif := true
  arriere := false
  pret := true

end Controleur

/-- The controller as a system, over the events of the sketch. -/
def controleur : Sys Controleur Ev := ⟨.debut, Controleur.step⟩

/-- After a message of the default branch and an interrupt: half range is far, so the steering
is at its end, and the throttle has taken the brake's shield down. -/
example : ((controleur.run controleur.init
      [.octet 88, .octet 10, .stmt ⟨100, 500⟩, .tick ⟨100, 500⟩]).map fun k => (k.volant.val, k.gaz.val, k.actif)) =
    some (65, 0, false) := by decide +kernel

end ICar
