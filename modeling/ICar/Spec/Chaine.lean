import ICar.Lib.Simulation
import ICar.Spec.Machine
import ICar.Spec.Pont

/-!
# The whole chain

The application, the bridge and the Arduino, with the bytes in flight between them: on the
socket, which loses and reorders nothing, and on the serial link. The three parties take their
steps in any order. A byte of the serial link can be lost (`EvChaine.perte`).

`Appli` is the life of `ConnectedActivity`: a thread opens the socket, the sliders and the STOP
button write to it. Both get their writer from `socket.getOutputStream()`: before the connection
`socket` is null, and after STOP the exception of a closed socket is caught but leaves `out`
null, so each ends the process with a `NullPointerException`.
-/

namespace ICar

/-! ## The application -/

/-- `ConnectedActivity.socket`. -/
inductive Prise
  | null
  | ouverte
  | fermee
deriving DecidableEq, Repr

structure Appli where
  socket : Prise := .null
  /-- `ClientThread` has not ended yet. -/
  connexion : Bool := true
  /-- `STOP_BUTTON` is enabled. -/
  stopButton : Bool := true
  /-- `finish()` has been called. -/
  finie : Bool := false
  /-- An exception has not been caught. -/
  plantee : Bool := false
  /-- History: the moves whose two characters were written, oldest first. -/
  mouvements : List Mouvement := []

inductive EvAppli
  | connecte
  | echoue
  | bouge (m : Mouvement)
  | touche
deriving DecidableEq

/-- What the application does, and the bytes it writes to its socket. -/
def Appli.step (a : Appli) (e : EvAppli) : Option (Appli × List UInt8) :=
  if a.plantee then none
  else match e with
  | .connecte => if a.connexion then some ({ a with socket := .ouverte, connexion := false }, []) else none
  | .echoue => if a.connexion then some ({ a with connexion := false, finie := true }, []) else none
  | .bouge m => match a.socket with
    | .ouverte => some ({ a with mouvements := a.mouvements ++ [m] }, m.commande.send)
    | .null | .fermee => some ({ a with plantee := true }, [])
  | .touche => if a.stopButton then match a.socket with
      | .ouverte => some ({ a with socket := .fermee, stopButton := false, finie := true }, onTouch)
      | .null | .fermee => some ({ a with plantee := true }, [])
    else none

/-! ## The three parties -/

/-- What one iteration of the bridge writes to the serial port. -/
def Pont.ecrit (p : Pont) (r : Recv) : List UInt8 :=
  ((p.tour r).appels.drop p.appels.length).flatMap fun c => commandeActionneur c.1 c.2

structure Chaine where
  appli : Appli := {}
  /-- The bytes on the socket. -/
  prise : List UInt8 := []
  pont : Pont := .main []
  /-- The bytes on the serial link. -/
  serie : List UInt8 := []
  arduino : Machine

inductive EvChaine
  | appli (e : EvAppli)
  | recv (r : Recv)
  | arduino (e : Ev)
  | perte (i : ℕ)

namespace Chaine

/-- What `recv` can do: deliver the next bytes, report the end once all are delivered, or fail. -/
def Delivre (c : Chaine) (r : Recv) : Prop :=
  c.appli.socket ≠ .null ∧ r.octets.map Int8.toUInt8 <+: c.prise ∧
    (r = .ferme → c.prise = [] ∧ (c.appli.socket = .fermee ∨ c.appli.plantee = true))

instance (c : Chaine) (r : Recv) : Decidable (c.Delivre r) := by unfold Delivre; infer_instance

/-- An iteration of the bridge. -/
def recoit (c : Chaine) (r : Recv) : Chaine :=
  { c with prise := c.prise.drop r.octets.length, pont := c.pont.tour r, serie := c.serie ++ c.pont.ecrit r }

def step (c : Chaine) : EvChaine → Option Chaine
  | .appli e => (c.appli.step e).map fun r => { c with appli := r.1, prise := c.prise ++ r.2 }
  | .recv r =>
    -- the loop of `main` runs from `accept` to the stop header
    if c.pont.actif = true ∧ c.Delivre r then some (c.recoit r) else none
  | .arduino (.octet b) =>
    if c.serie.head? = some b then
      (c.arduino.step (.octet b)).map fun m => { c with arduino := m, serie := c.serie.tail }
    else none
  | .arduino e => (c.arduino.step e).map fun m => { c with arduino := m }
  | .perte i => if i < c.serie.length then some { c with serie := c.serie.eraseIdx i } else none

end Chaine

/-- The application started, the bridge waiting, the Arduino after `setup`. -/
def chaine (mcu : Mcu) : Sys Chaine EvChaine where
  init := { arduino := (machine mcu).init }
  step := Chaine.step

variable {mcu : Mcu} {c c' : Chaine}

/-! ## What a step can do -/

/-- **A step of the application**: it writes a move or the stop header on an open socket, and
otherwise writes nothing and leaves an open socket open. -/
theorem appli_cases {a a' : Appli} {e : EvAppli} {bs : List UInt8} (h : a.step e = some (a', bs)) :
    (∃ m, e = .bouge m ∧ a.socket = .ouverte ∧ a' = { a with mouvements := a.mouvements ++ [m] } ∧
      bs = m.commande.send) ∨
    (e = .touche ∧ a.socket = .ouverte ∧ bs = onTouch ∧
      a' = { a with socket := .fermee, stopButton := false, finie := true }) ∨
    (bs = [] ∧ a'.mouvements = a.mouvements ∧
      (a'.socket = a.socket ∧ (a'.connexion = true → a.connexion = true) ∨
        a'.socket = .ouverte ∧ a.connexion = true ∧ a'.connexion = false)) := by
  unfold Appli.step at h
  split at h
  · cases h
  cases e with
  | connecte =>
    dsimp only at h
    split at h <;> cases h
    exact .inr (.inr ⟨rfl, rfl, .inr ⟨rfl, ‹_›, rfl⟩⟩)
  | echoue =>
    dsimp only at h
    split at h <;> cases h
    exact .inr (.inr ⟨rfl, rfl, .inl ⟨rfl, fun hc => Bool.noConfusion hc⟩⟩)
  | bouge m =>
    dsimp only at h
    split at h <;> cases h
    · exact .inl ⟨m, rfl, ‹_›, rfl, rfl⟩
    · exact .inr (.inr ⟨rfl, rfl, .inl ⟨rfl, id⟩⟩)
    · exact .inr (.inr ⟨rfl, rfl, .inl ⟨rfl, id⟩⟩)
  | touche =>
    dsimp only at h
    split at h
    · split at h <;> cases h
      · exact .inr (.inl ⟨rfl, ‹_›, rfl, rfl⟩)
      · exact .inr (.inr ⟨rfl, rfl, .inl ⟨rfl, id⟩⟩)
      · exact .inr (.inr ⟨rfl, rfl, .inl ⟨rfl, id⟩⟩)
    · cases h

/-- **A step of the chain** is one of its parties', or a loss. -/
theorem chaine_cases {e : EvChaine} (h : (chaine mcu).step c e = some c') :
    (∃ x a bs, e = .appli x ∧ c.appli.step x = some (a, bs) ∧
      c' = { c with appli := a, prise := c.prise ++ bs }) ∨
    (∃ r, e = .recv r ∧ c.pont.actif = true ∧ c.Delivre r ∧ c' = c.recoit r) ∨
    (∃ b m l, e = .arduino (.octet b) ∧ c.serie = b :: l ∧ c.arduino.step (.octet b) = some m ∧
      c' = { c with arduino := m, serie := l }) ∨
    (∃ x m, e = .arduino x ∧ (∀ b, x ≠ .octet b) ∧ c.arduino.step x = some m ∧ c' = { c with arduino := m }) ∨
    (∃ i, e = .perte i ∧ c' = { c with serie := c.serie.eraseIdx i }) := by
  cases e with
  | appli x =>
    simp only [chaine, Chaine.step, Option.map_eq_some_iff] at h
    obtain ⟨⟨a, bs⟩, ha, rfl⟩ := h
    exact .inl ⟨x, a, bs, rfl, ha, rfl⟩
  | recv r =>
    simp only [chaine, Chaine.step] at h
    split at h
    · rename_i hr
      exact .inr (.inl ⟨r, rfl, hr.1, hr.2, by simpa using h.symm⟩)
    · cases h
  | arduino x =>
    cases x with
    | octet b =>
      simp only [chaine, Chaine.step] at h
      split at h
      · rename_i hb
        rw [Option.map_eq_some_iff] at h
        obtain ⟨m, hm, rfl⟩ := h
        obtain ⟨l, hl⟩ : ∃ l, c.serie = b :: l := by
          cases hs : c.serie with
          | nil => rw [hs] at hb; cases hb
          | cons x l => rw [hs] at hb; cases hb; exact ⟨l, rfl⟩
        exact .inr (.inr (.inl ⟨b, m, l, rfl, hl, hm, by rw [hl]; rfl⟩))
      · cases h
    | stmt s =>
      simp only [chaine, Chaine.step, Option.map_eq_some_iff] at h
      obtain ⟨m, hm, rfl⟩ := h
      exact .inr (.inr (.inr (.inl ⟨.stmt s, m, rfl, by simp, hm, rfl⟩)))
    | tick s =>
      simp only [chaine, Chaine.step, Option.map_eq_some_iff] at h
      obtain ⟨m, hm, rfl⟩ := h
      exact .inr (.inr (.inr (.inl ⟨.tick s, m, rfl, by simp, hm, rfl⟩)))
  | perte i =>
    simp only [chaine, Chaine.step] at h
    split at h
    · exact .inr (.inr (.inr (.inr ⟨i, rfl, by simpa using h.symm⟩)))
    · cases h

/-- The Arduino of the chain only reaches states of its own. -/
theorem reach_arduino (hc : (chaine mcu).Reach c) : (machine mcu).Reach c.arduino := by
  refine hc.map (f := Chaine.arduino) Sys.Reach.init (fun t e t' h => ?_)
  rcases chaine_cases h with ⟨x, a, bs, -, -, rfl⟩ | ⟨r, -, -, -, rfl⟩ | ⟨b, m, l, -, -, hm, rfl⟩ |
    ⟨x, m, -, -, hm, rfl⟩ | ⟨i, -, rfl⟩
  · exact .inl rfl
  · exact .inl rfl
  · exact .inr ⟨.octet b, hm⟩
  · exact .inr ⟨x, hm⟩
  · exact .inl rfl

end ICar
