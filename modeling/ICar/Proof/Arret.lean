import ICar.Proof.Gaz
import ICar.Proof.Integrale

/-!
# The stop against the orders it stands for

`arret()` gives the steering 50, the brake 100 and the throttle 0. The same orders sent as
messages, steering at half range, go through the scaling of the `D` branch, which turns 50
into 150; `arret()` gives its 50 unscaled, below the scaled interval `[65, 235]`. So an `S`
message never leaves the car in the state of the three messages (`arret_jamais`): the steering
alone differs.
-/

namespace ICar

variable {s : Sketch} {c : Sensors} {t : List Int8}

/-! ## A message received at rest -/

/-- The bytes of a text, all read with the same readings. -/
def recus (c : Sensors) (t : List Int8) : List (UInt8 × Sensors) := t.map fun x => (x.toUInt8, c)

theorem serialEvent_append (l l' : List (UInt8 × Sensors)) (s : Sketch) :
    s.serialEvent (l ++ l') = (s.serialEvent l).serialEvent l' := List.foldl_append

theorem serialEvent_corps (ht : car '\n' ∉ t) (s : Sketch) :
    s.serialEvent (recus c t) = { s with inputString := s.inputString ++ t } := by
  induction t generalizing s with
  | nil => simp [recus, Sketch.serialEvent]
  | cons x t ih =>
    rw [List.mem_cons, not_or] at ht
    have hx : s.lireOctet (x.toUInt8, c) = { s with inputString := s.inputString ++ [x] } := by
      simp only [Sketch.lireOctet, Int8.toInt8_toUInt8, if_neg (Ne.symm ht.1)]
    show (s.lireOctet (x.toUInt8, c)).serialEvent (recus c t) = _
    rw [hx, ih ht.2]
    simp

/-- `parseMessage()` on a text. -/
def Sketch.execute (c : Sensors) (t : List Int8) (s : Sketch) : Sketch :=
  ({ s with inputString := t } : Sketch).parseMessage c

/-- **A message received with an empty text** is executed as it is. -/
theorem serialEvent_trame (hs : s.inputString = []) (t : Trame) :
    s.serialEvent (recus c t.texte) = s.execute c t.texte := by
  unfold Trame.texte recus
  rw [List.map_append]
  show s.serialEvent (recus c t.corps ++ recus c [car '\n']) = _
  rw [serialEvent_append, serialEvent_corps t.ligne, hs, List.nil_append]
  rfl

theorem execAll_inputString (c : Sensors) (l : List Stmt) (s : Sketch) :
    (s.execAll c (l ++ [.videInputString])).inputString = [] := by
  unfold Sketch.execAll
  rw [List.foldl_append]
  rfl

theorem execute_inputString (c : Sensors) (t : List Int8) (s : Sketch) : (s.execute c t).inputString = [] :=
  execAll_inputString c _ _

/-! ## The brake's accumulators -/

theorem exec_fr (c : Sensors) (i : Stmt) (s : Sketch) : (i.exec c s).fr =
    match i with
    | .frCommande v => (s.fr.asservissement v c.pression.toInt16).2
    | _ => s.fr := by
  cases i <;> rfl

/-! ## The comparison -/

/-- The stop as a message. -/
def trameS : Trame := ⟨[car 'S'], by decide⟩

/-- Steering at half range, full brake, no throttle, as three messages. -/
def trameD50 : Trame := ⟨[car 'D', 50], by decide⟩
def trameF100 : Trame := ⟨[car 'F', 100], by decide⟩
def trameV0 : Trame := ⟨[car 'V', 0], by decide⟩

def Sketch.recoitArret (c : Sensors) (s : Sketch) : Sketch := s.serialEvent (recus c trameS.texte)

def Sketch.recoitTrames (c : Sensors) (s : Sketch) : Sketch :=
  s.serialEvent (recus c (trameD50.texte ++ trameF100.texte ++ trameV0.texte))

/-- The same stored orders, accumulators and outputs. -/
structure MemeEtat (s s' : Sketch) : Prop where
  ordres : s.ordres = s'.ordres
  dir : s.dir = s'.dir
  fr : s.fr = s'.fr
  pin : s.board.pin = s'.board.pin
  m1Speed : s.board.m1Speed = s'.board.m1Speed

theorem recoitArret_eq (hs : s.inputString = []) : s.recoitArret c = s.execute c trameS.texte :=
  serialEvent_trame hs trameS

theorem recoitTrames_eq (hs : s.inputString = []) : s.recoitTrames c =
    ((s.execute c trameD50.texte).execute c trameF100.texte).execute c trameV0.texte := by
  unfold Sketch.recoitTrames recus
  rw [List.map_append, List.map_append, serialEvent_append, serialEvent_append]
  show ((s.serialEvent (recus c trameD50.texte)).serialEvent (recus c trameF100.texte)).serialEvent
    (recus c trameV0.texte) = _
  rw [serialEvent_trame hs, serialEvent_trame (execute_inputString ..), serialEvent_trame (execute_inputString ..)]

/-- The statements of the stop, and those of the three messages. -/
def stmtsArret : List Stmt := parseMessage trameS.texte

def stmtsTrames : List Stmt := parseMessage trameD50.texte ++ parseMessage trameF100.texte ++ parseMessage trameV0.texte

theorem stmtsArret_eq : stmtsArret = [.dirCommande 50, .commandeDirection 50, .frCommande 100, .commandeFrein 100,
    .varCommande 0, .commandeVariateur 0, .videInputString] := rfl

theorem stmtsTrames_eq : stmtsTrames = [.dirCommande 150, .commandeDirection 150, .videInputString, .frCommande 100,
    .commandeFrein 100, .videInputString, .varCommande 0, .commandeVariateur 0, .videInputString] := by decide +kernel

/-- **A component that every statement updates as a function of itself** is, after messages, the
fold of their statements. -/
theorem execute_foldl {α : Type*} {f : Sketch → α} {g : α → Stmt → α} (hf : ∀ i s, f (i.exec c s) = g (f s) i)
    (htexte : ∀ s t, f { s with inputString := t } = f s) (t : List Int8) (s : Sketch) :
    f (s.execute c t) = (parseMessage t).foldl g (f s) := by
  have key : ∀ (l : List Stmt) (s : Sketch), f (s.execAll c l) = l.foldl g (f s) := by
    intro l
    induction l with
    | nil => intro s; rfl
    | cons i l ih =>
      intro s
      rw [List.foldl_cons, ← hf]
      exact ih _
  -- the text received is no part of the component
  rw [← htexte s t]
  exact key _ _

/-- The two sides, component by component. -/
theorem recoit_foldl {α : Type*} {f : Sketch → α} {g : α → Stmt → α} (hf : ∀ i s, f (i.exec c s) = g (f s) i)
    (htexte : ∀ s t, f { s with inputString := t } = f s) (hs : s.inputString = []) :
    f (s.recoitArret c) = stmtsArret.foldl g (f s) ∧ f (s.recoitTrames c) = stmtsTrames.foldl g (f s) := by
  constructor
  · rw [recoitArret_eq hs, execute_foldl hf htexte]
    rfl
  · rw [recoitTrames_eq hs, execute_foldl hf htexte, execute_foldl hf htexte, execute_foldl hf htexte]
    unfold stmtsTrames
    rw [List.foldl_append, List.foldl_append]

/-- The stored orders on the two sides. -/
theorem recoit_ordres (hs : s.inputString = []) (c : Sensors) :
    (s.recoitArret c).ordres = ⟨50, 100, 0⟩ ∧ (s.recoitTrames c).ordres = ⟨150, 100, 0⟩ := by
  obtain ⟨hord, hord'⟩ := recoit_foldl (f := Sketch.ordres) (exec_ordres c) (fun _ _ => rfl) hs
  rw [stmtsArret_eq] at hord
  rw [stmtsTrames_eq] at hord'
  exact ⟨hord, hord'⟩

theorem not_memeEtat (hs : s.inputString = []) (c : Sensors) : ¬ MemeEtat (s.recoitArret c) (s.recoitTrames c) := by
  intro h
  have hord := h.ordres
  rw [(recoit_ordres hs c).1, (recoit_ordres hs c).2] at hord
  exact absurd hord (by decide)

/-- The steering orders that a value in 0..100 is scaled to. -/
theorem echelle_interval (v : Int8) (h0 : 0 ≤ v) (h1 : v ≤ 100) :
    65 ≤ echelle v ∧ echelle v ≤ 235 ∧ echelle v ≠ 50 := by
  have h : ∀ n : BitVec 8, 0 ≤ Int8.ofBitVec n → Int8.ofBitVec n ≤ 100 →
      65 ≤ echelle (Int8.ofBitVec n) ∧ echelle (Int8.ofBitVec n) ≤ 235 ∧ echelle (Int8.ofBitVec n) ≠ 50 := by
    decide +kernel
  exact h v.toBitVec h0 h1

/-- A statement's effect on the brake's accumulators and on the pins it shares with the throttle. -/
def freinApres (c : Sensors) (q : Frein × Vue) : Stmt → Frein × Vue
  | .frCommande v => ((q.1.asservissement v c.pression.toInt16).2, q.2.freine (q.1.vitesse v c.pression))
  | .varCommande _ => (q.1, q.2.accelere)
  | .varLock => (q.1, q.2.verrouille)
  | _ => q

theorem exec_frein (c : Sensors) (i : Stmt) (s : Sketch) :
    ((i.exec c s).fr, (i.exec c s).vue) = freinApres c (s.fr, s.vue) i := by
  rw [exec_fr, vue_exec]
  cases i <;> rfl

/-- A statement's effect on the throttle's output. -/
def gazApres (g : Int16) : Stmt → Int16
  | .varCommande v => FixedWidth.clamp 0 155 v
  | .varLock => 0
  | _ => g

/-- **A stop is never the three messages it stands for.** In every state at rest, for all
readings: the stored steering order is 50 instead of 150, and lies outside the interval of the
scaled orders; the brake and the throttle are left in the same state. -/
theorem arret_jamais (hs : s.inputString = []) (c : Sensors) :
    ¬ MemeEtat (s.recoitArret c) (s.recoitTrames c) ∧
    ((s.recoitArret c).ordres = ⟨50, 100, 0⟩ ∧ (s.recoitTrames c).ordres = ⟨150, 100, 0⟩) ∧
    (∀ v : Int8, 0 ≤ v → v ≤ 100 → 65 ≤ echelle v ∧ echelle v ≤ 235 ∧ echelle v ≠ 50) ∧
    (s.recoitArret c).fr = (s.recoitTrames c).fr ∧ (s.recoitArret c).vue = (s.recoitTrames c).vue ∧
    (s.recoitArret c).gaz = (s.recoitTrames c).gaz := by
  obtain ⟨hfr, hfr'⟩ := recoit_foldl (f := fun s => (s.fr, s.vue)) (exec_frein c) (fun _ _ => rfl) hs
  obtain ⟨hgaz, hgaz'⟩ := recoit_foldl (f := Sketch.gaz) (g := gazApres)
    (fun i s => (exec_gaz s c i).trans (by cases i <;> rfl)) (fun _ _ => rfl) hs
  rw [stmtsArret_eq] at hfr hgaz
  rw [stmtsTrames_eq] at hfr' hgaz'
  have hf := Prod.mk.inj (hfr.trans hfr'.symm)
  exact ⟨not_memeEtat hs c, recoit_ordres hs c, echelle_interval, hf.1, hf.2, hgaz.trans hgaz'.symm⟩

/-- After `setup`, the sensors at 0: the stop stores the steering order 50, the messages 150. -/
theorem arret_jamais_setup : ((Sketch.setup .atmega328P).recoitArret ⟨0, 0⟩).ordres = ⟨50, 100, 0⟩ ∧
    ((Sketch.setup .atmega328P).recoitTrames ⟨0, 0⟩).ordres = ⟨150, 100, 0⟩ :=
  (arret_jamais rfl ⟨0, 0⟩).2.1

theorem not_memeEtat_setup : ¬ MemeEtat ((Sketch.setup .atmega328P).recoitArret ⟨0, 0⟩)
    ((Sketch.setup .atmega328P).recoitTrames ⟨0, 0⟩) := not_memeEtat rfl ⟨0, 0⟩

end ICar
