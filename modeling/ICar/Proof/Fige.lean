import ICar.Proof.Chaine
import ICar.Proof.Transparence

/-!
# After the stop the car keeps its orders

The bridge does not pass the stop header on: it returns, and leaves the serial link to what is
in flight on it. `chaine_figee`: from then on, whatever the application, the timer and the losses do,
the Arduino only reads bytes that were already in flight (`lus_sublist`); and once these are read
its orders never change again, and each interrupt drives the brake and the throttle by them.
-/

namespace ICar

open FixedWidth

variable {mcu : Mcu} {c c' : Chaine} {es : List EvChaine}

/-- The byte that the Arduino reads. -/
def EvChaine.octetLu : EvChaine → Option UInt8
  | .arduino (.octet b) => some b
  | _ => none

/-- **A step after the stop**: the bridge stays ended, and nothing comes on the serial link. -/
theorem arrete_step {e : EvChaine} (ha : c.pont.actif = false) (h : (chaine mcu).step c e = some c') :
    c'.pont.actif = false ∧ List.Sublist (e.octetLu.toList ++ c'.serie) c.serie := by
  rcases chaine_cases h with ⟨x, a, bs, rfl, -, rfl⟩ | ⟨r, -, hact, -⟩ | ⟨b, m, l, rfl, hs, -, rfl⟩ |
    ⟨x, m, rfl, hx, -, rfl⟩ | ⟨i, rfl, rfl⟩
  · exact ⟨ha, List.Sublist.refl _⟩
  · rw [ha] at hact
    cases hact
  · refine ⟨ha, ?_⟩
    rw [hs]
    exact List.Sublist.refl _
  · refine ⟨ha, ?_⟩
    cases x with
    | octet b => exact absurd rfl (hx b)
    | stmt s => exact List.Sublist.refl _
    | tick s => exact List.Sublist.refl _
  · exact ⟨ha, List.eraseIdx_sublist ..⟩

/-- **After the stop the Arduino reads what was in flight**, less what is lost. -/
theorem lus_sublist : ∀ {es : List EvChaine} {c : Chaine}, c.pont.actif = false → (chaine mcu).run c es = some c' →
    c'.pont.actif = false ∧ List.Sublist (es.filterMap EvChaine.octetLu ++ c'.serie) c.serie := by
  intro es
  induction es with
  | nil =>
    intro c ha h
    cases h
    exact ⟨ha, List.Sublist.refl _⟩
  | cons e es ih =>
    intro c ha h
    obtain ⟨u, hu, h⟩ := Sys.run_cons_some.1 h
    obtain ⟨hact, hsub⟩ := arrete_step ha hu
    obtain ⟨hact', hsub'⟩ := ih hact h
    refine ⟨hact', ?_⟩
    cases ho : e.octetLu with
    | none =>
      rw [ho] at hsub
      rw [List.filterMap_cons_none ho]
      exact hsub'.trans hsub
    | some b =>
      rw [ho] at hsub
      rw [List.filterMap_cons_some ho]
      exact (hsub'.cons_cons b).trans hsub

/-- The bridge has returned, and nothing is left to read or to execute. -/
structure Fige (k : Commandes) (c : Chaine) : Prop where
  arrete : c.pont.actif = false
  serie : c.serie = []
  reste : c.arduino.reste = []
  commandes : c.arduino.commandes = k

/-- **Nothing moves the orders any more.** -/
theorem Fige.step {k : Commandes} {e : EvChaine} (hf : Fige k c) (h : (chaine mcu).step c e = some c') : Fige k c' := by
  rcases chaine_cases h with ⟨x, a, bs, -, -, rfl⟩ | ⟨r, -, hact, -⟩ | ⟨b, m, l, -, hs, -⟩ |
    ⟨x, m, rfl, hx, hm, rfl⟩ | ⟨i, -, rfl⟩
  · exact { hf with }
  · rw [hf.arrete] at hact
    cases hact
  · rw [hf.serie] at hs
    cases hs
  · cases x with
    | octet b => exact absurd rfl (hx b)
    | stmt s =>
      -- no statement is left
      have hnone : (machine mcu).step c.arduino (.stmt s) = none := by
        show c.arduino.step (.stmt s) = none
        unfold Machine.step
        rw [hf.reste]
      have hm' : (machine mcu).step c.arduino (.stmt s) = some m := hm
      rw [hnone] at hm'
      cases hm'
    | tick s =>
      have hk := (projection mcu).cache c.arduino (.tick s) rfl
      have hm' : (machine mcu).step c.arduino (.tick s) = some m := hm
      rw [hm', Option.map_some] at hk
      have hcom : m.commandes = c.arduino.commandes := Option.some.inj hk
      exact ⟨hf.arrete, hf.serie, (congrArg Commandes.reste hcom).trans hf.reste, hcom.trans hf.commandes⟩
  · refine { hf with serie := ?_ }
    dsimp only
    rw [hf.serie]
    rfl

/-- **After the stop.** Once the bridge has returned, every byte that the Arduino will read is in
flight already; and by its own steps alone the Arduino can come to a state after which, in every
continuation, the text, the messages and the orders stay, and the interrupts give the brake and
the throttle the same outputs for the same readings. -/
theorem chaine_figee (mcu : Mcu) (ha : c.pont.actif = false) :
    (∀ es c', (chaine mcu).run c es = some c' → List.Sublist (es.filterMap EvChaine.octetLu ++ c'.serie) c.serie) ∧
    ∃ (fs : List Ev) (u : Chaine), (chaine mcu).run c (fs.map .arduino) = some u ∧ u.serie = [] ∧ u.appli = c.appli ∧
      ∀ es c', (chaine mcu).run u es = some c' → c'.arduino.commandes = u.arduino.commandes ∧
        ∀ s, (c'.arduino.sketch.isr s).gaz = (u.arduino.sketch.isr s).gaz ∧
          (c'.arduino.sketch.isr s).board.m1Speed = (u.arduino.sketch.isr s).board.m1Speed := by
  refine ⟨fun es c' h => (lus_sublist ha h).2, ?_⟩
  obtain ⟨fs, u, hrun, happli, -, hpont, hserie, hreste⟩ := vide_serie mcu Sensors.zero c.serie (c := c) rfl
  refine ⟨fs, u, hrun, hserie, happli, fun es c' h => ?_⟩
  have hfu : Fige u.arduino.commandes u := ⟨by rw [hpont]; exact ha, hserie, hreste, rfl⟩
  have hf : Fige u.arduino.commandes c' :=
    Sys.run_inv (fun _ _ _ _ hI hstep => hI.step hstep) hfu h
  exact ⟨hf.commandes, fun s => sorties_commandes hf.commandes s⟩

/-- A move, then the stop: the move is in flight on the serial link when the bridge returns. -/
theorem chaine_figee_stop : ∃ (c : Chaine) (fs : List Ev) (u : Chaine), (chaine .atmega328P).run (chaine .atmega328P).init
      [.appli .connecte, .appli (.bouge ⟨.seekFrein, 30⟩), .appli .touche, .recv (.deux 1 30), .recv (.un (car 'S'))] =
        some c ∧
    c.serie = commandeActionneur 1 30 ∧ (chaine .atmega328P).run c (fs.map .arduino) = some u ∧ u.serie = [] ∧
      ∀ es c', (chaine .atmega328P).run u es = some c' → c'.arduino.commandes = u.arduino.commandes := by
  obtain ⟨c, hrun, hact, hserie⟩ : ∃ c, (chaine .atmega328P).run (chaine .atmega328P).init
      [.appli .connecte, .appli (.bouge ⟨.seekFrein, 30⟩), .appli .touche, .recv (.deux 1 30), .recv (.un (car 'S'))] =
        some c ∧ c.pont.actif = false ∧ c.serie = commandeActionneur 1 30 := ⟨_, rfl, rfl, by decide⟩
  obtain ⟨-, fs, u, hlire, hvide, -, hall⟩ := chaine_figee .atmega328P hact
  exact ⟨c, fs, u, hrun, hserie, hlire, hvide, fun es c' h => (hall es c' h).1⟩

end ICar
