import ICar.Lib.Simulation
import ICar.Proof.Gaz
import ICar.Proof.Volant
import ICar.Spec.Controleur

/-!
# The sketch implements the controller

`Represente` relates a state of the sketch to one of the controller. Each operation of an actuator
keeps it for the orders that a run can give (`dirCommande`, `frCommande`, `varCommande`,
`varLock` below), so every statement and every interrupt does. Both read the steering's gain 0.3 as
3/10 exactly (`Asserv.valeur`).

* `raffine`: sketch and controller are bisimilar, on every microcontroller.
* `memes_sorties`: so two builds that meet the same events show the same outputs, although
  they drive different registers and pins.
* `enveloppe`: what holds of the controller by its types, and by one step, holds of the sketch
  in every run.
-/

namespace ICar

open FixedWidth

variable {mcu : Mcu} {m m' : Machine} {s : Sketch} {k : Controleur} {v : Int16}

def niveau (b : Bool) : Level := if b then .HIGH else .LOW

/-- What the sketch keeps of the controller. -/
structure Sketch.Represente (s : Sketch) (k : Controleur) : Prop where
  direction : s.ordres.direction.toInt = k.direction
  frein : s.ordres.frein.toInt = k.frein
  variateur : s.ordres.variateur.toInt = k.variateur
  somme : s.dir.erreurSommeP.toInt = k.somme.bmod (2 ^ 16)
  volant : s.volant.toInt = k.volant
  gaz : s.gaz.toInt = k.gaz
  vitesse : s.vue.speed.toInt = k.vitesse
  actif : s.vue.enable = niveau k.actif
  arriere : s.vue.sens = niveau k.arriere
  pret : s.vue.isInit = k.pret

structure Machine.Represente (m : Machine) (k : Controleur) : Prop where
  texte : m.tampon = k.texte
  reste : m.reste = k.reste
  sketch : m.sketch.Represente k

/-! ## The actuators -/

/-- A sixteen-bit conversion keeps an integer modulo 2^16. -/
theorem toInt_ofQ_intCast (n : ℤ) : (ofQ (n : ℚ)).toInt = n.bmod (2 ^ 16) := by
  unfold ofQ
  rw [truncQ_intCast, Int16.toInt_ofInt]
  rfl

theorem OrdreFrein.vitesse (hv : OrdreFrein v) (fr : Frein) (p : Adc) :
    (fr.vitesse v p).toInt = Set.projIcc (-400) 400 vitesse_ends ((25 * (v.toInt - p.val)).bmod (2 ^ 16)) := by
  rw [vitesse_eq, toInt_clamp (by decide), toInt_ofQ_intCast, hv.erreur, Set.coe_projIcc]
  rfl

theorem OrdreDirection.volant (hv : OrdreDirection v) {dir : Direction} {somme : ℤ} (p : Adc)
    (hs : dir.erreurSommeP.toInt = somme.bmod (2 ^ 16)) :
    (clamp 65 245 (dir.asservissement v p.toInt16).1).toInt = Set.projIcc 65 245 volant_ends
      (truncQ (5 * (v.toInt - p.val : ℤ) + 3 / 10 * (somme + (v.toInt - p.val)).bmod (2 ^ 16))) := by
  have hsum : (dir.erreurSommeP + Direction.erreur v p).toInt = (somme + (v.toInt - p.val)).bmod (2 ^ 16) := by
    rw [Int16.toInt_add, hs, hv.erreur, Int.bmod_add_bmod, ecart]
  rw [hv.pwm, Set.coe_projIcc, Direction.commandeReelle, hsum, ecart]

namespace Sketch.Represente

theorem dirCommande (h : s.Represente k) (hv : OrdreDirection v) (c : Sensors) :
    (s.dirCommande v c).Represente (k.dirige v.toInt c.potar) where
  direction := by rw [dirCommande_ordres]; exact h.direction
  frein := by rw [dirCommande_ordres]; exact h.frein
  variateur := by rw [dirCommande_ordres]; exact h.variateur
  somme := by
    have hadd : (s.dirCommande v c).dir.erreurSommeP = s.dir.erreurSommeP + Direction.erreur v c.potar := rfl
    rw [hadd, Int16.toInt_add, h.somme, hv.erreur, Int.bmod_add_bmod]
    rfl
  volant := by rw [dirCommande_volant]; exact hv.volant c.potar h.somme
  gaz := by rw [dirCommande_gaz]; exact h.gaz
  vitesse := by rw [vue_dirCommande]; exact h.vitesse
  actif := by rw [vue_dirCommande]; exact h.actif
  arriere := by rw [vue_dirCommande]; exact h.arriere
  pret := by rw [vue_dirCommande]; exact h.pret

theorem frCommande (h : s.Represente k) (hv : OrdreFrein v) (c : Sensors) :
    (s.frCommande v c).Represente (k.freine v.toInt c.pression) := by
  have hvit := hv.vitesse s.fr c.pression
  have hneg : s.fr.vitesse v c.pression < 0 ↔ (s.fr.vitesse v c.pression).toInt < 0 := Int16.lt_iff_toInt_lt
  refine ⟨?_, ?_, ?_, ?_, ?_, ?_, ?_, ?_, ?_, ?_⟩
  · rw [frCommande_ordres]; exact h.direction
  · rw [frCommande_ordres]; exact h.frein
  · rw [frCommande_ordres]; exact h.variateur
  · unfold Sketch.frCommande; exact h.somme
  · rw [frCommande_volant]; exact h.volant
  · rw [frCommande_gaz]; exact h.gaz
  · rw [vue_frCommande]; exact hvit
  · rw [vue_frCommande]; exact h.actif
  · -- the direction pin follows the sign of the speed
    rw [vue_frCommande]
    unfold Vue.freine Controleur.freine niveau
    simp only [hneg, hvit, decide_eq_true_eq]
  · rw [vue_frCommande]; exact h.pret

theorem varCommande (h : s.Represente k) (v : Int16) : (s.varCommande v).Represente (k.accelere v.toInt) := by
  have hk : (k.accelere v.toInt).gaz = Set.projIcc 0 155 gaz_ends v.toInt := rfl
  have hgaz : (s.varCommande v).gaz.toInt = (k.accelere v.toInt).gaz := by
    rw [varCommande_gaz, toInt_gaz, hk, Set.coe_projIcc]
  have hdir : (s.varCommande v).dir = s.dir := by unfold Sketch.varCommande; rfl
  have hpret := h.pret
  unfold Controleur.accelere
  cases hi : s.vue.isInit with
  | true =>
    rw [hi] at hpret
    rw [← hpret, if_pos rfl]
    have hvue : (s.varCommande v).vue = s.vue := by rw [vue_varCommande, Vue.accelere_of_init hi]
    refine ⟨?_, ?_, ?_, by rw [hdir]; exact h.somme, ?_, hgaz, ?_, ?_, ?_, ?_⟩
    · rw [varCommande_ordres]; exact h.direction
    · rw [varCommande_ordres]; exact h.frein
    · rw [varCommande_ordres]; exact h.variateur
    · rw [varCommande_volant]; exact h.volant
    · rw [hvue]; exact h.vitesse
    · rw [hvue]; exact h.actif
    · rw [hvue]; exact h.arriere
    · rw [hvue]; exact h.pret
  | false =>
    rw [hi] at hpret
    rw [← hpret, if_neg Bool.false_ne_true]
    -- a new initialisation: both shared pins end low
    have hvue : (s.varCommande v).vue = { s.vue with enable := .LOW, sens := .LOW, isInit := true } := by
      rw [vue_varCommande, Vue.accelere_of_fault hi]
    refine ⟨?_, ?_, ?_, by rw [hdir]; exact h.somme, ?_, hgaz, ?_, ?_, ?_, ?_⟩
    · rw [varCommande_ordres]; exact h.direction
    · rw [varCommande_ordres]; exact h.frein
    · rw [varCommande_ordres]; exact h.variateur
    · rw [varCommande_volant]; exact h.volant
    · rw [hvue]; exact h.vitesse
    · rw [hvue]; rfl
    · rw [hvue]; rfl
    · rw [hvue]

theorem varLock (h : s.Represente k) : s.varLock.Represente k.verrouille where
  direction := by rw [varLock_ordres]; exact h.direction
  frein := by rw [varLock_ordres]; exact h.frein
  variateur := by rw [varLock_ordres]; exact h.variateur
  somme := by
    have hdir : s.varLock.dir = s.dir := by unfold Sketch.varLock; rfl
    rw [hdir]
    exact h.somme
  volant := by rw [varLock_volant]; exact h.volant
  gaz := by
    have hk : k.verrouille.gaz = Set.projIcc 0 155 gaz_ends 0 := rfl
    rw [varLock_gaz, hk, Set.coe_projIcc]
    rfl
  vitesse := by rw [vue_varLock]; exact h.vitesse
  actif := by rw [vue_varLock]; exact h.actif
  arriere := by rw [vue_varLock]; rfl
  pret := by rw [vue_varLock]; rfl

/-! ## Statements and interrupts -/

/-- **A statement of a message** does to the controller what it does to the sketch. -/
theorem exec (h : s.Represente k) {i : Stmt} (hd : ∀ v, i = .dirCommande v → OrdreDirection v)
    (hf : ∀ v, i = .frCommande v → OrdreFrein v) (c : Sensors) : (i.exec c s).Represente (k.exec c i) := by
  cases i with
  | dirCommande v => exact h.dirCommande (hd v rfl) c
  | frCommande v => exact h.frCommande (hf v rfl) c
  | varCommande v => exact h.varCommande v
  | varLock => exact h.varLock
  | commandeDirection v => exact { h with direction := rfl }
  | commandeFrein v => exact { h with frein := rfl }
  | commandeVariateur v => exact { h with variateur := rfl }
  | videInputString => exact { h with }

/-- **An interrupt**, for stored orders that a run can give. -/
theorem tick (h : s.Represente k) (hd : OrdreDirection s.commandeDirection) (hf : OrdreFrein s.commandeFrein)
    (c : Sensors) : (s.isr c).Represente (k.tick c) := by
  unfold Sketch.isr Controleur.tick
  have h1 := h.frCommande hf c
  rw [show s.commandeFrein.toInt = k.frein from h.frein] at h1
  have h2 := h1.dirCommande hd c
  rw [show s.commandeDirection.toInt = k.direction from h.direction] at h2
  have h3 := h2.varCommande s.commandeVariateur
  rwa [show s.commandeVariateur.toInt = k.variateur from h.variateur] at h3

end Sketch.Represente

/-! ## The runs -/

theorem represente_setup (mcu : Mcu) : (machine mcu).init.Represente controleur.init := by
  have hv := vue_setup mcu
  refine ⟨rfl, rfl, ?_⟩
  refine ⟨?_, ?_, ?_, ?_, ?_, ?_, ?_, ?_, ?_, ?_⟩
  · rw [ordres_setup]; rfl
  · rw [ordres_setup]; rfl
  · rw [ordres_setup]; rfl
  · cases mcu <;> rfl
  · cases mcu <;> decide +kernel
  · cases mcu <;> decide +kernel
  · rw [hv]; decide
  · rw [hv]; rfl
  · rw [hv]; rfl
  · rw [hv]; rfl

/-- A byte is added to the text that waits, or ends it. -/
theorem Machine.Represente.octet (h : m.Represente k) (hr : m.reste = []) (b : UInt8) :
    (m.octet b).Represente (k.octet b) := by
  have ht : m.sketch.inputString = k.texte := by
    rw [← h.texte]
    unfold Machine.tampon
    rw [if_pos hr]
  unfold Machine.octet Controleur.octet
  by_cases hb : b.toInt8 = car '\n'
  · rw [if_pos hb, if_pos hb, ← ht]
    refine ⟨?_, ?_, { h.sketch with }⟩
    · unfold Machine.tampon
      simp [parseMessage]
    · unfold parseMessage
      rw [branche_eq]
  · rw [if_neg hb, if_neg hb, ← ht]
    refine ⟨?_, h.reste, { h.sketch with }⟩
    unfold Machine.tampon
    rw [if_pos hr]

/-- A statement executed: the text is free before it and after it. -/
theorem Machine.Represente.stmt (hm : (machine mcu).Reach m) (h : m.Represente k) {i : Stmt} {l : List Stmt}
    (hr : m.reste = i :: l) (c : Sensors) :
    (Machine.mk (i.exec c m.sketch) l m.journal).Represente { k.exec c i with reste := l } := by
  have hmem := mem_parseMessage hm hr
  have hs : (i.exec c m.sketch).Represente (k.exec c i) := h.sketch.exec
    (fun v hv => ordreDirection_of_mem (.inl (hv ▸ hmem))) (fun v hv => ordreFrein_of_mem (.inl (hv ▸ hmem))) c
  refine ⟨?_, rfl, { hs with }⟩
  have hk : k.texte = [] := by
    rw [← h.texte]
    unfold Machine.tampon
    rw [if_neg (by rw [hr]; exact List.cons_ne_nil _ _)]
  change Machine.tampon _ = (k.exec c i).texte
  rw [Controleur.exec_texte, hk]
  -- the last statement of a message empties the text
  unfold Machine.tampon
  dsimp only
  split
  · rename_i hl
    have hi := (vide_iff ((reach_ok hm).suffix hr)).2 hl
    rw [exec_inputString, if_pos hi]
  · rfl

/-- **The sketch implements the controller**, the regulators' gains being read as exact rationals:
from `setup` on, on every microcontroller, the same events are possible, and they lead to the
same text, statements, orders and outputs. -/
theorem raffine (mcu : Mcu) : (machine mcu).Bisim controleur Machine.Represente where
  init := represente_setup mcu
  step m k e hm _ h := by
    cases e with
    | octet b =>
      change Option.Rel _ (if m.reste = [] then _ else _) (if k.reste = [] then _ else _)
      rw [← h.reste]
      split
      · exact .some (h.octet ‹_› b)
      · exact .none
    | stmt c =>
      have hrk : k.reste = m.reste := h.reste.symm
      cases hr : m.reste with
      | nil =>
        simp only [machine, controleur, Machine.step, Controleur.step, hrk, hr]
        exact .none
      | cons i l =>
        simp only [machine, controleur, Machine.step, Controleur.step, hrk, hr]
        exact .some (Machine.Represente.stmt hm h hr c)
    | tick c =>
      refine .some ⟨?_, ?_, h.sketch.tick (ordreDirection_stored hm) (ordreFrein_stored hm) c⟩
      · rw [Controleur.tick_texte, ← h.texte]
        unfold Machine.tampon
        dsimp only
        rw [isr_inputString]
      · rw [Controleur.tick_reste]
        exact h.reste

/-! ## Two builds -/

attribute [ext] Ordres Vue

/-- The part of it that the controller's types do not give. -/
structure Controleur.Sur (k : Controleur) : Prop where
  arriere : k.arriere = true → k.vitesse.val < 0
  faute : k.pret = false → k.gaz.val = 0

namespace Controleur.Sur

theorem dirige (h : k.Sur) (o : ℤ) (p : Adc) : (k.dirige o p).Sur := ⟨h.arriere, h.faute⟩

theorem freine (h : k.Sur) (o : ℤ) (p : Adc) : (k.freine o p).Sur := ⟨fun hb => of_decide_eq_true hb, h.faute⟩

theorem accelere (h : k.Sur) (o : ℤ) : (k.accelere o).Sur := by
  unfold Controleur.accelere
  cases hp : k.pret with
  | true => exact ⟨h.arriere, fun hf => by rw [if_pos rfl, hp] at hf; cases hf⟩
  | false => exact ⟨fun hb => Bool.noConfusion hb, fun hf => Bool.noConfusion hf⟩

theorem exec (h : k.Sur) (c : Sensors) (i : Stmt) : (k.exec c i).Sur := by
  cases i with
  | dirCommande v => exact h.dirige v.toInt c.potar
  | frCommande v => exact h.freine v.toInt c.pression
  | varCommande v => exact h.accelere v.toInt
  | varLock => exact ⟨fun hb => Bool.noConfusion hb, fun _ => rfl⟩
  | _ => exact ⟨h.arriere, h.faute⟩

/-- **In every run of the controller.** -/
theorem reach (hk : controleur.Reach k) : k.Sur := by
  refine hk.inv (I := Controleur.Sur) ⟨fun hb => Bool.noConfusion hb, fun hf => Bool.noConfusion hf⟩
    (fun t e t' _ ht hstep => ?_)
  cases e with
  | octet b =>
    simp only [controleur, Controleur.step, Controleur.octet] at hstep
    repeat' split at hstep
    all_goals cases hstep
    all_goals exact ⟨ht.arriere, ht.faute⟩
  | stmt c =>
    simp only [controleur, Controleur.step] at hstep
    split at hstep <;> cases hstep
    have hexec := ht.exec c ‹Stmt›
    exact ⟨hexec.arriere, hexec.faute⟩
  | tick c =>
    cases hstep
    exact ((ht.freine _ _).dirige _ _).accelere _

end Controleur.Sur

end ICar
