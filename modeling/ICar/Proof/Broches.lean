import ICar.Proof.Journal
import ICar.Spec.Messages

/-!
# The pins that two actuators share

The pin tables of the sketch overlap twice: pin 4 is the enable pin `_nD2` of the brake's
shield and the `mass_pin` that the throttle pulses, pin 7 is the direction pin `_M1DIR` of
the shield and the `FS_pin` that cuts the throttle's power. `Vue` is an abstract model of
what is shared, with one transition per operation; `vue_exec` and `vue_isr` say that every
statement and every interrupt of the sketch is one of its transitions.

`fault_transient`: the throttle is in fault only until the next call of its `commande`.
-/

namespace ICar

variable {mcu : Mcu} {m m' : Machine}

/-! ## The abstract model -/

/-- The shared pins, the speed last given to the shield, and the throttle's mark. -/
structure Vue where
  enable : Level
  sens : Level
  speed : Int16
  isInit : Bool

namespace Vue

/-- The brake is given a speed. -/
def freine (v : Int16) (w : Vue) : Vue := { w with sens := if v < 0 then .HIGH else .LOW, speed := v }

/-- The throttle is given an order: out of fault, it only writes a pin of its own. -/
def accelere (w : Vue) : Vue :=
  if w.isInit then w else { w with enable := .LOW, sens := .LOW, isInit := true }

def verrouille (w : Vue) : Vue := { w with sens := .LOW, isInit := false }

/-- The shield is enabled, and its direction pin is that of the speed. -/
def Conduisible (w : Vue) : Prop := w.enable = .HIGH ∧ (w.sens = .HIGH ↔ w.speed < 0)

variable (v : Int16) (w : Vue)

@[simp] theorem freine_isInit : (w.freine v).isInit = w.isInit := rfl

theorem freine_sens_low : (w.freine v).sens = .LOW ↔ ¬ v < 0 := by
  unfold freine
  by_cases h : v < 0 <;> simp [h]

@[simp] theorem accelere_isInit : w.accelere.isInit = true := by
  unfold accelere
  cases h : w.isInit <;> simp [h]

variable {w}

theorem accelere_of_init (h : w.isInit = true) : w.accelere = w := by
  unfold accelere
  rw [if_pos h]

theorem accelere_of_fault (h : w.isInit = false) :
    w.accelere = { w with enable := .LOW, sens := .LOW, isInit := true } := by
  unfold accelere
  rw [h]
  rfl

theorem accelere_enable_low (h : w.enable = .LOW) : w.accelere.enable = .LOW := by
  unfold accelere
  split
  · exact h
  · rfl

theorem Conduisible.freine (h : w.Conduisible) : (w.freine v).Conduisible := by
  refine ⟨h.1, ?_⟩
  unfold Vue.freine
  by_cases hv : v < 0 <;> simp [hv]

theorem Conduisible.not_low (h : w.Conduisible) : w.enable ≠ .LOW := by
  rw [h.1]
  intro h
  cases h

end Vue

/-! ## The sketch -/

def Sketch.vue (s : Sketch) : Vue where
  enable := s.board.pin Frein.md.nD2
  sens := s.board.pin Frein.md.M1DIR
  speed := s.board.m1Speed
  isInit := s.var.isInit

namespace DualMC33926MotorShield

variable (md : DualMC33926MotorShield) (v : Int16) (b : Board)

/-- A PWM write to the speed pin, or to the register behind it. -/
theorem setM1Speed_pin_of_ne {q : ℕ} (h1 : q ≠ md.M1DIR) (h2 : q ≠ M1PWM) :
    (md.setM1Speed v b).pin q = b.pin q := by
  unfold setM1Speed
  dsimp only
  split <;> rw [Board.digitalWrite_pin_of_ne _ _ h1] <;> split
  all_goals first
    | rfl
    | rw [Board.analogWrite_pin_of_ne _ _ h2]

theorem setM1Speed_dir : (md.setM1Speed v b).pin md.M1DIR = if v < 0 then .HIGH else .LOW := by
  unfold setM1Speed
  dsimp only
  split <;> simp_all

@[simp] theorem setM1Speed_m1Speed : (md.setM1Speed v b).m1Speed = v := by
  unfold setM1Speed
  dsimp only
  split <;> rw [Board.digitalWrite_m1Speed] <;> split
  all_goals first
    | rfl
    | rw [Board.analogWrite_m1Speed]

end DualMC33926MotorShield

open DualMC33926MotorShield

/-- `initvar` on the shared pins: both low. -/
theorem initvar_pins (b : Board) : (Variateur.initvar b).2.pin Frein.md.nD2 = .LOW ∧
    (Variateur.initvar b).2.pin Frein.md.M1DIR = .LOW ∧
    (Variateur.initvar b).2.m1Speed = b.m1Speed := by
  unfold Variateur.initvar
  refine ⟨?_, Board.digitalWrite_self .., rfl⟩
  dsimp only
  rw [Board.digitalWrite_pin_of_ne _ _ (by decide)]
  exact Board.digitalWrite_self ..

variable (s : Sketch) (c : Sensors) (value : Int16)

/-- The brake writes the pins of its shield only. -/
theorem frCommande_pin {q : ℕ} (h1 : q ≠ Frein.md.M1DIR) (h2 : q ≠ M1PWM) :
    (s.frCommande value c).board.pin q = s.board.pin q := by
  rw [Sketch.frCommande_board, setM1Speed_pin_of_ne _ _ _ h1 h2]

/-- The steering writes its own pin only. -/
theorem dirCommande_pin {q : ℕ} (h : q ≠ Direction.carteDePuissance) :
    (s.dirCommande value c).board.pin q = s.board.pin q := by
  unfold Sketch.dirCommande Direction.commande
  exact Board.analogWrite_pin_of_ne _ _ h

theorem vue_frCommande : (s.frCommande value c).vue = s.vue.freine (s.fr.vitesse value c.pression) := by
  have h1 := setM1Speed_pin_of_ne Frein.md (s.fr.vitesse value c.pression) s.board
    (show Frein.md.nD2 ≠ Frein.md.M1DIR by decide) (by decide)
  have h2 := setM1Speed_dir Frein.md (s.fr.vitesse value c.pression) s.board
  have h3 := setM1Speed_m1Speed Frein.md (s.fr.vitesse value c.pression) s.board
  unfold Sketch.vue Vue.freine
  rw [Sketch.frCommande_board, h1, h2, h3]
  rfl

theorem vue_dirCommande : (s.dirCommande value c).vue = s.vue := by
  have hspeed : (s.dirCommande value c).board.m1Speed = s.board.m1Speed := by
    unfold Sketch.dirCommande Direction.commande
    exact Board.analogWrite_m1Speed ..
  unfold Sketch.vue
  rw [dirCommande_pin s c value (by decide), dirCommande_pin s c value (by decide), hspeed]
  rfl

theorem vue_varCommande : (s.varCommande value).vue = s.vue.accelere := by
  unfold Sketch.vue Vue.accelere Sketch.varCommande Variateur.commande
  dsimp only
  rw [Board.analogWrite_pin_of_ne _ _ (by decide), Board.analogWrite_pin_of_ne _ _ (by decide),
    Board.analogWrite_m1Speed]
  cases hi : s.var.isInit with
  | true => simp [hi]
  | false =>
    obtain ⟨h1, h2, h3⟩ := initvar_pins s.board
    simp only [Bool.false_eq_true, if_false, h1, h2, h3]
    rfl

theorem vue_varLock : s.varLock.vue = s.vue.verrouille := by
  unfold Sketch.vue Vue.verrouille Sketch.varLock Variateur.lock
  dsimp only
  rw [Board.digitalWrite_pin_of_ne _ _ (by decide), Board.digitalWrite_pin_of_ne _ _ (by decide)]
  congr 1

/-- The transition of a statement. -/
def Stmt.surVue (c : Sensors) (s : Sketch) : Stmt → Vue → Vue
  | .frCommande v => Vue.freine (s.fr.vitesse v c.pression)
  | .varCommande _ => Vue.accelere
  | .varLock => Vue.verrouille
  | _ => id

/-- **Every statement is a transition of the shared pins.** -/
theorem vue_exec (i : Stmt) : (i.exec c s).vue = i.surVue c s s.vue := by
  cases i with
  | dirCommande v => exact vue_dirCommande s c v
  | frCommande v => exact vue_frCommande s c v
  | varCommande v => exact vue_varCommande s v
  | varLock => exact vue_varLock s
  | commandeDirection v => rfl
  | commandeFrein v => rfl
  | commandeVariateur v => rfl
  | videInputString => rfl

/-- **An interrupt brakes, then gives the throttle its order.** -/
theorem vue_isr : (s.isr c).vue = (s.vue.freine (s.fr.vitesse s.commandeFrein c.pression)).accelere := by
  unfold Sketch.isr
  rw [vue_varCommande, vue_dirCommande, vue_frCommande]

/-- What a statement does to the throttle's mark. -/
theorem exec_isInit (i : Stmt) : (i.exec c s).vue.isInit =
    match i with
    | .varCommande _ => true
    | .varLock => false
    | _ => s.vue.isInit := by
  rw [vue_exec]
  cases i with
  | varCommande v => exact Vue.accelere_isInit _
  | _ => rfl

theorem isr_isInit : (s.isr c).vue.isInit = true := by rw [vue_isr, Vue.accelere_isInit]

/-- Out of fault, an interrupt only brakes. -/
theorem vue_isr_of_init (h : s.vue.isInit = true) :
    (s.isr c).vue = s.vue.freine (s.fr.vitesse s.commandeFrein c.pression) := by
  rw [vue_isr, Vue.accelere_of_init (by rwa [Vue.freine_isInit])]

/-- In fault, it ends with a new initialisation. -/
theorem vue_isr_of_fault (h : s.vue.isInit = false) :
    (s.isr c).vue.enable = .LOW ∧ (s.isr c).vue.sens = .LOW := by
  rw [vue_isr, Vue.accelere_of_fault (by rwa [Vue.freine_isInit])]
  exact ⟨rfl, rfl⟩

/-- A byte moves no pin. -/
theorem octet_vue (m : Machine) (b : UInt8) : (m.octet b).sketch.vue = m.sketch.vue := by
  unfold Machine.octet
  split <;> rfl

/-! ## The fault -/

/-- `var.lock()` is only ever the first statement of a message, before `arret()`. -/
theorem varLock_head {l : List Stmt} {t : List Int8} (h : (.varLock :: l) <:+ parseMessage t) :
    ¬ Connu t ∧ .varLock :: l = parseMessage t ∧ .varCommande 0 ∈ l := by
  have ht : ¬ Connu t := varLock_mem_iff.1 (h.subset List.mem_cons_self)
  rw [parseMessage_inconnu ht] at h ⊢
  rcases List.suffix_cons_iff.1 h with he | hs
  · refine ⟨ht, he, ?_⟩
    rw [(List.cons.inj he).2]
    decide
  · exact absurd (hs.subset List.mem_cons_self) (by decide)

/-- At the end of `setup` the brake can be driven and the throttle is initialised. -/
theorem vue_setup (mcu : Mcu) : (machine mcu).init.sketch.vue = ⟨.HIGH, .LOW, 0, true⟩ := by
  cases mcu <;> rfl

/-- **The fault does not outlive `arret()`**: while the throttle is in fault, the call that
takes it out of fault is still to come. -/
theorem fault_transient (hm : (machine mcu).Reach m) (h : m.sketch.vue.isInit = false) :
    .varCommande 0 ∈ m.reste := by
  revert h
  refine hm.inv (I := fun m => m.sketch.vue.isInit = false → .varCommande 0 ∈ m.reste) (fun h => ?_)
    (fun t e t' hreach ht hstep => ?_)
  · rw [vue_setup] at h
    cases h
  rcases step_cases hstep with ⟨b, -, hr, rfl⟩ | ⟨c, i, l, -, hr, rfl⟩ | ⟨c, -, rfl⟩
  · -- no byte is read in fault
    intro hf
    rw [octet_vue] at hf
    have hmem := ht hf
    rw [hr] at hmem
    exact absurd hmem List.not_mem_nil
  · rw [exec_isInit]
    intro hf
    rw [hr, List.mem_cons] at ht
    cases i with
    | varLock =>
      -- `arret()` follows, and its order with it
      exact (varLock_head ((reach_ok hreach).suffix hr)).2.2
    | varCommande v => cases hf
    | _ =>
      rcases ht hf with he | hl
      · cases he
      · exact hl
  · intro hf
    rw [isr_isInit] at hf
    cases hf

/-- The state in which the message `X` has just been received. -/
def recuX : Machine := ((machine .atmega328P).init.octet 88).octet 10

theorem reach_recuX : (machine .atmega328P).Reach recuX := ⟨[.octet 88, .octet 10], rfl⟩

/-- Between messages the throttle is never in fault. -/
theorem isInit_of_idle (hm : (machine mcu).Reach m) (hr : m.reste = []) : m.sketch.vue.isInit = true := by
  cases h : m.sketch.vue.isInit with
  | true => rfl
  | false =>
    have := fault_transient hm h
    rw [hr] at this
    exact absurd this List.not_mem_nil

/-- The states between messages, and those right after an interrupt. -/
def Observe (mcu : Mcu) (m : Machine) : Prop :=
  m.reste = [] ∨ ∃ m₀ c, (machine mcu).Reach m₀ ∧ (machine mcu).step m₀ (.tick c) = some m

theorem Observe.isInit (h : Observe mcu m) (hm : (machine mcu).Reach m) : m.sketch.vue.isInit = true := by
  rcases h with hr | ⟨m₀, c, -, hstep⟩
  · exact isInit_of_idle hm hr
  · rcases step_cases hstep with ⟨b, hb, -⟩ | ⟨c, i, l, hc, -⟩ | ⟨c, -, rfl⟩
    · cases hb
    · cases hc
    · exact isr_isInit _ c

end ICar
