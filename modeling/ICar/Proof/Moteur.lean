import ICar.Proof.Broches

/-!
# The brake motor's pins

The brake can be driven while the shield is enabled and its direction pin is that of the
last speed. `conduisible_iff`: this holds, in every run, exactly as long as no message with
an unknown header has been executed. The first one leaves the enable pin low, since the
throttle's new initialisation pulses the same pin as its own `mass_pin`, and nothing raises
it again.
-/

namespace ICar

variable {mcu : Mcu} {m m' : Machine}

/-- The shield's enable pin is high, and its direction pin is high exactly when the last
speed is negative. -/
def Conduisible (s : Sketch) : Prop :=
  s.board.pin Frein.md.nD2 = .HIGH ∧ (s.board.pin Frein.md.M1DIR = .HIGH ↔ s.board.m1Speed < 0)

theorem conduisible_vue (s : Sketch) : Conduisible s ↔ s.vue.Conduisible := Iff.rfl

/-- The messages of which a statement has been executed: all those handed over, except one
whose first statement is still to come. -/
def Machine.executes (m : Machine) : List (List Int8) :=
  if m.reste = parseMessage m.sketch.inputString then m.journal.dropLast else m.journal

theorem executes_of_idle (hr : m.reste = []) : m.executes = m.journal := by
  unfold Machine.executes
  rw [hr, if_neg]
  unfold parseMessage
  simp

/-! ## The invariant -/

/-- Before the first unknown message the brake can be driven and the throttle is out of
fault; from then on the shield is disabled or about to be. -/
def Separe (m : Machine) : Prop :=
  ((∀ t ∈ m.executes, Connu t) → m.sketch.vue.Conduisible ∧ m.sketch.vue.isInit = true) ∧
  ((∃ t ∈ m.executes, ¬ Connu t) → m.sketch.vue.enable = .LOW ∨ m.sketch.vue.isInit = false)

/-- A byte executes nothing. -/
theorem executes_octet (b : UInt8) (hr : m.reste = []) : (m.octet b).executes = m.executes := by
  rw [executes_of_idle hr]
  unfold Machine.octet
  by_cases hb : b.toInt8 = car '\n'
  · rw [if_pos hb]
    unfold Machine.executes
    rw [if_pos rfl]
    exact List.dropLast_concat
  · rw [if_neg hb]
    exact executes_of_idle hr

/-- A statement is the first of its message, or it leaves the list unchanged. -/
theorem executes_stmt (c : Sensors) {i : Stmt} {l : List Stmt} (hm : Ok m) (hr : m.reste = i :: l) :
    (i :: l = parseMessage m.sketch.inputString ∧
      (⟨i.exec c m.sketch, l, m.journal⟩ : Machine).executes = m.executes ++ [m.sketch.inputString]) ∨
    (i :: l ≠ parseMessage m.sketch.inputString ∧
      (⟨i.exec c m.sketch, l, m.journal⟩ : Machine).executes = m.executes) := by
  have hs := hm.suffix hr
  -- after a statement, its message is under way
  have hlater : (⟨i.exec c m.sketch, l, m.journal⟩ : Machine).executes = m.journal := by
    by_cases hv : i = .videInputString
    · exact executes_of_idle ((vide_iff hs).1 hv)
    · unfold Machine.executes
      rw [exec_inputString, if_neg hv, if_neg]
      intro he
      have hlen := hs.length_le
      have hl : l.length = (parseMessage m.sketch.inputString).length := congrArg List.length he
      rw [← hl, List.length_cons] at hlen
      omega
  obtain ⟨j, hj⟩ := hm.dernier (by rw [hr]; exact List.cons_ne_nil _ _)
  rw [hlater]
  unfold Machine.executes
  rw [hr]
  by_cases he : i :: l = parseMessage m.sketch.inputString
  · left
    rw [if_pos he, hj, List.dropLast_concat]
    exact ⟨he, rfl⟩
  · right
    rw [if_neg he]
    exact ⟨he, rfl⟩

/-- While the shield is disabled, or about to be, it stays so. -/
theorem eteint_exec (c : Sensors) (i : Stmt) (s : Sketch) (h : s.vue.enable = .LOW ∨ s.vue.isInit = false) :
    (i.exec c s).vue.enable = .LOW ∨ (i.exec c s).vue.isInit = false := by
  rw [vue_exec]
  cases i with
  | varCommande v =>
    left
    rcases h with h | h
    · exact Vue.accelere_enable_low h
    · show s.vue.accelere.enable = .LOW
      rw [Vue.accelere_of_fault h]
  | varLock => exact .inr rfl
  | _ => exact h

/-- Only `var.lock()` ends what holds before the first unknown message. -/
theorem conduisible_exec (c : Sensors) {i : Stmt} (s : Sketch) (hi : i ≠ .varLock)
    (h : s.vue.Conduisible ∧ s.vue.isInit = true) :
    (i.exec c s).vue.Conduisible ∧ (i.exec c s).vue.isInit = true := by
  rw [vue_exec]
  cases i with
  | frCommande v => exact ⟨h.1.freine _, h.2⟩
  | varCommande v =>
    show s.vue.accelere.Conduisible ∧ s.vue.accelere.isInit = true
    rw [Vue.accelere_of_init h.2]
    exact h
  | varLock => exact absurd rfl hi
  | _ => exact h

theorem separe_step {e : Ev} (hok : Ok m) (hm : Separe m) (h : (machine mcu).step m e = some m') :
    Separe m' := by
  obtain ⟨hall, hex⟩ := hm
  rcases step_cases h with ⟨b, -, hr, rfl⟩ | ⟨c, i, l, -, hr, rfl⟩ | ⟨c, -, rfl⟩
  · unfold Separe
    rw [executes_octet b hr, octet_vue]
    exact ⟨hall, hex⟩
  · have hs := hok.suffix hr
    unfold Separe
    rcases executes_stmt c hok hr with ⟨hfirst, hexe⟩ | ⟨hlater, hexe⟩
    · -- the first statement of a message: a lock exactly when its header is unknown
      rw [hexe]
      refine ⟨fun hk => ?_, fun ⟨t, ht, hu⟩ => ?_⟩
      · have hmsg := hk _ (List.mem_append_right _ (List.mem_singleton.2 rfl))
        apply conduisible_exec c _ _ (hall fun t ht => hk t (List.mem_append_left _ ht))
        rintro rfl
        exact (varLock_head hs).1 hmsg
      · rcases List.mem_append.1 ht with ht | ht
        · exact eteint_exec c i _ (hex ⟨t, ht, hu⟩)
        · rw [List.mem_singleton] at ht
          subst ht
          rw [parseMessage_inconnu hu] at hfirst
          rw [(List.cons.inj hfirst).1]
          exact .inr rfl
    · rw [hexe]
      refine ⟨fun hk => conduisible_exec c _ ?_ (hall hk), fun hu => eteint_exec c i _ (hex hu)⟩
      rintro rfl
      exact hlater (varLock_head hs).2.1
  · -- the interrupt brakes and gives the throttle its order
    have hexe : (⟨m.sketch.isr c, m.reste, m.journal⟩ : Machine).executes = m.executes := by
      unfold Machine.executes
      rw [isr_inputString]
    unfold Separe
    rw [hexe]
    refine ⟨fun hk => ⟨?_, isr_isInit _ c⟩, fun hu => .inl ?_⟩
    · obtain ⟨hcond, hi⟩ := hall hk
      rw [vue_isr_of_init _ c hi]
      exact hcond.freine _
    · rcases hex hu with hlow | hfault
      · rw [vue_isr]
        exact Vue.accelere_enable_low hlow
      · exact (vue_isr_of_fault _ c hfault).1

theorem reach_separe (hm : (machine mcu).Reach m) : Separe m := by
  refine hm.inv ⟨?_, ?_⟩ (fun t e t' hreach ht hstep => separe_step (reach_ok hreach) ht hstep)
  · intro _
    rw [vue_setup]
    refine ⟨⟨rfl, ?_⟩, rfl⟩
    decide
  · rintro ⟨t, ht, -⟩
    exact absurd ht List.not_mem_nil

/-- **When the brake motor stays drivable.** At the end of `setup`, after every message and
after every interrupt of any run: exactly when no message with an unknown header has been
executed so far. -/
theorem conduisible_iff (hm : (machine mcu).Reach m) (h : Observe mcu m) :
    Conduisible m.sketch ↔ ∀ t ∈ m.executes, Connu t := by
  obtain ⟨hall, hex⟩ := reach_separe hm
  rw [conduisible_vue]
  constructor
  · intro hc
    by_contra hno
    push Not at hno
    rcases hex hno with hlow | hfault
    · exact hc.not_low hlow
    · rw [h.isInit hm] at hfault
      cases hfault
  · exact fun hk => (hall hk).1

/-- After `setup` the brake can be driven. -/
theorem conduisible_setup : Conduisible (machine .atmega328P).init.sketch :=
  (conduisible_iff Sys.Reach.init (.inl rfl)).2 (by decide)

/-- Once the message `X` has been executed, the shield is disabled and the car is idle. -/
theorem not_conduisible_X : ∃ m, (machine .atmega328P).Reach m ∧ m.reste = [] ∧ ¬ Conduisible m.sketch := by
  refine ⟨_, reach_recuX.run (run_stmts ⟨0, 0⟩ recuX.reste recuX.sketch recuX.journal), rfl, ?_⟩
  rintro ⟨hen, -⟩
  revert hen
  decide +kernel

end ICar
