import ICar.Lib.Framing
import ICar.Spec.Machine

/-!
# The messages handed to `parseMessage`

`recus_eq`: whatever interrupts fall and whatever the statements do, the messages handed
over and the text kept are those of a receiver that cuts the bytes read after each newline
(`Framing.scan`). So the decoding of the serial line is a matter of the bytes alone.

The invariant behind it (`Ok`): the statements that remain are the end of those of the last
message handed over, the last of which empties the text; and a text that waits for its end
has no newline.
-/

namespace ICar

open Framing

variable {mcu : Mcu} {m m' : Machine} {es : List Ev}

/-! ## The text -/

@[simp] theorem dirCommande_inputString (v : Int16) (c : Sensors) (s : Sketch) :
    (s.dirCommande v c).inputString = s.inputString := by unfold Sketch.dirCommande; rfl

@[simp] theorem frCommande_inputString (v : Int16) (c : Sensors) (s : Sketch) :
    (s.frCommande v c).inputString = s.inputString := by unfold Sketch.frCommande; rfl

@[simp] theorem varCommande_inputString (v : Int16) (s : Sketch) :
    (s.varCommande v).inputString = s.inputString := by unfold Sketch.varCommande; rfl

@[simp] theorem varLock_inputString (s : Sketch) : s.varLock.inputString = s.inputString := by
  unfold Sketch.varLock; rfl

@[simp] theorem isr_inputString (c : Sensors) (s : Sketch) : (s.isr c).inputString = s.inputString := by
  simp [Sketch.isr]

/-- Only one statement writes the text. -/
theorem exec_inputString (c : Sensors) (i : Stmt) (s : Sketch) :
    (i.exec c s).inputString = if i = .videInputString then [] else s.inputString := by
  cases i <;> simp [Stmt.exec]

theorem vide_not_mem_branche (t : List Int8) : .videInputString ∉ branche t := by
  unfold branche arret
  dsimp only
  repeat' split
  all_goals simp

/-- Of the statements of a message, the one that empties the text is the last. -/
theorem vide_iff {i : Stmt} {l : List Stmt} {t : List Int8} (h : (i :: l) <:+ parseMessage t) :
    i = .videInputString ↔ l = [] := by
  obtain ⟨pre, hpre⟩ := h
  unfold parseMessage at hpre
  constructor
  · rintro rfl
    rcases List.eq_nil_or_concat' l with hl | ⟨l', b, hl⟩
    · exact hl
    · rw [hl, ← List.cons_append, ← List.append_assoc] at hpre
      have hmem := (List.append_inj' hpre rfl).1
      exact absurd (hmem ▸ by simp) (vide_not_mem_branche t)
  · rintro rfl
    have := (List.append_inj' hpre rfl).2
    simpa using this

/-! ## The invariant -/

structure Ok (m : Machine) : Prop where
  reste : m.reste <:+ parseMessage m.sketch.inputString
  ligne : m.reste = [] → car '\n' ∉ m.sketch.inputString
  dernier : m.reste ≠ [] → ∃ j, m.journal = j ++ [m.sketch.inputString]

theorem Ok.suffix {i : Stmt} {l : List Stmt} (hm : Ok m) (hr : m.reste = i :: l) :
    (i :: l) <:+ parseMessage m.sketch.inputString := hr ▸ hm.reste

theorem ok_init : Ok (machine mcu).init :=
  ⟨List.nil_suffix, fun _ => by simp [machine, Sketch.setup, Sketch.powerOn], fun h => absurd rfl h⟩

theorem ok_step {e : Ev} (hm : Ok m) (h : (machine mcu).step m e = some m') : Ok m' := by
  rcases step_cases h with ⟨b, rfl, hr, rfl⟩ | ⟨c, i, l, rfl, hr, rfl⟩ | ⟨c, rfl, rfl⟩
  · unfold Machine.octet
    by_cases hb : b.toInt8 = car '\n'
    · rw [if_pos hb]
      exact ⟨List.suffix_rfl, fun h => by simp [parseMessage] at h, fun _ => ⟨m.journal, rfl⟩⟩
    · rw [if_neg hb]
      refine ⟨by rw [hr]; exact List.nil_suffix, fun _ => ?_, fun h => absurd hr h⟩
      have := hm.ligne hr
      simp only [List.mem_append, List.mem_singleton, not_or]
      exact ⟨this, Ne.symm hb⟩
  · have hs := hm.suffix hr
    have hi := vide_iff hs
    by_cases hv : i = .videInputString
    · -- the last statement: nothing remains, and the text is empty
      have hl := hi.1 hv
      subst hl
      refine ⟨List.nil_suffix, fun _ => ?_, fun h => absurd rfl h⟩
      simp [exec_inputString, hv]
    · have ht : (i.exec c m.sketch).inputString = m.sketch.inputString := by
        simp only [exec_inputString, hv, if_false]
      refine ⟨?_, fun hl => absurd (hi.2 hl) hv, fun _ => ?_⟩
      · rw [ht]
        exact (List.suffix_cons i l).trans hs
      · rw [ht]
        exact hm.dernier (by rw [hr]; exact List.cons_ne_nil _ _)
  · refine ⟨?_, ?_, ?_⟩ <;> rw [isr_inputString]
    · exact hm.reste
    · exact hm.ligne
    · exact hm.dernier

theorem reach_ok (h : (machine mcu).Reach m) : Ok m := h.inv ok_init fun _ _ _ _ => ok_step

/-- The statement to be executed is one of the message's. -/
theorem mem_parseMessage {i : Stmt} {l : List Stmt} (hm : (machine mcu).Reach m) (hr : m.reste = i :: l) :
    i ∈ parseMessage m.sketch.inputString :=
  ((reach_ok hm).suffix hr).subset List.mem_cons_self

/-! ## The receiver -/

/-- The text that waits for its newline; a text under execution is already handed over. -/
def Machine.tampon (m : Machine) : List Int8 := if m.reste = [] then m.sketch.inputString else []

/-- The messages handed over and the text kept. -/
def Machine.recus (m : Machine) : List (List Int8) × List Int8 := (m.journal, m.tampon)

/-- The receiver's view of an event. -/
def recoit (q : List (List Int8) × List Int8) : Ev → List (List Int8) × List Int8
  | .octet b => feed (car '\n') q b.toInt8
  | _ => q

theorem recus_step {e : Ev} (hm : Ok m) (h : (machine mcu).step m e = some m') :
    m'.recus = recoit m.recus e := by
  rcases step_cases h with ⟨b, rfl, hr, rfl⟩ | ⟨c, i, l, rfl, hr, rfl⟩ | ⟨c, rfl, rfl⟩
  · unfold Machine.octet recoit feed Machine.recus Machine.tampon
    by_cases hb : b.toInt8 = car '\n'
    · simp [hb, hr, parseMessage]
    · simp [hb, hr]
  · unfold recoit Machine.recus Machine.tampon
    rw [hr]
    by_cases hl : l = []
    · have hv := (vide_iff (hm.suffix hr)).2 hl
      simp [hl, hv, exec_inputString]
    · simp [hl]
  · unfold recoit Machine.recus Machine.tampon
    simp

theorem foldl_recoit (q : List (List Int8) × List Int8) (es : List Ev) :
    es.foldl recoit q = scan (car '\n') q ((octets es).map UInt8.toInt8) := by
  induction es generalizing q with
  | nil => rfl
  | cons e es ih =>
    cases e <;> exact ih _

/-- **The messages are those of the bytes.** -/
theorem recus_eq (hm : Ok m) (h : (machine mcu).run m es = some m') :
    m'.recus = scan (car '\n') m.recus ((octets es).map UInt8.toInt8) := by
  rw [← foldl_recoit]
  exact Sys.run_foldl (fun _ _ _ => ok_step) (fun _ _ _ => recus_step) hm h

/-- From an empty text: the messages handed over since. -/
theorem journal_eq (hm : Ok m) (h0 : m.tampon = []) (h : (machine mcu).run m es = some m') :
    m'.journal = (scan (car '\n') (m.journal, []) ((octets es).map UInt8.toInt8)).1 := by
  have := recus_eq hm h
  unfold Machine.recus at this
  rw [h0] at this
  exact congrArg Prod.fst this

/-- A step hands over one message, or none. -/
theorem journal_step {e : Ev} (h : (machine mcu).step m e = some m') :
    m'.journal = m.journal ∨ ∃ t, m'.journal = m.journal ++ [t] := by
  rcases step_cases h with ⟨b, rfl, -, rfl⟩ | ⟨c, i, l, rfl, -, rfl⟩ | ⟨c, rfl, rfl⟩
  · unfold Machine.octet
    split
    · exact .inr ⟨_, rfl⟩
    · exact .inl rfl
  · exact .inl rfl
  · exact .inl rfl

theorem journal_prefix (h : (machine mcu).run m es = some m') : m.journal <+: m'.journal := by
  refine Sys.run_inv (I := fun u => m.journal <+: u.journal) (fun e _ u u' hu hstep => ?_) List.prefix_rfl h
  rcases journal_step hstep with hj | ⟨t, hj⟩ <;> rw [hj]
  · exact hu
  · exact hu.trans (List.prefix_append _ _)

/-- A byte is read at a definite point of the run, the program then being idle. -/
theorem run_last_octet {xs : List UInt8} {b : UInt8} : ∀ {es : List Ev} {m : Machine},
    (machine mcu).run m es = some m' → octets es = xs ++ [b] →
    ∃ es₁ es₂ m₁, es = es₁ ++ .octet b :: es₂ ∧ octets es₁ = xs ∧ Silent es₂ ∧
      (machine mcu).run m es₁ = some m₁ ∧ m₁.reste = [] ∧
      (machine mcu).run (m₁.octet b) es₂ = some m' := by
  intro es
  induction es using List.reverseRecOn generalizing m' with
  | nil => intro m _ ho; simp at ho
  | append_singleton es e ih =>
    intro m h ho
    obtain ⟨u, hu, hlast⟩ := Sys.run_append_some.1 h
    have hstep : (machine mcu).step u e = some m' := by simpa using hlast
    cases e with
    | octet b' =>
      rw [octets_append] at ho
      obtain ⟨h1, h2⟩ := List.append_inj' ho rfl
      simp only [octets_cons_octet, octets_nil, List.cons.injEq, and_true] at h2
      subst h2
      rcases step_cases hstep with ⟨b, hb, hr, rfl⟩ | ⟨c, i, l, hc, -⟩ | ⟨c, hc, -⟩
      · cases hb
        exact ⟨es, [], u, rfl, h1, rfl, hu, hr, rfl⟩
      · cases hc
      · cases hc
    | stmt c =>
      rw [octets_append, octets_cons_stmt, octets_nil, List.append_nil] at ho
      obtain ⟨es₁, es₂, m₁, rfl, h1, h2, h3, h4, h5⟩ := ih hu ho
      refine ⟨es₁, es₂ ++ [.stmt c], m₁, by simp, h1, ?_, h3, h4, Sys.run_append_some.2 ⟨u, h5, hlast⟩⟩
      unfold Silent at h2 ⊢; simp [h2]
    | tick c =>
      rw [octets_append, octets_cons_tick, octets_nil, List.append_nil] at ho
      obtain ⟨es₁, es₂, m₁, rfl, h1, h2, h3, h4, h5⟩ := ih hu ho
      refine ⟨es₁, es₂ ++ [.tick c], m₁, by simp, h1, ?_, h3, h4, Sys.run_append_some.2 ⟨u, h5, hlast⟩⟩
      unfold Silent at h2 ⊢; simp [h2]

end ICar
