import ICar.Lib.Run
import ICar.Spec.Programme

/-!
# The sketch with its interrupt

The main program reads the serial port byte by byte (`serialEvent`), and a byte that
ends a message makes it execute the message's statements. The Timer1 interrupt can
fall between any two statements. `Machine.reste` holds the statements of
`parseMessage` still to be executed; no byte is read before it is empty.

`Machine.journal` is a history: the messages handed to `parseMessage` so far, oldest
first.
-/

namespace ICar

structure Machine where
  sketch : Sketch
  reste : List Stmt := []
  journal : List (List Int8) := []

/-- What can happen next: `serialEvent` reads a byte, `parseMessage` executes its next
statement, the timer interrupt runs. -/
inductive Ev
  | octet (b : UInt8)
  | stmt (c : Sensors)
  | tick (c : Sensors)

namespace Machine

/-- `serialEvent` appends the byte; a newline hands the message over. -/
def octet (m : Machine) (b : UInt8) : Machine :=
  let s := { m.sketch with inputString := m.sketch.inputString ++ [b.toInt8] }
  if b.toInt8 = car '\n' then ⟨s, parseMessage s.inputString, m.journal ++ [s.inputString]⟩
  else { m with sketch := s }

def step (m : Machine) : Ev → Option Machine
  -- `parseMessage` is called by `serialEvent`, which reads no byte before it returns
  | .octet b => if m.reste = [] then some (m.octet b) else none
  | .stmt c => match m.reste with
    | [] => none
    | i :: l => some { m with sketch := i.exec c m.sketch, reste := l }
  | .tick c => some { m with sketch := m.sketch.isr c }

end Machine

/-- The sketch from the end of `setup` on. -/
def machine (mcu : Mcu) : Sys Machine Ev where
  init := { sketch := Sketch.setup mcu }
  step := Machine.step

/-- The bytes read in a run. -/
def octets (es : List Ev) : List UInt8 := es.filterMap fun
  | .octet b => some b
  | _ => none

/-- No byte is read: statements and interrupts only. -/
def Silent (es : List Ev) : Prop := octets es = []

variable {mcu : Mcu}

@[simp] theorem octets_nil : octets [] = [] := rfl

@[simp] theorem octets_cons_octet (b : UInt8) (es : List Ev) : octets (.octet b :: es) = b :: octets es := rfl

@[simp] theorem octets_cons_stmt (c : Sensors) (es : List Ev) : octets (.stmt c :: es) = octets es := rfl

@[simp] theorem octets_cons_tick (c : Sensors) (es : List Ev) : octets (.tick c :: es) = octets es := rfl

@[simp] theorem octets_append (es fs : List Ev) : octets (es ++ fs) = octets es ++ octets fs :=
  List.filterMap_append

theorem mem_octets {es : List Ev} {b : UInt8} : b ∈ octets es ↔ .octet b ∈ es := by
  unfold octets
  rw [List.mem_filterMap]
  constructor
  · rintro ⟨e, he, heb⟩
    cases e <;> cases heb
    exact he
  · intro h
    exact ⟨_, h, rfl⟩

theorem Silent.not_octet {es : List Ev} (h : Silent es) {b : UInt8} : .octet b ∉ es := by
  rw [← mem_octets, h]
  exact List.not_mem_nil

theorem silent_append {es fs : List Ev} : Silent (es ++ fs) ↔ Silent es ∧ Silent fs := by
  unfold Silent
  rw [octets_append, List.append_eq_nil_iff]

theorem Silent.ligne {es : List Ev} (h : Silent es) : car '\n' ∉ (octets es).map UInt8.toInt8 := by
  rw [h]
  exact List.not_mem_nil

/-- **What a step can do.** -/
theorem step_cases {m m' : Machine} {e : Ev} (h : (machine mcu).step m e = some m') :
    (∃ b, e = .octet b ∧ m.reste = [] ∧ m' = m.octet b) ∨
    (∃ c i l, e = .stmt c ∧ m.reste = i :: l ∧ m' = { m with sketch := i.exec c m.sketch, reste := l }) ∨
    (∃ c, e = .tick c ∧ m' = { m with sketch := m.sketch.isr c }) := by
  cases e with
  | octet b =>
    simp only [machine, Machine.step] at h
    split at h
    · exact .inl ⟨b, rfl, ‹_›, by simpa using h.symm⟩
    · cases h
  | stmt c =>
    simp only [machine, Machine.step] at h
    split at h
    · cases h
    · exact .inr (.inl ⟨c, _, _, rfl, ‹_›, by simpa using h.symm⟩)
  | tick c => exact .inr (.inr ⟨c, rfl, by simpa [machine, Machine.step] using h.symm⟩)

/-- Executing the statements that remain, without interruption. -/
theorem run_stmts (c : Sensors) : ∀ (l : List Stmt) (s : Sketch) (j : List (List Int8)),
    (machine mcu).run ⟨s, l, j⟩ (List.replicate l.length (.stmt c)) = some ⟨s.execAll c l, [], j⟩ := by
  intro l
  induction l with
  | nil => intro s j; rfl
  | cons i l ih =>
    intro s j
    rw [List.length_cons, List.replicate_succ, Sys.run_cons]
    exact ih _ j

theorem octets_replicate_stmt (n : ℕ) (c : Sensors) : octets (List.replicate n (.stmt c)) = [] := by
  induction n with
  | zero => rfl
  | succ n ih => rw [List.replicate_succ, octets_cons_stmt, ih]

end ICar
