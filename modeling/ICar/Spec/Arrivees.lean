import ICar.Spec.Machine

/-!
# The sketch between two calls of `serialEvent`

Bytes arrive in packets, one call of `serialEvent` each, and the Timer1 interrupt falls
between two calls: every message is executed without interruption. `suivi` is the sketch
after a list of such arrivals, with the messages handed to `parseMessage` as a history.

`arrive_run`: each arrival is a run of the machine of `Spec/Machine.lean`, so what holds of
its reachable states holds here.
-/

namespace ICar

/-- A call of `serialEvent` on the bytes available, or an interrupt. -/
inductive Arrivee
  | serialEvent (recus : List (UInt8 × Sensors))
  | tick (c : Sensors)

/-- The sketch, and the messages handed to `parseMessage` so far. -/
structure Suivi where
  sketch : Sketch
  journal : List (List Int8)

namespace Suivi

/-- One byte read by `serialEvent`. -/
def lire (q : Suivi) (r : UInt8 × Sensors) : Suivi where
  sketch := q.sketch.lireOctet r
  journal := if r.1.toInt8 = car '\n' then q.journal ++ [q.sketch.inputString ++ [r.1.toInt8]] else q.journal

def arrive (q : Suivi) : Arrivee → Suivi
  | .serialEvent recus => recus.foldl lire q
  | .tick c => { q with sketch := q.sketch.isr c }

/-- The state of the machine, nothing being under execution. -/
def repos (q : Suivi) : Machine := ⟨q.sketch, [], q.journal⟩

end Suivi

/-- From the end of `setup` on. -/
def suivi (mcu : Mcu) (as : List Arrivee) : Suivi := as.foldl Suivi.arrive ⟨Sketch.setup mcu, []⟩

def Arrivee.octets : Arrivee → List UInt8
  | .serialEvent recus => recus.map Prod.fst
  | .tick _ => []

/-- The stream of characters received. -/
def flux (as : List Arrivee) : List Int8 := (as.flatMap Arrivee.octets).map UInt8.toInt8

/-- The sketch of a packet is the one `serialEvent` computes. -/
theorem sketch_serialEvent (q : Suivi) (recus : List (UInt8 × Sensors)) :
    (q.arrive (.serialEvent recus)).sketch = q.sketch.serialEvent recus := by
  show (recus.foldl Suivi.lire q).sketch = _
  induction recus generalizing q with
  | nil => rfl
  | cons r recus ih => exact ih (q.lire r)

/-- A byte hands over one message, or none. -/
theorem lire_journal (q : Suivi) (r : UInt8 × Sensors) :
    (q.lire r).journal = q.journal ∨ ∃ t, (q.lire r).journal = q.journal ++ [t] := by
  unfold Suivi.lire
  dsimp only
  split
  · exact .inr ⟨_, rfl⟩
  · exact .inl rfl

/-! ## The machine -/

theorem lire_run (mcu : Mcu) (r : UInt8 × Sensors) (q : Suivi) :
    ∃ es, (machine mcu).run q.repos es = some (q.lire r).repos ∧ octets es = [r.1] := by
  by_cases hr : r.1.toInt8 = car '\n'
  · -- the byte ends a message: its statements follow
    set s : Sketch := { q.sketch with inputString := q.sketch.inputString ++ [r.1.toInt8] }
    have hl : q.lire r = ⟨s.parseMessage r.2, q.journal ++ [s.inputString]⟩ := by
      simp only [Suivi.lire, Sketch.lireOctet, hr, if_true, s]
    have ho : q.repos.octet r.1 = ⟨s, parseMessage s.inputString, q.journal ++ [s.inputString]⟩ := by
      simp only [Suivi.repos, Machine.octet, hr, if_true, s]
    refine ⟨.octet r.1 :: List.replicate (parseMessage s.inputString).length (.stmt r.2), ?_, ?_⟩
    · refine Sys.run_cons_some.2 ⟨_, rfl, ?_⟩
      rw [ho, hl]
      exact run_stmts r.2 _ s _
    · rw [octets_cons_octet, octets_replicate_stmt]
  · refine ⟨[.octet r.1], Sys.run_cons_some.2 ⟨_, rfl, ?_⟩, rfl⟩
    simp only [Suivi.repos, Suivi.lire, Sketch.lireOctet, Machine.octet, hr, if_false, Sys.run_nil]

theorem recus_run (mcu : Mcu) (recus : List (UInt8 × Sensors)) (q : Suivi) :
    ∃ es, (machine mcu).run q.repos es = some (q.arrive (.serialEvent recus)).repos ∧
      octets es = recus.map Prod.fst := by
  induction recus generalizing q with
  | nil => exact ⟨[], rfl, rfl⟩
  | cons r recus ih =>
    obtain ⟨es₁, hes₁, ho₁⟩ := lire_run mcu r q
    obtain ⟨es₂, hes₂, ho₂⟩ := ih (q.lire r)
    exact ⟨es₁ ++ es₂, Sys.run_append_some.2 ⟨_, hes₁, hes₂⟩, by rw [octets_append, ho₁, ho₂]; rfl⟩

/-- **An arrival is a run of the machine**, on the same bytes. -/
theorem arrive_run (mcu : Mcu) (a : Arrivee) (q : Suivi) :
    ∃ es, (machine mcu).run q.repos es = some (q.arrive a).repos ∧ octets es = a.octets := by
  cases a with
  | serialEvent recus => exact recus_run mcu recus q
  | tick c => exact ⟨[.tick c], rfl, rfl⟩

theorem suivi_run (mcu : Mcu) (as : List Arrivee) :
    ∃ es, (machine mcu).run (machine mcu).init es = some (suivi mcu as).repos ∧
      (octets es).map UInt8.toInt8 = flux as := by
  have key : ∀ q : Suivi, ∃ es, (machine mcu).run q.repos es = some (as.foldl Suivi.arrive q).repos ∧
      octets es = as.flatMap Arrivee.octets := by
    induction as with
    | nil => exact fun q => ⟨[], rfl, rfl⟩
    | cons a as ih =>
      intro q
      obtain ⟨es₁, hes₁, ho₁⟩ := arrive_run mcu a q
      obtain ⟨es₂, hes₂, ho₂⟩ := ih (q.arrive a)
      refine ⟨es₁ ++ es₂, Sys.run_append_some.2 ⟨_, hes₁, hes₂⟩, ?_⟩
      rw [octets_append, ho₁, ho₂, List.flatMap_cons]
  obtain ⟨es, hes, ho⟩ := key ⟨Sketch.setup mcu, []⟩
  exact ⟨es, hes, by rw [ho]; rfl⟩

/-- Between arrivals the machine is reachable. -/
theorem suivi_reach (mcu : Mcu) (as : List Arrivee) : (machine mcu).Reach (suivi mcu as).repos := by
  obtain ⟨es, hes, -⟩ := suivi_run mcu as
  exact ⟨es, hes⟩

theorem suivi_concat (mcu : Mcu) (as : List Arrivee) (a : Arrivee) :
    suivi mcu (as ++ [a]) = (suivi mcu as).arrive a := by
  unfold suivi
  rw [List.foldl_append]
  rfl

end ICar
