import ICar.Spec.Programme

/-!
# Messages and what they ask for

The abstract side of `parseMessage`: a message is a text ended by its only newline
(`Trame`), its header selects an order (`ordre`), and the statements it makes the program
execute are those of the order (`branche_eq`). `Grammaire` is the syntax that the comment
above `parseMessage` documents; the code itself only looks at the header (`Connu`).
-/

namespace ICar

/-- A message: a body without newline, and the newline that ends it. -/
structure Trame where
  corps : List Int8
  ligne : car '\n' ∉ corps

/-- The text handed to `parseMessage`. -/
def Trame.texte (t : Trame) : List Int8 := t.corps ++ [car '\n']

/-- The branches of the `switch`. -/
inductive Ordre
  | direction (v : Int8)
  | frein (v : Int8)
  | variateur (v : Int8)
  | arret
  | repos
  | defaut
deriving DecidableEq, Repr

def ordre (t : List Int8) : Ordre :=
  let h := charAt t 0
  let v := charAt t 1
  if h = car 'D' then .direction v
  else if h = car 'F' then .frein v
  else if h = car 'V' then .variateur v
  else if h = car 'S' then .arret
  else if h = car 'R' then .repos
  else .defaut

def Ordre.stmts : Ordre → List Stmt
  | direction v => [.dirCommande (echelle v), .commandeDirection (echelle v)]
  | frein v => [.frCommande v.toInt16, .commandeFrein v.toInt16]
  | variateur v => [.varCommande v.toInt16, .commandeVariateur v.toInt16]
  | arret => ICar.arret
  | repos => [.frCommande (-400), .commandeFrein (-400)]
  | defaut => .varLock :: ICar.arret

/-- **A message executes its order.** -/
theorem branche_eq (t : List Int8) : branche t = (ordre t).stmts := by
  unfold branche ordre
  dsimp only
  repeat' split
  all_goals rfl

/-- The header is one of those of the `switch`. -/
def Connu (t : List Int8) : Prop :=
  charAt t 0 = car 'D' ∨ charAt t 0 = car 'F' ∨ charAt t 0 = car 'V' ∨ charAt t 0 = car 'S' ∨
    charAt t 0 = car 'R'

instance (t : List Int8) : Decidable (Connu t) := by unfold Connu; infer_instance

theorem ordre_defaut_iff {t : List Int8} : ordre t = .defaut ↔ ¬ Connu t := by
  unfold ordre Connu
  dsimp only
  repeat' split
  all_goals simp_all

/-- The branch taken, by the header. -/
theorem ordre_cases (t : List Int8) :
    (charAt t 0 = car 'D' ∧ ordre t = .direction (charAt t 1)) ∨
    (charAt t 0 = car 'F' ∧ ordre t = .frein (charAt t 1)) ∨
    (charAt t 0 = car 'V' ∧ ordre t = .variateur (charAt t 1)) ∨
    (charAt t 0 = car 'S' ∧ ordre t = .arret) ∨ (charAt t 0 = car 'R' ∧ ordre t = .repos) ∨
    (¬ Connu t ∧ ordre t = .defaut) := by
  unfold ordre Connu
  dsimp only
  repeat' split
  all_goals simp_all

theorem ordre_variateur {t : List Int8} {v : Int8} (h : ordre t = .variateur v) :
    charAt t 0 = car 'V' ∧ v = charAt t 1 := by
  unfold ordre at h
  dsimp only at h
  repeat' split at h
  all_goals simp_all

theorem parseMessage_inconnu {t : List Int8} (h : ¬ Connu t) :
    parseMessage t = .varLock :: (arret ++ [.videInputString]) := by
  unfold parseMessage
  rw [branche_eq, ordre_defaut_iff.2 h]
  rfl

/-- Only the default branch locks the throttle. -/
theorem varLock_mem_iff {t : List Int8} : .varLock ∈ parseMessage t ↔ ¬ Connu t := by
  unfold parseMessage
  rw [branche_eq, ← ordre_defaut_iff]
  cases ordre t <;> simp [Ordre.stmts, arret]

/-- The documented syntax: `S` or `R` alone, or `D`, `F` or `V` and one value in 0..100. -/
def Grammaire (t : List Int8) : Prop :=
  t = [car 'S', car '\n'] ∨ t = [car 'R', car '\n'] ∨
    ∃ h v, (h = car 'D' ∨ h = car 'F' ∨ h = car 'V') ∧ 0 ≤ v.toInt ∧ v.toInt ≤ 100 ∧
      t = [h, v, car '\n']

theorem connu_of_grammaire {t : List Int8} (h : Grammaire t) : Connu t := by
  unfold Connu
  rcases h with rfl | rfl | ⟨h, v, hh, -, -, rfl⟩
  · exact .inr (.inr (.inr (.inl rfl)))
  · exact .inr (.inr (.inr (.inr rfl)))
  · rcases hh with rfl | rfl | rfl
    · exact .inl rfl
    · exact .inr (.inl rfl)
    · exact .inr (.inr (.inl rfl))

/-- A message that `parseMessage` executes as a stop: the `S` branch, or the default one. -/
def ExecuteArret (t : List Int8) : Prop := ordre t = .arret ∨ ordre t = .defaut

end ICar
