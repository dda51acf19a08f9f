import ICar.Lib.Framing
import ICar.Proof.Lignes
import ICar.Proof.Restes

/-!
# The dialogue with the attitude board

A call of `get_razor_data` sends one request and reads three lines. `EnPhase`: every call
reads exactly the bytes of its answer. `Synchrone`: it also stores the answer's nine numbers.

The reading loops take at most 25 bytes, and a line with three digits and a sign in each of
its numbers has 29.

* `fidele_iff`: a call does what it should exactly when each of its three lines is read well
  (`Juste`), which depends on that line and on what its array held.
* `juste_of_sansReste`, `juste_iff`: when that is so, for a given array and for all of them.
* `dialogue_synchrone`: over any number of calls.
-/

namespace ICar

variable {l : Ligne} {r : List Int8}

/-! ## The answers -/

/-- The board's answer to a request. -/
structure Reponse where
  accel : Ligne
  magn : Ligne
  gyro : Ligne

/-- The nine outputs, a triple a sensor. -/
def Attitude.de (a m g : ℚ × ℚ × ℚ) : Attitude := ⟨a.1, a.2.1, a.2.2, m.1, m.2.1, m.2.2, g.1, g.2.1, g.2.2⟩

namespace Reponse

def texte (R : Reponse) : List Int8 := R.accel.texte ++ (R.magn.texte ++ R.gyro.texte)

def attitude (R : Reponse) : Attitude := .de R.accel.valeurs R.magn.valeurs R.gyro.valeurs

end Reponse

/-- A line without its newline. -/
def Ligne.corps (l : Ligne) : List Int8 :=
  l.entete ++ [car '='] ++ l.x.texte ++ [car ','] ++ l.y.texte ++ [car ','] ++ l.z.texte ++
    if l.cr then [car '\r'] else []

theorem texte_eq_corps (l : Ligne) : l.texte = l.corps ++ [car '\n'] := by
  simp [Ligne.texte, Ligne.corps, Ligne.fin]

theorem newline_not_mem_nombre (n : Nombre) : car '\n' ∉ n.texte := by
  have hd : ∀ d, ¬ car '\n' = chiffreDe d := fun d => Ne.symm (chiffreDe_ne d).2.2.2
  have hd' : ∀ d, ¬ chiffreDe d = car '\n' := fun d => (chiffreDe_ne d).2.2.2
  have hc : ¬ car '\n' = car '-' ∧ ¬ car '\n' = car '.' := by decide
  unfold Nombre.texte Nombre.tete
  cases n.neg <;> simp [hd, hd', hc]

theorem newline_not_mem_corps (l : Ligne) : car '\n' ∉ l.corps := by
  have hc : ¬ car '\n' = car '=' ∧ ¬ car '\n' = car ',' ∧ ¬ car '\n' = car '\r' := by decide
  unfold Ligne.corps
  cases l.cr <;>
    simp [hc, l.ligne, newline_not_mem_nombre l.x, newline_not_mem_nombre l.y, newline_not_mem_nombre l.z]

/-- A line of at most 25 bytes is received whole. -/
theorem recue_ligne (h : l.texte.length ≤ 25) : Recue 25 l.texte := by
  refine .inl ⟨l.corps, texte_eq_corps l, newline_not_mem_corps l, ?_⟩
  rw [texte_eq_corps, List.length_append, List.length_singleton] at h
  exact h

/-! ## What a call reads -/

theorem Recue.cons {n : ℕ} {c : Int8} (hc : c ≠ car '\n') (h : Recue n r) : Recue (n + 1) (c :: r) := by
  rcases h with ⟨l, rfl, hl, hn⟩ | ⟨hr, hn⟩
  · refine .inl ⟨c :: l, rfl, ?_, Nat.succ_lt_succ hn⟩
    rw [List.mem_cons, not_or]
    exact ⟨Ne.symm hc, hl⟩
  · refine .inr ⟨?_, congrArg (· + 1) hn⟩
    rw [List.mem_cons, not_or]
    exact ⟨Ne.symm hc, hr⟩

/-- A reading loop that ends has taken what is received. -/
theorem lireLigne_some {n i : ℕ} {t data : Tampon} {p q : Port} (h : lireLigne n i t p = some (data, q)) :
    ∃ r, Recue n r ∧ p = ⟨r ++ q.entree, q.reponses⟩ ∧ data = t.stocke i r := by
  induction n generalizing i t p with
  | zero =>
    cases h
    exact ⟨[], .inr ⟨List.not_mem_nil, rfl⟩, rfl, rfl⟩
  | succ n ih =>
    obtain ⟨entree, reponses⟩ := p
    cases entree with
    | nil => cases h
    | cons c entree =>
      by_cases hc : c = car '\n'
      · subst hc
        cases h
        exact ⟨[car '\n'], .inl ⟨[], rfl, List.not_mem_nil, Nat.succ_pos n⟩, rfl, rfl⟩
      · have hstep : lireLigne (n + 1) i t ⟨c :: entree, reponses⟩ =
            lireLigne n (i + 1) (t.ecrit i c) ⟨entree, reponses⟩ := by simp [lireLigne, Port.readByte, hc]
        obtain ⟨r, hr, hp, hdata⟩ := ih (hstep ▸ h)
        obtain ⟨rfl, rfl⟩ := Port.mk.inj hp
        exact ⟨c :: r, hr.cons hc, rfl, hdata⟩

/-- The outputs of the bytes `r` over an array. -/
def sortiesDe (t : Tampon) (r : List Int8) : ℚ × ℚ × ℚ := (balaye (t.stocke 0 r).octet 0 25 (.debut 0 0 0)).sorties

/-- **What a call does** with what it receives for the three sensors. -/
theorem getRazorData_recue (t : Tampons) {r₁ r₂ r₃ : List Int8} (h₁ : Recue 25 r₁) (h₂ : Recue 25 r₂)
    (h₃ : Recue 25 r₃) (suite : List Int8) (a : List (List Int8)) :
    getRazorData t ⟨[], (r₁ ++ (r₂ ++ (r₃ ++ suite))) :: a⟩ =
      some (.de (sortiesDe t.accel r₁) (sortiesDe t.magn r₂) (sortiesDe t.gyro r₃), ⟨suite, a⟩) := by
  have hwrite : Port.write ⟨[], (r₁ ++ (r₂ ++ (r₃ ++ suite))) :: a⟩ = ⟨r₁ ++ (r₂ ++ (r₃ ++ suite)), a⟩ := rfl
  unfold getRazorData
  dsimp only
  rw [hwrite, lireLigne_recue h₁]
  dsimp only [Option.bind_eq_bind, Option.bind_some]
  rw [lireLigne_recue h₂]
  dsimp only [Option.bind_some]
  rw [lireLigne_recue h₃]
  dsimp only [Option.bind_some]
  rw [parseRazorAllAxis_eq, parseRazorAllAxis_eq, parseRazorAllAxis_eq]
  rfl

theorem getRazorData_some {t : Tampons} {p q : Port} {a : Attitude} (h : getRazorData t p = some (a, q)) :
    ∃ r₁ r₂ r₃, Recue 25 r₁ ∧ Recue 25 r₂ ∧ Recue 25 r₃ ∧ p.write.entree = r₁ ++ (r₂ ++ (r₃ ++ q.entree)) := by
  unfold getRazorData at h
  simp only [Option.bind_eq_bind, Option.bind_eq_some_iff] at h
  obtain ⟨⟨accel, p₁⟩, h₁, ⟨magn, p₂⟩, h₂, ⟨gyro, p₃⟩, h₃, _, -, _, -, _, -, h⟩ := h
  cases h
  obtain ⟨r₁, hr₁, hp₁, -⟩ := lireLigne_some h₁
  obtain ⟨r₂, hr₂, rfl, -⟩ := lireLigne_some h₂
  obtain ⟨r₃, hr₃, rfl, -⟩ := lireLigne_some h₃
  exact ⟨r₁, r₂, r₃, hr₁, hr₂, hr₃, congrArg Port.entree hp₁⟩

/-- What is received has at most one newline, its last byte. -/
theorem Recue.count {n : ℕ} (h : Recue n r) : r.count (car '\n') = 0 ∨
    r.count (car '\n') = 1 ∧ ∃ l, r = l ++ [car '\n'] ∧ car '\n' ∉ l := by
  rcases h with ⟨l, rfl, hl, -⟩ | ⟨hr, -⟩
  · refine .inr ⟨?_, l, rfl, hl⟩
    rw [List.count_append, List.count_eq_zero.2 hl, List.count_singleton_self]
  · exact .inl (List.count_eq_zero.2 hr)

theorem count_texte (l : Ligne) : l.texte.count (car '\n') = 1 := by
  rw [texte_eq_corps, List.count_append, List.count_eq_zero.2 (newline_not_mem_corps l), List.count_singleton_self]

/-- **An answer that is read in three pieces** is read line by line. -/
theorem recues_texte {R : Reponse} {r₁ r₂ r₃ : List Int8} (h₁ : Recue 25 r₁) (h₂ : Recue 25 r₂) (h₃ : Recue 25 r₃)
    (h : R.texte = r₁ ++ (r₂ ++ r₃)) : R.accel.texte = r₁ ∧ R.magn.texte = r₂ ∧ R.gyro.texte = r₃ := by
  have hcount := congrArg (List.count (car '\n')) h
  unfold Reponse.texte at hcount h
  simp only [List.count_append, count_texte] at hcount
  -- three newlines in all, so each piece ends with one
  have hc₁ := h₁.count
  have hc₂ := h₂.count
  have hc₃ := h₃.count
  obtain ⟨-, l₁, rfl, hl₁⟩ := hc₁.resolve_left (by omega)
  obtain ⟨-, l₂, rfl, hl₂⟩ := hc₂.resolve_left (by omega)
  obtain ⟨-, l₃, rfl, hl₃⟩ := hc₃.resolve_left (by omega)
  have hcorps : ∀ c ∈ [R.accel.corps, R.magn.corps, R.gyro.corps], car '\n' ∉ c := by simp [newline_not_mem_corps]
  have hpieces : ∀ c ∈ [l₁, l₂, l₃], car '\n' ∉ c := by simp [hl₁, hl₂, hl₃]
  have hscan := Framing.scan_frames hcorps []
  have hflat : [R.accel.corps, R.magn.corps, R.gyro.corps].flatMap (· ++ [car '\n']) =
      [l₁, l₂, l₃].flatMap (· ++ [car '\n']) := by
    simpa [texte_eq_corps] using h
  rw [hflat, Framing.scan_frames hpieces] at hscan
  simp only [List.nil_append, List.map_cons, List.map_nil, Prod.mk.injEq, List.cons.injEq, and_true] at hscan
  rw [texte_eq_corps, texte_eq_corps, texte_eq_corps]
  exact ⟨hscan.1.symm, hscan.2.1.symm, hscan.2.2.symm⟩

/-! ## A call -/

namespace Reponse

/-- No line has more than 25 bytes. -/
def Courte (R : Reponse) : Prop :=
  R.accel.texte.length ≤ 25 ∧ R.magn.texte.length ≤ 25 ∧ R.gyro.texte.length ≤ 25

/-- Every line has 24 or 25 bytes. -/
def Pleine (R : Reponse) : Prop := (24 ≤ R.accel.texte.length ∧ R.accel.texte.length ≤ 25) ∧
  (24 ≤ R.magn.texte.length ∧ R.magn.texte.length ≤ 25) ∧ (24 ≤ R.gyro.texte.length ∧ R.gyro.texte.length ≤ 25)

/-- The board's headers have five characters with their `=`, and its lines no carriage return. -/
def DeLaCarte (R : Reponse) : Prop := (R.accel.entete.length = 4 ∧ R.accel.cr = false) ∧
  (R.magn.entete.length = 4 ∧ R.magn.cr = false) ∧ (R.gyro.entete.length = 4 ∧ R.gyro.cr = false)

end Reponse

/-- A line is received whole, and its array gives its numbers. -/
def Juste (t : Tampon) (l : Ligne) : Prop := l.texte.length ≤ 25 ∧ sortiesDe t l.texte = l.valeurs

theorem getRazorData_courte {t : Tampons} {R : Reponse} (h : R.Courte) (a : List (List Int8)) :
    getRazorData t ⟨[], R.texte :: a⟩ = some (.de (sortiesDe t.accel R.accel.texte)
      (sortiesDe t.magn R.magn.texte) (sortiesDe t.gyro R.gyro.texte), ⟨[], a⟩) := by
  obtain ⟨h₁, h₂, h₃⟩ := h
  have hcall := getRazorData_recue t (recue_ligne h₁) (recue_ligne h₂) (recue_ligne h₃) [] a
  rwa [List.append_nil] at hcall

/-- **A call reads exactly its answer when no line has more than 25 bytes**, and only then. -/
theorem courte_iff {t : Tampons} {R : Reponse} {a : List (List Int8)} :
    (∃ x, getRazorData t ⟨[], R.texte :: a⟩ = some (x, ⟨[], a⟩)) ↔ R.Courte := by
  constructor
  · rintro ⟨x, h⟩
    obtain ⟨r₁, r₂, r₃, h₁, h₂, h₃, htexte⟩ := getRazorData_some h
    have htexte' : R.texte = r₁ ++ (r₂ ++ r₃) := by simpa [Port.write] using htexte
    obtain ⟨rfl, rfl, rfl⟩ := recues_texte h₁ h₂ h₃ htexte'
    exact ⟨h₁.length_le, h₂.length_le, h₃.length_le⟩
  · exact fun h => ⟨_, getRazorData_courte h a⟩

/-- **A call does what it should** exactly when its three lines are read well. -/
theorem fidele_iff {t : Tampons} {R : Reponse} {a : List (List Int8)} :
    getRazorData t ⟨[], R.texte :: a⟩ = some (R.attitude, ⟨[], a⟩) ↔
      Juste t.accel R.accel ∧ Juste t.magn R.magn ∧ Juste t.gyro R.gyro := by
  constructor
  · intro h
    have hc : R.Courte := courte_iff.1 ⟨_, h⟩
    rw [getRazorData_courte hc] at h
    have hde := (Prod.mk.inj (Option.some.inj h)).1
    unfold Reponse.attitude Attitude.de at hde
    simp only [Attitude.mk.injEq] at hde
    obtain ⟨h₁, h₂, h₃⟩ := hc
    obtain ⟨a1, a2, a3, m1, m2, m3, g1, g2, g3⟩ := hde
    exact ⟨⟨h₁, Prod.ext a1 (Prod.ext a2 a3)⟩, ⟨h₂, Prod.ext m1 (Prod.ext m2 m3)⟩, ⟨h₃, Prod.ext g1 (Prod.ext g2 g3)⟩⟩
  · rintro ⟨⟨h₁, ha⟩, ⟨h₂, hm⟩, ⟨h₃, hg⟩⟩
    rw [getRazorData_courte ⟨h₁, h₂, h₃⟩, ha, hm, hg]
    rfl

/-! ## A line and its array -/

/-- What the array holds between the line and the end of the scan starts no number. -/
def SansReste (t : Tampon) (l : Ligne) : Prop :=
  SansReprise ((t.octets.drop l.texte.length).take (25 - l.texte.length))

/-- **A line of at most 25 bytes is read well** over an array that starts no number after it. -/
theorem juste_of_sansReste {t : Tampon} (hl : l.texte.length ≤ 25) (h : SansReste t l) : Juste t l := by
  have htaille := t.taille
  have hlen : ((t.octets.drop l.texte.length).take (25 - l.texte.length)).length = 25 - l.texte.length := by
    rw [List.length_take, List.length_drop]
    omega
  refine ⟨hl, sorties_ligne (porte_stocke t (by omega)) (fun i c hi => ?_) (by omega) h 0 0 0⟩
  have hlt : i < 25 - l.texte.length := hlen ▸ (List.getElem?_eq_some_iff.1 hi).1
  rw [List.getElem?_take_of_lt hlt, List.getElem?_drop] at hi
  rw [octet_stocke t (by omega) (.inr (by omega))]
  have hporte := porte_octets t _ c hi
  rwa [zero_add] at hporte

/-- A line of 24 or 25 bytes leaves no place for a number. -/
theorem sansReste_of_longueur (t : Tampon) (h : 24 ≤ l.texte.length) : SansReste t l := by
  intro a c hc
  have hlen := congrArg List.length hc
  rw [List.length_take, List.length_append, List.length_cons] at hlen
  obtain rfl : c = [] := List.eq_nil_of_length_eq_zero (by omega)
  exact List.not_mem_nil

/-- **A line is read well over every array** exactly when it has 24 or 25 bytes. -/
theorem juste_iff (l : Ligne) : (∀ t, Juste t l) ↔ 24 ≤ l.texte.length ∧ l.texte.length ≤ 25 := by
  constructor
  · intro h
    have h25 := (h .zeros).1
    refine ⟨?_, h25⟩
    by_contra hlt
    -- two contents of the array give a shorter line different numbers
    obtain ⟨t, t', hne⟩ := reste_court (recue_ligne h25) (by omega) [] [] 0 0 0
    rw [mesure_recue (recue_ligne h25), mesure_recue (recue_ligne h25)] at hne
    exact hne (congrArg some ((h t).2.trans (h t').2.symm))
  · rintro ⟨h24, h25⟩ t
    exact juste_of_sansReste h25 (sansReste_of_longueur t h24)

/-! ## Successive calls -/

/-- A call: what the arrays hold, and the board's answer. -/
structure Appel where
  tampons : Tampons
  reponse : Reponse

variable {c : Appel} {cs : List Appel}

/-- Before the calls `cs`: nothing waits at the port. -/
def portDe (cs : List Appel) : Port := ⟨[], cs.map (·.reponse.texte)⟩

/-- **Every call reads exactly its answer**: after each call nothing waits at the port, and the
answers to come are those of the calls to come. -/
def EnPhase (cs : List Appel) : Prop :=
  ∀ k ≤ cs.length, ∃ as, releves ((cs.take k).map Appel.tampons) (portDe cs) = some (as, portDe (cs.drop k))

/-- **Every call reads exactly its answer and stores its nine numbers.** -/
def Synchrone (cs : List Appel) : Prop :=
  ∀ k ≤ cs.length, releves ((cs.take k).map Appel.tampons) (portDe cs) =
    some ((cs.take k).map (·.reponse.attitude), portDe (cs.drop k))

namespace Appel

/-- The three lines of the answer are read well. -/
def Juste (c : Appel) : Prop := ICar.Juste c.tampons.accel c.reponse.accel ∧
  ICar.Juste c.tampons.magn c.reponse.magn ∧ ICar.Juste c.tampons.gyro c.reponse.gyro

/-- None of the arrays starts a number after its line. -/
def SansReste (c : Appel) : Prop := ICar.SansReste c.tampons.accel c.reponse.accel ∧
  ICar.SansReste c.tampons.magn c.reponse.magn ∧ ICar.SansReste c.tampons.gyro c.reponse.gyro

end Appel

/-- A call that reads its answer, then `k` others. -/
theorem releves_succ {a : Attitude} {as : List Attitude} {q : Port} {k : ℕ}
    (h : getRazorData c.tampons (portDe (c :: cs)) = some (a, portDe cs)) :
    releves (((c :: cs).take (k + 1)).map Appel.tampons) (portDe (c :: cs)) = some (as, q) ↔
      ∃ as', as = a :: as' ∧ releves ((cs.take k).map Appel.tampons) (portDe cs) = some (as', q) := by
  have hdef : releves (((c :: cs).take (k + 1)).map Appel.tampons) (portDe (c :: cs)) =
      (getRazorData c.tampons (portDe (c :: cs))).bind fun r =>
        (releves ((cs.take k).map Appel.tampons) r.2).bind fun s => some (r.1 :: s.1, s.2) := rfl
  rw [hdef, h, Option.bind_some, Option.bind_eq_some_iff]
  constructor
  · rintro ⟨⟨as', q'⟩, hrel, heq⟩
    cases heq
    exact ⟨as', rfl, hrel⟩
  · rintro ⟨as', rfl, hrel⟩
    exact ⟨(as', q), hrel, rfl⟩

/-- A single call. -/
theorem releves_un {t : Tampons} {p q : Port} {as : List Attitude} (h : releves [t] p = some (as, q)) :
    ∃ a, as = [a] ∧ getRazorData t p = some (a, q) := by
  simp only [releves, Option.bind_eq_bind, Option.bind_eq_some_iff, Option.bind_some] at h
  obtain ⟨⟨a, p'⟩, hcall, h⟩ := h
  cases h
  exact ⟨a, rfl, hcall⟩

/-- **The calls stay in step** exactly when no line has more than 25 bytes. -/
theorem enPhase_iff (cs : List Appel) : EnPhase cs ↔ ∀ c ∈ cs, c.reponse.Courte := by
  induction cs with
  | nil =>
    refine ⟨fun _ _ hc => (List.not_mem_nil hc).elim, fun _ k _ => ⟨[], ?_⟩⟩
    rw [List.take_nil, List.drop_nil]
    rfl
  | cons c cs ih =>
    rw [List.forall_mem_cons, ← ih]
    constructor
    · -- the first call alone, then the others after it
      intro h
      obtain ⟨as, h1⟩ := h 1 (Nat.succ_pos _)
      obtain ⟨a, -, hcall⟩ := releves_un h1
      refine ⟨courte_iff.1 ⟨a, hcall⟩, fun k hk => ?_⟩
      obtain ⟨as', hk'⟩ := h (k + 1) (Nat.succ_le_succ hk)
      obtain ⟨as'', -, hrel⟩ := (releves_succ hcall).1 hk'
      exact ⟨as'', hrel⟩
    · rintro ⟨hc, h⟩ k hk
      cases k with
      | zero => exact ⟨[], rfl⟩
      | succ k =>
        obtain ⟨as, hs⟩ := h k (Nat.le_of_succ_le_succ hk)
        obtain ⟨a, hcall⟩ := courte_iff.2 hc
        exact ⟨a :: as, (releves_succ hcall).2 ⟨as, rfl, hs⟩⟩

/-- **The calls stay in step and store the board's numbers** exactly when every line is read well. -/
theorem synchrone_iff (cs : List Appel) : Synchrone cs ↔ ∀ c ∈ cs, c.Juste := by
  induction cs with
  | nil =>
    refine ⟨fun _ _ hc => (List.not_mem_nil hc).elim, fun _ k _ => ?_⟩
    rw [List.take_nil, List.drop_nil]
    rfl
  | cons c cs ih =>
    rw [List.forall_mem_cons, ← ih]
    constructor
    · intro h
      obtain ⟨a, ha, hcall⟩ := releves_un (h 1 (Nat.succ_pos _))
      obtain rfl : c.reponse.attitude = a := List.singleton_inj.1 ha
      refine ⟨fidele_iff.1 hcall, fun k hk => ?_⟩
      obtain ⟨as, has, hrel⟩ := (releves_succ hcall).1 (h (k + 1) (Nat.succ_le_succ hk))
      obtain rfl := (List.cons.inj has).2
      exact hrel
    · rintro ⟨hc, h⟩ k hk
      cases k with
      | zero => rfl
      | succ k =>
        have hcall := (fidele_iff (a := cs.map (·.reponse.texte))).2 hc
        exact (releves_succ hcall).2 ⟨_, rfl, h k (Nat.le_of_succ_le_succ hk)⟩

/-- Over all contents of the arrays: every line has 24 or 25 bytes. -/
theorem synchrone_partout (cs : List Appel) :
    (∀ cs', cs'.map Appel.reponse = cs.map Appel.reponse → Synchrone cs') ↔ ∀ c ∈ cs, c.reponse.Pleine := by
  constructor
  · intro h c hc
    have hjuste : ∀ t, ICar.Juste t c.reponse.accel ∧ ICar.Juste t c.reponse.magn ∧ ICar.Juste t c.reponse.gyro := by
      intro t
      have hs := h (cs.map fun d => ⟨⟨t, t, t⟩, d.reponse⟩) (by simp)
      exact (synchrone_iff _).1 hs ⟨⟨t, t, t⟩, c.reponse⟩ (List.mem_map.2 ⟨c, hc, rfl⟩)
    exact ⟨(juste_iff c.reponse.accel).1 fun t => (hjuste t).1, (juste_iff c.reponse.magn).1 fun t => (hjuste t).2.1,
      (juste_iff c.reponse.gyro).1 fun t => (hjuste t).2.2⟩
  · intro h cs' hcs'
    refine (synchrone_iff cs').2 fun c' hc' => ?_
    have hmem : c'.reponse ∈ cs.map Appel.reponse := hcs' ▸ List.mem_map.2 ⟨c', hc', rfl⟩
    obtain ⟨c, hc, heq⟩ := List.mem_map.1 hmem
    have hpleine : c'.reponse.Pleine := heq ▸ h c hc
    obtain ⟨ha, hm, hg⟩ := hpleine
    exact ⟨(juste_iff c'.reponse.accel).2 ha c'.tampons.accel, (juste_iff c'.reponse.magn).2 hm c'.tampons.magn,
      (juste_iff c'.reponse.gyro).2 hg c'.tampons.gyro⟩

/-- **The dialogue.** The calls stay in step exactly when no line has more than 25 bytes. They
then store the board's numbers if no array starts a number after its line; and they do so over
all contents of the arrays exactly when every line has 24 or 25 bytes. -/
theorem dialogue_synchrone (cs : List Appel) :
    (EnPhase cs ↔ ∀ c ∈ cs, c.reponse.Courte) ∧
    ((∀ c ∈ cs, c.reponse.Courte ∧ c.SansReste) → Synchrone cs) ∧
    ((∀ cs', cs'.map Appel.reponse = cs.map Appel.reponse → Synchrone cs') ↔ ∀ c ∈ cs, c.reponse.Pleine) := by
  refine ⟨enPhase_iff cs, fun h => (synchrone_iff cs).2 fun c hc => ?_, synchrone_partout cs⟩
  obtain ⟨⟨h₁, h₂, h₃⟩, ha, hm, hg⟩ := h c hc
  exact ⟨juste_of_sansReste h₁ ha, juste_of_sansReste h₂ hm, juste_of_sansReste h₃ hg⟩

/-- `-999.99`. -/
def Nombre.long : Nombre := ⟨true, List.replicate 3 (Fin.last 9), by decide, Fin.last 9, Fin.last 9⟩

/-- `#A-C=-999.99,-999.99,-999.99`, 29 bytes with its newline. -/
def Ligne.longue : Ligne := { Ligne.exemple with x := .long, y := .long, z := .long }

/-- Its last four bytes are left for the next sensor. -/
theorem not_synchrone_longue : ¬ ∀ cs : List Appel, (∀ c ∈ cs, c.reponse.DeLaCarte) → Synchrone cs := by
  intro h
  have hs := h [⟨⟨.zeros, .zeros, .zeros⟩, ⟨.longue, .longue, .longue⟩⟩] fun c hc => by
    obtain rfl := List.mem_singleton.1 hc
    exact ⟨⟨rfl, rfl⟩, ⟨rfl, rfl⟩, ⟨rfl, rfl⟩⟩
  have hjuste := (synchrone_iff _).1 hs _ List.mem_cons_self
  exact absurd hjuste.1.1 (by decide)

end ICar
