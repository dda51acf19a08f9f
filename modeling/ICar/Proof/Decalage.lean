import ICar.Proof.Phases

/-!
# The scanner on any line

`decalage`: what `parse_razor_all_axis` writes over an array of any content, with any number of
`=` and of points. A point writes `x` when a `=` stands between it and the point before, `y` when
that point wrote `x`, `z` when that one wrote `y`. Nothing else writes, and each output ends with
the last of its writes.

The flags at an index say which points are behind it (`Leve`): each is the one before, seen from
the last point (`Dernier`). One iteration keeps this (`Repere.avance`), so the whole scan does.
-/

namespace ICar

variable {o : ℕ → Int8} {b : Balayage} {k d d' : ℕ}

/-! ## The points behind an index -/

/-- The last point before the index `k` is at `d`. -/
def Dernier (o : ℕ → Int8) (d k : ℕ) : Prop := d < k ∧ o d = car '.' ∧ ∀ q, d < q → q < k → o q ≠ car '.'

/-- The flag `n` is set before the byte `k`: the first when a `=` stands after the last point, and
each other when the flag before it was set at that point. -/
def Leve (o : ℕ → Int8) : ℕ → ℕ → Prop
  | 0, k => ∃ p, p < k ∧ o p = car '=' ∧ ∀ q, p < q → q < k → o q ≠ car '.'
  | n + 1, k => ∃ d, Dernier o d k ∧ Leve o n d

/-- Behind a point is that point. -/
theorem dernier_point (hk : o k = car '.') : Dernier o d (k + 1) ↔ d = k := by
  constructor
  · rintro ⟨hd, -, hq⟩
    by_contra hne
    exact hq k (by omega) (Nat.lt_succ_self k) hk
  · rintro rfl
    exact ⟨Nat.lt_succ_self d, hk, fun q _ _ => by omega⟩

theorem dernier_autre (hk : o k ≠ car '.') : Dernier o d (k + 1) ↔ Dernier o d k := by
  constructor
  · rintro ⟨hd, hpt, hq⟩
    have hne : d ≠ k := fun heq => hk (heq ▸ hpt)
    exact ⟨by omega, hpt, fun q h1 h2 => hq q h1 (by omega)⟩
  · rintro ⟨hd, hpt, hq⟩
    refine ⟨by omega, hpt, fun q h1 h2 => ?_⟩
    rcases Nat.lt_succ_iff_lt_or_eq.1 h2 with h | rfl
    · exact hq q h1 h
    · exact hk

/-- A point takes the `=` before it out of sight. -/
theorem leve_zero_point (hk : o k = car '.') : ¬ Leve o 0 (k + 1) := by
  rintro ⟨p, hp, he, hq⟩
  rcases Nat.lt_succ_iff_lt_or_eq.1 hp with h | rfl
  · exact hq k h (Nat.lt_succ_self k) hk
  · exact egal_ne_point (he ▸ hk)

theorem leve_zero_autre (hk : o k ≠ car '.') : Leve o 0 (k + 1) ↔ Leve o 0 k ∨ o k = car '=' := by
  constructor
  · rintro ⟨p, hp, he, hq⟩
    rcases Nat.lt_succ_iff_lt_or_eq.1 hp with h | rfl
    · exact .inl ⟨p, h, he, fun q h1 h2 => hq q h1 (by omega)⟩
    · exact .inr he
  · rintro (⟨p, hp, he, hq⟩ | he)
    · refine ⟨p, by omega, he, fun q h1 h2 => ?_⟩
      rcases Nat.lt_succ_iff_lt_or_eq.1 h2 with h | rfl
      · exact hq q h1 h
      · exact hk
    · exact ⟨k, Nat.lt_succ_self k, he, fun q _ _ => by omega⟩

/-- **A point shifts the flags.** -/
theorem leve_succ_point (hk : o k = car '.') (n : ℕ) : Leve o (n + 1) (k + 1) ↔ Leve o n k := by
  unfold Leve
  simp only [dernier_point hk, exists_eq_left]
  cases n <;> rfl

theorem leve_succ_autre (hk : o k ≠ car '.') (n : ℕ) : Leve o (n + 1) (k + 1) ↔ Leve o (n + 1) k := by
  unfold Leve
  simp only [dernier_autre hk]

/-! ## What the scanner knows before a byte -/

/-- The writes of an output so far: at each point met with its flag set. -/
def Ecrit (b : Balayage) (a : Axe) (d : ℕ) : Prop := ∃ nl, (a, d, nl) ∈ b.ecrits

/-- The value of the last write of an output, or the value it was given. -/
def derniereValeur (o : ℕ → Int8) (ecrits : List (Axe × ℕ × ℤ)) (a : Axe) (v : ℚ) : ℚ :=
  match ecrits.reverse.find? fun e => e.1 = a with
  | some e => valeurAxe o e.2.1 e.2.2
  | none => v

/-- **The scanner before the byte `k`.** The flags, the counter and the writes follow from the
bytes read. -/
structure Repere (o : ℕ → Int8) (x y z : ℚ) (k : ℕ) (b : Balayage) : Prop where
  xParse : b.xParse = true ↔ Leve o 0 k
  yParse : b.yParse = true ↔ Leve o 1 k
  zParse : b.zParse = true ↔ Leve o 2 k
  numberLength : ∀ d, Dernier o d k → (b.yParse || b.zParse) = true → b.numberLength = k - 1 - d - 3
  ecritX : ∀ d, Ecrit b .x d ↔ d < k ∧ o d = car '.' ∧ Leve o 0 d
  longueurX : ∀ d nl, (.x, d, nl) ∈ b.ecrits → Leve o 1 d → nl = -3
  ecritY : ∀ d nl, (.y, d, nl) ∈ b.ecrits ↔
    d < k ∧ o d = car '.' ∧ ∃ d', Dernier o d' d ∧ Leve o 0 d' ∧ nl = d - d' - 3
  ecritZ : ∀ d nl, (.z, d, nl) ∈ b.ecrits ↔
    d < k ∧ o d = car '.' ∧ ∃ d', Dernier o d' d ∧ Leve o 1 d' ∧ nl = d - d' - 3
  avant : ∀ e ∈ b.ecrits, e.2.1 < k
  dataX : b.dataX = derniereValeur o b.ecrits .x x
  dataY : b.dataY = derniereValeur o b.ecrits .y y
  dataZ : b.dataZ = derniereValeur o b.ecrits .z z

/-! ## One iteration -/

/-- The writes of a point: `z`, `y` then `x`, each if its flag is set. -/
def ecritsPoint (b : Balayage) (k : ℕ) : List (Axe × ℕ × ℤ) :=
  (if b.zParse then [(.z, k, b.longueur)] else []) ++ (if b.yParse then [(.y, k, b.longueur)] else []) ++
    (if b.xParse then [(.x, k, if b.yParse then -3 else b.longueur)] else [])

theorem avance_point (hk : o k = car '.') : avance o b k =
    { numberLength := if b.xParse || b.yParse then -3 else b.longueur
      xParse := false
      yParse := b.xParse
      zParse := b.yParse
      dataX := if b.xParse then valeurAxe o k (if b.yParse then -3 else b.longueur) else b.dataX
      dataY := if b.yParse then valeurAxe o k b.longueur else b.dataY
      dataZ := if b.zParse then valeurAxe o k b.longueur else b.dataZ
      ecrits := b.ecrits ++ ecritsPoint b k } := by
  unfold avance ecritsPoint
  rw [if_pos hk]
  simp only [List.append_assoc]

theorem mem_ecritsPoint {a : Axe} {nl : ℤ} : (a, d, nl) ∈ ecritsPoint b k ↔ d = k ∧
    match a with
    | .x => b.xParse = true ∧ nl = if b.yParse then -3 else b.longueur
    | .y => b.yParse = true ∧ nl = b.longueur
    | .z => b.zParse = true ∧ nl = b.longueur := by
  unfold ecritsPoint
  cases a <;> cases b.xParse <;> cases b.yParse <;> cases b.zParse <;> simp

/-- A point's writes come after the others, one at most for each output. -/
theorem derniereValeur_point (a : Axe) (v : ℚ) :
    derniereValeur o (b.ecrits ++ ecritsPoint b k) a v =
      match a with
      | .x => if b.xParse then valeurAxe o k (if b.yParse then -3 else b.longueur) else derniereValeur o b.ecrits a v
      | .y => if b.yParse then valeurAxe o k b.longueur else derniereValeur o b.ecrits a v
      | .z => if b.zParse then valeurAxe o k b.longueur else derniereValeur o b.ecrits a v := by
  unfold derniereValeur ecritsPoint
  cases a <;> cases b.xParse <;> cases b.yParse <;> cases b.zParse <;> simp

namespace Repere

variable {x y z : ℚ}

/-- The counter at the point after a write, with the number on `y` or `z` due. -/
theorem longueur (h : Repere o x y z k b) (hf : (b.yParse || b.zParse) = true) (hd : Dernier o d k) :
    b.longueur = k - d - 3 := by
  have hact : b.actif = true := by
    unfold Balayage.actif
    rw [Bool.or_assoc, hf, Bool.or_true]
  unfold Balayage.longueur
  rw [if_pos hact, h.numberLength d hd hf]
  ring

/-- A write of `y` at `k`. -/
theorem ecrit_y (h : Repere o x y z k b) (nl : ℤ) :
    (b.yParse = true ∧ nl = b.longueur) ↔ ∃ d', Dernier o d' k ∧ Leve o 0 d' ∧ nl = k - d' - 3 := by
  constructor
  · rintro ⟨hy, rfl⟩
    obtain ⟨d', hd', hl⟩ := h.yParse.1 hy
    exact ⟨d', hd', hl, h.longueur (by rw [hy]; rfl) hd'⟩
  · rintro ⟨d', hd', hl, rfl⟩
    have hy := h.yParse.2 ⟨d', hd', hl⟩
    exact ⟨hy, (h.longueur (by rw [hy]; rfl) hd').symm⟩

/-- A write of `z` at `k`. -/
theorem ecrit_z (h : Repere o x y z k b) (nl : ℤ) :
    (b.zParse = true ∧ nl = b.longueur) ↔ ∃ d', Dernier o d' k ∧ Leve o 1 d' ∧ nl = k - d' - 3 := by
  constructor
  · rintro ⟨hz, rfl⟩
    obtain ⟨d', hd', hl⟩ := h.zParse.1 hz
    exact ⟨d', hd', hl, h.longueur (by rw [hz, Bool.or_true]) hd'⟩
  · rintro ⟨d', hd', hl, rfl⟩
    have hz := h.zParse.2 ⟨d', hd', hl⟩
    exact ⟨hz, (h.longueur (by rw [hz, Bool.or_true]) hd').symm⟩

/-- **A point** shifts the flags and writes each output whose flag was set. -/
theorem point (h : Repere o x y z k b) (hk : o k = car '.') : Repere o x y z (k + 1) (avance o b k) := by
  -- the points met before `k`, and `k`
  have hsplit (P : ℕ → Prop) (d : ℕ) : (d < k + 1 ∧ o d = car '.' ∧ P d) ↔
      (d < k ∧ o d = car '.' ∧ P d) ∨ (d = k ∧ P k) := by
    constructor
    · rintro ⟨hd, hpt, hp⟩
      rcases Nat.lt_succ_iff_lt_or_eq.1 hd with hlt | rfl
      · exact .inl ⟨hlt, hpt, hp⟩
      · exact .inr ⟨rfl, hp⟩
    · rintro (⟨hd, hpt, hp⟩ | ⟨rfl, hp⟩)
      · exact ⟨by omega, hpt, hp⟩
      · exact ⟨Nat.lt_succ_self d, hk, hp⟩
  rw [avance_point hk]
  refine ⟨?_, ?_, ?_, fun d hd hf => ?_, fun d => ?_, fun d nl hd hl => ?_, fun d nl => ?_, fun d nl => ?_,
    fun e he => ?_, ?_, ?_, ?_⟩
  · exact iff_of_false Bool.false_ne_true (leve_zero_point hk)
  · exact h.xParse.trans (leve_succ_point hk 0).symm
  · exact h.yParse.trans (leve_succ_point hk 1).symm
  · have hd : d = k := (dernier_point hk).1 hd
    dsimp only at hf ⊢
    rw [if_pos hf, hd]
    push_cast
    ring
  · have hnew : (∃ nl, (Axe.x, d, nl) ∈ ecritsPoint b k) ↔ d = k ∧ Leve o 0 k := by
      simp only [mem_ecritsPoint, exists_and_left, exists_eq, and_true, h.xParse]
    rw [hsplit, ← h.ecritX, ← hnew]
    unfold Ecrit
    simp only [List.mem_append, exists_or]
  · rcases List.mem_append.1 hd with hd | hd
    · exact h.longueurX d nl hd hl
    · obtain ⟨rfl, -, rfl⟩ := mem_ecritsPoint.1 hd
      rw [if_pos (h.yParse.2 hl)]
  · rw [hsplit (fun d => ∃ d', Dernier o d' d ∧ Leve o 0 d' ∧ nl = d - d' - 3), ← h.ecritY, ← h.ecrit_y nl,
      ← mem_ecritsPoint (a := .y), List.mem_append]
  · rw [hsplit (fun d => ∃ d', Dernier o d' d ∧ Leve o 1 d' ∧ nl = d - d' - 3), ← h.ecritZ, ← h.ecrit_z nl,
      ← mem_ecritsPoint (a := .z), List.mem_append]
  · rcases List.mem_append.1 he with he | he
    · exact (h.avant e he).trans (Nat.lt_succ_self k)
    · obtain ⟨a, d, nl⟩ := e
      exact (mem_ecritsPoint.1 he).1 ▸ Nat.lt_succ_self k
  · rw [derniereValeur_point, h.dataX]
  · rw [derniereValeur_point, h.dataY]
  · rw [derniereValeur_point, h.dataZ]

/-- **Another byte** sets the first flag if it is a `=`, and moves the counter on. -/
theorem autre (h : Repere o x y z k b) (hk : o k ≠ car '.') : Repere o x y z (k + 1) (avance o b k) := by
  have havant (P : Prop) (d : ℕ) : (d < k + 1 ∧ o d = car '.' ∧ P) ↔ (d < k ∧ o d = car '.' ∧ P) := by
    constructor
    · rintro ⟨hd, hpt, hp⟩
      have hne : d ≠ k := fun heq => hk (heq ▸ hpt)
      exact ⟨by omega, hpt, hp⟩
    · exact fun ⟨hd, hpt, hp⟩ => ⟨by omega, hpt, hp⟩
  rw [avance_autre hk]
  refine { h with
    xParse := ?_, yParse := h.yParse.trans (leve_succ_autre hk 0).symm,
    zParse := h.zParse.trans (leve_succ_autre hk 1).symm, numberLength := fun d hd hf => ?_
    ecritX := fun d => (h.ecritX d).trans (havant _ d).symm
    ecritY := fun d nl => (h.ecritY d nl).trans (havant _ d).symm
    ecritZ := fun d nl => (h.ecritZ d nl).trans (havant _ d).symm
    avant := fun e he => (h.avant e he).trans (Nat.lt_succ_self k) }
  · rw [leve_zero_autre hk, ← h.xParse, Bool.or_eq_true, decide_eq_true_iff]
  · rw [h.longueur hf ((dernier_autre hk).1 hd)]
    push_cast
    ring

theorem avance (h : Repere o x y z k b) : Repere o x y z (k + 1) (avance o b k) := by
  by_cases hk : o k = car '.'
  · exact h.point hk
  · exact h.autre hk

end Repere

/-! ## The scan -/

theorem repere_debut (o : ℕ → Int8) (x y z : ℚ) : Repere o x y z 0 (.debut x y z) where
  xParse := iff_of_false Bool.false_ne_true fun ⟨p, hp, _⟩ => Nat.not_lt_zero p hp
  yParse := iff_of_false Bool.false_ne_true fun ⟨d, hd, _⟩ => Nat.not_lt_zero d hd.1
  zParse := iff_of_false Bool.false_ne_true fun ⟨d, hd, _⟩ => Nat.not_lt_zero d hd.1
  numberLength d hd := absurd hd.1 (Nat.not_lt_zero d)
  ecritX d := iff_of_false (fun ⟨_, h⟩ => List.not_mem_nil h) fun h => Nat.not_lt_zero d h.1
  longueurX _ _ h := absurd h List.not_mem_nil
  ecritY d _ := iff_of_false List.not_mem_nil fun h => Nat.not_lt_zero d h.1
  ecritZ d _ := iff_of_false List.not_mem_nil fun h => Nat.not_lt_zero d h.1
  avant _ h := absurd h List.not_mem_nil
  dataX := rfl
  dataY := rfl
  dataZ := rfl

/-- **The scanner follows the points** over any number of iterations. -/
theorem repere_balaye (o : ℕ → Int8) (x y z : ℚ) (k : ℕ) : Repere o x y z k (balaye o 0 k (.debut x y z)) := by
  induction k with
  | zero => exact repere_debut o x y z
  | succ k ih =>
    rw [balaye_concat, zero_add]
    exact ih.avance

/-- The value of the last write is what `parse_razor_one_axis` returned for it. -/
theorem valeurEcrite_reverse (data : Tampon) {b : Balayage}
    (h : ∀ e ∈ b.ecrits, 1 ≤ e.2.1 ∧ e.2.1 < 25 ∧ e.2.2 ≤ e.2.1) (a : Axe) (v : ℚ) :
    valeurEcrite data b.ecrits.reverse a v = some (derniereValeur data.octet b.ecrits a v) := by
  unfold valeurEcrite derniereValeur
  cases he : b.ecrits.reverse.find? fun e => decide (e.1 = a) with
  | none => rfl
  | some e =>
    obtain ⟨h1, h25, hnl⟩ := h e (List.mem_reverse.1 (List.mem_of_find?_eq_some he))
    exact parseRazorOneAxis_eq data h1 hnl (by omega)

/-- **The scanner on any line.** Whatever the array holds, the writes of `x` are at the points that
have a `=` between the point before and them; those of `y` at the points that follow a write of
`x`, and those of `z` at the points that follow one of `y`, with the bytes since it less 3; an `x`
written together with `y` is read as one digit. Each output ends with its last write. -/
theorem decalage (data : Tampon) (x y z : ℚ) : ∃ b, parseRazorAllAxis data x y z = some b ∧
    (∀ d, Ecrit b .x d ↔ d < 25 ∧ data.octet d = car '.' ∧
      ∃ p, p < d ∧ data.octet p = car '=' ∧ ∀ q, p < q → q < d → data.octet q ≠ car '.') ∧
    (∀ d nl, (.y, d, nl) ∈ b.ecrits ↔ d < 25 ∧ data.octet d = car '.' ∧
      ∃ d', Dernier data.octet d' d ∧ Ecrit b .x d' ∧ nl = d - d' - 3) ∧
    (∀ d nl, (.z, d, nl) ∈ b.ecrits ↔ d < 25 ∧ data.octet d = car '.' ∧
      ∃ d', Dernier data.octet d' d ∧ Ecrit b .y d' ∧ nl = d - d' - 3) ∧
    (∀ d nl, (.x, d, nl) ∈ b.ecrits → Ecrit b .y d → nl = -3) ∧
    valeurEcrite data b.ecrits.reverse .x x = some b.dataX ∧
    valeurEcrite data b.ecrits.reverse .y y = some b.dataY ∧
    valeurEcrite data b.ecrits.reverse .z z = some b.dataZ := by
  refine ⟨_, parseRazorAllAxis_eq data x y z, ?_⟩
  have h := repere_balaye data.octet x y z 25
  have hborne := ecrits_borne (borne_debut x y z) rfl data.octet 25
  generalize balaye data.octet 0 25 (.debut x y z) = b at h hborne
  -- a point in view of the scan is within its 25 bytes
  have hx {d d' : ℕ} (hd : d < 25) (hd' : Dernier data.octet d' d) : Ecrit b .x d' ↔ Leve data.octet 0 d' := by
    rw [h.ecritX]
    exact ⟨fun he => he.2.2, fun hl => ⟨hd'.1.trans hd, hd'.2.1, hl⟩⟩
  have hy {d : ℕ} (hd : d < 25) (hpt : data.octet d = car '.') : Ecrit b .y d ↔ Leve data.octet 1 d := by
    unfold Ecrit
    simp only [h.ecritY]
    constructor
    · rintro ⟨nl, -, -, d', hd', hl, -⟩
      exact ⟨d', hd', hl⟩
    · rintro ⟨d', hd', hl⟩
      exact ⟨_, hd, hpt, d', hd', hl, rfl⟩
  refine ⟨h.ecritX, fun d nl => ?_, fun d nl => ?_, fun d nl hd hey => ?_, ?_, ?_, ?_⟩
  · rw [h.ecritY]
    refine and_congr_right fun hd => and_congr_right fun _ => exists_congr fun d' => and_congr_right fun hd' => ?_
    rw [hx hd hd']
  · rw [h.ecritZ]
    refine and_congr_right fun hd => and_congr_right fun _ => exists_congr fun d' => and_congr_right fun hd' => ?_
    rw [hy (hd'.1.trans hd) hd'.2.1]
  · obtain ⟨h25, hpt, -⟩ := (h.ecritX d).1 ⟨nl, hd⟩
    exact h.longueurX d nl hd ((hy h25 hpt).1 hey)
  · rw [valeurEcrite_reverse data hborne, ← h.dataX]
  · rw [valeurEcrite_reverse data hborne, ← h.dataY]
  · rw [valeurEcrite_reverse data hborne, ← h.dataZ]

end ICar
