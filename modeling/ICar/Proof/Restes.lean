import ICar.Proof.Balayage

/-!
# What the array held before

`get_razor_data` stores a line over an array that it never clears. The scan then covers 25
bytes whatever the line's length, and takes two more bytes after each point.

* `lireLigne_recue`: a reading loop takes what is received for one sensor and stores it.
* `actif_iff_ouvert`: a flag is set after the bytes `l` when a `=` in `l` has at most two points
  after it (`Ouvert`).
* `restes_iff`: the outputs are those of the bytes received, whatever the array held, exactly
  when the bytes reach the end of the scan, or its last byte with no flag set, and no point is
  read whose two digits are not both received (`SansRestes`).
-/

namespace ICar

variable {o o' : ℕ → Int8} {b : Balayage} {cnt : ℕ} {l r : List Int8}

/-! ## Storing a line -/

/-- The array after `l` is stored from index `i` on. -/
def Tampon.stocke (t : Tampon) (i : ℕ) : List Int8 → Tampon
  | [] => t
  | c :: l => (t.ecrit i c).stocke (i + 1) l

theorem stocke_append (t : Tampon) (i : ℕ) (l l' : List Int8) :
    t.stocke i (l ++ l') = (t.stocke i l).stocke (i + l.length) l' := by
  induction l generalizing t i with
  | nil => rfl
  | cons c l ih =>
    rw [List.length_cons, ← add_assoc, add_right_comm]
    exact ih _ (i + 1)

theorem octet_ecrit (t : Tampon) {i : ℕ} (c : Int8) (j : ℕ) (hi : i < 30) :
    (t.ecrit i c).octet j = if i = j then c else t.octet j := by
  have ht := t.taille
  unfold Tampon.octet Tampon.ecrit
  simp only [List.getD_eq_getElem?_getD, List.getElem?_set]
  by_cases hij : i = j
  · subst hij
    simp [ht, hi]
  · simp [hij]

/-- Outside of what is stored the array keeps its bytes. -/
theorem octet_stocke (t : Tampon) {i j : ℕ} (hl : i + l.length ≤ 30) (hj : j < i ∨ i + l.length ≤ j) :
    (t.stocke i l).octet j = t.octet j := by
  induction l generalizing t i with
  | nil => rfl
  | cons c l ih =>
    rw [List.length_cons] at hl hj
    unfold Tampon.stocke
    rw [ih _ (by omega) (by omega), octet_ecrit t c j (by omega), if_neg (by omega)]

theorem porte_stocke (t : Tampon) {i : ℕ} (hl : i + l.length ≤ 30) : Porte (t.stocke i l).octet i l := by
  induction l generalizing t i with
  | nil => exact porte_nil _ i
  | cons c l ih =>
    rw [List.length_cons] at hl
    unfold Tampon.stocke
    refine porte_cons.2 ⟨?_, ih _ (by omega)⟩
    rw [octet_stocke _ (by omega) (.inl (Nat.lt_succ_self i)), octet_ecrit t c i (by omega), if_pos rfl]

/-- A byte that is not stored over changes that byte alone. -/
theorem octet_stocke_ecrit (t : Tampon) {i : ℕ} (c : Int8) (j : ℕ) (hl : l.length ≤ i) (hi : i < 30) :
    ((t.ecrit i c).stocke 0 l).octet j = if i = j then c else (t.stocke 0 l).octet j := by
  have hl30 : 0 + l.length ≤ 30 := by omega
  by_cases hj : l.length ≤ j
  · rw [octet_stocke _ hl30 (.inr (by omega)), octet_stocke _ hl30 (.inr (by omega)), octet_ecrit t c j hi]
  · rw [if_neg (by omega)]
    have hget := (porte_stocke t hl30).get (not_le.1 hj)
    have hget' := (porte_stocke (t.ecrit i c) hl30).get (not_le.1 hj)
    rw [hget', zero_add] at hget
    exact Option.some_inj.1 hget

/-- **What is received for one sensor**: the bytes up to the first newline, or `n` bytes if none
comes earlier. -/
def Recue (n : ℕ) (r : List Int8) : Prop :=
  (∃ l, r = l ++ [car '\n'] ∧ car '\n' ∉ l ∧ l.length < n) ∨ (car '\n' ∉ r ∧ r.length = n)

theorem Recue.length_le {n : ℕ} (h : Recue n r) : r.length ≤ n := by
  rcases h with ⟨l, rfl, -, hl⟩ | ⟨-, hl⟩
  · rw [List.length_append]
    exact hl
  · exact hl.le

/-- Bytes other than a newline are stored one by one. -/
theorem lireLigne_append (hl : car '\n' ∉ l) (n i : ℕ) (t : Tampon) (suite : List Int8) (a : List (List Int8)) :
    lireLigne (l.length + n) i t ⟨l ++ suite, a⟩ = lireLigne n (i + l.length) (t.stocke i l) ⟨suite, a⟩ := by
  induction l generalizing i t with
  | nil => rw [List.length_nil, zero_add]; rfl
  | cons c l ih =>
    rw [List.mem_cons, not_or] at hl
    have hstep : lireLigne (l.length + n + 1) i t ⟨c :: (l ++ suite), a⟩ =
        lireLigne (l.length + n) (i + 1) (t.ecrit i c) ⟨l ++ suite, a⟩ := by
      simp [lireLigne, Port.readByte, Ne.symm hl.1]
    rw [List.length_cons, Nat.add_right_comm, List.cons_append, hstep, ih hl.2, add_right_comm i 1]
    rfl

/-- **A reading loop takes what is received and stores it**, and leaves the bytes after it. -/
theorem lireLigne_recue {n : ℕ} (h : Recue n r) (t : Tampon) (suite : List Int8) (a : List (List Int8)) :
    lireLigne n 0 t ⟨r ++ suite, a⟩ = some (t.stocke 0 r, ⟨suite, a⟩) := by
  rcases h with ⟨l, rfl, hl, hn⟩ | ⟨hr, rfl⟩
  · obtain ⟨m, rfl⟩ : ∃ m, n = l.length + (m + 1) := ⟨n - l.length - 1, by omega⟩
    rw [List.append_assoc, lireLigne_append hl]
    rw [stocke_append]
    rfl
  · exact lireLigne_append hr 0 0 t suite a

/-! ## When a flag is set -/

/-- Some `=` of `l` has exactly `k` points after it. -/
def Attend (k : ℕ) (l : List Int8) : Prop := ∃ a c, l = a ++ car '=' :: c ∧ c.count (car '.') = k

/-- **A number is awaited** after `l`: a `=` of `l` has at most two points after it. -/
def Ouvert (l : List Int8) : Prop := ∃ a c, l = a ++ car '=' :: c ∧ c.count (car '.') ≤ 2

theorem attend_concat {k : ℕ} {c : Int8} : Attend k (l ++ [c]) ↔
    (c = car '=' ∧ k = 0) ∨ ∃ j, Attend j l ∧ k = j + if c = car '.' then 1 else 0 := by
  constructor
  · rintro ⟨a, d, hl, rfl⟩
    rcases List.eq_nil_or_concat d with rfl | ⟨d, e, rfl⟩
    · obtain ⟨rfl, h⟩ := List.append_inj' hl rfl
      exact .inl ⟨List.singleton_inj.1 h, rfl⟩
    · rw [List.concat_eq_append, ← List.cons_append, ← List.append_assoc] at hl
      obtain ⟨rfl, h⟩ := List.append_inj' hl rfl
      obtain rfl := List.singleton_inj.1 h
      refine .inr ⟨_, ⟨a, d, rfl, rfl⟩, ?_⟩
      simp [List.count_singleton]
  · rintro (⟨rfl, rfl⟩ | ⟨j, ⟨a, d, rfl, rfl⟩, rfl⟩)
    · exact ⟨l, [], rfl, rfl⟩
    · refine ⟨a, d ++ [c], by simp, ?_⟩
      simp [List.count_singleton]

/-- A point moves each flag to the next one. -/
theorem drapeaux_point (h : o cnt = car '.') : (avance o b cnt).xParse = false ∧
    (avance o b cnt).yParse = b.xParse ∧ (avance o b cnt).zParse = b.yParse := by
  unfold avance
  rw [if_pos h]
  exact ⟨rfl, rfl, rfl⟩

/-- **The flags of the scan** after the bytes `l`. -/
theorem drapeaux_balaye (h : Porte o 0 l) (x y z : ℚ) :
    ((balaye o 0 l.length (.debut x y z)).xParse = true ↔ Attend 0 l) ∧
    ((balaye o 0 l.length (.debut x y z)).yParse = true ↔ Attend 1 l) ∧
    ((balaye o 0 l.length (.debut x y z)).zParse = true ↔ Attend 2 l) := by
  induction l using List.reverseRecOn with
  | nil =>
    have hnil : ∀ k, ¬ Attend k [] := fun k ⟨a, c, hl, _⟩ => by simp at hl
    simp [Balayage.debut, hnil]
  | append_singleton l c ih =>
    obtain ⟨hl, hc⟩ := porte_append.1 h
    have ho := (porte_cons.1 hc).1
    obtain ⟨ihx, ihy, ihz⟩ := ih hl
    rw [List.length_append, List.length_singleton, balaye_concat, attend_concat, attend_concat, attend_concat]
    by_cases hd : c = car '.'
    · obtain ⟨hx, hy, hz⟩ := drapeaux_point (b := balaye o 0 l.length (.debut x y z)) (ho.trans hd)
      rw [hx, hy, hz]
      simp [hd, Ne.symm egal_ne_point, ihx, ihy]
    · rw [avance_autre (ho ▸ hd), ho]
      simp [hd, ihx, ihy, ihz, or_comm]

/-- **A flag is set exactly when a number is awaited.** -/
theorem actif_iff_ouvert (h : Porte o 0 l) (x y z : ℚ) :
    (balaye o 0 l.length (.debut x y z)).actif = true ↔ Ouvert l := by
  obtain ⟨hx, hy, hz⟩ := drapeaux_balaye h x y z
  unfold Balayage.actif
  rw [Bool.or_eq_true, Bool.or_eq_true, hx, hy, hz]
  constructor
  · rintro ((⟨a, c, hl, hk⟩ | ⟨a, c, hl, hk⟩) | ⟨a, c, hl, hk⟩)
    · exact ⟨a, c, hl, by omega⟩
    · exact ⟨a, c, hl, by omega⟩
    · exact ⟨a, c, hl, by omega⟩
  · rintro ⟨a, c, hl, hk⟩
    have hcas : c.count (car '.') = 0 ∨ c.count (car '.') = 1 ∨ c.count (car '.') = 2 := by omega
    rcases hcas with hk | hk | hk
    · exact .inl (.inl ⟨a, c, hl, hk⟩)
    · exact .inl (.inr ⟨a, c, hl, hk⟩)
    · exact .inr ⟨a, c, hl, hk⟩

/-! ## What the outputs depend on -/

theorem valeurAxe_inj (h1 : 1 ≤ cnt) (h : ∀ j < cnt, o j = o' j) {nl : ℤ}
    (hv : valeurAxe o cnt nl = valeurAxe o' cnt nl) : decimales o cnt = decimales o' cnt := by
  unfold valeurAxe at hv
  rw [h (cnt - 3) (by omega), h (cnt - 2) (by omega), h (cnt - 1) (by omega)] at hv
  split_ifs at hv <;> linarith

/-- An iteration depends on the bytes up to its index, and at a point with a flag set on the
two after it. -/
theorem avance_congr (hb : Borne b cnt) (h : ∀ j ≤ cnt, o j = o' j)
    (hd : o cnt = car '.' → b.actif = true → o (cnt + 1) = o' (cnt + 1) ∧ o (cnt + 2) = o' (cnt + 2)) :
    avance o b cnt = avance o' b cnt := by
  have ho := h cnt le_rfl
  by_cases hpt : o cnt = car '.'
  · cases ha : b.actif with
    | true =>
      obtain ⟨h1, h2⟩ := hd hpt ha
      have hv := valeurAxe_congr (hb.actif ha).1 (fun j hj => h j hj.le) h1 h2
      simp only [avance, ho, hv]
    | false =>
      obtain ⟨nl, x, y, z, dx, dy, dz, e⟩ := b
      obtain ⟨⟨rfl, rfl⟩, rfl⟩ : (x = false ∧ y = false) ∧ z = false := by simpa [Balayage.actif] using ha
      simp [avance, ho]
  · rw [avance_autre hpt, avance_autre (ho ▸ hpt), ho]

theorem balaye_congr {n : ℕ} (hb : Borne b 0) (h : ∀ j < n, o j = o' j)
    (hd : ∀ k < n, o k = car '.' → (balaye o 0 k b).actif = true →
      o (k + 1) = o' (k + 1) ∧ o (k + 2) = o' (k + 2)) : balaye o 0 n b = balaye o' 0 n b := by
  induction n with
  | zero => rfl
  | succ n ih =>
    have hborne := borne_balaye hb o n
    have hd' := hd n (Nat.lt_succ_self n)
    rw [balaye_concat, balaye_concat, ← ih (fun j hj => h j (by omega)) fun k hk => hd k (by omega)]
    rw [zero_add] at hborne ⊢
    exact avance_congr hborne (fun j hj => h j (by omega)) hd'

/-- **A point with a flag set writes the digits after it** into some output. -/
theorem sorties_avance_ne (hb : Borne b cnt) (ha : b.actif = true) (hpt : o cnt = car '.')
    (h : ∀ j < cnt + 2, o j = o' j) (hne : o (cnt + 2) ≠ o' (cnt + 2)) :
    (avance o b cnt).sorties ≠ (avance o' b cnt).sorties := by
  have hpt' : o' cnt = car '.' := (h cnt (by omega)) ▸ hpt
  have hv : ∀ nl, valeurAxe o cnt nl ≠ valeurAxe o' cnt nl := by
    intro nl hv
    have hdec := valeurAxe_inj (hb.actif ha).1 (fun j hj => h j (by omega)) hv
    unfold decimales valeurChiffre at hdec
    rw [h (cnt + 1) (by omega)] at hdec
    have hint : ((o (cnt + 2)).toInt : ℚ) = (o' (cnt + 2)).toInt := by linarith
    exact hne (Int8.toInt_inj.1 (by exact_mod_cast hint))
  -- whichever flag is set, its output takes the number at this point
  obtain ⟨nl, x, y, z, dx, dy, dz, e⟩ := b
  intro heq
  cases x <;> cases y <;> cases z <;>
    simp [avance, Balayage.sorties, Balayage.actif, hpt, hpt', hv] at ha heq

/-- **A digit that is not received shows in the outputs**, when it follows a point with a flag
set after which nothing more is written. -/
theorem sorties_ne (hb : Borne b 0) (hcnt : cnt < 25) (ha : (balaye o 0 cnt b).actif = true)
    (hpt : o cnt = car '.') (h : ∀ j < cnt + 2, o j = o' j) (hne : o (cnt + 2) ≠ o' (cnt + 2))
    (hsuite : cnt + 1 < 25 → o (cnt + 1) = car '.' → (balaye o 0 (cnt + 1) b).actif = false)
    (hfin : ∀ k, cnt + 2 ≤ k → k < 25 → o k ≠ car '.' ∧ o' k ≠ car '.') :
    (balaye o 0 25 b).sorties ≠ (balaye o' 0 25 b).sorties := by
  have hborne := borne_balaye hb o cnt
  rw [zero_add] at hborne
  -- the states agree up to the point, differ after it, and the outputs then stay
  have hs : balaye o 0 cnt b = balaye o' 0 cnt b :=
    balaye_congr hb (fun j hj => h j (by omega)) fun k hk _ _ => ⟨h _ (by omega), h _ (by omega)⟩
  have hdiff := sorties_avance_ne hborne ha hpt h hne
  have hactif : (avance o' (balaye o 0 cnt b) cnt).actif = (avance o (balaye o 0 cnt b) cnt).actif := by
    obtain ⟨hx, hy, hz⟩ := drapeaux_point (b := balaye o 0 cnt b) hpt
    obtain ⟨hx', hy', hz'⟩ := drapeaux_point (b := balaye o 0 cnt b) ((h cnt (by omega)) ▸ hpt)
    unfold Balayage.actif
    rw [hx, hy, hz, hx', hy', hz']
  rw [balaye_concat, zero_add] at hsuite
  obtain ⟨n, hn⟩ : ∃ n, 25 = cnt + 1 + n := ⟨24 - cnt, by omega⟩
  rw [hn, balaye_add, balaye_add o', balaye_concat, balaye_concat, ← hs, zero_add, zero_add]
  have hreste : ∀ k < n, o (cnt + 1 + k) = car '.' →
      (balaye o (cnt + 1) k (avance o (balaye o 0 cnt b) cnt)).actif = false := by
    intro k hk hk'
    cases k with
    | zero => exact hsuite (by omega) hk'
    | succ k => exact absurd hk' (hfin _ (by omega) (by omega)).1
  have hreste' : ∀ k < n, o' (cnt + 1 + k) = car '.' →
      (balaye o' (cnt + 1) k (avance o' (balaye o 0 cnt b) cnt)).actif = false := by
    intro k hk hk'
    cases k with
    | zero => exact hactif.trans (hsuite (by omega) ((h _ (by omega)).trans hk'))
    | succ k => exact absurd hk' (hfin _ (by omega) (by omega)).2
  rw [sorties_balaye hreste, sorties_balaye hreste']
  exact hdiff

/-! ## The bytes of one sensor -/

/-- What `get_razor_data` gets for one sensor, from an array that holds `t`. -/
def mesure (t : Tampon) (p : Port) (x y z : ℚ) : Option (ℚ × ℚ × ℚ) := do
  let (data, _) ← lireLigne 25 0 t p
  (parseRazorAllAxis data x y z).map Balayage.sorties

theorem mesure_recue (hr : Recue 25 r) (t : Tampon) (suite : List Int8) (a : List (List Int8)) (x y z : ℚ) :
    mesure t ⟨r ++ suite, a⟩ x y z =
      some (balaye (t.stocke 0 r).octet 0 25 (.debut x y z)).sorties := by
  unfold mesure
  rw [lireLigne_recue hr]
  exact congrArg (Option.map _) (parseRazorAllAxis_eq _ x y z)

/-- **The bytes received decide the outputs**: they reach the end of the scan, or its last byte
with no flag set, and both digits of every point read with a flag set are among them. -/
structure SansRestes (r : List Int8) : Prop where
  longueur : 24 ≤ r.length
  fin : r.length = 24 → ¬ Ouvert r
  points : ∀ i, r.length ≤ i + 2 → r[i]? = some (car '.') → ¬ Ouvert (r.take i)

/-- The flags over a prefix of what is stored. -/
theorem actif_stocke (t : Tampon) (hr : r.length ≤ 25) {i : ℕ} (hi : i ≤ r.length) (x y z : ℚ) :
    (balaye (t.stocke 0 r).octet 0 i (.debut x y z)).actif = true ↔ Ouvert (r.take i) := by
  have hporte := porte_stocke t (i := 0) (l := r) (by omega)
  rw [← List.take_append_drop i r, porte_append] at hporte
  have h := actif_iff_ouvert hporte.1 x y z
  rwa [List.length_take, min_eq_left hi, List.take_append_drop] at h

theorem restes_suffit (hr : Recue 25 r) (h : SansRestes r) (t t' : Tampon) (x y z : ℚ) :
    (balaye (t.stocke 0 r).octet 0 25 (.debut x y z)).sorties =
      (balaye (t'.stocke 0 r).octet 0 25 (.debut x y z)).sorties := by
  have hle := hr.length_le
  have hb := borne_debut x y z
  have hporte := porte_stocke t (i := 0) (l := r) (by omega)
  have hporte' := porte_stocke t' (i := 0) (l := r) (by omega)
  have heq : ∀ j < r.length, (t.stocke 0 r).octet j = (t'.stocke 0 r).octet j := by
    intro j hj
    have hget := (hporte'.get hj).symm.trans (hporte.get hj)
    rw [zero_add] at hget
    exact (Option.some_inj.1 hget).symm
  have hs : balaye (t.stocke 0 r).octet 0 r.length (.debut x y z) =
      balaye (t'.stocke 0 r).octet 0 r.length (.debut x y z) := by
    refine balaye_congr hb heq fun k hk hpt ha => ?_
    -- the digits after the point are received
    have hlt : k + 2 < r.length := by
      by_contra hge
      have hget := hporte.get hk
      rw [zero_add, hpt] at hget
      exact h.points k (by omega) hget ((actif_stocke t hle hk.le x y z).1 ha)
    exact ⟨heq _ (by omega), heq _ hlt⟩
  rcases Nat.lt_or_ge r.length 25 with hlt | hge
  · -- the last iteration writes nothing
    have h24 : r.length = 24 := by have := h.longueur; omega
    have hinactif : (balaye (t.stocke 0 r).octet 0 24 (.debut x y z)).actif = false := by
      rw [← Bool.not_eq_true, actif_stocke t hle h24.ge, ← h24, List.take_length]
      exact h.fin h24
    rw [h24] at hs
    rw [balaye_concat _ 0 24, balaye_concat _ 0 24, sorties_avance fun _ => hinactif,
      sorties_avance fun _ => hs ▸ hinactif, hs]
  · rw [show r.length = 25 by omega] at hs
    rw [hs]

/-- One byte of the array shows in the outputs. -/
theorem mesure_ne (cnt : ℕ) (hr : Recue 25 r) (t : Tampon) (hcnt : cnt < 25) (hn : r.length ≤ cnt + 2) {x y z : ℚ}
    (ha : (balaye (t.stocke 0 r).octet 0 cnt (.debut x y z)).actif = true)
    (hpt : (t.stocke 0 r).octet cnt = car '.')
    (hsuite : cnt + 1 < 25 → (t.stocke 0 r).octet (cnt + 1) = car '.' →
      (balaye (t.stocke 0 r).octet 0 (cnt + 1) (.debut x y z)).actif = false)
    (hfin : ∀ k, cnt + 2 ≤ k → k < 30 → t.octet k = car '0') (suite : List Int8) (a : List (List Int8)) :
    mesure t ⟨r ++ suite, a⟩ x y z ≠ mesure (t.ecrit (cnt + 2) (car '1')) ⟨r ++ suite, a⟩ x y z := by
  have hle := hr.length_le
  have hecrit := octet_stocke_ecrit t (car '1') (l := r) (i := cnt + 2)
  have hzero : ∀ k, cnt + 2 ≤ k → k < 30 → (t.stocke 0 r).octet k = car '0' := fun k hk hk' =>
    (octet_stocke t (by omega) (.inr (by omega))).trans (hfin k hk hk')
  have h01 : car '0' ≠ car '1' ∧ car '0' ≠ car '.' ∧ car '1' ≠ car '.' := by decide
  rw [mesure_recue hr, mesure_recue hr]
  refine fun heq => sorties_ne (borne_debut x y z) hcnt ha hpt (fun j hj => ?_) ?_ hsuite (fun k hk hk' => ?_)
    (Option.some_inj.1 heq)
  · rw [hecrit j hn (by omega), if_neg (by omega)]
  · rw [hecrit _ hn (by omega), if_pos rfl, hzero _ le_rfl (by omega)]
    exact h01.1
  · rw [hecrit k hn (by omega), hzero k hk (by omega)]
    refine ⟨h01.2.1, ?_⟩
    split
    · exact h01.2.2
    · exact h01.2.1

/-- An array of `0`. -/
def Tampon.zeros : Tampon := ⟨List.replicate 30 (car '0'), List.length_replicate⟩

theorem octet_zeros {k : ℕ} (hk : k < 30) : Tampon.zeros.octet k = car '0' := by
  unfold Tampon.zeros Tampon.octet
  rw [List.getD_eq_getElem _ _ (by rw [List.length_replicate]; exact hk), List.getElem_replicate]

/-- **A line that leaves two bytes of the scan**: a `=` and a point there are taken for a number. -/
theorem reste_court (hr : Recue 25 r) (hn : r.length ≤ 23) (suite : List Int8) (a : List (List Int8)) (x y z : ℚ) :
    ∃ t t', mesure t ⟨r ++ suite, a⟩ x y z ≠ mesure t' ⟨r ++ suite, a⟩ x y z := by
  set t := (Tampon.zeros.ecrit r.length (car '=')).ecrit (r.length + 1) (car '.') with ht
  have hoctet : ∀ k, r.length ≤ k → k < 30 → (t.stocke 0 r).octet k = t.octet k := fun k hk _ =>
    octet_stocke t (by omega) (.inr (by omega))
  have hecrit : ∀ k, t.octet k =
      if r.length + 1 = k then car '.' else if r.length = k then car '=' else Tampon.zeros.octet k := fun k => by
    rw [ht, octet_ecrit _ _ _ (by omega), octet_ecrit _ _ _ (by omega)]
  have hzero : ∀ k, r.length + 1 + 1 ≤ k → k < 30 → t.octet k = car '0' := fun k hk hk' => by
    rw [hecrit, if_neg (by omega), if_neg (by omega), octet_zeros hk']
  have hegal : (t.stocke 0 r).octet r.length = car '=' := by
    rw [hoctet _ le_rfl (by omega), hecrit, if_neg (by omega), if_pos rfl]
  refine ⟨t, _, mesure_ne (r.length + 1) hr t (by omega) (by omega) ?_ ?_ ?_ ?_ suite a⟩
  · rw [balaye_concat, zero_add, avance_autre (by rw [hegal]; exact egal_ne_point)]
    simp [Balayage.actif, hegal]
  · rw [hoctet _ (by omega) (by omega), hecrit, if_pos rfl]
  · intro _ hpt
    rw [hoctet _ (by omega) (by omega), hzero _ le_rfl (by omega)] at hpt
    exact absurd hpt (by decide)
  · exact fun k hk hk' => hzero k (by omega) hk'

/-- **A line that leaves the last byte of the scan**: a point there ends a number. -/
theorem reste_fin (hr : Recue 25 r) (hn : r.length = 24) (ho : Ouvert r) (suite : List Int8)
    (a : List (List Int8)) (x y z : ℚ) :
    ∃ t t', mesure t ⟨r ++ suite, a⟩ x y z ≠ mesure t' ⟨r ++ suite, a⟩ x y z := by
  set t := Tampon.zeros.ecrit 24 (car '.') with ht
  refine ⟨t, _, mesure_ne 24 hr t (by omega) (by omega) ?_ ?_ ?_ ?_ suite a⟩
  · rw [actif_stocke t hr.length_le hn.ge, ← hn, List.take_length]
    exact ho
  · rw [octet_stocke t (by omega) (.inr (by omega)), ht, octet_ecrit _ _ _ (by omega), if_pos rfl]
  · exact fun h => absurd h (by omega)
  · intro k hk hk'
    rw [ht, octet_ecrit _ _ _ (by omega), if_neg (by omega), octet_zeros hk']

/-- **A point whose second digit is not received**, the last such point. -/
theorem reste_point (hr : Recue 25 r) {i : ℕ} (hn : r.length ≤ i + 2) (hi : r[i]? = some (car '.'))
    (ho : Ouvert (r.take i)) (hsuite : r[i + 1]? = some (car '.') → ¬ Ouvert (r.take (i + 1))) (suite : List Int8)
    (a : List (List Int8)) (x y z : ℚ) :
    ∃ t t', mesure t ⟨r ++ suite, a⟩ x y z ≠ mesure t' ⟨r ++ suite, a⟩ x y z := by
  have hle := hr.length_le
  have hlt : i < r.length := (List.getElem?_eq_some_iff.1 hi).1
  have hporte := porte_stocke Tampon.zeros (i := 0) (l := r) (by omega)
  refine ⟨Tampon.zeros, _, mesure_ne i hr _ (by omega) hn ?_ ?_ ?_ ?_ suite a⟩
  · exact (actif_stocke _ hle hlt.le x y z).2 ho
  · have hoctet := hporte i _ hi
    rwa [zero_add] at hoctet
  · intro _ hpt
    rcases Nat.lt_or_ge (i + 1) r.length with hlt' | hge
    · have hget := hporte.get hlt'
      rw [zero_add, hpt] at hget
      rw [← Bool.not_eq_true, actif_stocke _ hle hlt'.le]
      exact hsuite hget
    · rw [octet_stocke _ (by omega) (.inr (by omega)), octet_zeros (by omega)] at hpt
      exact absurd hpt (by decide)
  · exact fun k _ hk => octet_zeros hk

/-- **What the array held before has no effect exactly when the bytes received decide the outputs.** -/
theorem restes_iff (r : List Int8) (hr : Recue 25 r) (suite : List Int8) (a : List (List Int8)) (x y z : ℚ) :
    (∀ t t', mesure t ⟨r ++ suite, a⟩ x y z = mesure t' ⟨r ++ suite, a⟩ x y z) ↔ SansRestes r := by
  constructor
  · intro h
    have hne : ¬ ∃ t t', mesure t ⟨r ++ suite, a⟩ x y z ≠ mesure t' ⟨r ++ suite, a⟩ x y z :=
      fun ⟨t, t', hne⟩ => hne (h t t')
    refine ⟨?_, fun hn ho => hne (reste_fin hr hn ho suite a x y z), fun i hn hi ho => ?_⟩
    · by_contra hlt
      exact hne (reste_court hr (by omega) suite a x y z)
    · -- of two points in a row the second is the last
      by_cases hsuite : r[i + 1]? = some (car '.') ∧ Ouvert (r.take (i + 1))
      · refine hne (reste_point hr (by omega) hsuite.1 hsuite.2 (fun h2 => ?_) suite a x y z)
        exact absurd (List.getElem?_eq_some_iff.1 h2).1 (by omega)
      · exact hne (reste_point hr hn hi ho (fun h1 h2 => hsuite ⟨h1, h2⟩) suite a x y z)
  · intro h t t'
    rw [mesure_recue hr, mesure_recue hr, restes_suffit hr h t t']

/-- What is received of `#A-C=-100.00,-100.00,100.00`. -/
def ligneCoupee : List Int8 :=
  ['#', 'A', '-', 'C', '=', '-', '1', '0', '0', '.', '0', '0', ',', '-', '1', '0', '0', '.', '0', '0', ',',
    '1', '0', '0', '.'].map car

/-- The third number takes its digits from the array: 100.00 or 100.01. -/
theorem not_restes_coupee : ¬ ∀ r, Recue 25 r → ∀ suite a x y z t t',
    mesure t ⟨r ++ suite, a⟩ x y z = mesure t' ⟨r ++ suite, a⟩ x y z := by
  intro h
  have heq := h ligneCoupee (.inr (by decide)) (['0', '0', '\n'].map car) [] 0 0 0 .zeros
    (Tampon.zeros.ecrit 26 (car '1'))
  revert heq
  decide +kernel

/-- `#A-C=-12.34,-12.34,12.34` and its newline. -/
def ligneEntiere : List Int8 :=
  ['#', 'A', '-', 'C', '=', '-', '1', '2', '.', '3', '4', ',', '-', '1', '2', '.', '3', '4', ',',
    '1', '2', '.', '3', '4', '\n'].map car

theorem restes_iff_entiere : SansRestes ligneEntiere ∧ ∀ t t',
    mesure t ⟨ligneEntiere ++ [car '#'], []⟩ 0 0 0 = mesure t' ⟨ligneEntiere ++ [car '#'], []⟩ 0 0 0 := by
  have hr : Recue 25 ligneEntiere := .inl ⟨ligneEntiere.dropLast, rfl, by decide, by decide⟩
  have hpoints : ∀ i, ligneEntiere.length ≤ i + 2 → ligneEntiere[i]? = some (car '.') →
      ¬ Ouvert (ligneEntiere.take i) := by
    intro i hi hpt
    have hlt : i < 25 := (List.getElem?_eq_some_iff.1 hpt).1
    have hi' : 25 ≤ i + 2 := hi
    have hcas : i = 23 ∨ i = 24 := by omega
    rcases hcas with rfl | rfl
    · exact absurd hpt (by decide)
    · exact absurd hpt (by decide)
  have hs : SansRestes ligneEntiere := ⟨by decide, fun h => absurd h (by decide), hpoints⟩
  exact ⟨hs, (restes_iff ligneEntiere hr [car '#'] [] 0 0 0).2 hs⟩

end ICar
