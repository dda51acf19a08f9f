import ICar.Spec.Razor

/-!
# The scanner of a line

`parse_razor_all_axis` in closed form. Its three flags are a shift register: a `=` sets the
first, and a point moves each to the next one, writing the output of every flag that was set
(`avance`). The counter never exceeds the index (`Borne`), so no read leaves the array, and
the scan always has a result (`parseRazorAllAxis_eq`).

* `balaye_neutre`, `balaye_inactif`: what a piece of the line does that has no point, or that
  comes while no flag is set.
* `valeurAxe_congr`: a number depends on the bytes before its point and the two after it.
-/

namespace ICar

variable {o o' : ℕ → Int8} {b : Balayage} {cnt : ℕ} {nl : ℤ}

/-! ## Reading the array -/

/-- The byte at an index inside the array. -/
def Tampon.octet (data : Tampon) (i : ℕ) : Int8 := data.octets.getD i 0

theorem Tampon.lit_eq_octet (data : Tampon) {i : ℤ} {n : ℕ} (h : i = n) (hn : n < 30) : data.lit i = some (data.octet n) := by
  subst h
  unfold Tampon.lit Tampon.octet
  have hlt : n < data.octets.length := by rw [data.taille]; exact hn
  rw [if_pos (Int.natCast_nonneg n), Int.toNat_natCast, List.getElem?_eq_getElem hlt,
    List.getD_eq_getElem _ _ hlt]

/-- The value of a digit character. -/
def valeurChiffre (c : Int8) : ℚ := c.toInt - 48

theorem Tampon.chiffre_eq (data : Tampon) {i : ℤ} {n : ℕ} (h : i = n) (hn : n < 30) :
    data.chiffre i = some (valeurChiffre (data.octet n)) := by
  unfold Tampon.chiffre
  rw [data.lit_eq_octet h hn]
  rfl

/-- The two digits after the point. -/
def decimales (o : ℕ → Int8) (cnt : ℕ) : ℚ :=
  valeurChiffre (o (cnt + 1)) * (1 / 10) + valeurChiffre (o (cnt + 2)) * (1 / 100)

/-- The number whose point is at `cnt`, read from the bytes `o`. -/
def valeurAxe (o : ℕ → Int8) (cnt : ℕ) (nl : ℤ) : ℚ :=
  if nl = 5 then
    -(valeurChiffre (o (cnt - 3)) * 100 + valeurChiffre (o (cnt - 2)) * 10 + valeurChiffre (o (cnt - 1)) +
      decimales o cnt)
  else if nl = 4 then
    if o (cnt - 3) = car '-' then
      -(valeurChiffre (o (cnt - 2)) * 10 + valeurChiffre (o (cnt - 1)) + decimales o cnt)
    else
      valeurChiffre (o (cnt - 3)) * 100 + valeurChiffre (o (cnt - 2)) * 10 + valeurChiffre (o (cnt - 1)) +
        decimales o cnt
  else if nl = 3 then
    if o (cnt - 2) = car '-' then -(valeurChiffre (o (cnt - 1)) + decimales o cnt)
    else valeurChiffre (o (cnt - 2)) * 10 + valeurChiffre (o (cnt - 1)) + decimales o cnt
  else valeurChiffre (o (cnt - 1)) + decimales o cnt

/-- **A number is read inside the array** when its point is not at the start, and its length
not more than the index. -/
theorem parseRazorOneAxis_eq (data : Tampon) (h1 : 1 ≤ cnt) (hnl : nl ≤ cnt) (hcnt : cnt < 28) :
    parseRazorOneAxis data cnt nl = some (valeurAxe data.octet cnt nl) := by
  have hm1 := data.chiffre_eq (i := (cnt : ℤ) - 1) (n := cnt - 1) (by omega) (by omega)
  have hp1 := data.chiffre_eq (i := (cnt : ℤ) + 1) (n := cnt + 1) (by omega) (by omega)
  have hp2 := data.chiffre_eq (i := (cnt : ℤ) + 2) (n := cnt + 2) (by omega) (by omega)
  unfold parseRazorOneAxis valeurAxe
  split
  · have hm2 := data.chiffre_eq (i := (cnt : ℤ) - 2) (n := cnt - 2) (by omega) (by omega)
    have hm3 := data.chiffre_eq (i := (cnt : ℤ) - 3) (n := cnt - 3) (by omega) (by omega)
    simp [hm1, hm2, hm3, hp1, hp2, decimales, add_assoc]
  · have hm2 := data.chiffre_eq (i := (cnt : ℤ) - 2) (n := cnt - 2) (by omega) (by omega)
    have hm3 := data.chiffre_eq (i := (cnt : ℤ) - 3) (n := cnt - 3) (by omega) (by omega)
    have hl3 := data.lit_eq_octet (i := (cnt : ℤ) - 3) (n := cnt - 3) (by omega) (by omega)
    by_cases hneg : data.octet (cnt - 3) = car '-' <;>
      simp [hl3, hneg, hm1, hm2, hm3, hp1, hp2, decimales, add_assoc]
  · have hm2 := data.chiffre_eq (i := (cnt : ℤ) - 2) (n := cnt - 2) (by omega) (by omega)
    have hl2 := data.lit_eq_octet (i := (cnt : ℤ) - 2) (n := cnt - 2) (by omega) (by omega)
    by_cases hneg : data.octet (cnt - 2) = car '-' <;>
      simp [hl2, hneg, hm1, hm2, hp1, hp2, decimales, add_assoc]
  · rename_i h5 h4 h3
    rw [if_neg h5, if_neg h4, if_neg h3]
    simp [hm1, hp1, hp2, decimales, add_assoc]

/-- A number depends on the bytes before its point and the two after it. -/
theorem valeurAxe_congr (h1 : 1 ≤ cnt) (h : ∀ i, i < cnt → o i = o' i) (ha : o (cnt + 1) = o' (cnt + 1))
    (hb : o (cnt + 2) = o' (cnt + 2)) (nl : ℤ) : valeurAxe o cnt nl = valeurAxe o' cnt nl := by
  unfold valeurAxe decimales
  rw [h (cnt - 3) (by omega), h (cnt - 2) (by omega), h (cnt - 1) (by omega), ha, hb]

/-! ## One iteration -/

namespace Balayage

/-- A flag is set. -/
def actif (b : Balayage) : Bool := b.xParse || b.yParse || b.zParse

/-- The three outputs. -/
def sorties (b : Balayage) : ℚ × ℚ × ℚ := (b.dataX, b.dataY, b.dataZ)

/-- The counter at the tests of an iteration. -/
def longueur (b : Balayage) : ℤ := if b.actif then b.numberLength + 1 else b.numberLength

end Balayage

/-- **The effect of an iteration.** A point writes every output whose flag is set and moves the
flags on; another byte leaves the outputs as they are. -/
def avance (o : ℕ → Int8) (b : Balayage) (cnt : ℕ) : Balayage :=
  let nl := b.longueur
  -- the counter is back at -3 when the test on `x` follows a number on `y`
  let nlx := if b.yParse then -3 else nl
  if o cnt = car '.' then
    { numberLength := if b.xParse || b.yParse then -3 else nl
      xParse := false
      yParse := b.xParse
      zParse := b.yParse
      dataX := if b.xParse then valeurAxe o cnt nlx else b.dataX
      dataY := if b.yParse then valeurAxe o cnt nl else b.dataY
      dataZ := if b.zParse then valeurAxe o cnt nl else b.dataZ
      ecrits := b.ecrits ++ (if b.zParse then [(.z, cnt, nl)] else []) ++
        (if b.yParse then [(.y, cnt, nl)] else []) ++ (if b.xParse then [(.x, cnt, nlx)] else []) }
  else { b with numberLength := nl, xParse := b.xParse || decide (o cnt = car '=') }

/-- The counter is at most the index, and less when a flag is set. -/
structure Borne (b : Balayage) (cnt : ℕ) : Prop where
  nl : b.numberLength ≤ cnt
  actif : b.actif = true → 1 ≤ cnt ∧ b.numberLength + 1 ≤ cnt

theorem Borne.longueur_le (h : Borne b cnt) : b.longueur ≤ cnt := by
  unfold Balayage.longueur
  split
  · rename_i ha
    exact (h.actif ha).2
  · exact h.nl

theorem Borne.avance (h : Borne b cnt) (o : ℕ → Int8) : Borne (avance o b cnt) (cnt + 1) := by
  have hl := h.longueur_le
  unfold ICar.avance
  dsimp only
  split
  · refine ⟨?_, fun _ => ⟨Nat.le_add_left 1 cnt, ?_⟩⟩ <;> dsimp only <;> push_cast <;> split <;> omega
  · refine ⟨?_, fun _ => ⟨Nat.le_add_left 1 cnt, ?_⟩⟩ <;> dsimp only <;> push_cast <;> omega

theorem egal_ne_point : ¬ car '=' = car '.' := by decide

/-- An iteration with a flag set, in the array. -/
theorem tourAxes_actif (data : Tampon) (h : Borne b cnt) (hcnt : cnt < 28) (ha : b.actif = true) :
    tourAxes data b cnt = some (avance data.octet b cnt) := by
  have hlit : data.lit cnt = some (data.octet cnt) := data.lit_eq_octet rfl (by omega)
  obtain ⟨h1, hnl⟩ := h.actif ha
  have hp := parseRazorOneAxis_eq data h1 hnl hcnt
  have hp3 : parseRazorOneAxis data cnt (-3) = some (valeurAxe data.octet cnt (-3)) :=
    parseRazorOneAxis_eq data h1 (by omega) hcnt
  obtain ⟨nl, x, y, z, dx, dy, dz, e⟩ := b
  dsimp only at hp
  by_cases hd : data.octet cnt = car '.'
  · cases x <;> cases y <;> cases z <;>
      simp [tourAxes, avance, Balayage.longueur, Balayage.actif, hlit, hd, Ne.symm egal_ne_point, hp, hp3] at ha ⊢
  · by_cases he : data.octet cnt = car '='
    · cases x <;> cases y <;> cases z <;>
        simp [tourAxes, avance, Balayage.longueur, Balayage.actif, hlit, he, egal_ne_point] at ha ⊢
    · cases x <;> cases y <;> cases z <;>
        simp [tourAxes, avance, Balayage.longueur, Balayage.actif, hlit, hd, he] at ha ⊢

/-- While no flag is set only a `=` has an effect. -/
theorem tourAxes_inactif (data : Tampon) (hcnt : cnt < 28) (ha : b.actif = false) :
    tourAxes data b cnt = some (avance data.octet b cnt) := by
  have hlit : data.lit cnt = some (data.octet cnt) := data.lit_eq_octet rfl (by omega)
  obtain ⟨nl, x, y, z, dx, dy, dz, e⟩ := b
  obtain ⟨⟨rfl, rfl⟩, rfl⟩ : (x = false ∧ y = false) ∧ z = false := by simpa [Balayage.actif] using ha
  by_cases hd : data.octet cnt = car '.'
  · simp [tourAxes, avance, Balayage.longueur, Balayage.actif, hlit, hd, Ne.symm egal_ne_point]
  · by_cases he : data.octet cnt = car '='
    · simp [tourAxes, avance, Balayage.longueur, Balayage.actif, hlit, he, egal_ne_point]
    · simp [tourAxes, avance, Balayage.longueur, Balayage.actif, hlit, hd, he]

/-- **An iteration within the array.** -/
theorem tourAxes_eq (data : Tampon) (h : Borne b cnt) (hcnt : cnt < 28) :
    tourAxes data b cnt = some (avance data.octet b cnt) := by
  cases ha : b.actif with
  | true => exact tourAxes_actif data h hcnt ha
  | false => exact tourAxes_inactif data hcnt ha

/-! ## The scan -/

/-- The iterations from index `p` on, `n` of them. -/
def balaye (o : ℕ → Int8) (p n : ℕ) (b : Balayage) : Balayage := (List.range' p n).foldl (avance o) b

@[simp] theorem balaye_zero (o : ℕ → Int8) (p : ℕ) (b : Balayage) : balaye o p 0 b = b := rfl

theorem balaye_succ (o : ℕ → Int8) (p n : ℕ) (b : Balayage) :
    balaye o p (n + 1) b = balaye o (p + 1) n (avance o b p) := by
  unfold balaye
  rw [List.range'_succ]
  rfl

theorem balaye_add (o : ℕ → Int8) (p n m : ℕ) (b : Balayage) :
    balaye o p (n + m) b = balaye o (p + n) m (balaye o p n b) := by
  unfold balaye
  rw [← List.range'_append_1, List.foldl_append]

theorem balaye_concat (o : ℕ → Int8) (p n : ℕ) (b : Balayage) :
    balaye o p (n + 1) b = avance o (balaye o p n b) (p + n) := by
  rw [balaye_add]
  rfl

/-- The state before the first iteration. -/
def Balayage.debut (x y z : ℚ) : Balayage := { dataX := x, dataY := y, dataZ := z }

theorem borne_debut (x y z : ℚ) : Borne (.debut x y z) 0 := ⟨le_rfl, fun h => by cases h⟩

/-- **The iterations within the array**: below 28 the two bytes after a point are in it. -/
theorem foldlM_tourAxes (data : Tampon) {p n : ℕ} (hb : Borne b p) (hn : p + n ≤ 28) :
    (List.range' p n).foldlM (tourAxes data) b = some (balaye data.octet p n b) := by
  induction n generalizing p b with
  | zero => rfl
  | succ n ih =>
    rw [List.range'_succ, List.foldlM_cons, tourAxes_eq data hb (by omega), balaye_succ]
    exact ih (hb.avance _) (by omega)

/-- **The scan always has a result**: that of the iterations in closed form. -/
theorem parseRazorAllAxis_eq (data : Tampon) (x y z : ℚ) :
    parseRazorAllAxis data x y z = some (balaye data.octet 0 25 (.debut x y z)) := by
  have h := foldlM_tourAxes data (n := 25) (borne_debut x y z) (by decide)
  rwa [← List.range_eq_range'] at h

/-- The state after `n` iterations is within its bound. -/
theorem borne_balaye {p : ℕ} (h : Borne b p) (o : ℕ → Int8) (n : ℕ) : Borne (balaye o p n b) (p + n) := by
  induction n with
  | zero => exact h
  | succ n ih =>
    rw [balaye_concat]
    exact ih.avance o

/-! ## What writes nothing -/

/-- A byte that is not a point writes nothing. -/
theorem avance_autre (h : o cnt ≠ car '.') : avance o b cnt =
    { b with numberLength := b.longueur, xParse := b.xParse || decide (o cnt = car '=') } := by
  unfold avance
  rw [if_neg h]

/-- Nor does a point while no flag is set. -/
theorem sorties_avance (h : o cnt = car '.' → b.actif = false) : (avance o b cnt).sorties = b.sorties := by
  by_cases hd : o cnt = car '.'
  · obtain ⟨nl, x, y, z, dx, dy, dz, e⟩ := b
    obtain ⟨⟨rfl, rfl⟩, rfl⟩ : (x = false ∧ y = false) ∧ z = false := by simpa [Balayage.actif] using h hd
    simp [avance, Balayage.sorties, hd]
  · rw [avance_autre hd]
    rfl

/-- **The outputs stay** over iterations that meet no point with a flag set. -/
theorem sorties_balaye {p n : ℕ} (h : ∀ k < n, o (p + k) = car '.' → (balaye o p k b).actif = false) :
    (balaye o p n b).sorties = b.sorties := by
  induction n with
  | zero => rfl
  | succ n ih =>
    rw [balaye_concat, sorties_avance (h n (Nat.lt_succ_self n))]
    exact ih fun k hk => h k (Nat.lt_succ_of_lt hk)

/-! ## Pieces of a line -/

/-- The bytes from `p` on are those of the list. -/
def Porte (o : ℕ → Int8) (p : ℕ) (l : List Int8) : Prop := ∀ i c, l[i]? = some c → o (p + i) = c

theorem porte_nil (o : ℕ → Int8) (p : ℕ) : Porte o p [] := fun i c hi => by cases hi

/-- The byte of a piece at an index. -/
theorem Porte.get {p i : ℕ} {l : List Int8} (h : Porte o p l) (hi : i < l.length) : l[i]? = some (o (p + i)) := by
  rw [h i l[i] (List.getElem?_eq_getElem hi), List.getElem?_eq_getElem hi]

theorem porte_append {p : ℕ} {l l' : List Int8} :
    Porte o p (l ++ l') ↔ Porte o p l ∧ Porte o (p + l.length) l' := by
  constructor
  · intro h
    refine ⟨fun i c hi => h i c ?_, fun i c hi => ?_⟩
    · rw [List.getElem?_append_left (List.getElem?_eq_some_iff.1 hi).1, hi]
    · rw [add_assoc]
      refine h _ c ?_
      rw [List.getElem?_append_right (Nat.le_add_right _ _), Nat.add_sub_cancel_left, hi]
  · rintro ⟨h, h'⟩ i c hi
    rcases lt_or_ge i l.length with hlt | hge
    · rw [List.getElem?_append_left hlt] at hi
      exact h i c hi
    · rw [List.getElem?_append_right hge] at hi
      have := h' _ c hi
      rwa [add_assoc, Nat.add_sub_cancel' hge] at this

theorem porte_cons {p : ℕ} {c : Int8} {l : List Int8} : Porte o p (c :: l) ↔ o p = c ∧ Porte o (p + 1) l := by
  rw [← List.singleton_append, porte_append, List.length_singleton]
  refine and_congr_left fun _ => ⟨fun h => h 0 c rfl, fun h i d hi => ?_⟩
  cases i with
  | zero => cases hi; exact h
  | succ i => cases hi

/-- **A piece without point or `=`** only moves the counter on, and only if a flag is set. -/
theorem balaye_neutre {p : ℕ} {l : List Int8} (hl : ∀ c ∈ l, c ≠ car '.' ∧ c ≠ car '=') (h : Porte o p l)
    (b : Balayage) : balaye o p l.length b =
      { b with numberLength := b.numberLength + if b.actif then (l.length : ℤ) else 0 } := by
  induction l generalizing p b with
  | nil => simp
  | cons c l ih =>
    obtain ⟨hc, hl⟩ := List.forall_mem_cons.1 hl
    obtain ⟨ho, h⟩ := porte_cons.1 h
    have hstep : avance o b p = { b with numberLength := b.longueur } := by
      rw [avance_autre (ho ▸ hc.1), ho]
      simp [hc.2]
    rw [List.length_cons, balaye_succ, hstep, ih hl h]
    unfold Balayage.longueur
    cases ha : b.actif with
    | false => simp [Balayage.actif] at ha ⊢; simp [ha]
    | true =>
      have ha' : ({ b with numberLength := b.numberLength + 1 } : Balayage).actif = true := ha
      simp only [if_true, ha']
      congr 1
      push_cast
      ring

/-- **A piece without `=`** does nothing while no flag is set. -/
theorem balaye_inactif {p : ℕ} {l : List Int8} (hl : car '=' ∉ l) (h : Porte o p l) (ha : b.actif = false) :
    balaye o p l.length b = b := by
  induction l generalizing p with
  | nil => rfl
  | cons c l ih =>
    rw [List.mem_cons, not_or] at hl
    obtain ⟨ho, h⟩ := porte_cons.1 h
    have hstep : avance o b p = b := by
      obtain ⟨nl, x, y, z, dx, dy, dz, e⟩ := b
      obtain ⟨⟨rfl, rfl⟩, rfl⟩ : (x = false ∧ y = false) ∧ z = false := by simpa [Balayage.actif] using ha
      by_cases hd : c = car '.'
      · simp [avance, Balayage.longueur, Balayage.actif, ho, hd]
      · simp [avance, Balayage.longueur, Balayage.actif, ho, hd, Ne.symm hl.1]
    rw [List.length_cons, balaye_succ, hstep]
    exact ih hl.2 h

end ICar
