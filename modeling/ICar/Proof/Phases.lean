import ICar.Proof.Balayage

/-!
# The phases of the scanner

* `lectures_dans_tampon`: over any array, every read of `parse_razor_all_axis` and of the calls
  of `parse_razor_one_axis` that it makes is inside the array. The counter never exceeds the
  index (`Borne`), which no test of the code checks.
* `quatre_phases`: over an array with one `=` in its first 25 bytes the scanner goes through
  four phases, before the `=` and one for each number, and ends in the first. The points after
  the `=` move it on; the first three write one output each, and nothing else writes.
-/

namespace ICar

variable {o : ℕ → Int8} {b : Balayage} {p k : ℕ} {x y z : ℚ}

/-! ## The indices read -/

/-- The indices at which `parse_razor_one_axis` reads. -/
def indicesLus (cnt numberLength : ℤ) : List ℤ :=
  match numberLength with
  | 5 | 4 => [cnt - 3, cnt - 2, cnt - 1, cnt + 1, cnt + 2]
  | 3 => [cnt - 2, cnt - 1, cnt + 1, cnt + 2]
  | _ => [cnt - 1, cnt + 1, cnt + 2]

theorem lit_isSome (data : Tampon) (i : ℤ) : (data.lit i).isSome = true ↔ 0 ≤ i ∧ i < 30 := by
  unfold Tampon.lit
  split
  · rw [Option.isSome_iff_ne_none, Ne, List.getElem?_eq_none_iff, data.taille]
    omega
  · rename_i h
    exact iff_of_false Bool.false_ne_true fun hi => h hi.1

theorem chiffre_isSome (data : Tampon) (i : ℤ) : (data.chiffre i).isSome = true ↔ 0 ≤ i ∧ i < 30 := by
  unfold Tampon.chiffre
  rw [Option.isSome_map, lit_isSome]

/-- A read and what follows it. -/
theorem isSome_lit_bind {α : Type*} {data : Tampon} {i : ℤ} {f : Int8 → Option α} {P : Prop}
    (h : 0 ≤ i ∧ i < 30 → ∀ c, (f c).isSome = true ↔ P) :
    ((data.lit i).bind f).isSome = true ↔ (0 ≤ i ∧ i < 30) ∧ P := by
  rw [← lit_isSome data] at h ⊢
  cases hc : data.lit i with
  | none => simp
  | some c =>
    rw [hc] at h
    simp [h rfl c]

theorem isSome_chiffre_bind {α : Type*} {data : Tampon} {i : ℤ} {f : ℚ → Option α} {P : Prop}
    (h : ∀ q, (f q).isSome = true ↔ P) : ((data.chiffre i).bind f).isSome = true ↔ (0 ≤ i ∧ i < 30) ∧ P := by
  rw [← chiffre_isSome data]
  cases hc : data.chiffre i with
  | none => simp
  | some q => simp [h q]

/-- The two digits after the point come last. -/
theorem isSome_decimales {data : Tampon} {cnt : ℤ} (f : ℚ → ℚ → ℚ) :
    ((data.chiffre (cnt + 1)).bind fun q => (data.chiffre (cnt + 2)).bind fun r => some (f q r)).isSome = true ↔
      (0 ≤ cnt + 1 ∧ cnt + 1 < 30) ∧ (0 ≤ cnt + 2 ∧ cnt + 2 < 30) ∧ True :=
  isSome_chiffre_bind fun _ => isSome_chiffre_bind fun _ => iff_of_true rfl trivial

/-- **A call has a result exactly when its reads are inside the array.** -/
theorem parseRazorOneAxis_isSome (data : Tampon) (cnt nl : ℤ) :
    (parseRazorOneAxis data cnt nl).isSome = true ↔ ∀ i ∈ indicesLus cnt nl, 0 ≤ i ∧ i < 30 := by
  unfold parseRazorOneAxis indicesLus
  simp only [Option.bind_eq_bind, Option.pure_def]
  split
  · refine (isSome_chiffre_bind fun _ => isSome_chiffre_bind fun _ => isSome_chiffre_bind fun _ =>
      isSome_decimales _).trans ?_
    simp only [List.forall_mem_cons, List.not_mem_nil, false_imp_iff, implies_true]
  · refine (isSome_lit_bind (P := ∀ i ∈ [cnt - 2, cnt - 1, cnt + 1, cnt + 2], 0 ≤ i ∧ i < 30)
      fun h c => ?_).trans ?_
    · split
      · refine (isSome_chiffre_bind fun _ => isSome_chiffre_bind fun _ => isSome_decimales _).trans ?_
        simp only [List.forall_mem_cons, List.not_mem_nil, false_imp_iff, implies_true]
      · refine (isSome_chiffre_bind fun _ => isSome_chiffre_bind fun _ => isSome_chiffre_bind fun _ =>
          isSome_decimales _).trans ?_
        simp only [List.forall_mem_cons, List.not_mem_nil, false_imp_iff, implies_true, h, true_and]
    · simp only [List.forall_mem_cons]
  · refine (isSome_lit_bind (P := ∀ i ∈ [cnt - 1, cnt + 1, cnt + 2], 0 ≤ i ∧ i < 30) fun h c => ?_).trans ?_
    · split
      · refine (isSome_chiffre_bind fun _ => isSome_decimales _).trans ?_
        simp only [List.forall_mem_cons, List.not_mem_nil, false_imp_iff, implies_true]
      · refine (isSome_chiffre_bind fun _ => isSome_chiffre_bind fun _ => isSome_decimales _).trans ?_
        simp only [List.forall_mem_cons, List.not_mem_nil, false_imp_iff, implies_true, h, true_and]
    · simp only [List.forall_mem_cons]
  · refine (isSome_chiffre_bind fun _ => isSome_decimales _).trans ?_
    simp only [List.forall_mem_cons, List.not_mem_nil, false_imp_iff, implies_true]

/-- The reads of a call in bounds, by its index and length. -/
theorem indicesLus_dans {cnt : ℕ} {nl : ℤ} (h1 : 1 ≤ cnt) (hnl : nl ≤ cnt) (hcnt : cnt < 28) :
    ∀ i ∈ indicesLus cnt nl, 0 ≤ i ∧ i < 30 := by
  unfold indicesLus
  split <;> simp only [List.forall_mem_cons, List.not_mem_nil, false_imp_iff, implies_true, and_true] <;> omega

/-- The calls of an iteration are made at its index, with a flag set. -/
theorem mem_ecrits_avance {cnt : ℕ} {e : Axe × ℕ × ℤ} (h : e ∈ (avance o b cnt).ecrits) :
    e ∈ b.ecrits ∨ b.actif = true ∧ e.2.1 = cnt ∧ (e.2.2 = b.longueur ∨ e.2.2 = -3) := by
  by_cases hd : o cnt = car '.'
  · obtain ⟨nl, x, y, z, dx, dy, dz, l⟩ := b
    unfold avance at h
    rw [if_pos hd] at h
    cases x <;> cases y <;> cases z <;> simp [Balayage.actif] at h ⊢ <;> grind
  · rw [avance_autre hd] at h
    exact .inl h

/-- **The calls of a scan**: each has a byte before its point, and its length is at most its index. -/
theorem ecrits_borne (hb : Borne b 0) (he : b.ecrits = []) (o : ℕ → Int8) (n : ℕ) :
    ∀ e ∈ (balaye o 0 n b).ecrits, 1 ≤ e.2.1 ∧ e.2.1 < n ∧ e.2.2 ≤ e.2.1 := by
  induction n with
  | zero =>
    intro e hmem
    rw [balaye_zero, he] at hmem
    exact absurd hmem List.not_mem_nil
  | succ n ih =>
    have hborne := borne_balaye hb o n
    have hl := hborne.longueur_le
    intro e hmem
    rw [balaye_concat] at hmem
    rcases mem_ecrits_avance hmem with hmem | ⟨ha, hcnt, hnl⟩
    · obtain ⟨h1, hlt, hle⟩ := ih e hmem
      exact ⟨h1, by omega, hle⟩
    · have hpos := (hborne.actif ha).1
      rw [zero_add] at hcnt hpos hl
      exact ⟨by omega, by omega, by omega⟩

/-- **The parser reads inside its array**, whatever the array holds: the scan has a result, so
none of its reads is outside, and the indices of every call that it makes lie in 0..29. These are
the indices that decide whether a call has a result. -/
theorem lectures_dans_tampon (data : Tampon) (x y z : ℚ) : ∃ b, parseRazorAllAxis data x y z = some b ∧
    (∀ e ∈ b.ecrits, ∀ i ∈ indicesLus e.2.1 e.2.2, 0 ≤ i ∧ i < 30) ∧
    ∀ cnt nl, (parseRazorOneAxis data cnt nl).isSome = true ↔ ∀ i ∈ indicesLus cnt nl, 0 ≤ i ∧ i < 30 := by
  refine ⟨_, parseRazorAllAxis_eq data x y z, fun e he => ?_, parseRazorOneAxis_isSome data⟩
  obtain ⟨h1, hlt, hle⟩ := ecrits_borne (borne_debut x y z) rfl data.octet 25 e he
  exact indicesLus_dans h1 hle (by omega)

/-! ## The four phases -/

/-- The points of the first `k` bytes that come after the index `p`. -/
def points (o : ℕ → Int8) (p k : ℕ) : List ℕ := (List.range k).filter fun d => p < d ∧ o d = car '.'

/-- **The writes to expect** for a `=` at `p` and the points after it: one for each of the first
three, with the bytes from the `=`, or from the point before less 3, to it. -/
def ecritsAttendus (p : ℕ) : List ℕ → List (Axe × ℕ × ℤ)
  | [] => []
  | [d] => [(.x, d, d - p)]
  | [d, d'] => [(.x, d, d - p), (.y, d', d' - d - 3)]
  | d :: d' :: d'' :: _ => [(.x, d, d - p), (.y, d', d' - d - 3), (.z, d'', d'' - d' - 3)]

/-- What an output holds after the writes listed, from the value `v`. -/
def valeurEcrite (data : Tampon) (ecrits : List (Axe × ℕ × ℤ)) (a : Axe) (v : ℚ) : Option ℚ :=
  match ecrits.find? fun e => e.1 = a with
  | some e => parseRazorOneAxis data e.2.1 e.2.2
  | none => some v

/-- No two of the three flags are set. -/
def Balayage.UnDrapeau (b : Balayage) : Prop :=
  (b.xParse = false ∨ b.yParse = false) ∧ (b.xParse = false ∨ b.zParse = false) ∧
    (b.yParse = false ∨ b.zParse = false)

/-- The phase after `k` iterations, by the points met since the `=`. -/
def phase (o : ℕ → Int8) (p k : ℕ) (x y z : ℚ) (l : List ℕ) : Balayage :=
  { numberLength := match l with
      | [] => k - 1 - p
      | [d] => k - 1 - d - 3
      | [_, d'] => k - 1 - d' - 3
      | _ :: d' :: d'' :: _ => d'' - d' - 3
    xParse := l.length = 0
    yParse := l.length = 1
    zParse := l.length = 2
    dataX := match l with
      | d :: _ => valeurAxe o d (d - p)
      | _ => x
    dataY := match l with
      | d :: d' :: _ => valeurAxe o d' (d' - d - 3)
      | _ => y
    dataZ := match l with
      | _ :: d' :: d'' :: _ => valeurAxe o d'' (d'' - d' - 3)
      | _ => z
    ecrits := ecritsAttendus p l }

theorem points_succ (o : ℕ → Int8) {p k : ℕ} (hk : p < k) :
    points o p (k + 1) = points o p k ++ if o k = car '.' then [k] else [] := by
  unfold points
  rw [List.range_succ, List.filter_append]
  by_cases hd : o k = car '.' <;> simp [hk, hd]

theorem points_egal (o : ℕ → Int8) (p : ℕ) : points o p (p + 1) = [] := by
  unfold points
  rw [List.filter_eq_nil_iff]
  intro d hd
  rw [List.mem_range] at hd
  rw [decide_eq_true_iff]
  omega

/-- A point moves the phase on; another byte keeps it. -/
theorem avance_phase (he : o k ≠ car '=') (x y z : ℚ) (l : List ℕ) :
    avance o (phase o p k x y z l) k = phase o p (k + 1) x y z (l ++ if o k = car '.' then [k] else []) := by
  have hx : (k : ℤ) - 1 - p + 1 = k - p := by ring
  have hy (d : ℕ) : (k : ℤ) - 1 - d - 3 + 1 = k - d - 3 := by ring
  by_cases hd : o k = car '.'
  · rw [if_pos hd]
    unfold avance
    rw [if_pos hd]
    match l with
    | [] => simp [phase, Balayage.longueur, Balayage.actif, ecritsAttendus, hx]
    | [d] => simp [phase, Balayage.longueur, Balayage.actif, ecritsAttendus, hy]
    | [d, d'] => simp [phase, Balayage.longueur, Balayage.actif, ecritsAttendus, hy]
    | d :: d' :: d'' :: l => simp [phase, Balayage.longueur, Balayage.actif, ecritsAttendus]
  · rw [if_neg hd, List.append_nil, avance_autre hd]
    match l with
    | [] => simp [phase, Balayage.longueur, Balayage.actif, he, hx]
    | [d] => simp [phase, Balayage.longueur, Balayage.actif, he, hy]
    | [d, d'] => simp [phase, Balayage.longueur, Balayage.actif, he, hy]
    | d :: d' :: d'' :: l => simp [phase, Balayage.longueur, Balayage.actif, he]

/-- Before the `=` nothing changes. -/
theorem balaye_avant {n : ℕ} (h : ∀ q < n, o q ≠ car '=') (x y z : ℚ) :
    balaye o 0 n (.debut x y z) = .debut x y z := by
  have hmem : car '=' ∉ (List.range n).map o := by
    rw [List.mem_map]
    rintro ⟨q, hq, hqe⟩
    exact h q (List.mem_range.1 hq) hqe
  have hporte : Porte o 0 ((List.range n).map o) := by
    intro i c hi
    rw [List.getElem?_map, Option.map_eq_some_iff] at hi
    obtain ⟨q, hq, rfl⟩ := hi
    obtain ⟨hlt, rfl⟩ := List.getElem?_eq_some_iff.1 hq
    rw [List.getElem_range, zero_add]
  have hscan := balaye_inactif hmem hporte (b := .debut x y z) rfl
  rwa [List.length_map, List.length_range] at hscan

/-- **The scan after a `=`** is in the phase given by the points met since. -/
theorem balaye_phase {n : ℕ} (h : ∀ q < n, o q = car '=' ↔ q = p) (x y z : ℚ) {k : ℕ} (hpk : p < k) (hkn : k ≤ n) :
    balaye o 0 k (.debut x y z) = phase o p k x y z (points o p k) := by
  induction k, hpk using Nat.le_induction with
  | base =>
    have he : o p = car '=' := (h p hkn).2 rfl
    have havant : ∀ q < p, o q ≠ car '=' := fun q hq hqe => hq.ne ((h q (hq.trans hkn)).1 hqe)
    rw [balaye_concat, zero_add, balaye_avant havant, points_egal, avance_autre (he ▸ egal_ne_point)]
    simp [phase, Balayage.debut, Balayage.longueur, Balayage.actif, ecritsAttendus, he]
  | succ k hk ih =>
    have he : o k ≠ car '=' := fun hke => (Nat.lt_of_succ_le hk).ne' ((h k hkn).1 hke)
    rw [balaye_concat, zero_add, ih (Nat.le_of_succ_le hkn), avance_phase he, points_succ o hk]

theorem unDrapeau_phase (o : ℕ → Int8) (p k : ℕ) (x y z : ℚ) (l : List ℕ) : (phase o p k x y z l).UnDrapeau := by
  unfold Balayage.UnDrapeau phase
  simp only [decide_eq_false_iff_not]
  omega

/-- **At most one flag is set** after any number of iterations. -/
theorem unDrapeau_balaye {n : ℕ} (h : ∀ q < n, o q = car '=' ↔ q = p) (x y z : ℚ) {k : ℕ} (hkn : k ≤ n) :
    (balaye o 0 k (.debut x y z)).UnDrapeau := by
  rcases lt_or_ge p k with hpk | hkp
  · rw [balaye_phase h x y z hpk hkn]
    exact unDrapeau_phase o p k x y z _
  · have havant : ∀ q < k, o q ≠ car '=' := fun q hq hqe => by
      have := (h q (by omega)).1 hqe
      omega
    rw [balaye_avant havant]
    exact ⟨.inl rfl, .inl rfl, .inl rfl⟩

/-- The outputs of a phase are those of its writes. -/
theorem valeurEcrite_phase {data : Tampon} {k : ℕ} (hk : k < 28) (x y z : ℚ) :
    let b := phase data.octet p k x y z (points data.octet p k)
    valeurEcrite data b.ecrits .x x = some b.dataX ∧ valeurEcrite data b.ecrits .y y = some b.dataY ∧
      valeurEcrite data b.ecrits .z z = some b.dataZ := by
  -- a point is after the `=`, so the length passed is at most its index
  have hval (d : ℕ) (hd : d ∈ points data.octet p k) (nl : ℤ) (hnl : nl ≤ d) :
      parseRazorOneAxis data d nl = some (valeurAxe data.octet d nl) := by
    rw [points, List.mem_filter, List.mem_range, decide_eq_true_iff] at hd
    exact parseRazorOneAxis_eq data (Nat.one_le_of_lt hd.2.1) hnl (hd.1.trans hk)
  have hx (d : ℕ) (hd : d ∈ points data.octet p k) := hval d hd (d - p) (by omega)
  have hyz (d d' : ℕ) (hd' : d' ∈ points data.octet p k) := hval d' hd' (d' - d - 3) (by omega)
  dsimp only
  generalize points data.octet p k = l at hx hyz
  match l with
  | [] => exact ⟨rfl, rfl, rfl⟩
  | [d] => exact ⟨hx d (by simp), rfl, rfl⟩
  | [d, d'] => exact ⟨hx d (by simp), hyz d d' (by simp), rfl⟩
  | d :: d' :: d'' :: l => exact ⟨hx d (by simp), hyz d d' (by simp), hyz d' d'' (by simp)⟩

/-- **The scanner is a machine of four phases.** With one `=` in the first 25 bytes, at `p`: no
iteration starts with two flags set; the writes are those of the first three points after `p`;
and each output holds the value of its write, or what it held before. -/
theorem quatre_phases (data : Tampon) (x y z : ℚ) (hp : p < 25) (h : ∀ q < 25, data.octet q = car '=' ↔ q = p) :
    (∀ n < 25, ∃ b, (List.range n).foldlM (tourAxes data) (.debut x y z) = some b ∧ b.UnDrapeau) ∧
    ∃ b, parseRazorAllAxis data x y z = some b ∧ b.ecrits = ecritsAttendus p (points data.octet p 25) ∧
      valeurEcrite data b.ecrits .x x = some b.dataX ∧ valeurEcrite data b.ecrits .y y = some b.dataY ∧
      valeurEcrite data b.ecrits .z z = some b.dataZ := by
  refine ⟨fun n hn => ⟨balaye data.octet 0 n (.debut x y z), ?_, unDrapeau_balaye h x y z hn.le⟩,
    phase data.octet p 25 x y z (points data.octet p 25), ?_, rfl, valeurEcrite_phase (by decide) x y z⟩
  · rw [List.range_eq_range']
    exact foldlM_tourAxes data (borne_debut x y z) (by omega)
  · rw [parseRazorAllAxis_eq, balaye_phase h x y z hp le_rfl]

/-- A line cut after its second number. -/
def ligneDeuxNombres : List Int8 :=
  ['#', 'A', '.', 'C', '=', '1', '.', '0', '0', ',', '-', '2', '.', '5', '0', '\n'].map car

theorem quatre_phases_deux : ∃ b,
    parseRazorAllAxis ⟨ligneDeuxNombres ++ List.replicate 14 0, by decide⟩ 0 0 7 = some b ∧
    b.ecrits = [(.x, 6, 2), (.y, 12, 3)] ∧ b.dataZ = 7 := by
  obtain ⟨-, b, hb, hecrits, -, -, hz⟩ :=
    quatre_phases ⟨ligneDeuxNombres ++ List.replicate 14 0, by decide⟩ (p := 4) 0 0 7 (by decide) (by decide)
  have he : b.ecrits = [(.x, 6, 2), (.y, 12, 3)] := hecrits.trans (by decide)
  rw [he] at hz
  exact ⟨b, hb, he, (Option.some.inj hz).symm⟩

end ICar
