import ICar.Proof.Balayage

/-!
# The lines of the attitude board

A line is a header, `=`, three numbers joined by commas, and a newline. `Nombre` and `Ligne`
carry the format in their types, so every value of them is one that the board can print.

`parse_ligne`: over an array that begins with a line of at most 25 bytes, the scan gives the
line's three numbers, whatever follows the line as long as it does not start a number again
(`SansReprise`). `ligne_exacte` is the case of a rest without `=`.
-/

namespace ICar

variable {o : ℕ → Int8} {p : ℕ} {b : Balayage}

/-! ## The format -/

/-- A number: an optional sign, one to three digits, a point and two digits. -/
structure Nombre where
  neg : Bool
  entiers : List (Fin 10)
  taille : 1 ≤ entiers.length ∧ entiers.length ≤ 3
  d1 : Fin 10
  d2 : Fin 10

def chiffreDe (d : Fin 10) : Int8 := Int8.ofNat (48 + d.val)

namespace Nombre

/-- What comes before the point. -/
def tete (n : Nombre) : List Int8 := (if n.neg then [car '-'] else []) ++ n.entiers.map chiffreDe

def texte (n : Nombre) : List Int8 := n.tete ++ [car '.', chiffreDe n.d1, chiffreDe n.d2]

def valeur (n : Nombre) : ℚ :=
  (if n.neg then -1 else 1) *
    ((n.entiers.foldl (fun v d => 10 * v + d.val) 0 : ℕ) + (n.d1.val : ℚ) / 10 + (n.d2.val : ℚ) / 100)

end Nombre

/-- A line: its header has no `=` and no newline, and a carriage return may precede the newline. -/
structure Ligne where
  entete : List Int8
  egal : car '=' ∉ entete
  ligne : car '\n' ∉ entete
  x : Nombre
  y : Nombre
  z : Nombre
  cr : Bool

namespace Ligne

/-- What comes after the third number. -/
def fin (l : Ligne) : List Int8 := (if l.cr then [car '\r'] else []) ++ [car '\n']

def texte (l : Ligne) : List Int8 :=
  l.entete ++ [car '='] ++ l.x.texte ++ [car ','] ++ l.y.texte ++ [car ','] ++ l.z.texte ++ l.fin

def valeurs (l : Ligne) : ℚ × ℚ × ℚ := (l.x.valeur, l.y.valeur, l.z.valeur)

end Ligne

/-! ## A number -/

theorem chiffreDe_ne : ∀ d : Fin 10, chiffreDe d ≠ car '.' ∧ chiffreDe d ≠ car '=' ∧ chiffreDe d ≠ car '-' ∧
    chiffreDe d ≠ car '\n' := by decide

theorem valeurChiffre_chiffreDe (d : Fin 10) : valeurChiffre (chiffreDe d) = d.val := by
  have h : ∀ d : Fin 10, (chiffreDe d).toInt = 48 + d.val := by decide
  unfold valeurChiffre
  rw [h d]
  push_cast
  ring

/-- **A printed number is read back**: its sign and its digits, for each of its six widths. -/
theorem valeurAxe_nombre {n : Nombre} (h : Porte o p n.texte) :
    valeurAxe o (p + n.tete.length) (n.tete.length + 1) = n.valeur := by
  obtain ⟨neg, entiers, ht, d1, d2⟩ := n
  unfold Nombre.texte at h
  obtain ⟨htete, hpt⟩ := porte_append.1 h
  obtain ⟨-, hpt⟩ := porte_cons.1 hpt
  obtain ⟨h1, hpt⟩ := porte_cons.1 hpt
  obtain ⟨h2, -⟩ := porte_cons.1 hpt
  have hv := valeurChiffre_chiffreDe
  have hne := fun d => (chiffreDe_ne d).2.2.1
  unfold Nombre.tete at htete h1 h2 ⊢
  unfold Nombre.valeur valeurAxe decimales
  -- one to three digits, with or without sign: each width has its own branch in the scanner
  cases neg <;> rcases entiers with _ | ⟨a, _ | ⟨b, _ | ⟨c, _ | ⟨d, l⟩⟩⟩⟩ <;>
    simp [porte_cons, porte_nil, add_assoc] at ht htete h1 h2 ⊢
  · simp [htete, h1, h2, hv]
    ring
  · simp [htete, h1, h2, hv, hne]
    ring
  · simp [htete, h1, h2, hv, hne]
    ring
  · simp [htete, h1, h2, hv]
    ring
  · simp [htete, h1, h2, hv]
    ring
  · simp [htete, h1, h2, hv]
    ring

/-! ## The scan of a number -/

theorem tete_neutre (n : Nombre) : ∀ c ∈ n.tete, c ≠ car '.' ∧ c ≠ car '=' := by
  intro c hc
  unfold Nombre.tete at hc
  rcases List.mem_append.1 hc with hc | hc
  · cases hn : n.neg with
    | false => rw [hn] at hc; cases hc
    | true =>
      rw [hn] at hc
      obtain rfl := List.mem_singleton.1 hc
      decide
  · obtain ⟨d, -, rfl⟩ := List.mem_map.1 hc
    exact ⟨(chiffreDe_ne d).1, (chiffreDe_ne d).2.1⟩

/-- Up to the point: the counter has the number's length. -/
theorem balaye_tete {n : Nombre} (h : Porte o p n.texte) (ha : b.actif = true) (hnl : b.numberLength = 0) :
    balaye o p (n.tete.length + 1) b = avance o { b with numberLength := n.tete.length } (p + n.tete.length) := by
  have htete := (porte_append.1 h).1
  rw [balaye_concat, balaye_neutre (tete_neutre n) htete, ha, hnl]
  simp

/-- The bytes of a number from its point on. -/
theorem porte_point {n : Nombre} (h : Porte o p n.texte) : o (p + n.tete.length) = car '.' ∧
    Porte o (p + (n.tete.length + 1)) [chiffreDe n.d1, chiffreDe n.d2] := by
  have hfin := (porte_append.1 h).2
  rw [porte_cons] at hfin
  exact hfin

/-- The two digits and the comma after a point bring the counter back to 0. -/
theorem balaye_virgule {d1 d2 : Fin 10} (h : Porte o p [chiffreDe d1, chiffreDe d2, car ',']) (ha : b.actif = true)
    (hnl : b.numberLength = -3) : balaye o p 3 b = { b with numberLength := 0 } := by
  have hneutre : ∀ c ∈ [chiffreDe d1, chiffreDe d2, car ','], c ≠ car '.' ∧ c ≠ car '=' := by
    intro c hc
    simp only [List.mem_cons, List.not_mem_nil, or_false] at hc
    rcases hc with rfl | rfl | rfl
    · exact ⟨(chiffreDe_ne d1).1, (chiffreDe_ne d1).2.1⟩
    · exact ⟨(chiffreDe_ne d2).1, (chiffreDe_ne d2).2.1⟩
    · decide
  have hb := balaye_neutre hneutre h b
  rw [ha, hnl] at hb
  exact hb

/-- **A number and its comma**: what its point does, and the counter is back at 0. -/
theorem balaye_nombre {n : Nombre} (h : Porte o p (n.texte ++ [car ','])) (ha : b.actif = true)
    (hnl : b.numberLength = 0) (b' : Balayage)
    (hpoint : avance o { b with numberLength := n.tete.length } (p + n.tete.length) = b')
    (ha' : b'.actif = true) (hnl' : b'.numberLength = -3) :
    balaye o p (n.texte.length + 1) b = { b' with numberLength := 0 } := by
  have hn := (porte_append.1 h).1
  have hlen : n.texte.length + 1 = (n.tete.length + 1) + 3 := by simp [Nombre.texte]
  have hvirgule : Porte o (p + (n.tete.length + 1)) [chiffreDe n.d1, chiffreDe n.d2, car ','] := by
    unfold Nombre.texte at h
    rw [List.append_assoc, porte_append] at h
    exact (porte_cons.1 h.2).2
  rw [hlen, balaye_add, balaye_tete hn ha hnl, hpoint, balaye_virgule hvirgule ha' hnl']

/-- The states between the numbers. -/
def etat (nl : ℤ) (x y z : Bool) (v : ℚ × ℚ × ℚ) (e : List (Axe × ℕ × ℤ)) : Balayage :=
  ⟨nl, x, y, z, v.1, v.2.1, v.2.2, e⟩

theorem balaye_x {n : Nombre} (dx dy dz : ℚ) (h : Porte o p (n.texte ++ [car ','])) (e : List (Axe × ℕ × ℤ)) :
    ∃ e', balaye o p (n.texte.length + 1) (etat 0 true false false (dx, dy, dz) e) =
      etat 0 false true false (n.valeur, dy, dz) e' := by
  have hn := (porte_append.1 h).1
  have hpt := (porte_point hn).1
  refine ⟨e ++ [(Axe.x, p + n.tete.length, (n.tete.length : ℤ) + 1)], ?_⟩
  refine balaye_nombre h rfl rfl (etat (-3) false true false (n.valeur, dy, dz) _) ?_ rfl rfl
  simp [avance, etat, Balayage.longueur, Balayage.actif, hpt, valeurAxe_nombre hn]

theorem balaye_y {n : Nombre} (dx dy dz : ℚ) (h : Porte o p (n.texte ++ [car ','])) (e : List (Axe × ℕ × ℤ)) :
    ∃ e', balaye o p (n.texte.length + 1) (etat 0 false true false (dx, dy, dz) e) =
      etat 0 false false true (dx, n.valeur, dz) e' := by
  have hn := (porte_append.1 h).1
  have hpt := (porte_point hn).1
  refine ⟨e ++ [(Axe.y, p + n.tete.length, (n.tete.length : ℤ) + 1)], ?_⟩
  refine balaye_nombre h rfl rfl (etat (-3) false false true (dx, n.valeur, dz) _) ?_ rfl rfl
  simp [avance, etat, Balayage.longueur, Balayage.actif, hpt, valeurAxe_nombre hn]

theorem balaye_z {n : Nombre} (dx dy dz : ℚ) (h : Porte o p n.texte) (e : List (Axe × ℕ × ℤ)) :
    ∃ nl e', balaye o p (n.tete.length + 1) (etat 0 false false true (dx, dy, dz) e) =
      etat nl false false false (dx, dy, n.valeur) e' := by
  have hpt := (porte_point h).1
  refine ⟨n.tete.length + 1, e ++ [(Axe.z, p + n.tete.length, (n.tete.length : ℤ) + 1)], ?_⟩
  rw [balaye_tete h rfl rfl]
  simp [avance, etat, Balayage.longueur, Balayage.actif, hpt, valeurAxe_nombre h]

/-! ## The rest of the array -/

/-- No point comes after a `=`. -/
def SansReprise (l : List Int8) : Prop := ∀ a c, l = a ++ car '=' :: c → car '.' ∉ c

/-- **A rest in which no number starts** writes nothing. -/
theorem sorties_sansReprise {l : List Int8} (hl : SansReprise l) (h : Porte o p l) (ha : b.actif = false) :
    (balaye o p l.length b).sorties = b.sorties := by
  induction l generalizing p with
  | nil => rfl
  | cons c l ih =>
    obtain ⟨ho, h⟩ := porte_cons.1 h
    rw [List.length_cons, balaye_succ]
    by_cases hc : c = car '='
    · -- the flag is set, and no point follows
      have hstep : avance o b p = { b with numberLength := b.longueur, xParse := b.xParse || decide (o p = car '=') } :=
        avance_autre (by rw [ho, hc]; exact egal_ne_point)
      have hpoint := hl [] l (by rw [hc]; rfl)
      rw [sorties_balaye fun k hk hk' => absurd (List.mem_of_getElem? ((h.get hk).trans (by rw [hk']))) hpoint, hstep]
      rfl
    · have hstep : balaye o p 1 b = b :=
        balaye_inactif (l := [c]) (by simpa using Ne.symm hc) (porte_cons.2 ⟨ho, porte_nil o _⟩) ha
      rw [show avance o b p = b from hstep]
      exact ih (fun a d hd => hl (c :: a) d (by rw [hd]; rfl)) h

/-! ## The scan of a line -/

/-- The bytes of an array are those of its list. -/
theorem porte_octets (data : Tampon) : Porte data.octet 0 data.octets := by
  intro i c hi
  unfold Tampon.octet
  rw [zero_add, List.getD_eq_getElem?_getD, hi]
  rfl

/-- Where each piece of a line stands. -/
theorem porte_ligne {l : Ligne} (h : Porte o 0 l.texte) : ∃ E X Y : ℕ,
    l.texte.length = E + 1 + X + Y + (l.z.texte.length + l.fin.length) ∧ Porte o 0 l.entete ∧
    l.entete.length = E ∧ o E = car '=' ∧ Porte o (E + 1) (l.x.texte ++ [car ',']) ∧ l.x.texte.length + 1 = X ∧
    Porte o (E + 1 + X) (l.y.texte ++ [car ',']) ∧ l.y.texte.length + 1 = Y ∧
    Porte o (E + 1 + X + Y) l.z.texte ∧ Porte o (E + 1 + X + Y + l.z.texte.length) l.fin := by
  have htexte : l.texte = l.entete ++ ([car '='] ++ ((l.x.texte ++ [car ',']) ++ ((l.y.texte ++ [car ',']) ++
      (l.z.texte ++ l.fin)))) := by simp [Ligne.texte]
  rw [htexte] at h ⊢
  obtain ⟨he, h⟩ := porte_append.1 h
  obtain ⟨hegal, h⟩ := porte_append.1 h
  obtain ⟨hx, h⟩ := porte_append.1 h
  obtain ⟨hy, h⟩ := porte_append.1 h
  obtain ⟨hz, hf⟩ := porte_append.1 h
  simp only [List.length_append, List.length_singleton, zero_add] at hegal hx hy hz hf
  refine ⟨_, _, _, ?_, he, rfl, (porte_cons.1 hegal).1, hx, rfl, hy, rfl, hz, hf⟩
  simp only [List.length_append, List.length_singleton]
  omega

/-- The two digits of the last number and the end of the line have no `=`. -/
theorem egal_not_mem_fin (l : Ligne) : car '=' ∉ [chiffreDe l.z.d1, chiffreDe l.z.d2] ++ l.fin := by
  have h1 := (chiffreDe_ne l.z.d1).2.1
  have h2 := (chiffreDe_ne l.z.d2).2.1
  have hfin : car '=' ∉ l.fin := by
    unfold Ligne.fin
    cases l.cr <;> decide
  simp [Ne.symm h1, Ne.symm h2, hfin]

/-- **After a line the outputs are its numbers**, and no flag is set. -/
theorem balaye_ligne (l : Ligne) (h : Porte o 0 l.texte) (v : ℚ × ℚ × ℚ) :
    (balaye o 0 l.texte.length (etat 0 false false false v [])).sorties = l.valeurs ∧
      (balaye o 0 l.texte.length (etat 0 false false false v [])).actif = false := by
  obtain ⟨dx, dy, dz⟩ := v
  obtain ⟨E, X, Y, hlen, hentete, hE, hegal, hx, hX, hy, hY, hz, hfin⟩ := porte_ligne h
  -- the header, then `=`
  have h0 : balaye o 0 (E + 1) (etat 0 false false false (dx, dy, dz) []) =
      etat 0 true false false (dx, dy, dz) [] := by
    have hinactif := balaye_inactif (b := etat 0 false false false (dx, dy, dz) []) l.egal hentete rfl
    rw [hE] at hinactif
    rw [balaye_concat, hinactif, zero_add, avance_autre (by rw [hegal]; exact egal_ne_point), hegal]
    rfl
  -- the three numbers
  obtain ⟨e₁, h1⟩ := balaye_x dx dy dz hx []
  obtain ⟨e₂, h2⟩ := balaye_y l.x.valeur dy dz hy e₁
  obtain ⟨nl, e₃, h3⟩ := balaye_z l.x.valeur l.y.valeur dz hz e₂
  rw [hX] at h1
  rw [hY] at h2
  have hx' : balaye o 0 (E + 1 + X) (etat 0 false false false (dx, dy, dz) []) =
      etat 0 false true false (l.x.valeur, dy, dz) e₁ := by
    rw [balaye_add, h0, zero_add]
    exact h1
  have hy' : balaye o 0 (E + 1 + X + Y) (etat 0 false false false (dx, dy, dz) []) =
      etat 0 false false true (l.x.valeur, l.y.valeur, dz) e₂ := by
    rw [balaye_add, hx', zero_add]
    exact h2
  have hz' : balaye o 0 (E + 1 + X + Y + (l.z.tete.length + 1)) (etat 0 false false false (dx, dy, dz) []) =
      etat nl false false false l.valeurs e₃ := by
    rw [balaye_add o 0 (E + 1 + X + Y), hy', zero_add]
    exact h3
  -- the rest of the line
  have hreste : Porte o (E + 1 + X + Y + (l.z.tete.length + 1)) ([chiffreDe l.z.d1, chiffreDe l.z.d2] ++ l.fin) := by
    refine porte_append.2 ⟨(porte_point hz).2, ?_⟩
    have hzl : l.z.texte.length = l.z.tete.length + 1 + 2 := by simp [Nombre.texte]
    rw [hzl, ← add_assoc] at hfin
    exact hfin
  have h4 := balaye_inactif (b := etat nl false false false l.valeurs e₃) (egal_not_mem_fin l) hreste rfl
  have hsplit : l.texte.length = E + 1 + X + Y + (l.z.tete.length + 1) +
      ([chiffreDe l.z.d1, chiffreDe l.z.d2] ++ l.fin).length := by
    rw [hlen]
    simp [Nombre.texte]
    omega
  rw [hsplit, balaye_add o 0 (E + 1 + X + Y + (l.z.tete.length + 1)), hz', zero_add, h4]
  exact ⟨rfl, rfl⟩

/-! ## The parser -/

/-- **Parsing undoes printing**: over bytes that begin with a line of at most 25, the outputs are
the line's numbers, unless the rest of the 25 starts another number. -/
theorem sorties_ligne {l : Ligne} {reste : List Int8} (htexte : Porte o 0 l.texte)
    (hreste : Porte o l.texte.length reste) (hlen : l.texte.length + reste.length = 25) (hs : SansReprise reste)
    (x y z : ℚ) : (balaye o 0 25 (.debut x y z)).sorties = l.valeurs := by
  obtain ⟨hsorties, hactif⟩ := balaye_ligne l htexte (x, y, z)
  rw [← hlen, balaye_add, zero_add]
  exact (sorties_sansReprise hs hreste hactif).trans hsorties

theorem parse_ligne {data : Tampon} {l : Ligne} {reste : List Int8} (hdata : data.octets = l.texte ++ reste)
    (hlen : l.texte.length ≤ 25) (hreste : SansReprise (reste.take (25 - l.texte.length))) (x y z : ℚ) :
    (parseRazorAllAxis data x y z).map Balayage.sorties = some l.valeurs := by
  have htaille := data.taille
  have hporte := porte_octets data
  rw [hdata] at hporte htaille
  obtain ⟨htexte, hporte⟩ := porte_append.1 hporte
  rw [← List.take_append_drop (25 - l.texte.length) reste, zero_add] at hporte
  rw [List.length_append] at htaille
  rw [parseRazorAllAxis_eq, Option.map_some,
    sorties_ligne htexte (porte_append.1 hporte).1 (by rw [List.length_take]; omega) hreste]

/-- A rest without `=` starts no number. -/
theorem sansReprise_of_egal {l : List Int8} (h : car '=' ∉ l) : SansReprise l :=
  fun a c hl => absurd (by rw [hl]; simp) h

/-- **A printed line is read back exactly**, whatever bytes without `=` the array holds after it. -/
theorem ligne_exacte (data : Tampon) (l : Ligne) (reste : List Int8) (hdata : data.octets = l.texte ++ reste)
    (hlen : l.texte.length ≤ 25) (hreste : car '=' ∉ reste) (x y z : ℚ) :
    (parseRazorAllAxis data x y z).map Balayage.sorties = some l.valeurs :=
  parse_ligne hdata hlen (sansReprise_of_egal fun h => hreste (List.mem_of_mem_take h)) x y z

/-- `#A-C=-0.50,12.34,1.00`. -/
def Ligne.exemple : Ligne where
  entete := ['#', 'A', '-', 'C'].map car
  egal := by decide
  ligne := by decide
  x := ⟨true, [0], by decide, 5, 0⟩
  y := ⟨false, [1, 2], by decide, 3, 4⟩
  z := ⟨false, [1], by decide, 0, 0⟩
  cr := false

/-- The end of an earlier line, `7.77`, does not matter. -/
theorem ligne_exacte_exemple :
    (parseRazorAllAxis ⟨Ligne.exemple.texte ++ ['7', '.', '7', '7', '\n', 'A', 'B', 'C'].map car, by decide⟩
      0 0 0).map Balayage.sorties = some (-1 / 2, 617 / 50, 1) := by
  have h := ligne_exacte ⟨Ligne.exemple.texte ++ ['7', '.', '7', '7', '\n', 'A', 'B', 'C'].map car, by decide⟩
    Ligne.exemple _ rfl (by decide) (by decide) 0 0 0
  have hv : Ligne.exemple.valeurs = (-1 / 2, 617 / 50, 1) := by
    norm_num [Ligne.valeurs, Ligne.exemple, Nombre.valeur]
  rwa [hv] at h

end ICar
