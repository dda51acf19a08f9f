import Mathlib

/-!
# Frames ended by a delimiter

A receiver keeps the elements since the last delimiter `d`. A delimiter closes the
frame, which is handed over with the delimiter in it. `scan d` is that receiver,
from the frames handed over so far and the elements kept.

* `scan_frames`: bodies without the delimiter come back one frame each.
* `length_scan`: the number of frames handed over is the number of delimiters, so a
  message whose body carries the delimiter is split (`frames_iff`).
* `framed_iff`: the frames and what is kept are the input split after each delimiter.

Where words are told apart otherwise, `SansPrefixe` is enough for a stream to have one cut only
(`SansPrefixe.flatten_inj`).
-/

namespace Framing

variable {α : Type*} [DecidableEq α] (d : α)

/-- One more element: a delimiter hands over the frame it ends. -/
def feed (q : List (List α) × List α) (x : α) : List (List α) × List α :=
  if x = d then (q.1 ++ [q.2 ++ [x]], []) else (q.1, q.2 ++ [x])

/-- The receiver over a list of elements. -/
def scan (q : List (List α) × List α) (xs : List α) : List (List α) × List α :=
  xs.foldl (feed d) q

variable {d}

@[simp] theorem scan_nil (q : List (List α) × List α) : scan d q [] = q := rfl

theorem scan_append (q : List (List α) × List α) (xs ys : List α) :
    scan d q (xs ++ ys) = scan d (scan d q xs) ys := List.foldl_append

/-- Elements other than the delimiter are kept. -/
theorem scan_body {xs : List α} (h : d ∉ xs) (fs : List (List α)) (buf : List α) :
    scan d (fs, buf) xs = (fs, buf ++ xs) := by
  induction xs generalizing buf with
  | nil => simp
  | cons x xs ih =>
    rw [List.mem_cons, not_or] at h
    have hx : feed d (fs, buf) x = (fs, buf ++ [x]) := by
      unfold feed; rw [if_neg (Ne.symm h.1)]
    show scan d (feed d (fs, buf) x) xs = _
    rw [hx, ih h.2, List.append_assoc, List.singleton_append]

/-- A body and its delimiter are handed over as one frame. -/
theorem scan_frame {xs : List α} (h : d ∉ xs) (fs : List (List α)) (buf : List α) :
    scan d (fs, buf) (xs ++ [d]) = (fs ++ [buf ++ xs ++ [d]], []) := by
  rw [scan_append, scan_body h]
  simp [scan, feed]

/-- **Bodies without the delimiter come back one frame each, in order.** -/
theorem scan_frames {cs : List (List α)} (h : ∀ c ∈ cs, d ∉ c) (fs : List (List α)) :
    scan d (fs, []) (cs.flatMap (· ++ [d])) = (fs ++ cs.map (· ++ [d]), []) := by
  induction cs generalizing fs with
  | nil => simp
  | cons c cs ih =>
    rw [List.flatMap_cons, scan_append, scan_frame (h c List.mem_cons_self),
      ih fun c' hc' => h c' (List.mem_cons_of_mem _ hc')]
    simp

/-- **One frame per delimiter.** -/
theorem length_scan (q : List (List α) × List α) (xs : List α) :
    (scan d q xs).1.length = q.1.length + xs.count d := by
  induction xs generalizing q with
  | nil => simp
  | cons x xs ih =>
    show (scan d (feed d q x) xs).1.length = _
    rw [ih, List.count_cons]
    unfold feed
    by_cases hx : x = d
    · simp [hx]; omega
    · simp [hx]

/-- Messages handed over before do not change how the rest is cut. -/
theorem scan_fst_append (fs gs : List (List α)) (buf xs : List α) :
    scan d (fs ++ gs, buf) xs = (fs ++ (scan d (gs, buf) xs).1, (scan d (gs, buf) xs).2) := by
  induction xs generalizing gs buf with
  | nil => rfl
  | cons x xs ih =>
    show scan d (feed d (fs ++ gs, buf) x) xs =
      (fs ++ (scan d (feed d (gs, buf) x) xs).1, (scan d (feed d (gs, buf) x) xs).2)
    unfold feed
    by_cases hx : x = d
    · simp only [hx, if_true, List.append_assoc]
      exact ih _ _
    · simp only [hx, if_false]
      exact ih _ _

/-- Frames handed over stay. -/
theorem prefix_scan (fs : List (List α)) (buf xs : List α) : fs <+: (scan d (fs, buf) xs).1 := by
  have h := scan_fst_append (d := d) fs [] buf xs
  rw [List.append_nil] at h
  rw [h]
  exact List.prefix_append _ _

/-- The receiver keeps every element it is fed. -/
theorem flatten_feed (q : List (List α) × List α) (x : α) :
    (feed d q x).1.flatten ++ (feed d q x).2 = q.1.flatten ++ q.2 ++ [x] := by
  unfold feed
  split <;> simp

/-- `xs` split after each delimiter: the frames, each ended by its only delimiter, and what
comes after the last one. -/
structure Framed (d : α) (xs : List α) (fs : List (List α)) (buf : List α) : Prop where
  flatten : fs.flatten ++ buf = xs
  frames : ∀ f ∈ fs, ∃ b, f = b ++ [d] ∧ d ∉ b
  kept : d ∉ buf

/-- One more element keeps the split. -/
theorem Framed.feed {xs : List α} {q : List (List α) × List α} (h : Framed d xs q.1 q.2) (x : α) :
    Framed d (xs ++ [x]) (Framing.feed d q x).1 (Framing.feed d q x).2 := by
  unfold Framing.feed
  split
  · rename_i hx
    refine ⟨by simp [← h.flatten], fun f hf => ?_, List.not_mem_nil⟩
    rcases List.mem_append.1 hf with hf | hf
    · exact h.frames f hf
    · exact ⟨q.2, by rw [List.mem_singleton.1 hf, hx], h.kept⟩
  · rename_i hx
    refine ⟨by simp [← h.flatten], h.frames, ?_⟩
    rw [List.mem_append, List.mem_singleton]
    exact not_or.2 ⟨h.kept, Ne.symm hx⟩

/-- **The receiver splits its input after each delimiter**, and there is only one such split. -/
theorem framed_iff {xs : List α} {fs : List (List α)} {buf : List α} :
    Framed d xs fs buf ↔ scan d ([], []) xs = (fs, buf) := by
  constructor
  · rintro ⟨rfl, hfs, hbuf⟩
    obtain ⟨cs, rfl, hcs⟩ : ∃ cs : List (List α), fs = cs.map (· ++ [d]) ∧ ∀ c ∈ cs, d ∉ c := by
      clear hbuf
      induction fs with
      | nil => exact ⟨[], rfl, by simp⟩
      | cons f fs ih =>
        obtain ⟨⟨b, hb, hdb⟩, hfs⟩ := List.forall_mem_cons.1 hfs
        obtain ⟨cs, hcs, hdcs⟩ := ih hfs
        exact ⟨b :: cs, by rw [hb, hcs, List.map_cons], List.forall_mem_cons.2 ⟨hdb, hdcs⟩⟩
    rw [scan_append, ← List.flatMap_def, scan_frames hcs, scan_body hbuf, List.nil_append, List.nil_append]
  · intro h
    have key : ∀ (ys xs : List α) (q : List (List α) × List α), Framed d xs q.1 q.2 →
        Framed d (xs ++ ys) (scan d q ys).1 (scan d q ys).2 := by
      intro ys
      induction ys with
      | nil => intro xs q hq; simpa using hq
      | cons y ys ih =>
        intro xs q hq
        have := ih (xs ++ [y]) _ (hq.feed y)
        rwa [List.append_assoc, List.singleton_append] at this
    have := key xs [] ([], []) ⟨rfl, by simp, by simp⟩
    rwa [h, List.nil_append] at this

/-- After a delimiter, the rest is cut as if nothing had come before. -/
theorem Framed.append {xs ys : List α} {fs gs : List (List α)} {buf : List α} (hx : Framed d xs fs [])
    (hy : Framed d ys gs buf) : Framed d (xs ++ ys) (fs ++ gs) buf := by
  rw [framed_iff] at hx hy ⊢
  have := scan_fst_append (d := d) fs [] [] ys
  rw [scan_append, hx]
  rw [List.append_nil, hy] at this
  exact this

omit [DecidableEq α] in
/-- Nothing is kept after a delimiter. -/
theorem Framed.eq_nil {xs : List α} {fs : List (List α)} {buf : List α} (h : Framed d xs fs buf)
    (hd : xs.getLast? = some d) : buf = [] := by
  rcases List.eq_nil_or_concat' buf with hb | ⟨buf', x, hb⟩
  · exact hb
  · have hx : x = d := by
      rw [← h.flatten, hb, ← List.append_assoc, List.getLast?_append] at hd
      simpa using hd
    exact absurd (by rw [hb, hx]; simp) h.kept

omit [DecidableEq α] in
theorem count_flatMap_le [BEq α] [LawfulBEq α] (cs : List (List α)) :
    cs.length ≤ (cs.flatMap (· ++ [d])).count d := by
  induction cs with
  | nil => simp
  | cons c cs ih => simp only [List.flatMap_cons, List.count_append, List.length_cons]; simp; omega

/-- **When one frame per message comes back.** Messages sent as a body and the
delimiter come back as many as were sent exactly when no body has the delimiter. -/
theorem frames_iff (cs : List (List α)) (fs : List (List α)) :
    (scan d (fs, []) (cs.flatMap (· ++ [d]))).1.length = fs.length + cs.length ↔ ∀ c ∈ cs, d ∉ c := by
  constructor
  · intro h
    rw [length_scan, Nat.add_left_cancel_iff] at h
    induction cs with
    | nil => simp
    | cons c cs ih =>
      have hle := count_flatMap_le (d := d) cs
      simp only [List.flatMap_cons, List.count_append, List.length_cons, List.count_singleton_self] at h
      have hc : c.count d = 0 := by omega
      intro c' hc'
      rcases List.mem_cons.1 hc' with rfl | hc'
      · exact List.count_eq_zero.1 hc
      · exact ih (by omega) c' hc'
  · intro h
    rw [scan_frames h]
    simp

/-! ## Words that do not begin one another -/

/-- No word is the beginning of another. -/
def SansPrefixe (P : List α → Prop) : Prop := ∀ r r', P r → P r' → r <+: r' → r = r'

omit [DecidableEq α] in
/-- The first word of a stream is determined. -/
theorem SansPrefixe.append_inj {P : List α → Prop} (hP : SansPrefixe P) {r r' s s' : List α} (h : P r) (h' : P r')
    (heq : r ++ s = r' ++ s') : r = r' ∧ s = s' := by
  have hr : r = r' := by
    rcases List.prefix_or_prefix_of_prefix (List.prefix_append r s) (heq ▸ List.prefix_append r' s') with hp | hp
    · exact hP r r' h h' hp
    · exact (hP r' r h' h hp).symm
  subst hr
  exact ⟨rfl, List.append_cancel_left heq⟩

omit [DecidableEq α] in
/-- **A stream is cut into words in one way.** -/
theorem SansPrefixe.flatten_inj {P : List α → Prop} (hP : SansPrefixe P) {ls ls' : List (List α)} {s s' : List α}
    (h : ∀ l ∈ ls, P l) (h' : ∀ l ∈ ls', P l) (hlen : ls.length = ls'.length)
    (heq : ls.flatten ++ s = ls'.flatten ++ s') : ls = ls' ∧ s = s' := by
  induction ls generalizing ls' with
  | nil =>
    obtain rfl : ls' = [] := List.eq_nil_of_length_eq_zero hlen.symm
    exact ⟨rfl, heq⟩
  | cons l ls ih =>
    cases ls' with
    | nil => cases hlen
    | cons l' ls' =>
      obtain ⟨hl, hls⟩ := List.forall_mem_cons.1 h
      obtain ⟨hl', hls'⟩ := List.forall_mem_cons.1 h'
      rw [List.flatten_cons, List.flatten_cons, List.append_assoc, List.append_assoc] at heq
      obtain ⟨rfl, hrest⟩ := hP.append_inj hl hl' heq
      obtain ⟨rfl, rfl⟩ := ih hls hls' (Nat.succ.inj hlen) hrest
      exact ⟨rfl, rfl⟩

end Framing
