import RingRtc.Regex.Search

/-! # `replace_all` as a left-to-right rewrite

For a pattern whose every match is non-empty, the crate's loop over `find_iter`, with its
search start, its last match and the slices `replace_all` copies between the matches, is
the plain rewrite of the text from left to right: where the pattern matches, the first
match in priority order is replaced and the rewrite goes on after it; elsewhere the
character is kept. The loop's fuel never runs out on such a pattern.

The rewrite leaves nothing a pattern matches when the replacement blocks it: its first
character is one the pattern never reads, and no match starts inside it. A match in the
output would then lie in text the rewrite kept, and so would have been a match there.
-/
namespace RingRtc.Regex

open Hir

/-- Where `r` matches, its first match in priority order is replaced by `rep` and the
rewrite goes on after it; elsewhere the character is kept. -/
def rewrite (r : Hir) (rep : List Char) : List Char → List Char
  | [] => []
  | c :: t =>
    match (matchLengths r (c :: t)).head? with
    | some (n + 1) => rep ++ rewrite r rep (t.drop n)
    | _ => c :: rewrite r rep t
termination_by s => s.length
decreasing_by all_goals simp only [List.length_drop, List.length_cons]; omega

section Equations

variable {r : Hir} {rep : List Char} {c : Char} {t : List Char}

@[simp] theorem rewrite_nil : rewrite r rep [] = [] := by
  rw [rewrite]

theorem rewrite_of_head {n : Nat} (h : (matchLengths r (c :: t)).head? = some (n + 1)) :
    rewrite r rep (c :: t) = rep ++ rewrite r rep (t.drop n) := by
  rw [rewrite, h]

/-- Where `r` has no non-empty first match, the character is kept. -/
theorem rewrite_of_not_head (h : ∀ n, (matchLengths r (c :: t)).head? ≠ some (n + 1)) :
    rewrite r rep (c :: t) = c :: rewrite r rep t := by
  rw [rewrite]
  split
  · exact absurd ‹_› (h _)
  · rfl

theorem rewrite_of_head_none (h : (matchLengths r (c :: t)).head? = none) :
    rewrite r rep (c :: t) = c :: rewrite r rep t :=
  rewrite_of_not_head fun n => by simp [h]

/-- Up to its first replacement, the rewrite keeps the text. -/
theorem rewrite_eq_or (r : Hir) (rep : List Char) :
    ∀ t, rewrite r rep t = t ∨ ∃ g x y, t = g ++ x ∧ rewrite r rep t = g ++ rep ++ y
  | [] => .inl rewrite_nil
  | c :: t => by
    by_cases h : ∃ n, (matchLengths r (c :: t)).head? = some (n + 1)
    · obtain ⟨n, hn⟩ := h
      exact .inr ⟨[], c :: t, _, rfl, by rw [rewrite_of_head hn]; rfl⟩
    · rw [rewrite_of_not_head fun n hn => h ⟨n, hn⟩]
      exact (rewrite_eq_or r rep t).imp (congrArg _)
        fun ⟨g, x, y, h₁, h₂⟩ => ⟨c :: g, x, y, by rw [h₁]; rfl, by rw [h₂]; rfl⟩

end Equations

/-- `r` matches nowhere in `s`. -/
def NoMatch (r : Hir) (s : List Char) : Prop := ∀ j ≤ s.length, matchLengths r (s.drop j) = []

/-- On text the pattern matches nowhere in, the rewrite changes nothing. -/
theorem rewrite_of_noMatch {r : Hir} {rep : List Char} :
    ∀ {s : List Char}, NoMatch r s → rewrite r rep s = s
  | [], _ => rewrite_nil
  | c :: t, h => by
    have h₀ := h 0 (Nat.zero_le _)
    rw [List.drop_zero] at h₀
    rw [rewrite_of_head_none (by rw [h₀]; rfl),
      rewrite_of_noMatch fun j hj => h (j + 1) (by simp; omega)]

/-- Where the search finds nothing, the rewrite changes nothing. -/
theorem rewrite_of_firstMatch_none {r : Hir} {rep : List Char} :
    ∀ {t : List Char} {i : Nat}, firstMatch r t i = none → rewrite r rep t = t
  | [], _, _ => rewrite_nil
  | c :: t, i, h => by
    cases hm : (matchLengths r (c :: t)).head? with
    | some n => simp [firstMatch, hm] at h
    | none =>
      simp only [firstMatch, hm] at h
      rw [rewrite_of_head_none hm, rewrite_of_firstMatch_none h]

theorem intercalate_cons_cons (c : Char) (a b : List Char) (l : List (List Char)) :
    [c].intercalate (a :: b :: l) = a ++ c :: [c].intercalate (b :: l) := by
  simp [List.intercalate, List.intersperse_cons_cons]

section Scan

variable {r : Hir} {rep : List Char} (hpos : ∀ s, ∀ n ∈ matchLengths r s, 0 < n)
include hpos

/-- The search from `i` finds its match at `s`, ending at `e`: the rewrite keeps what lies
before, replaces the match, and goes on after it. -/
theorem rewrite_of_firstMatch_some :
    ∀ {t : List Char} {i s e : Nat}, firstMatch r t i = some (s, e) →
      i ≤ s ∧ s < e ∧ e - i ≤ t.length ∧
        rewrite r rep t = t.take (s - i) ++ rep ++ rewrite r rep (t.drop (e - i))
  | [], i, s, e, h => by
    cases hm : (matchLengths r []).head? with
    | none => simp [firstMatch, hm] at h
    | some n =>
      have hn := List.mem_of_mem_head? hm
      exact absurd (matchLengths_bounded r [] n hn) (by have := hpos [] n hn; simp; omega)
  | c :: t, i, s, e, h => by
    cases hm : (matchLengths r (c :: t)).head? with
    | some n =>
      simp only [firstMatch, hm, Option.some.injEq, Prod.mk.injEq] at h
      obtain ⟨rfl, rfl⟩ := h
      have hn := List.mem_of_mem_head? hm
      obtain ⟨k, rfl⟩ : ∃ k, n = k + 1 := ⟨n - 1, by have := hpos _ n hn; omega⟩
      refine ⟨le_rfl, by omega, by simpa using matchLengths_bounded r _ _ hn, ?_⟩
      rw [rewrite_of_head hm, Nat.sub_self, Nat.add_sub_cancel_left, List.take_zero,
        List.nil_append, List.drop_succ_cons]
    | none =>
      simp only [firstMatch, hm] at h
      obtain ⟨h₁, h₂, h₃, h₄⟩ := rewrite_of_firstMatch_some h
      have hs : s - i = s - (i + 1) + 1 := by omega
      have he : e - i = e - (i + 1) + 1 := by omega
      refine ⟨by omega, h₂, by simp; omega, ?_⟩
      rw [rewrite_of_head_none hm, h₄, hs, he, List.take_succ_cons, List.drop_succ_cons]
      rfl

/-- The loop of `find_iter`, folded as `replace_all` folds it, from any search start with
enough fuel: what it has built, then the rest of the text, is what it had built, then the
rewrite of the text from the search start. -/
theorem foldl_findIterAux (text : List Char) :
    ∀ (fuel lastEnd : Nat) (lastMatch : Option Nat) (acc : List Char),
      lastEnd ≤ text.length → text.length + 1 ≤ lastEnd + fuel →
      (let p := (findIterAux r text fuel lastEnd lastMatch).foldl
          (fun (acc : List Char × Nat) (m : Nat × Nat) =>
            (acc.1 ++ (text.drop acc.2).take (m.1 - acc.2) ++ rep, m.2)) (acc, lastEnd);
        p.1 ++ text.drop p.2) = acc ++ rewrite r rep (text.drop lastEnd)
  | 0, _, _, _, h₁, h₂ => absurd h₂ (by omega)
  | fuel + 1, lastEnd, lastMatch, acc, h₁, h₂ => by
    rw [findIterAux, if_neg (by omega), findAt]
    cases hf : firstMatch r (text.drop lastEnd) lastEnd with
    | none => simp [rewrite_of_firstMatch_none hf]
    | some m =>
      obtain ⟨s, e⟩ := m
      obtain ⟨hs, hse, hlen, hrw⟩ := @rewrite_of_firstMatch_some r rep hpos _ _ _ _ hf
      simp only [List.length_drop] at hlen
      dsimp only
      rw [if_neg (by omega), List.foldl_cons]
      refine (foldl_findIterAux text fuel e (some e) _ (by omega) (by omega)).trans ?_
      rw [hrw, List.drop_drop, Nat.add_sub_cancel' (hs.trans hse.le)]
      simp only [List.append_assoc]

/-- On a pattern whose every match is non-empty, `replace_all` is the rewrite. -/
theorem replaceAll_eq_rewrite_of_pos (text rep : List Char) :
    replaceAll r text rep = rewrite r rep text := by
  have h := @foldl_findIterAux r rep hpos text (text.length + 2) 0 none [] (Nat.zero_le _)
    (by omega)
  rw [List.drop_zero, List.nil_append] at h
  rw [← h, replaceAll]
  split <;> simp_all [findIter]

theorem matchLengths_nil_of_pos : matchLengths r [] = [] :=
  List.eq_nil_iff_forall_not_mem.2 fun n hn =>
    absurd (matchLengths_bounded r [] n hn) (by have := hpos [] n hn; simp; omega)

/-- A character that `r` never reads cuts the rewrite: the text on each side of it is
rewritten alone. -/
theorem rewrite_append_cut {c : Char} (hc : r.rejects c = true) (y x : List Char) :
    rewrite r rep (x ++ c :: y) = rewrite r rep x ++ c :: rewrite r rep y := by
  induction x using rewrite.induct r rep with
  | case1 =>
    have h : matchLengths r (c :: y) = [] := by
      rw [← List.nil_append (c :: y), matchLengths_append_cons hc, matchLengths_nil_of_pos hpos]
    rw [List.nil_append, rewrite_of_head_none (by rw [h]; rfl), rewrite_nil, List.nil_append]
  | case2 d t n hn ih =>
    have hcut : matchLengths r (d :: (t ++ c :: y)) = matchLengths r (d :: t) :=
      matchLengths_append_cons hc (d :: t)
    have hnt : n ≤ t.length := by
      have := matchLengths_bounded r _ _ (List.mem_of_mem_head? hn)
      simp only [List.length_cons] at this
      omega
    rw [List.cons_append, rewrite_of_head (by rw [hcut]; exact hn), rewrite_of_head hn,
      List.drop_append_of_le_length hnt, ih, List.append_assoc]
  | case3 d t hn ih =>
    have hcut : matchLengths r (d :: (t ++ c :: y)) = matchLengths r (d :: t) :=
      matchLengths_append_cons hc (d :: t)
    rw [List.cons_append, rewrite_of_not_head (by rw [hcut]; exact hn), rewrite_of_not_head hn,
      ih, List.cons_append]

/-- Where `r` never reads `c`, the rewrite works piece by piece between the `c`s. -/
theorem rewrite_intercalate {c : Char} (hc : r.rejects c = true) :
    ∀ ls : List (List Char),
      rewrite r rep ([c].intercalate ls) = [c].intercalate (ls.map (rewrite r rep))
  | [] => rewrite_nil
  | [l] => by simp [List.intercalate]
  | l :: l' :: ls => by
    rw [List.map_cons, List.map_cons, intercalate_cons_cons, intercalate_cons_cons,
      rewrite_append_cut hpos hc, ← List.map_cons, rewrite_intercalate hc (l' :: ls)]

end Scan

/-! ## What the rewrite writes -/

section Writes

variable {r : Hir} {rep : List Char}

/-- Every character of the rewrite comes from the text or from the replacement. -/
theorem mem_rewrite {a : Char} (s : List Char) (h : a ∈ rewrite r rep s) :
    a ∈ s ∨ a ∈ rep := by
  induction s using rewrite.induct r rep with
  | case1 => simp at h
  | case2 d t n hn ih =>
    rw [rewrite_of_head hn, List.mem_append] at h
    exact h.elim .inr fun h =>
      (ih h).imp_left fun h => List.mem_cons_of_mem d (List.mem_of_mem_drop h)
  | case3 d t hn ih =>
    rw [rewrite_of_not_head hn, List.mem_cons] at h
    exact h.elim (fun h => .inl (h ▸ List.mem_cons_self d t)) fun h =>
      (ih h).imp_left (List.mem_cons_of_mem d)

theorem rewrite_ne_nil {s : List Char} (hs : s ≠ []) (hrep : rep ≠ []) :
    rewrite r rep s ≠ [] := by
  obtain ⟨c, t, rfl⟩ := List.exists_cons_of_ne_nil hs
  by_cases h : ∃ n, (matchLengths r (c :: t)).head? = some (n + 1)
  · obtain ⟨n, hn⟩ := h
    rw [rewrite_of_head hn]
    exact fun he => hrep (List.append_eq_nil.1 he).1
  · rw [rewrite_of_not_head fun n hn => h ⟨n, hn⟩]
    exact List.cons_ne_nil c _

/-- A non-empty list that shares no character with `rep` occurs in `rep ++ x` only in `x`. -/
theorem infix_of_infix_append {w x : List Char} (hw : w ≠ []) (hd : ∀ a ∈ w, a ∉ rep)
    (h : w <:+: rep ++ x) : w <:+: x := by
  induction rep with
  | nil => exact h
  | cons c rep ih =>
    rcases List.infix_cons_iff.1 h with h | h
    · obtain ⟨a, w', rfl⟩ := List.exists_cons_of_ne_nil hw
      obtain ⟨rfl, -⟩ := List.cons_prefix_cons.1 h
      exact absurd (List.mem_cons_self a rep) (hd a (List.mem_cons_self a w'))
    · exact ih (fun a ha hr => hd a ha (List.mem_cons_of_mem c hr)) h

variable (hrep : rep ≠ [])
include hrep

/-- A list that shares no character with a non-empty replacement starts the rewrite only
where it starts the text. -/
theorem prefix_of_prefix_rewrite (s : List Char) :
    ∀ w : List Char, (∀ a ∈ w, a ∉ rep) → w <+: rewrite r rep s → w <+: s := by
  induction s using rewrite.induct r rep with
  | case1 => intro w _ h; rwa [rewrite_nil] at h
  | case2 d t n hn _ =>
    rintro (_ | ⟨a, w⟩) hd h
    · exact List.nil_prefix
    · obtain ⟨b, rep', rfl⟩ := List.exists_cons_of_ne_nil hrep
      rw [rewrite_of_head hn, List.cons_append, List.cons_prefix_cons] at h
      exact absurd (h.1 ▸ List.mem_cons_self b rep') (hd a (List.mem_cons_self a w))
  | case3 d t hn ih =>
    rintro (_ | ⟨a, w⟩) hd h
    · exact List.nil_prefix
    · rw [rewrite_of_not_head hn, List.cons_prefix_cons] at h
      exact List.cons_prefix_cons.2
        ⟨h.1, ih w (fun b hb => hd b (List.mem_cons_of_mem a hb)) h.2⟩

/-- A non-empty list that shares no character with a non-empty replacement occurs in the
rewrite only where it occurs in the text: the rewrite never writes it across a
replacement. -/
theorem infix_of_infix_rewrite {w : List Char} (hw : w ≠ []) (hd : ∀ a ∈ w, a ∉ rep)
    (s : List Char) (h : w <:+: rewrite r rep s) : w <:+: s := by
  induction s using rewrite.induct r rep with
  | case1 => rwa [rewrite_nil] at h
  | case2 d t n hn ih =>
    rw [rewrite_of_head hn] at h
    exact (ih (infix_of_infix_append hw hd h)).trans
      (((List.drop_suffix n t).trans (List.suffix_cons d t)).isInfix)
  | case3 d t hn ih =>
    have hp := @prefix_of_prefix_rewrite r rep hrep (d :: t) w hd
    rw [rewrite_of_not_head hn] at h hp
    rcases List.infix_cons_iff.1 h with h | h
    · exact (hp h).isInfix
    · exact List.infix_cons (ih h)

end Writes

/-- The crate's `find_iter` loop, folded by `replace_all`, is the left-to-right rewrite on
every pattern without an empty match: its search starts, the slices it copies and the fuel
of its loop come out right on every text and replacement. -/
theorem replaceAll_eq_rewrite (r : Hir) (hr : r.nonNullable) (text rep : List Char) :
    replaceAll r text rep = rewrite r rep text :=
  replaceAll_eq_rewrite_of_pos (fun _ _ hn => nonNullable_sound hn hr) text rep

theorem replaceAll_eq_rewrite_sample :
    (cat (cls [('0', '9')]) (rep (cls [('0', '9')]) 0 none)).nonNullable = true ∧
      replaceAll (cat (cls [('0', '9')]) (rep (cls [('0', '9')]) 0 none)) "a1b22c".data "#".data =
        rewrite (cat (cls [('0', '9')]) (rep (cls [('0', '9')]) 0 none)) "#".data "a1b22c".data :=
  ⟨by decide, replaceAll_eq_rewrite _ (by decide) _ _⟩

/-- Where `r` matches nowhere, no text on which it matches occurs. -/
theorem not_infix_of_noMatch {r : Hir} {s w : List Char} (hs : NoMatch r s)
    (hw : matchLengths r w ≠ []) : ¬w <:+: s := by
  rintro ⟨a, b, rfl⟩
  apply matchLengths_append_ne_nil b hw
  have := hs a.length (by simp)
  rwa [List.append_assoc, List.drop_left] at this

/-- A replacement that blocks `r`: it starts with a character `r` never reads, and no match
of `r` starts inside it, whatever follows. -/
structure Blocks (r : Hir) (rep : List Char) : Prop where
  head : ∃ c rest, rep = c :: rest ∧ r.rejects c = true
  inside : ∀ j < rep.length, ∀ t, matchLengths r (rep.drop j ++ t) = []

/-- A check that `r` matches nowhere in `w`. -/
def noMatchCheck (r : Hir) (w : List Char) : Bool :=
  (List.range (w.length + 1)).all fun j => (matchLengths r (w.drop j)).isEmpty

theorem noMatch_of_check {r : Hir} {w : List Char} (h : noMatchCheck r w) : NoMatch r w := by
  simp only [noMatchCheck, List.all_eq_true, List.mem_range, List.isEmpty_iff] at h
  exact fun j hj => h j (Nat.lt_succ_of_le hj)

/-- A check that `w ++ [c]` blocks `r`: `r` reads neither its first character nor `c`, and
matches nowhere in `w`. -/
def blocksCheck (r : Hir) (w : List Char) (c : Char) : Bool :=
  (w ++ [c]).head?.all r.rejects && r.rejects c && noMatchCheck r w

theorem blocks_of_check {r : Hir} {w : List Char} {c : Char} (h : blocksCheck r w c) :
    Blocks r (w ++ [c]) := by
  simp only [blocksCheck, Bool.and_eq_true] at h
  obtain ⟨⟨hh, hc⟩, hw⟩ := h
  refine ⟨?_, fun j hj t => ?_⟩
  · obtain ⟨c₀, rest, he⟩ := List.exists_cons_of_ne_nil (by simp : w ++ [c] ≠ [])
    rw [he] at hh
    exact ⟨c₀, rest, he, by simpa using hh⟩
  · simp only [List.length_append, List.length_singleton] at hj
    rw [List.drop_append_of_le_length (by omega), List.append_assoc, List.singleton_append,
      matchLengths_append_cons hc, noMatch_of_check hw j (by omega)]

section Blocked

variable {r r' : Hir} {rep : List Char} (hr : ∀ s, ∀ n ∈ matchLengths r s, 0 < n)
  (hr' : ∀ s, ∀ n ∈ matchLengths r' s, 0 < n) (hb : Blocks r rep)
include hr hr' hb

/-- Rewriting with `r'` and a replacement that blocks `r` leaves no match of `r`, where
`r` matched only where `r'` did. A match of `r` in the output would start in text the
rewrite kept, end before the replacement that follows it, and so have been a match there. -/
theorem noMatch_rewrite (t : List Char)
    (ht : ∀ j ≤ t.length, matchLengths r' (t.drop j) = [] → matchLengths r (t.drop j) = []) :
    NoMatch r (rewrite r' rep t) := by
  match t with
  | [] =>
    intro j hj
    rw [rewrite_nil, List.length_nil, Nat.le_zero] at hj
    rw [hj, rewrite_nil]
    exact matchLengths_nil_of_pos hr
  | c :: t =>
    by_cases h : ∃ n, (matchLengths r' (c :: t)).head? = some (n + 1)
    · obtain ⟨n, hn⟩ := h
      have hnl := matchLengths_bounded r' _ _ (List.mem_of_mem_head? hn)
      have ih := noMatch_rewrite (t.drop n) fun j hj => by
        have := ht (n + 1 + j) (by simp at hj hnl ⊢; omega)
        rwa [← List.drop_drop, List.drop_succ_cons] at this
      rw [rewrite_of_head hn]
      intro j hj
      by_cases hjr : j < rep.length
      · rw [List.drop_append_of_le_length hjr.le]
        exact hb.inside j hjr _
      · rw [List.drop_append_eq_append_drop, List.drop_eq_nil_of_le (by omega),
          List.nil_append]
        exact ih (j - rep.length) (by simp at hj ⊢; omega)
    · have hnil : matchLengths r' (c :: t) = [] := by
        cases hm : matchLengths r' (c :: t) with
        | nil => rfl
        | cons n ns =>
          obtain ⟨k, rfl⟩ : ∃ k, n = k + 1 :=
            ⟨n - 1, by have := hr' _ n (hm ▸ List.mem_cons_self n ns); omega⟩
          exact absurd ⟨k, by simp [hm]⟩ h
      have ih := noMatch_rewrite t fun j hj => ht (j + 1) (by simp; omega)
      rw [rewrite_of_head_none (by simp [hnil])]
      rintro (_ | j) hj
      · obtain ⟨c₀, rest, hrep, hc₀⟩ := hb.head
        have hc := ht 0 (Nat.zero_le _) hnil
        rw [List.drop_zero] at hc ⊢
        rcases rewrite_eq_or r' rep t with he | ⟨g, x, y, rfl, he⟩
        · rwa [he]
        · rw [he, hrep, List.append_assoc, List.cons_append, ← List.cons_append,
            matchLengths_append_cons hc₀]
          by_contra hg
          exact matchLengths_append_ne_nil x hg hc
      · exact ih j (by simpa using hj)
termination_by t.length
decreasing_by all_goals simp only [List.length_drop, List.length_cons]; omega

end Blocked

end RingRtc.Regex
