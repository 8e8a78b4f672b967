import RingRtc.Regex.Analysis

/-! # Searching and replacing

`find_at` reports, from a start position on, the leftmost position where the pattern
matches, with the end of its first match in priority order. `find_iter` is the loop of the
crate's `Matches::next`: the next search starts where the last match ended, an empty match
moves it one character further, and an empty match right at the end of the last match is
skipped. `replace_all` with a replacement that expands no group is `replacen` with no
limit: it copies the text between the matches and puts the replacement in place of each.

Text is its list of characters, and positions count characters: the crate's byte offsets
only ever fall on character boundaries, and `replace_all` reads them only to slice.
-/
namespace RingRtc.Regex

/-- The leftmost match in the suffix `t`, which starts at position `i` of the text. -/
def firstMatch (r : Hir) : List Char → Nat → Option (Nat × Nat)
  | [], i => (matchLengths r []).head?.map fun n => (i, i + n)
  | c :: t, i =>
    match (matchLengths r (c :: t)).head? with
    | some n => some (i, i + n)
    | none => firstMatch r t (i + 1)

/-- `Regex::find_at`. -/
def findAt (r : Hir) (text : List Char) (start : Nat) : Option (Nat × Nat) :=
  firstMatch r (text.drop start) start

/-- The loop of `Matches::next`, from the search start `lastEnd` and the end of the last
match reported. -/
def findIterAux (r : Hir) (text : List Char) : Nat → Nat → Option Nat → List (Nat × Nat)
  | 0, _, _ => []
  | fuel + 1, lastEnd, lastMatch =>
    if text.length < lastEnd then [] else
    match findAt r text lastEnd with
    | none => []
    | some (s, e) =>
      if s = e then
        if some e = lastMatch then findIterAux r text fuel (e + 1) lastMatch
        else (s, e) :: findIterAux r text fuel (e + 1) (some e)
      else (s, e) :: findIterAux r text fuel e (some e)

/-- `Regex::find_iter`. Every turn of the loop moves the search start on, and the loop stops
once it passes the end, so it turns at most `text.length + 2` times. -/
def findIter (r : Hir) (text : List Char) : List (Nat × Nat) :=
  findIterAux r text (text.length + 2) 0 none

/-- `Regex::replace_all` with a replacement that expands no capture group. -/
def replaceAll (r : Hir) (text rep : List Char) : List Char :=
  match findIter r text with
  | [] => text
  | ms =>
    let (acc, lastMatch) := ms.foldl (fun (acc : List Char × Nat) (m : Nat × Nat) =>
      (acc.1 ++ (text.drop acc.2).take (m.1 - acc.2) ++ rep, m.2)) ([], 0)
    acc ++ text.drop lastMatch

section Scan

variable {r : Hir}

/-- No match anywhere in `t`: the search finds nothing. -/
theorem firstMatch_eq_none :
    ∀ {t : List Char} {i : Nat}, (∀ j ≤ t.length, matchLengths r (t.drop j) = []) →
      firstMatch r t i = none
  | [], i, h => by
    have h₀ := h 0 le_rfl
    simp only [List.drop_zero] at h₀
    simp [firstMatch, h₀]
  | c :: t, i, h => by
    have h₀ := h 0 (Nat.zero_le _)
    simp only [List.drop_zero] at h₀
    simp only [firstMatch, h₀, List.head?_nil]
    exact firstMatch_eq_none fun j hj => h (j + 1) (by simp; omega)

/-- The search passes over positions where the pattern does not match. -/
theorem firstMatch_append :
    ∀ {p t : List Char} {i : Nat}, (∀ j < p.length, matchLengths r ((p ++ t).drop j) = []) →
      firstMatch r (p ++ t) i = firstMatch r t (i + p.length)
  | [], t, i, _ => rfl
  | c :: p, t, i, h => by
    have h₀ := h 0 (by simp)
    rw [List.drop_zero, List.cons_append] at h₀
    rw [List.cons_append, firstMatch, h₀, List.head?_nil]
    dsimp only
    rw [firstMatch_append fun j hj => h (j + 1) (by simp; omega), List.length_cons]
    ac_rfl

theorem firstMatch_of_head {t : List Char} {i n : Nat}
    (h : (matchLengths r t).head? = some n) : firstMatch r t i = some (i, i + n) := by
  cases t <;> simp [firstMatch, h]

end Scan

section Replace

variable {r : Hir}

/-- Where the pattern matches nowhere, `find_iter` yields nothing. -/
theorem findIter_eq_nil {text : List Char}
    (h : ∀ j ≤ text.length, matchLengths r (text.drop j) = []) : findIter r text = [] := by
  simp only [findIter, findIterAux, Nat.not_lt_zero, if_false, findAt, List.drop_zero,
    firstMatch_eq_none h]

/-- Where the pattern matches nowhere, `replace_all` leaves the text as it is. -/
theorem replaceAll_of_no_match {text : List Char} (rep : List Char)
    (h : ∀ j ≤ text.length, matchLengths r (text.drop j) = []) : replaceAll r text rep = text := by
  simp [replaceAll, findIter_eq_nil h]

section Single

variable {p m s : List Char}
  (hp : ∀ j < p.length, matchLengths r ((p ++ m ++ s).drop j) = [])
  (hm : (matchLengths r (m ++ s)).head? = some m.length) (hpos : 0 < m.length)
  (hs : ∀ j ≤ s.length, matchLengths r (s.drop j) = [])
include hp hm hpos hs

/-- One non-empty match, and no match starting before it or after its end: `find_iter`
yields that match alone. -/
theorem findIter_single : findIter r (p ++ m ++ s) = [(p.length, p.length + m.length)] := by
  have first : findAt r (p ++ m ++ s) 0 = some (p.length, p.length + m.length) := by
    rw [findAt, List.drop_zero, List.append_assoc, firstMatch_append (by simpa using hp),
      firstMatch_of_head hm, Nat.zero_add]
  have rest : findAt r (p ++ m ++ s) (p.length + m.length) = none := by
    rw [findAt, ← List.length_append, List.drop_left]
    exact firstMatch_eq_none hs
  have hlen : (p ++ m ++ s).length + 2 = ((p ++ m ++ s).length + 1) + 1 := rfl
  rw [findIter, hlen, findIterAux, if_neg (Nat.not_lt_zero _), first]
  dsimp only
  rw [if_neg (by omega), findIterAux, if_neg (by simp), rest]

/-- One non-empty match, and no match starting before it or after its end: `replace_all`
puts the replacement in its place and keeps all the rest. -/
theorem replaceAll_single (rep : List Char) : replaceAll r (p ++ m ++ s) rep = p ++ rep ++ s := by
  rw [replaceAll, findIter_single hp hm hpos hs]
  have : (p ++ m ++ s).drop (p.length + m.length) = s := by
    rw [← List.length_append, List.drop_left]
  simp [this, List.append_assoc]

end Single

end Replace

end RingRtc.Regex
