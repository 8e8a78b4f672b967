import RingRtc.Regex.Semantics

/-! # Matching delimited words

The redaction patterns are made of repeated classes, single delimiters, and parts repeated
an exact number of times. On a word of characters of a class ended by a character outside
it, a bounded repetition of the class matches every length from the whole word down,
longest first, and so does an unbounded one on a non-empty word; a delimiter the word does
not contain keeps only the whole word; and a part that matches each of a list of words
exactly once, repeated as many times as there are words, matches their concatenation
exactly once.
-/
namespace RingRtc.Regex

open Hir

theorem range'_reverse_of_pos {n : Nat} (h : 0 < n) :
    (List.range' 1 n).reverse = n :: (List.range' 1 (n - 1)).reverse := by
  obtain ⟨k, rfl⟩ : ∃ k, n = k + 1 := ⟨n - 1, by omega⟩
  simp [List.range'_concat, Nat.add_comm]

theorem matchLengths_cls_of_head {rs : List (Char × Char)} {t : List Char}
    (ht : ∀ c ∈ t.head?, inClass rs c = false) : matchLengths (cls rs) t = [] := by
  cases t with
  | nil => rfl
  | cons c t => simp [ht c rfl]

/-- Up to `k` greedy iterations of a class, over a word of at most `k` of its characters
ended by a character outside it: every length from the whole word down to none. -/
theorem optLengths_cls {rs : List (Char × Char)} {t : List Char}
    (ht : ∀ c ∈ t.head?, inClass rs c = false) :
    ∀ (w : List Char) (k : Nat), (∀ c ∈ w, inClass rs c) → w.length ≤ k →
      optLengths (matchLengths (cls rs)) k (w ++ t) = (List.range' 0 (w.length + 1)).reverse
  | [], 0, _, _ => rfl
  | [], k + 1, _, _ => by simp [optLengths, matchLengths_cls_of_head ht]
  | c :: w, k + 1, hw, hk => by
    have ih := optLengths_cls ht w k (fun d hd => hw d (List.mem_cons_of_mem c hd))
      (by simp at hk; omega)
    simp only [optLengths, List.cons_append, matchLengths_cls_cons,
      hw c (List.mem_cons_self c w), if_true, andThen_cons, andThen_nil, List.append_nil,
      List.drop_succ_cons, List.drop_zero, ih, List.length_cons]
    rw [List.range'_succ 0 (w.length + 1), List.reverse_cons, List.map_reverse,
      List.map_add_range']

/-- `[rs]{1,k+1}` over a non-empty word of at most `k + 1` characters of the class, ended by
a character outside it: every length from the whole word down to one. -/
theorem matchLengths_rep_cls {rs : List (Char × Char)} {w t : List Char} {k : Nat}
    (hw : ∀ c ∈ w, inClass rs c) (hpos : 0 < w.length) (hk : w.length ≤ k + 1)
    (ht : ∀ c ∈ t.head?, inClass rs c = false) :
    matchLengths (rep (cls rs) 1 (some (k + 1))) (w ++ t) = (List.range' 1 w.length).reverse := by
  obtain ⟨c, w, rfl⟩ := List.exists_cons_of_length_pos hpos
  have ih := optLengths_cls ht w k (fun d hd => hw d (List.mem_cons_of_mem c hd))
    (by simp at hk; omega)
  simp only [matchLengths_rep, repLengths, List.cons_append, matchLengths_cls_cons,
    hw c (List.mem_cons_self c w), if_true, andThen_cons, andThen_nil, List.append_nil,
    List.drop_succ_cons, List.drop_zero, Option.map_some', Nat.add_sub_cancel, ih,
    List.length_cons]
  rw [List.map_reverse, List.map_add_range']

/-- Each iteration of a class reads one character, so its unbounded repetition is its
bounded one. -/
theorem starLengths_cls (rs : List (Char × Char)) :
    ∀ n s, starLengths (matchLengths (cls rs)) n s = optLengths (matchLengths (cls rs)) n s
  | 0, _ => rfl
  | n + 1, s => by
    have hf : (matchLengths (cls rs) s).filter (0 < ·) = matchLengths (cls rs) s := by
      cases s with
      | nil => rfl
      | cons c s => simp only [matchLengths_cls_cons]; split <;> rfl
    rw [starLengths, optLengths, hf, andThen_congr fun k _ => starLengths_cls rs n _]

/-- `[rs]+` over a non-empty word of the class ended by a character outside it: every length
from the whole word down to one. -/
theorem matchLengths_plus_cls {rs : List (Char × Char)} {w t : List Char}
    (hw : ∀ c ∈ w, inClass rs c) (hpos : 0 < w.length)
    (ht : ∀ c ∈ t.head?, inClass rs c = false) :
    matchLengths (rep (cls rs) 1 none) (w ++ t) = (List.range' 1 w.length).reverse := by
  obtain ⟨c, w, rfl⟩ := List.exists_cons_of_length_pos hpos
  have ih := optLengths_cls ht w (w ++ t).length (fun d hd => hw d (List.mem_cons_of_mem c hd))
    (by simp)
  simp only [matchLengths_rep, repLengths, List.cons_append, matchLengths_cls_cons,
    hw c (List.mem_cons_self c w), if_true, andThen_cons, andThen_nil, List.append_nil,
    List.drop_succ_cons, List.drop_zero, Option.map_none', starLengths_cls, ih, List.length_cons]
  rw [List.map_reverse, List.map_add_range']

/-- A part that matches every length of a word, longest first, then a delimiter the word does
not contain: the two match once, the whole word and the delimiter. -/
theorem matchLengths_cat_lit {r : Hir} {w t : List Char} {d : Char} (hw : d ∉ w)
    (hpos : 0 < w.length) (hr : matchLengths r (w ++ d :: t) = (List.range' 1 w.length).reverse) :
    matchLengths (cat r (lit d)) (w ++ d :: t) = [w.length + 1] := by
  rw [matchLengths_cat, hr, range'_reverse_of_pos hpos, andThen_cons,
    List.drop_append_of_le_length le_rfl, List.drop_length, andThen_eq_nil]
  · simp [lit, inClass]
  · intro n hn
    have hlt : n < w.length := by simp at hn; omega
    have hdrop : (w ++ d :: t).drop n = w[n] :: ((w ++ d :: t).drop (n + 1)) := by
      rw [List.drop_eq_getElem_cons (by simp; omega), List.getElem_append_left hlt]
    rw [hdrop, lit, matchLengths_cls_cons, if_neg]
    rw [inClass_single]
    rintro h
    exact hw (h ▸ List.getElem_mem hlt)

/-- A part that matches each of a list of words exactly once, as a whole, whatever follows:
repeated as many times as there are words, it matches their concatenation exactly once. -/
theorem matchLengths_rep_exact {r : Hir} (t : List Char) :
    ∀ ws : List (List Char), (∀ w ∈ ws, ∀ t, matchLengths r (w ++ t) = [w.length]) →
      matchLengths (rep r ws.length (some ws.length)) (ws.flatten ++ t) = [ws.flatten.length]
  | [], _ => rfl
  | w :: ws, h => by
    have ih := matchLengths_rep_exact t ws fun w' hw' => h w' (List.mem_cons_of_mem w hw')
    simp only [matchLengths_rep] at ih ⊢
    simp only [List.length_cons, repLengths, Option.map_some', Nat.add_sub_cancel,
      List.flatten_cons, List.append_assoc, h w (List.mem_cons_self w ws), andThen_cons,
      andThen_nil, List.append_nil, List.drop_left, ih, List.map_cons, List.map_nil,
      List.length_append]

end RingRtc.Regex
