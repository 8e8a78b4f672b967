import RingRtc.Regex.Semantics

/-! # What every match of a pattern must look like

Checks computed from the parsed pattern alone, each with its soundness theorem over every
input. A set of characters is a list of ranges, as in a class. `nullOr S r` says that every
match of `r` is empty or starts with a character of `S`, and `nonNullable r` that no match
is empty, so that `startsIn S r`, both at once, says that every match starts in `S`;
`endsIn S r` that every match ends with a character of `S`; `pairIn A B r` that every match
has a character of `A` right before one of `B`; `mustLeave K r` that every match has a
character outside `K`, and `runIn K C r` that every match is a run of characters of `K`,
possibly followed by a character of `C` and anything, so that `leadsTo K C r`, both at once,
says that every match is such a run and then a character of `C`. The redaction proofs run
them on the concrete patterns by `decide`.
-/
namespace RingRtc.Regex

/-- Every range of `rs` lies inside a range of `S`. -/
def rangesWithin (S rs : List (Char × Char)) : Bool :=
  rs.all fun r => S.any fun k => k.1.toNat ≤ r.1.toNat && r.2.toNat ≤ k.2.toNat

theorem inClass_of_rangesWithin {S rs : List (Char × Char)} {c : Char}
    (h : rangesWithin S rs) (hc : inClass rs c) : inClass S c := by
  simp only [rangesWithin, inClass, List.all_eq_true, List.any_eq_true, Bool.and_eq_true,
    decide_eq_true_eq] at h hc ⊢
  obtain ⟨r, hr, h₁, h₂⟩ := hc
  obtain ⟨k, hk, h₃, h₄⟩ := h r hr
  exact ⟨k, hk, by omega, by omega⟩

/-- Every range of `rs` lies outside every range of `S`. -/
def rangesOutside (S rs : List (Char × Char)) : Bool :=
  rs.all fun r => S.all fun k => r.2.toNat < k.1.toNat || k.2.toNat < r.1.toNat

theorem not_inClass_of_rangesOutside {S rs : List (Char × Char)} {c : Char}
    (h : rangesOutside S rs) (hc : inClass rs c) : inClass S c = false := by
  simp only [rangesOutside, inClass, List.all_eq_true, List.any_eq_true, Bool.and_eq_true,
    Bool.or_eq_true, decide_eq_true_eq, List.any_eq_false, not_and, not_le] at h hc ⊢
  obtain ⟨r, hr, h₁, h₂⟩ := hc
  intro k hk h₃
  rcases h r hr k hk with h₄ | h₄ <;> omega

theorem inClass_append {S T : List (Char × Char)} {c : Char} :
    inClass (S ++ T) c = (inClass S c || inClass T c) := by
  simp [inClass, List.any_append]

namespace Hir

def nonNullable : Hir → Bool
  | empty => false
  | cls _ => true
  | cat r t => r.nonNullable || t.nonNullable
  | alt r t => r.nonNullable && t.nonNullable
  | rep r lo _ => 0 < lo && r.nonNullable

def nullOr (S : List (Char × Char)) : Hir → Bool
  | empty => true
  | cls rs => rangesWithin S rs
  | cat r t => r.nullOr S && (r.nonNullable || t.nullOr S)
  | alt r t => r.nullOr S && t.nullOr S
  | rep r _ _ => r.nullOr S

def startsIn (S : List (Char × Char)) (r : Hir) : Bool := r.nullOr S && r.nonNullable

def endsIn (S : List (Char × Char)) : Hir → Bool
  | empty => false
  | cls rs => rangesWithin S rs
  | cat _ t => t.endsIn S
  | alt r t => r.endsIn S && t.endsIn S
  | rep r lo _ => 0 < lo && r.endsIn S

def pairIn (A B : List (Char × Char)) : Hir → Bool
  | empty => false
  | cls _ => false
  | cat r t => r.pairIn A B || t.pairIn A B || (r.endsIn A && t.startsIn B)
  | alt r t => r.pairIn A B && t.pairIn A B
  | rep r lo _ => 0 < lo && r.pairIn A B

def mustLeave (K : List (Char × Char)) : Hir → Bool
  | empty => false
  | cls rs => rangesOutside K rs
  | cat r t => r.mustLeave K || t.mustLeave K
  | alt r t => r.mustLeave K && t.mustLeave K
  | rep r lo _ => 0 < lo && r.mustLeave K

def runIn (K C : List (Char × Char)) : Hir → Bool
  | empty => true
  | cls rs => rangesWithin (K ++ C) rs
  | cat r t => r.runIn K C && (r.mustLeave K || t.runIn K C)
  | alt r t => r.runIn K C && t.runIn K C
  | rep r _ _ => r.runIn K C

def leadsTo (K C : List (Char × Char)) (r : Hir) : Bool := r.runIn K C && r.mustLeave K

end Hir

open Hir

theorem mem_cls_eq {rs : List (Char × Char)} {s : List Char} {n : Nat}
    (h : n ∈ matchLengths (cls rs) s) : ∃ d t, s = d :: t ∧ inClass rs d ∧ n = 1 := by
  rcases s with _ | ⟨d, t⟩
  · simp at h
  · simp only [matchLengths_cls_cons] at h
    split at h <;> simp_all

/-- A repetition run at least once starts with a match of its body. -/
theorem rep_first_mem {r : Hir} {lo : Nat} {hi : Option Nat} {s : List Char} {n : Nat}
    (h : n ∈ matchLengths (rep r lo hi) s) (hlo : 0 < lo) : ∃ k ∈ matchLengths r s, k ≤ n := by
  obtain ⟨lo, rfl⟩ : ∃ l, lo = l + 1 := ⟨lo - 1, by omega⟩
  obtain ⟨k, hk, m, -, rfl⟩ := mem_andThen.1 h
  exact ⟨k, hk, Nat.le_add_right k m⟩

section Sound

variable {S : List (Char × Char)}

theorem nonNullable_sound : ∀ {r : Hir} {s : List Char} {n : Nat}, n ∈ matchLengths r s →
    r.nonNullable → 0 < n
  | empty, _, _, _, hc => by cases hc
  | cls rs, s, n, h, _ => by
    obtain ⟨d, t, rfl, -, rfl⟩ := mem_cls_eq h
    exact Nat.one_pos
  | cat r t, s, n, h, hc => by
    simp only [nonNullable, Bool.or_eq_true] at hc
    obtain ⟨k, hk, m, hm, rfl⟩ := mem_andThen.1 h
    rcases hc with hc | hc
    · exact Nat.add_pos_left (nonNullable_sound hk hc) m
    · exact Nat.add_pos_right k (nonNullable_sound hm hc)
  | alt r t, s, n, h, hc => by
    simp only [nonNullable, Bool.and_eq_true] at hc
    rcases List.mem_append.1 h with h | h
    exacts [nonNullable_sound h hc.1, nonNullable_sound h hc.2]
  | rep r lo hi, s, n, h, hc => by
    simp only [nonNullable, Bool.and_eq_true, decide_eq_true_eq] at hc
    obtain ⟨k, hk, hkn⟩ := rep_first_mem h hc.1
    exact Nat.lt_of_lt_of_le (nonNullable_sound hk hc.2) hkn

theorem nullOr_add {s : List Char} {k m : Nat} (hk : k = 0 ∨ ∃ d ∈ s.head?, inClass S d)
    (hm : m = 0 ∨ ∃ d ∈ (s.drop k).head?, inClass S d) :
    k + m = 0 ∨ ∃ d ∈ s.head?, inClass S d := by
  rcases hk with rfl | hd
  · simpa using hm
  · exact .inr hd

theorem nullOr_sound : ∀ {r : Hir} {s : List Char} {n : Nat}, n ∈ matchLengths r s →
    r.nullOr S → n = 0 ∨ ∃ d ∈ s.head?, inClass S d
  | empty, _, _, h, _ => .inl (by simpa using h)
  | cls rs, s, n, h, hc => by
    obtain ⟨d, t, rfl, hd, rfl⟩ := mem_cls_eq h
    exact .inr ⟨d, rfl, inClass_of_rangesWithin hc hd⟩
  | cat r t, s, n, h, hc => by
    simp only [nullOr, Bool.and_eq_true, Bool.or_eq_true] at hc
    obtain ⟨k, hk, m, hm, rfl⟩ := mem_andThen.1 h
    rcases hc.2 with hn | ht
    · exact .inr ((nullOr_sound hk hc.1).resolve_left (nonNullable_sound hk hn).ne')
    · exact nullOr_add (nullOr_sound hk hc.1) (nullOr_sound hm ht)
  | alt r t, s, n, h, hc => by
    simp only [nullOr, Bool.and_eq_true] at hc
    rcases List.mem_append.1 h with h | h
    exacts [nullOr_sound h hc.1, nullOr_sound h hc.2]
  | rep r lo hi, s, n, h, hc => by
    simp only [nullOr] at hc
    exact repLengths_closed (fun s n => n = 0 ∨ ∃ d ∈ s.head?, inClass S d)
      (fun _ _ _ => nullOr_add) (fun _ => .inl rfl) (fun _ _ hk => nullOr_sound hk hc) lo hi s n h

theorem startsIn_sound {r : Hir} {s : List Char} {n : Nat} (h : n ∈ matchLengths r s)
    (hr : r.startsIn S) : 0 < n ∧ ∃ d ∈ s.head?, inClass S d := by
  simp only [startsIn, Bool.and_eq_true] at hr
  have hn := nonNullable_sound h hr.2
  exact ⟨hn, (nullOr_sound h hr.1).resolve_left hn.ne'⟩

theorem getLast?_take_add {s : List Char} {k m : Nat} {d : Char}
    (h : ((s.drop k).take m).getLast? = some d) : (s.take (k + m)).getLast? = some d := by
  rw [List.take_add, List.getLast?_append, h]
  rfl

theorem endsIn_add {s : List Char} {k m : Nat}
    (hk : k = 0 ∨ ∃ d ∈ (s.take k).getLast?, inClass S d)
    (hm : m = 0 ∨ ∃ d ∈ ((s.drop k).take m).getLast?, inClass S d) :
    k + m = 0 ∨ ∃ d ∈ (s.take (k + m)).getLast?, inClass S d := by
  rcases hm with rfl | ⟨d, hd, hS⟩
  · exact hk
  · exact .inr ⟨d, getLast?_take_add hd, hS⟩

theorem endsIn_sound : ∀ {r : Hir} {s : List Char} {n : Nat}, n ∈ matchLengths r s →
    r.endsIn S → ∃ d ∈ (s.take n).getLast?, inClass S d
  | empty, _, _, _, hc => by cases hc
  | cls rs, s, n, h, hc => by
    obtain ⟨d, t, rfl, hd, rfl⟩ := mem_cls_eq h
    exact ⟨d, rfl, inClass_of_rangesWithin hc hd⟩
  | cat r t, s, n, h, hc => by
    obtain ⟨k, -, m, hm, rfl⟩ := mem_andThen.1 h
    obtain ⟨d, hd, hS⟩ := endsIn_sound hm hc
    exact ⟨d, getLast?_take_add hd, hS⟩
  | alt r t, s, n, h, hc => by
    simp only [endsIn, Bool.and_eq_true] at hc
    rcases List.mem_append.1 h with h | h
    exacts [endsIn_sound h hc.1, endsIn_sound h hc.2]
  | rep r lo hi, s, n, h, hc => by
    simp only [endsIn, Bool.and_eq_true, decide_eq_true_eq] at hc
    obtain ⟨lo, rfl⟩ : ∃ l, lo = l + 1 := ⟨lo - 1, by omega⟩
    obtain ⟨k, hk, m, hm, rfl⟩ := mem_andThen.1 h
    have hrest := repLengths_closed (fun s n => n = 0 ∨ ∃ d ∈ (s.take n).getLast?, inClass S d)
      (fun _ _ _ => endsIn_add) (fun _ => .inl rfl) (fun _ _ hk => .inr (endsIn_sound hk hc.2))
      lo _ _ m hm
    rcases hrest with rfl | ⟨d, hd, hS⟩
    · exact endsIn_sound hk hc.2
    · exact ⟨d, getLast?_take_add hd, hS⟩

end Sound

section Pairs

variable {A B K C : List (Char × Char)}

theorem pairIn_sound : ∀ {r : Hir} {s : List Char} {n : Nat}, n ∈ matchLengths r s →
    r.pairIn A B → ∃ x y, inClass A x ∧ inClass B y ∧ [x, y] <:+: s.take n
  | empty, _, _, _, hc => by cases hc
  | cls _, _, _, _, hc => by cases hc
  | cat r t, s, n, h, hc => by
    simp only [pairIn, Bool.or_eq_true, Bool.and_eq_true] at hc
    obtain ⟨k, hk, m, hm, rfl⟩ := mem_andThen.1 h
    rw [List.take_add]
    rcases hc with (hc | hc) | ⟨hr, ht⟩
    · obtain ⟨x, y, hx, hy, hxy⟩ := pairIn_sound hk hc
      exact ⟨x, y, hx, hy, hxy.trans (List.prefix_append _ _).isInfix⟩
    · obtain ⟨x, y, hx, hy, hxy⟩ := pairIn_sound hm hc
      exact ⟨x, y, hx, hy, hxy.trans (List.suffix_append _ _).isInfix⟩
    · obtain ⟨x, hx, hxA⟩ := endsIn_sound hk hr
      obtain ⟨hm0, y, hy, hyB⟩ := startsIn_sound hm ht
      obtain ⟨u, hu⟩ := List.getLast?_eq_some_iff.1 hx
      obtain ⟨v, hv⟩ := List.head?_eq_some_iff.1 hy
      obtain ⟨m, rfl⟩ : ∃ m', m = m' + 1 := ⟨m - 1, by omega⟩
      exact ⟨x, y, hxA, hyB, ⟨u, v.take m, by rw [hu, hv]; simp⟩⟩
  | alt r t, s, n, h, hc => by
    simp only [pairIn, Bool.and_eq_true] at hc
    rcases List.mem_append.1 h with h | h
    exacts [pairIn_sound h hc.1, pairIn_sound h hc.2]
  | rep r lo hi, s, n, h, hc => by
    simp only [pairIn, Bool.and_eq_true, decide_eq_true_eq] at hc
    obtain ⟨k, hk, hkn⟩ := rep_first_mem h hc.1
    obtain ⟨x, y, hx, hy, hxy⟩ := pairIn_sound hk hc.2
    exact ⟨x, y, hx, hy, hxy.trans (List.take_prefix_take_left s hkn).isInfix⟩

/-- A run of characters of `K`, or such a run, then a character of `C`, then anything. -/
def RunIn (K C : List (Char × Char)) (m : List Char) : Prop :=
  (∀ d ∈ m, inClass K d) ∨ ∃ u c v, m = u ++ c :: v ∧ (∀ d ∈ u, inClass K d) ∧ inClass C c

theorem RunIn.append {m₁ m₂ : List Char} (h₁ : RunIn K C m₁)
    (h₂ : (∃ d ∈ m₁, inClass K d = false) ∨ RunIn K C m₂) : RunIn K C (m₁ ++ m₂) := by
  rcases h₁ with h₁ | ⟨u, c, v, rfl, hu, hc⟩
  · rcases h₂ with ⟨d, hd, hK⟩ | h₂ | ⟨u, c, v, rfl, hu, hc⟩
    · simp [h₁ d hd] at hK
    · exact .inl fun d hd => (List.mem_append.1 hd).elim (h₁ d) (h₂ d)
    · exact .inr ⟨m₁ ++ u, c, v, by simp,
        fun d hd => (List.mem_append.1 hd).elim (h₁ d) (hu d), hc⟩
  · exact .inr ⟨u, c, v ++ m₂, by simp, hu, hc⟩

theorem mustLeave_sound : ∀ {r : Hir} {s : List Char} {n : Nat}, n ∈ matchLengths r s →
    r.mustLeave K → ∃ d ∈ s.take n, inClass K d = false
  | empty, _, _, _, hc => by cases hc
  | cls rs, s, n, h, hc => by
    obtain ⟨d, t, rfl, hd, rfl⟩ := mem_cls_eq h
    exact ⟨d, by simp, not_inClass_of_rangesOutside hc hd⟩
  | cat r t, s, n, h, hc => by
    simp only [mustLeave, Bool.or_eq_true] at hc
    obtain ⟨k, hk, m, hm, rfl⟩ := mem_andThen.1 h
    rw [List.take_add]
    rcases hc with hc | hc
    · obtain ⟨d, hd, hK⟩ := mustLeave_sound hk hc
      exact ⟨d, List.mem_append_left _ hd, hK⟩
    · obtain ⟨d, hd, hK⟩ := mustLeave_sound hm hc
      exact ⟨d, List.mem_append_right _ hd, hK⟩
  | alt r t, s, n, h, hc => by
    simp only [mustLeave, Bool.and_eq_true] at hc
    rcases List.mem_append.1 h with h | h
    exacts [mustLeave_sound h hc.1, mustLeave_sound h hc.2]
  | rep r lo hi, s, n, h, hc => by
    simp only [mustLeave, Bool.and_eq_true, decide_eq_true_eq] at hc
    obtain ⟨k, hk, hkn⟩ := rep_first_mem h hc.1
    obtain ⟨d, hd, hK⟩ := mustLeave_sound hk hc.2
    exact ⟨d, List.take_subset_take_left s hkn hd, hK⟩

theorem runIn_sound : ∀ {r : Hir} {s : List Char} {n : Nat}, n ∈ matchLengths r s →
    r.runIn K C → RunIn K C (s.take n)
  | empty, _, _, h, _ => .inl (by simp_all)
  | cls rs, s, n, h, hc => by
    obtain ⟨d, t, rfl, hd, rfl⟩ := mem_cls_eq h
    have := inClass_of_rangesWithin hc hd
    rw [inClass_append, Bool.or_eq_true] at this
    rcases this with hK | hC
    · exact .inl (by simpa using hK)
    · exact .inr ⟨[], d, [], rfl, by simp, hC⟩
  | cat r t, s, n, h, hc => by
    simp only [runIn, Bool.and_eq_true, Bool.or_eq_true] at hc
    obtain ⟨k, hk, m, hm, rfl⟩ := mem_andThen.1 h
    rw [List.take_add]
    exact (runIn_sound hk hc.1).append (hc.2.imp (mustLeave_sound hk) (runIn_sound hm))
  | alt r t, s, n, h, hc => by
    simp only [runIn, Bool.and_eq_true] at hc
    rcases List.mem_append.1 h with h | h
    exacts [runIn_sound h hc.1, runIn_sound h hc.2]
  | rep r lo hi, s, n, h, hc => by
    simp only [runIn] at hc
    exact repLengths_closed (fun s n => RunIn K C (s.take n))
      (fun s k m hk hm => by dsimp only at hk hm ⊢; rw [List.take_add]; exact hk.append (.inr hm))
      (fun _ => .inl (by simp)) (fun _ _ hk => runIn_sound hk hc) lo hi s n h

theorem leadsTo_sound {r : Hir} {s : List Char} {n : Nat} (h : n ∈ matchLengths r s)
    (hr : r.leadsTo K C) :
    ∃ u c v, s.take n = u ++ c :: v ∧ (∀ d ∈ u, inClass K d) ∧ inClass C c := by
  simp only [leadsTo, Bool.and_eq_true] at hr
  obtain ⟨d, hd, hK⟩ := mustLeave_sound h hr.2
  exact (runIn_sound h hr.1).resolve_left fun hm => by simp [hm d hd] at hK

end Pairs

/-! Each check, with text that offers no place for what it asks, rules out every match. -/

theorem matchLengths_eq_nil_of_head {S : List (Char × Char)} {r : Hir} {s : List Char}
    (hr : r.startsIn S) (hs : ∀ d ∈ s.head?, inClass S d = false) : matchLengths r s = [] :=
  List.eq_nil_iff_forall_not_mem.2 fun _ hn => by
    obtain ⟨-, d, hd, hS⟩ := startsIn_sound hn hr
    simp [hs d hd] at hS

theorem matchLengths_eq_nil_of_pairIn {A B : List (Char × Char)} {r : Hir} {s : List Char}
    (hr : r.pairIn A B) (hs : ∀ x y, inClass A x → inClass B y → ¬[x, y] <:+: s) :
    matchLengths r s = [] :=
  List.eq_nil_iff_forall_not_mem.2 fun _ hn => by
    obtain ⟨x, y, hx, hy, hxy⟩ := pairIn_sound hn hr
    exact hs x y hx hy (hxy.trans (List.take_prefix _ s).isInfix)

theorem matchLengths_eq_nil_of_leadsTo {K C : List (Char × Char)} {r : Hir} {s : List Char}
    (hr : r.leadsTo K C)
    (hs : ∀ u c v, s = u ++ c :: v → (∀ d ∈ u, inClass K d) → inClass C c → False) :
    matchLengths r s = [] :=
  List.eq_nil_iff_forall_not_mem.2 fun n hn => by
    obtain ⟨u, c, v, huv, hu, hc⟩ := leadsTo_sound hn hr
    have hs' := List.take_append_drop n s
    rw [huv] at hs'
    exact hs u c (v ++ s.drop n) (by simpa using hs'.symm) hu hc

end RingRtc.Regex
