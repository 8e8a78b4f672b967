import RingRtc.Regex.Syntax

/-! # Leftmost-first matching

`matchLengths r s` lists the lengths of the matches of `r` at the start of `s` in the order
a backtracking matcher tries them: the left branch of an alternation first, and a greedy
repetition with more iterations first. The `regex` crate's leftmost-first semantics are
defined by this order: at a position, it reports the first entry. Its compiler unrolls
`r{m,n}` into `m` copies of `r` and `n - m` nested greedy options, which `optLengths`
follows. An iteration of an unbounded repetition has to consume a character, so
`starLengths` stops after as many iterations as there are characters left.

The general facts proved here are that a match never reaches past the end of its input,
that a character every class of `r` rejects cuts the input for `r` (what follows it is
never read), and that appending text keeps every match.
-/
namespace RingRtc.Regex

/-- Sequencing: each way the first part can end, then each way the second part can end from
there, in priority order. -/
def andThen (ns : List Nat) (g : List Char → List Nat) (s : List Char) : List Nat :=
  ns.flatMap fun n => (g (s.drop n)).map (n + ·)

section Iterate

variable (f : List Char → List Nat)

/-- Up to `k` more greedy iterations, `(r(r…)?)?`. -/
def optLengths : Nat → List Char → List Nat
  | 0, _ => [0]
  | k + 1, s => andThen (f s) (optLengths k) s ++ [0]

/-- Greedy unbounded iteration, at most `fuel` iterations, each consuming a character. -/
def starLengths : Nat → List Char → List Nat
  | 0, _ => [0]
  | fuel + 1, s => andThen ((f s).filter (0 < ·)) (starLengths fuel) s ++ [0]

/-- `r{lo,hi}`: `lo` iterations, then the optional ones. -/
def repLengths : Nat → Option Nat → List Char → List Nat
  | 0, some k, s => optLengths f k s
  | 0, none, s => starLengths f s.length s
  | lo + 1, hi, s => andThen (f s) (repLengths lo (hi.map (· - 1))) s

end Iterate

def matchLengths : Hir → List Char → List Nat
  | .empty, _ => [0]
  | .cls rs, c :: _ => if inClass rs c then [1] else []
  | .cls _, [] => []
  | .cat r t, s => andThen (matchLengths r s) (matchLengths t) s
  | .alt r t, s => matchLengths r s ++ matchLengths t s
  | .rep r lo hi, s => repLengths (matchLengths r) lo hi s

section Equations

variable (r t : Hir) (s : List Char)

@[simp] theorem matchLengths_empty : matchLengths .empty s = [0] := rfl
@[simp] theorem matchLengths_cls_nil (rs : List (Char × Char)) : matchLengths (.cls rs) [] = [] :=
  rfl
@[simp] theorem matchLengths_cls_cons (rs : List (Char × Char)) (c : Char) :
    matchLengths (.cls rs) (c :: s) = if inClass rs c then [1] else [] := rfl
@[simp] theorem matchLengths_cat :
    matchLengths (.cat r t) s = andThen (matchLengths r s) (matchLengths t) s := rfl
@[simp] theorem matchLengths_alt :
    matchLengths (.alt r t) s = matchLengths r s ++ matchLengths t s := rfl
@[simp] theorem matchLengths_rep (lo : Nat) (hi : Option Nat) :
    matchLengths (.rep r lo hi) s = repLengths (matchLengths r) lo hi s := rfl

end Equations

section AndThen

variable {ns : List Nat} {g g' : List Char → List Nat} {s s' : List Char}

theorem mem_andThen {m : Nat} :
    m ∈ andThen ns g s ↔ ∃ n ∈ ns, ∃ k ∈ g (s.drop n), m = n + k := by
  simp [andThen, eq_comm]

@[simp] theorem andThen_nil : andThen [] g s = [] := rfl

@[simp] theorem andThen_cons (n : Nat) :
    andThen (n :: ns) g s = (g (s.drop n)).map (n + ·) ++ andThen ns g s :=
  rfl

theorem andThen_congr (h : ∀ n ∈ ns, g (s.drop n) = g' (s'.drop n)) :
    andThen ns g s = andThen ns g' s' :=
  List.flatMap_congr fun n hn => by rw [h n hn]

theorem andThen_eq_nil (h : ∀ n ∈ ns, g (s.drop n) = []) : andThen ns g s = [] :=
  List.flatMap_eq_nil_iff.2 fun n hn => by simp [h n hn]

/-- Sequencing after a test of one character. -/
@[simp] theorem andThen_ite_one (p : Prop) [Decidable p] (c : Char) :
    andThen (if p then [1] else []) g (c :: s) = if p then (g s).map (1 + ·) else [] := by
  split <;> simp [andThen]

end AndThen

section Closed

/-! A property `Q s n` of the first `n` characters of `s` that holds of no characters, of
every match of `f`, and of two matches one after the other, holds of every match of a
repetition of `f`. -/

variable (Q : List Char → Nat → Prop) (hcat : ∀ s k m, Q s k → Q (s.drop k) m → Q s (k + m))
include hcat

theorem andThen_closed {ns : List Nat} {g : List Char → List Nat} {s : List Char}
    (hns : ∀ n ∈ ns, Q s n) (hg : ∀ n ∈ ns, ∀ m ∈ g (s.drop n), Q (s.drop n) m) :
    ∀ n ∈ andThen ns g s, Q s n := by
  intro n hn
  obtain ⟨k, hk, m, hm, rfl⟩ := mem_andThen.1 hn
  exact hcat s k m (hns k hk) (hg k hk m hm)

variable {f : List Char → List Nat} (h0 : ∀ s, Q s 0) (hf : ∀ s, ∀ k ∈ f s, Q s k)
include h0 hf

theorem optLengths_closed (k : Nat) : ∀ s, ∀ n ∈ optLengths f k s, Q s n := by
  induction k with
  | zero => intro s n hn; simp_all [optLengths]
  | succ k ih =>
    intro s n hn
    simp only [optLengths, List.mem_append, List.mem_singleton] at hn
    rcases hn with hn | rfl
    · exact andThen_closed Q hcat (hf s) (fun _ _ => ih _) n hn
    · exact h0 s

theorem starLengths_closed (fuel : Nat) : ∀ s, ∀ n ∈ starLengths f fuel s, Q s n := by
  induction fuel with
  | zero => intro s n hn; simp_all [starLengths]
  | succ k ih =>
    intro s n hn
    simp only [starLengths, List.mem_append, List.mem_singleton] at hn
    rcases hn with hn | rfl
    · exact andThen_closed Q hcat (fun n hn => hf s n (List.mem_of_mem_filter hn))
        (fun _ _ => ih _) n hn
    · exact h0 s

theorem repLengths_closed (lo : Nat) : ∀ hi s, ∀ n ∈ repLengths f lo hi s, Q s n := by
  induction lo with
  | zero =>
    rintro (_ | k) s
    · exact starLengths_closed Q hcat h0 hf _ s
    · exact optLengths_closed Q hcat h0 hf k s
  | succ lo ih => intro hi s; exact andThen_closed Q hcat (hf s) fun _ _ => ih _ _

end Closed

/-- No match runs past the end of its input. -/
def Bounded (f : List Char → List Nat) : Prop := ∀ s, ∀ n ∈ f s, n ≤ s.length

theorem bounded_add {s : List Char} {k m : Nat} (hk : k ≤ s.length)
    (hm : m ≤ (s.drop k).length) : k + m ≤ s.length := by
  rw [List.length_drop] at hm
  omega

theorem repLengths_bounded {f : List Char → List Nat} (hf : Bounded f) (lo : Nat)
    (hi : Option Nat) : Bounded (repLengths f lo hi) :=
  fun s => repLengths_closed (fun s n => n ≤ s.length) (fun _ _ _ => bounded_add)
    (fun _ => Nat.zero_le _) hf lo hi s

theorem matchLengths_bounded : ∀ r : Hir, Bounded (matchLengths r)
  | .empty, s, n, hn => by simp_all
  | .cls _, [], n, hn => by simp at hn
  | .cls rs, c :: s, n, hn => by
    simp only [matchLengths_cls_cons] at hn
    split at hn <;> simp_all
  | .cat r t, s, _, hn =>
    andThen_closed (fun s n => n ≤ s.length) (fun _ _ _ => bounded_add)
      (matchLengths_bounded r s) (fun _ _ => matchLengths_bounded t _) _ hn
  | .alt r t, s, n, hn => by
    rcases List.mem_append.1 hn with hn | hn
    exacts [matchLengths_bounded r s n hn, matchLengths_bounded t s n hn]
  | .rep r lo hi, s, n, hn => repLengths_bounded (matchLengths_bounded r) lo hi s n hn

/-- Beyond the characters there are, unbounded iteration stops: any fuel at least the
length of the input gives the same matches. -/
theorem starLengths_fuel {f : List Char → List Nat} (hf : Bounded f) :
    ∀ (a b : Nat) (s : List Char), s.length ≤ a → s.length ≤ b →
      starLengths f a s = starLengths f b s := by
  have nil : ∀ k, starLengths f k [] = [0] := by
    intro k
    cases k with
    | zero => rfl
    | succ k =>
      have : (f []).filter (0 < ·) = [] :=
        List.filter_eq_nil_iff.2 fun n hn => by simpa using hf [] n hn
      simp [starLengths, this]
  intro a
  induction a with
  | zero =>
    intro b s ha _
    rw [List.eq_nil_of_length_eq_zero (Nat.le_zero.1 ha), nil, nil]
  | succ a ih =>
    intro b s ha hb
    cases b with
    | zero => rw [List.eq_nil_of_length_eq_zero (Nat.le_zero.1 hb), nil, nil]
    | succ b =>
      simp only [starLengths]
      congr 1
      refine andThen_congr fun n hn => ih b _ ?_ ?_ <;>
      · have := List.of_mem_filter hn
        simp only [decide_eq_true_eq] at this
        simp only [List.length_drop]
        omega

/-- Every class of `r` rejects `c`. -/
def Hir.rejects (c : Char) : Hir → Bool
  | .empty => true
  | .cls rs => !inClass rs c
  | .cat r t => r.rejects c && t.rejects c
  | .alt r t => r.rejects c && t.rejects c
  | .rep r _ _ => r.rejects c

section Cut

variable {c : Char} {t : List Char} {f : List Char → List Nat}

/-- The shared step of every case below: sequencing after a cut part is cut. -/
theorem andThen_append_cons {ns : List Nat} {g : List Char → List Nat} {w : List Char}
    (hns : ∀ n ∈ ns, n ≤ w.length) (hg : ∀ w, g (w ++ c :: t) = g w) :
    andThen ns g (w ++ c :: t) = andThen ns g w :=
  andThen_congr fun n hn => by rw [List.drop_append_of_le_length (hns n hn), hg]

variable (hb : Bounded f) (hf : ∀ w, f (w ++ c :: t) = f w)
include hb hf

theorem optLengths_append_cons (k : Nat) :
    ∀ w, optLengths f k (w ++ c :: t) = optLengths f k w := by
  induction k with
  | zero => intro w; rfl
  | succ k ih => intro w; simp only [optLengths, hf, andThen_append_cons (hb w) ih]

theorem starLengths_append_cons (fuel : Nat) :
    ∀ w, starLengths f fuel (w ++ c :: t) = starLengths f fuel w := by
  induction fuel with
  | zero => intro w; rfl
  | succ k ih =>
    intro w
    simp only [starLengths, hf,
      andThen_append_cons (fun n hn => hb w n (List.mem_of_mem_filter hn)) ih]

theorem repLengths_append_cons (lo : Nat) :
    ∀ hi w, repLengths f lo hi (w ++ c :: t) = repLengths f lo hi w := by
  induction lo with
  | zero =>
    rintro (_ | k) w
    · simp only [repLengths, starLengths_append_cons hb hf]
      exact starLengths_fuel hb _ _ w (by simp) le_rfl
    · exact optLengths_append_cons hb hf k w
  | succ lo ih => intro hi w; simp only [repLengths, hf, andThen_append_cons (hb w) (ih _)]

end Cut

/-- A character that every class of `r` rejects cuts the input: `r` never reads past it. -/
theorem matchLengths_append_cons {c : Char} {t : List Char} :
    ∀ {r : Hir}, r.rejects c = true → ∀ w, matchLengths r (w ++ c :: t) = matchLengths r w
  | .empty, _, _ => rfl
  | .cls rs, h, [] => by simp_all [Hir.rejects]
  | .cls _, _, _ :: _ => rfl
  | .cat r u, h, w => by
    simp only [Hir.rejects, Bool.and_eq_true] at h
    simp only [matchLengths_cat, matchLengths_append_cons h.1,
      andThen_append_cons (matchLengths_bounded r w) (matchLengths_append_cons h.2)]
  | .alt r u, h, w => by
    simp only [Hir.rejects, Bool.and_eq_true] at h
    simp only [matchLengths_alt, matchLengths_append_cons h.1, matchLengths_append_cons h.2]
  | .rep r lo hi, h, w =>
    repLengths_append_cons (matchLengths_bounded r) (matchLengths_append_cons h) lo hi w

section Extend

/-! A match reads only the characters it covers, so appending text keeps every match. -/

/-- `f` keeps each of its matches when text is appended. -/
def Extends (f : List Char → List Nat) : Prop := ∀ s x, ∀ n ∈ f s, n ∈ f (s ++ x)

theorem andThen_extends {ns ns' : List Nat} {g g' : List Char → List Nat} {s x : List Char}
    (hns : ∀ n ∈ ns, n ≤ s.length ∧ n ∈ ns') (hg : ∀ s x, ∀ m ∈ g s, m ∈ g' (s ++ x)) :
    ∀ n ∈ andThen ns g s, n ∈ andThen ns' g' (s ++ x) := by
  intro n hn
  obtain ⟨k, hk, m, hm, rfl⟩ := mem_andThen.1 hn
  obtain ⟨hks, hk'⟩ := hns k hk
  refine mem_andThen.2 ⟨k, hk', m, ?_, rfl⟩
  rw [List.drop_append_of_le_length hks]
  exact hg _ x m hm

theorem zero_mem_starLengths (f : List Char → List Nat) (fuel : Nat) (s : List Char) :
    0 ∈ starLengths f fuel s := by
  cases fuel <;> simp [starLengths]

variable {f : List Char → List Nat} (hb : Bounded f) (he : Extends f)
include hb he

theorem optLengths_extends : ∀ k, Extends (optLengths f k)
  | 0 => fun _ _ _ h => by simpa [optLengths] using h
  | k + 1 => fun s x n hn => by
    simp only [optLengths, List.mem_append, List.mem_singleton] at hn ⊢
    exact hn.imp_left (andThen_extends (fun n hn => ⟨hb s n hn, he s x n hn⟩)
      (optLengths_extends k) n)

/-- The fuel of an unbounded iteration may grow with the text: any fuel at least the length
of each input will do. -/
theorem starLengths_extends : ∀ (a b : Nat) (s x : List Char), s.length ≤ a →
    (s ++ x).length ≤ b → ∀ n ∈ starLengths f a s, n ∈ starLengths f b (s ++ x)
  | 0, b, _, _, _, _, n, hn => by
    rw [starLengths, List.mem_singleton] at hn
    exact hn ▸ zero_mem_starLengths f b _
  | a + 1, b, s, x, ha, hb', n, hn => by
    simp only [starLengths, List.mem_append, List.mem_singleton] at hn
    rcases hn with hn | rfl
    · obtain ⟨k, hk, m, hm, rfl⟩ := mem_andThen.1 hn
      obtain ⟨hkf, hk0⟩ := List.mem_filter.1 hk
      have hks := hb s k hkf
      simp only [decide_eq_true_eq] at hk0
      obtain ⟨b, rfl⟩ : ∃ b', b = b' + 1 := ⟨b - 1, by simp at hb'; omega⟩
      refine List.mem_append_left _ (mem_andThen.2 ⟨k, List.mem_filter.2 ⟨he s x k hkf,
        by simpa using hk0⟩, m, ?_, rfl⟩)
      rw [List.drop_append_of_le_length hks]
      exact starLengths_extends a b _ x (by simp; omega) (by simp at hb' ⊢; omega) m hm
    · exact zero_mem_starLengths f b _

theorem repLengths_extends : ∀ lo hi, Extends (repLengths f lo hi)
  | 0, some k => optLengths_extends hb he k
  | 0, none => fun s x => starLengths_extends hb he _ _ s x le_rfl le_rfl
  | lo + 1, _ => fun _ x =>
    andThen_extends (fun n hn => ⟨hb _ n hn, he _ x n hn⟩) (repLengths_extends lo _)

end Extend

/-- Appending text keeps every match of a pattern. -/
theorem matchLengths_extends : ∀ r : Hir, Extends (matchLengths r)
  | .empty, _, _, _, h => h
  | .cls _, [], _, _, h => by simp at h
  | .cls _, _ :: _, _, _, h => h
  | .cat r t, _, _, _, h =>
    andThen_extends (fun n hn => ⟨matchLengths_bounded r _ n hn, matchLengths_extends r _ _ n hn⟩)
      (matchLengths_extends t) _ h
  | .alt r t, s, x, n, h => by
    rcases List.mem_append.1 h with h | h
    exacts [List.mem_append_left _ (matchLengths_extends r s x n h),
      List.mem_append_right _ (matchLengths_extends t s x n h)]
  | .rep r lo hi, s, x, n, h =>
    repLengths_extends (matchLengths_bounded r) (matchLengths_extends r) lo hi s x n h

/-- Where a pattern matches, it still matches with text appended. -/
theorem matchLengths_append_ne_nil {r : Hir} {s : List Char} (x : List Char)
    (h : matchLengths r s ≠ []) : matchLengths r (s ++ x) ≠ [] := by
  obtain ⟨n, hn⟩ := List.exists_mem_of_ne_nil _ h
  exact List.ne_nil_of_mem (matchLengths_extends r s x n hn)

end RingRtc.Regex
