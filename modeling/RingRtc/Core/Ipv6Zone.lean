import RingRtc.Core.Ipv6Compressed

/-! # Link-local IPv6 addresses with a zone index

The first alternative of the IPv6 pattern,
`[Ff][Ee]80:(:[0-9a-fA-F]{0,4}){0,4}%[0-9a-zA-Z]{1,}`, reads a link-local address with its
zone index: `fe80:`, up to four segments each a `':'` and up to four hex digits, then `'%'`
and the zone. A segment ends where a `':'` or the `'%'` stands, so the greedy repetition of
segments reads all of them first, and the `'%'` after them lets that first reading through;
the zone is then read to its end. Being the first alternative, its first match is the first
match of the whole pattern, and `redact_ipv6` replaces such an address exactly.
-/
namespace RingRtc.Core.Util

open RingRtc.Regex Hir

/-- Up to four hex digits, none allowed: a segment as `[0-9a-fA-F]{0,4}` reads it. -/
structure Segment where
  digits : List Char
  length_le : digits.length ≤ 4
  all_hex : ∀ c ∈ digits, inClass hexClass c

/-- A link-local IPv6 address with a zone index as the first alternative of the IPv6 pattern
reads it: `fe80:` with either case of `f` and `e`, up to four segments each after a `':'`,
then `'%'` and the zone, a run of ASCII letters and digits. -/
structure LinkLocal where
  f : Char
  e : Char
  f_mem : f = 'f' ∨ f = 'F'
  e_mem : e = 'e' ∨ e = 'E'
  segments : List Segment
  length_le : segments.length ≤ 4
  zone : List Char
  zone_ne_nil : zone ≠ []
  zone_alnum : ∀ c ∈ zone, c.isAlphanum

/-- Segments each after a `':'`. -/
def colonSegments (gs : List Segment) : List Char := (gs.map fun g => ':' :: g.digits).flatten

def LinkLocal.render (q : LinkLocal) : String :=
  ⟨q.f :: q.e :: '8' :: '0' :: ':' :: (colonSegments q.segments ++ '%' :: q.zone)⟩

@[simp] theorem colonSegments_nil : colonSegments [] = [] := rfl

@[simp] theorem colonSegments_cons (g : Segment) (gs : List Segment) :
    colonSegments (g :: gs) = ':' :: (g.digits ++ colonSegments gs) := rfl

theorem inClass_zoneClass (c : Char) : inClass zoneClass c = c.isAlphanum := by
  rw [Bool.eq_iff_iff]
  simp only [zoneClass, inClass, List.any_cons, List.any_nil, Char.isAlphanum, Char.isAlpha,
    Char.isUpper, Char.isLower, Char.isDigit, Bool.or_eq_true, Bool.and_eq_true,
    decide_eq_true_eq, ge_iff_le, UInt32.le_def, BitVec.le_def, Bool.or_false]
  show (48 ≤ c.toNat ∧ c.toNat ≤ 57 ∨ 97 ≤ c.toNat ∧ c.toNat ≤ 122 ∨
      65 ≤ c.toNat ∧ c.toNat ≤ 90) ↔
    (65 ≤ c.toNat ∧ c.toNat ≤ 90 ∨ 97 ≤ c.toNat ∧ c.toNat ≤ 122) ∨ 48 ≤ c.toNat ∧ c.toNat ≤ 57
  omega

theorem isAlphanum_of_hex {c : Char} (h : inClass hexClass c) : c.isAlphanum := by
  rw [← inClass_zoneClass]
  exact inClass_of_rangesWithin (by decide) h

/-- The characters of a link-local address are letters, digits, `':'` and `'%'`. -/
theorem LinkLocal.mem_render {q : LinkLocal} {c : Char} (h : c ∈ q.render.data) :
    c.isAlphanum ∨ c = ':' ∨ c = '%' := by
  simp only [render, colonSegments, List.mem_cons, List.mem_append, List.mem_flatten,
    List.mem_map] at h
  rcases h with rfl | rfl | rfl | rfl | rfl | ⟨_, ⟨g, -, rfl⟩, hc⟩ | rfl | hc
  · rcases q.f_mem with h | h <;> rw [h] <;> decide
  · rcases q.e_mem with h | h <;> rw [h] <;> decide
  · decide
  · decide
  · decide
  · rcases List.mem_cons.1 hc with rfl | hc
    · decide
    · exact .inl (isAlphanum_of_hex (g.all_hex c hc))
  · decide
  · exact .inl (q.zone_alnum c hc)

theorem LinkLocal.render_ne_nil (q : LinkLocal) : q.render.data ≠ [] := by
  simp [render]

/-! ## The first match at a link-local address -/

/-- A class reads the character it holds, and the rest is read from the next one. -/
theorem head?_cat_cls {rs : List (Char × Char)} {c : Char} (hc : inClass rs c) {r : Hir}
    {x : List Char} {n : Nat} (h : (matchLengths r x).head? = some n) :
    (matchLengths (cat (cls rs) r) (c :: x)).head? = some (1 + n) := by
  simp [hc, h]

theorem head?_andThen {ns : List Nat} {g : List Char → List Nat} {x : List Char} {n m : Nat}
    (hn : ns.head? = some n) (hm : (g (x.drop n)).head? = some m) :
    (andThen ns g x).head? = some (n + m) := by
  obtain _ | ⟨n', ns⟩ := ns
  · cases hn
  · obtain rfl := Option.some.inj hn
    exact andThen_head hm

/-- A segment followed by anything but a hex digit is first read as a whole. -/
theorem matchLengths_segment_head (g : Segment) {t : List Char}
    (ht : ∀ c ∈ t.head?, inClass hexClass c = false) :
    (matchLengths segmentHir (':' :: (g.digits ++ t))).head? = some (1 + g.digits.length) := by
  refine head?_cat_cls (by decide) ?_
  rw [matchLengths_rep, repLengths, optLengths_cls ht g.digits 4 g.all_hex g.length_le]
  simp [List.range'_concat]

theorem colonSegments_head (gs : List Segment) (t : List Char) :
    ∀ c ∈ (colonSegments gs ++ '%' :: t).head?, inClass hexClass c = false := by
  cases gs <;> rintro c ⟨⟩ <;> decide

/-- Up to `k` greedy segments over at most `k` segments and then a `'%'`: all of them first. -/
theorem optLengths_segments_head (t : List Char) :
    ∀ (gs : List Segment) (k : Nat), gs.length ≤ k →
      (optLengths (matchLengths segmentHir) k (colonSegments gs ++ '%' :: t)).head? =
        some (colonSegments gs).length
  | [], 0, _ => rfl
  | [], k + 1, _ => rfl
  | g :: gs, k + 1, hk => by
    have ih := optLengths_segments_head t gs k (by simp at hk; omega)
    rw [colonSegments_cons, List.cons_append, List.append_assoc, optLengths, List.head?_append,
      head?_andThen (matchLengths_segment_head g (colonSegments_head gs t))
        (by rwa [Nat.add_comm, List.drop_succ_cons, List.drop_left])]
    exact congrArg some (by simp only [List.length_cons, List.length_append]; omega)

/-- At the start of a link-local address followed by anything but a letter or a digit, the
first match of `linkLocalHir` is the whole address. -/
theorem matchLengths_linkLocal_head (q : LinkLocal) {s : List Char}
    (hs : ∀ c ∈ s.head?, c.isAlphanum = false) :
    (matchLengths linkLocalHir (q.render.data ++ s)).head? = some q.render.data.length := by
  have hf : inClass [('F', 'F'), ('f', 'f')] q.f := by
    rcases q.f_mem with h | h <;> rw [h] <;> decide
  have he : inClass [('E', 'E'), ('e', 'e')] q.e := by
    rcases q.e_mem with h | h <;> rw [h] <;> decide
  have hz : (matchLengths (rep (cls zoneClass) 1 none) (q.zone ++ s)).head? =
      some q.zone.length := by
    have hpos := List.length_pos.2 q.zone_ne_nil
    rw [matchLengths_plus_cls (fun c hc => by rw [inClass_zoneClass]; exact q.zone_alnum c hc)
      hpos (fun c hc => by rw [inClass_zoneClass]; exact hs c hc), range'_reverse_of_pos hpos]
    rfl
  have hrest : (matchLengths (cat (rep segmentHir 0 (some 4))
      (cat (lit '%') (rep (cls zoneClass) 1 none)))
        (colonSegments q.segments ++ '%' :: (q.zone ++ s))).head? =
      some ((colonSegments q.segments).length + (1 + q.zone.length)) :=
    head?_andThen (optLengths_segments_head (q.zone ++ s) q.segments 4 q.length_le)
      (by rw [List.drop_left]; exact head?_cat_cls (by decide) hz)
  have hlen : q.render.data.length =
      1 + (1 + (1 + (1 + (1 + ((colonSegments q.segments).length + (1 + q.zone.length)))))) := by
    simp only [LinkLocal.render, List.length_cons, List.length_append]
    omega
  rw [hlen]
  simp only [LinkLocal.render, List.cons_append, List.append_assoc]
  exact head?_cat_cls hf (head?_cat_cls he (head?_cat_cls (by decide)
    (head?_cat_cls (by decide) (head?_cat_cls (by decide) hrest))))

/-- A pattern whose first alternative is `linkLocalHir` first reads a link-local address
followed by anything but a letter or a digit as a whole. -/
theorem matchLengths_linkLocal_first (q : LinkLocal) {h : Hir} {rest : List Hir}
    (hh : alternatives h = linkLocalHir :: rest) {s : List Char}
    (hs : ∀ c ∈ s.head?, c.isAlphanum = false) :
    (matchLengths h (q.render.data ++ s)).head? = some q.render.data.length := by
  rw [matchLengths_eq_flatten, hh, List.map_cons, List.flatten_cons, List.head?_append,
    matchLengths_linkLocal_head q hs]
  rfl

/-! ## Redaction -/

/-- `redact_ipv6` replaces a link-local address with a zone index exactly, whatever text with
no `':'` surrounds it, as long as no hex digit stands right before it and no letter or digit
right after it. -/
theorem redactIpv6_linkLocal (q : LinkLocal) {p s : String} (hp : ':' ∉ p.data)
    (hs : ':' ∉ s.data) (hpl : ∀ c ∈ p.data.getLast?, inClass hexClass c = false)
    (hsh : ∀ c ∈ s.data.head?, c.isAlphanum = false) :
    redactIpv6 (p ++ q.render ++ s) = p ++ "[REDACTED]" ++ s := by
  exact redactIpv6_of_head q.render_ne_nil hp hs hpl
    (matchLengths_linkLocal_first q (alternatives_ipv6Hir.trans rfl) hsh)

/-- `redact_ipv6`, and with it the release-build `redact_string` on a line that does not
mention `ice-pwd`, replace a link-local address with a zone index exactly, whatever text
with no digit, `':'` or line break surrounds it, as long as no hex digit stands right before
it and no letter right after it. -/
theorem redact_link_local_exact (q : LinkLocal) (p s : String) (h : Ipv6Surrounding p s)
    (hz : ∀ c ∈ s.data.head?, c.isAlphanum = false)
    (hi : ¬"ice-pwd".data <:+: (p ++ q.render ++ s).data) :
    redactIpv6 (p ++ q.render ++ s) = p ++ "[REDACTED]" ++ s ∧
      redactString (p ++ q.render ++ s) = p ++ "[REDACTED]" ++ s := by
  have h6 := redactIpv6_linkLocal q (fun hc => h.no_colon (List.mem_append_left _ hc))
    (fun hc => h.no_colon (List.mem_append_right _ hc)) h.not_hex_before hz
  refine ⟨h6, redactString_of_redactIpv6 h.toIpv6Context (fun hc => ?_) hi h6⟩
  rcases q.mem_render hc with hc | hc | hc
  · exact absurd hc (by decide)
  · exact absurd hc (by decide)
  · exact absurd hc (by decide)

theorem redact_link_local_exact_sample :
    ∃ q : LinkLocal, q.render = "fe80::7:8%eth0" ∧ Ipv6Surrounding "text " ">" ∧
      (∀ c ∈ ">".data.head?, c.isAlphanum = false) ∧
      ¬"ice-pwd".data <:+: ("text " ++ q.render ++ ">").data ∧
      (redactIpv6 ("text " ++ q.render ++ ">") = "text " ++ "[REDACTED]" ++ ">" ∧
        redactString ("text " ++ q.render ++ ">") = "text " ++ "[REDACTED]" ++ ">") :=
  let q : LinkLocal :=
    ⟨'f', 'e', .inl rfl, .inl rfl,
      [⟨['7'], by decide, by decide⟩, ⟨['8'], by decide, by decide⟩],
      by decide, "eth0".data, by decide, by decide⟩
  have hr : q.render = "fe80::7:8%eth0" := rfl
  have h : Ipv6Surrounding "text " ">" :=
    ⟨⟨by decide, by decide, by decide, by decide⟩, by decide⟩
  have hz : ∀ c ∈ ">".data.head?, c.isAlphanum = false := by decide
  have hi : ¬"ice-pwd".data <:+: ("text " ++ q.render ++ ">").data := by
    rw [hr]
    exact find_eq_none_iff.1 (by decide)
  ⟨q, hr, h, hz, hi, redact_link_local_exact q "text " ">" h hz hi⟩

end RingRtc.Core.Util
