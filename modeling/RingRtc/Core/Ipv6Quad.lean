import RingRtc.Core.Ipv6Zone
import Mathlib.Data.List.Chain

/-! # IPv6 addresses that end in a dotted quad

Two alternatives of the IPv6 pattern read an address whose last 32 bits are written as a
dotted quad: the second, `(::)?([0-9a-fA-F]{1,4}:){1,4}:` and a quad, as in
`64:ff9b::192.0.2.33`, and the eleventh, `::([fF]{4}(:0{1,4}){0,1}:){0,1}` and a quad, as in
`::ffff:0:192.0.2.128`. The pattern reads an octet as `25[0-5]|(2[0-4]|1{0,1}[0-9]){0,1}[0-9]`.
On an octet of value at most 255 that is not three digits with a leading zero, this lists
every length from the whole octet down, longest first, as a check over all digits shows, so
the quad is read whole. At an address of the second form the first alternative finds a
`'.'` where it needs a `'%'`; at one of the eleventh, every earlier alternative needs a hex
digit or a `::` that the address does not offer. Either way the first match is the whole
address, and `redact_ipv6` replaces it exactly. A three-digit octet with a leading zero is
read only in part, and the rest of the address stays in the text.
-/
namespace RingRtc.Core.Util

open RingRtc.Regex Hir

theorem patternAlternatives_cons : patternAlternatives = linkLocalHir :: embeddedHir ::
    ipv6FullHir :: ((List.range' 1 7).map compressedHir ++ [mappedHir, leadingHir]) := rfl

/-! ## Octets -/

/-- The digit of value `n`. -/
def digitChar (n : Fin 10) : Char := Char.ofNat (48 + n.val)

theorem exists_digitChar {c : Char} (h : c.isDigit) : ∃ n, c = digitChar n := by
  have hc := isDigit_iff.1 h
  refine ⟨⟨c.toNat - 48, by omega⟩, ?_⟩
  rw [digitChar, Nat.add_sub_cancel' hc.1, Char.ofNat_toNat]

theorem digitChar_toNat : ∀ n : Fin 10, (digitChar n).toNat = 48 + n.val := by decide

/-- An octet the IPv6 pattern reads whole: not three digits with a leading zero. -/
def Octet.unpadded (o : Octet) : Bool := !(o.digits.length == 3 && o.digits.head? == some '0')

/-- No octet of the quad is three digits with a leading zero. -/
def Ipv4Text.unpadded (q : Ipv4Text) : Bool := [q.a, q.b, q.c, q.d].all Octet.unpadded

/-- On an octet alone, unless it is three digits with a leading zero, the octet of the IPv6
pattern matches every length from the whole octet down, longest first: checked over every
choice of digits. -/
theorem matchLengths_v6Octet (o : Octet) (ho : o.unpadded) :
    matchLengths v6OctetHir o.digits = (List.range' 1 o.digits.length).reverse := by
  obtain ⟨ds, h0, h3, hd, hv⟩ := o
  rcases ds with _ | ⟨d₁, _ | ⟨d₂, _ | ⟨d₃, _ | ⟨d₄, t⟩⟩⟩⟩
  · simp at h0
  · obtain ⟨a, rfl⟩ := exists_digitChar (hd d₁ (by simp))
    show matchLengths v6OctetHir [digitChar a] = (List.range' 1 1).reverse
    clear ho hv hd h3 h0
    revert a
    decide
  · obtain ⟨a, rfl⟩ := exists_digitChar (hd d₁ (by simp))
    obtain ⟨b, rfl⟩ := exists_digitChar (hd d₂ (by simp))
    show matchLengths v6OctetHir [digitChar a, digitChar b] = (List.range' 1 2).reverse
    clear ho hv hd h3 h0
    revert a b
    decide
  · obtain ⟨a, rfl⟩ := exists_digitChar (hd d₁ (by simp))
    obtain ⟨b, rfl⟩ := exists_digitChar (hd d₂ (by simp))
    obtain ⟨c, rfl⟩ := exists_digitChar (hd d₃ (by simp))
    have ha : digitChar a ≠ '0' := by simpa [Octet.unpadded] using ho
    have hval : decimalValue [digitChar a, digitChar b, digitChar c] =
        100 * a.val + 10 * b.val + c.val := by
      simp only [decimalValue, List.foldl, digitChar_toNat, show '0'.toNat = 48 from rfl]
      omega
    have h12 : a.val = 1 ∨ a.val = 2 := by
      have ha0 : a.val ≠ 0 := fun h => ha (by rw [show a = 0 from Fin.ext h]; rfl)
      omega
    show matchLengths v6OctetHir [digitChar a, digitChar b, digitChar c] =
      (List.range' 1 3).reverse
    clear ho hd h3 h0 hval ha
    rcases h12 with h | h
    · obtain rfl : a = 1 := Fin.ext h
      clear hv
      revert b c
      decide
    · obtain rfl : a = 2 := Fin.ext h
      revert b c
      decide
  · simp at h3

theorem v6OctetHir_rejects {c : Char} (h : c.isDigit = false) : v6OctetHir.rejects c = true := by
  have : ¬(48 ≤ c.toNat ∧ c.toNat ≤ 57) := fun h' => by simp [isDigit_iff.2 h'] at h
  simp [v6OctetHir, seqOf, lit, Hir.rejects, inClass]
  omega

theorem matchLengths_v6Octet_append (o : Octet) (ho : o.unpadded) {t : List Char}
    (ht : ∀ c ∈ t.head?, c.isDigit = false) :
    matchLengths v6OctetHir (o.digits ++ t) = (List.range' 1 o.digits.length).reverse := by
  cases t with
  | nil => rw [List.append_nil, matchLengths_v6Octet o ho]
  | cons c t =>
    rw [matchLengths_append_cons (v6OctetHir_rejects (ht c rfl)), matchLengths_v6Octet o ho]

section Quad

/-! An octet pattern that lists every length of each octet of a quad, longest first, reads
the quad whole first. -/

variable {r : Hir} {q : Ipv4Text}
  (hr : ∀ o ∈ [q.a, q.b, q.c, q.d], ∀ t : List Char, (∀ c ∈ t.head?, c.isDigit = false) →
    matchLengths r (o.digits ++ t) = (List.range' 1 o.digits.length).reverse)
include hr

theorem matchLengths_octetDot {o : Octet} (ho : o ∈ [q.a, q.b, q.c, q.d]) (t : List Char) :
    matchLengths (cat r (lit '.')) (o.digits ++ '.' :: t) = [o.digits.length + 1] :=
  matchLengths_cat_lit (fun h => absurd (o.all_digit '.' h) (by decide)) o.length_pos
    (hr o ho _ (by simp [Char.isDigit]))

theorem matchLengths_quad_head {s : List Char} (hs : ∀ c ∈ s.head?, c.isDigit = false) :
    (matchLengths (cat (rep (cat r (lit '.')) 3 (some 3)) r) (q.render.data ++ s)).head? =
      some q.render.data.length := by
  have ha := matchLengths_octetDot hr (show q.a ∈ [q.a, q.b, q.c, q.d] by simp)
  have hb := matchLengths_octetDot hr (show q.b ∈ [q.a, q.b, q.c, q.d] by simp)
  have hc := matchLengths_octetDot hr (show q.c ∈ [q.a, q.b, q.c, q.d] by simp)
  simp only [Ipv4Text.render, List.append_assoc, List.cons_append]
  rw [matchLengths_cat]
  simp only [matchLengths_rep, repLengths, Option.map_some', ha, hb, hc, andThen_cons,
    andThen_nil, List.append_nil, drop_octet_dot, optLengths, List.map_cons, List.map_nil,
    Nat.add_zero]
  rw [drop_octet_dot_add, drop_octet_dot_add, drop_octet_dot, hr q.d (by simp) s hs,
    range'_reverse_of_pos q.d.length_pos]
  simp only [List.map_cons, List.head?_cons, List.length_append, List.length_cons,
    Option.some.injEq]
  omega

end Quad

theorem matchLengths_v6Quad_head (q : Ipv4Text) (hq : q.unpadded) {s : List Char}
    (hs : ∀ c ∈ s.head?, c.isDigit = false) :
    (matchLengths v6QuadHir (q.render.data ++ s)).head? = some q.render.data.length :=
  matchLengths_quad_head
    (fun o ho _ ht => matchLengths_v6Octet_append o (List.all_eq_true.1 hq o ho) ht) hs

theorem Ipv4Text.render_head_digit (q : Ipv4Text) (s : List Char) :
    ∀ c ∈ (q.render.data ++ s).head?, c.isDigit := by
  obtain ⟨d, w, hd⟩ := List.exists_cons_of_length_pos q.a.length_pos
  intro c hc
  simp only [Ipv4Text.render, hd, List.cons_append, List.head?_cons, Option.mem_def,
    Option.some.injEq] at hc
  exact hc ▸ q.a.all_digit d (by simp [hd])

/-! ## An IPv4 address after groups and `::` -/

/-- An IPv6 address with an embedded IPv4 address as the second alternative of the IPv6
pattern reads it without its optional leading `::`: one to four groups each followed by a
`':'`, then a `':'` and a dotted quad with no three-digit octet that has a leading zero. -/
structure Ipv6Embedded where
  groups : List HexGroup
  length_pos : 0 < groups.length
  length_le : groups.length ≤ 4
  quad : Ipv4Text
  unpadded : quad.unpadded

def Ipv6Embedded.render (q : Ipv6Embedded) : String :=
  ⟨groupsColon q.groups ++ ':' :: q.quad.render.data⟩

theorem Ipv6Embedded.newline_not_mem (q : Ipv6Embedded) : '\n' ∉ q.render.data := by
  simp only [render, List.mem_append, List.mem_cons, not_or]
  refine ⟨fun h => ?_, by decide, fun h => ?_⟩
  · rcases mem_groupsColon h with h | h <;> exact absurd h (by decide)
  · rcases q.quad.mem_render h with h | h <;> exact absurd h (by decide)

theorem Ipv6Embedded.render_ne_nil (q : Ipv6Embedded) : q.render.data ≠ [] := by
  simp [render]

theorem linkLocalHir_leadsTo : linkLocalHir.leadsTo addressClass [('%', '%')] := by decide

/-- The first alternative needs a `'%'` after a run of hex digits and `':'`; at an address
with an embedded IPv4 address that run ends at a `'.'`. -/
theorem matchLengths_linkLocal_embedded (q : Ipv6Embedded) (s : List Char) :
    matchLengths linkLocalHir (q.render.data ++ s) = [] := by
  refine matchLengths_eq_nil_of_leadsTo linkLocalHir_leadsTo fun u c v huv hu hc => ?_
  refine @no_run_to addressClass [('%', '%')] (groupsColon q.groups ++ ':' :: q.quad.a.digits)
    ('.' :: (q.quad.b.digits ++ '.' :: (q.quad.c.digits ++ '.' :: q.quad.d.digits) ++ s))
    (fun d hd => ?_) (by rintro c ⟨⟩; decide) u c v ?_ hu hc
  · rcases List.mem_append.1 hd with hd | hd
    · rcases mem_groupsColon hd with hd | rfl
      · exact not_inClass_of_rangesOutside (by decide) hd
      · decide
    · rcases List.mem_cons.1 hd with rfl | hd
      · decide
      · refine Bool.eq_false_iff.2 fun h => ?_
        obtain rfl := inClass_single.1 h
        exact absurd (q.quad.a.all_digit _ hd) (by decide)
  · rw [← huv]
    simp [Ipv6Embedded.render, Ipv4Text.render]

/-- At an address with an embedded IPv4 address followed by anything but a digit, the first
match of the second alternative is the whole address: the optional `::` is skipped at the
first group, the groups are read up to the `::`, and the quad is read whole. -/
theorem matchLengths_embedded_head (q : Ipv6Embedded) {s : List Char}
    (hs : ∀ c ∈ s.head?, c.isDigit = false) :
    (matchLengths embeddedHir (q.render.data ++ s)).head? = some q.render.data.length := by
  obtain ⟨g, gs, hg⟩ := List.exists_cons_of_length_pos q.length_pos
  have hhex := @groupsColon_head_hex g gs (':' :: (q.quad.render.data ++ s))
  rw [← hg] at hhex
  have hdc : matchLengths (rep (cat (lit ':') (lit ':')) 0 (some 1))
      (groupsColon q.groups ++ ':' :: (q.quad.render.data ++ s)) = [0] := by
    rw [matchLengths_rep, repLengths, optLengths,
      matchLengths_hex_of_startsIn (by decide) hhex]
    rfl
  have htail := matchLengths_groupColon_tail
    (show (cat (lit ':') v6QuadHir).startsIn [(':', ':')] by decide)
    (q.quad.render.data ++ s) 3 q.groups
  rw [if_pos ⟨q.length_pos, q.length_le⟩] at htail
  have hrest : (matchLengths (cat (rep groupColonHir 1 (some 4)) (cat (lit ':') v6QuadHir))
      (groupsColon q.groups ++ ':' :: (q.quad.render.data ++ s))).head? =
      some ((groupsColon q.groups).length + (1 + q.quad.render.data.length)) := by
    have hquad : (matchLengths (cat (lit ':') v6QuadHir) (':' :: (q.quad.render.data ++ s))).head? =
        some (1 + q.quad.render.data.length) :=
      head?_cat_cls (by decide) (matchLengths_v6Quad_head q.quad q.unpadded hs)
    rw [htail, List.head?_map, hquad]
    rfl
  have hx : q.render.data ++ s = groupsColon q.groups ++ ':' :: (q.quad.render.data ++ s) := by
    simp [Ipv6Embedded.render]
  have heq : embeddedHir = cat (rep (cat (lit ':') (lit ':')) 0 (some 1))
      (cat (rep groupColonHir 1 (some 4)) (cat (lit ':') v6QuadHir)) := rfl
  rw [hx, heq, matchLengths_cat, hdc, andThen_cons, andThen_nil, List.append_nil,
    List.drop_zero, List.head?_map, hrest]
  simp only [Option.map_some', Ipv6Embedded.render, List.length_append, List.length_cons,
    Option.some.injEq]
  omega

/-- On an IPv6 address with an embedded IPv4 address and no digit after it, the first match
of the IPv6 pattern is the whole address: the first alternative matches nowhere there and
the second matches it whole first. -/
theorem matchLengths_embedded_alternatives (q : Ipv6Embedded) {h : Hir}
    (hh : alternatives h = patternAlternatives) {s : List Char}
    (hs : ∀ c ∈ s.head?, c.isDigit = false) :
    (matchLengths h (q.render.data ++ s)).head? = some q.render.data.length := by
  rw [matchLengths_eq_flatten, hh, patternAlternatives_cons, List.map_cons, List.flatten_cons,
    matchLengths_linkLocal_embedded, List.nil_append, List.map_cons, List.flatten_cons,
    List.head?_append, matchLengths_embedded_head q hs]
  rfl

/-- `redact_ipv6` replaces an IPv6 address with an embedded IPv4 address exactly, whatever
text with no `':'` surrounds it, as long as no hex digit stands right before it and no digit
right after it. -/
theorem redactIpv6_embedded (q : Ipv6Embedded) {p s : String} (hp : ':' ∉ p.data)
    (hs : ':' ∉ s.data) (hpl : ∀ c ∈ p.data.getLast?, inClass hexClass c = false)
    (hsh : ∀ c ∈ s.data.head?, c.isDigit = false) :
    redactIpv6 (p ++ q.render ++ s) = p ++ "[REDACTED]" ++ s :=
  redactIpv6_of_head q.render_ne_nil hp hs hpl
    (matchLengths_embedded_alternatives q alternatives_ipv6Hir hsh)

/-- `redact_ipv6`, and with it the release-build `redact_string` on a line that does not
mention `ice-pwd`, replace an IPv6 address with an embedded IPv4 address exactly, whatever
text with no digit, `':'` or line break surrounds it, as long as no hex digit stands right
before it. -/
theorem redact_ipv6_embedded_exact (q : Ipv6Embedded) (p s : String) (h : Ipv6Context p s)
    (hi : ¬"ice-pwd".data <:+: (p ++ q.render ++ s).data) :
    redactIpv6 (p ++ q.render ++ s) = p ++ "[REDACTED]" ++ s ∧
      redactString (p ++ q.render ++ s) = p ++ "[REDACTED]" ++ s := by
  have h6 := redactIpv6_embedded q (fun hc => h.no_colon (List.mem_append_left _ hc))
    (fun hc => h.no_colon (List.mem_append_right _ hc)) h.not_hex_before
    (fun c hc => h.no_digit c (List.mem_append_right _ (List.mem_of_mem_head? hc)))
  exact ⟨h6, redactString_of_redactIpv6 h q.newline_not_mem hi h6⟩

theorem redact_ipv6_embedded_exact_sample :
    ∃ q : Ipv6Embedded, q.render = "64:ff9b::192.0.2.33" ∧ Ipv6Context "text " "f>" ∧
      ¬"ice-pwd".data <:+: ("text " ++ q.render ++ "f>").data ∧
      (redactIpv6 ("text " ++ q.render ++ "f>") = "text " ++ "[REDACTED]" ++ "f>" ∧
        redactString ("text " ++ q.render ++ "f>") = "text " ++ "[REDACTED]" ++ "f>") :=
  let q : Ipv6Embedded :=
    ⟨[⟨"64".data, by decide, by decide, by decide⟩, ⟨"ff9b".data, by decide, by decide, by decide⟩],
      by decide, by decide,
      ⟨⟨"192".data, by decide, by decide, by decide, by decide⟩,
        ⟨"0".data, by decide, by decide, by decide, by decide⟩,
        ⟨"2".data, by decide, by decide, by decide, by decide⟩,
        ⟨"33".data, by decide, by decide, by decide, by decide⟩⟩, by decide⟩
  have hr : q.render = "64:ff9b::192.0.2.33" := rfl
  have h : Ipv6Context "text " "f>" := ⟨by decide, by decide, by decide, by decide⟩
  have hi : ¬"ice-pwd".data <:+: ("text " ++ q.render ++ "f>").data := by
    rw [hr]
    exact find_eq_none_iff.1 (by decide)
  ⟨q, hr, h, hi, redact_ipv6_embedded_exact q "text " "f>" h hi⟩

/-! ## An IPv4 address after `::` -/

/-- The tag of an IPv4-mapped or IPv4-translated address as the eleventh alternative reads
it: four `f`s in either case, then a `':'` and up to four zeros unless `zeros` is empty,
then a `':'`. -/
structure MappedTag where
  ffff : List Char
  length_ffff : ffff.length = 4
  all_f : ∀ c ∈ ffff, c = 'f' ∨ c = 'F'
  zeros : List Char
  length_zeros : zeros.length ≤ 4
  all_zero : ∀ c ∈ zeros, c = '0'

/-- The zeros of a tag with the `':'` before them, if there are any. -/
def MappedTag.zeroText (t : MappedTag) : List Char := if t.zeros = [] then [] else ':' :: t.zeros

def MappedTag.render (t : MappedTag) : List Char := t.ffff ++ t.zeroText ++ [':']

/-- An IPv4-mapped or IPv4-translated IPv6 address as the eleventh alternative of the IPv6
pattern reads it: `::`, an optional tag, then a dotted quad with no three-digit octet that
has a leading zero. -/
structure Ipv6Mapped where
  tag : Option MappedTag
  quad : Ipv4Text
  unpadded : quad.unpadded

/-- The tag as written, empty when there is none. -/
def Ipv6Mapped.tagText (q : Ipv6Mapped) : List Char := (q.tag.map MappedTag.render).getD []

def Ipv6Mapped.render (q : Ipv6Mapped) : String :=
  ⟨':' :: ':' :: (q.tagText ++ q.quad.render.data)⟩

theorem MappedTag.colon_not_mem_ffff (t : MappedTag) : ':' ∉ t.ffff := fun h => by
  simpa using t.all_f ':' h

theorem MappedTag.colon_not_mem_zeros (t : MappedTag) : ':' ∉ t.zeros := fun h => by
  simpa using t.all_zero ':' h

/-- `r{n,n}` over `n` characters of a class reads exactly them, whatever follows. -/
theorem matchLengths_rep_cls_exact {rs : List (Char × Char)} (t : List Char) :
    ∀ w : List Char, (∀ c ∈ w, inClass rs c) →
      matchLengths (rep (cls rs) w.length (some w.length)) (w ++ t) = [w.length]
  | [], _ => rfl
  | c :: w, hw => by
    have ih := matchLengths_rep_cls_exact t w fun d hd => hw d (List.mem_cons_of_mem c hd)
    simp only [matchLengths_rep] at ih
    simp only [matchLengths_rep, List.length_cons, repLengths, Option.map_some',
      Nat.add_sub_cancel, List.cons_append, matchLengths_cls_cons, hw c (List.mem_cons_self c w),
      if_true, andThen_cons, andThen_nil, List.append_nil, List.drop_succ_cons, List.drop_zero,
      ih, List.map_cons, List.map_nil, Nat.add_comm]

/-- `r?` reads first what `r` reads first. -/
theorem matchLengths_opt_head {r : Hir} {x : List Char} {n : Nat}
    (h : (matchLengths r x).head? = some n) :
    (matchLengths (rep r 0 (some 1)) x).head? = some n := by
  rw [matchLengths_rep, repLengths, optLengths, List.head?_append,
    @head?_andThen _ (optLengths (matchLengths r) 0) x n 0 h rfl]
  rfl

/-- `r?` where `r` does not match reads nothing. -/
theorem matchLengths_opt_of_nil {r : Hir} {x : List Char} (h : matchLengths r x = []) :
    matchLengths (rep r 0 (some 1)) x = [0] := by
  rw [matchLengths_rep, repLengths, optLengths, h]
  rfl

/-- After the four `f`s, the zeros and their `':'`, if any, then the closing `':'`, are read
first as a whole: a `:0{1,4}` that reads into the quad has no `':'` after it. -/
theorem matchLengths_zeroText_head (t : MappedTag) {x : List Char} (hx : ':' ∉ x) :
    (matchLengths (cat (rep (cat (lit ':') (rep (lit '0') 1 (some 4))) 0 (some 1)) (lit ':'))
      (t.zeroText ++ ':' :: x)).head? = some (t.zeroText.length + 1) := by
  rw [MappedTag.zeroText]
  split_ifs with hz
  · have hcut : ∀ n ∈ matchLengths (cat (lit ':') (rep (lit '0') 1 (some 4))) (':' :: x),
        matchLengths (lit ':') ((':' :: x).drop n) = [] := fun n hn => by
      obtain ⟨k, rfl⟩ : ∃ k, n = k + 1 :=
        ⟨n - 1, by have := nonNullable_sound hn (by decide); omega⟩
      refine matchLengths_eq_nil_of_head (show (lit ':').startsIn [(':', ':')] by decide)
        fun c hc => Bool.eq_false_iff.2 fun h => hx ?_
      rw [List.drop_succ_cons] at hc
      exact inClass_single.1 h ▸ List.mem_of_mem_drop (List.mem_of_mem_head? hc)
    rw [matchLengths_cat, matchLengths_rep, repLengths, optLengths, andThen_append,
      andThen_eq_nil fun n hn => ?_]
    · rfl
    · obtain ⟨k, hk, m, hm, rfl⟩ := mem_andThen.1 hn
      simp only [optLengths, List.mem_singleton] at hm
      rw [hm, Nat.add_zero]
      exact hcut k hk
  · have hpos : 0 < t.zeros.length := List.length_pos.2 hz
    have hzeros : (matchLengths (cat (lit ':') (rep (lit '0') 1 (some 4)))
        (':' :: (t.zeros ++ ':' :: x))).head? = some (1 + t.zeros.length) :=
      head?_cat_cls (by decide) (by
        rw [lit, matchLengths_rep_cls (fun c hc => by rw [t.all_zero c hc]; decide) hpos
          t.length_zeros (by rintro c ⟨⟩; decide), range'_reverse_of_pos hpos]
        rfl)
    have hcolon : (matchLengths (lit ':')
        ((':' :: (t.zeros ++ ':' :: x)).drop (1 + t.zeros.length))).head? = some 1 := by
      rw [Nat.add_comm, List.drop_succ_cons, List.drop_left]
      rfl
    rw [List.cons_append, matchLengths_cat, head?_andThen (matchLengths_opt_head hzeros) hcolon,
      List.length_cons, Nat.add_comm 1]

/-- A tag is first read as a whole, whatever follows it, unless a `':'`. -/
theorem matchLengths_mappedTag_head (t : MappedTag) {x : List Char} (hx : ':' ∉ x) :
    (matchLengths mappedTagHir (t.render ++ x)).head? = some t.render.length := by
  have hf := @matchLengths_rep_cls_exact [('f', 'f'), ('F', 'F')] (t.zeroText ++ ':' :: x)
    t.ffff fun c hc => by rcases t.all_f c hc with h | h <;> rw [h] <;> decide
  rw [t.length_ffff] at hf
  have hx' : t.render ++ x = t.ffff ++ (t.zeroText ++ ':' :: x) := by
    simp [MappedTag.render]
  have hrest : (matchLengths (cat (rep (cat (lit ':') (rep (lit '0') 1 (some 4))) 0 (some 1))
      (lit ':')) ((t.ffff ++ (t.zeroText ++ ':' :: x)).drop 4)).head? =
      some (t.zeroText.length + 1) := by
    rw [List.drop_left' t.length_ffff]
    exact matchLengths_zeroText_head t hx
  have heq : mappedTagHir = cat (rep (cls [('f', 'f'), ('F', 'F')]) 4 (some 4))
      (cat (rep (cat (lit ':') (rep (lit '0') 1 (some 4))) 0 (some 1)) (lit ':')) := rfl
  rw [hx', heq, matchLengths_cat, hf, head?_andThen (show [4].head? = some 4 from rfl) hrest]
  simp [MappedTag.render, t.length_ffff, Nat.add_assoc]

theorem Ipv6Mapped.colon_not_mem_quad (q : Ipv6Mapped) (s : List Char) (hs : ':' ∉ s) :
    ':' ∉ q.quad.render.data ++ s := by
  rw [List.mem_append, not_or]
  refine ⟨fun h => ?_, hs⟩
  rcases q.quad.mem_render h with h | h
  · exact absurd h (by decide)
  · exact absurd h (by decide)

/-- The optional tag is read first as a whole: when there is none, the quad starts with a
digit, not with an `f`. -/
theorem matchLengths_tagOpt_head (q : Ipv6Mapped) {x : List Char} (hx : ':' ∉ x)
    (hxd : ∀ c ∈ x.head?, c.isDigit) :
    (matchLengths (rep mappedTagHir 0 (some 1)) (q.tagText ++ x)).head? =
      some q.tagText.length := by
  rcases q with ⟨_ | t, quad, hu⟩
  · rw [matchLengths_opt_of_nil (matchLengths_eq_nil_of_head
      (show mappedTagHir.startsIn [('f', 'f'), ('F', 'F')] by decide)
      fun c hc => @not_inClass_of_rangesOutside [('f', 'f'), ('F', 'F')] [('0', '9')] c
        (by decide) (by rw [inClass_digits]; exact hxd c hc))]
    rfl
  · exact matchLengths_opt_head (matchLengths_mappedTag_head t hx)

/-- At an IPv4-mapped or IPv4-translated address followed by anything but a digit, the first
match of the eleventh alternative is the whole address. -/
theorem matchLengths_mapped_head (q : Ipv6Mapped) {s : List Char} (hs : ':' ∉ s)
    (hsd : ∀ c ∈ s.head?, c.isDigit = false) :
    (matchLengths mappedHir (q.render.data ++ s)).head? = some q.render.data.length := by
  have hquad : (matchLengths v6QuadHir
      ((q.tagText ++ (q.quad.render.data ++ s)).drop q.tagText.length)).head? =
      some q.quad.render.data.length := by
    rw [List.drop_left]
    exact matchLengths_v6Quad_head q.quad q.unpadded hsd
  have heq : mappedHir = cat (lit ':') (cat (lit ':') (cat (rep mappedTagHir 0 (some 1))
      v6QuadHir)) := rfl
  have hx : q.render.data ++ s = ':' :: ':' :: (q.tagText ++ (q.quad.render.data ++ s)) := by
    simp [Ipv6Mapped.render]
  have hinner : (matchLengths (cat (rep mappedTagHir 0 (some 1)) v6QuadHir)
      (q.tagText ++ (q.quad.render.data ++ s))).head? =
      some (q.tagText.length + q.quad.render.data.length) := by
    rw [matchLengths_cat]
    exact head?_andThen (matchLengths_tagOpt_head q (q.colon_not_mem_quad s hs)
      (q.quad.render_head_digit s)) hquad
  rw [heq, hx]
  refine (head?_cat_cls (by decide) (head?_cat_cls (by decide) hinner)).trans ?_
  simp only [Ipv6Mapped.render, List.length_cons, List.length_append, Option.some.injEq]
  omega

/-! ### The alternatives before the eleventh -/

/-- No `':'` right after a `':'`. -/
theorem chain'_of_colon_not_mem {l : List Char} (h : ':' ∉ l) :
    l.Chain' (fun a b => a = ':' → b ≠ ':') :=
  (@List.pairwise_of_forall_mem_list _ l (fun a b => a = ':' → b ≠ ':')
    fun _ ha _ _ hac _ => h (hac ▸ ha)).chain'

theorem chain'_colon_cons {l : List Char} (h : ':' ∉ l) :
    (':' :: l).Chain' (fun a b => a = ':' → b ≠ ':') :=
  (chain'_of_colon_not_mem h).cons' fun _ hb _ hbc => h (hbc ▸ List.mem_of_mem_head? hb)

theorem chain'_append_of_colon_not_mem {u v : List Char} (hu : ':' ∉ u)
    (hv : v.Chain' (fun a b => a = ':' → b ≠ ':')) :
    (u ++ v).Chain' (fun a b => a = ':' → b ≠ ':') :=
  List.chain'_append.2 ⟨chain'_of_colon_not_mem hu, hv,
    fun _ ha _ _ hac _ => hu (hac ▸ List.mem_of_mem_getLast? ha)⟩

/-- After its `::`, an IPv4-mapped or IPv4-translated address has no `::`. -/
theorem Ipv6Mapped.tagText_chain' (q : Ipv6Mapped) {x : List Char} (hx : ':' ∉ x) :
    (q.tagText ++ x).Chain' (fun a b => a = ':' → b ≠ ':') := by
  rcases q with ⟨_ | t, quad, hu⟩
  · exact chain'_of_colon_not_mem hx
  · show (t.ffff ++ t.zeroText ++ [':'] ++ x).Chain' _
    rw [List.append_assoc, List.append_assoc, List.singleton_append]
    refine chain'_append_of_colon_not_mem t.colon_not_mem_ffff ?_
    rw [MappedTag.zeroText]
    split_ifs with hz
    · exact chain'_colon_cons hx
    · obtain ⟨z, zs, hzs⟩ := List.exists_cons_of_ne_nil hz
      refine (chain'_append_of_colon_not_mem t.colon_not_mem_zeros (chain'_colon_cons hx)).cons'
        fun b hb _ hbc => t.colon_not_mem_zeros ?_
      rw [hzs, List.cons_append, List.head?_cons, Option.mem_def, Option.some.injEq] at hb
      rw [hzs, hb, hbc]
      exact List.mem_cons_self _ _

/-- What the second alternative reads after its optional `::`. -/
def embeddedRest : Hir := cat (rep groupColonHir 1 (some 4)) (cat (lit ':') v6QuadHir)

theorem embeddedRest_pairIn : embeddedRest.pairIn [(':', ':')] [(':', ':')] := by decide

/-- The second alternative needs a `::` after a hex digit, which an IPv4-mapped or
IPv4-translated address does not have. -/
theorem matchLengths_embedded_mapped (q : Ipv6Mapped) {s : List Char} (hs : ':' ∉ s) :
    matchLengths embeddedHir (q.render.data ++ s) = [] := by
  set T := q.tagText ++ (q.quad.render.data ++ s)
  have hx : q.render.data ++ s = ':' :: ':' :: T := by simp [T, Ipv6Mapped.render]
  have hT : matchLengths embeddedRest T = [] :=
    matchLengths_eq_nil_of_pairIn embeddedRest_pairIn fun a b ha hb hab => by
      rw [inClass_single] at ha hb
      subst ha hb
      have hc := List.Chain'.infix (q.tagText_chain' (q.colon_not_mem_quad s hs)) hab
      exact absurd (List.chain'_pair.1 hc) (by decide)
  have hdc : matchLengths (rep (cat (lit ':') (lit ':')) 0 (some 1)) (':' :: ':' :: T) =
      [2, 0] := rfl
  have heq : embeddedHir = cat (rep (cat (lit ':') (lit ':')) 0 (some 1)) embeddedRest := rfl
  rw [hx, heq, matchLengths_cat, hdc, andThen_cons, andThen_cons, andThen_nil,
    List.drop_succ_cons, List.drop_succ_cons, List.drop_zero, List.drop_zero, hT,
    matchLengths_colon_of_startsIn (show embeddedRest.startsIn hexClass by decide)]
  rfl

/-- At an IPv4-mapped or IPv4-translated address followed by anything but a digit or a
`':'`, the first match of the IPv6 pattern is the whole address. -/
theorem matchLengths_mapped_alternatives (q : Ipv6Mapped) {h : Hir}
    (hh : alternatives h = patternAlternatives) {s : List Char} (hs : ':' ∉ s)
    (hsd : ∀ c ∈ s.head?, c.isDigit = false) :
    (matchLengths h (q.render.data ++ s)).head? = some q.render.data.length := by
  have hx : q.render.data ++ s = ':' :: ':' :: (q.tagText ++ (q.quad.render.data ++ s)) := by
    simp [Ipv6Mapped.render]
  have hlink : matchLengths linkLocalHir (q.render.data ++ s) = [] := by
    rw [hx]
    exact matchLengths_eq_nil_of_head (show linkLocalHir.startsIn [('F', 'F'), ('f', 'f')] by
      decide) (by rintro c ⟨⟩; decide)
  have hfull : matchLengths ipv6FullHir (q.render.data ++ s) = [] := by
    rw [hx]
    exact matchLengths_colon_of_startsIn (show ipv6FullHir.startsIn hexClass by decide) _
  have hcomp : ((List.range' 1 7).map fun k => matchLengths (compressedHir k)
      (q.render.data ++ s)).flatten = [] := by
    rw [hx]
    exact compressedAlts_colon _
  rw [matchLengths_eq_flatten, hh, patternAlternatives_cons, List.map_cons, List.map_cons,
    List.map_cons, List.flatten_cons, List.flatten_cons, List.flatten_cons, hlink, hfull,
    matchLengths_embedded_mapped q hs, List.map_append, List.flatten_append, List.map_map]
  rw [show (fun a => matchLengths a (q.render.data ++ s)) ∘ compressedHir =
    fun k => matchLengths (compressedHir k) (q.render.data ++ s) from rfl, hcomp]
  rw [List.map_cons, List.flatten_cons, List.nil_append, List.nil_append, List.nil_append,
    List.nil_append, List.head?_append, matchLengths_mapped_head q hs hsd]
  rfl

/-! ### Redaction -/

theorem MappedTag.mem_render {t : MappedTag} {c : Char} (h : c ∈ t.render) :
    c = ':' ∨ c = 'f' ∨ c = 'F' ∨ c = '0' := by
  simp only [render, zeroText, List.mem_append, List.mem_singleton] at h
  rcases h with (h | h) | h
  · rcases t.all_f c h with h | h
    exacts [.inr (.inl h), .inr (.inr (.inl h))]
  · split_ifs at h
    · simp at h
    · rcases List.mem_cons.1 h with h | h
      exacts [.inl h, .inr (.inr (.inr (t.all_zero c h)))]
  · exact .inl h

theorem Ipv6Mapped.newline_not_mem (q : Ipv6Mapped) : '\n' ∉ q.render.data := by
  intro h
  simp only [render, List.mem_cons, List.mem_append] at h
  rcases h with h | h | h | h
  · exact absurd h (by decide)
  · exact absurd h (by decide)
  · rcases q with ⟨_ | t, quad, hu⟩
    · simp [tagText] at h
    · rcases MappedTag.mem_render h with h | h | h | h <;> exact absurd h (by decide)
  · rcases q.quad.mem_render h with h | h <;> exact absurd h (by decide)

theorem Ipv6Mapped.render_ne_nil (q : Ipv6Mapped) : q.render.data ≠ [] := by
  simp [Ipv6Mapped.render]

/-- `redact_ipv6` replaces an IPv4-mapped or IPv4-translated address exactly, whatever text
with no `':'` surrounds it, as long as no hex digit stands right before it and no digit
right after it. -/
theorem redactIpv6_mapped (q : Ipv6Mapped) {p s : String} (hp : ':' ∉ p.data)
    (hs : ':' ∉ s.data) (hpl : ∀ c ∈ p.data.getLast?, inClass hexClass c = false)
    (hsh : ∀ c ∈ s.data.head?, c.isDigit = false) :
    redactIpv6 (p ++ q.render ++ s) = p ++ "[REDACTED]" ++ s :=
  redactIpv6_of_head q.render_ne_nil hp hs hpl
    (matchLengths_mapped_alternatives q alternatives_ipv6Hir hs hsh)

/-- `redact_ipv6`, and with it the release-build `redact_string` on a line that does not
mention `ice-pwd`, replace an IPv4-mapped or IPv4-translated IPv6 address exactly, whatever
text with no digit, `':'` or line break surrounds it, as long as no hex digit stands right
before it. -/
theorem redact_ipv6_mapped_exact (q : Ipv6Mapped) (p s : String) (h : Ipv6Context p s)
    (hi : ¬"ice-pwd".data <:+: (p ++ q.render ++ s).data) :
    redactIpv6 (p ++ q.render ++ s) = p ++ "[REDACTED]" ++ s ∧
      redactString (p ++ q.render ++ s) = p ++ "[REDACTED]" ++ s := by
  have h6 := redactIpv6_mapped q (fun hc => h.no_colon (List.mem_append_left _ hc))
    (fun hc => h.no_colon (List.mem_append_right _ hc)) h.not_hex_before
    (fun c hc => h.no_digit c (List.mem_append_right _ (List.mem_of_mem_head? hc)))
  exact ⟨h6, redactString_of_redactIpv6 h q.newline_not_mem hi h6⟩

theorem redact_ipv6_mapped_exact_sample :
    ∃ q : Ipv6Mapped, q.render = "::ffff:0:192.0.2.128" ∧ Ipv6Context "text " "f>" ∧
      ¬"ice-pwd".data <:+: ("text " ++ q.render ++ "f>").data ∧
      (redactIpv6 ("text " ++ q.render ++ "f>") = "text " ++ "[REDACTED]" ++ "f>" ∧
        redactString ("text " ++ q.render ++ "f>") = "text " ++ "[REDACTED]" ++ "f>") :=
  let q : Ipv6Mapped :=
    ⟨some ⟨"ffff".data, rfl, by decide, "0".data, by decide, by decide⟩,
      ⟨⟨"192".data, by decide, by decide, by decide, by decide⟩,
        ⟨"0".data, by decide, by decide, by decide, by decide⟩,
        ⟨"2".data, by decide, by decide, by decide, by decide⟩,
        ⟨"128".data, by decide, by decide, by decide, by decide⟩⟩, by decide⟩
  have hr : q.render = "::ffff:0:192.0.2.128" := rfl
  have h : Ipv6Context "text " "f>" := ⟨by decide, by decide, by decide, by decide⟩
  have hi : ¬"ice-pwd".data <:+: ("text " ++ q.render ++ "f>").data := by
    rw [hr]
    exact find_eq_none_iff.1 (by decide)
  ⟨q, hr, h, hi, redact_ipv6_mapped_exact q "text " "f>" h hi⟩

set_option maxRecDepth 100000 in
/-- Without its condition on the octets, the address is not replaced whole: the octet of the
pattern reads `001` only as far as `00`, where no `'.'` follows, so the eleventh alternative
fails and the last reads just `::ffff:001`; three octets of the address stay in the output of
`redact_string`. -/
theorem redactString_padded_octet :
    redactString "::ffff:001.2.3.4" = "[REDACTED].2.3.4" := by
  have hice : redactIcePassword "::ffff:001.2.3.4" = "::ffff:001.2.3.4" :=
    redactIcePassword_of_single_line (by decide) (find_eq_none_iff.1 (by decide))
  rw [redactString, hice]
  decide

/-! ## Nothing is left -/

/-- Whatever the text, the output of the release-build `redact_string` holds no link-local
address with a zone index, no address with an embedded IPv4 address and no IPv4-mapped or
IPv4-translated address, in the forms the pattern reads: at each, the IPv6 pattern has a
match, and after the IPv6 pass it matches nowhere. -/
theorem redactString_no_quad_or_zone_address (text : String) :
    (∀ q : LinkLocal, ¬q.render.data <:+: (redactString text).data) ∧
      (∀ q : Ipv6Embedded, ¬q.render.data <:+: (redactString text).data) ∧
      ∀ q : Ipv6Mapped, ¬q.render.data <:+: (redactString text).data := by
  obtain ⟨-, -, hn6, hb6, -⟩ := ipv6Hir_checks
  have h6 := noMatch_redactIpv4 hn6 hb6
    (redactWith_noMatch ipv6Pattern_parse hn6 hb6 (redactIcePassword text)).1
  have hnil : ∀ {w : List Char} {n : Nat}, (matchLengths ipv6Hir (w ++ [])).head? = some n →
      ¬w <:+: (redactString text).data := fun hw => not_infix_of_noMatch h6 fun he => by
    rw [List.append_nil, he] at hw
    cases hw
  exact ⟨fun q => hnil (matchLengths_linkLocal_first q
      (alternatives_ipv6Hir.trans patternAlternatives_cons) (by simp)),
    fun q => hnil (matchLengths_embedded_alternatives q alternatives_ipv6Hir (by simp)),
    fun q => hnil (matchLengths_mapped_alternatives q alternatives_ipv6Hir (List.not_mem_nil _)
      (by simp))⟩

end RingRtc.Core.Util
