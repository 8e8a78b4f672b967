import RingRtc.Core.Util
import RingRtc.Regex.Words
import RingRtc.Regex.Rewrite

/-! # The IPv6 pass

Every match of the IPv6 pattern is a run of hex digits and then a `':'`, so text without
`':'` passes `redact_ipv6` unchanged. The third alternative of the pattern is eight groups
of one to four hex digits with a `':'` after each of the first seven,
`([0-9a-fA-F]{1,4}:){7,7}[0-9a-fA-F]{1,4}`. On an address written so, the first two
alternatives match nowhere: every match of each has a `':'` right before a `':'` or a
`'%'`, and in the address a `':'` is always followed by a hex digit. The third matches the
whole address first. Text around the address that has no `':'` and does not end in a hex
digit is never matched, so `redact_ipv6` replaces the address exactly.

The pattern text is parsed once, in `ipv6Pattern_parse`, to `ipv6Hir`: its twelve
alternatives nested to the right. Every fact the proofs need of the pattern is read off
`ipv6Hir`.
-/
namespace RingRtc.Core.Util

open RingRtc.Regex Hir

/-- The class `[0-9a-fA-F]` of the IPv6 pattern. -/
def hexClass : List (Char × Char) := [('0', '9'), ('a', 'f'), ('A', 'F')]

/-- A group of an IPv6 address as written: one to four hex digits. -/
structure HexGroup where
  digits : List Char
  length_pos : 0 < digits.length
  length_le : digits.length ≤ 4
  all_hex : ∀ c ∈ digits, inClass hexClass c

/-- An IPv6 address written in full: seven groups each followed by a `':'`, then an eighth. -/
structure Ipv6Text where
  front : List HexGroup
  last : HexGroup
  length_front : front.length = 7

def Ipv6Text.render (q : Ipv6Text) : String :=
  ⟨(q.front.map fun g => g.digits ++ [':']).flatten ++ q.last.digits⟩

def hexGroupHir : Hir := rep (cls hexClass) 1 (some 4)

/-- The third alternative of the IPv6 pattern. -/
def ipv6FullHir : Hir := cat (rep (cat hexGroupHir (lit ':')) 7 (some 7)) hexGroupHir

/-- `[0-9a-fA-F]{1,4}:`, a group and its colon. -/
def groupColonHir : Hir := cat hexGroupHir (lit ':')

/-- `:[0-9a-fA-F]{1,4}`, a colon and its group. -/
def colonGroupHir : Hir := cat (lit ':') hexGroupHir

/-- What alternative `K + 3` of the IPv6 pattern reads after its groups: `(:g){1,7-K}`, and
`:g` for `K = 6` and `:` for `K = 7`. -/
def compressedTail : Nat → Hir
  | 6 => colonGroupHir
  | 7 => lit ':'
  | k => rep colonGroupHir 1 (some (7 - k))

/-- Alternatives four to ten of the IPv6 pattern: `([0-9a-fA-F]{1,4}:){1,K}`, then its tail. -/
def compressedHir (k : Nat) : Hir := cat (rep groupColonHir 1 (some k)) (compressedTail k)

/-- The last alternative of the IPv6 pattern, `:((:[0-9a-fA-F]{1,4}){1,7}|:)`. -/
def leadingHir : Hir := cat (lit ':') (alt (rep colonGroupHir 1 (some 7)) (lit ':'))

/-- `[0-9a-zA-Z]`, the class of a zone index. -/
def zoneClass : List (Char × Char) := [('0', '9'), ('a', 'z'), ('A', 'Z')]

/-- `:[0-9a-fA-F]{0,4}`, a segment after `fe80:`. -/
def segmentHir : Hir := cat (lit ':') (rep (cls hexClass) 0 (some 4))

/-- The first alternative of the IPv6 pattern. -/
def linkLocalHir : Hir :=
  seqOf [cls [('F', 'F'), ('f', 'f')], cls [('E', 'E'), ('e', 'e')], lit '8', lit '0', lit ':',
    rep segmentHir 0 (some 4), lit '%', rep (cls zoneClass) 1 none]

/-- `25[0-5]|(2[0-4]|1{0,1}[0-9]){0,1}[0-9]`, an octet as the IPv6 pattern reads it. -/
def v6OctetHir : Hir :=
  alt (seqOf [lit '2', lit '5', cls [('0', '5')]])
    (cat (rep (alt (cat (lit '2') (cls [('0', '4')]))
        (cat (rep (lit '1') 0 (some 1)) (cls [('0', '9')]))) 0 (some 1))
      (cls [('0', '9')]))

/-- A dotted quad as the IPv6 pattern reads it. -/
def v6QuadHir : Hir := cat (rep (cat v6OctetHir (lit '.')) 3 (some 3)) v6OctetHir

/-- The second alternative of the IPv6 pattern. -/
def embeddedHir : Hir :=
  seqOf [rep (cat (lit ':') (lit ':')) 0 (some 1), rep groupColonHir 1 (some 4), lit ':',
    v6QuadHir]

/-- `[fF]{4}(:0{1,4}){0,1}:`, the tag of an IPv4-mapped or IPv4-translated address. -/
def mappedTagHir : Hir :=
  seqOf [rep (cls [('f', 'f'), ('F', 'F')]) 4 (some 4),
    rep (cat (lit ':') (rep (lit '0') 1 (some 4))) 0 (some 1), lit ':']

/-- The eleventh alternative of the IPv6 pattern. -/
def mappedHir : Hir := seqOf [lit ':', lit ':', rep mappedTagHir 0 (some 1), v6QuadHir]

/-- The alternatives of the IPv6 pattern, in the order of `re_exps`. -/
def patternAlternatives : List Hir :=
  [linkLocalHir, embeddedHir, ipv6FullHir] ++ (List.range' 1 7).map compressedHir ++
    [mappedHir, leadingHir]

/-- The IPv6 pattern as `Regex::new` builds it: its alternatives, nested to the right. -/
def ipv6Hir : Hir := altOf patternAlternatives

set_option maxRecDepth 100000 in
/-- The IPv6 pattern builds, to `ipv6Hir`. This is the one place its text is parsed. -/
theorem ipv6Pattern_parse : new ipv6Pattern = .ok ipv6Hir := by
  have h : (new ipv6Pattern).toOption = some ipv6Hir := by decide
  revert h
  cases new ipv6Pattern <;> simp [Except.toOption]

/-- What the proofs below need of the alternatives of the parsed IPv6 pattern: each of the
first two has a `':'` right before a `':'` or a `'%'` in every match, and the third is
`ipv6FullHir`. -/
def ipv6Alternatives : Hir → Bool
  | alt a₁ (alt a₂ (alt a₃ _)) =>
    a₁.pairIn [(':', ':')] [(':', ':'), ('%', '%')] &&
      a₂.pairIn [(':', ':')] [(':', ':'), ('%', '%')] && a₃ == ipv6FullHir
  | _ => false

theorem ipv6Alternatives_eq {h : Hir} (hc : ipv6Alternatives h) :
    ∃ a₁ a₂ rest, h = alt a₁ (alt a₂ (alt ipv6FullHir rest)) ∧
      a₁.pairIn [(':', ':')] [(':', ':'), ('%', '%')] ∧
      a₂.pairIn [(':', ':')] [(':', ':'), ('%', '%')] := by
  unfold ipv6Alternatives at hc
  split at hc
  · simp only [Bool.and_eq_true, beq_iff_eq] at hc
    obtain ⟨⟨h₁, h₂⟩, rfl⟩ := hc
    exact ⟨_, _, _, rfl, h₁, h₂⟩
  · cases hc

set_option maxRecDepth 10000 in
/-- Every match of the IPv6 pattern is a run of hex digits and then a `':'`; its
alternatives are as `ipv6Alternatives` asks; it has no empty match; `[REDACTED]` blocks it;
it never reads a line break; and it matches nowhere in the line that `redact_ice_password`
writes. -/
theorem ipv6Hir_checks :
    ipv6Hir.leadsTo hexClass [(':', ':')] ∧ ipv6Alternatives ipv6Hir ∧ ipv6Hir.nonNullable ∧
      blocksCheck ipv6Hir "[REDACTED".data ']' ∧ ipv6Hir.rejects '\n' ∧
      noMatchCheck ipv6Hir "a=ice-pwd:[ REDACTED ]".data := by
  decide

theorem ipv6Pattern_eq :
    ∃ h, new ipv6Pattern = .ok h ∧ h.leadsTo hexClass [(':', ':')] ∧ ipv6Alternatives h ∧
      h.nonNullable ∧ blocksCheck h "[REDACTED".data ']' ∧ h.rejects '\n' ∧
      noMatchCheck h "a=ice-pwd:[ REDACTED ]".data :=
  ⟨ipv6Hir, ipv6Pattern_parse, ipv6Hir_checks⟩

/-- A pattern whose every match is a run of hex digits and then a `':'` never matches in
text without `':'`. -/
theorem matchLengths_eq_nil_of_no_colon {r : Hir} {s : List Char}
    (hr : r.leadsTo hexClass [(':', ':')]) (hs : ':' ∉ s) : matchLengths r s = [] :=
  matchLengths_eq_nil_of_leadsTo hr fun u c v huv _ hc => by
    rw [inClass_single] at hc
    subst hc
    exact hs (huv ▸ List.mem_append_right u (List.mem_cons_self ':' v))

/-- Text without `':'` passes `redact_ipv6` unchanged. -/
theorem redactIpv6_of_no_colon {text : String} (h : ':' ∉ text.data) : redactIpv6 text = text := by
  rw [redactIpv6, redactWith, ipv6Pattern_parse]
  exact String.ext (replaceAll_of_no_match _ fun _ _ =>
    matchLengths_eq_nil_of_no_colon ipv6Hir_checks.1 fun hm => h (List.mem_of_mem_drop hm))

theorem colon_not_hex : inClass hexClass ':' = false := by decide

theorem HexGroup.colon_not_mem (g : HexGroup) : ':' ∉ g.digits :=
  fun h => absurd (g.all_hex ':' h) (by decide)

theorem HexGroup.head_hex (g : HexGroup) (t : List Char) :
    ∀ c ∈ (g.digits ++ t).head?, inClass hexClass c := by
  obtain ⟨d, w, hg⟩ : ∃ d w, g.digits = d :: w := List.exists_cons_of_length_pos g.length_pos
  intro c hc
  simp only [hg, List.cons_append, List.head?_cons, Option.mem_def, Option.some.injEq] at hc
  exact g.all_hex c (by simp [hg, hc])

theorem Ipv6Text.mem_render {q : Ipv6Text} {c : Char} (h : c ∈ q.render.data) :
    inClass hexClass c ∨ c = ':' := by
  simp only [render, List.mem_append, List.mem_flatten, List.mem_map] at h
  rcases h with ⟨_, ⟨g, -, rfl⟩, hc⟩ | hc
  · rcases List.mem_append.1 hc with hc | hc
    · exact .inl (g.all_hex c hc)
    · exact .inr (List.mem_singleton.1 hc)
  · exact .inl (q.last.all_hex c hc)

section Text

variable {R : List Char}

/-- Groups each followed by a `':'`, then text starting with a hex digit: the text starts
with a hex digit. -/
theorem head_hex_groups (hR : ∀ c ∈ R.head?, inClass hexClass c) :
    ∀ gs : List HexGroup,
      ∀ c ∈ ((gs.map fun g => g.digits ++ [':']).flatten ++ R).head?, inClass hexClass c
  | [] => by simpa using hR
  | g :: _ => by
    simp only [List.map_cons, List.flatten_cons, List.append_assoc]
    exact g.head_hex _

/-- Groups each followed by a `':'`, then text with no `':'` that starts with a hex digit:
every `':'` is followed by a hex digit. -/
theorem hex_after_colon (hR : ':' ∉ R) (hRh : ∀ c ∈ R.head?, inClass hexClass c) :
    ∀ (gs : List HexGroup) (u : List Char) (y : Char) (v : List Char),
      (gs.map fun g => g.digits ++ [':']).flatten ++ R = u ++ ':' :: y :: v →
        inClass hexClass y
  | [], u, y, v, h => by
    rw [List.map_nil, List.flatten_nil, List.nil_append] at h
    exact absurd (by simp [h]) hR
  | g :: gs, u, y, v, h => by
    have hhead := head_hex_groups hRh gs
    simp only [List.map_cons, List.flatten_cons, List.append_assoc, List.singleton_append] at h
    rcases List.append_eq_append_iff.1 h with ⟨a, rfl, ha⟩ | ⟨a, hg, ha⟩
    · rcases a with _ | ⟨a₀, a⟩
      · obtain ⟨-, ha⟩ := List.cons_eq_cons.1 ha
        rw [List.append_eq] at ha
        exact hhead y (by rw [ha]; rfl)
      · exact hex_after_colon hR hRh gs a y v (List.cons_eq_cons.1 ha).2
    · rcases a with _ | ⟨a₀, a⟩
      · obtain ⟨-, ha⟩ := List.cons_eq_cons.1 ha
        rw [List.append_eq] at ha
        exact hhead y (by rw [← ha]; rfl)
      · exact absurd (by rw [hg, (List.cons_eq_cons.1 ha).1]; simp) g.colon_not_mem

end Text

/-- Text with no `':'` that does not end in a hex digit, then anything: no run of hex digits
followed by a `':'` starts in it. -/
theorem no_run_colon {p T u v : List Char} {c : Char} (hp : p ≠ []) (hc : ':' ∉ p)
    (hl : ∀ d ∈ p.getLast?, inClass hexClass d = false) (hu : ∀ d ∈ u, inClass hexClass d)
    (hcol : inClass [(':', ':')] c) (h : p ++ T = u ++ c :: v) : False := by
  rw [inClass_single] at hcol
  subst hcol
  have hxu : p.getLast hp ∉ u := fun hm => by
    simpa [hl _ (List.getLast?_eq_getLast p hp)] using hu _ hm
  have hxp := List.getLast_mem hp
  rcases List.append_eq_append_iff.1 h with ⟨a, hu', -⟩ | ⟨a, hp', ha⟩
  · exact hxu (hu' ▸ List.mem_append_left a hxp)
  · rcases a with _ | ⟨a₀, a⟩
    · rw [List.append_nil] at hp'
      exact hxu (hp' ▸ hxp)
    · simp only [List.cons_append, List.cons.injEq] at ha
      exact hc (by rw [hp', ← ha.1]; simp)

theorem matchLengths_hexGroup (g : HexGroup) {t : List Char}
    (ht : ∀ c ∈ t.head?, inClass hexClass c = false) :
    matchLengths hexGroupHir (g.digits ++ t) = (List.range' 1 g.digits.length).reverse :=
  matchLengths_rep_cls g.all_hex g.length_pos g.length_le ht

theorem matchLengths_hexGroup_colon (g : HexGroup) (t : List Char) :
    matchLengths (cat hexGroupHir (lit ':')) (g.digits ++ [':'] ++ t) =
      [(g.digits ++ [':']).length] := by
  rw [List.append_assoc, List.singleton_append, matchLengths_cat_lit g.colon_not_mem
    g.length_pos (matchLengths_hexGroup g (by simp [colon_not_hex])), List.length_append,
    List.length_singleton]

/-- At the start of an address written in full, followed by anything but a hex digit, the
first match of the third alternative is the whole address. -/
theorem matchLengths_ipv6Full (q : Ipv6Text) {s : List Char}
    (hs : ∀ c ∈ s.head?, inClass hexClass c = false) :
    (matchLengths ipv6FullHir (q.render.data ++ s)).head? = some q.render.data.length := by
  have h7 := matchLengths_rep_exact (q.last.digits ++ s) (q.front.map fun g => g.digits ++ [':'])
    (by simp only [List.mem_map]; rintro _ ⟨g, -, rfl⟩ t; exact matchLengths_hexGroup_colon g t)
  rw [List.length_map, q.length_front] at h7
  simp only [ipv6FullHir, Ipv6Text.render, matchLengths_cat, List.append_assoc, h7,
    andThen_cons, andThen_nil, List.append_nil, List.drop_left, matchLengths_hexGroup q.last hs,
    range'_reverse_of_pos q.last.length_pos, List.map_cons, List.head?_cons, List.length_append]

/-- At the start of an address written in full, followed by text with no `':'` that does not
start with a hex digit, the first match of the IPv6 pattern is the whole address. -/
theorem matchLengths_ipv6_head (q : Ipv6Text) {h : Hir} {s : List Char} (hs : ':' ∉ s)
    (hsh : ∀ c ∈ s.head?, inClass hexClass c = false) (halt : ipv6Alternatives h) :
    (matchLengths h (q.render.data ++ s)).head? = some q.render.data.length := by
  obtain ⟨a₁, a₂, rest, rfl, h₁, h₂⟩ := ipv6Alternatives_eq halt
  have hR : ':' ∉ q.last.digits ++ s := by
    simpa only [List.mem_append, not_or] using ⟨q.last.colon_not_mem, hs⟩
  have hnil : ∀ a : Hir, a.pairIn [(':', ':')] [(':', ':'), ('%', '%')] →
      matchLengths a (q.render.data ++ s) = [] := fun a ha =>
    matchLengths_eq_nil_of_pairIn ha fun x y hx hy ⟨u, v, huv⟩ => by
      rw [inClass_single] at hx
      subst hx
      have hyhex := hex_after_colon hR (q.last.head_hex s) q.front u y v
        (by simpa [Ipv6Text.render] using huv.symm)
      rw [not_inClass_of_rangesOutside (by decide) hy] at hyhex
      cases hyhex
  simp only [matchLengths_alt, hnil a₁ h₁, hnil a₂ h₂, List.nil_append, List.head?_append,
    matchLengths_ipv6Full q hsh, Option.or_some]

/-- `redact_ipv6` replaces text exactly where the first match of the IPv6 pattern at it is
all of it, whatever text with no `':'` surrounds it, as long as no hex digit stands right
before it. -/
theorem redactIpv6_of_head {w p s : String} (hw : w.data ≠ []) (hp : ':' ∉ p.data)
    (hs : ':' ∉ s.data) (hpl : ∀ c ∈ p.data.getLast?, inClass hexClass c = false)
    (hhead : (matchLengths ipv6Hir (w.data ++ s.data)).head? = some w.data.length) :
    redactIpv6 (p ++ w ++ s) = p ++ "[REDACTED]" ++ s := by
  have hlead := ipv6Hir_checks.1
  rw [redactIpv6, redactWith, ipv6Pattern_parse]
  apply String.ext
  simp only [String.data_append]
  refine replaceAll_single (fun j hj => ?_) hhead (List.length_pos.2 hw) (fun j _ => ?_) _
  · refine matchLengths_eq_nil_of_leadsTo hlead fun u c v huv hu hc => ?_
    rw [List.append_assoc, List.drop_append_of_le_length hj.le] at huv
    refine no_run_colon (fun he => ?_) (fun hm => hp (List.mem_of_mem_drop hm)) ?_ hu hc huv
    · rw [List.drop_eq_nil_iff] at he
      omega
    · rwa [List.getLast?_drop, if_neg (by omega)]
  · exact matchLengths_eq_nil_of_no_colon hlead fun hm => hs (List.mem_of_mem_drop hm)

/-- `redact_ipv6` replaces an address written in full exactly, whatever text with no `':'`
surrounds it, as long as no hex digit stands right next to the address. -/
theorem redactIpv6_render (q : Ipv6Text) {p s : String} (hp : ':' ∉ p.data)
    (hs : ':' ∉ s.data) (hpl : ∀ c ∈ p.data.getLast?, inClass hexClass c = false)
    (hsh : ∀ c ∈ s.data.head?, inClass hexClass c = false) :
    redactIpv6 (p ++ q.render ++ s) = p ++ "[REDACTED]" ++ s := by
  have hw : q.render.data ≠ [] := List.ne_nil_of_length_pos <| by
    simp only [Ipv6Text.render, List.length_append]
    have := q.last.length_pos
    omega
  exact redactIpv6_of_head hw hp hs hpl (matchLengths_ipv6_head q hs hsh ipv6Hir_checks.2.1)

end RingRtc.Core.Util
