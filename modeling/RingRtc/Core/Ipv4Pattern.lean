import RingRtc.Core.Util
import RingRtc.Regex.Words

/-! # The IPv4 pass

The IPv4 pattern is three octets each followed by a dot, then a fourth octet, where an
octet is tried as `25[0-5]`, then `2[0-4][0-9]`, then `[0-1][0-9]{2}`, then `[0-9]{1,2}`.
On an octet written with one to three digits and of value at most 255, the matches of
these alternatives are every length from the whole octet down to one digit, longest first;
a dot after the octet keeps only the whole one, and so does the end of the address, where
the highest-priority match is the first. Since every match starts with a digit, text
without a digit passes `redact_ipv4` unchanged, and text around a dotted quad that has no
digit is never matched, so `redact_ipv4` replaces the address exactly.
-/
namespace RingRtc.Core.Util

open RingRtc.Regex Hir

/-- One octet of a dotted quad as written: one to three decimal digits, of value at most
255, with leading zeros allowed. -/
structure Octet where
  digits : List Char
  length_pos : 0 < digits.length
  length_le : digits.length ≤ 3
  all_digit : ∀ c ∈ digits, c.isDigit
  value_le : decimalValue digits ≤ 255

/-- A dotted quad as written. -/
structure Ipv4Text where
  a : Octet
  b : Octet
  c : Octet
  d : Octet

def Ipv4Text.render (q : Ipv4Text) : String :=
  ⟨q.a.digits ++ '.' :: q.b.digits ++ '.' :: q.c.digits ++ '.' :: q.d.digits⟩

theorem Ipv4Text.mem_render {q : Ipv4Text} {c : Char} (h : c ∈ q.render.data) :
    c.isDigit ∨ c = '.' := by
  simp only [render, List.mem_append, List.mem_cons, or_assoc] at h
  rcases h with h | h | h | h | h | h | h <;>
    first | exact .inr h | exact .inl (Octet.all_digit _ c h)

theorem Ipv4Text.render_ne_nil (q : Ipv4Text) : q.render.data ≠ [] := by simp [render]

/-- The octet alternatives of the IPv4 pattern. -/
def octetHir : Hir :=
  alt (cat (lit '2') (cat (lit '5') (cls [('0', '5')])))
    (alt (cat (lit '2') (cat (cls [('0', '4')]) (cls [('0', '9')])))
      (alt (cat (cls [('0', '1')]) (rep (cls [('0', '9')]) 2 (some 2)))
        (rep (cls [('0', '9')]) 1 (some 2))))

def ipv4Hir : Hir := cat (rep (cat octetHir (lit '.')) 3 (some 3)) octetHir

set_option maxRecDepth 10000 in
theorem ipv4Pattern_parse : new ipv4Pattern = .ok ipv4Hir := by
  have h : (new ipv4Pattern).toOption = some ipv4Hir := by decide
  revert h
  cases new ipv4Pattern <;> simp [Except.toOption]

theorem digit_toNat {c : Char} (h : c.isDigit) : 48 ≤ c.toNat ∧ c.toNat ≤ 57 := isDigit_iff.1 h

/-- On an octet alone, the octet alternatives match every length from the whole octet down
to one digit, longest first. -/
theorem matchLengths_octet (o : Octet) :
    matchLengths octetHir o.digits = (List.range' 1 o.digits.length).reverse := by
  obtain ⟨ds, h0, h3, hd, hv⟩ := o
  rcases ds with _ | ⟨d₁, _ | ⟨d₂, _ | ⟨d₃, _ | ⟨d₄, t⟩⟩⟩⟩
  · simp at h0
  · have h₁ := digit_toNat (hd d₁ (by simp))
    simp [octetHir, lit, inClass, repLengths, optLengths, h₁, List.range']
  · have h₁ := digit_toNat (hd d₁ (by simp))
    have h₂ := digit_toNat (hd d₂ (by simp))
    simp [octetHir, lit, inClass, repLengths, optLengths, h₁, h₂, List.range']
  · have h₁ := digit_toNat (hd d₁ (by simp))
    have h₂ := digit_toNat (hd d₂ (by simp))
    have h₃ := digit_toNat (hd d₃ (by simp))
    simp [octetHir, lit, inClass, repLengths, optLengths, decimalValue, h₁, h₂, h₃,
      List.range'] at hv ⊢
    split_ifs <;> simp <;> omega
  · simp at h3

theorem octetHir_rejects {c : Char} (h : c.isDigit = false) : octetHir.rejects c = true := by
  have : ¬(48 ≤ c.toNat ∧ c.toNat ≤ 57) := fun h' => by simp [isDigit_iff.2 h'] at h
  simp [octetHir, lit, Hir.rejects, inClass]
  omega

/-- What follows an octet, unless it is a digit, is never read by the octet alternatives. -/
theorem matchLengths_octet_append (o : Octet) {t : List Char}
    (ht : ∀ c ∈ t.head?, c.isDigit = false) :
    matchLengths octetHir (o.digits ++ t) = (List.range' 1 o.digits.length).reverse := by
  cases t with
  | nil => rw [List.append_nil, matchLengths_octet]
  | cons c t =>
    rw [matchLengths_append_cons (octetHir_rejects (ht c rfl)), matchLengths_octet]

/-- An octet and its dot match exactly once, as a whole. -/
theorem matchLengths_octet_dot (o : Octet) (t : List Char) :
    matchLengths (cat octetHir (lit '.')) (o.digits ++ '.' :: t) = [o.digits.length + 1] :=
  matchLengths_cat_lit (fun h => absurd (o.all_digit '.' h) (by decide)) o.length_pos
    (matchLengths_octet_append o (by simp [Char.isDigit]))

theorem drop_octet_dot (o : Octet) (t : List Char) :
    (o.digits ++ '.' :: t).drop (o.digits.length + 1) = t := by
  simp [List.drop_append_eq_append_drop]

theorem drop_octet_dot_add (o : Octet) (t : List Char) (k : Nat) :
    (o.digits ++ '.' :: t).drop (o.digits.length + 1 + k) = t.drop k := by
  rw [← List.drop_drop, drop_octet_dot]

/-- Three octets with their dots match exactly once, as a whole. -/
theorem matchLengths_three_octets (a b c : Octet) (t : List Char) :
    matchLengths (rep (cat octetHir (lit '.')) 3 (some 3))
        (a.digits ++ '.' :: (b.digits ++ '.' :: (c.digits ++ '.' :: t))) =
      [a.digits.length + 1 + (b.digits.length + 1 + (c.digits.length + 1))] := by
  simp only [matchLengths_rep, repLengths, Option.map_some', matchLengths_octet_dot,
    andThen_cons, andThen_nil, List.append_nil, drop_octet_dot, optLengths, List.map_cons,
    List.map_nil, Nat.add_zero]

/-- At the start of a dotted quad followed by anything but a digit, the first match of the
IPv4 pattern is the whole quad. -/
theorem matchLengths_ipv4_head (q : Ipv4Text) {s : List Char}
    (hs : ∀ c ∈ s.head?, c.isDigit = false) :
    (matchLengths ipv4Hir (q.render.data ++ s)).head? = some q.render.data.length := by
  simp only [ipv4Hir, Ipv4Text.render, matchLengths_cat, List.append_assoc, List.cons_append,
    matchLengths_three_octets, andThen_cons, andThen_nil, List.append_nil]
  rw [drop_octet_dot_add, drop_octet_dot_add, drop_octet_dot, matchLengths_octet_append _ hs,
    range'_reverse_of_pos q.d.length_pos]
  simp only [List.map_cons, List.head?_cons, List.length_append, List.length_cons,
    Option.some.injEq]
  omega

/-- Every match of the IPv4 pattern starts with a digit. -/
theorem ipv4Hir_startsIn : ipv4Hir.startsIn [('0', '9')] = true := by decide

theorem inClass_digits (c : Char) : inClass [('0', '9')] c = c.isDigit := by
  rw [Bool.eq_iff_iff, isDigit_iff]
  simp [inClass]

theorem matchLengths_ipv4_of_head {s : List Char} (hs : ∀ c ∈ s.head?, c.isDigit = false) :
    matchLengths ipv4Hir s = [] :=
  matchLengths_eq_nil_of_head ipv4Hir_startsIn fun d hd => by rw [inClass_digits]; exact hs d hd

/-- Text without a digit passes `redact_ipv4` unchanged. -/
theorem redactIpv4_of_no_digit {text : String} (h : ∀ c ∈ text.data, c.isDigit = false) :
    redactIpv4 text = text := by
  rw [redactIpv4, redactWith, ipv4Pattern_parse]
  exact String.ext (replaceAll_of_no_match _ fun _ _ => matchLengths_ipv4_of_head fun c hc =>
    h c (List.mem_of_mem_drop (List.mem_of_mem_head? hc)))

/-- `redact_ipv4` replaces a dotted quad exactly, whatever text with no digit surrounds it. -/
theorem redactIpv4_render (q : Ipv4Text) {p s : String} (hp : ∀ c ∈ p.data, c.isDigit = false)
    (hs : ∀ c ∈ s.data, c.isDigit = false) :
    redactIpv4 (p ++ q.render ++ s) = p ++ "[REDACTED]" ++ s := by
  rw [redactIpv4, redactWith, ipv4Pattern_parse]
  apply String.ext
  simp only [String.data_append]
  refine replaceAll_single (fun j hj => matchLengths_ipv4_of_head fun c hc => ?_)
    (matchLengths_ipv4_head q fun c hc => hs c (List.mem_of_mem_head? hc))
    (List.length_pos.2 q.render_ne_nil)
    (fun j _ => matchLengths_ipv4_of_head fun c hc =>
      hs c (List.mem_of_mem_drop (List.mem_of_mem_head? hc))) _
  rw [List.head?_drop, List.append_assoc, List.getElem?_append_left hj] at hc
  exact hp c (List.getElem?_mem hc)

end RingRtc.Core.Util
