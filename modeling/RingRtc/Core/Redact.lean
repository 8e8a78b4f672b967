import RingRtc.Core.Ipv6Pattern
import RingRtc.Core.Ipv4Pattern

/-! # Redacting addresses in log text

`redact_string` runs the ice-pwd pass, then the IPv6 pass, then the IPv4 pass. A dotted
quad in text with no digit, no `':'`, no line break and no `ice-pwd` around it passes the
first two unchanged and is replaced by the third. An IPv6 address written in full, in text
with no digit, no `':'` and no line break around it and no hex digit right next to it, on a
line that does not mention `ice-pwd`, passes the first unchanged, is replaced by the second,
and what is left has no digit for the third.
-/
namespace RingRtc.Core.Util

open RingRtc.Regex Hir

/-- Text around an address in the redaction theorems: no decimal digit, no `':'`, no line
break, and no `ice-pwd`. -/
structure Surrounding (p : String) : Prop where
  no_digit : ∀ c ∈ p.data, c.isDigit = false
  no_colon : ':' ∉ p.data
  no_newline : '\n' ∉ p.data
  no_ice_pwd : ¬"ice-pwd".data <:+: p.data

/-- An occurrence of `l` across a character that `l` does not contain lies on one side. -/
theorem infix_of_cut {l x w : List Char} {c : Char} (hc : c ∉ l) (h : l <:+: x ++ c :: w) :
    l <:+: x ∨ l <:+: w := by
  obtain ⟨u, v, huv⟩ := h
  rcases List.append_eq_append_iff.1 huv with ⟨a', hx, -⟩ | ⟨c', hul, hcw⟩
  · exact .inl ⟨u, a', hx.symm⟩
  · rcases c' with _ | ⟨c₀, c''⟩
    · exact .inl ⟨u, [], by simpa using hul⟩
    · obtain ⟨h₀, hw⟩ := List.cons_eq_cons.1 hcw
      subst h₀
      rcases List.append_eq_append_iff.1 hul with ⟨a', -, hl⟩ | ⟨b', -, hb⟩
      · exact absurd (hl ▸ List.mem_append_right a' (List.mem_cons_self c c'')) hc
      · rcases b' with _ | ⟨b₀, b''⟩
        · have hcl : c ∈ l := by rw [← List.nil_append l, ← hb]; exact List.mem_cons_self c c''
          exact absurd hcl hc
        · obtain ⟨-, hc''⟩ := List.cons_eq_cons.1 hb
          subst hw hc''
          exact .inr ⟨b'', v, by simp⟩

/-- A non-empty middle part none of whose characters occurs in `l` keeps `l` from occurring
across it. -/
theorem not_infix_append {l s : List Char} (hl : l ≠ []) (hs : ¬l <:+: s) :
    ∀ (p m : List Char), ¬l <:+: p → m ≠ [] → (∀ c ∈ m, c ∉ l) → ¬l <:+: p ++ m ++ s
  | _, [], _, hm, _ => absurd rfl hm
  | p, c :: m, hp, _, hc => by
    intro h
    rw [List.append_assoc, List.cons_append] at h
    rcases infix_of_cut (hc c (List.mem_cons_self c m)) h with h | h
    · exact hp h
    · rcases m with _ | ⟨c', m'⟩
      · exact hs h
      · exact not_infix_append hl hs [] _ (by simpa using hl) (List.cons_ne_nil c' m')
          (fun d hd => hc d (List.mem_cons_of_mem c hd)) (by simpa using h)

/-- The characters of `ice-pwd` are neither digits nor `'.'`. -/
theorem not_mem_icePwd_of_mem_render {q : Ipv4Text} {c : Char} (h : c ∈ q.render.data) :
    c ∉ "ice-pwd".data := fun hc => by
  have := (by decide : ∀ d ∈ "ice-pwd".data, d.isDigit = false ∧ d ≠ '.') c hc
  rcases q.mem_render h with h | h <;> simp_all

/-- `redact_ipv4`, and with it the release-build `redact_string`, replace a dotted quad
exactly, whatever text with no digit, `':'`, line break or `ice-pwd` surrounds it. -/
theorem redact_ipv4_exact (q : Ipv4Text) (p s : String) (hp : Surrounding p)
    (hs : Surrounding s) :
    redactIpv4 (p ++ q.render ++ s) = p ++ "[REDACTED]" ++ s ∧
      redactString (p ++ q.render ++ s) = p ++ "[REDACTED]" ++ s := by
  have h4 := redactIpv4_render q hp.no_digit hs.no_digit
  refine ⟨h4, ?_⟩
  have hn : '\n' ∉ (p ++ q.render ++ s).data := by
    simp only [String.data_append, List.mem_append, not_or]
    exact ⟨⟨hp.no_newline, fun h => by rcases q.mem_render h with h | h <;> simp_all⟩,
      hs.no_newline⟩
  have hc : ':' ∉ (p ++ q.render ++ s).data := by
    simp only [String.data_append, List.mem_append, not_or]
    exact ⟨⟨hp.no_colon, fun h => by rcases q.mem_render h with h | h <;> simp_all⟩,
      hs.no_colon⟩
  have hi : ¬"ice-pwd".data <:+: (p ++ q.render ++ s).data := by
    simp only [String.data_append]
    exact not_infix_append (by decide) hs.no_ice_pwd _ _ hp.no_ice_pwd q.render_ne_nil
      fun c hc => not_mem_icePwd_of_mem_render hc
  simp only [redactString]
  rw [redactIcePassword_of_single_line hn hi, redactIpv6_of_no_colon hc, h4]

theorem redact_ipv4_exact_sample :
    ∃ q : Ipv4Text, q.render = "10.0.255.07" ∧ Surrounding "from " ∧ Surrounding " on" ∧
      (redactIpv4 ("from " ++ q.render ++ " on") = "from " ++ "[REDACTED]" ++ " on" ∧
        redactString ("from " ++ q.render ++ " on") = "from " ++ "[REDACTED]" ++ " on") :=
  let q : Ipv4Text :=
    ⟨⟨"10".data, by decide, by decide, by decide, by decide⟩,
      ⟨"0".data, by decide, by decide, by decide, by decide⟩,
      ⟨"255".data, by decide, by decide, by decide, by decide⟩,
      ⟨"07".data, by decide, by decide, by decide, by decide⟩⟩
  have hp : Surrounding "from " :=
    ⟨by decide, by decide, by decide, find_eq_none_iff.1 (by decide)⟩
  have hs : Surrounding " on" :=
    ⟨by decide, by decide, by decide, find_eq_none_iff.1 (by decide)⟩
  ⟨q, rfl, hp, hs, redact_ipv4_exact q "from " " on" hp hs⟩

/-- Text around an IPv6 address in the redaction theorems: no decimal digit, no `':'`, no
line break, and no hex digit right before the address. -/
structure Ipv6Context (p s : String) : Prop where
  no_digit : ∀ c ∈ p.data ++ s.data, c.isDigit = false
  no_colon : ':' ∉ p.data ++ s.data
  no_newline : '\n' ∉ p.data ++ s.data
  not_hex_before : ∀ c ∈ p.data.getLast?, inClass hexClass c = false

/-- Text around a full IPv6 address: an `Ipv6Context` with no hex digit right after the
address either. -/
structure Ipv6Surrounding (p s : String) extends Ipv6Context p s : Prop where
  not_hex_after : ∀ c ∈ s.data.head?, inClass hexClass c = false

/-- On one line that does not mention `ice-pwd`, with no digit around an address `w`, the
release-build `redact_string` replaces `w` exactly when the IPv6 pass does. -/
theorem redactString_of_redactIpv6 {w p s : String} (h : Ipv6Context p s)
    (hw : '\n' ∉ w.data) (hi : ¬"ice-pwd".data <:+: (p ++ w ++ s).data)
    (h6 : redactIpv6 (p ++ w ++ s) = p ++ "[REDACTED]" ++ s) :
    redactString (p ++ w ++ s) = p ++ "[REDACTED]" ++ s := by
  have hn : '\n' ∉ (p ++ w ++ s).data := by
    simp only [String.data_append, List.mem_append, not_or]
    exact ⟨⟨fun hc => h.no_newline (List.mem_append_left _ hc), hw⟩,
      fun hc => h.no_newline (List.mem_append_right _ hc)⟩
  rw [redactString, redactIcePassword_of_single_line hn hi, h6, redactIpv4_of_no_digit]
  simp only [String.data_append, List.mem_append]
  rintro c ((hc | hc) | hc)
  · exact h.no_digit c (List.mem_append_left _ hc)
  · revert c
    decide
  · exact h.no_digit c (List.mem_append_right _ hc)

/-- `redact_ipv6`, and with it the release-build `redact_string` on a line that does not
mention `ice-pwd`, replace an IPv6 address written in full exactly. -/
theorem redact_ipv6_exact (q : Ipv6Text) (p s : String) (h : Ipv6Surrounding p s)
    (hi : ¬"ice-pwd".data <:+: (p ++ q.render ++ s).data) :
    redactIpv6 (p ++ q.render ++ s) = p ++ "[REDACTED]" ++ s ∧
      redactString (p ++ q.render ++ s) = p ++ "[REDACTED]" ++ s := by
  have h6 := redactIpv6_render q (fun hc => h.no_colon (List.mem_append_left _ hc))
    (fun hc => h.no_colon (List.mem_append_right _ hc)) h.not_hex_before h.not_hex_after
  refine ⟨h6, redactString_of_redactIpv6 h.toIpv6Context (fun hc => ?_) hi h6⟩
  rcases q.mem_render hc with hc | hc <;> exact absurd hc (by decide)

theorem redact_ipv6_exact_sample :
    ∃ q : Ipv6Text, q.render = "2021:0db8:85a3:0000:0000:8a2e:0370:7334" ∧
      Ipv6Surrounding "text" ">" ∧ ¬"ice-pwd".data <:+: ("text" ++ q.render ++ ">").data ∧
      (redactIpv6 ("text" ++ q.render ++ ">") = "text" ++ "[REDACTED]" ++ ">" ∧
        redactString ("text" ++ q.render ++ ">") = "text" ++ "[REDACTED]" ++ ">") :=
  let q : Ipv6Text :=
    ⟨[⟨"2021".data, by decide, by decide, by decide⟩,
        ⟨"0db8".data, by decide, by decide, by decide⟩,
        ⟨"85a3".data, by decide, by decide, by decide⟩,
        ⟨"0000".data, by decide, by decide, by decide⟩,
        ⟨"0000".data, by decide, by decide, by decide⟩,
        ⟨"8a2e".data, by decide, by decide, by decide⟩,
        ⟨"0370".data, by decide, by decide, by decide⟩],
      ⟨"7334".data, by decide, by decide, by decide⟩, rfl⟩
  have hr : q.render = "2021:0db8:85a3:0000:0000:8a2e:0370:7334" := rfl
  have h : Ipv6Surrounding "text" ">" :=
    ⟨⟨by decide, by decide, by decide, by decide⟩, by decide⟩
  have hi : ¬"ice-pwd".data <:+: ("text" ++ q.render ++ ">").data := by
    rw [hr]
    exact find_eq_none_iff.1 (by decide)
  ⟨q, hr, h, hi, redact_ipv6_exact q "text" ">" h hi⟩

end RingRtc.Core.Util
