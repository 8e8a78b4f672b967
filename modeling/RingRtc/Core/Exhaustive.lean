import RingRtc.Core.Redact

/-! # What `redact_string` leaves behind

`redact_ipv4` and `redact_ipv6` are `replace_all` with a pattern that has no empty match, so
each is the left-to-right rewrite of its text, and `[REDACTED]` blocks both patterns. After
either pass its pattern matches nowhere in the text, and a second pass changes nothing. The
IPv4 pass keeps the work of the IPv6 pass, so whatever the text, the output of
`redact_string` holds no dotted quad and no IPv6 address written in full. Neither pattern
reads a line break, so both passes work line by line; they keep the line that
`redact_ice_password` writes and never write `ice-pwd`, so every line of the output that
mentions `ice-pwd` is that line.
-/
namespace RingRtc.Core.Util

open RingRtc.Regex Hir

theorem pos_of_nonNullable {r : Hir} (hr : r.nonNullable) :
    ∀ s, ∀ n ∈ matchLengths r s, 0 < n :=
  fun _ _ hn => nonNullable_sound hn hr

/-- The facts about the IPv4 pattern that the proofs below use, decided on its tree. -/
theorem ipv4Hir_checks :
    ipv4Hir.nonNullable ∧ blocksCheck ipv4Hir "[REDACTED".data ']' ∧ ipv4Hir.rejects '\n' ∧
      noMatchCheck ipv4Hir "a=ice-pwd:[ REDACTED ]".data := by
  decide

theorem redacted_eq_append : "[REDACTED]".data = "[REDACTED".data ++ [']'] := rfl

section Pass

variable {pattern : String} {h : Hir} (hnew : new pattern = .ok h) (hn : h.nonNullable)
include hnew hn

/-- A pass of `redact_with` whose pattern builds and has no empty match is the rewrite of
the text by the pattern. -/
theorem redactWith_eq_rewrite (text : String) :
    (redactWith pattern text).data = rewrite h "[REDACTED]".data text.data := by
  rw [redactWith, hnew]
  exact replaceAll_eq_rewrite_of_pos (pos_of_nonNullable hn) _ _

/-- After a pass whose pattern `[REDACTED]` blocks, the pattern matches nowhere in the
text, and a second pass changes nothing. -/
theorem redactWith_noMatch (hb : blocksCheck h "[REDACTED".data ']') (text : String) :
    NoMatch h (redactWith pattern text).data ∧
      redactWith pattern (redactWith pattern text) = redactWith pattern text := by
  have hpos := pos_of_nonNullable hn
  have hno : NoMatch h (redactWith pattern text).data := by
    rw [redactWith_eq_rewrite hnew hn, redacted_eq_append]
    exact noMatch_rewrite hpos hpos (blocks_of_check hb) _ fun _ _ h => h
  refine ⟨hno, String.ext ?_⟩
  rw [redactWith_eq_rewrite hnew hn (redactWith pattern text), rewrite_of_noMatch hno]

end Pass

/-- After `redact_ipv4` the IPv4 pattern matches nowhere in the text, and after
`redact_ipv6` the IPv6 pattern matches nowhere: each pass leaves nothing for itself, and
running it twice is running it once. -/
theorem redact_passes_idempotent (text : String) :
    NoMatch ipv4Hir (redactIpv4 text).data ∧ redactIpv4 (redactIpv4 text) = redactIpv4 text ∧
      (∃ h, new ipv6Pattern = .ok h ∧ NoMatch h (redactIpv6 text).data) ∧
      redactIpv6 (redactIpv6 text) = redactIpv6 text := by
  obtain ⟨hn4, hb4, -⟩ := ipv4Hir_checks
  obtain ⟨h, hnew, -, -, hn6, hb6, -⟩ := ipv6Pattern_eq
  have h4 := redactWith_noMatch ipv4Pattern_parse hn4 hb4 text
  have h6 := redactWith_noMatch hnew hn6 hb6 text
  exact ⟨h4.1, h4.2, ⟨h, hnew, h6.1⟩, h6.2⟩

/-- The IPv4 pass keeps the work of the IPv6 pass: where a pattern that `[REDACTED]` blocks
matched nowhere, it matches nowhere after the IPv4 pass. -/
theorem noMatch_redactIpv4 {h : Hir} (hn : h.nonNullable) (hb : blocksCheck h "[REDACTED".data ']')
    {text : String} (ht : NoMatch h text.data) : NoMatch h (redactIpv4 text).data := by
  obtain ⟨hn4, -⟩ := ipv4Hir_checks
  rw [redactIpv4, redactWith_eq_rewrite ipv4Pattern_parse hn4, redacted_eq_append]
  exact noMatch_rewrite (pos_of_nonNullable hn) (pos_of_nonNullable hn4) (blocks_of_check hb) _
    fun j hj _ => ht j hj

/-- Whatever the text, the output of the release-build `redact_string` holds no dotted quad
and no IPv6 address written in full. -/
theorem redactString_no_address (text : String) :
    (∀ q : Ipv4Text, ¬q.render.data <:+: (redactString text).data) ∧
      ∀ q : Ipv6Text, ¬q.render.data <:+: (redactString text).data := by
  obtain ⟨hn4, hb4, -⟩ := ipv4Hir_checks
  obtain ⟨h, hnew, -, halt, hn6, hb6, -⟩ := ipv6Pattern_eq
  have h4 := (redactWith_noMatch ipv4Pattern_parse hn4 hb4
    (redactIpv6 (redactIcePassword text))).1
  have h6 := noMatch_redactIpv4 hn6 hb6 (redactWith_noMatch hnew hn6 hb6 (redactIcePassword text)).1
  refine ⟨fun q => not_infix_of_noMatch h4 fun he => ?_,
    fun q => not_infix_of_noMatch h6 fun he => ?_⟩
  · have hq := @matchLengths_ipv4_head q [] (by simp)
    rw [List.append_nil, he] at hq
    cases hq
  · have hq := @matchLengths_ipv6_head q h [] (List.not_mem_nil _) (by simp) halt
    rw [List.append_nil, he] at hq
    cases hq

/-! ## Line by line -/

/-- What `redact_ice_password` does to one line. -/
def maskLine (line : List Char) : List Char :=
  if (find "ice-pwd".data line).isSome then "a=ice-pwd:[ REDACTED ]".data else line

/-- What the release-build `redact_string` does to one line. -/
def redactLine (line : List Char) : List Char := (redactIpv4 (redactIpv6 ⟨maskLine line⟩)).data

theorem maskLine_masked (line : List Char) :
    maskLine line = "a=ice-pwd:[ REDACTED ]".data ∨ ¬"ice-pwd".data <:+: maskLine line := by
  unfold maskLine
  split
  · exact .inl rfl
  · exact .inr (find_eq_none_iff.1 (Option.not_isSome_iff_eq_none.1 ‹_›))

theorem redactLine_eq {h : Hir} (hnew : new ipv6Pattern = .ok h) (hn : h.nonNullable)
    (line : List Char) :
    redactLine line =
      rewrite ipv4Hir "[REDACTED]".data (rewrite h "[REDACTED]".data (maskLine line)) := by
  rw [redactLine, redactIpv4, redactWith_eq_rewrite ipv4Pattern_parse ipv4Hir_checks.1,
    redactIpv6, redactWith_eq_rewrite hnew hn]

/-- `redact_string` works line by line: it joins the lines of its text, each redacted
alone. -/
theorem redactString_data (text : String) :
    (redactString text).data = ['\n'].intercalate ((lines text.data).map redactLine) := by
  obtain ⟨hn4, -, hr4, -⟩ := ipv4Hir_checks
  obtain ⟨h, hnew, -, -, hn6, -, hr6, -⟩ := ipv6Pattern_eq
  simp only [redactString, redactIpv4, redactIpv6]
  rw [redactWith_eq_rewrite ipv4Pattern_parse hn4, redactWith_eq_rewrite hnew hn6,
    redactIcePassword, rewrite_intercalate (pos_of_nonNullable hn6) hr6,
    rewrite_intercalate (pos_of_nonNullable hn4) hr4, List.map_map, List.map_map]
  exact congrArg _ (List.map_congr_left fun l _ => (redactLine_eq hnew hn6 l).symm)

/-- Every character of a redacted line comes from the line, the fixed line or
`[REDACTED]`. -/
theorem mem_redactLine {c : Char} {line : List Char} (h : c ∈ redactLine line) :
    c ∈ line ∨ c ∈ "a=ice-pwd:[ REDACTED ]".data ∨ c ∈ "[REDACTED]".data := by
  obtain ⟨h₆, hnew, -, -, hn6, -⟩ := ipv6Pattern_eq
  rw [redactLine_eq hnew hn6] at h
  rcases mem_rewrite _ h with h | h
  · rcases mem_rewrite _ h with h | h
    · unfold maskLine at h
      split at h
      · exact .inr (.inl h)
      · exact .inl h
    · exact .inr (.inr h)
  · exact .inr (.inr h)

theorem not_mem_redactLine {c : Char} {line : List Char} (hc : c ∉ line)
    (hm : c ∉ "a=ice-pwd:[ REDACTED ]".data) (hr : c ∉ "[REDACTED]".data) :
    c ∉ redactLine line :=
  fun h => (mem_redactLine h).elim hc fun h => h.elim hm hr

/-- A pass whose pattern matches nowhere in the line `redact_ice_password` writes keeps a
line that is that line or does not mention `ice-pwd`. -/
theorem rewrite_masked {r : Hir} (hi : noMatchCheck r "a=ice-pwd:[ REDACTED ]".data)
    {l : List Char} (hl : l = "a=ice-pwd:[ REDACTED ]".data ∨ ¬"ice-pwd".data <:+: l) :
    rewrite r "[REDACTED]".data l = "a=ice-pwd:[ REDACTED ]".data ∨
      ¬"ice-pwd".data <:+: rewrite r "[REDACTED]".data l := by
  rcases hl with rfl | hl
  · exact .inl (rewrite_of_noMatch (noMatch_of_check hi))
  · exact .inr fun h => hl (infix_of_infix_rewrite (by decide) (by decide) (by decide) _ h)

/-- Every line of what the release-build `redact_string` returns is the line that
`redact_ice_password` writes or does not mention `ice-pwd`: the address passes keep what
the first pass did. -/
theorem redactString_masks_ice_lines (text : String) :
    ∀ l ∈ (redactString text).data.splitOn '\n',
      l = "a=ice-pwd:[ REDACTED ]".data ∨ ¬"ice-pwd".data <:+: l := by
  obtain ⟨-, -, -, hi4⟩ := ipv4Hir_checks
  obtain ⟨h, hnew, -, -, hn6, -, -, hi6⟩ := ipv6Pattern_eq
  rw [redactString_data]
  by_cases hnil : lines text.data = []
  · rw [hnil, List.map_nil]
    intro l hl
    obtain rfl : l = [] := by simpa [List.intercalate] using hl
    exact .inr fun h => by simp at h
  rw [List.splitOn_intercalate]
  · simp only [List.mem_map]
    rintro _ ⟨l, -, rfl⟩
    rw [redactLine_eq hnew hn6]
    exact rewrite_masked hi4 (rewrite_masked hi6 (maskLine_masked l))
  · exact List.forall_mem_map.2 fun l hl =>
      not_mem_redactLine (newline_not_mem_lines hl) (by decide) (by decide)
  · simpa using hnil

set_option maxRecDepth 100000 in
theorem redactString_masks_ice_lines_sample :
    "a=ice-pwd:[ REDACTED ]".data ∈ (redactString "ice-pwd=x").data.splitOn '\n' ∧
      ("a=ice-pwd:[ REDACTED ]".data = "a=ice-pwd:[ REDACTED ]".data ∨
        ¬"ice-pwd".data <:+: "a=ice-pwd:[ REDACTED ]".data) :=
  have h : "a=ice-pwd:[ REDACTED ]".data ∈
      (redactString "ice-pwd=x").data.splitOn '\n' := by decide
  ⟨h, redactString_masks_ice_lines _ _ h⟩

/-! ## Twice is once

`redact_ice_password` rebuilds its text from its `lines()`, which drop one `'\r'` before a
line break and a final line break. On text with no `'\r'` that does not end with a line
break, the lines of the output are the redacted lines themselves; and each line pass is
idempotent, since the mask leaves its fixed line or no `ice-pwd` and the address passes
leave nothing for either pattern. -/

/-- Every character of a piece of `splitOnP` is a character of the text. -/
theorem mem_of_mem_splitOnP {p : Char → Bool} :
    ∀ {xs l : List Char}, l ∈ xs.splitOnP p → ∀ c ∈ l, c ∈ xs
  | [], l, h => by simp_all
  | x :: xs, l, h => by
    rw [List.splitOnP_cons] at h
    split at h
    · rcases List.mem_cons.1 h with rfl | h
      · simp
      · exact fun c hc => List.mem_cons_of_mem x (mem_of_mem_splitOnP h c hc)
    · obtain ⟨hd, tl, he⟩ := List.exists_cons_of_ne_nil (List.splitOnP_ne_nil p xs)
      rw [he, List.modifyHead_cons] at h
      rcases List.mem_cons.1 h with rfl | h
      · intro c hc
        rcases List.mem_cons.1 hc with rfl | hc
        · exact List.mem_cons_self _ _
        · exact List.mem_cons_of_mem x (mem_of_mem_splitOnP (he ▸ List.mem_cons_self hd tl) c hc)
      · exact fun c hc =>
          List.mem_cons_of_mem x (mem_of_mem_splitOnP (he ▸ List.mem_cons_of_mem hd h) c hc)

theorem intercalate_append_nil (c : Char) :
    ∀ {L : List (List Char)}, L ≠ [] → [c].intercalate (L ++ [[]]) = [c].intercalate L ++ [c]
  | [a], _ => by simp [List.intercalate]
  | a :: b :: L, _ => by
    rw [List.cons_append, List.cons_append, intercalate_cons_cons, ← List.cons_append,
      intercalate_append_nil c (List.cons_ne_nil b L), intercalate_cons_cons]
    simp

/-- A final line break adds an empty last piece. -/
theorem splitOn_append_newline (t : List Char) :
    (t ++ ['\n']).splitOn '\n' = t.splitOn '\n' ++ [[]] := by
  have hne : t.splitOn '\n' ≠ [] := List.splitOnP_ne_nil _ t
  conv_lhs => rw [← List.intercalate_splitOn t '\n', ← intercalate_append_nil '\n' hne]
  refine List.splitOn_intercalate _ _ (fun l hl hc => ?_) (by simp)
  rcases List.mem_append.1 hl with hl | hl
  · simpa using not_mem_of_mem_splitOnP hl '\n' hc
  · simp_all

/-- An empty last piece comes from an empty text or a final line break. -/
theorem eq_nil_or_of_splitOn_getLast {t : List Char} (h : (t.splitOn '\n').getLast? = some []) :
    t = [] ∨ t.getLast? = some '\n' := by
  obtain ⟨ps, hps⟩ := List.getLast?_eq_some_iff.1 h
  have ht := List.intercalate_splitOn t '\n'
  rw [hps] at ht
  rcases ps with _ | ⟨p, ps⟩
  · exact .inl (by simpa [List.intercalate] using ht.symm)
  · rw [intercalate_append_nil _ (List.cons_ne_nil _ _)] at ht
    exact .inr (by rw [← ht]; simp)

/-- Where no piece holds a `'\r'`, the lines are the pieces, the last one left out when it
is empty. -/
theorem lines_of_pieces {t : List Char} {L : List (List Char)} (hp : t.splitOn '\n' = L)
    (hcr : ∀ l ∈ L, '\r' ∉ l) : lines t = if L.getLast? = some [] then L.dropLast else L := by
  have hstrip : L.dropLast.map (fun l => if l.getLast? = some '\r' then l.dropLast else l) =
      L.dropLast := by
    refine (List.map_congr_left fun l hl => if_neg fun he => ?_).trans (List.map_id _)
    exact hcr l (List.dropLast_subset _ hl) (List.mem_of_getLast?_eq_some he)
  obtain ⟨last, hlast⟩ : ∃ last, L.getLast? = some last :=
    Option.isSome_iff_exists.1 (List.getLast?_isSome.2 (hp ▸ List.splitOnP_ne_nil _ t))
  simp only [lines, hp, hstrip, hlast]
  rcases last with _ | ⟨c, last⟩
  · simp
  · simp only [Option.some.injEq, reduceCtorEq, if_false]
    exact List.dropLast_append_getLast? _ hlast

theorem mem_of_mem_lines {t l : List Char} {c : Char} (hl : l ∈ lines t) (hc : c ∈ l) :
    c ∈ t := by
  simp only [lines, List.mem_append, List.mem_map] at hl
  rcases hl with ⟨l', hl', rfl⟩ | hl
  · have := mem_of_mem_splitOnP (List.dropLast_subset _ hl') c
    split at hc <;> [exact this (List.dropLast_subset _ hc); exact this hc]
  · split at hl <;> simp only [List.not_mem_nil, List.mem_singleton] at hl
    subst hl
    exact mem_of_mem_splitOnP (List.mem_of_getLast?_eq_some ‹_›) c hc

/-- Lines joined by line breaks read back as themselves, when none holds a line break or a
`'\r'` and the last is not empty. -/
theorem lines_intercalate {L : List (List Char)} (hn : ∀ l ∈ L, '\n' ∉ l)
    (hcr : ∀ l ∈ L, '\r' ∉ l) (hlast : ∀ l ∈ L.getLast?, l ≠ []) :
    lines (['\n'].intercalate L) = L := by
  by_cases hL : L = []
  · subst hL
    rfl
  rw [lines_of_pieces (List.splitOn_intercalate _ _ hn hL) hcr]
  exact if_neg fun h : L.getLast? = some [] => hlast [] h rfl

theorem maskLine_of_masked {line : List Char}
    (h : line = "a=ice-pwd:[ REDACTED ]".data ∨ ¬"ice-pwd".data <:+: line) :
    maskLine line = line := by
  rcases h with rfl | h
  · decide
  · rw [maskLine, if_neg (by rw [find_eq_none_iff.2 h]; decide)]

/-- A redacted line is redacted already. -/
theorem redactLine_idem (line : List Char) : redactLine (redactLine line) = redactLine line := by
  obtain ⟨hn4, hb4, -, hi4⟩ := ipv4Hir_checks
  obtain ⟨h, hnew, -, -, hn6, hb6, -, hi6⟩ := ipv6Pattern_eq
  have hpos4 := pos_of_nonNullable hn4
  have hpos6 := pos_of_nonNullable hn6
  have hB4 : Blocks ipv4Hir "[REDACTED]".data := blocks_of_check hb4
  have hB6 : Blocks h "[REDACTED]".data := blocks_of_check hb6
  rw [redactLine_eq hnew hn6 line, redactLine_eq hnew hn6]
  generalize hy :
    rewrite ipv4Hir "[REDACTED]".data (rewrite h "[REDACTED]".data (maskLine line)) = y
  have hm : maskLine y = y :=
    maskLine_of_masked (hy ▸ rewrite_masked hi4 (rewrite_masked hi6 (maskLine_masked line)))
  have h6 : NoMatch h y := hy ▸ noMatch_rewrite hpos6 hpos4 hB6 _ fun j hj _ =>
    noMatch_rewrite hpos6 hpos6 hB6 _ (fun _ _ h => h) j hj
  have h4 : NoMatch ipv4Hir y := hy ▸ noMatch_rewrite hpos4 hpos4 hB4 _ fun _ _ h => h
  rw [hm, rewrite_of_noMatch h6, rewrite_of_noMatch h4]

theorem redactLine_nil : redactLine [] = [] := by
  obtain ⟨h, hnew, -, -, hn6, -⟩ := ipv6Pattern_eq
  rw [redactLine_eq hnew hn6, show maskLine [] = [] by decide, rewrite_nil, rewrite_nil]

theorem redactLine_ne_nil {line : List Char} (hl : line ≠ []) : redactLine line ≠ [] := by
  obtain ⟨h, hnew, -, -, hn6, -⟩ := ipv6Pattern_eq
  have hm : maskLine line ≠ [] := by
    unfold maskLine
    split
    · decide
    · exact hl
  rw [redactLine_eq hnew hn6]
  exact rewrite_ne_nil (rewrite_ne_nil hm (by decide)) (by decide)

/-- On text with no `'\r'` and no final line break, the lines are the pieces between line
breaks. -/
theorem lines_of_no_cr {t : List Char} (hcr : '\r' ∉ t) (hlf : t.getLast? ≠ some '\n') :
    lines t = if t = [] then [] else t.splitOn '\n' := by
  rw [lines_of_pieces rfl fun l hl hc => hcr (mem_of_mem_splitOnP hl _ hc)]
  split_ifs with h₁ h₂ h₂
  · simp [h₂]
  · exact absurd ((eq_nil_or_of_splitOn_getLast h₁).resolve_left h₂) hlf
  · simp [h₂] at h₁
  · rfl

/-- A final line break adds no line. -/
theorem lines_append_newline {t : List Char} (hcr : '\r' ∉ t) :
    lines (t ++ ['\n']) = t.splitOn '\n' := by
  rw [lines_of_pieces (splitOn_append_newline t) fun l hl hc => ?_, List.getLast?_concat,
    if_pos rfl, List.dropLast_concat]
  rcases List.mem_append.1 hl with hl | hl
  · exact hcr (mem_of_mem_splitOnP hl _ hc)
  · simp_all

/-- The lines of what `redact_string` returns are the redacted lines of its text, on text
with no `'\r'` and no final line break. -/
theorem lines_redactString {text : String} (hcr : '\r' ∉ text.data)
    (hlf : text.data.getLast? ≠ some '\n') :
    lines (redactString text).data = (lines text.data).map redactLine := by
  rw [redactString_data]
  apply lines_intercalate
  · exact List.forall_mem_map.2 fun l hl =>
      not_mem_redactLine (newline_not_mem_lines hl) (by decide) (by decide)
  · exact List.forall_mem_map.2 fun l hl =>
      not_mem_redactLine (fun hc => hcr (mem_of_mem_lines hl hc)) (by decide) (by decide)
  · rw [List.getLast?_map, Option.forall_mem_map, lines_of_no_cr hcr hlf]
    split_ifs with h
    · simp
    · exact fun l hl => redactLine_ne_nil fun hx =>
        hlf ((eq_nil_or_of_splitOn_getLast (hx ▸ hl)).resolve_left h)

/-- On text with no `'\r'` that does not end with a line break, the release-build
`redact_string` changes nothing it has redacted already, and a final line break makes no
difference to it. -/
theorem redactString_idempotent (text : String) (hcr : '\r' ∉ text.data)
    (hlf : text.data.getLast? ≠ some '\n') :
    redactString (redactString text) = redactString text ∧
      redactString (text ++ "\n") = redactString text := by
  constructor
  · apply String.ext
    rw [redactString_data (redactString text), lines_redactString hcr hlf, List.map_map,
      redactString_data]
    exact congrArg _ (List.map_congr_left fun l _ => redactLine_idem l)
  · apply String.ext
    rw [redactString_data, redactString_data, String.data_append, lines_append_newline hcr,
      lines_of_no_cr hcr hlf]
    split_ifs with h
    · simp [h, List.intercalate, redactLine_nil]
    · rfl

theorem redactString_idempotent_sample :
    '\r' ∉ "ice-pwd:s3cr3t\nfrom 10.0.0.1".data ∧
      "ice-pwd:s3cr3t\nfrom 10.0.0.1".data.getLast? ≠ some '\n' ∧
      (redactString (redactString "ice-pwd:s3cr3t\nfrom 10.0.0.1") =
          redactString "ice-pwd:s3cr3t\nfrom 10.0.0.1" ∧
        redactString ("ice-pwd:s3cr3t\nfrom 10.0.0.1" ++ "\n") =
          redactString "ice-pwd:s3cr3t\nfrom 10.0.0.1") :=
  ⟨by decide, by decide, redactString_idempotent _ (by decide) (by decide)⟩

/-- A line with no digit, no `':'` and no `ice-pwd` passes every pass unchanged. -/
theorem redactLine_of_plain {line : List Char} (hd : ∀ c ∈ line, c.isDigit = false)
    (hc : ':' ∉ line) (hi : ¬"ice-pwd".data <:+: line) : redactLine line = line := by
  rw [redactLine, maskLine_of_masked (.inr hi), redactIpv6_of_no_colon hc,
    redactIpv4_of_no_digit hd]

/-- Without its condition on the final line break, `redact_string` twice is not
`redact_string` once: each pass drops one final line break. -/
theorem redactString_twice_ne : redactString (redactString "a\n\n") ≠ redactString "a\n\n" := by
  have ha : redactLine "a".data = "a".data := redactLine_of_plain (by decide) (by decide)
    (find_eq_none_iff.1 (by decide))
  have h₁ : redactString "a\n\n" = "a\n" := String.ext (by
    rw [redactString_data, show lines "a\n\n".data = ["a".data, []] by decide]
    simp [ha, redactLine_nil, List.intercalate])
  have h₂ : redactString "a\n" = "a" := String.ext (by
    rw [redactString_data, show lines "a\n".data = ["a".data] by decide]
    simp [ha, List.intercalate])
  rw [h₁, h₂]
  decide

end RingRtc.Core.Util
