import RingRtc.Regex.Search

/-! # Redaction of log text, `util.rs`

In a release build, `redact_string` runs three passes: `redact_ice_password` replaces each
line that mentions `ice-pwd` by a fixed line, then `redact_ipv6` and `redact_ipv4` replace
every match of their patterns by `[REDACTED]`. Both patterns are built with `Regex::new`
from the texts below, those of the source (with the braces of the repetitions written
`\x7b` and `\x7d`); if a pattern failed to build, its pass would return `[REDACTED]` alone.

Every line of what `redact_ice_password` returns is its fixed line or does not mention
`ice-pwd`, and a single line without `ice-pwd` passes it unchanged. On the IPv6
address below, written in full with a dotted quad in place of its last two groups, the
IPv6 pass matches nowhere and only the dotted quad is redacted.
-/
namespace RingRtc.Core.Util

open RingRtc.Regex

theorem isDigit_iff {c : Char} : c.isDigit = true ↔ 48 ≤ c.toNat ∧ c.toNat ≤ 57 := by
  simp only [Char.isDigit, ge_iff_le, Bool.and_eq_true, decide_eq_true_eq, UInt32.le_def,
    BitVec.le_def]
  exact Iff.rfl

/-- `str::find`: the first position at which `pat` occurs in the text. -/
def find (pat : List Char) : List Char → Option Nat
  | [] => if pat.isEmpty then some 0 else none
  | c :: t => if pat.isPrefixOf (c :: t) then some 0 else (find pat t).map (· + 1)

theorem find_eq_none_iff {pat : List Char} :
    ∀ {t : List Char}, find pat t = none ↔ ¬pat <:+: t
  | [] => by cases pat <;> simp [find]
  | c :: t => by
    have ih : find pat t = none ↔ ¬pat <:+: t := find_eq_none_iff
    rw [find, List.infix_cons_iff, ← List.isPrefixOf_iff_prefix]
    split <;> simp_all

/-- A line ends at `'\n'` or at `"\r\n"`; a final `'\n'` starts no further line. -/
def lines (text : List Char) : List (List Char) :=
  let pieces := text.splitOn '\n'
  pieces.dropLast.map (fun l => if l.getLast? = some '\r' then l.dropLast else l) ++
    match pieces.getLast? with
    | some [] | none => []
    | some last => [last]

def redactIcePassword (text : String) : String :=
  ⟨List.intercalate ['\n'] ((lines text.data).map fun line =>
    if (find "ice-pwd".data line).isSome then "a=ice-pwd:[ REDACTED ]".data else line)⟩

/-- Text with no line break and no `ice-pwd` passes `redact_ice_password` unchanged. -/
theorem redactIcePassword_of_single_line {text : String} (hn : '\n' ∉ text.data)
    (hi : ¬"ice-pwd".data <:+: text.data) : redactIcePassword text = text := by
  have hsplit : text.data.splitOn '\n' = [text.data] :=
    List.splitOnP_eq_single _ _ fun c hc => by rw [beq_iff_eq]; rintro rfl; exact hn hc
  have hfind : find "ice-pwd".data text.data = none := find_eq_none_iff.2 hi
  obtain ⟨data⟩ := text
  cases data with
  | nil => rfl
  | cons c t =>
    simp only at hsplit hfind
    simp [redactIcePassword, lines, hsplit, hfind, List.intercalate]

/-- No piece of `splitOnP p` holds a separator. -/
theorem not_mem_of_mem_splitOnP {p : Char → Bool} :
    ∀ {xs l : List Char}, l ∈ xs.splitOnP p → ∀ c ∈ l, p c = false
  | [], l, h => by simp_all
  | x :: xs, l, h => by
    rw [List.splitOnP_cons] at h
    split at h
    · rcases List.mem_cons.1 h with rfl | h
      · simp
      · exact not_mem_of_mem_splitOnP h
    · obtain ⟨hd, tl, he⟩ := List.exists_cons_of_ne_nil (List.splitOnP_ne_nil p xs)
      rw [he, List.modifyHead_cons] at h
      rcases List.mem_cons.1 h with rfl | h
      · intro c hc
        rcases List.mem_cons.1 hc with rfl | hc
        · simpa using ‹¬p c = true›
        · exact not_mem_of_mem_splitOnP (he ▸ List.mem_cons_self hd tl) c hc
      · exact not_mem_of_mem_splitOnP (he ▸ List.mem_cons_of_mem hd h)

/-- No line contains a line break. -/
theorem newline_not_mem_lines {text l : List Char} (h : l ∈ lines text) : '\n' ∉ l := by
  have hpieces : ∀ l ∈ text.splitOn '\n', '\n' ∉ l := fun l hl hn => by
    simpa using not_mem_of_mem_splitOnP hl '\n' hn
  simp only [lines, List.mem_append, List.mem_map] at h
  rcases h with ⟨l', hl', rfl⟩ | h
  · have := hpieces l' (List.dropLast_subset _ hl')
    split <;> [exact fun hn => this (List.dropLast_subset _ hn); exact this]
  · split at h
    · simp at h
    · simp at h
    · simp only [List.mem_singleton] at h
      subst h
      exact hpieces _ (List.mem_of_getLast?_eq_some ‹_›)

/-- Every line of what `redact_ice_password` returns is the fixed line or does not mention
`ice-pwd`. -/
theorem redactIcePassword_masks_lines (text : String) :
    ∀ l ∈ (redactIcePassword text).data.splitOn '\n',
      l = "a=ice-pwd:[ REDACTED ]".data ∨ ¬"ice-pwd".data <:+: l := by
  by_cases hnil : lines text.data = []
  · simp [redactIcePassword, hnil, List.intercalate]
  · rw [redactIcePassword, List.splitOn_intercalate]
    · simp only [List.mem_map]
      rintro _ ⟨l, -, rfl⟩
      split
      · exact .inl rfl
      · next h => exact .inr (find_eq_none_iff.1 (Option.not_isSome_iff_eq_none.1 h))
    · simp only [List.mem_map]
      rintro _ ⟨l, hl, rfl⟩
      split
      · decide
      · exact newline_not_mem_lines hl
    · simpa using hnil

theorem redactIcePassword_masks_lines_sample :
    "a=ice-pwd:[ REDACTED ]".data ∈ (redactIcePassword "a=ice-pwd:s3cr3t\r\nok").data.splitOn '\n' ∧
      ("a=ice-pwd:[ REDACTED ]".data = "a=ice-pwd:[ REDACTED ]".data ∨
        ¬"ice-pwd".data <:+: "a=ice-pwd:[ REDACTED ]".data) :=
  have h : "a=ice-pwd:[ REDACTED ]".data ∈
      (redactIcePassword "a=ice-pwd:s3cr3t\r\nok").data.splitOn '\n' := by decide
  ⟨h, redactIcePassword_masks_lines _ _ h⟩

/-- The alternatives of the IPv6 pattern, as `redact_ipv6` lists them. -/
def reExps : List String := [
  "[Ff][Ee]80:(:[0-9a-fA-F]\x7b0,4\x7d)\x7b0,4\x7d%[0-9a-zA-Z]\x7b1,\x7d",
  "(::)?([0-9a-fA-F]\x7b1,4\x7d:)\x7b1,4\x7d:((25[0-5]|(2[0-4]|1\x7b0,1\x7d[0-9])\x7b0,1\x7d[0-9])\\.)\x7b3,3\x7d(25[0-5]|(2[0-4]|1\x7b0,1\x7d[0-9])\x7b0,1\x7d[0-9])",
  "([0-9a-fA-F]\x7b1,4\x7d:)\x7b7,7\x7d[0-9a-fA-F]\x7b1,4\x7d",
  "([0-9a-fA-F]\x7b1,4\x7d:)\x7b1,1\x7d(:[0-9a-fA-F]\x7b1,4\x7d)\x7b1,6\x7d",
  "([0-9a-fA-F]\x7b1,4\x7d:)\x7b1,2\x7d(:[0-9a-fA-F]\x7b1,4\x7d)\x7b1,5\x7d",
  "([0-9a-fA-F]\x7b1,4\x7d:)\x7b1,3\x7d(:[0-9a-fA-F]\x7b1,4\x7d)\x7b1,4\x7d",
  "([0-9a-fA-F]\x7b1,4\x7d:)\x7b1,4\x7d(:[0-9a-fA-F]\x7b1,4\x7d)\x7b1,3\x7d",
  "([0-9a-fA-F]\x7b1,4\x7d:)\x7b1,5\x7d(:[0-9a-fA-F]\x7b1,4\x7d)\x7b1,2\x7d",
  "([0-9a-fA-F]\x7b1,4\x7d:)\x7b1,6\x7d:[0-9a-fA-F]\x7b1,4\x7d",
  "([0-9a-fA-F]\x7b1,4\x7d:)\x7b1,7\x7d:",
  "::([fF]\x7b4\x7d(:0\x7b1,4\x7d)\x7b0,1\x7d:)\x7b0,1\x7d((25[0-5]|(2[0-4]|1\x7b0,1\x7d[0-9])\x7b0,1\x7d[0-9])\\.)\x7b3,3\x7d(25[0-5]|(2[0-4]|1\x7b0,1\x7d[0-9])\x7b0,1\x7d[0-9])",
  ":((:[0-9a-fA-F]\x7b1,4\x7d)\x7b1,7\x7d|:)"]

def ipv6Pattern : String := "|".intercalate reExps

def ipv4Pattern : String :=
  "(((25[0-5])|(2[0-4][0-9])|([0-1][0-9]\x7b2,2\x7d)|([0-9]\x7b1,2\x7d))\\.)\x7b3,3\x7d((25[0-5])|(2[0-4][0-9])|([0-1][0-9]\x7b2,2\x7d)|([0-9]\x7b1,2\x7d))"

/-- `redact_ipv6` and `redact_ipv4`, which differ only in their pattern. -/
def redactWith (pattern text : String) : String :=
  match new pattern with
  | .ok v => ⟨replaceAll v text.data "[REDACTED]".data⟩
  | .error _ => "[REDACTED]"

def redactIpv6 (text : String) : String := redactWith ipv6Pattern text

def redactIpv4 (text : String) : String := redactWith ipv4Pattern text

/-- `redact_string` of a release build. -/
def redactString (text : String) : String :=
  let string := redactIcePassword text
  let string := redactIpv6 string
  redactIpv4 string

set_option maxRecDepth 100000 in
/-- An IPv6 address with a dotted quad in place of its last two groups, its first six groups
written in full, loses only its dotted quad: no alternative of the IPv6 pattern matches six
groups followed by a dotted quad, so the IPv6 pass leaves the text unchanged, and the IPv4
pass then redacts the dotted quad alone. -/
theorem redactString_full_embedded_ipv4 :
    redactString "1:2:3:4:5:6:1.2.3.4" = "1:2:3:4:5:6:[REDACTED]" := by
  have hice : redactIcePassword "1:2:3:4:5:6:1.2.3.4" = "1:2:3:4:5:6:1.2.3.4" :=
    redactIcePassword_of_single_line (by decide) (find_eq_none_iff.1 (by decide))
  rw [redactString, hice]
  decide

end RingRtc.Core.Util
