import RingRtc.Core.Exhaustive

/-! # Zero-compressed IPv6 addresses

An IPv6 address may write one run of zero groups as `::`, with `k` groups before it and `m`
after, `k + m ≤ 7`. The IPv6 pattern reads these forms with its alternatives four to ten,
`([0-9a-fA-F]{1,4}:){1,K}` followed by what may come after the `::`, and with its last,
`:((:[0-9a-fA-F]{1,4}){1,7}|:)`. At the start of such an address, the three alternatives
that need a `'%'` or a `'.'` after a run of hex digits and `':'` do not match, and neither
does the full form. An alternative with room for fewer than `k` groups is left at a hex
digit, where its tail, which starts with `':'`, fails. The first alternative with room for
`k` groups reads the whole address. So `redact_ipv6` replaces every zero-compressed address
exactly. And since the last alternative matches `::` wherever it stands, no `::` survives
`redact_string`.
-/
namespace RingRtc.Core.Util

open RingRtc.Regex Hir

/-- An IPv6 address written with `::`: the groups before it and the groups after it. -/
structure Ipv6Compressed where
  before : List HexGroup
  after : List HexGroup
  length_le : before.length + after.length ≤ 7

def Ipv6Compressed.render (q : Ipv6Compressed) : String :=
  ⟨[':'].intercalate (q.before.map HexGroup.digits) ++ "::".data ++
    [':'].intercalate (q.after.map HexGroup.digits)⟩

/-- The alternatives of an alternation nested to the right, as `Regex::new` builds it. -/
def alternatives : Hir → List Hir
  | alt r t => r :: alternatives t
  | r => [r]

theorem alternatives_ipv6Hir : alternatives ipv6Hir = patternAlternatives := rfl

theorem matchLengths_eq_flatten (s : List Char) :
    ∀ h, matchLengths h s = ((alternatives h).map fun a => matchLengths a s).flatten
  | .alt r t => by
    rw [matchLengths_alt, matchLengths_eq_flatten s t, alternatives, List.map_cons,
      List.flatten_cons]
  | .empty | .cls _ | .cat _ _ | .rep _ _ _ => by simp [alternatives]

/-- The characters of an address: hex digits and `':'`. -/
def addressClass : List (Char × Char) := hexClass ++ [(':', ':')]

/-- What the zone-index and IPv4-tail alternatives need after a run of address characters. -/
def zoneOrQuad : List (Char × Char) := [('%', '%'), ('.', '.')]

/-- What the proofs below need of the parsed IPv6 pattern: its alternatives, in order, are
three that each need a run of address characters and then a `'%'` or a `'.'` (the first,
second and eleventh), the full form, `compressedHir K` for `K` from 1 to 7, and
`leadingHir`. -/
def compressedShape (h : Hir) : Bool :=
  match alternatives h with
  | [a₁, a₂, a₃, c₁, c₂, c₃, c₄, c₅, c₆, c₇, a₁₁, a₁₂] =>
    [a₁, a₂, a₁₁].all (·.leadsTo addressClass zoneOrQuad) && a₃ == ipv6FullHir &&
      [c₁, c₂, c₃, c₄, c₅, c₆, c₇] == (List.range' 1 7).map compressedHir &&
      a₁₂ == leadingHir
  | _ => false

theorem compressedShape_eq {h : Hir} (hc : compressedShape h) :
    ∃ a₁ a₂ a₁₁, alternatives h =
        [a₁, a₂, ipv6FullHir] ++ (List.range' 1 7).map compressedHir ++
          [a₁₁, leadingHir] ∧
      ∀ a ∈ [a₁, a₂, a₁₁], a.leadsTo addressClass zoneOrQuad := by
  unfold compressedShape at hc
  split at hc
  · rename_i a₁ a₂ a₃ c₁ c₂ c₃ c₄ c₅ c₆ c₇ a₁₁ a₁₂ hh
    simp only [Bool.and_eq_true, beq_iff_eq, List.all_eq_true] at hc
    obtain ⟨⟨⟨hl, rfl⟩, hcs⟩, rfl⟩ := hc
    exact ⟨a₁, a₂, a₁₁, by rw [hh, ← hcs]; rfl, hl⟩
  · cases hc

/-- The IPv6 pattern has the shape `compressedShape` asks for. -/
theorem ipv6Hir_compressed : compressedShape ipv6Hir := by
  decide

/-! ## Groups with their colons -/

/-- Groups each followed by a `':'`. -/
def groupsColon (gs : List HexGroup) : List Char := (gs.map fun g => g.digits ++ [':']).flatten

/-- Groups each after a `':'`. -/
def colonGroups (gs : List HexGroup) : List Char := (gs.map fun g => ':' :: g.digits).flatten

@[simp] theorem groupsColon_nil : groupsColon [] = [] := rfl

@[simp] theorem groupsColon_cons (g : HexGroup) (gs : List HexGroup) :
    groupsColon (g :: gs) = g.digits ++ [':'] ++ groupsColon gs := rfl

@[simp] theorem colonGroups_nil : colonGroups [] = [] := rfl

@[simp] theorem colonGroups_cons (g : HexGroup) (gs : List HexGroup) :
    colonGroups (g :: gs) = ':' :: (g.digits ++ colonGroups gs) := rfl

/-- The lengths a greedy `([0-9a-fA-F]{1,4}:){0,n}` reaches over groups with their colons,
longest first. -/
def groupPrefixes : List HexGroup → Nat → List Nat
  | g :: gs, n + 1 => (groupPrefixes gs n).map (g.digits.length + 1 + ·) ++ [0]
  | _, _ => [0]

@[simp] theorem groupPrefixes_nil (n : Nat) : groupPrefixes [] n = [0] := by
  cases n <;> rfl

@[simp] theorem groupPrefixes_zero (gs : List HexGroup) : groupPrefixes gs 0 = [0] := by
  cases gs <;> rfl

@[simp] theorem groupPrefixes_succ (g : HexGroup) (gs : List HexGroup) (n : Nat) :
    groupPrefixes (g :: gs) (n + 1) = (groupPrefixes gs n).map (g.digits.length + 1 + ·) ++ [0] :=
  rfl

theorem andThen_append {ns ms : List Nat} {g : List Char → List Nat} {s : List Char} :
    andThen (ns ++ ms) g s = andThen ns g s ++ andThen ms g s :=
  List.flatMap_append _ _ _

theorem andThen_map_add {g : List Char → List Nat} {s : List Char} (c : Nat) :
    ∀ ns : List Nat, andThen (ns.map (c + ·)) g s = (andThen ns g (s.drop c)).map (c + ·)
  | [] => rfl
  | n :: ns => by
    simp only [List.map_cons, andThen_cons, andThen_map_add c ns, List.map_append, List.map_map,
      List.drop_drop]
    congr 2
    funext k
    simp only [Function.comp, Nat.add_assoc]

/-- A pattern whose every match starts with a hex digit does not match at a `':'`. -/
theorem matchLengths_colon_of_startsIn {r : Hir} (hr : r.startsIn hexClass) (t : List Char) :
    matchLengths r (':' :: t) = [] :=
  matchLengths_eq_nil_of_head hr fun c hc => by
    rw [List.head?_cons, Option.mem_def, Option.some.injEq] at hc
    exact hc ▸ colon_not_hex

/-- A pattern whose every match starts with a `':'` does not match at a hex digit. -/
theorem matchLengths_hex_of_startsIn {r : Hir} (hr : r.startsIn [(':', ':')]) {t : List Char}
    (ht : ∀ c ∈ t.head?, inClass hexClass c) : matchLengths r t = [] :=
  matchLengths_eq_nil_of_head hr fun c hc => by
    cases hcol : inClass [(':', ':')] c
    · rfl
    · rw [inClass_single.1 hcol] at hc
      exact absurd (ht ':' hc) (by decide)

theorem groupsColon_head_hex {g : HexGroup} {gs : List HexGroup} (t : List Char) :
    ∀ c ∈ (groupsColon (g :: gs) ++ t).head?, inClass hexClass c := by
  rw [groupsColon_cons, List.append_assoc, List.append_assoc]
  exact g.head_hex _

theorem matchLengths_groupColon (g : HexGroup) (t : List Char) :
    matchLengths groupColonHir (g.digits ++ [':'] ++ t) = [g.digits.length + 1] := by
  rw [groupColonHir, matchLengths_hexGroup_colon, List.length_append, List.length_singleton]

theorem drop_groupsColon_cons (g : HexGroup) (gs : List HexGroup) (x : List Char) :
    (groupsColon (g :: gs) ++ x).drop (g.digits.length + 1) = groupsColon gs ++ x := by
  rw [groupsColon_cons, List.append_assoc]
  exact List.drop_left' (by simp)

theorem matchLengths_groupColon_cons (g : HexGroup) (gs : List HexGroup) (x : List Char) :
    matchLengths groupColonHir (groupsColon (g :: gs) ++ x) = [g.digits.length + 1] := by
  rw [groupsColon_cons, List.append_assoc]
  exact matchLengths_groupColon g _

/-- Over groups with their colons and then a `':'`, up to `n` greedy iterations of
`[0-9a-fA-F]{1,4}:` reach the lengths `groupPrefixes` lists. -/
theorem optLengths_groupColon (t : List Char) :
    ∀ gs n, optLengths (matchLengths groupColonHir) n (groupsColon gs ++ ':' :: t) =
      groupPrefixes gs n
  | _, 0 => by rw [groupPrefixes_zero]; rfl
  | [], n + 1 => by
    rw [groupsColon_nil, List.nil_append, optLengths,
      matchLengths_colon_of_startsIn (by decide), andThen_nil, groupPrefixes_nil]; rfl
  | g :: gs, n + 1 => by
    rw [optLengths, matchLengths_groupColon_cons, andThen_cons, andThen_nil, List.append_nil,
      drop_groupsColon_cons, optLengths_groupColon t gs n, groupPrefixes_succ]

section Tail

variable {tail : Hir} (htail : tail.startsIn [(':', ':')]) (t : List Char)
include htail

/-- After the greedy iterations over groups with their colons, a tail that starts with a
`':'` only goes on from the end of the last group. -/
theorem andThen_groupPrefixes : ∀ gs n,
    andThen (groupPrefixes gs n) (matchLengths tail) (groupsColon gs ++ ':' :: t) =
      if gs.length ≤ n then (matchLengths tail (':' :: t)).map ((groupsColon gs).length + ·)
      else []
  | [], n => by simp [andThen]
  | g :: gs, 0 => by
    simp only [groupPrefixes_zero, andThen_cons, andThen_nil, List.drop_zero,
      matchLengths_hex_of_startsIn htail (groupsColon_head_hex _), List.map_nil, List.nil_append]
    simp
  | g :: gs, n + 1 => by
    have hhex := matchLengths_hex_of_startsIn htail (@groupsColon_head_hex g gs (':' :: t))
    rw [groupPrefixes_succ, andThen_append, andThen_map_add, drop_groupsColon_cons,
      andThen_groupPrefixes gs n, andThen_cons, andThen_nil, List.drop_zero, hhex, List.map_nil,
      List.append_nil, List.append_nil, List.length_cons]
    split_ifs with h₁ h₂ h₂
    · rw [List.map_map]
      exact List.map_congr_left fun a _ => by simp; omega
    · omega
    · omega
    · rfl

/-- Alternative `K + 3` of the IPv6 pattern, over groups with their colons and then a `':'`,
goes on to its tail exactly when there are between one and `K` groups. -/
theorem matchLengths_groupColon_tail (n : Nat) (gs : List HexGroup) :
    matchLengths (cat (rep groupColonHir 1 (some (n + 1))) tail) (groupsColon gs ++ ':' :: t) =
      if 0 < gs.length ∧ gs.length ≤ n + 1 then
        (matchLengths tail (':' :: t)).map ((groupsColon gs).length + ·)
      else [] := by
  rcases gs with _ | ⟨g, gs⟩
  · simp [repLengths,
      matchLengths_colon_of_startsIn (show groupColonHir.startsIn hexClass by decide)]
  · rw [matchLengths_cat, matchLengths_rep, repLengths, Option.map_some', Nat.add_sub_cancel,
      matchLengths_groupColon_cons, andThen_cons, andThen_nil, List.append_nil, repLengths,
      drop_groupsColon_cons, optLengths_groupColon, andThen_map_add, drop_groupsColon_cons,
      andThen_groupPrefixes htail]
    split_ifs with h₁ h₂ h₂
    · rw [List.map_map]
      exact List.map_congr_left fun a _ => by simp; omega
    · simp at h₂; omega
    · simp at h₂; omega
    · rfl

end Tail

/-- Fewer groups than `lo`: `([0-9a-fA-F]{1,4}:){lo,hi}` runs out at the `':'`. -/
theorem matchLengths_groupColon_short (t : List Char) :
    ∀ (gs : List HexGroup) (lo : Nat) (hi : Option Nat), gs.length < lo →
      matchLengths (rep groupColonHir lo hi) (groupsColon gs ++ ':' :: t) = []
  | [], lo + 1, hi, _ => by
    rw [matchLengths_rep, repLengths, groupsColon_nil, List.nil_append,
      matchLengths_colon_of_startsIn (by decide), andThen_nil]
  | g :: gs, lo + 1, hi, h => by
    rw [matchLengths_rep, repLengths, matchLengths_groupColon_cons, andThen_cons, andThen_nil,
      List.append_nil, drop_groupsColon_cons, ← matchLengths_rep,
      matchLengths_groupColon_short t gs lo _ (by simp at h; omega), List.map_nil]

/-- The full form needs eight groups: over at most seven with their colons and then a `':'`
it does not match. -/
theorem matchLengths_ipv6Full_groupsColon {gs : List HexGroup} (hgs : gs.length ≤ 7)
    (t : List Char) : matchLengths ipv6FullHir (groupsColon gs ++ ':' :: t) = [] := by
  show matchLengths (cat (rep groupColonHir 7 (some 7)) hexGroupHir) _ = []
  rw [matchLengths_cat]
  rcases Nat.lt_or_eq_of_le hgs with h | h
  · rw [matchLengths_groupColon_short t gs 7 _ h, andThen_nil]
  · have h7 := @matchLengths_rep_exact groupColonHir (':' :: t) (gs.map fun g => g.digits ++ [':'])
      (by
        simp only [List.mem_map]
        rintro _ ⟨g, -, rfl⟩ t
        exact matchLengths_hexGroup_colon g t)
    rw [List.length_map, h] at h7
    rw [groupsColon, h7, andThen_cons, andThen_nil, List.drop_left,
      matchLengths_colon_of_startsIn (by decide)]
    rfl

/-! ## After the `::` -/

theorem compressedTail_of_le_five {k : Nat} (hk : k ≤ 5) :
    compressedTail k = rep colonGroupHir 1 (some (7 - k)) := by
  unfold compressedTail
  split <;> first | omega | rfl

theorem compressedTail_startsIn :
    ∀ k ∈ List.range' 1 7, (compressedTail k).startsIn [(':', ':')] := by
  decide

theorem andThen_head {n : Nat} {ns : List Nat} {g : List Char → List Nat} {x : List Char}
    {m : Nat} (h : (g (x.drop n)).head? = some m) :
    (andThen (n :: ns) g x).head? = some (n + m) := by
  rw [andThen_cons, List.head?_append, List.head?_map, h]
  rfl

section After

variable {s : List Char} (hs : ∀ c ∈ s.head?, inClass hexClass c = false)
include hs

theorem colonGroups_head_not_hex (hs' : List HexGroup) :
    ∀ c ∈ (colonGroups hs' ++ s).head?, inClass hexClass c = false := by
  rcases hs' with _ | ⟨g, gs⟩
  · exact hs
  · intro c hc
    rw [colonGroups_cons, List.cons_append, List.head?_cons, Option.mem_def,
      Option.some.injEq] at hc
    exact hc ▸ colon_not_hex

theorem matchLengths_colonGroup_colon : matchLengths colonGroupHir (':' :: s) = [] := by
  rw [colonGroupHir, matchLengths_cat, lit, matchLengths_cls_cons, if_pos (by decide),
    andThen_cons, andThen_nil, List.drop_one, List.tail_cons,
    matchLengths_eq_nil_of_head (show hexGroupHir.startsIn hexClass by decide) hs]
  rfl

/-- With nothing after the `::`, the tails of alternatives four to nine do not match. -/
theorem matchLengths_compressedTail_colon {k : Nat} (hk : k ≤ 6) :
    matchLengths (compressedTail k) (':' :: s) = [] := by
  rcases Nat.lt_or_eq_of_le hk with hk | rfl
  · rw [compressedTail_of_le_five (by omega), matchLengths_rep, repLengths,
      matchLengths_colonGroup_colon hs, andThen_nil]
  · exact matchLengths_colonGroup_colon hs

theorem matchLengths_colonGroup_cons (g : HexGroup) :
    ∃ rest,
      matchLengths colonGroupHir (':' :: (g.digits ++ s)) = (g.digits.length + 1) :: rest := by
  rw [colonGroupHir, matchLengths_cat, lit, matchLengths_cls_cons, if_pos (by decide),
    andThen_cons, andThen_nil, List.drop_one, List.tail_cons, matchLengths_hexGroup g hs,
    range'_reverse_of_pos g.length_pos, List.map_cons, List.append_nil, Nat.add_comm]
  exact ⟨_, rfl⟩

/-- Up to `n` greedy iterations of `:[0-9a-fA-F]{1,4}` over at most `n` groups each after
a `':'`, then text that starts with neither a `':'` nor a hex digit, first reach the end of
the groups. -/
theorem optLengths_colonGroups_head (hc : ':' ∉ s.head?) :
    ∀ (gs : List HexGroup) (n : Nat), gs.length ≤ n →
      (optLengths (matchLengths colonGroupHir) n (colonGroups gs ++ s)).head? =
        some (colonGroups gs).length
  | [], 0, _ => rfl
  | [], n + 1, _ => by
    rw [colonGroups_nil, List.nil_append, optLengths,
      matchLengths_eq_nil_of_head (show colonGroupHir.startsIn [(':', ':')] by decide) ?_]
    · rfl
    · intro c hc'
      cases h : inClass [(':', ':')] c
      · rfl
      · exact absurd (inClass_single.1 h ▸ hc') hc
  | g :: gs, n + 1, hle => by
    obtain ⟨rest, hg⟩ := matchLengths_colonGroup_cons (colonGroups_head_not_hex hs gs) g
    have hhead : (optLengths (matchLengths colonGroupHir) n
        ((':' :: (g.digits ++ (colonGroups gs ++ s))).drop (g.digits.length + 1))).head? =
          some (colonGroups gs).length := by
      rw [List.drop_succ_cons, List.drop_left]
      exact optLengths_colonGroups_head hc gs n (by simp at hle; omega)
    rw [optLengths, colonGroups_cons, List.cons_append, List.append_assoc, hg, List.head?_append,
      andThen_head hhead]
    exact congrArg some
      (by simp only [colonGroups_cons, List.length_cons, List.length_append]; omega)

/-- `(:[0-9a-fA-F]{1,4}){1,n+1}` over one to `n + 1` groups each after a `':'` first reads
them all. -/
theorem matchLengths_colonGroups_head (hc : ':' ∉ s.head?) {gs : List HexGroup} {n : Nat}
    (hpos : 0 < gs.length) (hle : gs.length ≤ n + 1) :
    (matchLengths (rep colonGroupHir 1 (some (n + 1))) (colonGroups gs ++ s)).head? =
      some (colonGroups gs).length := by
  obtain ⟨g, gs, rfl⟩ := List.exists_cons_of_length_pos hpos
  obtain ⟨rest, hg⟩ := matchLengths_colonGroup_cons (colonGroups_head_not_hex hs gs) g
  have hhead : (repLengths (matchLengths colonGroupHir) 0 (some n)
      ((':' :: (g.digits ++ (colonGroups gs ++ s))).drop (g.digits.length + 1))).head? =
        some (colonGroups gs).length := by
    rw [List.drop_succ_cons, List.drop_left]
    exact optLengths_colonGroups_head hs hc gs n (by simp at hle; omega)
  rw [matchLengths_rep, repLengths, Option.map_some', Nat.add_sub_cancel, colonGroups_cons,
    List.cons_append, List.append_assoc, hg, andThen_head hhead]
  simp only [colonGroups_cons, List.length_cons, List.length_append, Option.some.injEq]
  omega

end After

/-! ## The address as text -/

theorem intercalate_append_colon : ∀ {gs : List HexGroup}, gs ≠ [] →
    [':'].intercalate (gs.map HexGroup.digits) ++ [':'] = groupsColon gs
  | [g], _ => by simp [List.intercalate]
  | g :: g' :: gs, _ => by
    rw [List.map_cons, List.map_cons, intercalate_cons_cons, ← List.map_cons, List.append_assoc,
      List.cons_append, intercalate_append_colon (List.cons_ne_nil g' gs), groupsColon_cons]
    simp

theorem colon_intercalate : ∀ {gs : List HexGroup}, gs ≠ [] →
    ':' :: [':'].intercalate (gs.map HexGroup.digits) = colonGroups gs
  | [g], _ => by simp [List.intercalate]
  | g :: g' :: gs, _ => by
    rw [List.map_cons, List.map_cons, intercalate_cons_cons, ← List.map_cons,
      colon_intercalate (List.cons_ne_nil g' gs)]
    rfl

theorem Ipv6Compressed.doubleColon_infix (q : Ipv6Compressed) : "::".data <:+: q.render.data :=
  ⟨_, _, rfl⟩

/-- The text of a zero-compressed address: its groups before the `::` with their colons, a
second `':'` if there are none, and its groups after the `::` each after a `':'`, or a
last `':'` if there are none. -/
theorem Ipv6Compressed.render_data (q : Ipv6Compressed) :
    q.render.data = groupsColon q.before ++ (if q.before.isEmpty then [':'] else []) ++
      (if q.after.isEmpty then [':'] else colonGroups q.after) := by
  have hnil : [':'].intercalate ([] : List (List Char)) = [] := rfl
  rcases q with ⟨_ | ⟨g, gs⟩, _ | ⟨h, hs⟩, -⟩ <;>
    simp [render, hnil, ← intercalate_append_colon, ← colon_intercalate]

theorem mem_groupsColon {gs : List HexGroup} {c : Char} (h : c ∈ groupsColon gs) :
    inClass hexClass c ∨ c = ':' := by
  simp only [groupsColon, List.mem_flatten, List.mem_map] at h
  obtain ⟨_, ⟨g, -, rfl⟩, hc⟩ := h
  rcases List.mem_append.1 hc with hc | hc
  · exact .inl (g.all_hex c hc)
  · exact .inr (List.mem_singleton.1 hc)

theorem mem_colonGroups {gs : List HexGroup} {c : Char} (h : c ∈ colonGroups gs) :
    inClass hexClass c ∨ c = ':' := by
  simp only [colonGroups, List.mem_flatten, List.mem_map] at h
  obtain ⟨_, ⟨g, -, rfl⟩, hc⟩ := h
  rcases List.mem_cons.1 hc with hc | hc
  · exact .inr hc
  · exact .inl (g.all_hex c hc)

theorem Ipv6Compressed.mem_render {q : Ipv6Compressed} {c : Char} (h : c ∈ q.render.data) :
    inClass hexClass c ∨ c = ':' := by
  rw [q.render_data] at h
  rcases List.mem_append.1 h with h | h
  · rcases List.mem_append.1 h with h | h
    · exact mem_groupsColon h
    · split at h <;> simp_all
  · split at h
    · exact .inr (List.mem_singleton.1 h)
    · exact mem_colonGroups h

/-- No character of a zero-compressed address is a `'%'` or a `'.'`. -/
theorem Ipv6Compressed.not_zoneOrQuad {q : Ipv6Compressed} {c : Char} (h : c ∈ q.render.data) :
    inClass zoneOrQuad c = false := by
  rcases q.mem_render h with hc | rfl
  · exact not_inClass_of_rangesOutside (by decide) hc
  · decide

theorem Ipv6Compressed.render_ne_nil (q : Ipv6Compressed) : q.render.data ≠ [] := fun he => by
  simpa [he] using q.doubleColon_infix

/-- Text none of whose characters is in `C`, then text that starts with a character in
neither `K` nor `C`: no run of characters of `K` reaches a character of `C`. -/
theorem no_run_to {K C : List (Char × Char)} {w s : List Char}
    (hw : ∀ c ∈ w, inClass C c = false) (hs : ∀ c ∈ s.head?, inClass (K ++ C) c = false) :
    ∀ u c v, w ++ s = u ++ c :: v → (∀ d ∈ u, inClass K d) → inClass C c → False := by
  intro u c v h hu hc
  rcases List.append_eq_append_iff.1 h with ⟨a, rfl, ha⟩ | ⟨a, rfl, ha⟩
  · rcases a with _ | ⟨a₀, a⟩
    · have := hs c (by simp [ha])
      simp [inClass_append, hc] at this
    · have := hs a₀ (by simp [ha])
      simp [inClass_append, hu a₀ (by simp)] at this
  · rcases a with _ | ⟨a₀, a⟩
    · rw [List.nil_append] at ha
      have := hs c (by simp [← ha])
      simp [inClass_append, hc] at this
    · obtain ⟨rfl, -⟩ := List.cons_eq_cons.1 ha
      simp [hw c (by simp)] at hc

/-! ## The first match at an address -/

theorem compressedHir_startsIn :
    ∀ k ∈ List.range' 1 7, (compressedHir k).startsIn hexClass := by
  decide

theorem matchLengths_compressedHir {k : Nat} (hk : k ∈ List.range' 1 7) (gs : List HexGroup)
    (t : List Char) :
    matchLengths (compressedHir k) (groupsColon gs ++ ':' :: t) =
      if 0 < gs.length ∧ gs.length ≤ k then
        (matchLengths (compressedTail k) (':' :: t)).map ((groupsColon gs).length + ·)
      else [] := by
  obtain ⟨n, rfl⟩ : ∃ n, k = n + 1 := ⟨k - 1, by simp [List.mem_range'_1] at hk; omega⟩
  exact matchLengths_groupColon_tail (compressedTail_startsIn _ hk) t n gs

/-- At a `':'`, alternatives four to ten do not match. -/
theorem compressedAlts_colon (x : List Char) :
    ((List.range' 1 7).map fun k => matchLengths (compressedHir k) (':' :: x)).flatten = [] :=
  List.flatten_eq_nil_iff.2 fun _ hl => by
    obtain ⟨k, hk, rfl⟩ := List.mem_map.1 hl
    exact matchLengths_colon_of_startsIn (compressedHir_startsIn k hk) x

section Alternatives

variable {s : List Char} (hs : ∀ c ∈ s.head?, inClass hexClass c = false)
include hs

/-- With no group after the `::`, the first of alternatives four to ten to match is the
tenth, `([0-9a-fA-F]{1,4}:){1,7}:`, and it reads the whole address. -/
theorem compressedAlts_trailing {gs : List HexGroup} (hpos : 0 < gs.length)
    (hle : gs.length ≤ 7) :
    ((List.range' 1 7).map fun k =>
        matchLengths (compressedHir k) (groupsColon gs ++ ':' :: s)).flatten =
      [(groupsColon gs).length + 1] := by
  have hsix : ∀ k ∈ List.range' 1 6,
      matchLengths (compressedHir k) (groupsColon gs ++ ':' :: s) = [] := fun k hk => by
    have hk6 : k ≤ 6 := by simp [List.mem_range'_1] at hk; omega
    rw [matchLengths_compressedHir (by simp [List.mem_range'_1] at hk ⊢; omega),
      matchLengths_compressedTail_colon hs hk6, List.map_nil, ite_self]
  rw [show List.range' 1 7 = List.range' 1 6 ++ [7] from rfl, List.map_append, List.flatten_append,
    List.flatten_eq_nil_iff.2 fun _ hl => by
      obtain ⟨k, hk, rfl⟩ := List.mem_map.1 hl
      exact hsix k hk,
    List.nil_append, List.map_singleton, List.flatten_singleton,
    matchLengths_compressedHir (by decide), if_pos ⟨hpos, hle⟩]
  rfl

/-- With `m ≥ 1` groups after the `::` and `b ≥ 1` before it, the first of alternatives four
to ten to match is the one with room for `b` groups, and it reads the whole address. -/
theorem compressedAlts_head (hc : ':' ∉ s.head?) {gs hs' : List HexGroup} (hpos : 0 < gs.length)
    (hpos' : 0 < hs'.length) (hle : gs.length + hs'.length ≤ 7) :
    (((List.range' 1 7).map fun k =>
        matchLengths (compressedHir k) (groupsColon gs ++ (colonGroups hs' ++ s))).flatten).head? =
      some (groupsColon gs ++ colonGroups hs').length := by
  obtain ⟨b, hb⟩ : ∃ b, gs.length = b + 1 := ⟨gs.length - 1, by omega⟩
  obtain ⟨h, hs'', rfl⟩ := List.exists_cons_of_length_pos hpos'
  have hb5 : b ≤ 5 := by simp at hle; omega
  have hsplit : List.range' 1 7 = List.range' 1 b ++ (b + 1) :: List.range' (b + 2) (6 - b) := by
    match b, hb5 with
    | 0, _ | 1, _ | 2, _ | 3, _ | 4, _ | 5, _ => decide
  have htext : colonGroups (h :: hs'') ++ s = ':' :: (h.digits ++ colonGroups hs'' ++ s) := by
    simp
  have hmem : b + 1 ∈ List.range' 1 7 := by simp [List.mem_range'_1]; omega
  have hm : hs''.length + 1 ≤ 6 - b := by simp only [List.length_cons] at hle; omega
  have htail : (matchLengths (compressedTail (b + 1)) (colonGroups (h :: hs'') ++ s)).head? =
      some (colonGroups (h :: hs'')).length := by
    rcases Nat.lt_or_eq_of_le hb5 with hb4 | rfl
    · obtain ⟨n, hn⟩ : ∃ n, 7 - (b + 1) = n + 1 := ⟨5 - b, by omega⟩
      rw [compressedTail_of_le_five (by omega), hn]
      exact matchLengths_colonGroups_head hs hc (by simp) (by simp only [List.length_cons]; omega)
    · obtain rfl : hs'' = [] := List.eq_nil_of_length_eq_zero (by omega)
      obtain ⟨rest, hg⟩ := matchLengths_colonGroup_cons hs h
      rw [show compressedTail (5 + 1) = colonGroupHir from rfl, colonGroups_cons, colonGroups_nil,
        List.append_nil, List.cons_append, hg]
      simp
  rw [hsplit, List.map_append, List.flatten_append,
    List.flatten_eq_nil_iff.2 fun _ hl => by
      obtain ⟨k, hk, rfl⟩ := List.mem_map.1 hl
      have hk' : k < b + 1 := by simp [List.mem_range'_1] at hk; omega
      rw [htext, matchLengths_compressedHir (by simp [List.mem_range'_1] at hk ⊢; omega),
        if_neg (by omega)],
    List.nil_append, List.map_cons, List.flatten_cons, htext, matchLengths_compressedHir hmem,
    if_pos ⟨hpos, by omega⟩, ← htext, List.head?_append, List.head?_map, htail]
  simp

/-- With no group before the `::`, the last alternative reads the whole address. -/
theorem matchLengths_leadingHir (hc : ':' ∉ s.head?) (gs : List HexGroup)
    (hle : gs.length ≤ 7) :
    (matchLengths leadingHir (':' :: ((if gs.isEmpty then [':'] else colonGroups gs) ++ s))).head? =
      some ((if gs.isEmpty then [':'] else colonGroups gs).length + 1) := by
  rw [leadingHir, matchLengths_cat, lit, matchLengths_cls_cons, if_pos (by decide),
    andThen_cons, andThen_nil, List.append_nil, List.drop_one, List.tail_cons, matchLengths_alt]
  rcases gs with _ | ⟨g, gs⟩
  · rw [List.isEmpty_nil, if_pos rfl, List.singleton_append, matchLengths_rep, repLengths,
      matchLengths_colonGroup_colon hs, andThen_nil, List.nil_append, matchLengths_cls_cons,
      if_pos (by decide)]
    rfl
  · rw [List.isEmpty_cons, if_neg Bool.false_ne_true, List.map_append, List.head?_append,
      List.head?_map, matchLengths_colonGroups_head hs hc (by simp) hle]
    simp [Nat.add_comm]

end Alternatives

/-! ## Redacting the address -/

/-- At the start of a zero-compressed address, followed by text that does not start with a
hex digit, a `':'`, a `'%'` or a `'.'`, the first match of the IPv6 pattern is the whole
address. -/
theorem matchLengths_compressed_head (q : Ipv6Compressed) {h : Hir} (hc : compressedShape h)
    {s : List Char} (hs : ∀ c ∈ s.head?, inClass (addressClass ++ zoneOrQuad) c = false) :
    (matchLengths h (q.render.data ++ s)).head? = some q.render.data.length := by
  obtain ⟨a₁, a₂, a₁₁, hh, hlead⟩ := compressedShape_eq hc
  have hhex : ∀ c ∈ s.head?, inClass hexClass c = false := fun c hc' => by
    have := hs c hc'
    simp only [addressClass, inClass_append, Bool.or_eq_false_iff] at this
    exact this.1.1
  have hcol : ':' ∉ s.head? := fun hc' => absurd (hs ':' hc') (by decide)
  have hz : ∀ a ∈ [a₁, a₂, a₁₁], matchLengths a (q.render.data ++ s) = [] := fun a ha =>
    matchLengths_eq_nil_of_leadsTo (hlead a ha) (no_run_to (fun _ hc' => q.not_zoneOrQuad hc') hs)
  rw [matchLengths_eq_flatten, hh]
  simp only [List.map_append, List.map_cons, List.map_nil, List.flatten_append,
    List.flatten_cons, List.flatten_nil, hz a₁ (by simp), hz a₂ (by simp), hz a₁₁ (by simp),
    List.nil_append, List.append_nil, List.map_map, Function.comp_def]
  rw [q.render_data]
  rcases q with ⟨_ | ⟨g, gs⟩, after, hle⟩
  · simp only [groupsColon_nil, List.isEmpty_nil, if_pos, List.nil_append, List.singleton_append,
      List.cons_append]
    rw [matchLengths_colon_of_startsIn (show ipv6FullHir.startsIn hexClass by decide),
      compressedAlts_colon, List.nil_append, List.nil_append,
      matchLengths_leadingHir hhex hcol after (by simpa using hle), List.length_cons]
  · have hpos : 0 < (g :: gs).length := Nat.succ_pos _
    have hlead' : ∀ x, matchLengths leadingHir (groupsColon (g :: gs) ++ x) = [] := fun _ =>
      matchLengths_hex_of_startsIn (by decide) (groupsColon_head_hex _)
    rcases after with _ | ⟨k, ks⟩
    · simp only [List.isEmpty_cons, List.isEmpty_nil, Bool.false_eq_true, if_false, if_true,
        List.append_nil, List.append_assoc, List.singleton_append] at hle ⊢
      rw [matchLengths_ipv6Full_groupsColon (by simpa using hle), hlead',
        compressedAlts_trailing hhex hpos (by simpa using hle)]
      simp [Nat.add_assoc]
    · have htext : colonGroups (k :: ks) ++ s = ':' :: (k.digits ++ colonGroups ks ++ s) := by simp
      have hfull :
          matchLengths ipv6FullHir
            (groupsColon (g :: gs) ++ (colonGroups (k :: ks) ++ s)) = [] := by
        rw [htext]
        exact matchLengths_ipv6Full_groupsColon (by simp at hle ⊢; omega) _
      simp only [List.isEmpty_cons, Bool.false_eq_true, if_false, List.append_nil,
        List.append_assoc] at hle ⊢
      rw [hfull, hlead', List.nil_append, List.append_nil,
        compressedAlts_head hhex hcol hpos (by simp) hle]

/-- `redact_ipv6` replaces a zero-compressed IPv6 address exactly, whatever text with no
`':'` surrounds it, as long as no hex digit stands right before it and the text after it
starts with none of a hex digit, a `'%'` and a `'.'`. -/
theorem redactIpv6_compressed (q : Ipv6Compressed) {p s : String} (hp : ':' ∉ p.data)
    (hs : ':' ∉ s.data) (hpl : ∀ c ∈ p.data.getLast?, inClass hexClass c = false)
    (hsh : ∀ c ∈ s.data.head?, inClass (hexClass ++ zoneOrQuad) c = false) :
    redactIpv6 (p ++ q.render ++ s) = p ++ "[REDACTED]" ++ s := by
  refine redactIpv6_of_head q.render_ne_nil hp hs hpl
    (matchLengths_compressed_head q ipv6Hir_compressed fun c hc' => ?_)
  have hcol : inClass [(':', ':')] c = false :=
    Bool.eq_false_iff.2 fun h => hs (inClass_single.1 h ▸ List.mem_of_mem_head? hc')
  have := hsh c hc'
  simp only [addressClass, inClass_append, Bool.or_eq_false_iff] at this ⊢
  exact ⟨⟨this.1, hcol⟩, this.2⟩

theorem inClass_zoneOrQuad {c : Char} (h : c ≠ '%' ∧ c ≠ '.') :
    inClass zoneOrQuad c = false := by
  rw [show zoneOrQuad = [('%', '%')] ++ [('.', '.')] from rfl, inClass_append,
    Bool.or_eq_false_iff]
  exact ⟨Bool.eq_false_iff.2 fun h' => h.1 (inClass_single.1 h'),
    Bool.eq_false_iff.2 fun h' => h.2 (inClass_single.1 h')⟩

/-- `redact_ipv6`, and with it the release-build `redact_string` on a line that does not
mention `ice-pwd`, replace a zero-compressed IPv6 address exactly, whatever text with no
digit, `':'` or line break surrounds it, as long as no hex digit stands right next to it and
the text after it does not start with a `'%'` or a `'.'`. -/
theorem redact_ipv6_compressed_exact (q : Ipv6Compressed) (p s : String)
    (h : Ipv6Surrounding p s) (hzq : ∀ c ∈ s.data.head?, c ≠ '%' ∧ c ≠ '.')
    (hi : ¬"ice-pwd".data <:+: (p ++ q.render ++ s).data) :
    redactIpv6 (p ++ q.render ++ s) = p ++ "[REDACTED]" ++ s ∧
      redactString (p ++ q.render ++ s) = p ++ "[REDACTED]" ++ s := by
  have h6 := redactIpv6_compressed q (fun hc => h.no_colon (List.mem_append_left _ hc))
    (fun hc => h.no_colon (List.mem_append_right _ hc)) h.not_hex_before fun c hc => by
      rw [inClass_append, h.not_hex_after c hc, inClass_zoneOrQuad (hzq c hc)]
      rfl
  refine ⟨h6, redactString_of_redactIpv6 h.toIpv6Context (fun hc => ?_) hi h6⟩
  rcases q.mem_render hc with hc | hc <;> exact absurd hc (by decide)

theorem redact_ipv6_compressed_exact_sample :
    ∃ q : Ipv6Compressed, q.render = "2001:db8::8a2e:370:7334" ∧
      Ipv6Surrounding "peer " " up" ∧
      (∀ c ∈ " up".data.head?, c ≠ '%' ∧ c ≠ '.') ∧
      ¬"ice-pwd".data <:+: ("peer " ++ q.render ++ " up").data ∧
      (redactIpv6 ("peer " ++ q.render ++ " up") = "peer " ++ "[REDACTED]" ++ " up" ∧
        redactString ("peer " ++ q.render ++ " up") = "peer " ++ "[REDACTED]" ++ " up") :=
  let q : Ipv6Compressed :=
    ⟨[⟨"2001".data, by decide, by decide, by decide⟩,
        ⟨"db8".data, by decide, by decide, by decide⟩],
      [⟨"8a2e".data, by decide, by decide, by decide⟩,
        ⟨"370".data, by decide, by decide, by decide⟩,
        ⟨"7334".data, by decide, by decide, by decide⟩], by decide⟩
  have hr : q.render = "2001:db8::8a2e:370:7334" := rfl
  have h : Ipv6Surrounding "peer " " up" :=
    ⟨⟨by decide, by decide, by decide, by decide⟩, by decide⟩
  have hzq : ∀ c ∈ " up".data.head?, c ≠ '%' ∧ c ≠ '.' := by decide
  have hi : ¬"ice-pwd".data <:+: ("peer " ++ q.render ++ " up").data := by
    rw [hr]
    exact find_eq_none_iff.1 (by decide)
  ⟨q, hr, h, hzq, hi, redact_ipv6_compressed_exact q "peer " " up" h hzq hi⟩

/-- Whatever the text, the output of the release-build `redact_string` holds no `::`, and so
no zero-compressed IPv6 address: the last alternative of the IPv6 pattern matches `::`
wherever it stands, and after the IPv6 pass the pattern matches nowhere. -/
theorem redactString_no_double_colon (text : String) :
    ¬"::".data <:+: (redactString text).data ∧
      ∀ q : Ipv6Compressed, ¬q.render.data <:+: (redactString text).data := by
  obtain ⟨-, -, hn6, hb6, -⟩ := ipv6Hir_checks
  obtain ⟨a₁, a₂, a₁₁, hh, -⟩ := compressedShape_eq ipv6Hir_compressed
  have h6 := noMatch_redactIpv4 hn6 hb6
    (redactWith_noMatch ipv6Pattern_parse hn6 hb6 (redactIcePassword text)).1
  have hcc : matchLengths ipv6Hir "::".data ≠ [] := by
    have hlead : matchLengths leadingHir "::".data = [2] := by decide
    rw [matchLengths_eq_flatten, hh]
    simp [hlead]
  have hno := not_infix_of_noMatch h6 hcc
  exact ⟨hno, fun q hq => hno (q.doubleColon_infix.trans hq)⟩

end RingRtc.Core.Util
