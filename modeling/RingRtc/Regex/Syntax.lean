import Mathlib.Data.List.Basic

/-! # Regular expressions as `Regex::new` reads them

`util.rs` builds its redaction patterns with `Regex::new` from the `regex` crate. This is
the part of that crate's syntax the patterns use: literals, escaped punctuation, classes of
ranges, groups, alternation and the greedy repetitions `?`, `*`, `+`, `{m}`, `{m,}` and
`{m,n}`. A group only brackets, since no capture is read. The parser fails with the crate's
error on a malformed pattern, and with `unsupported` on syntax outside this part (anchors,
`.`, Perl classes, lazy repetition, flags). It runs on the pattern's characters with a fuel
one more than their number, which no parse exhausts, since every call consumes a character.
-/
namespace RingRtc.Regex

/-- A parsed pattern, `regex_syntax`'s `Hir`: `cls` is a class of inclusive ranges (a literal
is a class of one range); `rep r lo hi` is `r{lo,hi}`, with `hi = none` for `r{lo,}`. -/
inductive Hir where
  | empty
  | cls (ranges : List (Char × Char))
  | cat (r s : Hir)
  | alt (r s : Hir)
  | rep (r : Hir) (lo : Nat) (hi : Option Nat)
  deriving DecidableEq, Repr

/-- Whether a character lies in one of the class's ranges. -/
def inClass (ranges : List (Char × Char)) (c : Char) : Bool :=
  ranges.any fun r => r.1.toNat ≤ c.toNat && c.toNat ≤ r.2.toNat

theorem inClass_single {c d : Char} : inClass [(d, d)] c = true ↔ c = d := by
  simp only [inClass, List.any_cons, List.any_nil, Bool.or_false, Bool.and_eq_true,
    decide_eq_true_eq]
  constructor
  · rintro ⟨h₁, h₂⟩
    rw [← Char.ofNat_toNat c, ← Char.ofNat_toNat d, Nat.le_antisymm h₂ h₁]
  · rintro rfl
    exact ⟨le_rfl, le_rfl⟩

namespace Hir

def lit (c : Char) : Hir := cls [(c, c)]

/-- A concatenation, nested to the right; the empty one matches the empty string. -/
def seqOf : List Hir → Hir
  | [] => empty
  | [r] => r
  | r :: rs => cat r (seqOf rs)

/-- An alternation, nested to the right, the first branch preferred. -/
def altOf : List Hir → Hir
  | [] => empty
  | [r] => r
  | r :: rs => alt r (altOf rs)

end Hir

/-- The `regex_syntax` errors the parser raises. -/
inductive ParseError where
  | groupUnclosed
  | groupUnopened
  | classUnclosed
  | classRangeInvalid
  | repetitionMissing
  | repetitionCountInvalid
  | repetitionCountUnclosed
  | repetitionCountDecimalEmpty
  | escapeUnexpectedEof
  | unsupported
  deriving DecidableEq, Repr

open Hir

/-- `regex_syntax::is_meta_character`: the characters a backslash makes literal. -/
def isMetaCharacter (c : Char) : Bool :=
  "\\.+*?()|[]\x7b\x7d^$#&-~".data.contains c

def decimalValue (ds : List Char) : Nat :=
  ds.foldl (fun v d => 10 * v + (d.toNat - '0'.toNat)) 0

/-- The inside of a counted repetition, after its `{`: `m}`, `m,}` or `m,n}` with `m ≤ n`. -/
def parseCount (s : List Char) : Except ParseError (Nat × Option Nat × List Char) :=
  match s.span Char.isDigit with
  | ([], _) => .error .repetitionCountDecimalEmpty
  | (m, '}' :: s) => .ok (decimalValue m, some (decimalValue m), s)
  | (m, ',' :: '}' :: s) => .ok (decimalValue m, none, s)
  | (m, ',' :: s) =>
    match s.span Char.isDigit with
    | ([], _) => .error .repetitionCountDecimalEmpty
    | (n, '}' :: s) =>
      if decimalValue n < decimalValue m then .error .repetitionCountInvalid
      else .ok (decimalValue m, some (decimalValue n), s)
    | _ => .error .repetitionCountUnclosed
  | _ => .error .repetitionCountUnclosed

/-- A repetition operator at the head of the input, as its bounds and the rest. -/
def parseRepetition : List Char → Except ParseError (Nat × Option Nat × List Char)
  | '?' :: s => .ok (0, some 1, s)
  | '*' :: s => .ok (0, none, s)
  | '+' :: s => .ok (1, none, s)
  | '{' :: s => parseCount s
  | _ => .error .unsupported

/-- The items of a class after its `[`, up to and with its `]`. -/
def parseClassItems : List Char → List (Char × Char) →
    Except ParseError (List (Char × Char) × List Char)
  | [], _ => .error .classUnclosed
  | ']' :: s, acc => .ok (acc, s)
  | '[' :: _, _ => .error .unsupported
  | '\\' :: _, _ => .error .unsupported
  | c :: '-' :: ']' :: s, acc => .ok (acc ++ [(c, c), ('-', '-')], s)
  | c :: '-' :: d :: s, acc =>
    if d.toNat < c.toNat then .error .classRangeInvalid else parseClassItems s (acc ++ [(c, d)])
  | c :: s, acc => parseClassItems s (acc ++ [(c, c)])

/-- A class after its `[`; negated classes and a leading `]` are outside the subset. -/
def parseClass : List Char → Except ParseError (List (Char × Char) × List Char)
  | '^' :: _ => .error .unsupported
  | ']' :: _ => .error .unsupported
  | s => parseClassItems s []

/-- One level of alternation: the finished branches `alts`, the items of the current one,
then the input up to an unmatched `)` or the end. -/
def parseAlternation : Nat → List Char → List Hir → List Hir →
    Except ParseError (Hir × List Char)
  | 0, _, _, _ => .error .unsupported
  | _ + 1, [], alts, items => .ok (altOf (alts ++ [seqOf items]), [])
  | _ + 1, ')' :: s, alts, items => .ok (altOf (alts ++ [seqOf items]), ')' :: s)
  | fuel + 1, '|' :: s, alts, items => parseAlternation fuel s (alts ++ [seqOf items]) []
  | fuel + 1, '(' :: s, alts, items =>
    if s.head? = some '?' then .error .unsupported else
    match parseAlternation fuel s [] [] with
    | .ok (r, ')' :: s) => parseAlternation fuel s alts (items ++ [r])
    | .ok _ => .error .groupUnclosed
    | .error e => .error e
  | fuel + 1, '[' :: s, alts, items =>
    match parseClass s with
    | .ok (rs, s) => parseAlternation fuel s alts (items ++ [cls rs])
    | .error e => .error e
  | _ + 1, ['\\'], _, _ => .error .escapeUnexpectedEof
  | fuel + 1, '\\' :: c :: s, alts, items =>
    if isMetaCharacter c then parseAlternation fuel s alts (items ++ [lit c])
    else .error .unsupported
  | fuel + 1, c :: s, alts, items =>
    if c = '?' ∨ c = '*' ∨ c = '+' ∨ c = '{' then
      match items.getLast?, parseRepetition (c :: s) with
      | none, _ => .error .repetitionMissing
      | some _, .error e => .error e
      | some r, .ok (lo, hi, s) =>
        if s.head? = some '?' then .error .unsupported
        else parseAlternation fuel s alts (items.dropLast ++ [rep r lo hi])
    else if c = '.' ∨ c = '^' ∨ c = '$' then .error .unsupported
    else parseAlternation fuel s alts (items ++ [lit c])

/-- `Regex::new`, up to the parsed pattern. -/
def new (pattern : String) : Except ParseError Hir :=
  match parseAlternation (pattern.length + 1) pattern.data [] [] with
  | .ok (r, []) => .ok r
  | .ok _ => .error .groupUnopened
  | .error e => .error e

example : new "a(b|)c" = .ok (.cat (lit 'a') (.cat (.alt (lit 'b') .empty) (lit 'c'))) := rfl
example : new "[0-9]\x7b2,1\x7d" = .error .repetitionCountInvalid := rfl
example : new "(a" = .error .groupUnclosed := rfl

end RingRtc.Regex
