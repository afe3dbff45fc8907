import Mathlib

/-! # Strings in JSON

The text of an array of strings. Quotes, backslashes and control characters are escaped; no escape
is the beginning of another one, so the text determines the strings.
-/

namespace CardScope.Library

/-- A text can be split off the front of any longer one. -/
def PrefixFree {α : Type*} (f : α → List Char) : Prop :=
  ∀ a b s t, f a ++ s = f b ++ t → a = b ∧ s = t

def shortEscape (c : Char) : Option Char :=
  if c = '"' then some '"'
  else if c = '\\' then some '\\'
  else if c = '\x08' then some 'b'
  else if c = '\t' then some 't'
  else if c = '\n' then some 'n'
  else if c = '\x0c' then some 'f'
  else if c = '\r' then some 'r'
  else none

def hexDigit (n : ℕ) : Char := Nat.digitChar n

def escape (c : Char) : List Char :=
  match shortEscape c with
  | some d => ['\\', d]
  | none =>
    if c.toNat < 32 then ['\\', 'u', '0', '0', hexDigit (c.toNat / 16), hexDigit (c.toNat % 16)]
    else [c]

def quote (s : String) : List Char := '"' :: s.toList.flatMap escape ++ ['"']

def stringify (xs : List String) : String :=
  String.ofList ('[' :: [','].intercalate (xs.map quote) ++ [']'])

/-! ## Reading an escape back -/

def hexValue (c : Char) : ℕ := if c.isDigit then c.toNat - '0'.toNat else c.toNat - 'a'.toNat + 10

theorem hexValue_hexDigit {n : ℕ} (h : n < 16) : hexValue (hexDigit n) = n := by
  interval_cases n <;> rfl

def longEscape (d : Char) : Char :=
  if d = 'b' then '\x08' else if d = 't' then '\t' else if d = 'n' then '\n'
  else if d = 'f' then '\x0c' else if d = 'r' then '\r' else d

def unescape : List Char → Option (Char × List Char)
  | '\\' :: 'u' :: '0' :: '0' :: a :: b :: rest =>
    some (Char.ofNat (16 * hexValue a + hexValue b), rest)
  | '\\' :: d :: rest => some (longEscape d, rest)
  | c :: rest => some (c, rest)
  | [] => none

theorem unescape_short {c d : Char} (h : shortEscape c = some d) (rest : List Char) :
    unescape ('\\' :: d :: rest) = some (c, rest) := by
  unfold shortEscape at h
  split_ifs at h with h1 h2 h3 h4 h5 h6 h7 <;> cases h <;> subst_vars <;> rfl

theorem unescape_plain {c : Char} (h : c ≠ '\\') (rest : List Char) :
    unescape (c :: rest) = some (c, rest) := by
  unfold unescape
  split
  · rename_i he
    exact absurd (List.cons.inj he).1 h
  · rename_i he
    exact absurd (List.cons.inj he).1 h
  · rename_i he
    rw [(List.cons.inj he).1, (List.cons.inj he).2]
  · rename_i he
    cases he

theorem unescape_escape (c : Char) (rest : List Char) :
    unescape (escape c ++ rest) = some (c, rest) := by
  unfold escape
  cases hshort : shortEscape c with
  | some d => exact unescape_short hshort rest
  | none =>
    by_cases hcontrol : c.toNat < 32
    · simp only [if_pos hcontrol, List.cons_append, List.nil_append, unescape]
      rw [hexValue_hexDigit (by omega), hexValue_hexDigit (by omega), Nat.div_add_mod,
        Char.ofNat_toNat]
    · simp only [if_neg hcontrol, List.cons_append, List.nil_append]
      refine unescape_plain ?_ rest
      rintro rfl
      cases hshort

theorem escape_prefixFree : PrefixFree escape := by
  intro c d s t h
  have hread : some (c, s) = some (d, t) := by
    rw [← unescape_escape c s, ← unescape_escape d t, h]
  exact Prod.mk.inj (Option.some.inj hread)

/-! ## Strings -/

theorem escape_ne_quote (c : Char) (s t : List Char) : escape c ++ s ≠ '"' :: t := by
  intro h
  have hread : some (c, s) = some ('"', t) := by
    rw [← unescape_escape c s, h]
    rfl
  obtain ⟨rfl, -⟩ := Prod.mk.inj (Option.some.inj hread)
  cases h

theorem quote_prefixFree : PrefixFree quote := by
  have hbody : ∀ (a b s t : List Char), a.flatMap escape ++ '"' :: s = b.flatMap escape ++ '"' :: t →
      a = b ∧ s = t := by
    intro a
    induction a with
    | nil =>
      intro b s t h
      cases b with
      | nil => exact ⟨rfl, List.cons.inj h |>.2⟩
      | cons d b =>
        rw [List.flatMap_cons, List.append_assoc] at h
        exact absurd h.symm (escape_ne_quote d _ _)
    | cons c a ih =>
      intro b s t h
      cases b with
      | nil =>
        rw [List.flatMap_cons, List.append_assoc] at h
        exact absurd h (escape_ne_quote c _ _)
      | cons d b =>
        rw [List.flatMap_cons, List.flatMap_cons, List.append_assoc, List.append_assoc] at h
        obtain ⟨rfl, hrest⟩ := escape_prefixFree c d _ _ h
        obtain ⟨rfl, hst⟩ := ih b s t hrest
        exact ⟨rfl, hst⟩
  intro a b s t h
  obtain ⟨hlist, hst⟩ := hbody a.toList b.toList s t (by simpa [quote] using h)
  exact ⟨String.toList_inj.mp hlist, hst⟩

theorem stringify_pair {a b c d : String} : stringify [a, b] = stringify [c, d] ↔ a = c ∧ b = d := by
  constructor
  · intro h
    have hlist : quote a ++ ',' :: (quote b ++ [']']) = quote c ++ ',' :: (quote d ++ [']']) := by
      simpa [stringify, List.intercalate] using congrArg String.toList h
    obtain ⟨hac, hrest⟩ := quote_prefixFree a c _ _ hlist
    exact ⟨hac, (quote_prefixFree b d _ _ (List.cons.inj hrest).2).1⟩
  · rintro ⟨rfl, rfl⟩
    rfl

end CardScope.Library
