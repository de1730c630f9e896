import Minibase.Lib.Glob
import Minibase.Kmod.Stdin

/-!
# Aliases

`word`, `skip` and `match_alias` of `src/kmod/common_cnf.c`. A line of `modules.alias` is
`alias`, a pattern and a module, with blanks between them. At a star of the pattern, the name is
skipped up to the character that is next in the line; behind a star that ends the pattern that
is a blank (`Kmod.not_match_alias`). Otherwise it is what the pattern says, as long as no star
is to match a character that follows it (`Kmod.match_alias_iff`). Only stars have a meaning.
-/

namespace Minibase.Kmod

open List Option

def star : UInt8 := 0x2A

def isspace (c : UInt8) : Bool := c = 0x20 || c = 0x09

/-- `word`: what is left of a line after a word. Nothing has to be left. -/
def word (p w : List UInt8) : Option (List UInt8) :=
  if ¬ w <+: p then none
  else
    match p.drop w.length with
    | [] => some []
    | c :: p => if isspace c then some (c :: p) else none

def skip (p w : List UInt8) : Option (List UInt8) := (word p w).map fun p => p.dropWhile isspace

/-- The loop of `match_alias`, with the byte that follows the line. -/
def matchFrom (eol : UInt8) : (p n : List UInt8) → Option (List UInt8 × List UInt8)
  | p, [] => some (p, [])
  | [], n => some ([], n)
  | c :: p, x :: n =>
    if isspace c then some (c :: p, x :: n)
    else if c = star then matchFrom eol p ((x :: n).dropWhile (· ≠ p.headD eol))
    else if c ≠ x then none
    else matchFrom eol p n

/-- After the loop: the line from the blank on that is after the pattern. -/
def matchEnd : List UInt8 × List UInt8 → Option (List UInt8)
  | (p, n) =>
    let p := if p.head? = some star then p.tail else p
    if n ≠ [] ∨ p = [] ∨ ¬ isspace (p.headD 0) then none else some p

/-- `alias`. -/
def aliasWord : List UInt8 := [0x61, 0x6C, 0x69, 0x61, 0x73]

def matchAlias (eol : UInt8) (line name : List UInt8) : Option (List UInt8) :=
  (skip line aliasWord).bind fun p => (matchFrom eol p name).bind matchEnd

/-! ### What is matched -/

/-- A pattern that is followed by a blank. -/
structure IsPattern (pattern : List UInt8) : Prop where
  no_blank : ∀ c ∈ pattern, isspace c = false
  no_pair : ¬ [star, star] <:+: pattern

section Match

variable {eol sep c : UInt8} {p n rest : List UInt8}

lemma IsPattern.tail (h : IsPattern (c :: p)) : IsPattern p :=
  ⟨fun x hx => h.no_blank x (mem_cons_of_mem c hx),
    fun hin => h.no_pair (hin.trans (suffix_cons c p).isInfix)⟩

lemma IsPattern.head (h : IsPattern (star :: p)) : ∀ c ∈ p.head?, c ≠ star := by
  rintro c hc rfl
  obtain - | ⟨d, p⟩ := p
  · cases hc
  · obtain rfl : d = star := Option.some.inj hc
    exact h.no_pair ⟨[], p, rfl⟩

lemma matchFrom_nil (eol : UInt8) (p : List UInt8) : matchFrom eol p [] = some (p, []) := by
  cases p <;> rfl

/-- **The loop and what is done after it** are matching. -/
theorem match_iff (hsep : isspace sep = true) (hp : IsPattern p) (hset : Settled star sep p n) :
    ((matchFrom eol (p ++ sep :: rest) n).bind matchEnd).isSome ↔ Glob star p n := by
  have hblank : sep ≠ star := by
    rintro rfl
    exact absurd hsep (by decide)
  induction p generalizing n with
  | nil =>
    rw [glob_nil_iff]
    obtain - | ⟨x, n⟩ := n
    · simp [matchFrom_nil, matchEnd, hblank, hsep]
    · simp [matchFrom, matchEnd, hsep]
  | cons c p ih =>
    have hc : isspace c = false := hp.no_blank c mem_cons_self
    by_cases hstar : c = star
    · subst hstar
      have hhead := hp.head
      obtain - | ⟨x, n⟩ := n
      · rw [glob_star_nil_iff hhead, matchFrom_nil]
        obtain - | ⟨d, p⟩ := p
        · simp [matchEnd, hsep]
        · have hd := hp.tail.no_blank d mem_cons_self
          simp [matchEnd, hd]
      · have hnext : (p ++ sep :: rest).headD eol = p.headD sep := by
          cases p <;> rfl
        rw [glob_star_iff hhead hset, cons_append, matchFrom, hc, if_neg (by decide), if_pos rfl,
          hnext]
        refine ih hp.tail (Settled.rest ((x :: n).takeWhile (· ≠ p.headD sep)) ?_)
        rwa [takeWhile_append_dropWhile]
    · rw [glob_cons_iff hstar]
      obtain - | ⟨x, n⟩ := n
      · simp [matchFrom_nil, matchEnd, hstar, hc]
      · rw [cons_append, matchFrom, hc, if_neg (by decide), if_neg hstar]
        by_cases hx : c = x
        · subst hx
          rw [if_neg (not_not.mpr rfl)]
          refine (ih hp.tail (hset.tail hstar)).trans ?_
          exact ⟨fun h => ⟨n, rfl, h⟩, fun ⟨_, heq, h⟩ => (cons.inj heq).2 ▸ h⟩
        · rw [if_pos hx]
          refine iff_of_false (by simp) ?_
          rintro ⟨_, heq, -⟩
          exact hx (cons.inj heq).1.symm

end Match

/-- The line `alias <pattern> <module>`. -/
def lineOf (blanks pattern : List UInt8) (sep : UInt8) (module : List UInt8) : List UInt8 :=
  aliasWord ++ (blanks ++ (pattern ++ sep :: module))

lemma skip_lineOf {blanks pattern module : List UInt8} {sep : UInt8} (hne : blanks ≠ [])
    (hblanks : ∀ c ∈ blanks, isspace c = true) (hpat : pattern ≠ []) (hp : IsPattern pattern) :
    skip (lineOf blanks pattern sep module) aliasWord = some (pattern ++ sep :: module) := by
  obtain ⟨b, bs, rfl⟩ := exists_cons_of_ne_nil hne
  obtain ⟨c, cs, rfl⟩ := exists_cons_of_ne_nil hpat
  have hb : isspace b = true := hblanks b mem_cons_self
  have hc : isspace c = false := hp.no_blank c mem_cons_self
  have hword : word (lineOf (b :: bs) (c :: cs) sep module) aliasWord =
      some ((b :: bs) ++ ((c :: cs) ++ sep :: module)) := by
    rw [word, lineOf, if_neg (not_not.mpr (prefix_append _ _)), drop_left]
    exact if_pos hb
  rw [skip, hword, map_some, dropWhile_append_of_pos hblanks, cons_append,
    dropWhile_cons_of_neg (by rw [hc]; decide)]

/-- **Matching an alias** is matching its pattern, with the blank after it taken for the
character that follows a star at its end. -/
theorem match_alias_iff {eol sep : UInt8} {blanks pattern module name : List UInt8}
    (hne : blanks ≠ [])
    (hblanks : ∀ c ∈ blanks, isspace c = true) (hpat : pattern ≠ []) (hp : IsPattern pattern)
    (hsep : isspace sep = true) (hset : Settled star sep pattern name) :
    (matchAlias eol (lineOf blanks pattern sep module) name).isSome ↔ Glob star pattern name := by
  rw [matchAlias, skip_lineOf hne hblanks hpat hp, bind_some]
  exact match_iff hsep hp hset

/-- No star is given a stretch with the character in it that follows in the pattern, if one does. -/
def SettledInside (p n : List UInt8) : Prop :=
  ∀ ss, Stretches star p n ss → ∀ x ∈ ss, ∀ c ∈ x.1.head?, c ∉ x.2

/-- What a star after one character stands for. -/
theorem stretches_of_prefix {c : UInt8} {n : List UInt8} {ss : List (List UInt8 × List UInt8)}
    (hc : c ≠ star)
    (h : Stretches star [c, star] n ss) : ∃ s, n = c :: s ∧ ss = [([], s)] := by
  cases h with
  | star => exact absurd rfl hc
  | same _ h =>
    cases h with
    | same hstar => exact absurd rfl hstar
    | star s h =>
      cases h
      exact ⟨s, by rw [append_nil], rfl⟩

lemma isPattern_prefix : IsPattern [0x61, 0x2A] :=
  ⟨forall_mem_cons.mpr ⟨rfl, forall_mem_singleton.mpr rfl⟩, by decide⟩

/-- `a*` and `ab`. -/
theorem match_alias_iff_prefix :
    (matchAlias newline (lineOf [0x20] [0x61, 0x2A] 0x20 [0x6D]) [0x61, 0x62]).isSome ↔
      Glob star [0x61, 0x2A] [0x61, 0x62] := by
  refine match_alias_iff (by decide) (forall_mem_singleton.mpr rfl) (by decide) isPattern_prefix
    (by decide) ?_
  intro ss hss x hx
  obtain ⟨s, hs, rfl⟩ := stretches_of_prefix (by decide) hss
  obtain rfl := mem_singleton.mp hx
  obtain rfl := (cons.inj hs).2
  decide

/-- **A star at the end does not match a blank**: `a*` and `a b`. -/
theorem not_match_alias : ¬ ∀ (eol sep : UInt8) (blanks pattern module name : List UInt8),
    blanks ≠ [] →
    (∀ c ∈ blanks, isspace c = true) → pattern ≠ [] → IsPattern pattern → isspace sep = true →
      name ≠ [] →
    SettledInside pattern name →
      ((matchAlias eol (lineOf blanks pattern sep module) name).isSome ↔
        Glob star pattern name) := by
  intro h
  have hset : SettledInside [0x61, 0x2A] [0x61, 0x20, 0x62] := by
    intro ss hss x hx c hc
    obtain ⟨s, -, rfl⟩ := stretches_of_prefix (by decide) hss
    obtain rfl := mem_singleton.mp hx
    cases hc
  have hglob : Glob star [0x61, 0x2A] [0x61, 0x20, 0x62] :=
    ⟨_, .same (by decide) (.star [0x20, 0x62] .nil)⟩
  have hmatch := h newline 0x20 [0x20] [0x61, 0x2A] [0x6D] [0x61, 0x20, 0x62] (by decide)
    (forall_mem_singleton.mpr rfl) (by decide) isPattern_prefix (by decide) (by decide) hset
  exact absurd (hmatch.mpr hglob) (by decide)

end Minibase.Kmod
