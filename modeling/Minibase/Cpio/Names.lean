import Minibase.Lib.Split
import Mathlib.Data.List.TakeWhile
import Mathlib.Algebra.Order.Group.Int

/-!
# The names in an archive

`validate_name` of `src/cpio/cpio_extract.c`. It counts the dots a component starts with
(`Cpio.dots`) and looks at the count where a slash ends the component, so the refused names
are exactly those with a component of one or two dots that a slash follows
(`Cpio.validateName_eq_ok_iff`). A single slash is taken off the front: a name may end in
`..`, and it may still be absolute (`Cpio.name_stays_iff`).
-/

namespace Minibase.Cpio

open List

def PAGE : ℕ := 4096

variable (off : ℕ)

/-- `fatal`: the message, and where in the archive. -/
def fatal {α : Type} (msg : String) : Except String α :=
  .error (msg ++ " at " ++ toString off)

/-- What the bytes of a buffer say to a function that takes a string. -/
def string (l : List UInt8) : List UInt8 := l.takeWhile (· ≠ 0)

lemma string_append_zero (f g : List UInt8) : string (f ++ 0 :: g) = string f := by
  induction f with
  | nil => rfl
  | cons c f ih =>
    rw [cons_append, string, takeWhile_cons, string, takeWhile_cons]
    split
    · exact congrArg _ ih
    · rfl

lemma string_eq_self {l : List UInt8} : string l = l ↔ 0 ∉ l := by
  rw [string, takeWhile_eq_self_iff]
  constructor
  · intro h h0
    simpa using h 0 h0
  · intro h c hc
    have hne : c ≠ 0 := fun h0 => h (h0 ▸ hc)
    simpa using hne

lemma not_mem_string (l : List UInt8) : 0 ∉ string l := fun h => by
  simpa using mem_takeWhile_imp h

/-- Bytes of which only the last is a zero. -/
theorem string_snoc {l : List UInt8} (h : (string l).length + 1 = l.length) :
    string l ++ [0] = l := by
  induction l with
  | nil => cases h
  | cons c l ih =>
    rw [string, takeWhile_cons] at *
    split at h
    · rename_i hc
      rw [if_pos hc, cons_append]
      exact congrArg _ (ih (Nat.succ.inj h))
    · rename_i hc
      have hl : l = [] := length_eq_zero_iff.mp (Nat.succ.inj h).symm
      have hzero : c = 0 := by simpa using hc
      rw [if_neg hc, hl, hzero]
      rfl

/-- The byte between components. -/
def slash : UInt8 := 0x2F

def dot : UInt8 := 0x2E

/-- The byte between lines. -/
def newline : UInt8 := 0x0A

/-- The name without the slash it may start with. -/
def strip : List UInt8 → List UInt8
  | [] => []
  | c :: name => if c = slash then name else c :: name

/-- One turn of the loop of `validate_name`: the count after the byte `c`, or nothing if
the name is refused there. -/
def dots (dotcount : ℤ) (c : UInt8) : Option ℤ :=
  if c = dot then
    if dotcount ≥ 3 then some dotcount else if dotcount < 0 then some dotcount
    else some (dotcount + 1)
  else if c ≠ slash then some (-1)
  else if dotcount = 1 ∨ dotcount = 2 then none
  else some 0

/-- `validate_name`, for a name up to its null. -/
def validateName (name : List UInt8) : Except String (List UInt8) :=
  let name := strip name
  match name.foldlM dots 0 with
  | none => fatal off "invalid entry path"
  | some _ => .ok name

/-! ### What the count says -/

variable (d : List UInt8)

/-- One dot or two. -/
def Special : Prop := d = [dot] ∨ d = [dot, dot]
deriving Decidable

/-- The count in a component that starts with `d`. -/
def dotcount : ℤ :=
  if d = replicate d.length dot then min d.length 3 else -1

lemma dotcount_special : dotcount d = 1 ∨ dotcount d = 2 ↔ Special d := by
  rw [dotcount]
  split_ifs with h
  · constructor
    · intro hlen
      have hd : d.length = 1 ∨ d.length = 2 := by omega
      rcases hd with hd | hd
      · exact .inl (by rw [h, hd]; rfl)
      · exact .inr (by rw [h, hd]; rfl)
    · rintro (rfl | rfl)
      · exact .inl rfl
      · exact .inr rfl
  · constructor
    · intro hlen
      exact absurd hlen (by decide)
    · rintro (rfl | rfl)
      · exact absurd rfl h
      · exact absurd rfl h

/-- **One more byte of a component** that is not refused. -/
theorem dotcount_part {c : UInt8} (hc : c ≠ slash) (d : List UInt8) :
    dots (dotcount d) c = some (dotcount (d ++ [c])) := by
  have hmore : d ++ [c] = replicate (d ++ [c]).length dot ↔
      d = replicate d.length dot ∧ c = dot := by
    rw [length_append, length_singleton, replicate_succ']
    constructor
    · intro h
      obtain ⟨h1, h2⟩ := append_inj' h rfl
      exact ⟨h1, singleton_inj.mp h2⟩
    · rintro ⟨h1, h2⟩
      rw [← h1, h2]
  have hlen : ((d ++ [c]).length : ℤ) = d.length + 1 := by simp
  rw [dots]
  split_ifs with h1 h2 h3
  · -- three dots or more
    rw [dotcount] at h2
    split_ifs at h2 with hd
    · rw [dotcount, if_pos hd, dotcount, if_pos (hmore.mpr ⟨hd, h1⟩), hlen]
      congr 1
      omega
    · omega
  · rw [dotcount] at h3
    split_ifs at h3 with hd
    · omega
    · rw [dotcount, if_neg hd, dotcount, if_neg fun h => hd (hmore.mp h).1]
  · rw [dotcount] at h2 h3
    split_ifs at h2 h3 with hd
    · rw [dotcount, if_pos hd, dotcount, if_pos (hmore.mpr ⟨hd, h1⟩), hlen]
      congr 1
      omega
    · omega
  · rw [dotcount, if_neg fun h => h1 (hmore.mp h).2]

/-- **The loop** goes through if no component before a slash is special. -/
theorem foldlM_dots (d name : List UInt8) (hd : slash ∉ d) :
    (name.foldlM dots (dotcount d)).isSome ↔ ∀ e ∈ (pieces slash (d ++ name)).1, ¬ Special e := by
  induction name generalizing d with
  | nil =>
    rw [append_nil, pieces_last hd]
    simp
  | cons c name ih =>
    by_cases hc : c = slash
    · -- a component ends here
      subst hc
      rw [pieces_part hd, forall_mem_cons, foldlM_cons, dots, if_neg (by decide),
        if_neg (not_not.mpr rfl)]
      split_ifs with hs
      · have hspecial := (dotcount_special d).mp hs
        constructor
        · intro h
          cases h
        · rintro ⟨h, -⟩
          exact absurd hspecial h
      · have hplain : ¬ Special d := fun h => hs ((dotcount_special d).mpr h)
        have hnext := ih [] not_mem_nil
        rw [nil_append] at hnext
        constructor
        · intro h
          exact ⟨hplain, hnext.mp h⟩
        · rintro ⟨-, h⟩
          exact hnext.mpr h
    · have hmem : slash ∉ d ++ [c] := by
        simpa [hd] using Ne.symm hc
      rw [foldlM_cons, dotcount_part hc, append_cons d c name]
      exact ih (d ++ [c]) hmem

/-- **A name is accepted** unless a component before its last is special. -/
theorem validateName_eq_ok_iff (name path : List UInt8) :
    validateName off name = .ok path ↔
      path = strip name ∧ ∀ d ∈ (pieces slash (strip name)).1, ¬ Special d := by
  have hloop := foldlM_dots [] (strip name) not_mem_nil
  rw [nil_append] at hloop
  rw [validateName, ← hloop]
  show (match (strip name).foldlM dots (dotcount []) with
    | none => fatal off "invalid entry path"
    | some _ => Except.ok (strip name)) = _ ↔ _
  split
  · rename_i h
    rw [h]
    simp [fatal]
  · rename_i h
    rw [h]
    simp [eq_comm]

/-! ### Names that stay below -/

/-- The components of a path. -/
def components (path : List UInt8) : List (List UInt8) :=
  (pieces slash path).1 ++ [(pieces slash path).2]

/-- **The name stays below the directory**: what comes back is relative, and none of its
components leads elsewhere. -/
def Stays (name : List UInt8) : Prop :=
  ∀ path, validateName off name = .ok path →
    path.head? ≠ some slash ∧ ∀ d ∈ components path, ¬ Special d

/-- **Names stay below** if they are refused, or do not start with two slashes and do not
end in a special component. -/
theorem name_stays_iff (off : ℕ) (name : List UInt8) :
    Stays off name ↔
      (∃ d ∈ (pieces slash (strip name)).1, Special d) ∨
        ((strip name).head? ≠ some slash ∧ ¬ Special (pieces slash (strip name)).2) := by
  constructor
  · intro h
    by_cases hd : ∃ d ∈ (pieces slash (strip name)).1, Special d
    · exact .inl hd
    · have hplain : ∀ d ∈ (pieces slash (strip name)).1, ¬ Special d := fun d hmem hs =>
        hd ⟨d, hmem, hs⟩
      obtain ⟨hhead, hall⟩ := h _ ((validateName_eq_ok_iff off name _).mpr ⟨rfl, hplain⟩)
      exact .inr ⟨hhead, hall _ (mem_append_right _ (mem_singleton_self _))⟩
  · rintro (⟨d, hmem, hs⟩ | ⟨hhead, hlast⟩) path hpath
    · obtain ⟨-, hplain⟩ := (validateName_eq_ok_iff off name path).mp hpath
      exact absurd hs (hplain d hmem)
    · obtain ⟨rfl, hplain⟩ := (validateName_eq_ok_iff off name path).mp hpath
      refine ⟨hhead, fun d hd => ?_⟩
      rcases mem_append.mp hd with hd | hd
      · exact hplain d hd
      · rw [mem_singleton.mp hd]
        exact hlast

/-- The name `a/..`. -/
theorem not_name_stays : ¬ ∀ off name, Stays off name := by
  intro h
  obtain ⟨-, hall⟩ := h 0 [0x61, slash, dot, dot] [0x61, slash, dot, dot] rfl
  exact hall [dot, dot] (by decide) (.inr rfl)

end Minibase.Cpio
