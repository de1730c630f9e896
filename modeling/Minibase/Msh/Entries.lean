import Minibase.Msh.Heap
import Mathlib.Data.Nat.Bitwise

/-!
# Entries back to back

What the heap of `msh` holds below `asep`: a list of entries (`Msh.Ent`), each right after
the other (`Msh.Sh.Keeps`). The test in `env_next` whether the next entry fits in front of `asep`
is made with the size of the one before, so that an entry that is larger than all that comes after
it is the last one that is met. All of them are if none is, `Msh.Fits`: then `Msh.envs_eq` and
`Msh.forEnvs_keeps`.
-/

namespace Minibase.Msh

open List Sh

/-! ### Keys -/

/-- What an entry is: a variable of the script, one of the environment, or one of the
environment that is no longer there. -/
inductive Mark
  | svar
  | envp
  | gone
deriving DecidableEq

/-- What an entry holds. -/
inductive Body
  | text (s : List UInt8)
  | ref (idx : ℕ)
deriving DecidableEq

/-- An entry. -/
structure Ent where
  mark : Mark
  body : Body
deriving DecidableEq

/-- The bits for it in a key. -/
def Mark.bits : Mark → ℕ
  | .svar => EV_SVAR
  | .envp => EV_ENVP
  | .gone => 0

/-- The size of an entry. -/
def Body.size : Body → ℕ
  | .text s => roundUp4 (ENV + s.length + 1)
  | .ref _ => ENV

/-- The low half of a key. -/
def Body.low : Body → ℕ
  | .text s => Body.size (.text s)
  | .ref idx => idx

/-- Whether it is a reference. -/
def Body.isRef : Body → Bool
  | .text _ => false
  | .ref _ => true

/-- The bit for a reference. -/
def refBit (r : Bool) : ℕ := if r then EV_REF else 0

/-- The high half of a key. -/
def highOf (r : Bool) (t : Mark) : ℕ :=
  (if r then 256 else 0) + (match t with
    | .svar => 2
    | .envp => 1
    | .gone => 0)

namespace Ent

/-- The key of an entry. -/
def key (e : Ent) : ℕ := refBit e.body.isRef ||| e.mark.bits ||| e.body.low

/-- An entry that can be told from its key. -/
def Ok (environ : List Str) (e : Ent) : Prop :=
  match e.body with
  | .text s => 0 ∉ s ∧ Body.size (.text s) ≤ EV_SIZE
  | .ref idx => idx ≤ EV_SIZE ∧ idx < environ.length

/-- The string that an entry stands for. -/
def text (environ : List Str) (e : Ent) : List UInt8 :=
  match e.body with
  | .text s => s
  | .ref idx => (environ.map Str.chars).getD idx []

/-- The high half of its key. -/
def high (e : Ent) : ℕ := highOf e.body.isRef e.mark

end Ent

lemma or_halves (h : ℕ) {n : ℕ} (hn : n < 2 ^ 16) : 2 ^ 16 * h ||| n = 2 ^ 16 * h + n := by
  rw [mul_comm, ← Nat.shiftLeft_eq, Nat.shiftLeft_add_eq_or_of_lt hn]

lemma and_halves (h k : ℕ) {n m : ℕ} (hn : n < 2 ^ 16) (hm : m < 2 ^ 16) :
    (2 ^ 16 * h + n) &&& (2 ^ 16 * k + m) = 2 ^ 16 * (h &&& k) + (n &&& m) := by
  have hnm : n &&& m < 2 ^ 16 := lt_of_le_of_lt Nat.and_le_left hn
  refine Nat.eq_of_testBit_eq fun j => ?_
  rw [Nat.testBit_and, Nat.testBit_two_pow_mul_add h hn, Nat.testBit_two_pow_mul_add k hm,
    Nat.testBit_two_pow_mul_add _ hnm]
  split_ifs
  · rw [Nat.testBit_and]
  · rw [Nat.testBit_and]

section Key

variable {environ : List Str} {e : Ent}

lemma four_le_size (b : Body) : ENV ≤ b.size := by
  cases b with
  | text s =>
    have := le_roundUp4 (ENV + s.length + 1)
    simp only [Body.size]
    omega
  | ref idx => exact le_rfl

section

variable (h : e.Ok environ)
include h

lemma Ent.Ok.low_lt : e.body.low < 2 ^ 16 := by
  unfold Ent.Ok at h
  unfold Body.low
  split at h
  · exact Nat.lt_succ_of_le h.2
  · exact Nat.lt_succ_of_le h.1

namespace Ent

lemma key_eq : e.key = 2 ^ 16 * e.high + e.body.low := by
  have hbits : ∀ (r : Bool) (t : Mark), refBit r ||| t.bits = 2 ^ 16 * highOf r t := by
    rintro (_ | _) (_ | _ | _) <;> decide
  rw [key, hbits, or_halves _ h.low_lt]
  rfl

/-- A test of the high half of a key. -/
theorem key_and (k : ℕ) : e.key &&& 2 ^ 16 * k = 2 ^ 16 * (e.high &&& k) := by
  rw [key_eq h, ← add_zero (2 ^ 16 * k), and_halves _ _ h.low_lt (by decide), Nat.and_zero]
  rfl

lemma key_and_mark {t : Mark} (ht : t ≠ .gone) : e.key &&& t.bits = 0 ↔ e.mark ≠ t := by
  have hbits : ∀ (r : Bool) (m t : Mark), t ≠ .gone → t.bits = 2 ^ 16 * highOf false t ∧
      (2 ^ 16 * (highOf r m &&& highOf false t) = 0 ↔ m ≠ t) := by
    rintro (_ | _) (_ | _ | _) (_ | _ | _) <;> decide
  obtain ⟨hb, hiff⟩ := hbits e.body.isRef e.mark t ht
  rw [hb, key_and h]
  exact hiff

lemma key_and_ref : e.key &&& EV_REF = 0 ↔ e.body.isRef = false := by
  have hbits : ∀ (r : Bool) (m : Mark), EV_REF = 2 ^ 16 * highOf true .gone ∧
      (2 ^ 16 * (highOf r m &&& highOf true .gone) = 0 ↔ r = false) := by
    rintro (_ | _) (_ | _ | _) <;> decide
  obtain ⟨hb, hiff⟩ := hbits e.body.isRef e.mark
  rw [hb, key_and h]
  exact hiff

lemma key_and_size : e.key &&& EV_SIZE = e.body.low := by
  rw [key_eq h, show EV_SIZE = 2 ^ 16 * 0 + (2 ^ 16 - 1) from rfl,
    and_halves _ _ h.low_lt (by decide), Nat.and_two_pow_sub_one_eq_mod, Nat.and_zero,
    Nat.mod_eq_of_lt h.low_lt, mul_zero, zero_add]

lemma sizeOf_key : Sh.sizeOf e.key = e.body.size := by
  have href := key_and_ref h
  rw [Sh.sizeOf, key_and_size h]
  rcases hb : e.body with s | idx
  · rw [if_neg (by rw [not_not, href, hb]; rfl)]
    rfl
  · rw [if_pos (by rw [Ne, href, hb]; simp [Body.isRef])]
    rfl

end Ent

end

/-- An entry is taken out of use. -/
def Ent.dropped (e : Ent) : Ent := { e with mark := .gone }

lemma Ent.Ok.dropped (h : e.Ok environ) : e.dropped.Ok environ := h

namespace Ent

/-- Bits of the high half of a key are cleared. -/
theorem key_clear (h : e.Ok environ) {k : ℕ}
    (hk : highOf e.body.isRef e.mark &&& k = highOf e.body.isRef .gone) :
    e.key &&& (2 ^ 16 * k + 65535) = e.dropped.key := by
  rw [key_eq h, key_eq h.dropped, and_halves _ _ h.low_lt (by decide), high, hk,
    show (65535 : ℕ) = 2 ^ 16 - 1 from rfl, Nat.and_two_pow_sub_one_eq_mod,
    Nat.mod_eq_of_lt h.low_lt]
  rfl

lemma key_clear_both (h : e.Ok environ) :
    e.key &&& (0xFFFFFFFF ^^^ (EV_ENVP ||| EV_SVAR)) = e.dropped.key := by
  have hbits : ∀ (r : Bool) (m : Mark), highOf r m &&& 65532 = highOf r .gone := by
    rintro (_ | _) (_ | _ | _) <;> decide
  exact key_clear h (hbits _ _)

lemma key_clear_envp (h : e.Ok environ) (hm : e.mark = .envp) :
    e.key &&& (0xFFFFFFFF ^^^ EV_ENVP) = e.dropped.key := by
  have hbits : ∀ r : Bool, highOf r .envp &&& 65534 = highOf r .gone := by
    rintro (_ | _) <;> decide
  exact key_clear h (by rw [hm]; exact hbits _)

lemma key_lt (h : e.Ok environ) : e.key < 2 ^ 32 := by
  have hhigh : ∀ (r : Bool) (m : Mark), highOf r m ≤ 258 := by
    rintro (_ | _) (_ | _ | _) <;> decide
  have hle := hhigh e.body.isRef e.mark
  have hlow := h.low_lt
  rw [key_eq h, high]
  omega

end Ent

end Key

/-! ### Layout -/

/-- The bytes that entries take up. -/
def total (es : List Ent) : ℕ := (es.map fun e => e.body.size).sum

/-- Where they are. -/
def offsets : ℕ → List Ent → List ℕ
  | _, [] => []
  | a, e :: es => a :: offsets (a + e.body.size) es

/-- An entry is found at an address. -/
def Ent.At (m : Mem) (a : ℕ) (e : Ent) : Prop :=
  m.Holds a (le 4 e.key) ∧ ∀ s, e.body = .text s → m.Holds (a + ENV) (s ++ [0])

/-- Entries are found back to back from an address on. -/
def Layout (m : Mem) : ℕ → List Ent → Prop
  | _, [] => True
  | a, e :: es => e.At m a ∧ Layout m (a + e.body.size) es

/-- No entry is larger than all that comes after it, but for the last one. -/
def Fits : List Ent → Prop
  | [] => True
  | e :: es => (es = [] ∨ e.body.size ≤ total es) ∧ Fits es

@[simp] lemma total_nil : total [] = 0 := rfl

@[simp] lemma total_cons (e : Ent) (es : List Ent) : total (e :: es) = e.body.size + total es := rfl

@[simp] lemma total_append (xs ys : List Ent) : total (xs ++ ys) = total xs + total ys := by
  simp [total]

lemma total_map {g : Ent → Ent} (hg : ∀ e, (g e).body = e.body) (es : List Ent) :
    total (es.map g) = total es := by
  simp [total, hg, Function.comp_def]

lemma four_le_total {es : List Ent} (h : es ≠ []) : ENV ≤ total es := by
  obtain ⟨e, es, rfl⟩ := exists_cons_of_ne_nil h
  have := four_le_size e.body
  simp only [total_cons]
  omega

lemma offsets_append (a : ℕ) (xs ys : List Ent) :
    offsets a (xs ++ ys) = offsets a xs ++ offsets (a + total xs) ys := by
  induction xs generalizing a with
  | nil => rfl
  | cons e xs ih => simp [offsets, ih, add_assoc]

/-- The addresses are different. -/
theorem offsets_pairwise (a : ℕ) (es : List Ent) :
    (offsets a es).Pairwise (· < ·) ∧ ∀ x ∈ offsets a es, a ≤ x := by
  induction es generalizing a with
  | nil => exact ⟨.nil, fun x hx => nomatch hx⟩
  | cons e es ih =>
    obtain ⟨hp, hle⟩ := ih (a + e.body.size)
    have hsize : 4 ≤ e.body.size := four_le_size e.body
    refine ⟨pairwise_cons.mpr ⟨fun x hx => ?_, hp⟩, fun x hx => ?_⟩
    · have := hle x hx
      omega
    · rcases mem_cons.mp hx with rfl | hx
      · exact le_rfl
      · have := hle x hx
        omega

lemma layout_append {m : Mem} {a : ℕ} {xs ys : List Ent} :
    Layout m a (xs ++ ys) ↔ Layout m a xs ∧ Layout m (a + total xs) ys := by
  induction xs generalizing a with
  | nil => simp [Layout]
  | cons e xs ih => simp [Layout, ih, and_assoc, add_assoc]

lemma Ent.At.congr {m m' : Mem} {a : ℕ} {e : Ent} (h : e.At m a)
    (hm : ∀ i, a ≤ i → i < a + e.body.size → m' i = m i) : e.At m' a := by
  have hsize := four_le_size e.body
  refine ⟨h.1.congr fun i h1 h2 => hm i h1 ?_, fun s hs => (h.2 s hs).congr fun i h1 h2 => ?_⟩
  · simp only [length_le, ENV] at h2 hsize
    omega
  · have hle := le_roundUp4 (ENV + s.length + 1)
    refine hm i (by omega) ?_
    rw [hs]
    simp only [length_append, length_singleton, Body.size] at h2 ⊢
    omega

lemma Layout.congr {m m' : Mem} {a : ℕ} {es : List Ent} (h : Layout m a es)
    (hm : ∀ i, a ≤ i → i < a + total es → m' i = m i) : Layout m' a es := by
  induction es generalizing a with
  | nil => trivial
  | cons e es ih =>
    refine ⟨h.1.congr fun i h1 h2 => hm i h1 ?_, ih h.2 fun i h1 h2 => hm i ?_ ?_⟩
    · simp only [total_cons]
      omega
    · omega
    · simp only [total_cons]
      omega

/-- A layout survives a store elsewhere. -/
theorem Layout.store {m : Mem} {a b : ℕ} {bs : List UInt8} {es : List Ent} (h : Layout m a es)
    (hd : b + bs.length ≤ a ∨ a + total es ≤ b) : Layout (m.store b bs) a es :=
  h.congr fun _ _ _ => Mem.store_of_not_mem (by omega)

/-! ### The heap -/

/-- What the heap holds. -/
structure Sh.Keeps (ctx : Sh) (es : List Ent) : Prop where
  layout : Layout ctx.mem 0 es
  ok : ∀ e ∈ es, e.Ok ctx.environ
  asep : ctx.asep = total es
  appended : ctx.appended = offsets 0 es
  le : ctx.asep ≤ ctx.hptr

section Keeps

variable {ctx : Sh} {es pre post : List Ent} {e : Ent}

/-- A string that is where it should be. -/
theorem str_of_holds {p : ℕ} {s : List UInt8} (h : ctx.mem.Holds p (s ++ [0])) (hs : 0 ∉ s)
    (hle : p + s.length + 1 ≤ ctx.hptr) : ctx.str p = s := by
  obtain ⟨k, hk⟩ : ∃ k, ctx.hptr - p = s.length + 1 + k := ⟨ctx.hptr - p - (s.length + 1), by omega⟩
  have hload := Mem.holds_iff_load.mp h
  rw [length_append, length_singleton] at hload
  have hne : ∀ x ∈ s, decide (x ≠ 0) = true :=
    fun x hx => decide_eq_true (ne_of_mem_of_not_mem hx hs)
  rw [str, hk, Mem.load_add, hload, append_assoc, takeWhile_append_of_pos hne]
  simp

lemma key_of_holds {a k : ℕ} (h : ctx.mem.Holds a (le 4 k)) (hk : k < 2 ^ 32) : ctx.key a = k := by
  have hle : le 4 k = le 2 k ++ le 2 (k / 65536) := by
    simp only [le, Nat.div_div_eq_div_mul, cons_append, nil_append]
  rw [hle, Mem.holds_append, length_le] at h
  have h1 := h.1.get16
  have h2 := h.2.get16
  rw [key, h1, h2]
  omega

section

variable (h : ctx.Keeps (pre ++ e :: post))
include h

lemma Sh.Keeps.at_entry : e.At ctx.mem (total pre) := by
  have := (layout_append.mp h.layout).2.1
  rwa [zero_add] at this

lemma Sh.Keeps.ok_entry : e.Ok ctx.environ :=
  h.ok e (by simp)

lemma Sh.Keeps.key_entry : ctx.key (total pre) = e.key :=
  key_of_holds h.at_entry.1 (Ent.key_lt h.ok_entry)

lemma Sh.Keeps.sizeOf_entry : sizeOf (ctx.key (total pre)) = e.body.size := by
  rw [h.key_entry, Ent.sizeOf_key h.ok_entry]

/-- **The value of an entry.** -/
theorem Sh.Keeps.envValue_entry {t : Mark} (ht : t ≠ .gone) :
    ctx.envValue (total pre) t.bits = if e.mark = t then some (e.text ctx.environ) else none := by
  have hok := h.ok_entry
  have hasep := h.asep
  have hle := h.le
  simp only [total_append, total_cons] at hasep
  unfold envValue
  simp only [h.key_entry, Ent.key_and_mark hok ht, Ent.key_and_ref hok, Ent.key_and_size hok]
  by_cases hm : e.mark = t
  · rw [if_neg (not_not.mpr hm), if_pos hm]
    rcases hb : e.body with s | idx
    · have hround := le_roundUp4 (ENV + s.length + 1)
      rw [hb] at hasep
      simp only [Body.size] at hasep
      have hstr : ctx.str (total pre + ENV) = s := by
        refine str_of_holds (h.at_entry.2 s hb) ?_ (by omega)
        unfold Ent.Ok at hok
        rw [hb] at hok
        exact hok.1
      rw [show (Body.text s).isRef = false from rfl, if_pos rfl, hstr, Ent.text, hb]
    · rw [if_neg (by simp [Body.isRef]), Ent.text, hb]
      rfl
  · rw [if_pos hm, if_neg hm]

/-- Where `env_next` goes from an entry. -/
theorem Sh.Keeps.envNext_entry :
    ctx.envNext (total pre) =
      if post = [] ∨ total post < e.body.size then none else some (total (pre ++ [e])) := by
  have hsize : 4 ≤ e.body.size := four_le_size e.body
  have hasep := h.asep
  simp only [total_append, total_cons] at hasep
  rw [envNext, h.sizeOf_entry, if_neg (by omega)]
  by_cases hpost : post = []
  · subst hpost
    rw [total_nil] at hasep
    rw [if_pos (by simp only [ENV]; omega), if_pos (.inl rfl)]
  · have hfour : 4 ≤ total post := four_le_total hpost
    rw [if_neg (by simp only [ENV]; omega)]
    by_cases hlt : total post < e.body.size
    · rw [if_pos (by omega), if_pos (.inr hlt)]
    · rw [if_neg (by omega), if_neg (by rintro (h | h) <;> contradiction)]
      simp

end

lemma Sh.Keeps.envFirst_eq (h : ctx.Keeps es) :
    ctx.envFirst = if es = [] then none else some 0 := by
  have hasep := h.asep
  rcases es with _ | ⟨e, es⟩
  · rw [envFirst, if_pos (by rw [hasep]; decide), if_pos rfl]
  · have hsize : 4 ≤ e.body.size := four_le_size e.body
    have hkey : sizeOf (ctx.key 0) = e.body.size :=
      Sh.Keeps.sizeOf_entry (show ctx.Keeps ([] ++ e :: es) from h)
    rw [total_cons] at hasep
    rw [envFirst, hkey, if_neg (by simp only [ENV]; omega), if_neg (by simp only [ENV]; omega),
      if_neg (by omega), if_neg (cons_ne_nil _ _)]

/-- Every entry from one on is met. -/
theorem envsFrom_eq {n : ℕ} (h : ctx.Keeps (pre ++ e :: post)) (hfits : Fits (e :: post))
    (hn : total (e :: post) ≤ n) :
    ctx.envsFrom n (some (total pre)) = offsets (total pre) (e :: post) := by
  induction post generalizing pre e n with
  | nil =>
    obtain ⟨k, rfl⟩ : ∃ k, n = k + 1 :=
      ⟨n - 1, by have hsize : 4 ≤ e.body.size := four_le_size e.body; simp at hn; omega⟩
    rw [envsFrom, h.envNext_entry, if_pos (.inl rfl), envsFrom]
    · rfl
    · exact fun _ _ _ => nofun
  | cons e' post ih =>
    have hsize : 4 ≤ e.body.size := four_le_size e.body
    obtain ⟨k, rfl⟩ : ∃ k, n = k + 1 := ⟨n - 1, by simp at hn; omega⟩
    obtain ⟨hle, hrest⟩ := hfits
    have hlt : ¬(e' :: post = [] ∨ total (e' :: post) < e.body.size) := by
      rcases hle with hnil | hle
      · cases hnil
      · rintro (hnil | hlt)
        · cases hnil
        · omega
    have h' : ctx.Keeps ((pre ++ [e]) ++ e' :: post) := by
      rwa [append_assoc]
    rw [envsFrom, h.envNext_entry, if_neg hlt, ih h' hrest (by simp at hn ⊢; omega)]
    simp [offsets]

/-- **The loops meet every entry once**, in order. -/
theorem envs_eq (h : ctx.Keeps es) (hfits : Fits es) : ctx.envs = offsets 0 es := by
  rw [envs, h.envFirst_eq]
  rcases es with _ | ⟨e, es⟩
  · rw [if_pos rfl, envsFrom]
    · rfl
    · exact fun _ _ _ => nofun
  · rw [if_neg (cons_ne_nil _ _)]
    exact envsFrom_eq (show ctx.Keeps ([] ++ e :: es) from h) hfits (le_of_eq h.asep.symm)

/-! ### Changing entries -/

/-- The same heap, but for what the entries hold. -/
structure Sh.Frame (ctx ctx' : Sh) : Prop where
  same : ctx' = { ctx with mem := ctx'.mem }
  args : ∀ i, ctx.asep ≤ i → ctx'.mem i = ctx.mem i

lemma Sh.Frame.refl (ctx : Sh) : ctx.Frame ctx := ⟨rfl, fun _ _ => rfl⟩

lemma Sh.Frame.trans {ctx ctx' ctx'' : Sh} (h : ctx.Frame ctx') (h' : ctx'.Frame ctx'') :
    ctx.Frame ctx'' := by
  have hasep : ctx'.asep = ctx.asep := by rw [h.same]
  refine ⟨?_, fun i hi => (h'.args i (by omega)).trans (h.args i hi)⟩
  rw [h'.same, h.same]

lemma Sh.Frame.str {ctx ctx' : Sh} (h : ctx.Frame ctx') {p : ℕ} (hp : ctx.asep ≤ p) :
    ctx'.str p = ctx.str p := by
  have hptr : ctx'.hptr = ctx.hptr := by rw [h.same]
  rw [Sh.str, Sh.str, hptr, Mem.load, Mem.load]
  congr 1
  exact map_congr_left fun i _ => h.args _ (by omega)

/-- An entry is given another mark. -/
theorem Sh.Keeps.setKey (h : ctx.Keeps (pre ++ e :: post)) {e' : Ent} (hbody : e'.body = e.body) :
    (ctx.setKey (total pre) e'.key).Keeps (pre ++ e' :: post) ∧
      ctx.Frame (ctx.setKey (total pre) e'.key) := by
  have hsize : 4 ≤ e.body.size := four_le_size e.body
  obtain ⟨hpre, hent, hpost⟩ := layout_append.mp h.layout
  have hasep := h.asep
  simp only [total_append, total_cons] at hasep
  rw [zero_add] at hent hpost
  refine ⟨⟨layout_append.mpr ⟨?_, ⟨?_, fun s hs => ?_⟩, ?_⟩, fun x hx => ?_, ?_, ?_, h.le⟩, rfl,
    fun i hi => Mem.store_of_not_mem ?_⟩
  · exact hpre.store (.inr (by omega))
  · rw [zero_add]
    exact Mem.holds_store _ _ _
  · rw [zero_add]
    refine (hent.2 s (hbody ▸ hs)).store (.inl ?_)
    rw [length_le]
    exact le_rfl
  · rw [zero_add, hbody]
    exact hpost.store (.inl (by rw [length_le]; omega))
  · rcases mem_append.mp hx with hx | hx
    · exact h.ok x (by simp [hx])
    · rcases mem_cons.mp hx with rfl | hx
      · have hok := h.ok_entry
        unfold Ent.Ok at hok ⊢
        rw [hbody]
        exact hok
      · exact h.ok x (by simp [hx])
  · show ctx.asep = _
    rw [hasep, total_append, total_cons, hbody]
  · show ctx.appended = _
    rw [h.appended, offsets_append, offsets_append, offsets, offsets, hbody]
  · rw [length_le]
    have hi' : ctx.asep ≤ i := hi
    omega

variable {f : Sh → ℕ → Sh}

/-- What a loop does to the entries, if `f` gives them other marks. -/
theorem forEnvs_from {g : Ent → Ent} {ctx0 : Sh}
    (hg : ∀ e, (g e).body = e.body)
    (hf : ∀ ctx pre e post, ctx0.Frame ctx → ctx.Keeps (pre ++ e :: post) →
      (f ctx (total pre) = ctx ∧ g e = e) ∨ f ctx (total pre) = ctx.setKey (total pre) (g e).key)
    {n : ℕ} (hframe : ctx0.Frame ctx) (h : ctx.Keeps (pre ++ e :: post)) (hfits : Fits (e :: post))
    (hn : total (e :: post) ≤ n) :
    (forEnvs f n (some (total pre)) ctx).Keeps (pre ++ (e :: post).map g) ∧
      ctx0.Frame (forEnvs f n (some (total pre)) ctx) := by
  induction post generalizing pre e n ctx with
  | nil =>
    have hsize : 4 ≤ e.body.size := four_le_size e.body
    obtain ⟨k, rfl⟩ : ∃ k, n = k + 1 := ⟨n - 1, by simp at hn; omega⟩
    have hone : (f ctx (total pre)).Keeps (pre ++ [g e]) ∧ ctx0.Frame (f ctx (total pre)) := by
      rcases hf ctx pre e [] hframe h with ⟨hf, hge⟩ | hf
      · rw [hf, hge]
        exact ⟨h, hframe⟩
      · rw [hf]
        exact ⟨(h.setKey (hg e)).1, hframe.trans (h.setKey (hg e)).2⟩
    rw [forEnvs, hone.1.envNext_entry, if_pos (.inl rfl), forEnvs]
    · exact hone
    · exact fun _ _ _ => nofun
  | cons e' post ih =>
    have hsize : 4 ≤ e.body.size := four_le_size e.body
    obtain ⟨k, rfl⟩ : ∃ k, n = k + 1 := ⟨n - 1, by simp at hn; omega⟩
    obtain ⟨hle, hrest⟩ := hfits
    have hone : (f ctx (total pre)).Keeps (pre ++ g e :: e' :: post) ∧
        ctx0.Frame (f ctx (total pre)) := by
      rcases hf ctx pre e (e' :: post) hframe h with ⟨hf, hge⟩ | hf
      · rw [hf, hge]
        exact ⟨h, hframe⟩
      · rw [hf]
        exact ⟨(h.setKey (hg e)).1, hframe.trans (h.setKey (hg e)).2⟩
    have hlt : ¬(e' :: post = [] ∨ total (e' :: post) < (g e).body.size) := by
      rw [hg]
      rcases hle with hnil | hle
      · cases hnil
      · rintro (hnil | hlt)
        · cases hnil
        · omega
    have h' : (f ctx (total pre)).Keeps ((pre ++ [g e]) ++ e' :: post) := by
      rw [append_assoc]
      exact hone.1
    have := ih hone.2 h' hrest (n := k) (by simp at hn ⊢; omega)
    rw [forEnvs, hone.1.envNext_entry, if_neg hlt]
    simpa using this

/-- **A loop reaches every entry**, and changes nothing else. -/
theorem forEnvs_keeps {g : Ent → Ent} (hg : ∀ e, (g e).body = e.body)
    (hf : ∀ ctx' pre e post, ctx.Frame ctx' → ctx'.Keeps (pre ++ e :: post) →
      (f ctx' (total pre) = ctx' ∧ g e = e) ∨
        f ctx' (total pre) = ctx'.setKey (total pre) (g e).key)
    (h : ctx.Keeps es) (hfits : Fits es) :
    (forEnvs f ctx.asep ctx.envFirst ctx).Keeps (es.map g) ∧
      ctx.Frame (forEnvs f ctx.asep ctx.envFirst ctx) := by
  rw [h.envFirst_eq]
  rcases es with _ | ⟨e, es⟩
  · rw [if_pos rfl, forEnvs]
    · exact ⟨h, .refl ctx⟩
    · exact fun _ _ _ => nofun
  · rw [if_neg (cons_ne_nil _ _)]
    exact forEnvs_from hg hf (.refl ctx) (show ctx.Keeps ([] ++ e :: es) from h) hfits
      (le_of_eq h.asep.symm)

/-- A loop that has nothing to change, however far it gets. -/
theorem forEnvs_idle
    (hf : ∀ pre e post, es = pre ++ e :: post → f ctx (total pre) = ctx) (h : ctx.Keeps es) :
    forEnvs f ctx.asep ctx.envFirst ctx = ctx := by
  have hgen : ∀ (n : ℕ) (pre post : List Ent) (e : Ent), es = pre ++ e :: post →
      forEnvs f n (some (total pre)) ctx = ctx := by
    intro n
    induction n with
    | zero =>
      intro pre post e _
      rw [forEnvs]
      exact fun _ _ h => nomatch h
    | succ n ih =>
      intro pre post e hes
      have h' : ctx.Keeps (pre ++ e :: post) := hes ▸ h
      rw [forEnvs, hf pre e post hes, h'.envNext_entry]
      split
      · rw [forEnvs]
        exact fun _ _ _ => nofun
      · rename_i hcond
        rcases post with _ | ⟨e', post⟩
        · exact absurd (.inl rfl) hcond
        · exact ih (pre ++ [e]) post e' (by simp [hes])
  rw [h.envFirst_eq]
  rcases es with _ | ⟨e, es⟩
  · rw [if_pos rfl, forEnvs]
    exact fun _ _ _ => nofun
  · rw [if_neg (cons_ne_nil _ _)]
    exact hgen _ [] es e rfl

end Keeps

end Minibase.Msh
