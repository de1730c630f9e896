import Minibase.Lib.Memory

/-!
# Rings

A ring of `n` bytes is written by pieces that go where the last one has ended, and around to the
start again. It keeps the last `n` bytes of all that has been written (`Mem.Keeps`), as long as
no piece is longer than the ring (`Mem.Keeps.write`), and they are read in the right order in
two parts (`Mem.Keeps.unroll`), through a list of parts of the memory, `Iovec`.
-/

namespace Minibase

open List

/-- `struct iovec`: where a part of a memory starts, and how long it is. -/
structure Iovec where
  base : ℕ
  len : ℕ
deriving DecidableEq, Repr

namespace Mem

/-- Some bytes, put into parts of the memory one after the other. -/
def scatter (m : Mem) : List Iovec → List UInt8 → Mem
  | [], _ => m
  | v :: iov, bs => (m.store v.base (bs.take v.len)).scatter iov (bs.drop v.len)

/-- What parts of the memory hold, one after the other. -/
def gather (m : Mem) (iov : List Iovec) : List UInt8 := iov.flatMap fun v => m.load v.base v.len

/-- **The ring has the last `n` bytes** of what has been written, each in the place of its
number. -/
def Keeps (m : Mem) (n : ℕ) (written : List UInt8) : Prop :=
  ∀ i (h : i < written.length), written.length ≤ i + n → m (i % n) = written[i]

variable {m : Mem} {n : ℕ} {written bs : List UInt8}

lemma keeps_nil (m : Mem) (n : ℕ) : m.Keeps n [] := fun _ h => nomatch h

/-- A part of no length is as good as none. -/
theorem scatter_empty (m : Mem) (a b : ℕ) (bs : List UInt8) :
    m.scatter [⟨a, n⟩, ⟨b, 0⟩] bs = m.scatter [⟨a, n⟩] bs := by
  simp [scatter]

/-- What the place of a byte is after a piece has been written: the place of one of its bytes,
or what it was. -/
theorem scatter_around {off : ℕ} (hoff : off < n) (hlen : bs.length ≤ n) {k : ℕ} (hk : k < n) :
    m.scatter [⟨off, n - off⟩, ⟨0, off⟩] bs ((off + k) % n) =
      if h : k < bs.length then bs[k] else m ((off + k) % n) := by
  simp only [scatter]
  rcases lt_or_ge (off + k) n with hlt | hge
  · -- before the end of the ring, where the second part does not get to
    have htail : (bs.drop (n - off)).length ≤ off := by
      rw [length_drop]
      omega
    rw [Nat.mod_eq_of_lt hlt, store_of_not_mem (by
      rw [length_take]
      omega)]
    split_ifs with h
    · have hmem : k < (bs.take (n - off)).length := by
        rw [length_take]
        omega
      rw [store_of_lt hmem, getElem_take]
    · rw [store_of_not_mem (by
        rw [length_take]
        omega)]
  · -- around it
    have hmod : (off + k) % n = off + k - n := by
      rw [Nat.mod_eq_sub_mod hge, Nat.mod_eq_of_lt (by omega)]
    rw [hmod]
    split_ifs with h
    · have hmem : off + k - n < ((bs.drop (n - off)).take off).length := by
        rw [length_take, length_drop]
        omega
      have hstore := store_of_lt (m := m.store off (bs.take (n - off))) (a := 0) hmem
      rw [zero_add] at hstore
      rw [hstore, getElem_take, getElem_drop]
      congr 1
      omega
    · rw [store_of_not_mem, store_of_not_mem]
      · rw [length_take]
        omega
      · rw [length_take, length_drop]
        omega

/-- **A piece is written**, where the last one has ended. -/
theorem Keeps.write (hm : m.Keeps n written) (hn : 0 < n) (hlen : bs.length ≤ n) :
    (m.scatter [⟨written.length % n, n - written.length % n⟩, ⟨0, written.length % n⟩] bs).Keeps n
      (written ++ bs) := by
  intro i hi hnear
  rw [length_append] at hi hnear
  have hoff : written.length % n < n := Nat.mod_lt _ hn
  rcases lt_or_ge i written.length with hold | hnew
  · -- an old byte, whose place is not one of those that are written to
    have hk : n - (written.length - i) < n := by omega
    have hplace : i % n = (written.length % n + (n - (written.length - i))) % n := by
      rw [Nat.mod_add_mod, show written.length + (n - (written.length - i)) = i + n by omega,
        Nat.add_mod_right]
    rw [hplace, scatter_around hoff hlen hk, dif_neg (by omega), ← hplace, getElem_append_left hold]
    exact hm i hold (by omega)
  · obtain ⟨k, rfl⟩ := Nat.exists_eq_add_of_le hnew
    have hk : k < bs.length := by omega
    rw [getElem_append_right hnew, ← Nat.mod_add_mod,
      scatter_around hoff hlen (by omega), dif_pos hk]
    simp

/-- The ring is read while it is not full. -/
theorem Keeps.load (hm : m.Keeps n written) (hlen : written.length ≤ n) :
    m.load 0 written.length = written := by
  refine (holds_iff_load (m := m)).mp fun i hi => ?_
  have hplace := hm i hi (by omega)
  rw [Nat.mod_eq_of_lt (by omega)] at hplace
  rw [zero_add, hplace]

/-- **The ring is read** once it is full. -/
theorem Keeps.unroll (hm : m.Keeps n written) (hn : 0 < n) (hlen : n ≤ written.length) :
    m.gather [⟨written.length % n, n - written.length % n⟩, ⟨0, written.length % n⟩] =
      written.drop (written.length - n) := by
  have hoff : written.length % n < n := Nat.mod_lt _ hn
  have hdiv := Nat.div_add_mod written.length n
  simp only [gather, flatMap_cons, flatMap_nil, append_nil]
  refine ext_getElem ?_ fun i h1 h2 => ?_
  · rw [length_append, length_load, length_load, length_drop]
    omega
  · rw [length_append, length_load, length_load] at h1
    have hplace : (written.length - n + i) % n = (written.length % n + i) % n := by
      rw [Nat.mod_eq_sub_mod hlen, Nat.mod_add_mod]
    rw [getElem_drop, ← hm _ _ (by omega), hplace]
    rcases lt_or_ge i (n - written.length % n) with hfirst | hsecond
    · have hplain : written.length % n + i < n := by omega
      rw [getElem_append_left (by rwa [length_load]), getElem_load, Nat.mod_eq_of_lt hplain]
    · have hwrap : (written.length % n + i) % n = i - (n - written.length % n) := by
        rw [Nat.mod_eq_sub_mod (by omega), Nat.mod_eq_of_lt (by omega)]
        omega
      rw [getElem_append_right (by rwa [length_load]), getElem_load, hwrap, length_load, zero_add]

end Mem

end Minibase
