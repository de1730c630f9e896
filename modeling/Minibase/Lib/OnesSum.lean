import Mathlib.Algebra.BigOperators.Group.List.Basic
import Mathlib.Data.UInt

/-!
# Sums in one's complement

The checksum of internet packets: sixteen-bit words are added, with what is carried out at the
top added at the bottom (`onesSum`). It is the same to take care of the carries in the end
(`onesSum_eq`), twice for a sum of thirty-two bits (`carried_carried`). With its complement
added, any sum comes to sixteen ones (`settled_add_compl`).
-/

namespace Minibase

/-- The words of some bytes. The last one is filled up with zeros. -/
def words : List UInt8 → List ℕ
  | a :: b :: l => (a.toNat * 256 + b.toNat) :: words l
  | [a] => [a.toNat * 256]
  | [] => []

/-- The sum of two words. -/
def onesAdd (a b : ℕ) : ℕ := if a + b < 65536 then a + b else a + b - 65535

/-- **The sum of words.** -/
def onesSum (ws : List ℕ) : ℕ := ws.foldl onesAdd 0

variable (n : ℕ)

/-- A number with all carries taken care of. -/
def settled : ℕ := if n = 0 then 0 else (n - 1) % 65535 + 1

/-- A number with what does not fit into sixteen bits added to what does. -/
def carried : ℕ := n % 65536 + n / 65536

lemma words_lt {l : List UInt8} {w : ℕ} (h : w ∈ words l) : w < 65536 := by
  fun_induction words l with
  | case1 a b l ih =>
    have ha := a.toNat_lt
    have hb := b.toNat_lt
    rcases List.mem_cons.mp h with rfl | h
    · omega
    · exact ih h
  | case2 a =>
    have ha := a.toNat_lt
    obtain rfl := List.mem_singleton.mp h
    omega
  | case3 => exact absurd h List.not_mem_nil

lemma settled_le : settled n ≤ 65535 := by
  rw [settled]
  split_ifs <;> omega

lemma onesAdd_settled {w : ℕ} (hw : w < 65536) : onesAdd (settled n) w = settled (n + w) := by
  rw [onesAdd, settled, settled]
  split_ifs <;> omega

/-- **Carries can wait.** -/
theorem onesSum_eq {ws : List ℕ} (h : ∀ w ∈ ws, w < 65536) : onesSum ws = settled ws.sum := by
  have hfold : ∀ n, ws.foldl onesAdd (settled n) = settled (n + ws.sum) := by
    induction ws with
    | nil => exact fun n => rfl
    | cons w ws ih =>
      obtain ⟨hw, hws⟩ := List.forall_mem_cons.mp h
      intro n
      rw [List.foldl_cons, onesAdd_settled n hw, ih hws, List.sum_cons, add_assoc]
  have hzero := hfold 0
  rwa [zero_add] at hzero

/-- **Twice is enough** for thirty-two bits. -/
theorem carried_carried {n : ℕ} (h : n < 2 ^ 32) : carried (carried n) = settled n := by
  rw [carried, carried, settled]
  split_ifs <;> omega

/-- **A sum and its complement.** -/
theorem settled_add_compl : settled (n + (65535 - settled n)) = 65535 := by
  obtain rfl | hn := Nat.eq_zero_or_pos n
  · rfl
  · have hs : settled n = (n - 1) % 65535 + 1 := if_neg (ne_of_gt hn)
    rw [hs, settled, if_neg (by omega)]
    omega

lemma settled_eq_iff : settled n = 65535 ↔ 0 < n ∧ 65535 ∣ n := by
  obtain rfl | hn := Nat.eq_zero_or_pos n
  · exact iff_of_false (by decide) fun h => absurd h.1 (lt_irrefl 0)
  · rw [settled, if_neg (ne_of_gt hn)]
    constructor
    · exact fun h => ⟨hn, by omega⟩
    · rintro ⟨-, k, rfl⟩
      omega

end Minibase
