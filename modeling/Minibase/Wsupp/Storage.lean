import Minibase.Wsupp.Scans

/-!
# Blocks of information elements

The blocks of information elements should not run into one another: each is below `hp.ptr`, no two
of them overlap (`Wsupp.Table.Tidy`), and storing one leaves all others as they were
(`Wsupp.Table.Spares`). A block for a station that has none, or one that is shorter than the old
one, goes to the end of the heap. One that is not shorter is copied over the old one, and that is
right only if it is not longer either (`Wsupp.Table.Grows`, `Wsupp.Table.neighbour_clobbered`,
`Wsupp.Table.storage_intact`).
-/

namespace Minibase.Wsupp

namespace Table

open List Option

/-! ### What is asked -/

/-- **The blocks are in order**: below `hp.ptr`, and apart from each other. Slots that are not
in use have none. -/
structure Tidy (t : Table) : Prop where
  unused : ∀ i : Fin NSCANS, t.nscans ≤ i → (t.scans i).ies = none
  below : ∀ i a, (t.scans i).ies = some a → a + (t.scans i).ieslen.toNat ≤ t.ptr
  apart : ∀ i j a b, i ≠ j → (t.scans i).ies = some a → (t.scans j).ies = some b →
    a + (t.scans i).ieslen.toNat ≤ b ∨ b + (t.scans j).ieslen.toNat ≤ a

/-- The information elements recorded for a slot. -/
def content (t : Table) (i : Fin NSCANS) : Option (List UInt8) :=
  (t.scans i).ies.map fun a => t.mem.load a (t.scans i).ieslen.toNat

/-- **Storing a result leaves all other slots alone**, and what is recorded for them. -/
def Spares (t : Table) : Change → Prop
  | .result grant r => ∀ i, (t.grabScanSlot r.bssid).map Prod.fst ≠ some i →
      (t.parseScanResult grant r).scans i = t.scans i ∧
      (t.parseScanResult grant r).content i = t.content i
  | _ => True

/-- **The case that goes wrong**: the station is known, and its new block is longer than the
old one. -/
def Grows (t : Table) : Change → Prop
  | .result _ r => ∃ i data, t.findScanSlot r.bssid = some i ∧ r.ies = some data ∧
      (t.scans i).ies ≠ none ∧ (t.scans i).ieslen.toNat < data.val.length
  | _ => False

/-! ### Changing one slot -/

variable {t : Table} {i j : Fin NSCANS}

lemma set_scans_self (sc : Slot) : (t.set i sc).scans i = sc := Function.update_self ..

lemma set_scans_ne (h : j ≠ i) (sc : Slot) : (t.set i sc).scans j = t.scans j :=
  Function.update_of_ne h ..

variable {sc : Slot} {t' : Table}

/-- A slot without a block is no harm. -/
theorem Tidy.set_none (h : t.Tidy) (hs : sc.ies = none) : (t.set i sc).Tidy := by
  refine ⟨fun j hj => ?_, fun j a ha => ?_, fun j k a b hjk ha hb => ?_⟩
  · by_cases hji : j = i
    · rw [hji, set_scans_self, hs]
    · rw [set_scans_ne hji]
      exact h.unused j hj
  · by_cases hji : j = i
    · rw [hji, set_scans_self, hs] at ha
      cases ha
    · rw [set_scans_ne hji] at ha ⊢
      exact h.below j a ha
  · by_cases hji : j = i
    · rw [hji, set_scans_self, hs] at ha
      cases ha
    · by_cases hki : k = i
      · rw [hki, set_scans_self, hs] at hb
        cases hb
      · rw [set_scans_ne hji] at ha ⊢
        rw [set_scans_ne hki] at hb ⊢
        exact h.apart j k a b hjk ha hb

/-- Nor is one that keeps its block. -/
theorem Tidy.set_same (h : t.Tidy) (hs : sc.ies = (t.scans i).ies)
    (hl : sc.ieslen = (t.scans i).ieslen) : (t.set i sc).Tidy := by
  have hies : ∀ j, ((t.set i sc).scans j).ies = (t.scans j).ies := by
    intro j
    by_cases hji : j = i
    · rw [hji, set_scans_self, hs]
    · rw [set_scans_ne hji]
  have hlen : ∀ j, ((t.set i sc).scans j).ieslen = (t.scans j).ieslen := by
    intro j
    by_cases hji : j = i
    · rw [hji, set_scans_self, hl]
    · rw [set_scans_ne hji]
  refine ⟨fun j hj => ?_, fun j a ha => ?_, fun j k a b hjk ha hb => ?_⟩
  · rw [hies]
    exact h.unused j hj
  · rw [hies] at ha
    rw [hlen]
    exact h.below j a ha
  · rw [hies] at ha hb
    rw [hlen, hlen]
    exact h.apart j k a b hjk ha hb

/-- **A block at the end of the heap** is below the new `hp.ptr` and apart from the others. -/
theorem Tidy.set_new (h : t.Tidy) (hi : (i : ℕ) < t.nscans) {n : ℕ} (hs : sc.ies = some t.ptr)
    (hl : sc.ieslen.toNat = n) (ht : t'.scans = t.scans) (hn : t'.nscans = t.nscans)
    (hp : t'.ptr = t.ptr + n) : (t'.set i sc).Tidy := by
  have hne : ∀ {j}, j ≠ i → (t'.set i sc).scans j = t.scans j := fun hj => by
    rw [set_scans_ne hj, ht]
  have hptr : (t'.set i sc).ptr = t.ptr + n := hp
  refine ⟨fun j hj => ?_, fun j a ha => ?_, fun j k a b hjk ha hb => ?_⟩
  · have hji : j ≠ i := by
      rintro rfl
      have hj' : t.nscans ≤ j := hn ▸ hj
      omega
    rw [hne hji]
    exact h.unused j (hn ▸ hj)
  · by_cases hji : j = i
    · rw [hji, set_scans_self] at ha ⊢
      rw [hs] at ha
      cases ha
      rw [hptr, hl]
    · rw [hne hji] at ha ⊢
      have := h.below j a ha
      omega
  · by_cases hji : j = i
    · have hki : k ≠ i := fun hk => hjk (hji.trans hk.symm)
      rw [hji, set_scans_self, hs] at ha
      rw [hne hki] at hb ⊢
      cases ha
      exact .inr (h.below k b hb)
    · by_cases hki : k = i
      · rw [hki, set_scans_self, hs] at hb
        rw [hne hji] at ha ⊢
        cases hb
        exact .inl (h.below j a ha)
      · rw [hne hji] at ha ⊢
        rw [hne hki] at hb ⊢
        exact h.apart j k a b hjk ha hb

/-! ### One step -/

/-- What is done to the memory is no matter. -/
theorem Tidy.with_mem (h : t.Tidy) (m : Mem) : Tidy { t with mem := m } :=
  ⟨h.unused, h.below, h.apart⟩

lemma mem_used (h : i ∈ t.used) : (i : ℕ) < t.nscans := by
  simpa using (mem_filter.mp h).2

/-- **The slot for a result** is in use, and either it is the one of that station or it has no
block. Nothing else is touched. -/
theorem grabScanSlot_spec {bssid : Bytes 6} (h : t.Tidy)
    (hg : t.grabScanSlot bssid = some (i, t')) :
    t'.Tidy ∧ (i : ℕ) < t'.nscans ∧ t'.mem = t.mem ∧ (∀ j, j ≠ i → t'.scans j = t.scans j) ∧
      (t.findScanSlot bssid = some i ∧ t' = t ∨ (t'.scans i).ies = none) := by
  rw [grabScanSlot] at hg
  split at hg
  · rename_i k hk
    obtain ⟨rfl, rfl⟩ : k = i ∧ t = t' := by simpa using hg
    exact ⟨h, mem_used (mem_of_find?_eq_some hk), rfl, fun _ _ => rfl, .inl ⟨hk, rfl⟩⟩
  · split at hg
    · rename_i r hr
      cases hg
      rw [grabSlot] at hr
      split at hr
      · rename_i k hk
        obtain ⟨rfl, rfl⟩ : k = i ∧ t = t' := by simpa using hr
        have hz : t.scans k = Slot.zero := by simpa using find?_some hk
        exact ⟨h, mem_used (mem_of_find?_eq_some hk), rfl, fun _ _ => rfl, .inr (by rw [hz]; rfl)⟩
      · split at hr
        · rename_i hn
          obtain ⟨rfl, rfl⟩ : ⟨t.nscans, hn⟩ = i ∧ { t with nscans := t.nscans + 1 } = t' := by
            simpa using hr
          refine ⟨⟨fun j hj => h.unused j (Nat.le_of_succ_le hj), h.below, h.apart⟩,
            Nat.lt_succ_self _, rfl, fun _ _ => rfl, .inr (h.unused _ (Nat.le_refl _))⟩
        · cases hr
    · split at hg
      · rename_i k hk
        obtain ⟨rfl, rfl⟩ : k = i ∧ t.set k Slot.zero = t' := by simpa using hg
        exact ⟨h.set_none rfl, mem_used (mem_of_find?_eq_some hk), rfl,
          fun j hj => set_scans_ne hj _, .inr (by rw [set_scans_self]; rfl)⟩
      · cases hg

/-- Whatever is stored apart from a block leaves the block alone. -/
theorem content_store {a : ℕ} {bs : List UInt8} (hs : t'.scans j = t.scans j)
    (hm : t'.mem = t.mem.store a bs) (hd : ∀ b, (t.scans j).ies = some b →
      a + bs.length ≤ b ∨ b + (t.scans j).ieslen.toNat ≤ a) : t'.content j = t.content j := by
  rw [content, content, hs, hm]
  cases hj : (t.scans j).ies with
  | none => rfl
  | some b =>
    have hb := hd b hj
    rw [map_some, map_some, Mem.load, Mem.load]
    congr 1
    refine map_congr_left fun k hk => ?_
    have hk' := mem_range.mp hk
    exact Mem.store_of_not_mem (by omega)

/-- **Storing information elements**: a block that is not longer than the one it replaces
keeps the heap in order and all other blocks as they were. -/
theorem storeIes_spec (grant : Bool) {data : List UInt8} (h : t.Tidy) (hi : (i : ℕ) < t.nscans)
    (hd : data.length < 65536)
    (hg : ∀ a, (t.scans i).ies = some a → data.length ≤ (t.scans i).ieslen.toNat) :
    (t.storeIes grant i data).Tidy ∧ ∀ j, j ≠ i →
      (t.storeIes grant i data).scans j = t.scans j ∧
      (t.storeIes grant i data).content j = t.content j := by
  have hlen : (UInt16.ofNat data.length).toNat = data.length := by
    rw [UInt16.toNat_ofNat']
    exact Nat.mod_eq_of_lt hd
  rw [storeIes]
  split
  · -- in place, and then the lengths are equal
    rename_i a ha
    obtain ⟨hies, hle⟩ : (t.scans i).ies = some a ∧ (t.scans i).ieslen.toNat ≤ data.length := by
      rw [inPlace] at ha
      split at ha
      · rename_i b hb
        split at ha
        · rename_i hle
          cases ha
          exact ⟨hb, hle⟩
        · cases ha
      · cases ha
    have heq : data.length = (t.scans i).ieslen.toNat := le_antisymm (hg a hies) hle
    refine ⟨Tidy.set_same (h.with_mem _) rfl (UInt16.toNat_inj.mp (hlen.trans heq)), fun j hj => ?_⟩
    have hs : (({ t with mem := t.mem.store a data }).set i
        { t.scans i with ieslen := UInt16.ofNat data.length }).scans j = t.scans j :=
      set_scans_ne hj _
    refine ⟨hs, content_store hs rfl fun b hb => ?_⟩
    rw [heq]
    exact h.apart i j a b hj.symm hies hb
  · split
    · -- at the end of the heap
      rename_i a t' ht
      obtain ⟨u, hu, rfl, rfl⟩ : ∃ u, t.extendHeap grant data.length = some u ∧ u.ptr = a ∧
          { u with ptr := u.ptr + data.length, mem := u.mem.store u.ptr data } = t' := by
        rw [heapStore] at ht
        split at ht
        · cases ht
        · rename_i u hu
          exact ⟨u, hu, by simpa using ht⟩
      obtain ⟨hus, hun, hum, hup⟩ : u.scans = t.scans ∧ u.nscans = t.nscans ∧ u.mem = t.mem ∧
          u.ptr = t.ptr := by
        rw [extendHeap] at hu
        split at hu
        · cases hu
          exact ⟨rfl, rfl, rfl, rfl⟩
        · split at hu
          · cases hu
            exact ⟨rfl, rfl, rfl, rfl⟩
          · cases hu
      refine ⟨h.set_new hi (by rw [hup]) hlen hus hun (by rw [hup]), fun j hj => ?_⟩
      have hs := (set_scans_ne (t := { u with ptr := u.ptr + data.length
                                              mem := u.mem.store u.ptr data }) hj
        { u.scans i with ies := some u.ptr, ieslen := UInt16.ofNat data.length }).trans
          (congrFun hus j)
      have hm : u.mem.store u.ptr data = t.mem.store t.ptr data := by rw [hum, hup]
      exact ⟨hs, content_store hs hm fun b hb => .inr (h.below j b hb)⟩
    · exact ⟨h, fun _ _ => ⟨rfl, rfl⟩⟩

/-- A result for a station that does not grow does no harm. -/
theorem parseScanResult_spec {r : Result} {grant : Bool} (h : t.Tidy)
    (hg : ¬t.Grows (.result grant r)) :
    (t.parseScanResult grant r).Tidy ∧ t.Spares (.result grant r) := by
  rw [Spares]
  cases hs : t.grabScanSlot r.bssid with
  | none =>
    have he : t.parseScanResult grant r = t := by rw [parseScanResult, hs]
    rw [he]
    exact ⟨h, fun _ _ => ⟨rfl, rfl⟩⟩
  | some p =>
    obtain ⟨i, u⟩ := p
    obtain ⟨hu, hi, hmem, hoth, hown⟩ := grabScanSlot_spec h hs
    generalize hv : u.set i { u.scans i with
      bssid := r.bssid
      freq := r.freq.toUInt32.toUInt16
      signal := r.signal.toInt16
      flags := (u.scans i).flags &&& ~~~SF_STALE } = v
    have htidy : v.Tidy := hv ▸ hu.set_same rfl rfl
    have hvi : (v.scans i).ies = (u.scans i).ies ∧ (v.scans i).ieslen = (u.scans i).ieslen := by
      rw [← hv, set_scans_self]
      exact ⟨rfl, rfl⟩
    have hvn : (i : ℕ) < v.nscans := hv ▸ hi
    have hvo : ∀ j, j ≠ i → v.scans j = t.scans j ∧ v.content j = t.content j := by
      intro j hj
      have hvj : v.scans j = t.scans j := by rw [← hv, set_scans_ne hj, hoth j hj]
      have hvm : v.mem = t.mem := by rw [← hmem, ← hv]; rfl
      exact ⟨hvj, by rw [content, content, hvj, hvm]⟩
    have hne : ∀ j, Option.map Prod.fst (some (i, u)) ≠ some j → j ≠ i :=
      fun j hj hji => hj (hji ▸ rfl)
    cases hd : r.ies with
    | none =>
      have he : t.parseScanResult grant r = v := by rw [parseScanResult, hs, hd, ← hv]
      rw [he]
      exact ⟨htidy, fun j hj => hvo j (hne j hj)⟩
    | some data =>
      have he : t.parseScanResult grant r = v.storeIes grant i data.val := by
        rw [parseScanResult, hs, hd, ← hv]
      -- an old block is there only if the station was found
      have hlen : ∀ a, (v.scans i).ies = some a → data.val.length ≤ (v.scans i).ieslen.toNat := by
        intro a ha
        rcases hown with ⟨hf, rfl⟩ | hnone
        · by_contra hlt
          rw [hvi.2] at hlt
          exact hg ⟨i, data, hf, hd, by rw [← hvi.1, ha]; exact some_ne_none a,
            Nat.lt_of_not_le hlt⟩
        · rw [hvi.1, hnone] at ha
          cases ha
      obtain ⟨h1, h2⟩ := storeIes_spec grant htidy hvn data.property hlen
      rw [he]
      refine ⟨h1, fun j hj => ?_⟩
      obtain ⟨h3, h4⟩ := h2 j (hne j hj)
      obtain ⟨h5, h6⟩ := hvo j (hne j hj)
      exact ⟨h3.trans h5, h4.trans h6⟩

/-- The slots that are dropped are empty. -/
theorem shrink_spec (scans : Fin NSCANS → Slot) (n : ℕ) (i : Fin NSCANS)
    (h : shrink scans n ≤ i) (hi : (i : ℕ) < n) : scans i = Slot.zero := by
  induction n with
  | zero => omega
  | succ n ih =>
    rw [shrink] at h
    split at h
    · split at h
      · rename_i hn hz
        by_cases hin : (i : ℕ) = n
        · have : i = ⟨n, hn⟩ := Fin.ext hin
          rw [this]
          exact hz
        · exact ih h (by omega)
      · omega
    · omega

lemma freeScanSlot_tidy (h : t.Tidy) : (t.freeScanSlot i).Tidy := by
  have hs : (t.set i Slot.zero).Tidy := h.set_none rfl
  refine ⟨fun j hj => ?_, hs.below, hs.apart⟩
  by_cases hjn : (j : ℕ) < t.nscans
  · have hz := shrink_spec (t.set i Slot.zero).scans t.nscans j hj hjn
    exact congrArg Slot.ies hz
  · exact hs.unused j (Nat.le_of_not_lt hjn)

/-- A table without any blocks is in order. -/
theorem tidy_of_none (h : ∀ i, (t.scans i).ies = none) : t.Tidy := by
  refine ⟨fun i _ => h i, fun i a ha => ?_, fun i j a b _ ha => ?_⟩
  · rw [h i] at ha
    cases ha
  · rw [h i] at ha
    cases ha

lemma resetIesData_tidy (h : t.Tidy) : (t.resetIesData).Tidy := by
  refine tidy_of_none fun i => ?_
  rw [resetIesData, resetHeap]
  dsimp only
  split
  · rfl
  · rename_i hi
    exact h.unused i (Nat.le_of_not_lt hi)

lemma maybeTrimHeap_tidy (h : t.Tidy) : t.maybeTrimHeap.Tidy := by
  rw [maybeTrimHeap]
  split
  · exact h
  · exact ⟨h.unused, h.below, h.apart⟩

/-- **One step**: whatever is done to the table, its blocks stay in order and a result leaves
alone what is not its own, unless a block grows. -/
theorem next_spec {c : Change} (h : t.Tidy) (hg : ¬t.Grows c) : (t.next c).Tidy ∧ t.Spares c := by
  cases c with
  | result grant r => exact parseScanResult_spec h hg
  | reset => exact ⟨resetIesData_tidy h, trivial⟩
  | free i => exact ⟨freeScanSlot_tidy h, trivial⟩
  | trim => exact ⟨maybeTrimHeap_tidy h, trivial⟩
  | clear => exact ⟨maybeTrimHeap_tidy (tidy_of_none fun _ => rfl), trivial⟩
  | flag i flags =>
    refine ⟨?_, trivial⟩
    rw [next]
    split
    · exact h.set_same rfl rfl
    · exact h

/-! ### Runs -/

/-- **The blocks stay in order and are left alone**, in every sequence of changes none of
which is a result with a block that grows. -/
theorem storage_intact (l : List Change)
    (h : ∀ a c b, l = a ++ c :: b → ¬(init.after a).Grows c) :
    (init.after l).Tidy ∧ ∀ a c b, l = a ++ c :: b → (init.after a).Spares c := by
  induction l using reverseRecOn with
  | nil =>
    refine ⟨tidy_of_none fun _ => rfl, fun a c b hl => ?_⟩
    cases a <;> cases hl
  | append_singleton l c ih =>
    have hpre : ∀ a d b, l = a ++ d :: b → l ++ [c] = a ++ d :: (b ++ [c]) := by
      rintro a d b rfl
      rw [append_assoc, cons_append]
    obtain ⟨htidy, hsp⟩ := ih fun a d b hl => h a d (b ++ [c]) (hpre a d b hl)
    obtain ⟨hnext, hc⟩ := next_spec htidy (h l c [] rfl)
    refine ⟨by rw [after_concat]; exact hnext, fun a d b hl => ?_⟩
    -- the change is the last one, or one of those before it
    rcases eq_nil_or_concat b with rfl | ⟨b, e, rfl⟩
    · obtain ⟨rfl, hd⟩ := append_inj' hl rfl
      cases hd
      exact hc
    · rw [concat_eq_append, ← cons_append, ← append_assoc] at hl
      obtain ⟨hl, -⟩ := append_inj' hl rfl
      exact hsp a d b hl

/-- A result from the station `n` with `k` information bytes, all of them `n`. -/
def resultFrom (n : UInt8) (k : Fin 8) : Change :=
  .result true ⟨Bytes.ofList 6 [2, 0, 0, 0, 0, n], 2412, -5000,
    some ⟨replicate k n, by rw [length_replicate]; omega⟩⟩

/-- Two stations, and then the first one again with a block of the same length. -/
theorem storage_intact_same_length :
    (init.after [resultFrom 1 2, resultFrom 2 2, resultFrom 1 2]).Tidy ∧
      (init.after [resultFrom 1 2, resultFrom 2 2]).Spares (resultFrom 1 2) := by
  have hgrow : ∀ a c b, [resultFrom 1 2, resultFrom 2 2, resultFrom 1 2] = a ++ c :: b →
      ¬(init.after a).Grows c := by
    rintro (_ | ⟨x, _ | ⟨y, _ | ⟨z, _ | ⟨w, a⟩⟩⟩⟩) c b hl
    · cases hl
      rintro ⟨i, data, hf, -⟩
      exact absurd hf (by decide +kernel +revert)
    · cases hl
      rintro ⟨i, data, hf, -⟩
      exact absurd hf (by decide +kernel +revert)
    · cases hl
      rintro ⟨i, data, hf, hd, -, hlt⟩
      cases hd
      have hi : i = ⟨0, by decide⟩ := by
        rw [← some_inj, ← hf]
        decide +kernel
      rw [hi] at hlt
      exact absurd hlt (by decide +kernel)
    · cases hl
    · cases hl
  obtain ⟨h1, h2⟩ := storage_intact _ hgrow
  exact ⟨h1, h2 _ _ [] rfl⟩

/-- **A longer block overwrites the neighbour.** The second station's block follows the first
one's, and the first one sends two bytes more. -/
theorem neighbour_clobbered :
    ¬(init.after [resultFrom 1 2, resultFrom 2 2, resultFrom 1 4]).Tidy ∧
      ¬(init.after [resultFrom 1 2, resultFrom 2 2]).Spares (resultFrom 1 4) := by
  constructor
  · intro h
    have h01 := h.apart ⟨0, by decide⟩ ⟨1, by decide⟩ 0 2 (by decide) (by decide +kernel)
      (by decide +kernel)
    exact absurd h01 (by decide +kernel)
  · intro h
    have h1 := (h ⟨1, by decide⟩ (by decide +kernel)).2
    exact absurd h1 (by decide +kernel)

end Table

end Minibase.Wsupp
