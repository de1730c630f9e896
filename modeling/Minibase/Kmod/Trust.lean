import Minibase.Kmod.Elf
import Minibase.Lib.Strings

/-!
# Which modules can be trusted

What `find_modinfo` reads and what it finds, said in terms of what stands in the file: one
function after the other, whether all it reads is in the file, and what comes of it. In the end
the file is read as it should be if and only if it is not an ELF file with a table of sections,
or is `Kmod.File.Intact` (`Kmod.find_modinfo_iff`).
-/

namespace Minibase.Kmod

open Peek List Option

/-! ### Staying in the file -/

section Stays

variable {bigendian : Bool} {mb : MBuf} {mod : Elf} {m : Mem}

lemma inside_ptr (d : ℕ) : mb.Inside (mb.ptr d) ↔ d % 2 ^ 64 < mb.len := by
  have hfits := mb.fits
  rw [MBuf.Inside, MBuf.ptr]
  omega

/-- A number is in the file if its first byte is, and the others are before the end. -/
theorem span_inside (d : ℕ) {w : ℕ} (h0 : 0 < w) (h8 : w ≤ 8) :
    (∀ a ∈ mb.span d w, mb.Inside a) ↔ d % 2 ^ 64 + w ≤ mb.len := by
  have hlen := mb.len_lt
  rw [MBuf.span, List.forall_mem_map]
  constructor
  · intro h
    have hfirst := (inside_ptr _).mp (h 0 (List.mem_range.mpr h0))
    have hlast := (inside_ptr _).mp (h (w - 1) (List.mem_range.mpr (by omega)))
    omega
  · intro h i hi
    have hi' := List.mem_range.mp hi
    exact (inside_ptr _).mpr (by omega)

lemma loadU16_stays (d : ℕ) :
    (loadU16 bigendian mb mod d).Stays mb.Inside m ↔ d % 2 ^ 64 + 2 ≤ mb.len := by
  rw [loadU16, stays_bind, stays_gather, span_inside d (by decide) (by decide)]
  exact and_iff_left (stays_pure _ _)

lemma loadU32_stays (d : ℕ) :
    (loadU32 bigendian mb mod d).Stays mb.Inside m ↔ d % 2 ^ 64 + 4 ≤ mb.len := by
  rw [loadU32, stays_bind, stays_gather, span_inside d (by decide) (by decide)]
  exact and_iff_left (stays_pure _ _)

lemma loadX64_stays (d : ℕ) : (loadX64 bigendian mb mod d).Stays mb.Inside m ↔
    d % 2 ^ 64 + (if mod.elf64 then 8 else 4) ≤ mb.len := by
  rw [loadX64]
  split
  · rw [stays_bind, stays_gather, span_inside d (by decide) (by decide)]
    exact and_iff_left (stays_pure _ _)
  · rw [stays_bind, stays_gather, span_inside d (by decide) (by decide)]
    exact and_iff_left (stays_pure _ _)

lemma memOffCmp_neg (msz fsz : ℕ) : memOffCmp msz fsz < 0 ↔ msz < fsz := by
  rw [memOffCmp]
  split_ifs <;> omega

/-- The header is only looked at if it is there. -/
theorem readElfHeader_stays : (readElfHeader bigendian mb).Stays mb.Inside m := by
  rw [readElfHeader]
  by_cases hlen : mb.len < ELFHDR
  · rw [if_pos hlen]
    exact stays_pure _ _
  have hlen' : 16 ≤ mb.len := not_lt.mp hlen
  rw [if_neg hlen, stays_bind, stays_gather, span_inside 0 (by decide) (by decide)]
  refine ⟨by omega, ?_⟩
  split
  · exact stays_pure _ _
  rw [stays_bind, stays_byte, inside_ptr]
  refine ⟨by omega, ?_⟩
  split
  · exact stays_pure _ _
  dsimp only
  split
  · exact stays_pure _ _
  rw [stays_bind, stays_byte, inside_ptr]
  refine ⟨by omega, ?_⟩
  split
  · exact stays_pure _ _
  rw [stays_bind, stays_byte, inside_ptr]
  refine ⟨by omega, ?_⟩
  split <;> exact stays_pure _ _

/-- `struct kmod` as `read_elf_header` leaves it. -/
def File.known (f : File) (bigendian : Bool) : Elf where
  elf64 := f.elf64
  elfxe := if bigendian then !f.big else f.big

lemma known_knows (bigendian : Bool) (f : File) : (f.known bigendian).Knows bigendian f :=
    ⟨rfl, rfl⟩

/-- **A header that is accepted** is one of an ELF file. -/
theorem readElfHeader_val : (readElfHeader bigendian mb).val m = .ok mod ↔
    ∃ elf64 big, File.IsElf ⟨m, mb, elf64, big⟩ ∧
      mod = File.known ⟨m, mb, elf64, big⟩ bigendian := by
  constructor
  · intro h
    rw [readElfHeader] at h
    split at h
    · cases h
    rw [val_bind, val_gather] at h
    split at h
    · cases h
    rename_i htag
    rw [val_bind, val_byte] at h
    split at h
    · cases h
    rename_i hcls
    dsimp only at h
    split at h
    · cases h
    rename_i hsize
    rw [val_bind, val_byte] at h
    split at h
    · cases h
    rename_i hversion
    rw [val_bind, val_byte] at h
    split at h
    · cases h
    rename_i hdata
    rw [memOffCmp_neg, not_lt] at hsize
    refine ⟨_, _, ⟨hsize, not_not.mp htag, ?_, ?_, not_not.mp hversion⟩, (Except.ok.inj h).symm⟩
    · show m (mb.ptr 4) = if decide (m (mb.ptr 4) = 2) then 2 else 1
      by_cases h2 : m (mb.ptr 4) = 2
      · simp [h2]
      · have h1 : m (mb.ptr 4) = 1 := by
          by_contra h1
          exact hcls ⟨h1, h2⟩
        simp [h1]
    · show m (mb.ptr 5) = if decide (m (mb.ptr 5) = 2) then 2 else 1
      by_cases h2 : m (mb.ptr 5) = 2
      · simp [h2]
      · have h1 : m (mb.ptr 5) = 1 := by
          by_contra h1
          exact hdata ⟨h1, h2⟩
        simp [h1]
  · rintro ⟨elf64, big, helf, rfl⟩
    have hsize : hdrSize elf64 ≤ mb.len := helf.size
    have htag : (mb.span 0 4).map m = ELFTAG := helf.tag
    have hcls : m (mb.ptr 4) = if elf64 then 2 else 1 := helf.cls
    have hdata : m (mb.ptr 5) = if big then 2 else 1 := helf.data
    have hversion : m (mb.ptr 6) = 1 := helf.version
    -- what the code tests is what these fields say
    have hlen : ¬mb.len < ELFHDR := by
      cases elf64 <;> simp [hdrSize, ELFHDR] at hsize ⊢ <;> omega
    have h64 : decide (m (mb.ptr 4) = 2) = elf64 := by
      rw [hcls]
      cases elf64 <;> rfl
    have hbig : decide (m (mb.ptr 5) = 2) = big := by
      rw [hdata]
      cases big <;> rfl
    have hcls' : ¬(m (mb.ptr 4) ≠ 1 ∧ m (mb.ptr 4) ≠ 2) := by
      rw [hcls]
      cases elf64 <;> decide
    have hdata' : ¬(m (mb.ptr 5) ≠ 1 ∧ m (mb.ptr 5) ≠ 2) := by
      rw [hdata]
      cases big <;> decide
    have hcmp : ¬memOffCmp mb.len (hdrSize elf64) < 0 := by
      rw [memOffCmp_neg]
      omega
    rw [readElfHeader, if_neg hlen, val_bind, val_gather, if_neg (not_not.mpr htag), val_bind,
      val_byte, if_neg hcls']
    rw [h64, if_neg hcmp, val_bind, val_byte, if_neg (not_not.mpr hversion), val_bind, val_byte,
      if_neg hdata', hbig]
    rfl

end Stays

/-! ### The table of sections -/

section Table

variable {bigendian : Bool} {f : File} {mod : Elf}

/-- `struct kmod` as `init_sections_table` leaves it. -/
def File.tabled (f : File) (bigendian : Bool) : Elf :=
  { f.known bigendian with shoff := f.shoff, shnum := f.shnum, shentsize := f.shentsize,
                           shstrndx := f.shstrndx }

/-- `struct kmod` as `locate_strings_section` leaves it. -/
def File.spelled (f : File) (bigendian : Bool) : Elf :=
  { f.tabled bigendian with stringsOff := i32 (f.offset f.strtab),
                            stringsLen := i32 (f.size f.strtab) }

lemma tabled_knows (bigendian : Bool) (f : File) : (f.tabled bigendian).Knows bigendian f :=
    ⟨rfl, rfl⟩

lemma spelled_knows (bigendian : Bool) (f : File) : (f.spelled bigendian).Knows bigendian f :=
    ⟨rfl, rfl⟩

/-- The header is long enough for all that is looked at. -/
theorem initSectionsTable_stays (hsize : hdrSize f.elf64 ≤ f.mb.len) :
    (initSectionsTable bigendian f.mb (f.known bigendian)).Stays f.mb.Inside f.mem := by
  rw [initSectionsTable]
  simp only [stays_bind, loadU16_stays, loadX64_stays, stays_pure, and_true]
  rw [hdrSize] at hsize
  show _ % 2 ^ 64 + (if f.elf64 then 8 else 4) ≤ _ ∧ atShnum f.elf64 % 2 ^ 64 + 2 ≤ _ ∧
    atShentsize f.elf64 % 2 ^ 64 + 2 ≤ _ ∧ atShstrndx f.elf64 % 2 ^ 64 + 2 ≤ _
  rw [atShoff, atShnum, atShentsize, atShstrndx]
  split_ifs at hsize ⊢ <;> omega

lemma initSectionsTable_val :
    (initSectionsTable bigendian f.mb (f.known bigendian)).val f.mem = .ok mod ↔
      (f.shoff ≠ 0 ∧ (f.shoff + u64 (i32 (f.shnum * f.shentsize))) % 2 ^ 64 ≤ f.mb.len) ∧
        mod = f.tabled bigendian := by
  have hk := known_knows bigendian f
  rw [initSectionsTable]
  simp only [val_bind, loadX64_val hk, loadU16_val hk, val_pure]
  show (if f.shoff = 0 then .error "no sections in"
    else if (f.shoff + u64 (i32 (f.shnum * f.shentsize))) % 2 ^ 64 > f.mb.len then
      .error "corrupt sections header in"
    else .ok (f.tabled bigendian)) = Except.ok mod ↔ _
  by_cases h0 : f.shoff = 0
  · rw [if_pos h0]
    exact ⟨(fun h => nomatch h), fun h => absurd h0 h.1.1⟩
  by_cases hfin : (f.shoff + u64 (i32 (f.shnum * f.shentsize))) % 2 ^ 64 > f.mb.len
  · rw [if_neg h0, if_pos hfin]
    exact ⟨(fun h => nomatch h), fun h => absurd h.1.2 (not_le.mpr hfin)⟩
  · rw [if_neg h0, if_neg hfin, Except.ok.injEq]
    exact ⟨fun h => ⟨⟨h0, not_lt.mp hfin⟩, h.symm⟩, fun h => h.2.symm⟩

lemma entrySize_eq (f : File) : f.entrySize = if f.elf64 then 40 else 24 := by
  rw [File.entrySize, atSize, File.word]
  split_ifs <;> rfl

/-- The entry for the names is looked at, from its second field on. -/
theorem locateStringsSection_stays :
    (locateStringsSection bigendian f.mb (f.tabled bigendian)).Stays f.mb.Inside f.mem ↔
      (f.shstrndx ≠ 0 → (f.strtab + atType) % 2 ^ 64 + (f.entrySize - atType) ≤ f.mb.len) := by
  have hlen := f.mb.len_lt
  rw [locateStringsSection, show (f.tabled bigendian).shstrndx = f.shstrndx from rfl]
  split
  · rename_i h0
    exact ⟨fun _ h => absurd h0 h, fun _ => stays_pure _ _⟩
  · rename_i h0
    simp only [stays_bind, loadU32_stays, loadX64_stays, stays_pure, and_true]
    show (f.strtab + atType) % 2 ^ 64 + 4 ≤ _ ∧
      (f.strtab + atOffset f.elf64) % 2 ^ 64 + (if f.elf64 then 8 else 4) ≤ _ ∧
      (f.strtab + atSize f.elf64) % 2 ^ 64 + (if f.elf64 then 8 else 4) ≤ _ ↔ _
    rw [entrySize_eq, atType, atOffset, atSize]
    split_ifs <;> omega

lemma locateStringsSection_val :
    (locateStringsSection bigendian f.mb (f.tabled bigendian)).val f.mem = .ok mod ↔
      (f.shstrndx ≠ 0 ∧ f.type f.strtab = SHT_STRTAB) ∧ mod = f.spelled bigendian := by
  have hk := tabled_knows bigendian f
  rw [locateStringsSection, show (f.tabled bigendian).shstrndx = f.shstrndx from rfl]
  by_cases h0 : f.shstrndx = 0
  · rw [if_pos h0]
    exact ⟨(fun h => nomatch h), fun h => absurd h0 h.1.1⟩
  rw [if_neg h0]
  simp only [val_bind, loadX64_val hk, loadU32_val hk, val_pure]
  show (if f.type f.strtab ≠ SHT_STRTAB then .error "invalid .strings section in"
    else .ok (f.spelled bigendian)) = Except.ok mod ↔ _
  by_cases htype : f.type f.strtab = SHT_STRTAB
  · rw [if_neg (not_not.mpr htype), Except.ok.injEq]
    exact ⟨fun h => ⟨⟨h0, htype⟩, h.symm⟩, fun h => h.2.symm⟩
  · rw [if_pos htype]
    exact ⟨(fun h => nomatch h), fun h => absurd h.1.2 htype⟩

end Table

/-! ### Names -/

section Names

variable {mb : MBuf} {m : Mem}

/-- Where `scanName` stops: at the first zero, or at the end. -/
theorem scanName_val (m : Mem) (p n : ℕ) :
    p ≤ (scanName p n).val m ∧ (∀ i, p ≤ i → i < (scanName p n).val m → m i ≠ 0) ∧
      ((scanName p n).val m < p + n → m ((scanName p n).val m) = 0) := by
  induction n generalizing p with
  | zero =>
    rw [scanName, val_pure]
    exact ⟨le_rfl, fun i h1 h2 => by omega, fun h => by omega⟩
  | succ n ih =>
    rw [scanName, val_bind, val_byte]
    by_cases hp : m p = 0
    · rw [if_pos hp, val_pure]
      exact ⟨le_rfl, fun i h1 h2 => by omega, fun _ => hp⟩
    · obtain ⟨hle, hno, hstop⟩ := ih (p + 1)
      rw [if_neg hp]
      refine ⟨by omega, fun i h1 h2 => ?_, fun h => hstop (by omega)⟩
      rcases Nat.eq_or_lt_of_le h1 with rfl | h1
      · exact hp
      · exact hno i h1 h2

/-- `scanName` stays in the file if there is nothing to scan, or if it starts there and stops
there. -/
theorem scanName_stays (p n : ℕ) : (scanName p n).Stays mb.Inside m ↔ (0 < n → mb.Inside p ∧
    (p + n ≤ mb.buf + mb.len ∨ ∃ q, p ≤ q ∧ q < mb.buf + mb.len ∧ m q = 0)) := by
  induction n generalizing p with
  | zero => exact ⟨fun _ h => absurd h (lt_irrefl 0), fun _ => stays_pure _ _⟩
  | succ n ih =>
    rw [scanName, stays_bind, stays_byte, val_byte]
    refine ⟨fun h _ => ⟨h.1, ?_⟩, fun h => ⟨(h n.succ_pos).1, ?_⟩⟩
    · obtain ⟨hin, hrest⟩ := h
      by_cases hp : m p = 0
      · exact .inr ⟨p, le_rfl, hin.2, hp⟩
      rw [if_neg hp, ih] at hrest
      -- it goes on behind this byte, if there is anything more
      rcases Nat.eq_zero_or_pos n with rfl | hn
      · exact .inl hin.2
      rcases (hrest hn).2 with hend | ⟨q, hpq, hq, hz⟩
      · exact .inl (by omega)
      · exact .inr ⟨q, by omega, hq, hz⟩
    · obtain ⟨hin, hrest⟩ := h n.succ_pos
      by_cases hp : m p = 0
      · rw [if_pos hp]
        exact stays_pure _ _
      rw [if_neg hp, ih]
      intro hn
      rcases hrest with hend | ⟨q, hpq, hq, hz⟩
      · exact ⟨⟨by have := hin.1; omega, by omega⟩, .inl (by omega)⟩
      · have hne : p ≠ q := by
          rintro rfl
          exact hp hz
        exact ⟨⟨by have := hin.1; omega, by omega⟩, .inr ⟨q, by omega, hq, hz⟩⟩

/-- `strcmp` does not go past a zero. -/
theorem strcmp_stays {P : ℕ → Prop} {q : ℕ} (hz : m q = 0) (l : List UInt8) {a : ℕ} (ha : a ≤ q)
    (hP : ∀ i, a ≤ i → i ≤ q → P i) : (strcmp a l).Stays P m := by
  induction l generalizing a with
  | nil =>
    rw [strcmp, stays_bind, stays_byte]
    exact ⟨hP a le_rfl ha, stays_pure _ _⟩
  | cons b bs ih =>
    rw [strcmp, stays_bind, stays_byte, val_byte]
    refine ⟨hP a le_rfl ha, ?_⟩
    by_cases hc : m a ≠ 0 ∧ m a = b
    · have hne : a ≠ q := by
        rintro rfl
        exact hc.1 hz
      rw [if_pos hc]
      exact ih (by omega) fun i h1 h2 => hP i (by omega) h2
    · rw [if_neg hc]
      exact stays_pure _ _

lemma strcmp_val {l : List UInt8} (hl : 0 ∉ l) (a : ℕ) :
    (strcmp a l).val m = 0 ↔ m.Holds a (l ++ [0]) := by
  induction l generalizing a with
  | nil =>
    rw [strcmp, val_bind, val_byte, val_pure, nil_append, Mem.holds_cons, Nat.cast_eq_zero]
    refine ⟨fun h => ⟨UInt8.toNat_inj.mp h, Mem.holds_nil _ _⟩, fun h => ?_⟩
    rw [h.1]
    rfl
  | cons b bs ih =>
    rw [strcmp, val_bind, val_byte, cons_append, Mem.holds_cons]
    have hb : b ≠ 0 := fun hb => hl (hb ▸ mem_cons_self)
    by_cases hc : m a = b
    · rw [if_pos ⟨by rwa [hc], hc⟩, ih fun h => hl (mem_cons_of_mem _ h)]
      exact (and_iff_right hc).symm
    · rw [if_neg fun h => hc h.2, val_pure]
      refine ⟨fun h => absurd (UInt8.toNat_inj.mp ?_) hc, fun h => absurd h.1 hc⟩
      omega

end Names

/-! ### Sections -/

section Sections

variable {bigendian : Bool} {f : File} {d i n : ℕ}

/-- **What `lookup_string` does**: nothing, or it looks for a zero. -/
theorem lookupString_eq : lookupString f.mb (f.spelled bigendian) (f.name d) =
    if f.stringsOff = 0 then pure 0
    else if f.name d > f.stringsLen then pure 0
    else do
      let p ← scanName (f.nameAt d) (f.namesEnd - f.nameAt d)
      return if p ≥ f.namesEnd then 0 else f.nameAt d := rfl

lemma lookupString_sought (hs : f.Sought d) :
    lookupString f.mb (f.spelled bigendian) (f.name d) = do
      let p ← scanName (f.nameAt d) (f.namesEnd - f.nameAt d)
      return if p ≥ f.namesEnd then 0 else f.nameAt d := by
  rw [lookupString_eq, if_neg hs.1, if_neg (not_lt.mpr hs.2)]

lemma lookupString_not_sought (hs : ¬f.Sought d) :
    lookupString f.mb (f.spelled bigendian) (f.name d) = pure 0 := by
  rw [lookupString_eq]
  by_cases h0 : f.stringsOff = 0
  · rw [if_pos h0]
  · rw [if_neg h0, if_pos (not_le.mp fun h => hs ⟨h0, h⟩)]

lemma lookupString_stays :
    (lookupString f.mb (f.spelled bigendian) (f.name d)).Stays f.mb.Inside f.mem ↔
      (f.Sought d → f.NameFits d) := by
  by_cases hs : f.Sought d
  · rw [lookupString_sought hs, stays_bind, scanName_stays, and_iff_left (stays_pure _ _),
      File.NameFits]
    constructor
    · intro h _ hlt
      obtain ⟨hin, hend⟩ := h (by omega)
      exact ⟨hin, hend.imp_left fun hend => by omega⟩
    · intro h hlt
      obtain ⟨hin, hend⟩ := h hs (by omega)
      exact ⟨hin, hend.imp_left fun hend => by omega⟩
  · rw [lookupString_not_sought hs]
    exact ⟨fun _ h => absurd h hs, fun _ => stays_pure _ _⟩

/-- **A name that is found** is ended by a zero, and all of it is in the file. -/
theorem lookupString_val (hfits : f.Sought d → f.NameFits d)
    (hne : (lookupString f.mb (f.spelled bigendian) (f.name d)).val f.mem ≠ 0) :
    (lookupString f.mb (f.spelled bigendian) (f.name d)).val f.mem = f.nameAt d ∧ f.Sought d ∧
      ∃ q, f.nameAt d ≤ q ∧ q < f.namesEnd ∧ f.mem q = 0 ∧
        (∀ i, f.nameAt d ≤ i → i < q → f.mem i ≠ 0) ∧
        ∀ i, f.nameAt d ≤ i → i ≤ q → f.mb.Inside i := by
  by_cases hs : f.Sought d
  swap
  · rw [lookupString_not_sought hs] at hne
    exact absurd (val_pure _ _) hne
  rw [lookupString_sought hs, val_bind, val_pure] at hne ⊢
  obtain ⟨hle, hno, hstop⟩ := scanName_val f.mem (f.nameAt d) (f.namesEnd - f.nameAt d)
  generalize (scanName (f.nameAt d) (f.namesEnd - f.nameAt d)).val f.mem = q at *
  by_cases hq : q ≥ f.namesEnd
  · rw [if_pos hq] at hne
    exact absurd rfl hne
  rw [if_neg hq]
  have hz := hstop (by omega)
  obtain ⟨hin, hend⟩ := hfits hs (by omega)
  refine ⟨rfl, hs, q, hle, by omega, hz, hno, fun i h1 h2 => ⟨by have := hin.1; omega, ?_⟩⟩
  rcases hend with hend | ⟨r, hr, hrlt, hrz⟩
  · omega
  · have hqr : q ≤ r := by
      by_contra hqr
      exact hno r hr (by omega) hrz
    omega

/-- A name that is ended by a zero is found. -/
theorem lookupString_of_zero (hs : f.Sought d) {z : ℕ} (h1 : f.nameAt d ≤ z) (h2 : z < f.namesEnd)
    (hz : f.mem z = 0) :
    (lookupString f.mb (f.spelled bigendian) (f.name d)).val f.mem = f.nameAt d := by
  obtain ⟨-, hno, -⟩ := scanName_val f.mem (f.nameAt d) (f.namesEnd - f.nameAt d)
  rw [lookupString_sought hs, val_bind, val_pure]
  generalize (scanName (f.nameAt d) (f.namesEnd - f.nameAt d)).val f.mem = q at *
  have hqz : q ≤ z := by
    by_contra hqz
    exact hno z h1 (by omega) hz
  rw [if_neg (by omega)]

/-- What is read of an entry. -/
theorem entry_stays : (f.place i % 2 ^ 64 + 4 ≤ f.mb.len ∧
    (f.place i + atType) % 2 ^ 64 + 4 ≤ f.mb.len ∧
    (f.place i + atOffset f.elf64) % 2 ^ 64 + (if f.elf64 then 8 else 4) ≤ f.mb.len ∧
    (f.place i + atSize f.elf64) % 2 ^ 64 + (if f.elf64 then 8 else 4) ≤ f.mb.len) ↔
      f.place i % 2 ^ 64 + f.entrySize ≤ f.mb.len := by
  have hlen := f.mb.len_lt
  rw [entrySize_eq, atType, atOffset, atSize]
  split_ifs <;> omega

lemma checkName_stays (bigendian : Bool) {offset size : ℕ} :
    (checkName f.mb (f.spelled bigendian) (f.name d) (f.type d) offset size).Stays f.mb.Inside
      f.mem ↔ (f.Named d → f.NameFits d) := by
  rw [checkName]
  by_cases htype : f.type d = 0
  · rw [if_pos htype]
    exact ⟨fun _ h => absurd htype h.1, fun _ => stays_pure _ _⟩
  rw [if_neg htype, stays_bind, lookupString_stays]
  rw [File.Named, and_iff_right htype]
  refine and_iff_left_of_imp fun hfits => ?_
  split
  · exact stays_pure _ _
  rename_i hne
  obtain ⟨heq, -, q, hle, -, hz, -, hin⟩ := lookupString_val hfits hne
  rw [heq, stays_bind]
  -- the zero that ends the name ends the comparison as well
  refine ⟨strcmp_stays hz modinfoName hle hin, ?_⟩
  split <;> exact stays_pure _ _

/-- **Whether it is `.modinfo`.** -/
theorem checkName_val (bigendian : Bool) {r : ℕ × ℕ}
    (hfits : f.Named (f.place i) → f.NameFits (f.place i)) :
    (checkName f.mb (f.spelled bigendian) (f.name (f.place i)) (f.type (f.place i))
        (f.offset (f.place i)) (f.size (f.place i))).val f.mem = some r ↔
      f.IsModinfo i ∧ r = (u32 (f.offset (f.place i)), u32 (f.size (f.place i))) := by
  have hnul : 0 ∉ modinfoName := by decide
  rw [checkName]
  by_cases htype : f.type (f.place i) = 0
  · rw [if_pos htype]
    exact ⟨(fun h => nomatch h), fun h => absurd htype h.1.1.1⟩
  have hfits' : f.Sought (f.place i) → f.NameFits (f.place i) := fun hs => hfits ⟨htype, hs⟩
  rw [if_neg htype, val_bind]
  by_cases hnull : (lookupString f.mb (f.spelled bigendian) (f.name (f.place i))).val f.mem = 0
  · rw [if_pos hnull]
    -- the name of `.modinfo` ends with a zero, so it would have been found
    refine ⟨(fun h => nomatch h), fun ⟨⟨hnamed, hlt, hholds⟩, _⟩ => ?_⟩
    have hz : f.mem (f.nameAt (f.place i) + modinfoName.length) = 0 := hholds 8 (by decide)
    rw [lookupString_of_zero hnamed.2 (Nat.le_add_right _ _) hlt hz] at hnull
    have hin := (hfits hnamed (by omega)).1.1
    have hpos := f.mb.buf_pos
    omega
  · obtain ⟨heq, hs, q, hle, hq, hz, hno, -⟩ := lookupString_val hfits' hnull
    rw [if_neg hnull, heq, val_bind]
    by_cases hcmp : (strcmp (f.nameAt (f.place i)) modinfoName).val f.mem = 0
    · rw [if_neg (not_not.mpr hcmp), val_pure, Option.some.injEq]
      have hholds := (strcmp_val hnul _).mp hcmp
      refine ⟨fun h => ⟨⟨⟨htype, hs⟩, ?_, hholds⟩, h.symm⟩, fun h => h.2.symm⟩
      -- the zero that was found is not within the name
      refine lt_of_le_of_lt (not_lt.mp fun hlt => ?_) hq
      obtain ⟨k, rfl⟩ := Nat.exists_eq_add_of_le hle
      have hk : k < modinfoName.length := by omega
      have hbyte := (Mem.holds_append.mp hholds).1 k hk
      exact hnul (by
        rw [← hz, hbyte]
        exact getElem_mem hk)
    · rw [if_pos hcmp]
      exact ⟨(fun h => nomatch h), fun h => absurd ((strcmp_val hnul _).mpr h.1.2.2) hcmp⟩

lemma checkSection_stays :
    (checkSection bigendian f.mb (f.spelled bigendian) i).Stays f.mb.Inside f.mem ↔
      f.place i % 2 ^ 64 + f.entrySize ≤ f.mb.len ∧
        (f.Named (f.place i) → f.NameFits (f.place i)) := by
  have hk := spelled_knows bigendian f
  rw [checkSection]
  simp only [stays_bind, loadU32_stays, loadX64_stays, loadU32_val hk, loadX64_val hk]
  rw [← entry_stays, ← checkName_stays bigendian]
  simp only [and_assoc]
  exact Iff.rfl

lemma checkSection_val {r : ℕ × ℕ} (hfits : f.Named (f.place i) → f.NameFits (f.place i)) :
    (checkSection bigendian f.mb (f.spelled bigendian) i).val f.mem = some r ↔
      f.IsModinfo i ∧ r = (u32 (f.offset (f.place i)), u32 (f.size (f.place i))) := by
  have hk := spelled_knows bigendian f
  rw [← checkName_val bigendian hfits, checkSection]
  simp only [val_bind, loadU32_val hk, loadX64_val hk]
  exact Iff.rfl

lemma checkSection_none (hfits : f.Named (f.place i) → f.NameFits (f.place i))
    (hmod : ¬f.IsModinfo i) :
    (checkSection bigendian f.mb (f.spelled bigendian) i).val f.mem = none :=
  eq_none_iff_forall_ne_some.mpr fun _ hr => hmod ((checkSection_val hfits).mp hr).1

/-- The first of the sections comes first. -/
theorem none_succ {j : ℕ} : (∀ k < j + 1, ¬f.IsModinfo (i + k)) ↔
    ¬f.IsModinfo i ∧ ∀ k < j, ¬f.IsModinfo (i + 1 + k) := by
  rw [Nat.forall_lt_succ_left, add_zero]
  refine and_congr_right fun _ => forall₂_congr fun k _ => ?_
  rw [add_assoc, add_comm 1 k]

/-- **The loop** stays in the file if the sections up to the first `.modinfo` do. -/
theorem locateModinfoFrom_stays :
    (locateModinfoFrom bigendian f.mb (f.spelled bigendian) i n).Stays f.mb.Inside f.mem ↔
      ∀ j < n, (∀ k < j, ¬f.IsModinfo (i + k)) → f.Fits (i + j) := by
  induction n generalizing i with
  | zero => exact ⟨fun _ j hj => absurd hj (Nat.not_lt_zero j), fun _ => stays_pure _ _⟩
  | succ n ih =>
    rw [locateModinfoFrom, stays_bind, checkSection_stays]
    constructor
    · rintro ⟨hfits, hrest⟩ j hj hno
      obtain - | j := j
      · exact hfits
      obtain ⟨hmod, hno⟩ := none_succ.mp hno
      -- the first of them is not `.modinfo`, so the loop goes on
      rw [checkSection_none hfits.2 hmod, ih] at hrest
      have hj' := hrest j (by omega) hno
      rwa [Nat.add_right_comm] at hj'
    · intro h
      have hfits : f.Fits i := h 0 n.succ_pos fun k hk => absurd hk (Nat.not_lt_zero k)
      refine ⟨hfits, ?_⟩
      split
      · exact stays_pure _ _
      rename_i hnone
      have hmod : ¬f.IsModinfo i := fun hmod => by
        rw [(checkSection_val hfits.2).mpr ⟨hmod, rfl⟩] at hnone
        cases hnone
      rw [ih]
      intro j hj hno
      rw [Nat.add_right_comm]
      exact h (j + 1) (by omega) (none_succ.mpr ⟨hmod, hno⟩)

/-- `struct kmod` with `.modinfo` in it. -/
def File.found (f : File) (bigendian : Bool) (i : ℕ) : Elf :=
  { f.spelled bigendian with modinfoOff := u32 (f.offset (f.place i)),
                             modinfoLen := u32 (f.size (f.place i)) }

/-- What it finds is the first `.modinfo`. -/
theorem locateModinfoFrom_val {mod : Elf}
    (hfits : ∀ j < n, (∀ k < j, ¬f.IsModinfo (i + k)) → f.Fits (i + j)) :
    (locateModinfoFrom bigendian f.mb (f.spelled bigendian) i n).val f.mem = .ok mod ↔
      ∃ j < n, (∀ k < j, ¬f.IsModinfo (i + k)) ∧ f.IsModinfo (i + j) ∧
        mod = f.found bigendian (i + j) := by
  induction n generalizing i with
  | zero => exact ⟨(fun h => nomatch h), fun ⟨j, hj, _⟩ => absurd hj (Nat.not_lt_zero j)⟩
  | succ n ih =>
    have hfirst : f.Fits i := hfits 0 n.succ_pos fun k hk => absurd hk (Nat.not_lt_zero k)
    rw [locateModinfoFrom, val_bind]
    by_cases hmod : f.IsModinfo i
    · rw [(checkSection_val hfirst.2).mpr ⟨hmod, rfl⟩, val_pure, Except.ok.injEq]
      constructor
      · rintro rfl
        exact ⟨0, n.succ_pos, fun k hk => absurd hk (Nat.not_lt_zero k), hmod, rfl⟩
      · rintro ⟨j, -, hno, -, rfl⟩
        obtain - | j := j
        · rfl
        · exact absurd hmod (hno 0 j.succ_pos)
    -- otherwise it is among the others
    have hrest : ∀ j < n, (∀ k < j, ¬f.IsModinfo (i + 1 + k)) → f.Fits (i + 1 + j) := by
      intro j hj hno
      rw [Nat.add_right_comm]
      exact hfits (j + 1) (by omega) (none_succ.mpr ⟨hmod, hno⟩)
    rw [checkSection_none hfirst.2 hmod, ih hrest]
    constructor
    · rintro ⟨j, hj, hno, hfound⟩
      rw [Nat.add_right_comm] at hfound
      exact ⟨j + 1, by omega, none_succ.mpr ⟨hmod, hno⟩, hfound⟩
    · rintro ⟨j, hj, hno, hfound⟩
      obtain - | j := j
      · exact absurd hfound.1 hmod
      refine ⟨j, by omega, (none_succ.mp hno).2, ?_⟩
      rwa [Nat.add_right_comm]

end Sections

/-! ### The whole of it -/

section Whole

variable {bigendian : Bool} {mb : MBuf} {m : Mem}

lemma File.visited_iff {f : File} {i : ℕ} :
    f.Visited i ↔ i < f.shnum ∧ ∀ k < i, ¬f.IsModinfo (0 + k) := by
  simp only [zero_add]
  exact Iff.rfl

/-- `locate_modinfo_section`. -/
theorem locateModinfoSection_stays {f : File} :
    (locateModinfoSection bigendian f.mb (f.spelled bigendian)).Stays f.mb.Inside f.mem ↔
      ∀ i, f.Visited i → f.Fits i := by
  refine locateModinfoFrom_stays.trans ?_
  simp only [File.visited_iff, zero_add, and_imp]
  exact Iff.rfl

lemma locateModinfoSection_val {f : File} {mod : Elf} (hfits : ∀ i, f.Visited i → f.Fits i) :
    (locateModinfoSection bigendian f.mb (f.spelled bigendian)).val f.mem = .ok mod ↔
      ∃ i, f.Visited i ∧ f.IsModinfo i ∧ mod = f.found bigendian i := by
  refine (locateModinfoFrom_val fun j hj hno => ?_).trans ?_
  · rw [zero_add]
    exact hfits j (File.visited_iff.mpr ⟨hj, hno⟩)
  · simp only [File.visited_iff, zero_add, and_assoc]
    exact Iff.rfl

/-- **What `find_modinfo` reads.** -/
theorem findModinfo_stays : (findModinfo bigendian mb).Stays mb.Inside m ↔
    ∀ elf64 big, File.IsElf ⟨m, mb, elf64, big⟩ → File.HasTable ⟨m, mb, elf64, big⟩ →
      File.EntriesFit ⟨m, mb, elf64, big⟩ := by
  rw [findModinfo, stays_andThen, and_iff_right readElfHeader_stays]
  constructor
  · intro h elf64 big helf htab
    have h1 := h _ (readElfHeader_val.mpr ⟨elf64, big, helf, rfl⟩)
    rw [stays_andThen] at h1
    have h2 := h1.2 _ (initSectionsTable_val.mpr ⟨⟨htab.shoff, htab.fin⟩, rfl⟩)
    rw [stays_andThen] at h2
    refine ⟨locateStringsSection_stays.mp h2.1 htab.shstrndx, fun htype => ?_⟩
    exact locateModinfoSection_stays.mp
      (h2.2 _ (locateStringsSection_val.mpr ⟨⟨htab.shstrndx, htype⟩, rfl⟩))
  · rintro h mod hmod
    obtain ⟨elf64, big, helf, rfl⟩ := readElfHeader_val.mp hmod
    rw [stays_andThen]
    refine ⟨initSectionsTable_stays helf.size, fun mod hmod => ?_⟩
    obtain ⟨⟨hshoff, hfin⟩, rfl⟩ := initSectionsTable_val.mp hmod
    rw [stays_andThen]
    refine ⟨locateStringsSection_stays.mpr fun hidx => ?_, fun mod hmod => ?_⟩
    · exact (h elf64 big helf ⟨hshoff, hfin, hidx⟩).strtab
    · obtain ⟨⟨hidx, htype⟩, rfl⟩ := locateStringsSection_val.mp hmod
      exact locateModinfoSection_stays.mpr ((h elf64 big helf ⟨hshoff, hfin, hidx⟩).visited htype)

/-- **What `find_modinfo` finds**, if it reads nothing but the file. -/
theorem findModinfo_val {mod : Elf}
    (hfits : ∀ elf64 big, File.IsElf ⟨m, mb, elf64, big⟩ → File.HasTable ⟨m, mb, elf64, big⟩ →
      File.EntriesFit ⟨m, mb, elf64, big⟩) :
    (findModinfo bigendian mb).val m = .ok mod ↔
      ∃ elf64 big, File.IsElf ⟨m, mb, elf64, big⟩ ∧ File.HasTable ⟨m, mb, elf64, big⟩ ∧
        File.type ⟨m, mb, elf64, big⟩ (File.strtab ⟨m, mb, elf64, big⟩) = SHT_STRTAB ∧
        ∃ i, File.Visited ⟨m, mb, elf64, big⟩ i ∧ File.IsModinfo ⟨m, mb, elf64, big⟩ i ∧
          mod = File.found ⟨m, mb, elf64, big⟩ bigendian i := by
  rw [findModinfo, val_andThen]
  constructor
  · rintro ⟨mod1, h1, h⟩
    obtain ⟨elf64, big, helf, rfl⟩ := readElfHeader_val.mp h1
    obtain ⟨mod2, h2, h⟩ := val_andThen.mp h
    obtain ⟨⟨hshoff, hfin⟩, rfl⟩ := initSectionsTable_val.mp h2
    obtain ⟨mod3, h3, h⟩ := val_andThen.mp h
    obtain ⟨⟨hidx, htype⟩, rfl⟩ := locateStringsSection_val.mp h3
    have htab : File.HasTable ⟨m, mb, elf64, big⟩ := ⟨hshoff, hfin, hidx⟩
    exact ⟨elf64, big, helf, htab, htype,
      (locateModinfoSection_val ((hfits elf64 big helf htab).visited htype)).mp h⟩
  · rintro ⟨elf64, big, helf, htab, htype, hfound⟩
    refine ⟨_, readElfHeader_val.mpr ⟨elf64, big, helf, rfl⟩, val_andThen.mpr ?_⟩
    refine ⟨_, initSectionsTable_val.mpr ⟨⟨htab.shoff, htab.fin⟩, rfl⟩, val_andThen.mpr ?_⟩
    refine ⟨_, locateStringsSection_val.mpr ⟨⟨htab.shstrndx, htype⟩, rfl⟩, ?_⟩
    exact (locateModinfoSection_val ((hfits elf64 big helf htab).visited htype)).mpr hfound

/-- **Which files can be trusted.** -/
theorem find_modinfo_iff : FindSafe bigendian mb m ↔
    ∀ elf64 big, File.IsElf ⟨m, mb, elf64, big⟩ → File.HasTable ⟨m, mb, elf64, big⟩ →
      File.Intact ⟨m, mb, elf64, big⟩ := by
  constructor
  · intro hsafe elf64 big helf htab
    have hfits := findModinfo_stays.mp hsafe.reads
    refine ⟨hfits elf64 big helf htab, fun htype i hvis hmod => ?_⟩
    exact hsafe.found _ ((findModinfo_val hfits).mpr
      ⟨elf64, big, helf, htab, htype, i, hvis, hmod, rfl⟩)
  · intro hintact
    have hfits : ∀ elf64 big, File.IsElf ⟨m, mb, elf64, big⟩ →
        File.HasTable ⟨m, mb, elf64, big⟩ → File.EntriesFit ⟨m, mb, elf64, big⟩ :=
      fun elf64 big helf htab => (hintact elf64 big helf htab).toEntriesFit
    refine ⟨findModinfo_stays.mpr hfits, fun mod hmod => ?_⟩
    obtain ⟨elf64, big, helf, htab, htype, i, hvis, hfound, rfl⟩ :=
      (findModinfo_val hfits).mp hmod
    exact (hintact elf64 big helf htab).modinfo htype i hvis hfound

end Whole

/-! ### A file that cannot be trusted -/

/-- An ELF file that is nothing but a header. Its table of sections is at its end and empty, but
the section with index 1 is said to have the names. -/
def sampleElf : List UInt8 :=
  [0x7F, 0x45, 0x4C, 0x46, 1, 1, 1, 0, 0, 0, 0, 0, 0, 0, 0, 0,
   1, 0, 3, 0, 1, 0, 0, 0, 0, 0, 0, 0, 0, 0, 0, 0,
   52, 0, 0, 0, 0, 0, 0, 0, 52, 0, 0, 0, 0, 0, 0, 0, 0, 0, 1, 0]

def sampleBuf : MBuf := ⟨4096, 52, by decide, by decide, by decide⟩

def sampleFile : File := ⟨Mem.store (fun _ => 0) 4096 sampleElf, sampleBuf, false, false⟩

/-- Names are looked for past the end of the file. -/
theorem not_find_modinfo : ¬∀ bigendian mb m, FindSafe bigendian mb m := by
  intro h
  have helf : sampleFile.IsElf := ⟨by decide, by decide, by decide, by decide, by decide⟩
  have htab : sampleFile.HasTable := ⟨by decide, by decide, by decide⟩
  have hreads : (findModinfo false sampleBuf).Stays sampleBuf.Inside sampleFile.mem :=
    (h false sampleBuf sampleFile.mem).reads
  have hstr := (findModinfo_stays.mp hreads false false helf htab).strtab
  revert hstr
  decide

end Minibase.Kmod
