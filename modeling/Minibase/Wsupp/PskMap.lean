import Minibase.Wsupp.Psk

/-!
# The file of saved keys as a map

What the file is for is a map from SSIDs to keys (`Psk.Behaves`). Appending an entry keeps it one
(`Psk.step_store_new`), and so does dropping the last one (`Psk.step_remove_last`). But
`save_config` writes at the offset the read left, past the end of the file it has just truncated, so
that every update of a key and every other removal puts as many zeros before the entries as the file
had bytes (`Psk.not_behaves_hole`). Besides, the entry of an empty SSID is never found again, and a
sixty-fifth entry makes the file too big to be opened. **The file behaves all along a run exactly
when every command of it was harmless** (`Psk.Harmless`, `Psk.run_behaves_iff`).
-/

namespace Minibase.Psk

open List Option Function

/-! ### Entries -/

/-- An entry: an SSID and its key. -/
structure Entry where
  ap : Ssid
  psk : Bytes 32
deriving DecidableEq

/-- The entry as it is written. -/
def Entry.encode (e : Entry) : List UInt8 := saved e.ap e.psk

/-- What is in the file; an absent one is empty. -/
def content (f : File) : List UInt8 := f.getD []

@[simp] lemma length_saved (ap : Ssid) (psk : Bytes 32) : (saved ap psk).length = 66 := by
  simp [saved]

lemma length_encode (e : Entry) : e.encode.length = sizeofSaved := length_saved e.ap e.psk

/-- A C string is found again in its padding. -/
theorem Ssid.takeWhile_ssid (s : Ssid) : s.ssid.data.takeWhile (· ≠ 0) = s.name := by
  have hpad : s.ssid.data = s.name ++ replicate (32 - s.name.length) 0 :=
    Bytes.data_ofList_short s.small
  have hname : ∀ b ∈ s.name, decide (b ≠ 0) = true := by
    intro b hb
    have : b ≠ 0 := fun h => s.noNul (h ▸ hb)
    exact decide_eq_true this
  rw [hpad, takeWhile_append_of_pos hname, takeWhile_replicate]
  simp

lemma Ssid.ssid_injective {s t : Ssid} (h : s.ssid = t.ssid) : s = t := by
  have hn : s.name = t.name := by
    rw [← s.takeWhile_ssid, ← t.takeWhile_ssid, h]
  cases s
  cases t
  cases hn
  rfl

/-! ### Finding an entry -/

section Find

variable {es : List Entry}

/-- The configuration read from a file of these entries. -/
def readBack (es : List Entry) : Config :=
  ⟨some (es.flatMap Entry.encode).length, some (es.flatMap Entry.encode),
    (es.flatMap Entry.encode).length⟩

lemma readBack_len (es : List Entry) : (readBack es).len = 66 * es.length :=
  Records.length_bytes length_encode es

variable {i : ℕ}

lemma drop_readBack {e : Entry} (h : es[i]? = some e) :
    ((readBack es).buf.getD []).drop (66 * i) =
      e.encode ++ (es.drop (i + 1)).flatMap Entry.encode := by
  obtain ⟨hi, rfl⟩ := List.getElem?_eq_some_iff.mp h
  have hcut := Records.drop_bytes length_encode es i
  rw [drop_eq_getElem_cons hi, flatMap_cons] at hcut
  exact hcut

lemma ssidAt_readBack {e : Entry} (h : es[i]? = some e) :
    ssidAt (readBack es) (66 * i) = e.ap.ssid.data := by
  rw [ssidAt, drop_readBack h, Entry.encode, saved, append_assoc, append_assoc,
    take_left' e.ap.ssid.size]

lemma pskAt_readBack {e : Entry} (h : es[i]? = some e) : pskAt (readBack es) (66 * i) = e.psk := by
  have hdrop : ((readBack es).buf.getD []).drop (66 * i + 32)
      = e.psk.data ++ ([UInt8.ofNat e.ap.slen, 10] ++ (es.drop (i + 1)).flatMap Entry.encode) := by
    rw [← drop_drop, drop_readBack h, Entry.encode, saved]
    simp only [append_assoc]
    exact drop_left' e.ap.ssid.size
  rw [pskAt, hdrop, Bytes.ofList_append]

lemma memcmp_ssid {s t : Ssid} : memcmp s.ssid.data t.ssid.data = 0 ↔ s = t := by
  rw [memcmp_eq_zero_iff (by simp)]
  refine ⟨fun h => Ssid.ssid_injective (Bytes.ext h), ?_⟩
  rintro rfl
  rfl

/-- From an entry on, the loop finds the next one with the SSID. -/
theorem findFrom_readBack (c : Top) (es : List Entry) (k : ℕ) (hi : i < es.length)
    (hk : es.length - i ≤ k) :
    (∃ j e, i ≤ j ∧ es[j]? = some e ∧ e.ap = c.ap ∧
      findFrom c (readBack es) k (some (66 * i)) = some (66 * j)) ∨
    (findFrom c (readBack es) k (some (66 * i)) = none ∧ ∀ e ∈ es.drop i, e.ap ≠ c.ap) := by
  induction k generalizing i with
  | zero => omega
  | succ k ih =>
    have hget : es[i]? = some es[i] := getElem?_eq_getElem hi
    rw [findFrom, ssidAt_readBack hget]
    by_cases hap : c.ap = es[i].ap
    · rw [if_pos (memcmp_ssid.mpr hap)]
      exact .inl ⟨i, es[i], le_refl i, hget, hap.symm, rfl⟩
    rw [if_neg (fun h => hap (memcmp_ssid.mp h))]
    by_cases hlast : i + 1 < es.length
    · have hnext : next (readBack es) (66 * i) = some (66 * (i + 1)) := by
        rw [next, readBack_len, sizeofSaved, if_neg (by omega)]
        rfl
      rw [hnext]
      rcases ih hlast (by omega) with ⟨j, e, hj, hrest⟩ | ⟨hnone, hall⟩
      · exact .inl ⟨j, e, by omega, hrest⟩
      refine .inr ⟨hnone, ?_⟩
      intro e he
      rw [drop_eq_getElem_cons hi, mem_cons] at he
      rcases he with rfl | he
      · exact fun h => hap h.symm
      · exact hall e he
    · have hnext : next (readBack es) (66 * i) = none := by
        rw [next, readBack_len, sizeofSaved, if_pos (by omega)]
      rw [hnext]
      refine .inr ⟨by cases k <;> rfl, ?_⟩
      intro e he
      rw [drop_eq_getElem_cons hi, drop_eq_nil_of_le (by omega), mem_singleton] at he
      rw [he]
      exact fun h => hap h.symm

/-- **What `find_entry` finds** in a file of entries: one with the SSID, and if it finds none
then there is none, or the SSID is empty. -/
theorem findEntry_readBack (c : Top) (es : List Entry) :
    (∃ i e, es[i]? = some e ∧ e.ap = c.ap ∧ findEntry c (readBack es) = some (66 * i)) ∨
    (findEntry c (readBack es) = none ∧ (c.ap.slen = 0 ∨ ∀ e ∈ es, e.ap ≠ c.ap)) := by
  rw [findEntry]
  split
  · rename_i h
    exact .inr ⟨rfl, .inl h⟩
  obtain - | ⟨e, es⟩ := es
  · exact .inr ⟨rfl, .inr (fun e he => nomatch he)⟩
  have hlen := readBack_len (e :: es)
  rw [length_cons] at hlen
  have hfirst : first (readBack (e :: es)) = some (66 * 0) := by
    show (if (readBack (e :: es)).len < sizeofSaved then none else some 0) = _
    rw [hlen, sizeofSaved, if_neg (by omega)]
  rw [hfirst]
  rcases findFrom_readBack c (e :: es) (readBack (e :: es)).len (Nat.succ_pos _)
    (by rw [hlen, length_cons]; omega) with ⟨j, e, -, hrest⟩ | ⟨hnone, hall⟩
  · exact .inl ⟨j, e, hrest⟩
  · exact .inr ⟨hnone, .inr hall⟩

end Find

/-! ### The map -/

/-- What should be stored for each SSID. -/
abbrev Db := Ssid → Option (Bytes 32)

/-- The map after a command. -/
def dbStep (db : Db) : Op → Db
  | .store c => if c.unsaved then update db c.ap (some c.psk) else db
  | .remove c => update db c.ap none

/-- The map after a sequence of commands. -/
def dbRun (db : Db) (ops : List Op) : Db := ops.foldl dbStep db

/-- The file is these entries and nothing else, and they are those of the map. -/
structure Lists (f : File) (es : List Entry) (db : Db) : Prop where
  bytes : content f = es.flatMap Entry.encode
  nodup : (es.map Entry.ap).Nodup
  mem : ∀ e : Entry, e ∈ es ↔ db e.ap = some e.psk

/-- **The file is the map**: it has one entry for each SSID that has a key, and nothing
else, and the key is what `load_saved_psk` returns. -/
structure Behaves (f : File) (db : Db) : Prop where
  lists : ∃ es, Lists f es db
  load : ∀ c : Top, loadSavedPsk c f = .ok (db c.ap)

/-- Entries that can be read back: few enough, and none for the empty SSID. -/
def Usable (es : List Entry) : Prop :=
  es.length ≤ maxPskEntries ∧ ∀ e ∈ es, e.ap.slen ≠ 0

section Map

variable {f : File} {es : List Entry} {db : Db}

section

variable (h : Lists f es db)
include h

lemma Lists.length : (content f).length = 66 * es.length := by
  rw [h.bytes]
  exact Records.length_bytes length_encode es

/-- An SSID without an entry has no key. -/
theorem Lists.absent {s : Ssid} (hs : ∀ e ∈ es, e.ap ≠ s) : db s = none := by
  rcases hdb : db s with - | p
  · rfl
  · exact absurd rfl (hs ⟨s, p⟩ ((h.mem ⟨s, p⟩).mpr hdb))

/-- A file with few enough entries is opened, and what is then found is what would be
found among the entries. -/
theorem openReadConfig_lists (hlen : es.length ≤ maxPskEntries) :
    ∃ cfg, openReadConfig f = .ok cfg ∧
      ((f = none ∧ es = [] ∧ ∀ c, findEntry c cfg = none) ∨
        (f = some (es.flatMap Entry.encode) ∧ cfg = readBack es)) := by
  have hlen66 := h.length
  rcases f with - | d
  · refine ⟨_, rfl, .inl ⟨rfl, ?_, ?_⟩⟩
    · have : 0 = 66 * es.length := hlen66
      exact length_eq_zero_iff.mp (by omega)
    · intro c
      simp [findEntry, findFrom]
  · obtain rfl : d = es.flatMap Entry.encode := h.bytes
    have hsize : (es.flatMap Entry.encode).length = 66 * es.length := hlen66
    refine ⟨readBack es, ?_, .inr ⟨rfl, rfl⟩⟩
    rw [openReadConfig, if_neg, if_neg]
    · rfl
    · rw [hsize, sizeofSaved]
      omega
    · rw [hsize, sizeofSaved]
      omega

/-- **What `load_saved_psk` returns** on a file that can be opened. -/
theorem loadSavedPsk_lists (hlen : es.length ≤ maxPskEntries) (c : Top) :
    loadSavedPsk c f = .ok (if c.ap.slen = 0 then none else db c.ap) := by
  obtain ⟨cfg, hopen, ⟨-, rfl, hnone⟩ | ⟨-, rfl⟩⟩ := openReadConfig_lists h hlen
  · have habs : db c.ap = none := h.absent (fun e he => nomatch he)
    rw [loadSavedPsk, hopen]
    show Except.ok ((findEntry c cfg).map (pskAt cfg)) = _
    rw [hnone, habs, ite_self]
    rfl
  rw [loadSavedPsk, hopen]
  show Except.ok ((findEntry c (readBack es)).map (pskAt (readBack es))) = _
  rcases findEntry_readBack c es with ⟨i, e, hget, hap, hfind⟩ | ⟨hfind, hnone⟩
  · have hpos : c.ap.slen ≠ 0 := by
      intro h0
      rw [findEntry, if_pos h0] at hfind
      cases hfind
    have hdb : db c.ap = some e.psk := by
      rw [← hap]
      exact (h.mem e).mp (mem_of_getElem? hget)
    rw [hfind, if_neg hpos, hdb, map_some, pskAt_readBack hget]
  · rw [hfind]
    rcases hnone with h0 | hnone
    · rw [if_pos h0]
      rfl
    · rw [h.absent hnone, ite_self]
      rfl

/-- A file with too many entries is not opened. -/
theorem loadSavedPsk_error (hlen : maxPskEntries < es.length) (c : Top) :
    loadSavedPsk c f = .error ⟨none, some cfgname, some .E2BIG⟩ := by
  have hsize := h.length
  rcases f with - | d
  · have : 0 = 66 * es.length := hsize
    omega
  have hbig : maxPskEntries * sizeofSaved < d.length := by
    have : d.length = 66 * es.length := hsize
    rw [this, sizeofSaved]
    omega
  rw [loadSavedPsk, openReadConfig, if_pos hbig]
  rfl

/-- **A list of entries behaves as a map** when it can be read back, and only then. -/
theorem Lists.behaves_iff : Behaves f db ↔ Usable es := by
  constructor
  · intro hb
    have hlen : es.length ≤ maxPskEntries := by
      by_contra hbig
      have hload := hb.load ⟨⟨[], Nat.zero_le 32, not_mem_nil⟩, Bytes.zero 32, false⟩
      rw [loadSavedPsk_error h (Nat.lt_of_not_le hbig)] at hload
      cases hload
    refine ⟨hlen, ?_⟩
    intro e he h0
    have hload := hb.load ⟨e.ap, e.psk, false⟩
    rw [loadSavedPsk_lists h hlen, if_pos h0, (h.mem e).mp he] at hload
    cases hload
  · rintro ⟨hlen, hpos⟩
    refine ⟨⟨es, h⟩, ?_⟩
    intro c
    rw [loadSavedPsk_lists h hlen]
    split
    · rename_i h0
      have habs : db c.ap = none := h.absent (fun e he hap => hpos e he (hap ▸ h0))
      rw [habs]
    · rfl

end

end Map

/-! ### One command -/

/-- The file has a slot that starts with the SSID. -/
def Has (f : File) (s : Ssid) : Prop :=
  ∃ i < (content f).length / sizeofSaved, ((content f).drop (sizeofSaved * i)).take 32 = s.ssid.data

/-- **Commands that keep to the working paths**: a store must be of a non-empty SSID the file
does not have, into a file that is not full; a removal must be of an SSID the file does not
have, or of the only entry. -/
def Harmless (f : File) : Op → Prop
  | .store c => c.unsaved = true →
      c.ap.slen ≠ 0 ∧ ¬Has f c.ap ∧ (content f).length < maxPskEntries * sizeofSaved
  | .remove c => Has f c.ap → (content f).length = sizeofSaved

section Step

variable {f : File} {es : List Entry} {db : Db}

lemma Lists.has_iff (h : Lists f es db) (s : Ssid) : Has f s ↔ ∃ e ∈ es, e.ap = s := by
  have hslots : (content f).length / sizeofSaved = es.length := by
    rw [h.length, sizeofSaved]
    omega
  have hslot : ∀ i e, es[i]? = some e →
      ((content f).drop (sizeofSaved * i)).take 32 = e.ap.ssid.data := by
    intro i e he
    rw [h.bytes]
    exact ssidAt_readBack he
  rw [Has, hslots]
  constructor
  · rintro ⟨i, hi, hs⟩
    rw [hslot i es[i] (getElem?_eq_getElem hi)] at hs
    exact ⟨es[i], getElem_mem hi, Ssid.ssid_injective (Bytes.ext hs)⟩
  · rintro ⟨e, he, rfl⟩
    obtain ⟨i, hi, rfl⟩ := mem_iff_getElem.mp he
    exact ⟨i, hi, hslot i es[i] (getElem?_eq_getElem hi)⟩

/-- **The hole**: a file that starts with a slot of zeros is not a list of entries, which
end in newlines. -/
theorem not_behaves_hole {n : ℕ} (hn : 0 < n) (l : List UInt8)
    (hf : content f = replicate (66 * n) 0 ++ l) : ¬Behaves f db := by
  rintro ⟨⟨es, h⟩, -⟩
  have hzero : (content f)[65]? = some 0 := by
    rw [hf, getElem?_append_left (by rw [length_replicate]; omega),
      getElem?_replicate, if_pos (by omega)]
  rw [h.bytes] at hzero
  obtain - | ⟨e, es⟩ := es
  · cases hzero
  have hnl : (e.encode ++ es.flatMap Entry.encode)[65]? = some 10 := by
    rw [getElem?_append_left (by rw [length_encode]; decide), Entry.encode, saved,
      getElem?_append_right (by simp)]
    simp
  rw [flatMap_cons, hnl] at hzero
  cases hzero

variable {cfg : Config} {c : Top}

/-- A store of a fresh key, once the file is opened. -/
theorem step_store_eq (hc : c.unsaved = true) (hopen : openReadConfig f = .ok cfg) :
    step f (.store c) = match findEntry c cfg with
      | some old => saveConfig f (setPsk cfg old c.psk)
      | none => appendEntry f cfg (saved c.ap c.psk) := by
  simp only [step, maybeStorePsk, hc, not_true, if_false, hopen, bind, Except.bind, pure,
    Except.pure]
  rcases findEntry c cfg with - | old <;> rfl

/-- A removal, once the file is opened. -/
theorem step_remove_eq (hopen : openReadConfig f = .ok cfg) :
    step f (.remove c) = match findEntry c cfg with
      | some sv => saveConfig f (removeEntry cfg sv)
      | none => f := by
  simp only [step, removePskEntry, hopen, bind, Except.bind, pure, Except.pure]
  rcases findEntry c cfg with - | sv <;> rfl

/-- Saving a buffer that is not empty writes it behind as many zeros as there were bytes. -/
theorem saveConfig_hole {off : ℕ} (hfd : cfg.fd = some off) (hlen : cfg.len ≠ 0) :
    content (saveConfig f cfg) = replicate off 0 ++ (cfg.buf.getD []).take cfg.len := by
  rw [saveConfig, hfd]
  show content (if cfg.len = 0 then none else some (pwrite [] off _)) = _
  rw [if_neg hlen, pwrite_nil]
  rfl

/-- Storing under an SSID that has an entry makes a hole. -/
theorem not_behaves_store_old (h : Lists f es db) (hu : Usable es)
    (hc : c.unsaved = true) (hpos : c.ap.slen ≠ 0) (hin : ∃ e ∈ es, e.ap = c.ap) (db' : Db) :
    ¬Behaves (step f (.store c)) db' := by
  obtain ⟨e, he, hap⟩ := hin
  obtain ⟨cfg, hopen, ⟨-, rfl, -⟩ | ⟨-, rfl⟩⟩ := openReadConfig_lists h hu.1
  · cases he
  rcases findEntry_readBack c es with ⟨i, -, -, -, hfind⟩ | ⟨-, h0 | hnone⟩
  · have hstep : step f (.store c) = saveConfig f (setPsk (readBack es) (66 * i) c.psk) := by
      rw [step_store_eq hc hopen, hfind]
    have hlen : es.length ≠ 0 := fun h0 => by
      rw [length_eq_zero_iff.mp h0] at he
      cases he
    have hfd : (setPsk (readBack es) (66 * i) c.psk).fd = some (66 * es.length) :=
      congrArg some (readBack_len es)
    have hbuf : (setPsk (readBack es) (66 * i) c.psk).len ≠ 0 := by
      show (readBack es).len ≠ 0
      rw [readBack_len]
      omega
    rw [hstep]
    exact not_behaves_hole (pos_of_ne_zero hlen) _ (saveConfig_hole hfd hbuf)
  · exact absurd h0 hpos
  · exact absurd hap (hnone e he)

/-- Storing under an SSID that has no entry appends one. -/
theorem step_store_new (h : Lists f es db) (hu : Usable es) (hc : c.unsaved = true)
    (hnew : ∀ e ∈ es, e.ap ≠ c.ap) :
    Lists (step f (.store c)) (es ++ [⟨c.ap, c.psk⟩]) (dbStep db (.store c)) := by
  have happ : content (step f (.store c)) = es.flatMap Entry.encode ++ saved c.ap c.psk := by
    obtain ⟨cfg, hopen, ⟨rfl, rfl, hnone⟩ | ⟨hf, rfl⟩⟩ := openReadConfig_lists h hu.1
    · rw [step_store_eq hc hopen, hnone]
      cases hopen
      rfl
    · have hfind : findEntry c (readBack es) = none := by
        rcases findEntry_readBack c es with ⟨i, e, hget, hap, -⟩ | ⟨hfind, -⟩
        · exact absurd hap (hnew e (mem_of_getElem? hget))
        · exact hfind
      rw [step_store_eq hc hopen, hfind, hf]
      exact pwrite_end _ _
  refine ⟨?_, ?_, ?_⟩
  · rw [happ, flatMap_append, flatMap_singleton]
    rfl
  · rw [map_append, map_singleton, nodup_append]
    refine ⟨h.nodup, nodup_singleton _, ?_⟩
    intro s hs t ht
    obtain ⟨e, he, rfl⟩ := mem_map.mp hs
    rw [mem_singleton.mp ht]
    exact hnew e he
  · intro e
    rw [dbStep, if_pos hc, mem_append, mem_singleton]
    by_cases hap : e.ap = c.ap
    · have hout : e ∉ es := fun he => hnew e he hap
      rw [hap, update_self, some_inj]
      refine ⟨fun hor => ?_, fun hpsk => .inr ?_⟩
      · rcases hor with he | rfl
        · exact absurd he hout
        · rfl
      · cases e
        cases hap
        cases hpsk
        rfl
    · rw [update_of_ne hap, h.mem]
      refine ⟨fun hor => ?_, .inl⟩
      rcases hor with he | rfl
      · exact he
      · exact absurd rfl hap

/-- Removing an SSID without an entry fails and changes nothing. -/
theorem step_remove_absent (h : Lists f es db) (hu : Usable es)
    (hout : ∀ e ∈ es, e.ap ≠ c.ap) : step f (.remove c) = f ∧ dbStep db (.remove c) = db := by
  constructor
  · have hnone : ∃ cfg, openReadConfig f = .ok cfg ∧ findEntry c cfg = none := by
      obtain ⟨cfg, hopen, ⟨-, -, hnone⟩ | ⟨-, rfl⟩⟩ := openReadConfig_lists h hu.1
      · exact ⟨cfg, hopen, hnone c⟩
      refine ⟨readBack es, hopen, ?_⟩
      rcases findEntry_readBack c es with ⟨i, e, hget, hap, -⟩ | ⟨hfind, -⟩
      · exact absurd hap (hout e (mem_of_getElem? hget))
      · exact hfind
    obtain ⟨cfg, hopen, hfind⟩ := hnone
    rw [step_remove_eq hopen, hfind]
  · exact update_eq_self_iff.mpr (h.absent hout).symm

/-- The step of a removal that found its entry. -/
theorem step_remove_found (h : Lists f es db) (hu : Usable es)
    (hin : ∃ e ∈ es, e.ap = c.ap) :
    ∃ i < es.length, step f (.remove c) = saveConfig f (removeEntry (readBack es) (66 * i)) := by
  obtain ⟨e, he, hap⟩ := hin
  obtain ⟨cfg, hopen, ⟨-, rfl, -⟩ | ⟨-, rfl⟩⟩ := openReadConfig_lists h hu.1
  · cases he
  rcases findEntry_readBack c es with ⟨i, e', hget, -, hfind⟩ | ⟨-, h0 | hnone⟩
  · refine ⟨i, (List.getElem?_eq_some_iff.mp hget).1, ?_⟩
    rw [step_remove_eq hopen, hfind]
  · exact absurd (hap ▸ h0) (hu.2 e he)
  · exact absurd hap (hnone e he)

/-- What removing leaves in memory is one entry shorter. -/
theorem removeEntry_len {i : ℕ} (hi : i < es.length) :
    (removeEntry (readBack es) (66 * i)).fd = some (66 * es.length) ∧
      (removeEntry (readBack es) (66 * i)).len = 66 * (es.length - 1) := by
  have hlen := readBack_len es
  have hguard : ¬(readBack es).len < 66 * i + sizeofSaved := by
    rw [hlen, sizeofSaved]
    omega
  constructor
  · show (if (readBack es).len < 66 * i + sizeofSaved then readBack es else _).fd = _
    rw [if_neg hguard]
    exact congrArg some hlen
  · show (if (readBack es).len < 66 * i + sizeofSaved then readBack es else _).len = _
    rw [if_neg hguard]
    show (readBack es).len - sizeofSaved = _
    rw [hlen, sizeofSaved]
    omega

/-- **Removing the only entry** unlinks the file. -/
theorem step_remove_last (h : Lists f es db) (hu : Usable es)
    (hin : ∃ e ∈ es, e.ap = c.ap) (hone : es.length = 1) :
    Lists (step f (.remove c)) [] (dbStep db (.remove c)) := by
  obtain ⟨i, hi, hstep⟩ := step_remove_found h hu hin
  obtain ⟨hfd, hlen⟩ := removeEntry_len hi
  have hgone : step f (.remove c) = none := by
    rw [hstep, saveConfig, hfd]
    show (if (removeEntry (readBack es) (66 * i)).len = 0 then none else _) = _
    rw [if_pos (by rw [hlen, hone])]
  obtain ⟨e, rfl⟩ := length_eq_one_iff.mp hone
  obtain ⟨e', he', hap⟩ := hin
  obtain rfl : e' = e := mem_singleton.mp he'
  refine ⟨by rw [hgone]; rfl, nodup_nil, ?_⟩
  intro e
  refine ⟨(fun he => nomatch he), ?_⟩
  intro hdb
  have hne : e.ap ≠ c.ap := by
    intro heq
    rw [dbStep, heq, update_self] at hdb
    cases hdb
  rw [dbStep, update_of_ne hne, ← h.mem, mem_singleton] at hdb
  rw [hdb] at hne
  exact absurd hap hne

/-- Removing one of several entries makes a hole. -/
theorem not_behaves_remove (h : Lists f es db) (hu : Usable es)
    (hin : ∃ e ∈ es, e.ap = c.ap) (hmany : es.length ≠ 1) (db' : Db) :
    ¬Behaves (step f (.remove c)) db' := by
  obtain ⟨i, hi, hstep⟩ := step_remove_found h hu hin
  obtain ⟨hfd, hlen⟩ := removeEntry_len hi
  have hbuf : (removeEntry (readBack es) (66 * i)).len ≠ 0 := by
    rw [hlen]
    omega
  rw [hstep]
  exact not_behaves_hole (Nat.zero_lt_of_lt hi) _ (saveConfig_hole hfd hbuf)

/-- **One command**: from a file that behaves, the commands after which it still does are the
harmless ones. -/
theorem step_behaves_iff (hb : Behaves f db) (op : Op) :
    Behaves (step f op) (dbStep db op) ↔ Harmless f op := by
  obtain ⟨es, h⟩ := hb.lists
  have hu : Usable es := h.behaves_iff.mp hb
  have hsize := h.length
  cases op with
  | store c =>
    by_cases hc : c.unsaved = true
    swap
    · have hstep : step f (.store c) = f := by
        simp only [step, maybeStorePsk, hc]
        rfl
      rw [hstep, dbStep, if_neg hc]
      exact ⟨fun _ hc' => absurd hc' hc, fun _ => hb⟩
    rw [Harmless, h.has_iff]
    by_cases hin : ∃ e ∈ es, e.ap = c.ap
    · have hpos : c.ap.slen ≠ 0 := by
        obtain ⟨e, he, hap⟩ := hin
        rw [← hap]
        exact hu.2 e he
      refine ⟨fun hb' => absurd hb' (not_behaves_store_old h hu hc hpos hin _), ?_⟩
      intro hharm
      exact absurd hin (hharm hc).2.1
    · have hnew : ∀ e ∈ es, e.ap ≠ c.ap := fun e he hap => hin ⟨e, he, hap⟩
      rw [(step_store_new h hu hc hnew).behaves_iff, Usable, length_append,
        length_singleton, hsize, sizeofSaved]
      constructor
      · rintro ⟨hlen, hpos⟩ -
        exact ⟨hpos _ (mem_append_right _ mem_cons_self), hin, by omega⟩
      · intro hharm
        obtain ⟨hpos, -, hlen⟩ := hharm hc
        refine ⟨by omega, ?_⟩
        intro e he
        rcases mem_append.mp he with he | he
        · exact hu.2 e he
        · rw [mem_singleton.mp he]
          exact hpos
  | remove c =>
    rw [Harmless, h.has_iff]
    by_cases hin : ∃ e ∈ es, e.ap = c.ap
    swap
    · obtain ⟨hstep, hdb⟩ := step_remove_absent h hu (fun e he hap => hin ⟨e, he, hap⟩)
      rw [hstep, hdb]
      exact ⟨fun _ hin' => absurd hin' hin, fun _ => hb⟩
    by_cases hone : es.length = 1
    · refine ⟨fun _ _ => by rw [hsize, hone]; rfl, fun _ => ?_⟩
      refine (step_remove_last h hu hin hone).behaves_iff.mpr ⟨Nat.zero_le _, ?_⟩
      exact fun e he => by cases he
    · refine ⟨fun hb' => absurd hb' (not_behaves_remove h hu hin hone _), ?_⟩
      intro hharm
      have := hharm hin
      rw [hsize, sizeofSaved] at this
      omega

end Step

/-! ### Runs -/

/-- Every command is harmless for the file it finds. -/
def AllHarmless : File → List Op → Prop
  | _, [] => True
  | f, op :: ops => Harmless f op ∧ AllHarmless (step f op) ops

/-- A database file: entries with different SSIDs, one after the other. An absent file has
none. -/
structure Database where
  file : File
  entries : List Entry
  distinct : (entries.map Entry.ap).Nodup
  bytes : content file = entries.flatMap Entry.encode

/-- The key of an SSID in the database. -/
def Database.db (d : Database) : Db := fun s => (d.entries.find? (·.ap = s)).map Entry.psk

lemma Database.lists (d : Database) : Lists d.file d.entries d.db := by
  refine ⟨d.bytes, d.distinct, ?_⟩
  intro e
  constructor
  · intro he
    rcases hfind : d.entries.find? (·.ap = e.ap) with - | e'
    · exact absurd (decide_eq_true rfl) (find?_eq_none.mp hfind e he)
    have hap : e'.ap = e.ap := by simpa using find?_some hfind
    have heq := inj_on_of_nodup_map d.distinct (mem_of_find?_eq_some hfind) he hap
    rw [Database.db, hfind, heq]
    rfl
  · intro hdb
    obtain ⟨e', hfind, hpsk⟩ := map_eq_some_iff.mp hdb
    have hap : e'.ap = e.ap := by simpa using find?_some hfind
    obtain rfl : e' = e := by
      cases e
      cases e'
      cases hap
      cases hpsk
      rfl
    exact mem_of_find?_eq_some hfind

/-- From a file that behaves, it behaves all along a run exactly when every command was
harmless. -/
theorem prefixes_behave_iff {f : File} {db : Db} (hb : Behaves f db) (ops : List Op) :
    (∀ pre, pre <+: ops → Behaves (run f pre) (dbRun db pre)) ↔ AllHarmless f ops := by
  induction ops generalizing f db with
  | nil =>
    refine ⟨fun _ => trivial, ?_⟩
    intro _ pre hpre
    rw [prefix_nil.mp hpre]
    exact hb
  | cons op ops ih =>
    rw [AllHarmless]
    constructor
    · intro hall
      have hstep : Behaves (step f op) (dbStep db op) :=
        hall [op] ⟨ops, rfl⟩
      refine ⟨(step_behaves_iff hb op).mp hstep, (ih hstep).mp ?_⟩
      intro pre hpre
      exact hall (op :: pre) (cons_prefix_cons.mpr ⟨rfl, hpre⟩)
    · rintro ⟨hharm, hrest⟩ pre hpre
      have hstep := (step_behaves_iff hb op).mpr hharm
      obtain - | ⟨op', pre⟩ := pre
      · exact hb
      obtain ⟨rfl, htail⟩ := cons_prefix_cons.mp hpre
      exact (ih hstep).mpr hrest pre htail

/-- **The database behaves as a map all along a run exactly when** its entries could be read
back to begin with and every command was harmless. -/
theorem run_behaves_iff (d : Database) (ops : List Op) :
    (∀ pre, pre <+: ops → Behaves (run d.file pre) (dbRun d.db pre)) ↔
      Usable d.entries ∧ AllHarmless d.file ops := by
  constructor
  · intro hall
    have hb : Behaves d.file d.db := hall [] nil_prefix
    exact ⟨d.lists.behaves_iff.mp hb, (prefixes_behave_iff hb ops).mp hall⟩
  · rintro ⟨hu, hharm⟩
    exact (prefixes_behave_iff (d.lists.behaves_iff.mpr hu) ops).mpr hharm

/-- No file yet. -/
def Database.absent : Database := ⟨none, [], nodup_nil, rfl⟩

/-- A key for the network `cafe`. -/
def cafe : Top := ⟨⟨[99, 97, 102, 101], by decide, by decide⟩, Bytes.zero 32, true⟩

/-- **A key stored twice** ends up behind a slot of zeros, in a file that is no list of
entries. -/
theorem stored_twice :
    run Database.absent.file [.store cafe, .store cafe]
        = some (replicate 66 0 ++ saved cafe.ap cafe.psk) ∧
      ¬Behaves (run Database.absent.file [.store cafe, .store cafe])
        (dbRun Database.absent.db [.store cafe, .store cafe]) := by
  have hrun : run Database.absent.file [.store cafe, .store cafe]
      = some (replicate (66 * 1) 0 ++ saved cafe.ap cafe.psk) := by
    decide +kernel
  refine ⟨hrun, ?_⟩
  rw [hrun]
  exact not_behaves_hole one_pos _ rfl

end Minibase.Psk
