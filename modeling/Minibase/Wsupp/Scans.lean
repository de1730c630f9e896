import Minibase.Lib.Memory
import Minibase.Lib.Bytes

/-!
# The table of stations

Scan results are kept in a table of thirty slots (`wsupp_slots.c`), one for each station. The
information elements a station sends are kept in a heap that only grows until it is reset as a
whole; a slot has a pointer to its own block of them. In `Wsupp.Slot` the block is given by an
offset from `hp.org`. The memory behind that is not bounded by anything: a block that is copied to
where it does not fit overwrites what is there. The functions are those of `wsupp_slots.c`, and
those of `wsupp_nlscan.c` that work on the table.
-/

namespace Minibase.Wsupp

/-! ### State -/

def NSCANS : ℕ := 30

/-- `SF_SEEN`, `SF_STALE`, `SF_GOOD` and `SF_TKIP`. -/
def SF_SEEN : UInt32 := 1
def SF_STALE : UInt32 := 4
def SF_GOOD : UInt32 := 8
def SF_TKIP : UInt32 := 16

/-- `struct scan`. -/
structure Slot where
  flags : UInt32
  freq : UInt16
  signal : Int16
  bssid : Bytes 6
  ieslen : UInt16
  /-- Where the block is, if there is one. -/
  ies : Option ℕ
deriving DecidableEq

/-- A slot after `memzero`. -/
def Slot.zero : Slot := ⟨0, 0, 0, Bytes.zero 6, 0, none⟩

/-- The table and the heap. -/
structure Table where
  scans : Fin NSCANS → Slot
  nscans : ℕ
  /-- The memory from `hp.org` on. -/
  mem : Mem
  /-- `hp.ptr`. -/
  ptr : ℕ
  /-- `hp.brk`. -/
  brk : ℕ

namespace Table

/-- `init_heap_ptrs`, and static storage. -/
def init : Table := ⟨fun _ => Slot.zero, 0, fun _ => 0, 0, 0⟩

variable (t : Table)

/-- Change a slot. -/
def set (i : Fin NSCANS) (sc : Slot) : Table :=
  { t with scans := Function.update t.scans i sc }

/-- The slots that are in use, or were. -/
def used : List (Fin NSCANS) := (List.finRange NSCANS).filter fun i => i < t.nscans

/-! ### The heap -/

def PAGE : ℕ := 4096

def pagealign (sz : ℕ) : ℕ := (sz + PAGE - 1) / PAGE * PAGE

variable (grant : Bool)

/-- `extend_heap`, given whether more memory is granted when it is asked for. -/
def extendHeap (size : ℕ) : Option Table :=
  let left := t.brk - t.ptr
  if size ≤ left then some t
  else if grant then some { t with brk := t.brk + pagealign (size - left) }
  else none

def heapStore (buf : List UInt8) : Option (ℕ × Table) :=
  match t.extendHeap grant buf.length with
  | none => none
  | some t => some (t.ptr, { t with ptr := t.ptr + buf.length, mem := t.mem.store t.ptr buf })

def maybeTrimHeap : Table :=
  if pagealign t.ptr ≥ t.brk then t else { t with brk := pagealign t.ptr }

def resetHeap : Table := { t with ptr := 0 }

/-! ### Slots -/

/-- `grab_slot`: the first slot that is all zeros, or one more. -/
def grabSlot : Option (Fin NSCANS × Table) :=
  match t.used.find? fun i => t.scans i = Slot.zero with
  | some i => some (i, t)
  | none => if h : t.nscans < NSCANS then some
    (⟨t.nscans, h⟩, { t with nscans := t.nscans + 1 }) else none

def findScanSlot (bssid : Bytes 6) : Option (Fin NSCANS) :=
  t.used.find? fun i => (t.scans i).freq ≠ 0 ∧ (t.scans i).bssid = bssid

/-- A slot that may be given up: weak, and not seen in the scan that is going on. -/
def weak (sc : Slot) : Bool := sc.signal ≤ -8000 ∧ sc.flags &&& SF_STALE ≠ 0

def grabScanSlot (bssid : Bytes 6) : Option (Fin NSCANS × Table) :=
  match t.findScanSlot bssid with
  | some i => some (i, t)
  | none =>
    match t.grabSlot with
    | some r => some r
    | none =>
      match t.used.find? fun i => weak (t.scans i) with
      | some i => some (i, t.set i Slot.zero)
      | none => none

/-- The number of slots, once the empty ones at the end are dropped. -/
def shrink (scans : Fin NSCANS → Slot) : ℕ → ℕ
  | 0 => 0
  | n + 1 => if h : n < NSCANS then if scans
    ⟨n, h⟩ = Slot.zero then shrink scans n else n + 1 else n + 1

def freeScanSlot (i : Fin NSCANS) : Table :=
  let t := t.set i Slot.zero
  { t with nscans := shrink t.scans t.nscans }

def clearScanTable : Table :=
  maybeTrimHeap { t with nscans := 0, scans := fun _ => Slot.zero, ptr := 0 }

def resetIesData : Table :=
  let forget (sc : Slot) : Slot :=
    { sc with ies := none, ieslen := 0, flags := sc.flags &&& ~~~(SF_SEEN ||| SF_GOOD ||| SF_TKIP) }
  resetHeap { t with scans := fun i => if i < t.nscans then forget (t.scans i) else t.scans i }

/-! ### Results -/

/-- A message with a scan result: what is found in its `NL80211_ATTR_BSS`, numbers that are
missing being zero. The length of an attribute has sixteen bits. -/
structure Result where
  bssid : Bytes 6
  freq : Int32
  signal : Int32
  ies : Option { l : List UInt8 // l.length < 65536 }

/-- Where `parse_scan_result` copies a block of `len` bytes to without asking the heap: to the
old one, if its length is not above that. -/
def inPlace (sc : Slot) (len : ℕ) : Option ℕ :=
  match sc.ies with
  | some a => if sc.ieslen.toNat ≤ len then some a else none
  | none => none

/-- What `parse_scan_result` does about the information elements, for the slot `i`. -/
def storeIes (i : Fin NSCANS) (data : List UInt8) : Table :=
  match inPlace (t.scans i) data.length with
  | some a =>
    { t with mem := t.mem.store a data }.set i { t.scans i with ieslen := UInt16.ofNat data.length }
  | none =>
    match t.heapStore grant data with
    | some (a, t) => t.set i { t.scans i with ies := some a, ieslen := UInt16.ofNat data.length }
    | none => t

/-- `parse_scan_result`, for a message that has an address in it. -/
def parseScanResult (r : Result) : Table :=
  match t.grabScanSlot r.bssid with
  | none => t
  | some (i, t) =>
    let sc := t.scans i
    let t := t.set i { sc with
      bssid := r.bssid
      freq := r.freq.toUInt32.toUInt16
      signal := r.signal.toInt16
      flags := sc.flags &&& ~~~SF_STALE }
    match r.ies with
    | none => t
    | some data => t.storeIes grant i data.val

/-! ### Runs -/

/-- Something that is done to the table. -/
inductive Change where
  /-- A result arrives, and memory is granted for it or not. -/
  | result (grant : Bool) (r : Result)
  /-- The results of a whole scan are about to arrive. -/
  | reset
  /-- A slot is given up. -/
  | free (i : Fin NSCANS)
  /-- The results of a scan have arrived. -/
  | trim
  | clear
  /-- The flags of a slot in use are changed, here or in `wsupp_bssid.c`. -/
  | flag (i : Fin NSCANS) (flags : UInt32)

def next : Change → Table
  | .result grant r => t.parseScanResult grant r
  | .reset => t.resetIesData
  | .free i => t.freeScanSlot i
  | .trim => t.maybeTrimHeap
  | .clear => t.clearScanTable
  | .flag i flags => if i < t.nscans then t.set i { t.scans i with flags := flags } else t

/-- The table after a sequence of changes. -/
def after (l : List Change) : Table := l.foldl next t

lemma after_concat (l : List Change) (c : Change) : t.after (l ++ [c]) = (t.after l).next c :=
  List.foldl_concat ..

end Table

end Minibase.Wsupp
