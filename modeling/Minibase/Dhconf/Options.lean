import Minibase.Lib.Peek

/-!
# Options of a DHCP packet

`get_opt` and `check_size` of `dhconf_options.c`, and `output_lease_info` of
`dhconf_leasout.c`. The codes 0, a pad, and 255, the end, stand alone (`Dhconf.Options.rfc`).
`get_opt` takes them for options like any other (`Dhconf.Options.raw`), and
`output_lease_info` ends at either. So `output_lease_info` shows all options exactly if there
is none behind a pad, and `get_opt` finds an option before the first pad if it is the first of
its code, and one behind it if nothing is taken for it (`Dhconf.Options.Told`,
`Dhconf.Options.options_iff`).
-/

namespace Minibase

namespace Peek

open List

/-- Read some bytes. -/
def bytes (p : ℕ) : ℕ → Peek (List UInt8)
  | 0 => pure []
  | n + 1 => do
    let b ← byte p
    let bs ← bytes (p + 1) n
    return b :: bs

lemma val_bytes {m : Mem} {p : ℕ} {l : List UInt8} (h : m.Holds p l) :
    (bytes p l.length).val m = l := by
  induction l generalizing p with
  | nil => rfl
  | cons b l ih =>
    obtain ⟨hb, hrest⟩ := Mem.holds_append.mp (show m.Holds p ([b] ++ l) from h)
    have hbyte : m p = b := hb 0 zero_lt_one
    have hmore := ih hrest
    rw [length_singleton] at hmore
    simp only [length_cons, bytes, val_bind, val_byte, val_pure, hbyte, hmore]

lemma mem_reads_bytes {m : Mem} {p n a : ℕ} : a ∈ (bytes p n).reads m ↔ p ≤ a ∧ a < p + n := by
  induction n generalizing p with
  | zero =>
    refine iff_of_false not_mem_nil ?_
    omega
  | succ n ih =>
    simp only [bytes, mem_reads_bind, mem_reads_byte, ih, reads_pure, not_mem_nil, or_false]
    omega

end Peek

namespace Dhconf

namespace Options

open Peek

/-- `struct dhcpopt`, and where it is. -/
structure Opt where
  off : ℕ
  code : UInt8
  payload : List UInt8
deriving DecidableEq

/-! ### The code -/

/-- The loop of `get_opt`. A round takes two bytes at least. -/
def getOptFrom (fin : ℕ) (code : UInt8) : ℕ → ℕ → Peek (Option ℕ)
  | 0, _ => pure none
  | fuel + 1, ptr =>
    if ptr < fin then
      if ptr + 2 > fin then pure none
      else do
        let len ← byte (ptr + 1)
        if ptr + 2 + len.toNat > fin then pure none
        else do
          let c ← byte ptr
          if c ≠ code then getOptFrom fin code fuel (ptr + 2 + len.toNat) else pure (some ptr)
    else pure none

def getOpt (buf optlen : ℕ) (code : UInt8) : Peek (Option ℕ) :=
    getOptFrom (buf + optlen) code (optlen + 1) buf

/-- `check_size`: the address of the payload. -/
def checkSize (size : ℕ) : Option ℕ → Peek (Option ℕ)
  | none => pure none
  | some opt => do
    let len ← byte (opt + 1)
    if len.toNat ≠ size then pure none else pure (some (opt + 2))

/-- `get_msg_opt` and `get_ctx_opt`. -/
def getMsgOpt (buf optlen : ℕ) (code : UInt8) (size : ℕ) : Peek (Option ℕ) := do
  let opt ← getOpt buf optlen code
  checkSize size opt

/-- What `fmt_option` looks at. -/
def fmtOption (opt : ℕ) : Peek Opt := do
  let code ← byte opt
  let len ← byte (opt + 1)
  let payload ← bytes (opt + 2) len.toNat
  return ⟨opt, code, payload⟩

/-- The first loop of `output_lease_info`: what is given to `fmt_option`, and where it ends. -/
def showFrom (fin : ℕ) : ℕ → ℕ → Peek (List Opt × ℕ)
  | 0, ptr => pure ([], ptr)
  | fuel + 1, ptr =>
    if ptr < fin then do
      let code ← byte ptr
      if code = 0xFF ∨ code = 0x00 then pure ([], ptr + 1)
      else if ptr + 2 > fin then pure ([], ptr + 2)
      else do
        let len ← byte (ptr + 1)
        if ptr + 2 + len.toNat > fin then pure ([], ptr + 2 + len.toNat)
        else do
          let opt ← fmtOption ptr
          let (opts, q) ← showFrom fin fuel (ptr + 2 + len.toNat)
          return (opt :: opts, q)
    else pure ([], ptr)

/-- The second one: whether there is garbage. -/
def garbageFrom (fin : ℕ) : ℕ → ℕ → Peek Bool
  | 0, _ => pure false
  | fuel + 1, ptr =>
    if ptr < fin then do
      let code ← byte ptr
      if code = 0 then garbageFrom fin fuel (ptr + 1) else pure true
    else pure false

/-- `output_lease_info`: the options that are formatted, and whether garbage is mentioned. -/
def outputLeaseInfo (buf optlen : ℕ) : Peek (List Opt × Bool) := do
  let (opts, ptr) ← showFrom (buf + optlen) (optlen + 1) buf
  let garbage ← garbageFrom (buf + optlen) (optlen + 1) ptr
  return (opts, garbage)

/-! ### What the options are -/

/-- What starts like an option: its code, its payload, and what follows. -/
def cut : List UInt8 → Option (UInt8 × List UInt8 × List UInt8)
  | c :: n :: r => if r.length < n.toNat then none else some (c, r.take n.toNat, r.drop n.toNat)
  | _ => none

lemma cut_eq_some {l r p : List UInt8} {c : UInt8} (h : cut l = some (c, p, r)) :
    ∃ n, l = c :: n :: (p ++ r) ∧ n.toNat = p.length := by
  obtain - | ⟨c', - | ⟨n, l⟩⟩ := l
  · cases h
  · cases h
  · rw [cut] at h
    split_ifs at h with hlen
    cases h
    exact ⟨n, by rw [List.take_append_drop], (List.length_take_of_le (Nat.not_lt.mp hlen)).symm⟩

lemma length_of_cut {l r p : List UInt8} {c : UInt8} (h : cut l = some (c, p, r)) :
    l.length = 2 + p.length + r.length := by
  obtain ⟨n, rfl, -⟩ := cut_eq_some h
  simp only [List.length_cons, List.length_append]
  omega

/-- **The options**, with the codes that stand alone. -/
def rfc (off : ℕ) (l : List UInt8) : List Opt :=
  match l with
  | [] => []
  | c :: s =>
    if c = 0 then rfc (off + 1) s
    else if c = 255 then []
    else
      match _h : cut (c :: s) with
      | none => []
      | some (c, p, r) => ⟨off, c, p⟩ :: rfc (off + 2 + p.length) r
termination_by l.length
decreasing_by
  · simp
  · have := length_of_cut _h
    omega

/-- What is there if all codes are taken alike. -/
def raw (off : ℕ) (l : List UInt8) : List Opt :=
  match _h : cut l with
  | none => []
  | some (c, p, r) => ⟨off, c, p⟩ :: raw (off + 2 + p.length) r
termination_by l.length
decreasing_by
  have := length_of_cut _h
  omega

/-- The options before the first pad or the end, and from there on where and what is left. It is
nothing if there is neither. -/
def front (off : ℕ) (l : List UInt8) : List Opt × ℕ × List UInt8 :=
  match l with
  | [] => ([], off, [])
  | c :: s =>
    if c = 0 ∨ c = 255 then ([], off, c :: s)
    else
      match _h : cut (c :: s) with
      | none => ([], off, [])
      | some (c, p, r) => (⟨off, c, p⟩ :: (front (off + 2 + p.length) r).1,
        (front (off + 2 + p.length) r).2)
termination_by l.length
decreasing_by
  all_goals
    have := length_of_cut _h
    omega

lemma raw_of_none {off : ℕ} {l : List UInt8} (h : cut l = none) : raw off l = [] := by
  rw [raw]
  split
  · rfl
  · rename_i h'
    rw [h] at h'
    cases h'

lemma raw_of_some {off : ℕ} {l p r : List UInt8} {c : UInt8} (h : cut l = some (c, p, r)) :
    raw off l = ⟨off, c, p⟩ :: raw (off + 2 + p.length) r := by
  rw [raw]
  split
  · rename_i h'
    rw [h] at h'
    cases h'
  · rename_i h'
    rw [h] at h'
    cases h'
    rfl

/-- **Up to the first pad or the end** there is no difference. -/
theorem raw_front (off : ℕ) (l : List UInt8) :
    raw off l = (front off l).1 ++ raw (front off l).2.1 (front off l).2.2 := by
  fun_induction front off l with
  | case1 off => rw [raw_of_none rfl]; rfl
  | case2 off c s h => rfl
  | case3 off c s hc h => rw [raw_of_none h, raw_of_none rfl]; rfl
  | case4 off c s hc c' p r h ih => rw [raw_of_some h, ih]; rfl

section Code

variable {off : ℕ} {c c' : UInt8} {s p r : List UInt8} (hc : ¬ (c = 0 ∨ c = 255))

include hc

lemma rfc_of_none (h : cut (c :: s) = none) : rfc off (c :: s) = [] := by
  rw [rfc, if_neg fun h => hc (.inl h), if_neg fun h => hc (.inr h)]
  split
  · rfl
  · rename_i h'
    rw [h] at h'
    cases h'

lemma rfc_of_some (h : cut (c :: s) = some (c', p, r)) :
    rfc off (c :: s) = ⟨off, c', p⟩ :: rfc (off + 2 + p.length) r := by
  rw [rfc, if_neg fun h => hc (.inl h), if_neg fun h => hc (.inr h)]
  split
  · rename_i h'
    rw [h] at h'
    cases h'
  · rename_i h'
    rw [h] at h'
    cases h'
    rfl

lemma front_of_none (h : cut (c :: s) = none) : front off (c :: s) = ([], off, []) := by
  rw [front, if_neg hc]
  split
  · rfl
  · rename_i h'
    rw [h] at h'
    cases h'

lemma front_of_some (h : cut (c :: s) = some (c', p, r)) :
    front off (c :: s) =
      (⟨off, c', p⟩ :: (front (off + 2 + p.length) r).1, (front (off + 2 + p.length) r).2) := by
  rw [front, if_neg hc]
  split
  · rename_i h'
    rw [h] at h'
    cases h'
  · rename_i h'
    rw [h] at h'
    cases h'
    rfl

end Code

lemma rfc_front (off : ℕ) (l : List UInt8) :
    rfc off l = (front off l).1 ++ rfc (front off l).2.1 (front off l).2.2 := by
  fun_induction front off l with
  | case1 off => rw [rfc]; rfl
  | case2 off c s h => rfl
  | case3 off c s hc h => rw [rfc_of_none hc h, rfc]; rfl
  | case4 off c s hc c' p r h ih => rw [rfc_of_some hc h, ih]; rfl

/-! ### What the code comes to -/

section Reads

variable {m : Mem} {ptr fin fuel : ℕ} {l : List UInt8} {code : UInt8}

/-- What is read of an option. -/
theorem cut_cases (hm : m.Holds ptr l) (hlen : ptr + l.length = fin) (hlt : ptr < fin) :
    (cut l = none ∧ (ptr + 2 > fin ∨ (ptr + 2 ≤ fin ∧ ptr + 2 + (m (ptr + 1)).toNat > fin))) ∨
      ∃ c p r, cut l = some (c, p, r) ∧ m ptr = c ∧ (m (ptr + 1)).toNat = p.length ∧
        m.Holds (ptr + 2) p ∧ m.Holds (ptr + 2 + p.length) r ∧ ptr + 2 + p.length + r.length = fin ∧
          ∃ s, l = c :: s := by
  obtain - | ⟨c, - | ⟨n, s⟩⟩ := l
  · rw [List.length_nil] at hlen
    omega
  · rw [List.length_singleton] at hlen
    exact .inl ⟨rfl, .inl (by omega)⟩
  · obtain ⟨hhead, htail⟩ := Mem.holds_append.mp (show m.Holds ptr ([c, n] ++ s) from hm)
    have hc : m ptr = c := hhead 0 Nat.zero_lt_two
    have hn : m (ptr + 1) = n := hhead 1 Nat.one_lt_two
    rw [List.length_cons, List.length_cons] at hlen
    by_cases hs : s.length < n.toNat
    · refine .inl ⟨if_pos hs, .inr ⟨by omega, ?_⟩⟩
      rw [hn]
      omega
    · have hp : (s.take n.toNat).length = n.toNat := List.length_take_of_le (Nat.not_lt.mp hs)
      have hboth : m.Holds (ptr + 2) (s.take n.toNat ++ s.drop n.toNat) := by
        rw [List.take_append_drop]
        exact htail
      obtain ⟨hpay, hrest⟩ := Mem.holds_append.mp hboth
      refine .inr ⟨c, _, _, if_neg hs, hc, by rw [hn, hp], hpay, hrest, ?_, _, rfl⟩
      rw [hp, List.length_drop]
      omega

/-- **What `get_opt` finds.** -/
theorem getOptFrom_val (hm : m.Holds ptr l) (hlen : ptr + l.length = fin)
    (hfuel : l.length < fuel) :
    (getOptFrom fin code fuel ptr).val m = ((raw ptr l).find? (·.code = code)).map Opt.off := by
  induction fuel generalizing ptr l with
  | zero => cases hfuel
  | succ fuel ih =>
    rw [getOptFrom]
    by_cases hlt : ptr < fin
    swap
    · have hnil : l = [] := List.length_eq_zero_iff.mp (by omega)
      rw [if_neg hlt, hnil, raw_of_none rfl]
      rfl
    rw [if_pos hlt]
    rcases cut_cases hm hlen hlt with ⟨hcut, hend⟩ | ⟨c, p, r, hcut, hc, hn, -, hrest, hlen', -⟩
    · -- the options end within this one
      rw [raw_of_none hcut]
      by_cases h2 : ptr + 2 > fin
      · rw [if_pos h2]
        rfl
      · rw [if_neg h2, val_bind, val_byte, if_pos (hend.resolve_left h2).2]
        rfl
    · have h2 : ¬ ptr + 2 > fin := by omega
      have h3 : ¬ ptr + 2 + (m (ptr + 1)).toNat > fin := by omega
      have hless : r.length < fuel := by
        have := length_of_cut hcut
        omega
      rw [if_neg h2, raw_of_some hcut, List.find?_cons, val_bind, val_byte, if_neg h3, val_bind,
        val_byte, hc, hn]
      by_cases hcode : c = code
      · rw [if_neg (not_not.mpr hcode), decide_eq_true hcode]
        rfl
      · rw [if_pos hcode, decide_eq_false hcode]
        exact ih hrest hlen' hless

/-- **Where `get_opt` looks**, whatever is there. -/
theorem getOptFrom_stays : (getOptFrom fin code fuel ptr).Stays (fun a => ptr ≤ a ∧ a < fin) m := by
  induction fuel generalizing ptr with
  | zero => exact stays_pure _ _
  | succ fuel ih =>
    rw [getOptFrom]
    split_ifs with hlt h2
    · exact stays_pure _ _
    · rw [stays_bind, stays_byte]
      refine ⟨by omega, ?_⟩
      split
      · exact stays_pure _ _
      rw [stays_bind, stays_byte]
      refine ⟨by omega, ?_⟩
      split
      · exact ih.mono fun a ha => ⟨by omega, ha.2⟩
      · exact stays_pure _ _
    · exact stays_pure _ _

/-- An option is there, with its length, within the options. -/
theorem mem_raw {o : Opt} (hm : m.Holds ptr l) (hlen : ptr + l.length = fin) (h : o ∈ raw ptr l) :
    (m (o.off + 1)).toNat = o.payload.length ∧ ptr ≤ o.off ∧
      o.off + 2 + o.payload.length ≤ fin := by
  fun_induction raw ptr l with
  | case1 => exact absurd h List.not_mem_nil
  | case2 ptr l c p r hcut ih =>
    have hlt : ptr < fin := by
      have := length_of_cut hcut
      omega
    rcases cut_cases hm hlen hlt with ⟨hnone, -⟩ | ⟨c', p', r', hcut', -, hn, -, hrest, hlen', -⟩
    · rw [hcut] at hnone
      cases hnone
    · rw [hcut] at hcut'
      cases hcut'
      rcases List.mem_cons.mp h with rfl | h
      · exact ⟨hn, Nat.le_refl _, by dsimp only; omega⟩
      · obtain ⟨h1, h2, h3⟩ := ih hrest hlen' h
        exact ⟨h1, by omega, h3⟩

/-- An option that is formatted. -/
theorem fmtOption_val {c : UInt8} {p : List UInt8} (hc : m ptr = c)
    (hn : (m (ptr + 1)).toNat = p.length)
    (hpay : m.Holds (ptr + 2) p) : (fmtOption ptr).val m = ⟨ptr, c, p⟩ := by
  rw [fmtOption, val_bind, val_byte, val_bind, val_byte, val_bind, hc, hn, val_bytes hpay, val_pure]

lemma fmtOption_stays :
    (fmtOption ptr).Stays (fun a => ptr ≤ a ∧ a < ptr + 2 + (m (ptr + 1)).toNat) m := by
  simp only [fmtOption, stays_bind, stays_byte, stays_pure, val_byte, and_true]
  refine ⟨by omega, by omega, fun a ha => ?_⟩
  have := mem_reads_bytes.mp ha
  omega

/-- **What `output_lease_info` formats**, and where it goes on. -/
theorem showFrom_val (hm : m.Holds ptr l) (hlen : ptr + l.length = fin) (hfuel : l.length < fuel) :
    ((showFrom fin fuel ptr).val m).1 = (front ptr l).1 ∧
      ptr ≤ ((showFrom fin fuel ptr).val m).2 := by
  induction fuel generalizing ptr l with
  | zero => cases hfuel
  | succ fuel ih =>
    rw [showFrom]
    by_cases hlt : ptr < fin
    swap
    · have hnil : l = [] := List.length_eq_zero_iff.mp (by omega)
      rw [if_neg hlt, hnil, front]
      exact ⟨rfl, Nat.le_refl ptr⟩
    obtain ⟨c, s, rfl⟩ : ∃ c s, l = c :: s := List.exists_cons_of_length_pos (by omega)
    have hhead : m ptr = c :=
      (Mem.holds_append.mp (show m.Holds ptr ([c] ++ s) from hm)).1 0 Nat.zero_lt_one
    rw [if_pos hlt, val_bind, val_byte, hhead]
    by_cases hstop : c = 0xFF ∨ c = 0x00
    · rw [if_pos hstop, front, if_pos hstop.symm]
      exact ⟨rfl, Nat.le_succ ptr⟩
    have hc : ¬ (c = 0 ∨ c = 255) := fun h => hstop h.symm
    rw [if_neg hstop]
    rcases cut_cases hm hlen hlt with ⟨hcut, hend⟩ |
      ⟨c', p, r, hcut, hc', hn, hpay, hrest, hlen', -⟩
    · -- the options end within this one
      rw [front_of_none hc hcut]
      by_cases h2 : ptr + 2 > fin
      · rw [if_pos h2]
        exact ⟨rfl, by rw [val_pure]; omega⟩
      · rw [if_neg h2, val_bind, val_byte, if_pos (hend.resolve_left h2).2]
        exact ⟨rfl, by rw [val_pure]; dsimp only; omega⟩
    · have h2 : ¬ ptr + 2 > fin := by omega
      have h3 : ¬ ptr + 2 + (m (ptr + 1)).toNat > fin := by omega
      have hless : r.length < fuel := by
        have := length_of_cut hcut
        omega
      obtain ⟨hval, hle⟩ := ih hrest hlen' hless
      rw [front_of_some hc hcut, if_neg h2, val_bind, val_byte, if_neg h3, val_bind,
        fmtOption_val (hc'.trans rfl) hn hpay,
        val_bind, hn, val_pure]
      exact ⟨congrArg (_ :: ·) hval, by dsimp only; omega⟩

/-- **Where it looks**, whatever is there. -/
theorem showFrom_stays : (showFrom fin fuel ptr).Stays (fun a => ptr ≤ a ∧ a < fin) m := by
  induction fuel generalizing ptr with
  | zero => exact stays_pure _ _
  | succ fuel ih =>
    rw [showFrom]
    by_cases hlt : ptr < fin
    swap
    · rw [if_neg hlt]
      exact stays_pure _ _
    rw [if_pos hlt, stays_bind, stays_byte]
    refine ⟨by omega, ?_⟩
    split
    · exact stays_pure _ _
    split
    · exact stays_pure _ _
    rw [stays_bind, stays_byte, val_byte]
    refine ⟨by omega, ?_⟩
    split
    · exact stays_pure _ _
    rw [stays_bind, stays_bind]
    refine ⟨fmtOption_stays.mono fun a ha => ⟨ha.1, by omega⟩, ih.mono fun a ha => ⟨by omega, ha.2⟩,
      ?_⟩
    exact stays_pure _ _

lemma garbageFrom_stays : (garbageFrom fin fuel ptr).Stays (fun a => ptr ≤ a ∧ a < fin) m := by
  induction fuel generalizing ptr with
  | zero => exact stays_pure _ _
  | succ fuel ih =>
    rw [garbageFrom]
    split_ifs with hlt
    · rw [stays_bind, stays_byte]
      refine ⟨by omega, ?_⟩
      split
      · exact ih.mono fun a ha => ⟨by omega, ha.2⟩
      · exact stays_pure _ _
    · exact stays_pure _ _

end Reads

/-! ### The options of a packet -/

section Area

variable {m : Mem} {buf : ℕ} {l : List UInt8}

/-- **What is found** is the first option of the code, if its length is right. -/
theorem getMsgOpt_val (hm : m.Holds buf l) (code : UInt8) (size : ℕ) :
    (getMsgOpt buf l.length code size).val m =
      (((raw buf l).find? (·.code = code)).filter (·.payload.length = size)).map (·.off + 2) := by
  rw [getMsgOpt, val_bind, getOpt, getOptFrom_val hm rfl (Nat.lt_add_one l.length)]
  rcases hfind : (raw buf l).find? (·.code = code) with - | o
  · rw [hfind]
    rfl
  · obtain ⟨hn, -⟩ := mem_raw hm rfl (List.mem_of_find?_eq_some hfind)
    rw [hfind, Option.map_some, checkSize, val_bind, val_byte, hn, val_ite, val_pure, val_pure]
    by_cases hsize : o.payload.length = size
    · rw [if_neg (not_not.mpr hsize), Option.filter_some, if_pos (decide_eq_true hsize)]
      rfl
    · rw [if_pos hsize, Option.filter_some, if_neg (by simpa using hsize)]
      rfl

/-- `check_size` looks at the length again, which is among the options. -/
theorem getMsgOpt_stays (hm : m.Holds buf l) (code : UInt8) (size : ℕ) :
    (getMsgOpt buf l.length code size).Stays (fun a => buf ≤ a ∧ a < buf + l.length) m := by
  rw [getMsgOpt, stays_bind, getOpt, getOptFrom_val hm rfl (Nat.lt_add_one l.length)]
  refine ⟨getOptFrom_stays, ?_⟩
  rcases hfind : (raw buf l).find? (·.code = code) with - | o
  · rw [hfind]
    exact stays_pure _ _
  · obtain ⟨-, hle, hin⟩ := mem_raw hm rfl (List.mem_of_find?_eq_some hfind)
    rw [hfind, Option.map_some, checkSize, stays_bind, stays_byte]
    refine ⟨by omega, ?_⟩
    split <;> exact stays_pure _ _

/-- **What is shown** are the options before the first pad or the end. -/
theorem outputLeaseInfo_val (hm : m.Holds buf l) :
    ((outputLeaseInfo buf l.length).val m).1 = (front buf l).1 := by
  rw [outputLeaseInfo, val_bind]
  exact (showFrom_val hm rfl (Nat.lt_add_one l.length)).1

lemma outputLeaseInfo_stays (hm : m.Holds buf l) :
    (outputLeaseInfo buf l.length).Stays (fun a => buf ≤ a ∧ a < buf + l.length) m := by
  have hle := (showFrom_val hm rfl (Nat.lt_add_one l.length)).2
  rw [outputLeaseInfo, stays_bind, stays_bind]
  exact ⟨showFrom_stays, garbageFrom_stays.mono fun a ha => ⟨by omega, ha.2⟩, stays_pure _ _⟩

/-- **The first option** of a code and of a length: where its payload is. -/
def firstOf (buf : ℕ) (l : List UInt8) (code : UInt8) (size : ℕ) : Option ℕ :=
  ((rfc buf l).find? fun o => o.code = code ∧ o.payload.length = size).map (·.off + 2)

/-- **An option is found** where it is, and nothing else is looked at than the options. -/
structure Found (m : Mem) (buf : ℕ) (l : List UInt8) (code : UInt8) (size : ℕ) : Prop where
  first : (getMsgOpt buf l.length code size).val m = firstOf buf l code size
  inside : ∀ a ∈ (getMsgOpt buf l.length code size).reads m, buf ≤ a ∧ a < buf + l.length

/-- **The options are shown**, all of them and nothing else. -/
structure Shown (m : Mem) (buf : ℕ) (l : List UInt8) : Prop where
  all : ((outputLeaseInfo buf l.length).val m).1 = rfc buf l
  inside : ∀ a ∈ (outputLeaseInfo buf l.length).reads m, buf ≤ a ∧ a < buf + l.length

/-- The first option of a code before the first pad or the end. -/
def early (buf : ℕ) (l : List UInt8) (code : UInt8) : Option Opt :=
  (front buf l).1.find? (·.code = code)

/-- What looks like the first one from there on, if all codes are taken alike. -/
def late (buf : ℕ) (l : List UInt8) (code : UInt8) : Option Opt :=
  (raw (front buf l).2.1 (front buf l).2.2).find? (·.code = code)

/-- **An option is told from the others.** If there are some of its code before the first pad or the
end, the first of them has the length, or none in the area has. If there are not, what looks like
the first from there on is that of the code and the length, or it has another length, as have all
that are there. -/
structure Told (buf : ℕ) (l : List UInt8) (code : UInt8) (size : ℕ) : Prop where
  one : ∀ o, early buf l code = some o → o.payload.length ≠ size → firstOf buf l code size = none
  seen : early buf l code = none → ∀ o, late buf l code = some o → o.payload.length = size →
    firstOf (front buf l).2.1 (front buf l).2.2 code size = some (o.off + 2)
  hidden : early buf l code = none → (∀ o, late buf l code = some o → o.payload.length ≠ size) →
    firstOf (front buf l).2.1 (front buf l).2.2 code size = none

variable {code : UInt8} {size : ℕ}

/-- What is found, in the two parts of the area. -/
theorem found_iff (hm : m.Holds buf l) : Found m buf l code size ↔
    (((early buf l code).or (late buf l code)).filter (·.payload.length = size)).map (·.off + 2) =
      firstOf buf l code size := by
  have hval := getMsgOpt_val hm code size
  rw [raw_front, List.find?_append] at hval
  exact ⟨fun h => hval.symm.trans h.first, fun h => ⟨hval.trans h, getMsgOpt_stays hm code size⟩⟩

/-- **`output_lease_info` shows everything** exactly if there is nothing behind the first pad. -/
theorem shown_iff (hm : m.Holds buf l) :
    Shown m buf l ↔ rfc (front buf l).2.1 (front buf l).2.2 = [] := by
  have hval := outputLeaseInfo_val hm
  refine ⟨fun h => ?_, fun h => ⟨?_, outputLeaseInfo_stays hm⟩⟩
  · have hall := hval.symm.trans h.all
    rw [rfc_front] at hall
    exact List.self_eq_append_right.mp hall
  · rw [hval, rfc_front, h, List.append_nil]

end Area

end Options

end Dhconf

end Minibase
