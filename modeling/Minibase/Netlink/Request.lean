import Minibase.Netlink.Pack

/-!
# Requests that are read as they were packed

Either all of a request fits, and then whoever gets the bytes that are sent finds the attributes
the calls were for, in that order, and those inside of nests likewise; or `nc_send` says so. In no
case is anything written past the end of the buffer (`Netlink.request_round_trip`). What is in
between are the bytes of a `Tlv` (`Netlink.sent_calls`, `Netlink.readsAll_of_holds`). `nl_gen`
takes no message with a type below sixteen (`Netlink.control_not_read`).
-/

namespace Minibase.Netlink

open List Option Tlv Mem Call

/-! ### Packing -/

/-- There is something in the buffer, and it has not overflowed. -/
structure Ready (nc : Nc) : Prop where
  header : 16 ≤ nc.ptr
  inside : nc.ptr ≤ nc.size

/-- **The outcome of packing `bs`**: it is in the buffer, or it does not fit. -/
structure Sent (nc nc' : Nc) (bs : List UInt8) : Prop where
  size : nc'.size = nc.size
  outside : ∀ i, nc.size ≤ i → nc'.mem i = nc.mem i
  ptr : nc.ptr + bs.length ≤ nc.size → nc'.ptr = nc.ptr + bs.length
  holds : nc.ptr + bs.length ≤ nc.size → nc'.mem.Holds nc.ptr bs
  before : nc.ptr + bs.length ≤ nc.size → ∀ i, i < nc.ptr → nc'.mem i = nc.mem i
  excess : nc.size < nc.ptr + bs.length → nc'.ptr = nc.size + 1

variable {nc : Nc}

lemma Sent.nil (hr : Ready nc) : Sent nc nc [] := by
  have := hr.inside
  refine ⟨rfl, fun _ _ => rfl, fun _ => rfl, fun _ => holds_nil _ _, fun _ _ _ => rfl,
    fun h => ?_⟩
  rw [length_nil] at h
  omega

/-- **Two packings in a row are one**, if the second one leaves an overflow alone. -/
theorem Sent.trans {nc₁ nc₂ : Nc} {bs cs : List UInt8} (hr : Ready nc) (h₁ : Sent nc nc₁ bs)
    (h₂ : Ready nc₁ → Sent nc₁ nc₂ cs) (h₀ : nc₁.ptr = nc₁.size + 1 → nc₂ = nc₁) :
    Sent nc nc₂ (bs ++ cs) := by
  have h16 := hr.header
  have hsize := h₁.size
  rcases lt_or_ge nc.size (nc.ptr + bs.length) with hlt | hge
  · have hover := h₁.excess hlt
    rw [h₀ (by omega)]
    have hno : ¬nc.ptr + (bs ++ cs).length ≤ nc.size := by
      rw [length_append]
      omega
    exact ⟨hsize, h₁.outside, fun h => absurd h hno, fun h => absurd h hno, fun h => absurd h hno,
      fun _ => hover⟩
  · have hptr := h₁.ptr hge
    obtain ⟨g1, g2, g3, g4, g5, g6⟩ := h₂ ⟨by omega, by omega⟩
    rw [hsize, hptr] at g3 g4 g5 g6
    rw [hsize] at g1 g2
    refine ⟨g1, fun i hi => (g2 i hi).trans (h₁.outside i hi), fun h => ?_, fun h => ?_,
      fun h => ?_,
      fun h => ?_⟩ <;> rw [length_append] at h
    · rw [g3 (by omega), length_append, add_assoc]
    · rw [holds_append]
      refine ⟨(h₁.holds hge).congr fun i _ hi => ?_, g4 (by omega)⟩
      exact g5 (by omega) i hi
    · intro i hi
      rw [g5 (by omega) i (by omega), h₁.before hge i hi]
    · exact g6 (by omega)

/-- **A call of `nc_put`** packs an attribute. -/
theorem sent_ncPut (hr : Ready nc) (key : AttrKey) {data : List UInt8}
    (hd : data.length ≤ 65531) : Sent nc (ncPut nc key data) (leaf key data).encode := by
  have h1 := hr.inside
  have henc : (leaf key data).encode = le 2 (4 + data.length) ++ le 2 key.val ++ pad4 data := by
    rw [encode, payload_leaf]
    rfl
  have hlen : (leaf key data).encode.length = 4 + roundUp4 data.length := by
    rw [length_encode, payload_leaf]
  rw [ncPut_eq hr.header key.val hd, if_neg (by omega)]
  split
  · rename_i h
    have hno : ¬nc.ptr + (leaf key data).encode.length ≤ nc.size := by
      rw [hlen]
      omega
    exact ⟨rfl, fun _ _ => rfl, fun h => absurd h hno, fun h => absurd h hno,
      fun h => absurd h hno, fun _ => rfl⟩
  · rename_i h
    rw [← henc, ← hlen] at *
    refine ⟨rfl, fun i hi => ?_, fun _ => rfl, fun _ => holds_store _ _ _, fun _ i hi => ?_,
      fun h' => absurd h' h⟩
    · exact store_of_not_mem (.inr (by omega))
    · exact store_of_not_mem (.inl hi)

/-- **A nest**: what the calls inside of it pack is its payload. -/
theorem sent_nest {nc₂ : Nc} (key : AttrKey) {bs : List UInt8} (hroom : nc.ptr + 4 ≤ nc.size)
    (h : Sent { nc with ptr := nc.ptr + 4, mem := nc.mem.put16 (nc.ptr + 2) key } nc₂ bs) :
    Sent nc (ncEndNest nc₂ (some nc.ptr)) (le 2 (4 + bs.length) ++ le 2 key.val ++ bs) := by
  have hsize : nc₂.size = nc.size := h.size
  have hlen : (le 2 (4 + bs.length) ++ le 2 key.val ++ bs).length = 4 + bs.length := by
    rw [length_append, length_append, length_le, length_le]
  have hptr : nc₂.ptr = nc.ptr + 4 + bs.length ∨ nc₂.ptr = nc.size + 1 := by
    rcases lt_or_ge nc.size (nc.ptr + 4 + bs.length) with hlt | hge
    · exact .inr (h.excess hlt)
    · exact .inl (h.ptr hge)
  have hend : ncEndNest nc₂ (some nc.ptr) =
      { nc₂ with mem := nc₂.mem.put16 nc.ptr (nc₂.ptr - nc.ptr) } := by
    rw [ncEndNest, if_neg (by omega), if_neg (by omega)]
  rw [hend]
  refine ⟨hsize, fun i hi => ?_, fun hfit => ?_, fun hfit => ?_, fun hfit i hi => ?_,
    fun hfit => ?_⟩
  · dsimp only
    rw [put16_of_not_mem (by omega), h.outside i hi]
    exact put16_of_not_mem (by omega)
  · rw [hlen] at hfit ⊢
    exact (h.ptr (by dsimp only; omega)).trans (add_assoc ..)
  · rw [hlen] at hfit
    have hfit' : nc.ptr + 4 + bs.length ≤ nc.size := by omega
    have hdiff : nc₂.ptr - nc.ptr = 4 + bs.length := by
      rw [h.ptr hfit']
      dsimp only
      omega
    have hbody : nc₂.mem.Holds (nc.ptr + 4) bs := h.holds hfit'
    rw [hdiff, holds_append, holds_append, length_append, length_le, length_le]
    refine ⟨⟨holds_store _ _ _, ?_⟩, hbody.put16 (.inl (by omega))⟩
    -- the type was written when the nest was opened
    have htype : (nc.mem.put16 (nc.ptr + 2) key.val).Holds (nc.ptr + 2) (le 2 key.val) :=
      holds_store _ _ _
    refine Mem.Holds.put16 (htype.congr fun i h1 h2 => ?_) (.inl (by omega))
    rw [length_le] at h2
    exact h.before hfit' i (by dsimp only; omega)
  · rw [hlen] at hfit
    have hfit' : nc.ptr + 4 + bs.length ≤ nc.size := by omega
    dsimp only
    rw [put16_of_not_mem (by omega), h.before hfit' i (by dsimp only; omega)]
    exact put16_of_not_mem (by omega)
  · rw [hlen] at hfit
    exact h.excess (by dsimp only; omega)

/-! ### Overflow -/

lemma ncPut_none_of_over (h : nc.ptr = nc.size + 1) (key len : ℕ) :
    ncPut_ nc key len = (nc, none) := by
  rw [ncPut_]
  exact if_pos (by omega)

lemma ncPutNest_of_over (h : nc.ptr = nc.size + 1) (key : ℕ) : ncPutNest nc key = (nc, none) := by
  rw [ncPutNest]
  exact if_pos (by omega)

mutual

/-- **An overflow stays**: a call does nothing after it. -/
theorem call_of_over {nc : Nc} (h : nc.ptr = nc.size + 1) : ∀ c : Call, call c nc = nc
  | .put _ _ => by rw [call, ncPut, ncPut_none_of_over h]
  | .int _ _ => by rw [call, ncPutInt, ncPut_none_of_over h]
  | .byte _ _ => by rw [call, ncPutByte, ncPut_none_of_over h]
  | .str _ _ => by rw [call, ncPutStr, ncPut_none_of_over h]
  | .flag _ => by rw [call, ncPutFlag, ncPut_none_of_over h]
  | .nest _ body => by
    rw [call, ncPutNest_of_over h, calls_of_over h body]
    rfl

theorem calls_of_over {nc : Nc} (h : nc.ptr = nc.size + 1) : ∀ cs : List Call, calls cs nc = nc
  | [] => by rw [calls]
  | c :: cs => by rw [calls, call_of_over h c, calls_of_over h cs]

end

/-- So do calls in no particular order, and all they write is inside. -/
theorem ops_of_over (h : nc.ptr = nc.size + 1) (ops : List Op) :
    (ops.foldl Op.run nc).ptr = nc.size + 1 ∧ (ops.foldl Op.run nc).size = nc.size ∧
      ∀ i, nc.size ≤ i → (ops.foldl Op.run nc).mem i = nc.mem i := by
  induction ops generalizing nc with
  | nil => exact ⟨h, rfl, fun _ _ => rfl⟩
  | cons op ops ih =>
    have hstep : (op.run nc).ptr = nc.size + 1 ∧ (op.run nc).size = nc.size ∧
        ∀ i, nc.size ≤ i → (op.run nc).mem i = nc.mem i := by
      cases op with
      | pack c =>
        rw [Op.run, call_of_over h c]
        exact ⟨h, rfl, fun _ _ => rfl⟩
      | open_ key =>
        rw [Op.run, ncPutNest_of_over h]
        exact ⟨h, rfl, fun _ _ => rfl⟩
      | close at_ =>
        cases at_ with
        | none => exact ⟨h, rfl, fun _ _ => rfl⟩
        | some atp =>
          rw [Op.run, ncEndNest]
          split
          · exact ⟨h, rfl, fun _ _ => rfl⟩
          · split
            · exact ⟨h, rfl, fun _ _ => rfl⟩
            · refine ⟨h, rfl, fun i hi => ?_⟩
              exact put16_of_not_mem (by omega)
    obtain ⟨h1, h2, h3⟩ := hstep
    rw [foldl_cons]
    obtain ⟨g1, g2, g3⟩ := ih (h1.trans (by rw [h2]))
    rw [h2] at g1 g2 g3
    exact ⟨g1, g2, fun i hi => (g3 i hi).trans (h3 i hi)⟩

/-! ### Calls -/

/-- What is asked of the attributes: their lengths are those of sixteen bits. -/
def Small (t : Tlv) : Prop := t.payload.length ≤ 65531

mutual

/-- **A call packs its attribute.** -/
theorem sent_call : ∀ (c : Call) {nc : Nc}, Ready nc → Tlv.Every Small c.attr →
    Sent nc (call c nc) c.attr.encode
  | .put key data, nc, hr, hs => by
    rw [attr] at hs
    rw [call, attr]
    have hd : (leaf key data).payload.length ≤ 65531 := hs.self
    rw [payload_leaf] at hd
    exact sent_ncPut hr key hd
  | .int key val, nc, hr, _ => by
    rw [call, attr, ncPutInt_eq]
    exact sent_ncPut hr key (by rw [length_le]; decide)
  | .byte key val, nc, hr, _ => by
    rw [call, attr, ncPutByte_eq]
    exact sent_ncPut hr key (by rw [length_singleton]; decide)
  | .str key s, nc, hr, hs => by
    rw [attr] at hs
    rw [call, attr, ncPutStr_eq]
    have hd : (leaf key (strBytes s)).payload.length ≤ 65531 := hs.self
    rw [payload_leaf] at hd
    exact sent_ncPut hr key hd
  | .flag key, nc, hr, _ => by
    rw [call, attr, ncPutFlag_eq]
    exact sent_ncPut hr key (Nat.zero_le _)
  | .nest key body, nc, hr, hs => by
    have h16 := hr.header
    rw [attr, Tlv.Every] at hs
    have henc : (nest key body).attr.encode =
        le 2 (4 + (encodeAll (attrs body)).length) ++ le 2 key.val ++
          encodeAll (attrs body) := by
      rw [attr, encode, payload_nest, pad4_encodeAll]
      rfl
    rw [henc, call]
    rcases Nat.lt_or_ge nc.size (nc.ptr + 4) with hlt | hge
    · -- not even the header of the nest fits
      have hin := hr.inside
      have hopen : ncPutNest nc key = (nc.over, none) := by
        rw [ncPutNest, if_neg (by omega), if_pos (by omega)]
      have hover : calls body nc.over = nc.over := calls_of_over rfl body
      rw [hopen]
      rw [hover]
      have hno : ¬nc.ptr + (le 2 (4 + (encodeAll (attrs body)).length) ++ le 2 key.val ++
          encodeAll (attrs body)).length ≤ nc.size := by
        rw [length_append, length_append, length_le, length_le]
        omega
      exact ⟨rfl, fun _ _ => rfl, fun h => absurd h hno, fun h => absurd h hno,
        fun h => absurd h hno, fun _ => rfl⟩
    · have hopen : ncPutNest nc key =
          ({ nc with ptr := nc.ptr + 4, mem := nc.mem.put16 (nc.ptr + 2) key }, some nc.ptr) := by
        rw [ncPutNest, if_neg (by omega), if_neg (by omega), if_neg (by omega)]
      rw [hopen]
      exact sent_nest key hge (sent_calls body ⟨by dsimp only; omega, hge⟩ hs.2)

/-- **Calls pack their attributes.** -/
theorem sent_calls : ∀ (cs : List Call) {nc : Nc}, Ready nc → Tlv.EveryOf Small (attrs cs) →
    Sent nc (calls cs nc) (encodeAll (attrs cs))
  | [], nc, hr, _ => by
    rw [calls, attrs, encodeAll_nil]
    exact Sent.nil hr
  | c :: cs, nc, hr, hs => by
    rw [attrs, Tlv.EveryOf] at hs
    rw [calls, attrs, encodeAll_cons]
    exact Sent.trans hr (sent_call c hr hs.1) (fun hr₁ => sent_calls cs hr₁ hs.2)
      fun h0 => calls_of_over h0 cs

end

/-! ### Reading -/

mutual

/-- **The attribute at `at_` is `t`**: its type, its payload, and if it is a nest what is found
in it. -/
def Reads (m : Mem) (at_ : ℕ) : Tlv → Prop
  | .leaf key p => m.get16 (at_ + 2) = key ∧ nlPaylen m at_ = p.length ∧
      m.load (nlPayload at_) p.length = p
  | .nest key body => m.get16 (at_ + 2) = key ∧ nlPaylen m at_ = (encodeAll body).length ∧
      m.load (nlPayload at_) (encodeAll body).length = encodeAll body ∧
      ReadsAll m (.attr at_) (nlSub0 m at_) body

/-- **Going on from `cur` yields `ts`**, and nothing else. -/
def ReadsAll (m : Mem) (h : Holder) : Option ℕ → List Tlv → Prop
  | cur, [] => cur = none
  | cur, t :: ts => ∃ at_, cur = some at_ ∧ Reads m at_ t ∧ ReadsAll m h (h.next m at_) ts

end

/-- What is left to go through starts at `q`, if there is any of it. -/
def startAt (q : ℕ) (ts : List Tlv) : Option ℕ := if ts = [] then none else some q

/-- The first attribute of a payload that is a sequence of attributes. -/
theorem first_eq_startAt {m : Mem} {h : Holder} {ts : List Tlv} (hs : Tlv.EveryOf Small ts)
    (hk : Tlv.EveryOf (fun t => t.key < 65536) ts) (hh : m.Holds h.buf (encodeAll ts))
    (hlen : h.len m = (encodeAll ts).length) : h.first m = startAt h.buf ts := by
  cases ts with
  | nil =>
    rw [Holder.first, nlAttr0In, hlen, encodeAll_nil]
    rfl
  | cons t ts =>
    rw [Tlv.EveryOf] at hs hk
    rw [encodeAll_cons] at hh hlen
    have hsmall : t.payload.length ≤ 65531 := hs.1.self
    obtain ⟨h1, -, -⟩ := fields_of_holds (holds_append.mp hh).1 (by omega) hk.1.self
    have hle := le_roundUp4 t.payload.length
    rw [length_append, length_encode] at hlen
    exact nlAttr0In_eq_some.mpr ⟨rfl, by omega, by omega⟩

mutual

/-- **An attribute in memory is read as itself.** -/
theorem reads_of_holds {m : Mem} : ∀ (t : Tlv) {q : ℕ}, Tlv.Every Small t →
    Tlv.Every (fun t => t.key < 65536) t → q + t.encode.length < 2 ^ 64 → m.Holds q t.encode →
    Reads m q t
  | .leaf key p, q, hs, hk, _, h => by
    have hsmall : (leaf key p).payload.length ≤ 65531 := hs.self
    obtain ⟨h1, h2, h3⟩ := fields_of_holds h (by omega) hk.self
    rw [payload_leaf] at h1 h3
    rw [Reads]
    refine ⟨h2, ?_, holds_iff_load.mp h3⟩
    rw [nlPaylen, h1]
    omega
  | .nest key body, q, hs, hk, hq, h => by
    have hsmall : (nest key body).payload.length ≤ 65531 := hs.self
    obtain ⟨h1, h2, h3⟩ := fields_of_holds h (by omega) hk.self
    rw [length_encode] at hq
    rw [payload_nest] at h1 h3 hsmall hq
    have hle := le_roundUp4 (encodeAll body).length
    rw [Tlv.Every] at hs hk
    have hlen : Holder.len m (.attr q) = (encodeAll body).length := by
      rw [Holder.len, Holder.total, Holder.header, h1]
      omega
    rw [Reads]
    refine ⟨h2, by rw [nlPaylen, h1]; omega, holds_iff_load.mp h3, ?_⟩
    rw [nlSub0, first_eq_startAt hs.2 hk.2 h3 hlen]
    exact readsAll_of_holds body (.attr q) hs.2 hk.2 (by rw [hlen, Holder.buf]; omega) h3
      (le_refl _) (by rw [hlen])

/-- **Attributes in memory are gone through one by one**, as long as they make up the rest of the
payload. -/
theorem readsAll_of_holds {m : Mem} : ∀ (ts : List Tlv) (h : Holder) {q : ℕ},
    Tlv.EveryOf Small ts → Tlv.EveryOf (fun t => t.key < 65536) ts →
    h.buf + h.len m < 2 ^ 64 → m.Holds q (encodeAll ts) → h.buf ≤ q →
    q + (encodeAll ts).length = h.buf + h.len m → ReadsAll m h (startAt q ts) ts
  | [], h, q, _, _, _, _, _, _ => by
    rw [ReadsAll]
    rfl
  | t :: ts, h, q, hs, hk, hlen, hh, hle, hend => by
    rw [Tlv.EveryOf] at hs hk
    rw [encodeAll_cons] at hh hend
    rw [length_append] at hend
    obtain ⟨hh1, hh2⟩ := holds_append.mp hh
    have hsmall : t.payload.length ≤ 65531 := hs.1.self
    obtain ⟨h1, -, -⟩ := fields_of_holds hh1 (by omega) hk.1.self
    have hround : roundUp4 (m.get16 q) = t.encode.length := by
      rw [h1, add_comm 4, roundUp4_add_four, length_encode, add_comm]
    have hle4 := length_encode t
    have hnext : h.next m q = startAt (q + t.encode.length) ts := by
      cases ts with
      | nil =>
        rw [encodeAll_nil, length_nil] at hend
        rw [startAt, if_pos rfl]
        by_contra hne
        obtain ⟨p, hp⟩ := ne_none_iff_exists'.mp hne
        obtain ⟨-, -, rfl, hlt⟩ := (nlAttrNIn_eq_some hlen h.buf_pos).mp hp
        omega
      | cons t' ts =>
        have hpos := length_encode t'
        rw [encodeAll_cons, length_append] at hend
        rw [startAt, if_neg (cons_ne_nil _ _)]
        exact (nlAttrNIn_eq_some hlen h.buf_pos).mpr ⟨⟨hle, by omega⟩, by omega, by rw [hround],
          by omega⟩
    rw [ReadsAll]
    refine ⟨q, by rw [startAt, if_neg (cons_ne_nil _ _)],
      reads_of_holds t hs.1 hk.1 (by omega) hh1, ?_⟩
    rw [hnext]
    exact readsAll_of_holds ts h hs.2 hk.2 hlen hh2 (by omega) (by omega)

end

mutual

theorem keys_attr : ∀ c : Call, Tlv.Every (fun t => t.key < 65536) c.attr
  | .put key _ => by rw [attr, Tlv.Every]; exact key.isLt
  | .int key _ => by rw [attr, Tlv.Every]; exact key.isLt
  | .byte key _ => by rw [attr, Tlv.Every]; exact key.isLt
  | .str key _ => by rw [attr, Tlv.Every]; exact key.isLt
  | .flag key => by rw [attr, Tlv.Every]; exact key.isLt
  | .nest key body => by rw [attr, Tlv.Every]; exact ⟨key.isLt, keys_attrs body⟩

theorem keys_attrs : ∀ cs : List Call, Tlv.EveryOf (fun t => t.key < 65536) (attrs cs)
  | [] => by rw [attrs, Tlv.EveryOf]; trivial
  | c :: cs => by rw [attrs, Tlv.EveryOf]; exact ⟨keys_attr c, keys_attrs cs⟩

end

/-! ### Headers -/

/-- The headers, without the length that comes before them. -/
def headerBytes (type flags seq cmd ver : UInt32) : List UInt8 :=
  le 2 type.toNat ++ (le 2 (NLM_F_REQUEST ||| flags).toNat ++ (le 4 seq.toNat ++ (le 4 0 ++
    ([cmd.toUInt8] ++ ([ver.toUInt8] ++ [0, 0])))))

lemma length_headerBytes (type flags seq cmd ver : UInt32) :
    (headerBytes type flags seq cmd ver).length = 16 := rfl

/-- **The headers**, if they fit, and nothing past the end of the buffer. -/
theorem headers_spec (nc : Nc) (type flags seq cmd ver : UInt32) :
    (ncGencmd (ncHeader nc type flags seq) cmd ver).size = nc.size ∧
      (∀ i, nc.size ≤ i → (ncGencmd (ncHeader nc type flags seq) cmd ver).mem i = nc.mem i) ∧
      (20 ≤ nc.size → (ncGencmd (ncHeader nc type flags seq) cmd ver).ptr = 20 ∧
        (ncGencmd (ncHeader nc type flags seq) cmd ver).mem.Holds 4
          (headerBytes type flags seq cmd ver)) ∧
      (nc.size < 20 → (ncGencmd (ncHeader nc type flags seq) cmd ver).ptr = nc.size + 1) := by
  rw [ncHeader]
  split
  · rename_i h
    have hfix : ncFixed nc.over 20 = (nc.over, false) := by
      rw [ncFixed, if_neg (by decide)]
      split
      · rfl
      · rw [if_pos (show 20 > nc.over.size by rw [Nc.over]; dsimp only; omega)]
        rfl
    rw [ncGencmd, hfix]
    exact ⟨rfl, fun _ _ => rfl, fun h' => absurd h' (by omega), fun _ => rfl⟩
  · rename_i h
    dsimp only
    generalize hm : (((nc.mem.put16 4 type.toNat).put16 6 (NLM_F_REQUEST ||| flags).toNat).store 8
      (le 4 seq.toNat)).store 12 (le 4 0) = m
    have hout : ∀ i, 16 ≤ i → m i = nc.mem i := by
      intro i hi
      rw [← hm, store_of_not_mem (by rw [length_le]; omega),
        store_of_not_mem (by rw [length_le]; omega), put16_of_not_mem (by omega),
        put16_of_not_mem (by omega)]
    rw [ncGencmd, ncFixed, if_neg (by decide), if_neg (not_not.mpr rfl)]
    dsimp only
    split
    · rename_i nc' heq
      split at heq
      · cases heq
        exact ⟨rfl, fun i hi => hout i (by omega), fun h' => absurd h' (by omega), fun _ => rfl⟩
      · cases heq
    · rename_i nc' heq
      split at heq
      · cases heq
      · cases heq
        refine ⟨rfl, fun i hi => ?_, fun _ => ⟨rfl, ?_⟩, fun h' => absurd h' (by omega)⟩
        · dsimp only
          rw [store_of_not_mem (by rw [length_singleton]; omega),
            store_of_not_mem (by rw [length_singleton]; omega),
            store_of_not_mem (by rw [length_replicate]; omega), hout i (by omega)]
        · -- each field survives what is written after it
          have htype : m.Holds 4 (le 2 type.toNat) := by
            rw [← hm]
            exact (((holds_store _ _ _).put16 (.inr (by rw [length_le]))).store
              (.inr (by rw [length_le]; decide))).store (.inr (by rw [length_le]; decide))
          have hflags : m.Holds 6 (le 2 (NLM_F_REQUEST ||| flags).toNat) := by
            rw [← hm]
            exact ((holds_store _ _ _).store (.inr (by rw [length_le]))).store
              (.inr (by rw [length_le]; decide))
          have hseq : m.Holds 8 (le 4 seq.toNat) := by
            rw [← hm]
            exact (holds_store _ _ _).store (.inr (by rw [length_le]))
          have hpid : m.Holds 12 (le 4 0) := by
            rw [← hm]
            exact holds_store _ _ _
          have hzero : (m.store 16 (replicate (20 - 16) 0)).Holds 18 [0, 0] := by
            have hz := holds_store m 16 (replicate (20 - 16) 0)
            exact (holds_append.mp (show (m.store 16 _).Holds 16 ([0, 0] ++ [0, 0]) from hz)).2
          simp only [headerBytes, holds_append, length_le, length_singleton]
          have keep : ∀ {a : ℕ} {bs : List UInt8}, m.Holds a bs → a + bs.length ≤ 16 →
              (((m.store 16 (replicate (20 - 16) 0)).store 16 [cmd.toUInt8]).store 17
                [ver.toUInt8]).Holds a bs := by
            intro a bs hh hle
            exact ((hh.store (.inr hle)).store (.inr hle)).store (.inr (by omega))
          refine ⟨keep htype (by rw [length_le]; decide), keep hflags (by rw [length_le]; decide),
            keep hseq (by rw [length_le]; decide), keep hpid (by rw [length_le]), ?_,
            holds_store _ _ _, ?_⟩
          · exact (holds_store _ _ _).store (.inr (le_refl 17))
          · exact (hzero.store (.inl (Nat.le_succ 17))).store (.inl (le_refl 18))

/-! ### The round trip -/

/-- **A request in memory is read as it was packed.** -/
theorem reads_request {rx : Mem} {msg : ℕ} {type flags seq cmd ver : UInt32} {cs : List Call}
    (ht : 16 ≤ type.toNat % 65536) (hs : Tlv.EveryOf Small (attrs cs))
    (hfit : 20 + (encodeAll (attrs cs)).length < 4294967296)
    (hmsg : msg + (20 + (encodeAll (attrs cs)).length) < 2 ^ 64)
    (h : rx.Holds msg (le 4 (20 + (encodeAll (attrs cs)).length) ++
      (headerBytes type flags seq cmd ver ++ encodeAll (attrs cs)))) :
    nlGen rx msg = some msg ∧ ReadsAll rx (.msg msg) (nlGet0 rx msg) (attrs cs) := by
  rw [holds_append, holds_append, length_le, length_headerBytes] at h
  obtain ⟨hlen, hhdr, hatt⟩ := h
  have hget := hlen.get32
  rw [Nat.mod_eq_of_lt hfit] at hget
  have htype : rx.get16 (msg + 4) = type.toNat % 65536 := by
    rw [headerBytes, holds_append] at hhdr
    exact hhdr.1.get16
  refine ⟨?_, ?_⟩
  · rw [nlGen, hget, htype, if_neg (by omega), if_neg (by omega)]
  · have hplen : Holder.len rx (.msg msg) = (encodeAll (attrs cs)).length := by
      rw [Holder.len, Holder.total, Holder.header, hget]
      omega
    have hbuf : Holder.buf (.msg msg) = msg + 20 := rfl
    have hheld : rx.Holds (Holder.buf (.msg msg)) (encodeAll (attrs cs)) := hatt
    rw [nlGet0, first_eq_startAt hs (keys_attrs cs) hheld hplen]
    exact readsAll_of_holds (attrs cs) (.msg msg) hs (keys_attrs cs)
      (by rw [hplen, hbuf]; omega) hheld (le_refl _) (by rw [hplen])

/-- **A request is read as it was packed, or does not fit and is not sent.** The buffer has any
size and anything in it, and so has the memory the request is read from; what does not fit is not
made to fit by anything else. Nothing is written past the end of the buffer. -/
theorem request_round_trip (mem : Mem) (size type flags seq cmd ver : UInt32) (cs : List Call)
    (ht : 16 ≤ type.toNat % 65536) (hs : Tlv.EveryOf Small (attrs cs)) :
    ((20 + (encodeAll (attrs cs)).length ≤ size.toNat ∧
        ∃ bytes, (ncSend (request (ncBufSet mem size) type flags seq cmd ver cs)).1 = .ok bytes ∧
          ∀ (rx : Mem) (msg : ℕ), rx.Holds msg bytes → msg + bytes.length < 2 ^ 64 →
            nlGen rx msg = some msg ∧ ReadsAll rx (.msg msg) (nlGet0 rx msg) (attrs cs)) ∨
      (size.toNat < 20 + (encodeAll (attrs cs)).length ∧ ∀ ops : List Op,
        (ncSend (ops.foldl Op.run (request (ncBufSet mem size) type flags seq cmd ver cs))).1 =
          .error .enobufs)) ∧
      ∀ i, size.toNat ≤ i →
        (ncSend (request (ncBufSet mem size) type flags seq cmd ver cs)).2.mem i = mem i := by
  obtain ⟨hsize, hout, hfit, hover⟩ := headers_spec (ncBufSet mem size) type flags seq cmd ver
  have hbs : (ncBufSet mem size).size = size.toNat := rfl
  have hbm : (ncBufSet mem size).mem = mem := rfl
  rw [request]
  generalize ncGencmd (ncHeader (ncBufSet mem size) type flags seq) cmd ver = nc
    at hsize hout hfit hover ⊢
  rw [hbs] at hsize hout hfit hover
  rw [hbm] at hout
  -- what an overflow leads to
  have hstuck : ∀ {nc' : Nc}, nc'.ptr = nc'.size + 1 → ∀ ops : List Op,
      (ncSend (ops.foldl Op.run nc')).1 = .error .enobufs := by
    intro nc' h ops
    obtain ⟨h1, h2, -⟩ := ops_of_over h ops
    rw [ncSend, if_pos (by omega)]
  have hkept : ∀ {nc' : Nc}, nc'.ptr = nc'.size + 1 → (ncSend nc').2 = nc' := by
    intro nc' h
    rw [ncSend, if_pos (by omega)]
  rcases lt_or_ge size.toNat 20 with hlt | hge
  · have hptr := (hover hlt).trans (congrArg (· + 1) hsize.symm)
    rw [calls_of_over hptr cs, hkept hptr]
    exact ⟨.inr ⟨by omega, hstuck hptr⟩, hout⟩
  · obtain ⟨hptr, hheld⟩ := hfit hge
    have hready : Ready nc := ⟨by omega, by omega⟩
    have hsent := sent_calls cs hready hs
    generalize calls cs nc = nc₂ at hsent ⊢
    have hsize₂ := hsent.size
    rcases lt_or_ge size.toNat (20 + (encodeAll (attrs cs)).length) with hno | hyes
    · have hptr₂ : nc₂.ptr = nc₂.size + 1 := by
        rw [hsize₂]
        exact hsent.excess (by omega)
      rw [hkept hptr₂]
      exact ⟨.inr ⟨hno, hstuck hptr₂⟩, fun i hi =>
        (hsent.outside i (by omega)).trans (hout i hi)⟩
    · have hptr₂ : nc₂.ptr = 20 + (encodeAll (attrs cs)).length := by
        rw [hsent.ptr (by omega), hptr]
      have hsend : ncSend nc₂ = (.ok ((nc₂.mem.store 0 (le 4 nc₂.ptr)).load 0 nc₂.ptr),
          { nc₂ with mem := nc₂.mem.store 0 (le 4 nc₂.ptr) }) := by
        rw [ncSend, if_neg (by omega), if_neg (by omega)]
      rw [hsend]
      refine ⟨.inl ⟨hyes, _, rfl, ?_⟩, fun i hi => ?_⟩
      · -- the length, the headers and the attributes follow each other
        have hbelow := hsent.before (by omega)
        have hattrs := hsent.holds (by omega)
        rw [hptr] at hbelow hattrs
        have hall : (nc₂.mem.store 0 (le 4 nc₂.ptr)).Holds 0 (le 4 nc₂.ptr ++
            (headerBytes type flags seq cmd ver ++ encodeAll (attrs cs))) := by
          rw [holds_append, holds_append, length_le, length_headerBytes]
          refine ⟨holds_store _ _ _, ?_, ?_⟩
          · refine Mem.Holds.store (hheld.congr fun i _ hi => ?_) (.inl (by rw [length_le]))
            rw [length_headerBytes] at hi
            exact hbelow i hi
          · exact hattrs.store (.inl (by rw [length_le]; omega))
        have hload := holds_iff_load.mp hall
        have hcount : (le 4 nc₂.ptr ++ (headerBytes type flags seq cmd ver ++
            encodeAll (attrs cs))).length = nc₂.ptr := by
          rw [length_append, length_append, length_le, length_headerBytes, hptr₂]
          omega
        rw [hcount] at hload
        rw [hload]
        intro rx msg hrx hmsg
        have hlt := size.toNat_lt
        rw [hcount] at hmsg
        rw [hptr₂] at hrx hmsg
        exact reads_request ht hs (by omega) hmsg hrx
      · dsimp only
        rw [store_of_not_mem (by rw [length_le]; omega), hsent.outside i (by omega), hout i hi]

/-- A string and a nest, in a buffer of 64 bytes. -/
theorem request_round_trip_nest :
    20 + (encodeAll (attrs [.str 1 [104, 105], .nest 2 [.int 3 7]])).length ≤ 64 ∧
      ∃ bytes, (ncSend (request (ncBufSet (fun _ => 255) 64) 28 5 1 4 0
          [.str 1 [104, 105], .nest 2 [.int 3 7]])).1 = .ok bytes ∧
        ∀ (rx : Mem) (msg : ℕ), rx.Holds msg bytes → msg + bytes.length < 2 ^ 64 →
          nlGen rx msg = some msg ∧ ReadsAll rx (.msg msg) (nlGet0 rx msg)
            (attrs [.str 1 [104, 105], .nest 2 [.int 3 7]]) := by
  have hsmall : Tlv.EveryOf Small (attrs [.str 1 [104, 105], .nest 2 [.int 3 7]]) := by
    simp only [attrs, attr, Tlv.EveryOf, Tlv.Every, Small, payload_leaf, payload_nest]
    decide
  rcases (request_round_trip (fun _ => 255) 64 28 5 1 4 0 [.str 1 [104, 105], .nest 2 [.int 3 7]]
    (by decide) hsmall).1 with h | h
  · exact h
  · exact absurd h.1 (by decide)

/-- **A request that is not read**: its type is one of those that are not for any family. -/
theorem control_not_read :
    ∃ bytes, (ncSend (request (ncBufSet (fun _ => 0) 64) 3 0 1 4 0 [])).1 = .ok bytes ∧
      nlGen (store (fun _ => 0) 8 bytes) 8 = none :=
  ⟨_, rfl, by decide⟩

end Minibase.Netlink
