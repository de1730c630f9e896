import Minibase.Lib.Outcome
import Mathlib.Algebra.Order.Group.Int

/-!
# The link table of ifmon

`ifmon_netlink.c`: the kernel says which links there are, and `ifmon` keeps a table of them. A
slot is free if its `ifi` is zero, and the slots in use are among the first `nlinks`. What the
table should be is `Ifmon.announced`. The two agree only as long as no link is deleted
(`Ifmon.mirrors_iff`): the test in `msg_del_link` is the wrong way round, so that a link that
is in the table stays there, and one that is not is looked at nevertheless.
-/

namespace Minibase.Ifmon

open List Option

def NLINKS : ℕ := 16

def IFNLEN : ℕ := 16

/-- What a script run for a link is for, the `LS_` constants. -/
inductive Script
  | idef
  | mode
  | stop
  | dhcp
  | poke
deriving DecidableEq, Repr

/-- `ls->flags`. -/
structure Flags where
  script : Script := .idef
  enabled : Bool := false
  carrier : Bool := false
  marked : Bool := false
  autoDhcp : Bool := false
  running : Bool := false
  failed : Bool := false
  needMode : Bool := false
  needStop : Bool := false
  needDhcp : Bool := false
  needPoke : Bool := false
deriving DecidableEq, Repr

/-- `struct link`. -/
structure Link where
  ifi : ℤ := 0
  pid : ℕ := 0
  flags : Flags := {}
  name : List UInt8 := []
  mode : List UInt8 := []
deriving DecidableEq, Repr

/-- The signals that are sent. -/
inductive Kill
  | hup (pid : ℕ)
  | int (pid : ℕ)
  | term (pid : ℕ)
deriving DecidableEq, Repr

/-- `struct top`, with the signals sent so far, and the scripts that run: the slots of their links,
and the processes. -/
structure Top where
  nlinks : ℤ
  links : List Link
  kills : List Kill
  children : List (ℕ × ℕ) := []
deriving DecidableEq, Repr

/-- A message about a link, with what system calls return while it is being handled: the process id
of the script if it can be run, and the name of the link if the kernel knows it. -/
structure Ifinfo where
  index : ℤ
  pos : 0 < index
  loopback : Bool := false
  pointopoint : Bool := false
  up : Bool := false
  running : Bool := false
  name : Option (List UInt8) := none
  spawn : Option ℕ := none
  ifname : Option (List UInt8) := none

/-- The messages. -/
inductive Msg
  | newLink (msg : Ifinfo)
  | delLink (msg : Ifinfo)

/-- What ends the process: a pointer to nowhere is followed. -/
inductive Crash
  | nullLink
deriving DecidableEq, Repr

/-! ### Slots -/

namespace Top

variable (ctx : Top)

/-- The slots up to `nlinks`. -/
def used : List Link := ctx.links.take ctx.nlinks.toNat

/-- Changes a slot. -/
def put (i : ℕ) (ls : Link) : Top := { ctx with links := ctx.links.set i ls }

def findLinkSlot (ifi : ℤ) : Option ℕ := ctx.used.findIdx? fun ls => ls.ifi = ifi

/-- A slot that is free, or one more. -/
def grabLinkSlot : Option (ℕ × Top) :=
  match ctx.used.findIdx? fun ls => ls.ifi = 0 with
  | some i => some (i, ctx)
  | none =>
    if NLINKS ≤ ctx.nlinks then none
    else some (ctx.nlinks.toNat, { ctx with nlinks := ctx.nlinks + 1 })

/-- The loop of `free_link_slot`, from below a slot: what it leaves in `n`. -/
def lastUsed (links : List Link) : ℕ → ℤ
  | 0 => -1
  | n + 1 => if (links.getD n {}).ifi ≠ 0 then n else lastUsed links n

def freeLinkSlot (i : ℕ) : Top :=
  let ctx := ctx.put i {}
  if (i : ℤ) ≠ ctx.nlinks - 1 then ctx
  else { ctx with nlinks := lastUsed ctx.links i }

end Top

/-! ### Links -/

namespace Link

variable (ls : Link)

def enabledRise : Link := { ls with flags := { ls.flags with needPoke := true, marked := true } }

def carrierRise : Link :=
  if !ls.flags.autoDhcp then ls
  else { ls with flags := { ls.flags with needDhcp := true, marked := true } }

/-- `carrier_fall`, and the signals it sends. -/
def carrierFall : Link × List Kill :=
  ({ ls with flags := { ls.flags with needDhcp := false } },
    if ls.flags.running ∧ ls.flags.script = .dhcp then [.hup ls.pid] else [])

def spawnIdentify (spawn : Option ℕ) : Link :=
  let ls := { ls with flags := { ls.flags with script := .idef, running := false } }
  match spawn with
  | none => ls
  | some pid => { ls with pid := pid, flags := { ls.flags with running := true } }

def checkLinkName (msg : Ifinfo) : Link :=
  match msg.name with
  | none => ls
  | some name => if name = ls.name then ls else { ls with name := msg.ifname.getD ls.name }

/-- The flags that are new, with what rises or falls. -/
def linkStateChanged (msg : Ifinfo) : Link × List Kill :=
  let oldflags := ls.flags
  let newflags := { oldflags with carrier := msg.running, enabled := msg.up }
  let ls := ls.checkLinkName msg
  let ls := { ls with flags := newflags }
  let ls := if !oldflags.enabled && newflags.enabled then ls.enabledRise else ls
  let ls := if !oldflags.carrier && newflags.carrier then ls.carrierRise else ls
  if oldflags.carrier && !newflags.carrier then ls.carrierFall else (ls, [])

end Link

/-! ### Messages -/

namespace Top

variable (ctx : Top) (msg : Ifinfo)

def newLinkNotification : Top :=
  match msg.name with
  | none => ctx
  | some name =>
    if IFNLEN < name.length then ctx
    else match ctx.grabLinkSlot with
      | none => ctx
      | some (i, ctx) =>
        let ls := ctx.links.getD i {}
        let flags := { ls.flags with
          enabled := ls.flags.enabled || msg.up, carrier := ls.flags.carrier || msg.running }
        let ls := { ls with ifi := msg.index, name := name, flags := flags }
        let ctx := { ctx with children := ctx.children ++ msg.spawn.toList.map (i, ·) }
        ctx.put i (ls.spawnIdentify msg.spawn)

def msgNewLink : Top :=
  if msg.loopback || msg.pointopoint then ctx
  else match ctx.findLinkSlot msg.index with
    | some i =>
      let (ls, kills) := (ctx.links.getD i {}).linkStateChanged msg
      { ctx.put i ls with kills := ctx.kills ++ kills }
    | none => ctx.newLinkNotification msg

/-- The test is the wrong way round: only a link that is unknown gets further. -/
def msgDelLink : Except Crash Top :=
  match ctx.findLinkSlot msg.index with
  | some _ => .ok ctx
  | none => .error .nullLink

def dispatch : Msg → Except Crash Top
  | .newLink msg => .ok (ctx.msgNewLink msg)
  | .delLink msg => ctx.msgDelLink msg

/-- What `main` starts from. -/
def init : Top := { nlinks := 0, links := replicate NLINKS {}, kills := [] }

/-- `handle_rtnl`, for all the messages there will be. -/
def handleRtnl (msgs : List Msg) : Except Crash Top := msgs.foldlM dispatch init

end Top

/-! ### What is announced -/

/-- A message that is about a link `ifmon` has to do with. -/
def Ifinfo.counts (msg : Ifinfo) : Bool :=
  !msg.loopback && !msg.pointopoint && msg.name.any (fun name => name.length ≤ IFNLEN)

/-- What a message does to the links there are. -/
def announce (l : List ℤ) : Msg → List ℤ
  | .newLink msg => if msg.counts ∧ msg.index ∉ l then l ++ [msg.index] else l
  | .delLink msg => l.erase msg.index

variable (msgs : List Msg)

/-- **The links there are** after some messages. -/
def announced : List ℤ := msgs.foldl announce []

/-- **The table has exactly these links**, each once, and they can be found. -/
structure Top.Mirror (ctx : Top) (l : List ℤ) : Prop where
  bounds : 0 ≤ ctx.nlinks ∧ ctx.nlinks ≤ NLINKS
  once : ((ctx.used.map Link.ifi).filter (· ≠ 0)).Perm l
  found : ∀ ifi, ifi ≠ 0 → ((ctx.findLinkSlot ifi).isSome ↔ ifi ∈ l)

/-- The table is right after each of some messages. -/
def Mirrors : Prop :=
  ∀ pre post, msgs = pre ++ post → ∃ ctx, Top.handleRtnl pre = .ok ctx ∧ ctx.Mirror (announced pre)

/-- There are never more links than slots. -/
def Few : Prop :=
  ∀ pre post, msgs = pre ++ post → (announced pre).length ≤ NLINKS

/-! ### Without deletions -/

/-- The links are in the first slots, in the order of their announcement. -/
structure Top.Lined (ctx : Top) (l : List ℤ) : Prop where
  length : ctx.links.length = NLINKS
  nlinks : ctx.nlinks = l.length
  fits : l.length ≤ NLINKS
  used : ctx.used.map Link.ifi = l
  nodup : l.Nodup
  nonzero : 0 ∉ l

section Lined

variable {ctx : Top} {l : List ℤ}

lemma Top.Lined.findLinkSlot (h : ctx.Lined l) (ifi : ℤ) :
    ctx.findLinkSlot ifi = l.findIdx? (· = ifi) := by
  rw [Top.findLinkSlot, ← h.used, findIdx?_map]
  rfl

lemma Top.Lined.mirror (h : ctx.Lined l) : ctx.Mirror l := by
  refine ⟨?_, ?_, fun ifi _ => ?_⟩
  · have hfits := h.fits
    have hn := h.nlinks
    constructor
    · omega
    · omega
  · rw [h.used, filter_eq_self.mpr]
    intro ifi hmem
    have hne : ifi ≠ 0 := fun h0 => h.nonzero (h0 ▸ hmem)
    simpa using hne
  · rw [h.findLinkSlot, findIdx?_isSome]
    simp

lemma Top.lined_init : Top.init.Lined [] :=
  ⟨by simp [Top.init], rfl, by simp, rfl, nodup_nil, not_mem_nil⟩

lemma Link.linkStateChanged_ifi (ls : Link) (msg : Ifinfo) :
    (ls.linkStateChanged msg).1.ifi = ls.ifi := by
  have hname : (ls.checkLinkName msg).ifi = ls.ifi := by
    unfold checkLinkName
    split
    · rfl
    · split_ifs <;> rfl
  have hrise : ∀ ls : Link, ls.enabledRise.ifi = ls.ifi := fun _ => rfl
  have hcarrier : ∀ ls : Link, ls.carrierRise.ifi = ls.ifi := fun ls => by
    unfold carrierRise
    split_ifs <;> rfl
  have hfall : ∀ ls : Link, ls.carrierFall.1.ifi = ls.ifi := fun _ => rfl
  unfold linkStateChanged
  dsimp only
  split_ifs <;> simp only [hrise, hcarrier, hfall, hname]

lemma Link.spawnIdentify_ifi (ls : Link) (spawn : Option ℕ) :
    (ls.spawnIdentify spawn).ifi = ls.ifi := by
  rcases spawn with _ | pid <;> rfl

lemma Top.put_used (ctx : Top) (i : ℕ) (ls : Link) : (ctx.put i ls).used = ctx.used.set i ls := by
  exact take_set

/-- A link that is in the table changes its state. -/
theorem Top.Lined.change (h : ctx.Lined l) {i : ℕ} {ls : Link} {kills : List Kill}
    (hi : i < l.length) (hls : ls.ifi = (ctx.links.getD i {}).ifi) :
    { ctx.put i ls with kills := kills }.Lined l := by
  have hlen : ctx.used.length = l.length := by rw [← h.used, length_map]
  have hgetD : ctx.used.getD i {} = ctx.links.getD i {} := by
    rw [Top.used, getD_eq_getElem?_getD, getD_eq_getElem?_getD, getElem?_take_of_lt]
    have hn := h.nlinks
    omega
  refine ⟨by rw [← h.length]; simp [Top.put], h.nlinks, h.fits, ?_, h.nodup, h.nonzero⟩
  show (ctx.put i ls).used.map Link.ifi = l
  rw [Top.put_used, map_set, hls, ← hgetD, h.used]
  have hget : (ctx.used.getD i {}).ifi = l[i] := by
    simp only [← h.used, getElem_map]
    rw [getD_eq_getElem?_getD, getElem?_eq_getElem (by omega), getD_some]
  rw [hget, set_getElem_self]

/-- A link gets into the table. -/
theorem Top.Lined.append (h : ctx.Lined l) {ls : Link} (hfits : l.length < NLINKS)
    (hnew : ls.ifi ∉ l)
    (hpos : ls.ifi ≠ 0) :
    ({ ctx with nlinks := ctx.nlinks + 1 }.put l.length ls).Lined (l ++ [ls.ifi]) := by
  have hn := h.nlinks
  refine ⟨by rw [← h.length]; simp [Top.put], ?_, by rw [length_append]; exact hfits, ?_, ?_, ?_⟩
  · show ctx.nlinks + 1 = _
    simp [hn]
  · have hused := h.used
    rw [Top.used, show ctx.nlinks.toNat = l.length by omega] at hused
    have hlt : l.length < (ctx.links.set l.length ls).length := by
      rw [length_set, h.length]
      exact hfits
    show ((ctx.links.set l.length ls).take (ctx.nlinks + 1).toNat).map Link.ifi = _
    rw [show (ctx.nlinks + 1).toNat = l.length + 1 by omega, take_succ_eq_append_getElem hlt,
      take_set_of_le le_rfl, map_append, hused]
    simp
  · rw [nodup_append]
    refine ⟨h.nodup, nodup_singleton _, ?_⟩
    rintro a ha b hb rfl
    obtain rfl := mem_singleton.mp hb
    exact hnew ha
  · simp [h.nonzero, hpos.symm]

/-- The table is in line whatever scripts run. -/
theorem Top.Lined.withChildren (h : ctx.Lined l) (children : List (ℕ × ℕ)) :
    { ctx with children := children }.Lined l :=
  ⟨h.length, h.nlinks, h.fits, h.used, h.nodup, h.nonzero⟩

lemma Ifinfo.counts_iff {msg : Ifinfo} :
    msg.counts = true ↔ ¬(msg.loopback || msg.pointopoint) = true ∧
      ∃ name, msg.name = some name ∧ name.length ≤ IFNLEN := by
  unfold Ifinfo.counts
  rcases msg.name with _ | name
  · simp
  · simp [and_assoc]

/-- **A message about a link that is there** keeps the table in line. -/
theorem Top.Lined.msgNewLink (h : ctx.Lined l) (msg : Ifinfo)
    (hfew : (announce l (.newLink msg)).length ≤ NLINKS) :
    (ctx.msgNewLink msg).Lined (announce l (.newLink msg)) := by
  have hpos : msg.index ≠ 0 := ne_of_gt msg.pos
  by_cases hskip : (msg.loopback || msg.pointopoint) = true
  · rw [Top.msgNewLink, if_pos hskip, announce,
      if_neg fun hc => (Ifinfo.counts_iff.mp hc.1).1 hskip]
    exact h
  rw [Top.msgNewLink, if_neg hskip, h.findLinkSlot]
  rcases hfind : l.findIdx? (· = msg.index) with _ | i
  · have hnew : msg.index ∉ l := by
      intro hmem
      have hnone := findIdx?_eq_none_iff.mp hfind _ hmem
      simp at hnone
    simp only [Top.newLinkNotification]
    rcases hname : msg.name with _ | name
    · rw [announce, if_neg fun hc => ?_]
      · exact h
      · obtain ⟨-, name, hsome, -⟩ := Ifinfo.counts_iff.mp hc.1
        rw [hname] at hsome
        cases hsome
    by_cases hlong : IFNLEN < name.length
    · simp only [if_pos hlong]
      rw [announce, if_neg fun hc => ?_]
      · exact h
      · obtain ⟨-, name', hsome, hle⟩ := Ifinfo.counts_iff.mp hc.1
        obtain rfl : name = name' := Option.mem_unique hname hsome
        omega
    have hann : announce l (.newLink msg) = l ++ [msg.index] := by
      rw [announce, if_pos ⟨Ifinfo.counts_iff.mpr ⟨hskip, name, hname, by omega⟩, hnew⟩]
    rw [hann, length_append] at hfew
    have hfull : ¬(NLINKS : ℤ) ≤ ctx.nlinks := by
      rw [h.nlinks]
      simp at hfew
      omega
    have hfree : ctx.used.findIdx? (fun ls => ls.ifi = 0) = none := by
      have hzero := h.findLinkSlot 0
      rw [Top.findLinkSlot] at hzero
      rw [hzero, findIdx?_eq_none_iff]
      intro x hx
      simpa using fun h0 : x = 0 => h.nonzero (h0 ▸ hx)
    have hslot : ctx.nlinks.toNat = l.length := by rw [h.nlinks]; rfl
    simp only [if_neg hlong, Top.grabLinkSlot, hfree, if_neg hfull, hslot]
    rw [hann]
    generalize hls : Link.spawnIdentify _ msg.spawn = ls
    have hifi : ls.ifi = msg.index := by rw [← hls, Link.spawnIdentify_ifi]
    rw [← hifi] at hnew hpos ⊢
    exact (h.withChildren (ctx.children ++ msg.spawn.toList.map (l.length, ·))).append hfew hnew
      hpos
  · obtain ⟨hi, hget, -⟩ := findIdx?_eq_some_iff_getElem.mp hfind
    have hmem : msg.index ∈ l := by
      rw [← of_decide_eq_true hget]
      exact getElem_mem hi
    rw [announce, if_neg fun hc => hc.2 hmem]
    exact h.change hi (Link.linkStateChanged_ifi _ msg)

end Lined

/-! ### The table and the kernel -/

lemma announced_concat (pre : List Msg) (m : Msg) : announced (pre ++ [m]) =
    announce (announced pre) m := by
  rw [announced, foldl_append]
  rfl

lemma handleRtnl_concat (pre : List Msg) (m : Msg) : Top.handleRtnl (pre ++ [m]) = (do
      let ctx ← Top.handleRtnl pre
      ctx.dispatch m) := by
  rw [Top.handleRtnl, foldlM_append, Top.handleRtnl]
  simp

lemma nodup_announced : (announced msgs).Nodup := by
  induction msgs using reverseRecOn with
  | nil => exact nodup_nil
  | append_singleton pre m ih =>
    rw [announced_concat]
    rcases m with msg | msg
    · rw [announce]
      split_ifs with h
      · rw [nodup_append]
        refine ⟨ih, nodup_singleton _, ?_⟩
        rintro a ha b hb rfl
        exact h.2 (mem_singleton.mp hb ▸ ha)
      · exact ih
    · exact ih.erase _

/-- As long as no link is deleted, the table is in line. -/
theorem lined_handleRtnl {msgs : List Msg} (hfew : Few msgs)
    (hdel : ∀ msg, Msg.delLink msg ∉ msgs) :
    ∃ ctx, Top.handleRtnl msgs = .ok ctx ∧ ctx.Lined (announced msgs) := by
  induction msgs using reverseRecOn with
  | nil => exact ⟨Top.init, rfl, Top.lined_init⟩
  | append_singleton pre m ih =>
    obtain ⟨ctx, hrun, hlined⟩ := ih (fun p q h => hfew p (q ++ [m]) (by rw [h, append_assoc]))
      (fun msg hmem => hdel msg (mem_append_left _ hmem))
    have hlen := hfew (pre ++ [m]) [] (by rw [append_nil])
    rw [announced_concat] at hlen ⊢
    rcases m with msg | msg
    · refine ⟨ctx.msgNewLink msg, ?_, hlined.msgNewLink msg hlen⟩
      rw [handleRtnl_concat, hrun]
      rfl
    · exact absurd (mem_append_right _ mem_cons_self) (hdel msg)

/-- **The table mirrors the links of the kernel** exactly as long as none of them is deleted. -/
theorem mirrors_iff (msgs : List Msg) (hfew : Few msgs) : Mirrors msgs ↔ ∀ msg,
    Msg.delLink msg ∉ msgs := by
  constructor
  · intro h msg hmem
    obtain ⟨pre, post, rfl⟩ := append_of_mem hmem
    obtain ⟨ctx, hrun, hmirror⟩ := h pre (.delLink msg :: post) rfl
    obtain ⟨ctx', hrun', hmirror'⟩ := h (pre ++ [.delLink msg]) post (by simp)
    have hdel : ctx.msgDelLink msg = .ok ctx' := by
      rw [handleRtnl_concat, hrun] at hrun'
      exact hrun'
    -- the message is only survived if the link is in the table, and then it stays there
    have hstays : (ctx.findLinkSlot msg.index).isSome ∧ ctx' = ctx := by
      unfold Top.msgDelLink at hdel
      rcases hfind : ctx.findLinkSlot msg.index with _ | i
      · rw [hfind] at hdel
        cases hdel
      · rw [hfind] at hdel
        cases hdel
        exact ⟨rfl, rfl⟩
    obtain ⟨hsome, rfl⟩ := hstays
    have hgone := (hmirror'.found msg.index (ne_of_gt msg.pos)).mp hsome
    rw [announced_concat, announce] at hgone
    exact (nodup_announced pre).not_mem_erase hgone
  · rintro hdel pre post rfl
    obtain ⟨ctx, hrun, hlined⟩ :=
      lined_handleRtnl (fun p q h => hfew p (q ++ post) (by rw [h, append_assoc]))
      (fun msg hmem => hdel msg (mem_append_left _ hmem))
    exact ⟨ctx, hrun, hlined.mirror⟩

def eth0 : Ifinfo := { index := 2, pos := by decide, name := some [101, 116, 104, 48] }

lemma length_announced_le : (announced msgs).length ≤ msgs.length := by
  induction msgs using List.reverseRecOn with
  | nil => exact Nat.le_refl 0
  | append_singleton pre m ih =>
    rw [announced_concat, length_append]
    rcases m with msg | msg
    · rw [announce]
      split_ifs
      · rw [length_append]
        exact Nat.add_le_add_right ih 1
      · exact Nat.le_add_right_of_le ih
    · exact Nat.le_add_right_of_le (length_erase_le.trans ih)

/-- So few messages are about no more links than slots. -/
theorem few_of_length_le {msgs : List Msg} (h : msgs.length ≤ NLINKS) : Few msgs := by
  rintro pre post rfl
  rw [length_append] at h
  exact (length_announced_le pre).trans ((Nat.le_add_right _ _).trans h)

def lo : Ifinfo := { index := 1, pos := by decide, loopback := true, name := some [108, 111] }

def wlan0 : Ifinfo := { index := 3, pos := by decide, name := some [119, 108, 97, 110, 48] }

/-- The loopback link is left out, and two others are announced, one of them again as it comes
up. -/
theorem mirrors_iff_eth0_wlan0 :
    Mirrors [.newLink lo, .newLink eth0, .newLink wlan0, .newLink { eth0 with up := true }] := by
  refine (mirrors_iff _ (few_of_length_le (by decide))).mpr ?_
  simp

/-- `free_link_slot`, which is never got to, would not do either: when the last slot goes and the
one before it is in use, `nlinks` becomes the number of that slot, not one more, and hides it. -/
theorem freeLinkSlot_hides {ctx : Top} {i : ℕ} (hn : ctx.nlinks = i + 2)
    (hi : (ctx.links.getD i {}).ifi ≠ 0) : (ctx.freeLinkSlot (i + 1)).nlinks = i := by
  have hlast : ¬((i + 1 : ℕ) : ℤ) ≠ ctx.nlinks - 1 := by omega
  have hget : ((ctx.links.set (i + 1) {}).getD i {}).ifi ≠ 0 := by
    rwa [getD_eq_getElem?_getD, getElem?_set_ne (by omega), ← getD_eq_getElem?_getD]
  show (if ((i + 1 : ℕ) : ℤ) ≠ ctx.nlinks - 1 then ctx.put (i + 1) {} else _).nlinks = i
  rw [if_neg hlast]
  exact if_pos hget

/-- A link that is deleted stays in the table, and deleting one that is not there follows a pointer
to nowhere. -/
theorem deleted_link_stays :
    (∃ ctx, Top.handleRtnl [.newLink eth0, .delLink eth0] = .ok ctx ∧ ctx.findLinkSlot 2 = some 0 ∧
      announced [.newLink eth0, .delLink eth0] = []) ∧
    Top.handleRtnl [.delLink eth0] = .error .nullLink :=
  ⟨⟨_, rfl, by decide, by decide⟩, rfl⟩

end Minibase.Ifmon
