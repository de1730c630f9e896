import Minibase.Ifmon.Scripts

/-!
# Who is told about a script

`send_report` goes to the connections whose `ifi` is that of the link, which is what a request
leaves there. Neither `close_conn` nor `accept_ctrl` clears it, so a client who gets the slot of
another is told about the link the other asked for. In a run in which no report is made about a
link whose index is left in the slot of somebody else (`Ifmon.Mon.Cleared`) **a client is told
about the links it has asked for, and no others** (`Ifmon.Mon.told_on_request`).
-/

namespace Minibase.Ifmon

open List Option Link Work

/-! ### The table keeps its links -/

/-- The slots in use have links in them. -/
structure Top.Filled (ctx : Top) : Prop where
  length : ctx.links.length = NLINKS
  bounds : 0 ≤ ctx.nlinks ∧ ctx.nlinks ≤ NLINKS
  nonzero : 0 ∉ ctx.used.map ifi

/-- The same links are in the same slots. -/
structure Top.Alike (ctx ctx' : Top) : Prop where
  nlinks : ctx'.nlinks = ctx.nlinks
  ifis : ctx'.links.map ifi = ctx.links.map ifi

section Filled

variable {ctx ctx' ctx'' : Top} {i : ℕ} {ls : Link}

lemma Top.Alike.refl (ctx : Top) : ctx.Alike ctx := ⟨rfl, rfl⟩

lemma Top.Alike.trans (h : ctx.Alike ctx') (h' : ctx'.Alike ctx'') : ctx.Alike ctx'' :=
  ⟨h'.nlinks.trans h.nlinks, h'.ifis.trans h.ifis⟩

lemma Top.Alike.put (h : ctx.Alike ctx') (hifi : ls.ifi = (ctx'.links.getD i {}).ifi) :
    ctx.Alike (ctx'.put i ls) := by
  refine h.trans ⟨rfl, ?_⟩
  show (ctx'.links.set i ls).map ifi = _
  by_cases hi : i < ctx'.links.length
  · have hi' : i < (ctx'.links.map ifi).length := by rwa [length_map]
    have hget : (ctx'.links.getD i {}).ifi = (ctx'.links.map ifi)[i] := by
      rw [getElem_map, getD_eq_getElem?_getD, getElem?_eq_getElem hi, getD_some]
    rw [map_set, hifi, hget, set_getElem_self]
  · rw [set_eq_of_length_le (by omega)]

lemma Top.Filled.alike (h : ctx.Filled) (ha : ctx.Alike ctx') : ctx'.Filled := by
  refine ⟨?_, by rw [ha.nlinks]; exact h.bounds, ?_⟩
  · have hlen := congrArg List.length ha.ifis
    rw [length_map, length_map] at hlen
    rw [hlen, h.length]
  · have hnonzero := h.nonzero
    rw [Top.used, map_take] at hnonzero ⊢
    rw [ha.nlinks, ha.ifis]
    exact hnonzero

/-- A link in the table has an index. -/
theorem Top.Filled.ifi_ne (h : ctx.Filled) (hi : i < ctx.nlinks.toNat) :
    (ctx.links.getD i {}).ifi ≠ 0 := by
  have hb := h.bounds.2
  have hlen : i < ctx.links.length := by
    rw [h.length]
    omega
  rintro hzero
  refine h.nonzero (mem_map.mpr ⟨ctx.links.getD i {}, ?_, hzero⟩)
  rw [getD_eq_getElem?_getD, getElem?_eq_getElem hlen, getD_some]
  exact mem_take_iff_getElem.mpr ⟨i, by omega, rfl⟩

lemma Top.Filled.newLinkNotification (h : ctx.Filled) (msg : Ifinfo) :
    (ctx.newLinkNotification msg).Filled := by
  have hb := h.bounds
  have hl := h.length
  unfold Top.newLinkNotification
  rcases msg.name with _ | name
  · exact h
  dsimp only
  split_ifs
  · exact h
  have hfree : ctx.used.findIdx? (fun ls => ls.ifi = 0) = none := by
    refine findIdx?_eq_none_iff.mpr fun ls hls => ?_
    simpa using fun hzero : ls.ifi = 0 => h.nonzero (hzero ▸ mem_map_of_mem hls)
  simp only [Top.grabLinkSlot, hfree]
  by_cases hfull : (NLINKS : ℤ) ≤ ctx.nlinks
  · rw [if_pos hfull]
    exact h
  rw [if_neg hfull]
  dsimp only
  have hnext : (ctx.nlinks + 1).toNat = ctx.nlinks.toNat + 1 ∧ ctx.nlinks + 1 ≤ NLINKS ∧
    0 ≤ ctx.nlinks + 1 := by
    refine ⟨?_, ?_, ?_⟩ <;> omega
  generalize hls : spawnIdentify _ msg.spawn = ls
  refine ⟨by simpa [Top.put] using hl, ⟨hnext.2.2, hnext.2.1⟩, ?_⟩
  have hifi : ls.ifi = msg.index := by rw [← hls, spawnIdentify_ifi]
  have hlt : ctx.nlinks.toNat < (ctx.links.set ctx.nlinks.toNat ls).length := by
    rw [length_set, hl]
    omega
  show 0 ∉ ((ctx.links.set ctx.nlinks.toNat ls).take (ctx.nlinks + 1).toNat).map ifi
  rw [hnext.1, take_succ_eq_append_getElem hlt, take_set_of_le le_rfl, map_append, mem_append]
  rintro (hmem | hmem)
  · exact h.nonzero hmem
  · simp only [getElem_set_self, map_cons, map_nil, mem_singleton] at hmem
    exact ne_of_gt msg.pos (hifi ▸ hmem.symm)

lemma Top.Filled.dispatch (h : ctx.Filled) {msg : Msg} (hd : ctx.dispatch msg = .ok ctx') :
    ctx'.Filled := by
  rcases msg with msg | msg
  · cases hd
    rw [Top.msgNewLink]
    split_ifs
    · exact h
    rcases ctx.findLinkSlot msg.index with _ | i
    · exact h.newLinkNotification msg
    · have ha := (Top.Alike.refl ctx).put (i := i) (linkStateChanged_ifi _ msg)
      exact h.alike ⟨ha.nlinks, ha.ifis⟩
  · change ctx.msgDelLink msg = _ at hd
    rw [Top.msgDelLink] at hd
    rcases hfind : ctx.findLinkSlot msg.index with _ | i
    · rw [hfind] at hd
      cases hd
    · rw [hfind] at hd
      cases hd
      exact h

lemma Top.filled_init : Top.init.Filled := by
  refine ⟨length_replicate, by decide, ?_⟩
  rw [Top.used, Top.init]
  rintro ⟨⟩

end Filled

/-! ### Reports about a link -/

namespace Mon

variable {m : Mon}

/-- **A client that has not inherited its link** has asked for it. -/
def Rightful (m : Mon) : Prop :=
  ∀ cn ∈ m.conns, 0 < cn.fd → cn.left = false → cn.ifi = 0 ∨ cn.ifi ∈ cn.asked

/-- Nobody has inherited a link. -/
def Uninherited (m : Mon) (ifi : ℤ) : Prop :=
    ∀ cn ∈ m.conns, 0 < cn.fd → cn.ifi = ifi → cn.left = false

/-- **Each report** was asked for. -/
def Told (m : Mon) : Prop := ∀ r ∈ m.reports, r.ifi ∈ r.asked

/-- What is so while reports are sent about some links. -/
structure Sending (m : Mon) (P : ℤ → Prop) : Prop where
  rightful : m.Rightful
  uninherited : ∀ ifi, P ifi → m.Uninherited ifi
  told : m.Told

lemma mem_conns {j : ℕ} (hfd : 0 < (m.conn j).fd) : m.conn j ∈ m.conns := by
  unfold conn at hfd ⊢
  rw [getD_eq_getElem?_getD] at hfd ⊢
  rcases hget : m.conns[j]? with _ | cn
  · rw [hget] at hfd
    exact absurd hfd (by decide)
  · exact mem_of_getElem? hget

/-- What is so for all open connections is so when one of them is closed. -/
theorem mem_closeConn {j : ℕ} {cn : Conn} (hcn : cn ∈ (m.closeConn j).conns) (hfd : 0 < cn.fd) :
    cn ∈ m.conns := by
  have hset : cn ∈ m.conns.set j { m.conn j with fd := -1 } → cn ∈ m.conns := by
    intro hmem
    rcases mem_or_eq_of_mem_set hmem with h | rfl
    · exact h
    · exact absurd hfd (by simp)
  unfold closeConn at hcn
  dsimp only at hcn
  split_ifs at hcn
  · exact hcn
  · exact hset hcn
  · exact hset hcn

lemma closeConn_reports (m : Mon) (j : ℕ) : (m.closeConn j).reports = m.reports := by
  unfold closeConn
  dsimp only
  split_ifs <;> rfl

lemma Rightful.closeConn (h : m.Rightful) (j : ℕ) : (m.closeConn j).Rightful :=
  fun cn hcn hfd => h cn (mem_closeConn hcn hfd) hfd

lemma Told.closeConn (h : m.Told) (j : ℕ) : (m.closeConn j).Told := by
  rw [Told, closeConn_reports]
  exact h

variable {P : ℤ → Prop}

lemma Sending.closeConn (h : m.Sending P) (j : ℕ) : (m.closeConn j).Sending P :=
  ⟨h.rightful.closeConn j, fun ifi hP cn hcn hfd =>
    h.uninherited ifi hP cn (mem_closeConn hcn hfd) hfd,
    h.told.closeConn j⟩

section Sending

variable {P : ℤ → Prop} {ifi : ℤ} (hifi : ifi ≠ 0) (hP : P ifi) (sends : ℤ → ℕ → Bool)

include hifi hP

lemma Sending.sendTo (h : m.Sending P) (j : ℕ) : (m.sendTo sends ifi j).Sending P := by
  unfold Mon.sendTo
  dsimp only
  split_ifs with hskip hsent
  · exact h
  all_goals
    rw [not_or, not_not, not_le] at hskip
    have hmem := mem_conns hskip.2
    have hasked : ifi ∈ (m.conn j).asked := by
      rcases h.rightful _ hmem hskip.2 (h.uninherited ifi hP _ hmem hskip.2 hskip.1) with hzero |
        hasked
      · exact absurd (hskip.1.symm.trans hzero) hifi
      · exact hskip.1 ▸ hasked
    have hsending : Sending { m with reports := m.reports ++ [⟨ifi, (m.conn j).asked⟩] } P := by
      refine ⟨h.rightful, h.uninherited, fun r hr => ?_⟩
      rcases mem_append.mp hr with hr | hr
      · exact h.told r hr
      · rw [mem_singleton.mp hr]
        exact hasked
  · exact hsending
  · exact hsending.closeConn j

/-- **Reports about a link** go to those who have asked for it, if nobody has inherited it. -/
theorem Sending.sendReport (h : m.Sending P) : (m.sendReport sends ifi).Sending P := by
  rw [Mon.sendReport]
  induction range m.nconns generalizing m with
  | nil => exact h
  | cons j l ih => exact ih (h.sendTo hifi hP sends j)

lemma Sending.sendReports (n : ℕ) {m : Mon} (h : m.Sending P) :
    (sendReports sends ifi n m).Sending P := by
  induction n generalizing m with
  | zero => exact h
  | succ n ih => exact ih (h.sendReport hifi hP sends)

end Sending

/-! ### Commands -/

/-- What a command does to the connections: one of them may now be about a link that was asked
for. -/
structure Called (m m' : Mon) : Prop where
  alike : m.top.Alike m'.top
  reports : m'.reports = m.reports
  conns : m'.conns = m.conns ∨ ∃ j ifi, m'.conns = (m.subscribe j ifi).conns

variable {i j : ℕ}

lemma Called.refl (m : Mon) : m.Called m := ⟨.refl _, rfl, .inl rfl⟩

lemma setMode_called (m : Mon) (j i : ℕ) (mode : Option (List UInt8)) :
    m.Called (m.setMode j i mode).2 := by
  unfold setMode
  rcases mode with _ | mode
  · exact .refl m
  · dsimp only
    split_ifs
    · exact .refl m
    · exact ⟨(Top.Alike.refl m.top).put rfl, rfl, .inr ⟨j, (m.link i).ifi, rfl⟩⟩

lemma call_called (m : Mon) (j i : ℕ) (req : Req) : m.Called (m.call j i req).2 := by
  have hput (ctx' : Top) (ls : Link) (hn : ctx'.nlinks = m.top.nlinks)
    (hl : ctx'.links = m.top.links.set i ls)
      (hifi : ls.ifi = (m.link i).ifi) : m.top.Alike ctx' := by
    refine ⟨hn, ?_⟩
    rw [hl]
    exact ((Top.Alike.refl m.top).put hifi).ifis
  unfold call
  cases req.cmd with
  | status => exact .refl m
  | idmode =>
    simp only [cmdIdmode]
    split_ifs
    · exact .refl m
    · exact setMode_called m j i req.mode
  | mode =>
    simp only [cmdMode]
    split_ifs
    · exact .refl m
    · exact .refl m
    · exact setMode_called m j i req.mode
  | stop =>
    simp only [cmdStop]
    split_ifs
    · exact .refl m
    all_goals exact ⟨hput _ _ rfl rfl rfl, rfl, .inr ⟨j, (m.link i).ifi, rfl⟩⟩
  | kill =>
    simp only [cmdKill]
    split_ifs
    · exact .refl m
    · exact ⟨⟨rfl, rfl⟩, rfl, .inl rfl⟩
  | drop =>
    simp only [cmdDrop]
    split_ifs
    all_goals exact ⟨hput _ _ rfl rfl rfl, rfl, .inl rfl⟩
  | dhcpAuto => exact ⟨hput _ _ rfl rfl rfl, rfl, .inl rfl⟩
  | dhcpStop =>
    simp only [cmdDhcpStop]
    split_ifs
    all_goals exact ⟨hput _ _ rfl rfl rfl, rfl, .inl rfl⟩
  | reconnect =>
    have hifi : (m.link i).carrierFall.1.carrierRise.ifi = (m.link i).ifi := by
      unfold carrierRise
      split_ifs <;> rfl
    have hkills (l : List Kill) (m : Mon) : (l.foldl kill m).top.nlinks = m.top.nlinks ∧
        (l.foldl kill m).top.links = m.top.links ∧ (l.foldl kill m).reports = m.reports ∧
        (l.foldl kill m).conns = m.conns := by
      induction l generalizing m with
      | nil => exact ⟨rfl, rfl, rfl, rfl⟩
      | cons k l ih => exact ih (m.kill k)
    obtain ⟨h1, h2, h3, h4⟩ := hkills (m.link i).carrierFall.2 m
    have halike : m.top.Alike ((m.link i).carrierFall.2.foldl kill m).top := ⟨h1, by rw [h2]⟩
    refine ⟨halike.put ?_, h3, .inl h4⟩
    rw [h2]
    exact hifi

lemma dispatch_called (m : Mon) (j : ℕ) (req : Req) : m.Called (m.dispatch j req).2 := by
  unfold dispatch
  rcases req.ifi with _ | ifi
  · split_ifs <;> exact .refl m
  rcases hfind : m.top.findLinkSlot ifi with _ | i
  · simp only [hfind]
    split_ifs <;> exact .refl m
  · simp only [hfind]
    split_ifs
    · exact .refl m
    · exact .refl m
    · exact call_called m j i req

lemma Rightful.called {m m' : Mon} (h : m.Rightful) (hc : m.Called m') : m'.Rightful := by
  rcases hc.conns with hsame | ⟨j, ifi, hset⟩
  · rw [Rightful, hsame]
    exact h
  · intro cn hcn hfd hleft
    rw [hset] at hcn
    rcases mem_or_eq_of_mem_set hcn with hmem | rfl
    · exact h cn hmem hfd hleft
    · exact .inr mem_cons_self

lemma Rightful.acceptCtrl (h : m.Rightful) (fd : ℤ) : (m.acceptCtrl fd).Rightful := by
  unfold Mon.acceptCtrl
  split
  · exact h
  · rename_i hgrab
    obtain ⟨n, rfl⟩ := grabConnSlot_frame hgrab
    intro cn hcn hfd hleft
    rcases mem_or_eq_of_mem_set hcn with hmem | rfl
    · exact h cn hmem hfd hleft
    · exact .inl (by simpa using hleft)

/-! ### What is reported -/

/-- Something is to be done for a link, and its failure will be reported. -/
def Fails (r : Forks) (f : Flags) : Prop :=
  f.marked = true ∧ f.running = false ∧ f.failed = false ∧
    (f.needMode = true ∧ r.mode ≤ 0 ∨
      f.needMode = false ∧ f.needStop = true ∧ r.stop ≤ 0 ∧ (r.stop = noEntry → r.flush ≤ 0))

/-- A link that is checked is reported about only if something fails. -/
theorem checkLink_reports (r : Forks) {ls : Link} (hmarked : ls.flags.marked = true)
    (hreports : (checkLink r { ls := ls }).reports ≠ 0) : Fails r ls.flags := by
  have hquiet (need : Flags → Bool) (clear : Flags → Flags) (spawn : Work → Work)
      (hspawn : ∀ w, (spawn w).reports = w.reports) (w : Work) :
      (w.tryRun need clear spawn).reports = w.reports := by
    unfold tryRun
    split_ifs
    · exact hspawn _
    · rfl
  have hpoke (w : Work) : (w.spawnPoke r).reports = w.reports := by
    simp only [spawnPoke]
    split_ifs <;> rfl
  have hdhcp (w : Work) : (w.spawnDhcp r).reports = w.reports := by
    simp only [spawnDhcp]
    split_ifs <;> rfl
  simp only [checkLink] at hreports
  rw [hquiet _ _ _ hdhcp, hquiet _ _ _ hpoke] at hreports
  by_cases hmode : ls.canRun (·.needMode) = true
  · obtain ⟨hrun, hfailed, hneed⟩ := canRun_iff.mp hmode
    refine ⟨hmarked, hrun, hfailed, .inl ⟨hneed, not_lt.mp fun hpos => hreports ?_⟩⟩
    rw [tryRun.eq_def { ls := ls }, if_pos hmode]
    simp only [spawnMode]
    rw [if_pos hpos, tryRun, if_neg (by rw [canRun_iff]; exact fun h => by cases h.1)]
    rfl
  · rw [tryRun.eq_def { ls := ls }, if_neg hmode] at hreports
    by_cases hstop : ls.canRun (·.needStop) = true
    · obtain ⟨hrun, hfailed, hneed⟩ := canRun_iff.mp hstop
      have hno : ls.flags.needMode = false := by
        rw [← Bool.not_eq_true]
        exact fun hyes => hmode (canRun_iff.mpr ⟨hrun, hfailed, hyes⟩)
      rw [tryRun, if_pos hstop] at hreports
      simp only [spawnStop] at hreports
      refine ⟨hmarked, hrun, hfailed, .inr ⟨hno, hneed, ?_, fun hnone => ?_⟩⟩
      · refine not_lt.mp fun hpos => hreports ?_
        rw [if_pos hpos]
        rfl
      · refine not_lt.mp fun hpos => hreports ?_
        rw [if_neg (by rw [hnone]; decide), if_neg (by rw [hnone]; decide), if_pos hpos]
        rfl
    · rw [tryRun, if_neg hstop] at hreports
      exact absurd rfl hreports

/-- The exit of a script. -/
theorem gotSigchld_sending (hfill : m.top.Filled) (h : m.Sending P) {pid : ℕ}
    (hP : ∀ i, m.findLinkPid pid = some i →
      (m.link i).flags.script = .mode ∨ (m.link i).flags.script = .stop → P (m.link i).ifi)
    (status : ℕ) (sends : ℤ → ℕ → Bool) :
    (m.gotSigchld pid status sends).top.Filled ∧ (m.gotSigchld pid status sends).Sending P := by
  unfold gotSigchld
  rcases hfind : m.findLinkPid pid with _ | i
  · have hnone : Mon.findLinkPid { m with top := { m.top with
        children := m.top.children.filter fun c => c.2 ≠ pid } } pid = none := hfind
    simp only [hnone]
    exact ⟨⟨hfill.length, hfill.bounds, hfill.nonzero⟩, ⟨h.rightful, h.uninherited, h.told⟩⟩
  · have hsome : Mon.findLinkPid { m with top := { m.top with
        children := m.top.children.filter fun c => c.2 ≠ pid } } pid = some i := hfind
    obtain ⟨hifi, -, -⟩ := scriptExit_spec
      { m.link i with pid := status, flags := { (m.link i).flags with running := false } } status
    have hlt : i < m.top.nlinks.toNat := by
      obtain ⟨hi, -, -⟩ := findIdx?_eq_some_iff_getElem.mp hfind
      rw [Top.used, length_take] at hi
      omega
    have halike := (Top.Alike.refl m.top).put (i := i) hifi
    simp only [hsome]
    split_ifs with hreports
    · rw [sendReport_top]
      refine ⟨hfill.alike ⟨halike.nlinks, halike.ifis⟩,
        Sending.sendReport (hfill.ifi_ne hlt) (hP i hfind ?_) sends
          ⟨h.rightful, h.uninherited, h.told⟩⟩
      exact of_decide_eq_true hreports
    · exact ⟨hfill.alike ⟨halike.nlinks, halike.ifis⟩, ⟨h.rightful, h.uninherited, h.told⟩⟩

/-- A link is checked. -/
theorem checkSlot_sending (hfill : m.top.Filled) (h : m.Sending P) (hi : i < m.top.nlinks.toNat)
    (forks : ℕ → Forks) (sends : ℤ → ℕ → Bool)
    (hP : Fails (forks i) (m.link i).flags → P (m.link i).ifi) :
    ((m.checkSlot forks sends i).top.Filled ∧ (m.checkSlot forks sends i).Sending P) ∧
      (m.checkSlot forks sends i).top.nlinks = m.top.nlinks ∧
      ∀ j, i < j → (m.checkSlot forks sends i).link j = m.link j := by
  unfold checkSlot
  by_cases hmarked : (m.link i).flags.marked = true
  · have hpass := checkLink_spec (forks i) (m.link i)
    have hreports := checkLink_reports (forks i) hmarked
    rw [if_neg (by rw [hmarked]; decide)]
    generalize checkLink (forks i) { ls := m.link i } = w at hpass hreports ⊢
    have halike := (Top.Alike.refl m.top).put (i := i) hpass.ifi
    have hlen : i < m.top.links.length := by
      have hb := hfill.bounds.2
      rw [hfill.length]
      omega
    simp only [link, sendReports_top]
    refine ⟨⟨hfill.alike ⟨halike.nlinks, halike.ifis⟩, ?_⟩, rfl, fun j hij => ?_⟩
    · by_cases hzero : w.reports = 0
      · rw [hzero]
        exact ⟨h.rightful, h.uninherited, h.told⟩
      · exact Sending.sendReports (hfill.ifi_ne hi) (hP (hreports hzero)) sends w.reports
          ⟨h.rightful, h.uninherited, h.told⟩
    · exact (m.top.getD_put hlen w.ls j).trans (if_neg (by omega))
  · rw [if_pos (by simpa using hmarked)]
    exact ⟨⟨hfill, h⟩, rfl, fun _ _ => rfl⟩

/-- **All links are checked.** -/
theorem checkLinks_sending (hfill : m.top.Filled) (h : m.Sending P) (forks : ℕ → Forks)
    (sends : ℤ → ℕ → Bool)
    (hP : ∀ i < m.top.nlinks.toNat, Fails (forks i) (m.link i).flags → P (m.link i).ifi) :
    (m.checkLinks forks sends).top.Filled ∧ (m.checkLinks forks sends).Sending P := by
  -- The links that have not been checked yet are as they were.
  have hloop : ((m.checkLinks forks sends).top.Filled ∧ (m.checkLinks forks sends).Sending P) ∧
      (m.checkLinks forks sends).top.nlinks = m.top.nlinks ∧
      ∀ j, m.top.nlinks.toNat ≤ j → (m.checkLinks forks sends).link j = m.link j := by
    refine loop_invariant (P := fun n (m' : Mon) => (m'.top.Filled ∧ m'.Sending P) ∧
      m'.top.nlinks = m.top.nlinks ∧ ∀ j, n ≤ j → m'.link j = m.link j)
        ⟨⟨hfill, h⟩, rfl, fun _ _ => rfl⟩ ?_
    rintro n hn m' ⟨⟨hfill', h'⟩, hlinks, hrest⟩
    have hsame := hrest n le_rfl
    obtain ⟨hdone, hlinks', hrest'⟩ := checkSlot_sending hfill' h' (hlinks ▸ hn) forks sends
      (by rw [hsame]; exact hP n hn)
    exact ⟨hdone, hlinks'.trans hlinks,
      fun j hj => (hrest' j (by omega)).trans (hrest j (by omega))⟩
  exact hloop.1

/-! ### Runs -/

/-- Whoever is told about a link has not inherited it: the link of a script that ends, to set a mode
or to stop, and a link for which such a script cannot be run. -/
def Cleared (m : Mon) : Event → Prop
  | .reap pid _ _ => ∀ i, m.findLinkPid pid = some i →
      (m.link i).flags.script = .mode ∨ (m.link i).flags.script = .stop →
        m.Uninherited (m.link i).ifi
  | .checkLinks forks _ => ∀ i < m.top.nlinks.toNat, Fails (forks i) (m.link i).flags →
      m.Uninherited (m.link i).ifi
  | _ => True

/-- What is so in every state: the table has links in its slots, and only those are told who are to
be. -/
structure Known (m : Mon) : Prop where
  filled : m.top.Filled
  rightful : m.Rightful
  told : m.Told

lemma known_init : Mon.init.Known := by
  refine ⟨Top.filled_init, fun cn hcn hfd => ?_, nofun⟩
  rw [eq_of_mem_replicate hcn] at hfd
  exact absurd hfd (by decide)

/-- **A step** in which nobody is told about a link of somebody else. -/
theorem after_known (h : m.Known) {e : Event} {m' : Mon} (hok : m.Cleared e)
    (hafter : m.after e = some m') : m'.Known := by
  cases e with
  | netlink msg =>
    obtain ⟨top, htop, rfl⟩ := map_eq_some_iff.mp hafter
    rcases hd : m.top.dispatch msg with _ | top'
    · rw [hd] at htop
      cases htop
    · rw [hd] at htop
      cases htop
      exact ⟨h.filled.dispatch hd, h.rightful, h.told⟩
  | accept fd =>
    obtain ⟨-, hm⟩ := ite_none_right_eq_some.mp hafter
    cases hm
    refine ⟨by rw [acceptCtrl_top]; exact h.filled, h.rightful.acceptCtrl fd, ?_⟩
    rw [Told, (acceptCtrl_frame m fd).2]
    exact h.told
  | command j req replied =>
    obtain ⟨-, hm⟩ := ite_none_right_eq_some.mp hafter
    cases hm
    have hc := dispatch_called m j req
    have htold : (m.dispatch j req).2.Told := by
      rw [Told, hc.reports]
      exact h.told
    unfold handleConn
    cases replied with
    | true => exact ⟨h.filled.alike hc.alike, h.rightful.called hc, htold⟩
    | false =>
      refine ⟨?_, (h.rightful.called hc).closeConn j, htold.closeConn j⟩
      show ((m.dispatch j req).2.closeConn j).top.Filled
      rw [closeConn_top]
      exact h.filled.alike hc.alike
  | hangup j =>
    obtain ⟨-, hm⟩ := ite_none_right_eq_some.mp hafter
    cases hm
    exact ⟨by rw [closeConn_top]; exact h.filled, h.rightful.closeConn j, h.told.closeConn j⟩
  | reap pid status sends =>
    obtain ⟨-, hm⟩ := ite_none_right_eq_some.mp hafter
    cases hm
    obtain ⟨hfill, hsend⟩ := gotSigchld_sending (P := m.Uninherited) h.filled
      ⟨h.rightful, fun _ hP => hP, h.told⟩ hok status sends
    exact ⟨hfill, hsend.rightful, hsend.told⟩
  | checkLinks forks sends =>
    cases hafter
    obtain ⟨hfill, hsend⟩ := checkLinks_sending (P := m.Uninherited) h.filled
      ⟨h.rightful, fun _ hP => hP, h.told⟩ forks sends hok
    exact ⟨hfill, hsend.rightful, hsend.told⟩

/-- **Reports go only to those who have asked**, in a run in which none is made about a link that
somebody has inherited: whoever is told about a link has, at the same connection and since it was
accepted, asked for a mode of that link, or for it to stop, and the request succeeded. -/
theorem told_on_request (h : Reach (· = Mon.init) Mon.step Mon.Cleared m) :
    ∀ r ∈ m.reports, r.ifi ∈ r.asked := by
  have hinv : m.Known := by
    refine h.invariant (fun s hs => hs ▸ known_init) ?_
    intro s e s' hs hok hstep
    exact after_known hs hok (filter_eq_some_iff.mp hstep).1
  exact hinv.told

/-- As long as no slot is used again, nobody inherits anything. -/
theorem cleared_of_own (h : (m.conns.all fun cn => !cn.left) = true) (e : Event) : m.Cleared e := by
  have hnobody (ifi : ℤ) : m.Uninherited ifi :=
    fun cn hcn _ _ => by simpa using all_eq_true.mp h cn hcn
  cases e with
  | reap pid status sends => exact fun i _ _ => hnobody _
  | checkLinks forks sends => exact fun i _ _ => hnobody _
  | _ => trivial

/-- A mode is set for `eth0`, and the client waits for the report. -/
def awaited : List Event :=
  identified ++ [.accept 5, .command 0 ⟨.idmode, some 2, some [97]⟩ true, .reap 100 0 sent,
    .checkLinks (scripts 101) sent]

theorem told_on_request_eth0 : ∃ m, run (awaited ++ [.reap 101 0 sent]) = some m ∧
    m.reports = [⟨2, [2]⟩] ∧
    ∀ r ∈ m.reports, r.ifi ∈ r.asked := by
  have hrun : (awaited ++ [Event.reap 101 0 sent]).foldlM (fun m e =>
      if ((m : Mon).conns.all fun cn => !cn.left) = true then m.step e else none) Mon.init =
        some _ := rfl
  have hstart : Reach (· = Mon.init) Mon.step
    (fun m _ => (m.conns.all fun cn => !cn.left) = true) Mon.init :=
    .start rfl
  exact ⟨_, rfl, rfl, told_on_request ((hstart.foldlM hrun).mono fun _ e h => cleared_of_own h e)⟩

/-- Somebody who asks for nothing gets the report that was meant for the client before. -/
theorem told_unasked : ∃ m, run (awaited ++ [.hangup 0, .accept 6, .reap 101 0 sent]) = some m ∧
    ∃ r ∈ m.reports, r.ifi ∉ r.asked :=
  ⟨_, rfl, ⟨2, []⟩, by decide, by decide⟩

end Mon

end Minibase.Ifmon
