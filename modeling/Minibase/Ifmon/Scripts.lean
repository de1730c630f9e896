import Minibase.Ifmon.Monitor

/-!
# Scripts that run and needs that are pending

What `ifmon` remembers of its scripts is a flag and a process id for each link. Every step keeps
these right (`Ifmon.Mon.Owns`) but `cmd_drop`, which forgets the process id of a script that
runs. A pending need is noticed by `check_links` only if the link is marked
(`Ifmon.Mon.Remembers`), and the exit of a stop script does not mark it. In a run in which
neither happens **no script and no need is forgotten** (`Ifmon.Mon.nothing_forgotten`).
-/

namespace Minibase.Ifmon

open List Option Ifmon.Top Link Prod

/-- Whether something is pending. -/
def Flags.needs (f : Flags) : Bool := f.needMode || f.needStop || f.needPoke || f.needDhcp

/-! ### Running scripts for a link -/

namespace Work

/-- What was started is what is known to run. -/
def Own (w : Work) : Prop :=
  w.ls.flags.running = true ∧ w.pids = [w.ls.pid] ∨ w.ls.flags.running = false ∧ w.pids = []

/-- No more is needed than was. -/
def NoNew (f g : Flags) : Prop :=
  (g.needMode = true → f.needMode = true) ∧ (g.needStop = true → f.needStop = true) ∧
    (g.needPoke = true → f.needPoke = true) ∧ (g.needDhcp = true → f.needDhcp = true)

/-- What an attempt to run a script comes to. -/
structure Spawned (w w' : Work) : Prop where
  own : w'.ls.flags.running = true ∧ w'.pids = w.pids ++ [w'.ls.pid] ∨
    w'.ls.flags.running = false ∧ w'.pids = w.pids
  noNew : NoNew w.ls.flags w'.ls.flags
  ifi : w'.ls.ifi = w.ls.ifi

variable (r : Forks) (w : Work)

lemma spawnMode_spec : Spawned w (spawnMode r w) := by
  simp only [spawnMode]
  split_ifs
  · exact ⟨.inl ⟨rfl, rfl⟩, ⟨nofun, id, id, id⟩, rfl⟩
  · exact ⟨.inr ⟨rfl, rfl⟩, ⟨nofun, id, id, id⟩, rfl⟩

lemma spawnStop_spec : Spawned w (spawnStop r w) := by
  simp only [spawnStop]
  split_ifs
  · exact ⟨.inl ⟨rfl, rfl⟩, ⟨id, nofun, id, id⟩, rfl⟩
  · exact ⟨.inr ⟨rfl, rfl⟩, ⟨id, nofun, id, id⟩, rfl⟩
  · exact ⟨.inl ⟨rfl, rfl⟩, ⟨id, nofun, id, id⟩, rfl⟩
  · exact ⟨.inr ⟨rfl, rfl⟩, ⟨id, nofun, id, id⟩, rfl⟩
  · exact ⟨.inr ⟨rfl, rfl⟩, ⟨id, nofun, id, id⟩, rfl⟩

lemma spawnPoke_spec : Spawned w (spawnPoke r w) := by
  simp only [spawnPoke]
  split_ifs
  · exact ⟨.inl ⟨rfl, rfl⟩, ⟨id, id, id, id⟩, rfl⟩
  · exact ⟨.inr ⟨rfl, rfl⟩, ⟨id, id, id, id⟩, rfl⟩

lemma spawnDhcp_spec : Spawned w (spawnDhcp r w) := by
  simp only [spawnDhcp]
  split_ifs
  · exact ⟨.inl ⟨rfl, rfl⟩, ⟨id, id, id, id⟩, rfl⟩
  · exact ⟨.inr ⟨rfl, rfl⟩, ⟨id, id, id, id⟩, rfl⟩
  · exact ⟨.inl ⟨rfl, rfl⟩, ⟨id, id, id, id⟩, rfl⟩
  · exact ⟨.inr ⟨rfl, rfl⟩, ⟨id, id, id, id⟩, rfl⟩

/-- A need is met, or something keeps it from being. -/
def Settled (need : Flags → Bool) (w : Work) : Prop :=
  need w.ls.flags = true → w.ls.flags.running = true ∨ w.ls.flags.failed = true

variable {r w} {need : Flags → Bool} {clear : Flags → Flags} {spawn : Work → Work}

/-- **An attempt** starts at most one script. -/
theorem Own.tryRun (h : Own w) (hspawn : ∀ w, Spawned w (spawn w)) : Own
    (w.tryRun need clear spawn) := by
  rw [Work.tryRun]
  split_ifs with hcan
  · obtain ⟨hrun, -, -⟩ := canRun_iff.mp hcan
    have hpids : w.pids = [] := by
      rcases h with ⟨hrun', -⟩ | ⟨-, hpids⟩
      · exact nomatch hrun.symm.trans hrun'
      · exact hpids
    rcases (hspawn { w with ls := { w.ls with flags := clear w.ls.flags } }).own with ⟨h1, h2⟩ |
      ⟨h1, h2⟩
    · exact .inl ⟨h1, h2.trans (by rw [hpids]; rfl)⟩
    · exact .inr ⟨h1, h2.trans hpids⟩
  · exact h

lemma tryRun_ifi (hspawn : ∀ w, Spawned w (spawn w)) :
    (w.tryRun need clear spawn).ls.ifi = w.ls.ifi := by
  rw [Work.tryRun]
  split_ifs
  · exact (hspawn _).ifi
  · rfl

/-- **An attempt** settles the need it is for. -/
theorem settled_tryRun (hclear : need (clear w.ls.flags) = false)
    (hspawn : ∀ w, Spawned w (spawn w))
    (hneed : ∀ f g, NoNew f g → need g = true → need f = true) : Settled need
    (w.tryRun need clear spawn) := by
  rw [Work.tryRun]
  split_ifs with hcan
  · intro hpending
    exact nomatch hclear.symm.trans (hneed _ _ (hspawn _).noNew hpending)
  · intro hpending
    by_contra hno
    rw [not_or, Bool.not_eq_true, Bool.not_eq_true] at hno
    exact hcan (canRun_iff.mpr ⟨hno.1, hno.2, hpending⟩)

/-- **An attempt** leaves the other needs settled. -/
theorem Settled.tryRun {other : Flags → Bool} (h : Settled other w)
    (hclear : NoNew w.ls.flags (clear w.ls.flags))
    (hspawn : ∀ w, Spawned w (spawn w)) (hneed : ∀ f g, NoNew f g → other g = true →
      other f = true) :
    Settled other (w.tryRun need clear spawn) := by
  rw [Work.tryRun]
  split_ifs with hcan
  · intro hpending
    obtain ⟨hrun, hfail, -⟩ := canRun_iff.mp hcan
    have hbefore := hneed _ _ hclear (hneed _ _ (hspawn _).noNew hpending)
    rcases h hbefore with h1 | h1
    · exact nomatch hrun.symm.trans h1
    · exact nomatch hfail.symm.trans h1
  · exact h

/-- What a pass over a link leaves. -/
structure Passed (ls : Link) (w : Work) : Prop where
  ifi : w.ls.ifi = ls.ifi
  marked : w.ls.flags.marked = false
  settled : w.ls.flags.needs = true → w.ls.flags.running = true ∨ w.ls.flags.failed = true
  own : ls.flags.running = true ∧ w.ls.flags.running = true ∧ w.ls.pid = ls.pid ∧ w.pids = [] ∨
    ls.flags.running = false ∧ Own w

/-- **A link is checked**: what it needs is done, or has to wait for a script, or for the link to be
set up again. -/
theorem checkLink_spec (r : Forks) (ls : Link) : Passed ls (checkLink r { ls := ls }) := by
  have hmode := fun f g (h : NoNew f g) => h.1
  have hstop := fun f g (h : NoNew f g) => h.2.1
  have hpoke := fun f g (h : NoNew f g) => h.2.2.1
  have hdhcp := fun f g (h : NoNew f g) => h.2.2.2
  refine ⟨?_, rfl, ?_, ?_⟩
  · simp only [checkLink]
    rw [tryRun_ifi (spawnDhcp_spec r), tryRun_ifi (spawnPoke_spec r), tryRun_ifi (spawnStop_spec r),
      tryRun_ifi (spawnMode_spec r)]
  · intro hneeds
    simp only [checkLink] at hneeds ⊢
    generalize hw1 : Work.tryRun { ls := ls } (·.needMode) _ (spawnMode r) = w1 at hneeds ⊢
    generalize hw2 : w1.tryRun (·.needStop) _ (spawnStop r) = w2 at hneeds ⊢
    generalize hw3 : w2.tryRun (·.needPoke) _ (spawnPoke r) = w3 at hneeds ⊢
    generalize hw4 : w3.tryRun (·.needDhcp) _ (spawnDhcp r) = w4 at hneeds ⊢
    have h1 : Settled (·.needMode) w1 := hw1 ▸ settled_tryRun rfl (spawnMode_spec r) hmode
    have h2 : Settled (·.needStop) w2 := hw2 ▸ settled_tryRun rfl (spawnStop_spec r) hstop
    have h3 : Settled (·.needPoke) w3 := hw3 ▸ settled_tryRun rfl (spawnPoke_spec r) hpoke
    have h4 : Settled (·.needDhcp) w4 := hw4 ▸ settled_tryRun rfl (spawnDhcp_spec r) hdhcp
    have h12 : Settled (·.needMode) w2 :=
      hw2 ▸ h1.tryRun ⟨id, nofun, id, id⟩ (spawnStop_spec r) hmode
    have h13 : Settled (·.needMode) w3 :=
      hw3 ▸ h12.tryRun ⟨id, id, nofun, id⟩ (spawnPoke_spec r) hmode
    have h14 : Settled (·.needMode) w4 :=
      hw4 ▸ h13.tryRun ⟨id, id, id, nofun⟩ (spawnDhcp_spec r) hmode
    have h23 : Settled (·.needStop) w3 :=
      hw3 ▸ h2.tryRun ⟨id, id, nofun, id⟩ (spawnPoke_spec r) hstop
    have h24 : Settled (·.needStop) w4 :=
      hw4 ▸ h23.tryRun ⟨id, id, id, nofun⟩ (spawnDhcp_spec r) hstop
    have h34 : Settled (·.needPoke) w4 :=
      hw4 ▸ h3.tryRun ⟨id, id, id, nofun⟩ (spawnDhcp_spec r) hpoke
    simp only [Flags.needs, Bool.or_eq_true] at hneeds
    rcases hneeds with ((h | h) | h) | h
    · exact h14 h
    · exact h24 h
    · exact h34 h
    · exact h4 h
  · cases hrun : ls.flags.running with
    | true =>
      have hno (need : Flags → Bool) : ls.canRun need = false := by
        rw [canRun, hrun]
        rfl
      simp only [checkLink, Work.tryRun, hno, Bool.false_eq_true, if_false]
      simp [hrun]
    | false =>
      have hown : Own { ls := ls } := .inr ⟨hrun, rfl⟩
      exact .inr ⟨rfl, (((hown.tryRun (spawnMode_spec r)).tryRun (spawnStop_spec r)).tryRun
        (spawnPoke_spec r)).tryRun (spawnDhcp_spec r)⟩

end Work

/-! ### What the process remembers -/

/-- **The table of links is right**: the scripts that run are those that are known to, one for a
link at most, and what is pending will be looked at. -/
structure Top.Sound (ctx : Top) : Prop where
  length : ctx.links.length = NLINKS
  bounds : 0 ≤ ctx.nlinks ∧ ctx.nlinks ≤ NLINKS
  fresh : ∀ i, ctx.nlinks.toNat ≤ i → ctx.links.getD i {} = {}
  there : ∀ i, i < ctx.nlinks.toNat → (ctx.links.getD i {}).ifi ≠ 0
  own : ∀ i, (ctx.children.filter (·.1 = i)).map snd =
    if (ctx.links.getD i {}).flags.running then [(ctx.links.getD i {}).pid] else []
  tidy : ∀ i, (ctx.links.getD i {}).flags.needs = true →
    (ctx.links.getD i {}).flags.running = true ∨ (ctx.links.getD i {}).flags.failed = true ∨
      (ctx.links.getD i {}).flags.marked = true

section Sound

variable {ctx : Top} {i j : ℕ} {ls : Link}

lemma Top.getD_put (ctx : Top) (hi : i < ctx.links.length) (ls : Link) (j : ℕ) :
    (ctx.put i ls).links.getD j {} = if j = i then ls else ctx.links.getD j {} := by
  rw [put, getD_eq_getElem?_getD, getElem?_set]
  split_ifs with h1 h2 h2
  · rfl
  · exact absurd h1.symm h2
  · exact absurd h2.symm h1
  · rw [getD_eq_getElem?_getD]

lemma Top.Sound.lt (h : ctx.Sound) (hi : i < ctx.nlinks.toNat) : i < ctx.links.length := by
  have hb := h.bounds.2
  have hl := h.length
  rw [NLINKS] at hb hl
  omega

/-- A link is changed, or gets into the table, and the scripts that run for it change. -/
theorem Top.Sound.change (h : ctx.Sound) {nlinks : ℤ} {children : List (ℕ × ℕ)} {kills : List Kill}
    (hle : ctx.nlinks ≤ nlinks) (hfits : nlinks ≤ NLINKS) (hi : i < nlinks.toNat)
    (hnew : ∀ j, j < nlinks.toNat → j ≠ i → j < ctx.nlinks.toNat) (hifi : ls.ifi ≠ 0)
    (hown : (children.filter (·.1 = i)).map snd = if ls.flags.running then [ls.pid] else [])
    (hrest : ∀ j, j ≠ i → children.filter (·.1 = j) = ctx.children.filter (·.1 = j))
    (htidy : ls.flags.needs = true →
      ls.flags.running = true ∨ ls.flags.failed = true ∨ ls.flags.marked = true) :
    Top.Sound ⟨nlinks, ctx.links.set i ls, kills, children⟩ := by
  have hb := h.bounds
  have hl := h.length
  rw [NLINKS] at hb hfits hl
  have hget := ctx.getD_put (i := i) (by omega) ls
  simp only [put] at hget
  refine ⟨by rw [← h.length, length_set], ⟨?_, hfits⟩, fun j hj => ?_, fun j hj => ?_, fun j => ?_,
    fun j => ?_⟩
  · exact hb.1.trans hle
  · change nlinks.toNat ≤ j at hj
    rw [hget, if_neg (by omega)]
    exact h.fresh j (by omega)
  · rw [hget]
    split_ifs with hji
    · exact hifi
    · exact h.there j (hnew j hj hji)
  · rw [hget]
    by_cases hji : j = i
    · rw [if_pos hji, hji]
      exact hown
    · rw [if_neg hji, ← h.own j, ← hrest j hji]
  · rw [hget]
    split_ifs with hji
    · exact htidy
    · exact h.tidy j

/-- What may become of a link while no script of it starts or ends. -/
structure Link.Same (ls ls' : Link) : Prop where
  ifi : ls'.ifi = ls.ifi
  running : ls'.flags.running = ls.flags.running
  pid : ls.flags.running = true → ls'.pid = ls.pid
  tidy : (ls.flags.needs = true → ls.flags.running = true ∨ ls.flags.failed = true ∨
    ls.flags.marked = true) →
    ls'.flags.needs = true → ls'.flags.running = true ∨ ls'.flags.failed = true ∨
      ls'.flags.marked = true

lemma Link.Same.refl (ls : Link) : Link.Same ls ls := ⟨rfl, rfl, fun _ => rfl, id⟩

lemma Link.Same.trans {ls ls' ls'' : Link} (h : Link.Same ls ls') (h' : Link.Same ls' ls'') :
    Link.Same ls ls'' :=
  ⟨h'.ifi.trans h.ifi, h'.running.trans h.running,
    fun hrun => (h'.pid (h.running.trans hrun)).trans (h.pid hrun), h'.tidy ∘ h.tidy⟩

/-- A link of the table is changed while no script of it starts or ends. -/
theorem Top.Sound.same (h : ctx.Sound) (hi : i < ctx.nlinks.toNat) {kills : List Kill}
    (hls : Link.Same (ctx.links.getD i {}) ls) : Top.Sound
    { ctx.put i ls with kills := kills } := by
  refine h.change le_rfl h.bounds.2 hi (fun _ hj _ => hj) ?_ ?_ (fun _ _ => rfl)
    (hls.tidy (h.tidy i))
  · rw [hls.ifi]
    exact h.there i hi
  rw [put, h.own i, hls.running]
  split_ifs with hrun
  · rw [hls.pid hrun]
  · rfl

lemma Top.sound_init : init.Sound := by
  have hget (i : ℕ) : init.links.getD i {} = {} := by
    rw [init, getD_eq_getElem?_getD, getElem?_replicate]
    split_ifs <;> rfl
  refine ⟨length_replicate, by decide, fun i _ => hget i, fun _ h => (by cases h), fun i => ?_,
    fun i => ?_⟩
  · rw [hget]
    rfl
  · rw [hget]
    rintro ⟨⟩

end Sound

/-! ### Messages -/

section Messages

variable {ctx : Top} {i : ℕ}

lemma Link.same_of_marked {ls ls' : Link} (hifi : ls'.ifi = ls.ifi)
    (hrun : ls'.flags.running = ls.flags.running) (hpid : ls'.pid = ls.pid)
    (hmarked : ls'.flags.marked = true) : Link.Same ls ls' :=
  ⟨hifi, hrun, fun _ => hpid, fun _ _ => .inr (.inr hmarked)⟩

lemma Link.same_carrierRise (ls : Link) : Link.Same ls ls.carrierRise := by
  rw [carrierRise]
  split_ifs
  · exact .refl ls
  · exact same_of_marked rfl rfl rfl rfl

lemma Link.same_carrierFall (ls : Link) : Link.Same ls ls.carrierFall.1 := by
  refine ⟨rfl, rfl, fun _ => rfl, fun h hneeds => h ?_⟩
  simp only [carrierFall, Flags.needs, Bool.or_false] at hneeds
  rw [Flags.needs, hneeds]
  rfl

lemma Link.same_linkStateChanged (ls : Link) (msg : Ifinfo) : Link.Same ls
    (ls.linkStateChanged msg).1 := by
  have hname : Link.Same ls (ls.checkLinkName msg) := by
    unfold checkLinkName
    split
    · exact .refl ls
    · split_ifs
      · exact .refl ls
      · exact ⟨rfl, rfl, fun _ => rfl, id⟩
  have hflags (ls' : Link) (h : Link.Same ls ls') :
      Link.Same ls { ls' with flags := { ls.flags with carrier := msg.running, enabled := msg.up }
        } :=
    ⟨h.ifi, rfl, h.pid, id⟩
  have henabled (b : Bool) (ls' : Link) : Link.Same ls' (if b then ls'.enabledRise else ls') := by
    split_ifs
    · exact same_of_marked rfl rfl rfl rfl
    · exact .refl ls'
  have hcarrier (b : Bool) (ls' : Link) : Link.Same ls' (if b then ls'.carrierRise else ls') := by
    split_ifs
    · exact same_carrierRise ls'
    · exact .refl ls'
  have hrise := ((hflags _ hname).trans (henabled (!ls.flags.enabled && msg.up) _)).trans
    (hcarrier (!ls.flags.carrier && msg.running) _)
  unfold linkStateChanged
  by_cases hfall : (ls.flags.carrier && !msg.running) = true
  · dsimp only
    rw [if_pos hfall]
    exact hrise.trans (same_carrierFall _)
  · dsimp only
    rw [if_neg hfall]
    exact hrise

lemma Top.findLinkSlot_lt {ifi : ℤ} (hfind : ctx.findLinkSlot ifi = some i) :
    i < ctx.nlinks.toNat := by
  obtain ⟨hi, -, -⟩ := findIdx?_eq_some_iff_getElem.mp hfind
  rw [used, length_take] at hi
  omega

/-- The slots in use. -/
theorem Top.getElem_used (hi : i < ctx.used.length) : ctx.used[i] = ctx.links.getD i {} := by
  have hi' : i < ctx.links.length := by
    rw [used, length_take] at hi
    omega
  simp only [used, getElem_take, getD_eq_getElem?_getD, getElem?_eq_getElem hi', getD_some]

lemma Top.Sound.newLinkNotification (h : ctx.Sound) (msg : Ifinfo) :
    (ctx.newLinkNotification msg).Sound := by
  have hb := h.bounds
  unfold Top.newLinkNotification
  rcases msg.name with _ | name
  · exact h
  dsimp only
  split_ifs
  · exact h
  have hfree : ctx.used.findIdx? (fun ls => ls.ifi = 0) = none := by
    refine findIdx?_eq_none_iff.mpr fun ls hls => ?_
    obtain ⟨k, hk, rfl⟩ := mem_iff_getElem.mp hls
    have hlt : k < ctx.nlinks.toNat := by
      rw [Top.used, length_take] at hk
      omega
    rw [Top.getElem_used hk]
    simpa using h.there k hlt
  simp only [Top.grabLinkSlot, hfree]
  by_cases hfull : (NLINKS : ℤ) ≤ ctx.nlinks
  · rw [if_pos hfull]
    exact h
  rw [if_neg hfull]
  dsimp only
  have hfresh := h.fresh ctx.nlinks.toNat le_rfl
  have hlt : ctx.nlinks.toNat < ctx.links.length := by
    rw [h.length]
    omega
  have hnone := h.own ctx.nlinks.toNat
  rw [hfresh] at hnone ⊢
  have hnext : ctx.nlinks ≤ ctx.nlinks + 1 ∧ ctx.nlinks + 1 ≤ NLINKS ∧
      ctx.nlinks.toNat < (ctx.nlinks + 1).toNat ∧
      ∀ j, j < (ctx.nlinks + 1).toNat → j ≠ ctx.nlinks.toNat → j < ctx.nlinks.toNat := by
    refine ⟨?_, ?_, ?_, fun j _ _ => ?_⟩ <;> omega
  refine h.change hnext.1 hnext.2.1 hnext.2.2.1 hnext.2.2.2 ?_ ?_ (fun j hji => ?_) ?_
  · rw [spawnIdentify_ifi]
    exact ne_of_gt msg.pos
  · rw [filter_append, map_append, hnone]
    rcases msg.spawn with _ | pid
    · rfl
    · simp [spawnIdentify]
  · rw [filter_append]
    rcases msg.spawn with _ | pid
    · simp
    · simp [Ne.symm hji]
  · rcases msg.spawn with _ | pid
    · rintro ⟨⟩
    · rintro ⟨⟩

lemma Top.Sound.dispatch (h : ctx.Sound) {msg : Msg} {ctx' : Top}
    (hd : ctx.dispatch msg = .ok ctx') : ctx'.Sound := by
  rcases msg with msg | msg
  · cases hd
    rw [msgNewLink]
    split_ifs
    · exact h
    rcases hfind : ctx.findLinkSlot msg.index with _ | i
    · exact h.newLinkNotification msg
    · exact h.same (findLinkSlot_lt hfind) (same_linkStateChanged _ msg)
  · change ctx.msgDelLink msg = _ at hd
    rw [msgDelLink] at hd
    rcases hfind : ctx.findLinkSlot msg.index with _ | i
    · rw [hfind] at hd
      cases hd
    · rw [hfind] at hd
      cases hd
      exact h

end Messages

/-! ### Commands -/

namespace Mon

variable {m : Mon} {i j : ℕ}

@[simp] lemma closeConn_top (m : Mon) (j : ℕ) : (m.closeConn j).top = m.top := by
  unfold closeConn
  dsimp only
  split_ifs <;> rfl

/-- Looking for a slot changes nothing but how many there are. -/
theorem grabConnSlot_frame {k : ℕ} {m' : Mon} (h : m.grabConnSlot = some (k, m')) :
    ∃ n, m' = { m with nconns := n } := by
  unfold grabConnSlot at h
  split at h
  · cases h
    exact ⟨m.nconns, rfl⟩
  · obtain ⟨-, hm⟩ := ite_none_left_eq_some.mp h
    cases hm
    exact ⟨_, rfl⟩

/-- **A connection** is accepted into one slot, or closed at once. -/
theorem acceptCtrl_frame (m : Mon) (fd : ℤ) :
    (m.acceptCtrl fd).top = m.top ∧ (m.acceptCtrl fd).reports = m.reports := by
  unfold acceptCtrl
  split
  · exact ⟨rfl, rfl⟩
  · rename_i hgrab
    obtain ⟨n, rfl⟩ := grabConnSlot_frame hgrab
    exact ⟨rfl, rfl⟩

@[simp] lemma acceptCtrl_top (m : Mon) (fd : ℤ) : (m.acceptCtrl fd).top = m.top :=
    (acceptCtrl_frame m fd).1

@[simp] lemma sendReport_top (m : Mon) (sends : ℤ → ℕ → Bool) (ifi : ℤ) :
    (m.sendReport sends ifi).top = m.top := by
  have hone (m : Mon) (j : ℕ) : (m.sendTo sends ifi j).top = m.top := by
    unfold sendTo
    dsimp only
    split_ifs
    · rfl
    · rfl
    · exact closeConn_top _ j
  rw [sendReport]
  induction range m.nconns generalizing m with
  | nil => rfl
  | cons j l ih => rw [foldl_cons, ih, hone]

@[simp] lemma sendReports_top (sends : ℤ → ℕ → Bool) (ifi : ℤ) (n : ℕ) (m : Mon) :
    (sendReports sends ifi n m).top = m.top := by
  induction n generalizing m with
  | zero => rfl
  | succ n ih => rw [sendReports, ih, sendReport_top]

lemma setMode_sound (h : m.top.Sound) (hi : i < m.top.nlinks.toNat) (mode : Option (List UInt8)) :
    (m.setMode j i mode).2.top.Sound := by
  unfold setMode
  rcases mode with _ | mode
  · exact h
  · dsimp only
    split_ifs
    · exact h
    · exact h.same hi (same_of_marked rfl rfl rfl rfl)

/-- **A command** about a link keeps the table right, unless it makes `ifmon` forget a script. -/
theorem call_sound (h : m.top.Sound) (hi : i < m.top.nlinks.toNat) {req : Req}
    (hdrop : req.cmd = .drop → (m.link i).flags.running = false) :
    (m.call j i req).2.top.Sound := by
  unfold call
  cases hcmd : req.cmd with
  | status => exact h
  | idmode =>
    simp only [cmdIdmode]
    split_ifs
    · exact h
    · exact setMode_sound h hi req.mode
  | mode =>
    simp only [cmdMode]
    split_ifs
    · exact h
    · exact h
    · exact setMode_sound h hi req.mode
  | stop =>
    simp only [cmdStop]
    split_ifs
    · exact h
    · exact h.same hi (same_of_marked rfl rfl rfl rfl)
    · exact h.same hi (same_of_marked rfl rfl rfl rfl)
    · exact h.same hi (same_of_marked rfl rfl rfl rfl)
  | kill =>
    simp only [cmdKill]
    split_ifs
    · exact h
    · exact ⟨h.length, h.bounds, h.fresh, h.there, h.own, h.tidy⟩
  | drop =>
    have hrun := hdrop hcmd
    simp only [cmdDrop]
    rw [if_neg (by rw [hrun]; decide)]
    exact h.same hi ⟨rfl, rfl, fun hrun' => (nomatch hrun.symm.trans hrun'), id⟩
  | dhcpAuto => exact h.same hi (same_of_marked rfl rfl rfl rfl)
  | dhcpStop =>
    simp only [cmdDhcpStop]
    split_ifs
    · exact h.same hi ⟨rfl, rfl, fun _ => rfl, id⟩
    · exact h.same hi ⟨rfl, rfl, fun _ => rfl, id⟩
  | reconnect =>
    simp only [cmdReconnect]
    generalize (m.link i).carrierFall.2 = kills
    have hkills : ∃ l, (kills.foldl kill m).top = { m.top with kills := l } := by
      induction kills generalizing m with
      | nil => exact ⟨m.top.kills, rfl⟩
      | cons k kills ih =>
        obtain ⟨l, hl⟩ := ih (m := m.kill k)
          ⟨h.length, h.bounds, h.fresh, h.there, h.own, h.tidy⟩ hi hdrop
        exact ⟨l, hl⟩
    obtain ⟨l, hl⟩ := hkills
    show ((kills.foldl kill m).top.put i _).Sound
    rw [hl]
    exact h.same hi ((same_carrierFall _).trans (same_carrierRise _))

/-! ### Exits of scripts -/

lemma mem_children_iff {ctx : Top} (h : ctx.Sound) (i pid : ℕ) :
    (i, pid) ∈ ctx.children ↔
      (ctx.links.getD i {}).flags.running = true ∧ (ctx.links.getD i {}).pid = pid := by
  have hmem : (i, pid) ∈ ctx.children ↔ pid ∈ (ctx.children.filter (·.1 = i)).map snd := by
    simp
  rw [hmem, h.own i]
  split_ifs with hrun
  · rw [mem_singleton, and_iff_right hrun, eq_comm]
  · exact ⟨nofun, fun h => absurd h.1 hrun⟩

/-- The link whose script has ended is found. -/
theorem findLinkPid_spec (h : m.top.Sound) {pid : ℕ} (hpid : pid ∈ m.top.children.map snd) :
    ∃ i, m.findLinkPid pid = some i ∧ i < m.top.nlinks.toNat ∧ (i, pid) ∈ m.top.children := by
  obtain ⟨⟨k, pid'⟩, hchild, rfl⟩ := mem_map.mp hpid
  have hlen : m.top.used.length = m.top.nlinks.toNat := by
    have hb := h.bounds.2
    have hl := h.length
    rw [NLINKS] at hb hl
    rw [used, length_take]
    omega
  obtain ⟨hrun, hlink⟩ := (mem_children_iff h k pid').mp hchild
  have hk : k < m.top.used.length := by
    by_contra hno
    rw [h.fresh k (by omega)] at hrun
    cases hrun
  have hsome : (m.findLinkPid pid').isSome := by
    rw [findLinkPid, findIdx?_isSome]
    refine any_eq_true.mpr ⟨m.top.used[k], getElem_mem hk, ?_⟩
    rw [getElem_used hk, hrun, hlink]
    simp
  obtain ⟨i, hi⟩ := isSome_iff_exists.mp hsome
  obtain ⟨hlt, hrunning, -⟩ := findIdx?_eq_some_iff_getElem.mp hi
  rw [getElem_used hlt, Bool.and_eq_true, beq_iff_eq] at hrunning
  exact ⟨i, hi, hlen ▸ hlt, (mem_children_iff h i pid').mpr hrunning⟩

/-- What the exit of a script does to its link. -/
theorem scriptExit_spec (ls : Link) (status : ℕ) :
    (scriptExit ls status).1.ifi = ls.ifi ∧
      (scriptExit ls status).1.flags.running = ls.flags.running ∧
      ((ls.flags.script = .stop → ls.flags.needs = true → ls.flags.failed = true ∨
        ls.flags.marked = true) →
        (scriptExit ls status).1.flags.needs = true →
          (scriptExit ls status).1.flags.failed = true ∨
            (scriptExit ls status).1.flags.marked = true) := by
  simp only [scriptExit]
  split_ifs with h1 h2 h2
  · exact nomatch h1.symm.trans h2.1
  · exact ⟨rfl, rfl, fun h => h h1⟩
  · exact ⟨rfl, rfl, fun _ _ => .inr rfl⟩
  · exact ⟨rfl, rfl, fun _ _ => .inr rfl⟩

/-- **The exit of a script** is noticed, and what is pending will be looked at, unless nobody sees
to it after a stop script. -/
theorem gotSigchld_sound (h : m.top.Sound) (hnodup : (m.top.children.map snd).Nodup) {pid : ℕ}
    (hpid : pid ∈ m.top.children.map snd) (status : ℕ) (sends : ℤ → ℕ → Bool)
    (hstop : ∀ i, m.findLinkPid pid = some i → (m.link i).flags.script = .stop →
      (m.link i).flags.needs = true → (m.link i).flags.failed = true ∨
        (m.link i).flags.marked = true) :
    (m.gotSigchld pid status sends).top.Sound := by
  obtain ⟨i, hfind, hi, hchild⟩ := findLinkPid_spec h hpid
  have hstop := hstop i hfind
  obtain ⟨hifi, hrun, htidy⟩ := scriptExit_spec
    { m.link i with pid := status, flags := { (m.link i).flags with running := false } } status
  have htidy := htidy hstop
  have hlink : (m.link i).flags.running = true ∧ (m.link i).pid = pid :=
    (mem_children_iff h i pid).mp hchild
  have hsound : Top.Sound { m.top.put i (scriptExit
      { m.link i with pid := status, flags := { (m.link i).flags with running := false } }
        status).1 with
      children := m.top.children.filter fun c => c.2 ≠ pid } := by
    refine h.change le_rfl h.bounds.2 hi (fun _ hj _ => hj) ?_ ?_ (fun j hji => ?_) fun hneeds =>
      .inr (htidy hneeds)
    · rw [hifi]
      exact h.there i hi
    · have hown := h.own i
      change _ = if (m.link i).flags.running then [(m.link i).pid] else [] at hown
      rw [if_pos hlink.1] at hown
      rw [hrun, filter_comm, map_eq_nil_iff.mpr]
      · simp
      refine filter_eq_nil_iff.mpr fun c hc => ?_
      have hmem := hown ▸ mem_map_of_mem (f := snd) hc
      rw [mem_singleton] at hmem
      simpa [hmem] using hlink.2
    · rw [List.filter_filter]
      refine filter_congr fun c hc => ?_
      by_cases hcj : c.1 = j
      · have hne : c.2 ≠ pid := by
          rintro hcp
          exact hji (hcj.symm.trans (congrArg fst (inj_on_of_nodup_map hnodup hc hchild hcp)))
        simp [hne]
      · simp [hcj]
  have hfind' : Mon.findLinkPid { m with top := { m.top with
      children := m.top.children.filter fun c => c.2 ≠ pid } } pid = some i := hfind
  unfold gotSigchld
  simp only [hfind']
  split_ifs
  · rw [sendReport_top]
    exact hsound
  · exact hsound

/-! ### Checking the links -/

/-- A link is checked. -/
theorem checkSlot_sound (h : m.top.Sound) (hi : i < m.top.nlinks.toNat) (forks : ℕ → Forks)
    (sends : ℤ → ℕ → Bool) :
    (m.checkSlot forks sends i).top.Sound ∧ (m.checkSlot forks sends i).top.nlinks = m.top.nlinks ∧
      (((m.checkSlot forks sends i).link i).flags.needs = true →
        ((m.checkSlot forks sends i).link i).flags.running = true ∨
          ((m.checkSlot forks sends i).link i).flags.failed = true) ∧
      ∀ j, j ≠ i → (m.checkSlot forks sends i).link j = m.link j := by
  unfold checkSlot
  by_cases hmarked : (m.link i).flags.marked = true
  · have hpass := Work.checkLink_spec (forks i) (m.link i)
    rw [if_neg (by rw [hmarked]; decide)]
    generalize Work.checkLink (forks i) { ls := m.link i } = w at hpass ⊢
    have hget := m.top.getD_put (h.lt hi) w.ls
    have hhere : (m.top.put i w.ls).links.getD i {} = w.ls := (hget i).trans (if_pos rfl)
    simp only [link, sendReports_top]
    refine ⟨?_, rfl, ?_, fun j hji => (hget j).trans (if_neg hji)⟩
    · refine h.change le_rfl h.bounds.2 hi (fun _ hj _ => hj) ?_ ?_ (fun j hji => ?_)
        fun hneeds => (hpass.settled hneeds).imp_right .inl
      · rw [hpass.ifi]
        exact h.there i hi
      · have hown := h.own i
        change _ = if (m.link i).flags.running then [(m.link i).pid] else [] at hown
        show ((m.top.children ++ _).filter _).map _ = _
        rw [filter_append, map_append, hown]
        have hfilter : ((w.pids.map (i, ·)).filter fun c => decide (c.1 = i)).map snd =
          w.pids := by
          rw [List.filter_eq_self.mpr (by simp), List.map_map]
          exact map_id _
        rw [hfilter]
        rcases hpass.own with ⟨hrun, hrun', hpid, hpids⟩ | ⟨hrun, ⟨hrun', hpids⟩ | ⟨hrun', hpids⟩⟩
        · simp [hrun, hrun', hpid, hpids]
        · simp [hrun, hrun', hpids]
        · simp [hrun, hrun', hpids]
      · show (m.top.children ++ _).filter _ = _
        rw [filter_append, append_right_eq_self.mpr]
        refine filter_eq_nil_iff.mpr ?_
        simp [Ne.symm hji]
    · intro hneeds
      change ((m.top.put i w.ls).links.getD i {}).flags.needs = true at hneeds
      rw [hhere] at hneeds
      show ((m.top.put i w.ls).links.getD i {}).flags.running = true ∨
        ((m.top.put i w.ls).links.getD i {}).flags.failed = true
      rw [hhere]
      exact hpass.settled hneeds
  · rw [Bool.not_eq_true] at hmarked
    rw [if_pos (by rw [hmarked]; decide)]
    refine ⟨h, rfl, fun hneeds => ?_, fun _ _ => rfl⟩
    rcases h.tidy i hneeds with hrun | hfail | hmark
    · exact .inl hrun
    · exact .inr hfail
    · exact nomatch hmarked.symm.trans hmark

/-- Nothing is left that waits for something else: what a link needs is being run, or has to be set
up again. -/
def Settled (ls : Link) : Prop :=
  ls.flags.needs = true → ls.flags.running = true ∨ ls.flags.failed = true

/-- **All links are checked.** -/
theorem checkLinks_sound (h : m.top.Sound) (forks : ℕ → Forks) (sends : ℤ → ℕ → Bool) :
    (m.checkLinks forks sends).top.Sound ∧
      ∀ i < (m.checkLinks forks sends).top.nlinks.toNat, Settled
        ((m.checkLinks forks sends).link i) := by
  -- The first `n` links have been checked, and there are as many as before.
  obtain ⟨hsound, hlinks, hall⟩ : (m.checkLinks forks sends).top.Sound ∧
      (m.checkLinks forks sends).top.nlinks = m.top.nlinks ∧
      ∀ i < m.top.nlinks.toNat, Settled ((m.checkLinks forks sends).link i) := by
    refine loop_invariant (P := fun n (m' : Mon) => m'.top.Sound ∧ m'.top.nlinks = m.top.nlinks ∧
      ∀ i < n, Settled (m'.link i)) ⟨h, rfl, nofun⟩ ?_
    rintro n hn m' ⟨hsound, hlinks, hall⟩
    obtain ⟨hsound', hlinks', hhere, hrest⟩ := checkSlot_sound hsound (hlinks ▸ hn) forks sends
    refine ⟨hsound', hlinks'.trans hlinks, fun i hi => ?_⟩
    rcases Nat.lt_succ_iff_lt_or_eq.mp hi with hlt | rfl
    · rw [hrest i (ne_of_lt hlt)]
      exact hall i hlt
    · exact hhere
  refine ⟨hsound, fun i hi => hall i ?_⟩
  rw [hlinks] at hi
  exact hi

/-! ### Runs -/

/-- **Nothing is forgotten** in a step: no link is dropped while a script of it runs, and no stop
script ends while something is pending that is neither marked to be looked at nor kept back after a
failure. -/
def Remembers (m : Mon) : Event → Prop
  | .command _ req _ => req.cmd = .drop → ∀ ifi i, req.ifi = some ifi →
    m.top.findLinkSlot ifi = some i → (m.link i).flags.running = false
  | .reap pid _ _ => ∀ i, m.findLinkPid pid = some i → (m.link i).flags.script = .stop →
      (m.link i).flags.needs = true → (m.link i).flags.failed = true ∨
        (m.link i).flags.marked = true
  | _ => True

/-- What is known to run is what runs, and there is one script for a link at most. -/
def Owns (m : Mon) : Prop :=
  ∀ i < m.top.nlinks.toNat, ((m.link i).flags.running = true ↔
    (i, (m.link i).pid) ∈ m.top.children) ∧
    (m.top.children.filter (·.1 = i)).length ≤ 1

lemma owns_of_sound (h : m.top.Sound) : m.Owns := by
  refine fun i _ => ⟨⟨fun hrun => (mem_children_iff h i _).mpr ⟨hrun, rfl⟩,
    fun hmem => ((mem_children_iff h i _).mp hmem).1⟩, ?_⟩
  rw [← length_map (f := snd), h.own i]
  split_ifs
  · exact le_rfl
  · exact Nat.zero_le 1

lemma dispatch_sound (h : m.top.Sound) {req : Req} (hok : m.Remembers (.command j req true)) :
    (m.dispatch j req).2.top.Sound := by
  unfold dispatch
  rcases hifi : req.ifi with _ | ifi
  · split_ifs <;> exact h
  rcases hfind : m.top.findLinkSlot ifi with _ | i
  · simp only [hfind]
    split_ifs <;> exact h
  · simp only [hfind]
    split_ifs
    · exact h
    · exact h
    · exact call_sound h (findLinkSlot_lt hfind) fun hcmd => hok hcmd ifi i hifi hfind

/-- **A step** in which nothing is forgotten keeps the table right. -/
theorem after_sound (h : m.top.Sound) (hnodup : (m.top.children.map snd).Nodup) {e : Event}
    {m' : Mon}
    (hok : m.Remembers e) (hafter : m.after e = some m') : m'.top.Sound := by
  cases e with
  | netlink msg =>
    obtain ⟨top, htop, rfl⟩ := map_eq_some_iff.mp hafter
    rcases hd : m.top.dispatch msg with _ | top'
    · rw [hd] at htop
      cases htop
    · rw [hd] at htop
      cases htop
      exact h.dispatch hd
  | accept fd =>
    obtain ⟨-, hm⟩ := ite_none_right_eq_some.mp hafter
    cases hm
    rw [acceptCtrl_top]
    exact h
  | command j req replied =>
    obtain ⟨-, hm⟩ := ite_none_right_eq_some.mp hafter
    cases hm
    have hd := dispatch_sound (j := j) h hok
    unfold handleConn
    cases replied with
    | true => exact hd
    | false =>
      show ((m.dispatch j req).2.closeConn j).top.Sound
      rw [closeConn_top]
      exact hd
  | hangup j =>
    obtain ⟨-, hm⟩ := ite_none_right_eq_some.mp hafter
    cases hm
    rw [closeConn_top]
    exact h
  | reap pid status sends =>
    obtain ⟨hpid, hm⟩ := ite_none_right_eq_some.mp hafter
    cases hm
    exact gotSigchld_sound h hnodup hpid status sends hok
  | checkLinks forks sends =>
    cases hafter
    exact (checkLinks_sound h forks sends).1

lemma sound_init : Mon.init.top.Sound ∧ (Mon.init.top.children.map snd).Nodup :=
  ⟨Top.sound_init, nodup_nil⟩

/-- **No script and no need is forgotten** in a run in which no link is dropped while a script of it
runs, and no stop script ends while something else is pending: the scripts that run are those that
are known to, and whenever the links have been checked, what they need is being run, or has to be
set up again. -/
theorem nothing_forgotten (h : Reach (· = Mon.init) Mon.step Mon.Remembers m) :
    m.Owns ∧ ∀ forks sends m', m.step (.checkLinks forks sends) = some m' →
      m'.Owns ∧ ∀ i < m'.top.nlinks.toNat, Settled (m'.link i) := by
  have hinv : m.top.Sound ∧ (m.top.children.map snd).Nodup := by
    refine h.invariant (fun s hs => hs ▸ sound_init) ?_
    rintro s e s' ⟨hsound, hnodup⟩ hok hs
    obtain ⟨hafter, hnodup'⟩ := filter_eq_some_iff.mp hs
    exact ⟨after_sound hsound hnodup hok hafter, of_decide_eq_true hnodup'⟩
  refine ⟨owns_of_sound hinv.1, fun forks sends m' hstep => ?_⟩
  obtain ⟨hafter, -⟩ := filter_eq_some_iff.mp hstep
  cases hafter
  obtain ⟨hsound, hall⟩ := checkLinks_sound hinv.1 forks sends
  exact ⟨owns_of_sound hsound, hall⟩

/-- `eth0` comes up, and its `identify` script runs. -/
def identified : List Event := [.netlink (.newLink { eth0 with spawn := some 100 })]

/-- Scripts that are there for everything, and that get the ids from one on. -/
def scripts (pid : ℤ) (_ : ℕ) : Forks := ⟨pid, pid, pid, pid, pid, pid⟩

/-- All that is sent is received. -/
def sent (_ : ℤ) (_ : ℕ) : Bool := true

/-- What a list of events makes of the process. -/
def run (es : List Event) : Option Mon := es.foldlM step Mon.init

instance (m : Mon) : ∀ e, Decidable (m.Remembers e)
  | .command _ req _ => decidable_of_iff
      (req.cmd = .drop → ∀ ifi ∈ req.ifi, ∀ i ∈ m.top.findLinkSlot ifi,
        (m.link i).flags.running = false) ⟨fun h hcmd ifi i hifi hi => h hcmd ifi hifi i hi,
      fun h hcmd ifi hifi i hi => h hcmd ifi i hifi hi⟩
  | .reap pid _ _ => decidable_of_iff
      (∀ i ∈ m.findLinkPid pid, (m.link i).flags.script = .stop → (m.link i).flags.needs = true →
        (m.link i).flags.failed = true ∨ (m.link i).flags.marked = true) Iff.rfl
  | .netlink _ => inferInstanceAs (Decidable True)
  | .accept _ => inferInstanceAs (Decidable True)
  | .hangup _ => inferInstanceAs (Decidable True)
  | .checkLinks _ _ => inferInstanceAs (Decidable True)

/-- `eth0` is given a mode and then stopped, and all scripts that this takes come to their end. -/
def managed : List Event :=
  identified ++ [.accept 5, .command 0 ⟨.idmode, some 2, some [97]⟩ true, .reap 100 0 sent,
    .checkLinks (scripts 101) sent, .reap 101 0 sent, .checkLinks (scripts 102) sent,
    .command 0 ⟨.stop, some 2, none⟩ true, .checkLinks (scripts 103) sent, .reap 103 0 sent]

theorem nothing_forgotten_eth0 : ∃ m, run managed = some m ∧ m.Owns ∧
    ∀ forks sends m', m.step (.checkLinks forks sends) = some m' →
      m'.Owns ∧ ∀ i < m'.top.nlinks.toNat, Settled (m'.link i) := by
  have hrun : managed.foldlM (fun m e => if m.Remembers e then m.step e else none) Mon.init =
    some _ := rfl
  exact ⟨_, rfl, nothing_forgotten (Reach.foldlM (.start rfl) hrun)⟩

/-- **A script is forgotten**: the link is dropped while its script runs. **A need is forgotten**:
the stop script, asked for twice, has been run once. -/
theorem forgotten :
    (∃ m, run (identified ++ [.accept 5, .command 0 ⟨.drop, some 2, none⟩ true,
        .checkLinks (scripts 101) sent]) = some m ∧ ¬m.Owns) ∧
    ∃ m, run (identified ++ [.accept 5, .command 0 ⟨.idmode, some 2, some [97]⟩ true,
      .reap 100 0 sent,
        .checkLinks (scripts 101) sent, .command 0 ⟨.stop, some 2, none⟩ true, .reap 101 0 sent,
        .checkLinks (scripts 102) sent, .command 0 ⟨.stop, some 2, none⟩ true, .checkLinks
          (scripts 103) sent,
        .reap 102 0 sent, .checkLinks (scripts 103) sent]) = some m ∧ ¬Settled (m.link 0) := by
  refine ⟨⟨_, rfl, ?_⟩, ⟨_, rfl, ?_⟩⟩
  · exact fun h => absurd ((h 0 (by decide)).1.mp (by decide)) (by decide)
  · exact fun h => absurd (h (by decide)) (by decide)

end Mon

end Minibase.Ifmon
