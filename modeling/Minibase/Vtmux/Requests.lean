import Minibase.Vtmux.Sessions

/-!
# Requests for devices

A session asks for a device, which is opened, disabled if the session is not on the terminal that is
shown, and sent to it. With what is known of all the other events, **devices are for the
foreground** in every run (`Vtmux.Mux.for_foreground`) in which no device is opened at descriptor
zero for the terminal that is shown, and in which the numbers of the devices fit an `int`. -/

namespace Minibase.Vtmux

namespace Mux

open List Option

variable {m : Mux} {i : ℕ}

lemma checkManagedDev_major {stat : Except Errno Stat} {dev : ℕ}
    (h : checkManagedDev stat = .ok dev) : major dev = DRI_MAJOR ∨ major dev = INPUT_MAJOR := by
  unfold checkManagedDev at h
  rcases stat with e | st
  · cases h
  · dsimp only at h
    split_ifs at h with h1 h2
    cases h
    by_contra hno
    rw [not_or] at hno
    exact h2 hno

/-- **A descriptor is sent** to a session: that of the terminal the device is for. -/
theorem replySendFd_spec (h : m.Sound) {fd : ℤ} {s k : ℕ} {vt : Term}
    (huse : m.use fd = some (.dev s k))
    (hvt : m.terms[i]? = some vt) (hpid : 0 < vt.pid)
    (hslots : ∀ (s : ℕ) (md : Mdev), m.mdevs[s]? = some md → 0 < md.fd → md.dev ≠ 0 → md.file = k →
      md.tty = vt.tty)
    (hlit : ∀ f, m.files[k]? = some f → f.enabled = true →
      ∃ (s : ℕ) (md : Mdev), m.mdevs[s]? = some md ∧ 0 < md.fd ∧ md.dev ≠ 0 ∧ md.file = k)
        (sent : Bool) :
    (m.replySendFd i fd sent).Sound := by
  unfold replySendFd
  cases sent with
  | false => exact h
  | true =>
    simp only [huse]
    have hget (j : ℕ) : (m.files.modify k fun f =>
      { f with holders := (m.term i).session :: f.holders })[j]? =
        (m.files[j]?).map fun f => if k = j then
          { f with holders := (m.term i).session :: f.holders } else f := by
      rw [getElem?_modify]
      rfl
    have hback {j : ℕ} {f' : File} (hj : (m.files.modify k fun f =>
        { f with holders := (m.term i).session :: f.holders })[j]? = some f') :
        ∃ f, m.files[j]? = some f ∧ f'.enabled = f.enabled ∧ (k ≠ j → f' = f) := by
      rw [hget] at hj
      obtain ⟨f, hf, hf'⟩ := map_eq_some_iff.mp hj
      refine ⟨f, hf, ?_⟩
      split_ifs at hf' with hkj
      · exact ⟨hf' ▸ rfl, fun hne => absurd hkj hne⟩
      · exact ⟨hf' ▸ rfl, fun _ => hf'.symm⟩
    refine ⟨h.kept.setFiles (fun j f hj => ?_) (fun j f' hj hen hne => ?_),
      fun s md f' hs hfd hdev hf hen => ?_⟩
    · rw [hget, hj]
      refine ⟨_, rfl, ?_, fun x hx => ?_⟩
      · dsimp only
        split_ifs <;> rfl
      · split_ifs at hx with hkj
        · rcases mem_cons.mp hx with rfl | hx
          · refine .inr fun s md hs hfd hdev hfile => ⟨vt, mem_of_getElem? hvt, ?_, ?_, hpid⟩
            · rw [term_eq hvt]
            · exact (hslots s md hs hfd hdev (hfile.trans hkj.symm)).symm
          · exact .inl hx
        · exact .inl hx
    · obtain ⟨f, hf, hen', hsame⟩ := hback hj
      by_cases hkj : k = j
      · subst hkj
        exact hlit f hf (hen' ▸ hen)
      · obtain rfl := hsame hkj
        exact h.kept.held j f' hf hen hne
    · obtain ⟨f, hf', hen', -⟩ := hback hf
      exact h.shaded s md f hs hfd hdev hf' (hen' ▸ hen)

/-- What an open device comes to: a descriptor of a device that may be sent to the session of a
terminal. -/
structure Opened (m' : Mux) (i : ℕ) (fd : ℤ) : Prop where
  sound : m'.Sound
  ready : 0 ≤ fd → ∃ (s k : ℕ) (vt : Term), m'.use fd = some (.dev s k) ∧ m'.terms[i]? = some vt ∧
    0 < vt.pid ∧
    (∀ (s : ℕ) (md : Mdev), m'.mdevs[s]? = some md → 0 < md.fd → md.dev ≠ 0 → md.file = k →
      md.tty = vt.tty) ∧
    ∀ f, m'.files[k]? = some f → f.enabled = true →
      ∃ (s : ℕ) (md : Mdev), m'.mdevs[s]? = some md ∧ 0 < md.fd ∧ md.dev ≠ 0 ∧ md.file = k

/-- A terminal may become a graphic one. -/
theorem Opened.graph {m' : Mux} {fd : ℤ} (h : Opened m' i fd) (p : Prop) [Decidable p]
    (howned : (if p then m'.setTerm i { m'.term i with graph := true } else m').Owned False False) :
    Opened (if p then m'.setTerm i { m'.term i with graph := true } else m') i fd := by
  split_ifs at howned ⊢
  swap
  · exact h
  have hset : (m'.setTerm i { m'.term i with graph := true }).Sound :=
    h.sound.runs howned rfl rfl rfl fun _ _ _ _ _ x hx => Runs.setTerm hx fun _ hpid =>
      ⟨rfl, rfl, hpid⟩
  refine ⟨hset, fun hfd => ?_⟩
  obtain ⟨s, k, vt, huse, hvt, hpid, hslots, hlit⟩ := h.ready hfd
  refine ⟨s, k, { m'.term i with graph := true }, huse, ?_, ?_, ?_, hlit⟩
  · show (m'.terms.set i _)[i]? = _
    rw [List.getElem?_set, if_pos rfl, if_pos (List.getElem?_eq_some_iff.mp hvt).1]
  · rw [term_eq hvt]
    exact hpid
  · rw [term_eq hvt]
    exact hslots

section Added

variable {s k dev : ℕ} {dfd : ℤ} {md0 : Mdev} {vt : Term}

/-- The device that has just been opened is not in the table yet. -/
structure New (m : Mux) (s k dev : ℕ) (dfd : ℤ) : Prop where
  sound : m.Sound
  use : m.use dfd = some (.dev s k)
  nonneg : 0 ≤ dfd
  file : m.files[k]? = some ⟨dev, [], true⟩
  slot : ∃ md, m.mdevs[s]? = some md ∧ md.fd = 0
  fresh : ∀ (s : ℕ) (md : Mdev), m.mdevs[s]? = some md → 0 < md.fd → md.file ≠ k
  proper : Proper dev

/-- Its number is written in the slot. -/
theorem New.setDev (h : New m s k dev dfd) : New
    (m.setMdev s { m.mdev s with dev := dev }) s k dev dfd := by
  obtain ⟨md, hmd, hfd⟩ := h.slot
  have hslot : m.mdev s = md := mdev_eq hmd
  have hnone : ¬0 < ({ m.mdev s with dev := dev } : Mdev).fd := by
    rw [hslot]
    show ¬0 < md.fd
    omega
  have hold {s' : ℕ} {md' : Mdev}
      (hs : (m.mdevs.set s { m.mdev s with dev := dev })[s']? = some md') (hpos : 0 < md'.fd) :
      m.mdevs[s']? = some md' := by
    rcases getElem?_set hs with ⟨-, rfl⟩ | ⟨-, hs⟩
    · exact absurd hpos hnone
    · exact hs
  refine ⟨h.sound.frame (h.sound.kept.setMdev (fun _ => h.proper) (fun hpos => absurd hpos hnone)
    (fun hpos => absurd hpos hnone) (fun hpos => absurd hpos hnone) fun md' f hs hpos => ?_) rfl
      (fun s' md' hs hpos _ => hold hs hpos) rfl, h.use, h.nonneg, h.file, ?_,
    fun s' md' hs hpos => h.fresh s' md' (hold hs hpos) hpos, h.proper⟩
  · obtain rfl : md = md' := Option.mem_unique hmd hs
    omega
  · refine ⟨{ m.mdev s with dev := dev }, ?_, by rw [hslot]; exact hfd⟩
    show (m.mdevs.set s _)[s]? = _
    rw [List.getElem?_set, if_pos rfl, if_pos (List.getElem?_eq_some_iff.mp hmd).1]

lemma checkForDuplicate_spec {tty : ℤ} (hdup : 0 < m.checkForDuplicate s dev tty) :
    ∃ x, m.checkForDuplicate s dev tty = (m.mdev x).fd ∧ m.mdevs[x]? = some (m.mdev x) ∧
      x ≠ s ∧ (m.mdev x).tty = tty ∧ (m.mdev x).dev = dev := by
  unfold checkForDuplicate at hdup ⊢
  split at hdup
  · rename_i x hfind
    have hx := of_decide_eq_true (find?_eq_some_iff_append.mp hfind).1
    have hlt := mem_range.mp (mem_of_find?_eq_some hfind)
    refine ⟨x, rfl, ?_, hx⟩
    rw [mdev, getD_eq_getElem?_getD, getElem?_eq_getElem hlt, getD_some]
  · exact absurd hdup (by decide)

/-- A device that is open already is used instead. -/
theorem New.duplicate (h : New m s k dev dfd) (hvt : m.terms[i]? = some vt) (hpid : 0 < vt.pid)
    (hdup : 0 < m.checkForDuplicate s dev vt.tty)
    (howned : ((m.sysClose dfd).freeMdevSlot s).Owned False False) :
    Opened ((m.sysClose dfd).freeMdevSlot s) i (m.checkForDuplicate s dev vt.tty) := by
  have hclosed : ((m.sysClose dfd).freeMdevSlot s).Sound := by
    obtain ⟨fds, heq⟩ := sysClose_eq m dfd
    obtain ⟨md, hmd, hfd⟩ := h.slot
    rw [heq] at howned ⊢
    refine h.sound.freeMdevSlot (fun hin => ?_) howned
    rw [mdev_eq hmd] at hin
    omega
  obtain ⟨hback, hforth⟩ := freeSlot_spec Mdev.nonzero {} m.mdevs s
  rw [sysClose_freeMdevSlot] at hclosed ⊢
  refine ⟨hclosed, fun _ => ?_⟩
  obtain ⟨x, heq, hmx, hx⟩ := checkForDuplicate_spec hdup
  rw [heq] at hdup ⊢
  have hdev : (m.mdev x).dev ≠ 0 := by
    rw [hx.2.2]
    exact h.proper.ne_zero
  have hstay : (m.freeMdevSlot s).mdevs[x]? = some (m.mdev x) :=
    hforth x _ hmx (by simp [Mdev.nonzero, hdev]) hx.1
  have huse := h.sound.kept.own _ (.dev x _) hdup ⟨_, hmx, rfl, rfl⟩
  have hne : (m.mdev x).fd ≠ dfd := by
    rintro hsame
    rw [hsame, h.use] at huse
    injection Option.some.inj huse with hsx
    exact hx.1 hsx.symm
  obtain ⟨hframe1, hframe2, hframe3, -⟩ := sysClose_frame (m.freeMdevSlot s) dfd
  refine ⟨x, (m.mdev x).file, vt, (use_sysClose _ _ _ hne).trans huse, hframe3 ▸ hvt, hpid,
    fun s' md' hs hpos hdev' hsame => ?_,
      fun f hf hen => ⟨x, m.mdev x, hframe1 ▸ hstay, hdup, hdev, rfl⟩⟩
  rw [hframe1] at hs
  rcases hback s' md' hs with rfl | ⟨-, hs⟩
  · exact absurd rfl hdev'
  · obtain rfl := h.sound.kept.once s' x md' _ hs hmx hpos hdup hsame
    obtain rfl : m.mdev s' = md' := Option.mem_unique hmx hs
    exact hx.2.1

/-- **A device gets into the table**, and is disabled unless its terminal is shown. -/
theorem New.place (h : New m s k dev dfd) (hdev : (m.mdev s).dev = dev)
    (hvt : m.terms[i]? = some vt)
    (hpid : 0 < vt.pid) (hfg : vt.tty = m.activetty → dfd ≠ 0) {m1 : Mux}
    (hm1 : m1 = m.setMdev s { m.mdev s with fd := dfd, tty := vt.tty, file := k }) :
    Opened (if vt.tty ≠ m1.activetty then m1.disable s false else m1) i dfd := by
  obtain ⟨md, hmd, hfd⟩ := h.slot
  have hslot : m.mdev s = md := mdev_eq hmd
  have hlen : s < m.mdevs.length := (List.getElem?_eq_some_iff.mp hmd).1
  have hkept : m1.Kept := by
    subst hm1
    refine h.sound.kept.setMdev (fun _ => by rw [hdev]; exact h.proper) (fun _ => h.use)
      (fun _ => ⟨_, h.file, fun _ => ⟨hdev.symm, nofun⟩⟩)
      (fun _ s' md' hs _ hpos => h.fresh s' md' hs hpos) fun md' f hs hpos => ?_
    obtain rfl : md = md' := Option.mem_unique hmd hs
    omega
  have hin : m1.mdevs[s]? = some { m.mdev s with fd := dfd, tty := vt.tty, file := k } := by
    subst hm1
    show (m.mdevs.set s _)[s]? = _
    rw [List.getElem?_set, if_pos rfl, if_pos hlen]
  have hnew := mdev_eq hin
  -- whatever has the same number as the device that was opened is that device
  have honly {s' : ℕ} {md' : Mdev} (hs : m1.mdevs[s']? = some md') (hpos : 0 < md'.fd)
    (hsame : md'.file = k) : md'.tty = vt.tty := by
    subst hm1
    rcases getElem?_set hs with ⟨-, rfl⟩ | ⟨-, hs⟩
    · rfl
    · exact absurd hsame (h.fresh s' md' hs hpos)
  have hothers (s' : ℕ) (hne : s' ≠ s) : m1.Shaded m.activetty s' := by
    intro md' f hs hpos hdev' hf hen
    subst hm1
    rcases getElem?_set hs with ⟨rfl, -⟩ | ⟨-, hs⟩
    · exact absurd rfl hne
    · exact h.sound.shaded s' md' f hs hpos hdev' hf hen
  have hact : m1.activetty = m.activetty := by rw [hm1]; rfl
  have hfiles : m1.files = m.files := by rw [hm1]; rfl
  have hterms : m1.terms = m.terms := by rw [hm1]; rfl
  have huse : m1.use dfd = some (.dev s k) := by rw [hm1]; exact h.use
  split_ifs with hback
  · obtain ⟨hkept', hdims, hdark, -, hquiet⟩ :=
      disable_spec hkept (List.getElem?_eq_some_iff.mp hin).1 false
    rw [hnew] at hquiet
    have hoff := hquiet huse (by rw [hdev]; exact h.proper) fun f hf => by
      rw [hfiles, h.file] at hf
      cases hf
      exact hdev.symm
    refine ⟨⟨hkept', fun s' => ?_⟩, fun _ =>
      ⟨s, k, vt, ?_, ?_, hpid, fun s' md' hs hpos hdev' hsame => ?_,
      fun f hf hen => (nomatch (hoff f hf).symm.trans hen)⟩⟩
    · rw [hdims.activetty, hact]
      by_cases hss : s' = s
      · rw [hss]
        exact hdark m.activetty
      · exact hdims.shaded (hothers s' hss)
    · rw [Mux.use, hdims.fds]
      exact huse
    · rw [hdims.terms, hterms]
      exact hvt
    · exact honly (hdims.mdevs s' md' hs hdev') hpos hsame
  · rw [hact, ne_eq, not_not] at hback
    refine ⟨⟨hkept, fun s' => ?_⟩, fun _ => ⟨s, k, vt, huse, hterms ▸ hvt, hpid,
      fun s' md' hs hpos _ hsame => honly hs hpos hsame, fun f _ _ => ⟨s, _, hin, ?_, ?_, rfl⟩⟩⟩
    · rw [hact]
      by_cases hss : s' = s
      · intro md' f hs _ _ _ _
        rw [hss, hin] at hs
        cases hs
        exact hback
      · exact hothers s' hss
    · have hne := hfg hback
      have hnonneg := h.nonneg
      show 0 < dfd
      omega
    · rw [hdev]
      exact h.proper.ne_zero

/-- **A device that has been opened**, whatever becomes of it. -/
theorem New.added (h : New m s k dev dfd) (hvt : m.terms[i]? = some vt) (hpid : 0 < vt.pid)
    (hfg : vt.tty = m.activetty → dfd ≠ 0)
    (howned : (m.addManagedDev i s k dev dfd).2.Owned False False) :
    Opened (m.addManagedDev i s k dev dfd).2 i (m.addManagedDev i s k dev dfd).1 := by
  have hset := h.setDev
  have hdev : ((m.setMdev s { m.mdev s with dev := dev }).mdev s).dev = dev := by
    obtain ⟨md, hmd, -⟩ := h.slot
    have hin : (m.setMdev s { m.mdev s with dev := dev }).mdevs[s]? = some
      { m.mdev s with dev := dev } := by
      show (m.mdevs.set s _)[s]? = _
      rw [List.getElem?_set, if_pos rfl, if_pos (List.getElem?_eq_some_iff.mp hmd).1]
    rw [mdev_eq hin]
  revert howned
  unfold Mux.addManagedDev
  rw [term_eq hvt]
  by_cases hdup : 0 < (m.setMdev s { m.mdev s with dev := dev }).checkForDuplicate s dev vt.tty
  · rw [if_pos hdup]
    exact hset.duplicate hvt hpid hdup
  · rw [if_neg hdup]
    exact (hset.place hdev hvt hpid hfg rfl).graph _

end Added

/-- **Opening a device.** -/
theorem openManagedDev_spec (h : m.Orderly) (hpid : 0 < (m.term i).pid) (o : Opening)
    (hok : o.error = none → ∀ dev, checkManagedDev o.stat = .ok dev → dev % 2 ^ 32 < 2 ^ 31 ∧
      ((m.term i).tty = m.activetty → m.use 0 ≠ none)) :
    Opened (m.openManagedDev i o).2 i (m.openManagedDev i o).1 := by
  have hvt : m.terms[i]? = some (m.term i) := by
    rw [term, getD_eq_getElem?_getD] at hpid ⊢
    rcases hget : m.terms[i]? with _ | vt
    · rw [hget] at hpid
      exact absurd hpid (by decide)
    · rfl
  have hfail {m' : Mux} {e : Errno} (h' : m'.Sound) : Opened m' i e.1 :=
    ⟨h', fun hpos => absurd e.2 (by omega)⟩
  have howned := h.2.openManagedDev i o
  revert howned
  unfold openManagedDev
  rcases hgrab : grabSlot Mdev.nonzero NMDEVS {} m.mdevs with _ | ⟨s, mdevs⟩
  · exact fun _ => hfail (e := ⟨-24, by decide⟩) h.1
  obtain ⟨⟨md0, hmd0, hfree⟩, hforth, hback⟩ := grabSlot_spec hgrab (by decide)
  have howned1 := h.2.grabMdev hgrab
  have h1 : Sound { m with mdevs := mdevs } := by
    refine h.1.follow howned1 rfl rfl (fun s' md hs hused => hback s' md hs ?_)
      (fun s' md hs _ _ => hforth s' md hs)
      fun _ _ _ _ _ _ hx => hx
    rcases hused with hfd | hdev
    · have hne : md.fd ≠ 0 := by omega
      simp [Mdev.nonzero, hne]
    · simp [Mdev.nonzero, hdev]
  generalize hm1 : ({ m with mdevs := mdevs } : Mux) = m1 at h1 howned1
  have hframe : m1.mdevs = mdevs ∧ m1.files = m.files ∧ m1.terms = m.terms ∧
    m1.activetty = m.activetty ∧ m1.fds = m.fds := by
    subst hm1
    exact ⟨rfl, rfl, rfl, rfl, rfl⟩
  dsimp only
  rw [hm1]
  rcases herror : o.error with _ | e
  swap
  · exact fun _ => hfail h1
  rcases hcheck : checkManagedDev o.stat with e | dev
  · intro howned
    obtain ⟨fds, heq⟩ := sysClose_eq (m1.openFd .other).2 (m1.openFd .other).1
    rw [heq] at howned ⊢
    exact hfail (h1.runs howned rfl rfl rfl fun _ _ _ _ _ _ hx => hx)
  intro howned
  obtain ⟨hsign, hfg⟩ := hok herror dev hcheck
  have hnew : New { (m1.openFd (.dev s m1.files.length)).2 with
    files := m1.files ++ [⟨dev, [], true⟩] } s
      m1.files.length dev (m1.openFd (.dev s m1.files.length)).1 := by
    have h2 : (m1.openFd (.dev s m1.files.length)).2.Sound :=
      h1.runs (howned1.openFd (by rintro _ ⟨⟩)) rfl rfl rfl fun _ _ _ _ _ _ hx => hx
    have hlt {s' : ℕ} {md : Mdev} (hs : m1.mdevs[s']? = some md) (hpos : 0 < md.fd) :
        md.file < m1.files.length := by
      obtain ⟨f, hf, -⟩ := h1.kept.file s' md hs hpos
      exact (List.getElem?_eq_some_iff.mp hf).1
    refine ⟨⟨h2.kept.setFiles (fun j f hj => ⟨f, ?_, rfl, fun x hx => .inl hx⟩) fun j f hj hen
      hne => ?_,
      fun s' md f hs hpos hdev hf hen => ?_⟩, use_openFd m1 _, openFd_nonneg m1 _, by simp,
      ⟨md0, hframe.1 ▸ hmd0, (free_mdev hfree).1⟩, fun s' md hs hpos => (hlt hs hpos).ne,
      proper_of_lt (checkManagedDev_major hcheck) hsign⟩
    · change m1.files[j]? = some f at hj
      rw [List.getElem?_append_left (List.getElem?_eq_some_iff.mp hj).1]
      exact hj
    · rcases Nat.lt_or_ge j m1.files.length with hj' | hj'
      · rw [getElem?_append_left hj'] at hj
        exact h2.kept.held j f hj hen hne
      · rw [getElem?_append_right hj'] at hj
        rw [mem_singleton.mp (mem_of_getElem? hj)] at hne
        exact absurd rfl hne
    · have hf' : m1.files[md.file]? = some f := by
        rw [← hf]
        exact (getElem?_append_left (hlt hs hpos)).symm
      exact h2.shaded s' md f hs hpos hdev hf' hen
  rw [← hframe.2.1] at howned ⊢
  refine hnew.added (hframe.2.2.1 ▸ hvt) hpid (fun htty hlow => ?_) howned
  change (m.term i).tty = m1.activetty at htty
  rw [hframe.2.2.2.1] at htty
  have hbefore := use_openFd_before m1 (.dev s m1.files.length)
  rw [hlow, Mux.use, hframe.2.2.2.2] at hbefore
  exact hfg htty hbefore

/-! ### Runs -/

/-- **No device slips through** when it is asked for: its number fits an `int`, and if it is for the
terminal that is shown, it does not get descriptor zero. -/
def Caught (m : Mux) : Event → Prop
  | .request i o => o.error = none → ∀ dev, checkManagedDev o.stat = .ok dev →
      dev % 2 ^ 32 < 2 ^ 31 ∧ ((m.term i).tty = m.activetty → m.use 0 ≠ none)
  | _ => True

/-- **A step** in which no device slips through. -/
theorem Orderly.step (h : m.Orderly) {e : Event} {m' : Mux} (hok : m.Caught e)
    (hstep : m.step e = some m') : m'.Orderly := by
  have howned := h.2.step (e := e) False.elim False.elim hstep
  refine ⟨?_, howned⟩
  cases e with
  | command cmd sys =>
    cases hstep
    exact (orderly_lasting.dispatchCmd h cmd sys).1
  | request i o =>
    obtain ⟨hlive, hm⟩ := ite_none_right_eq_some.mp hstep
    cases hm
    have hopened := openManagedDev_spec h hlive.1 o hok
    unfold reqOpen
    dsimp only
    split_ifs with hfd
    · exact hopened.sound
    · obtain ⟨s, k, vt, huse, hvt, hpid, hslots, hlit⟩ := hopened.ready (not_lt.mp hfd)
      exact replySendFd_spec hopened.sound huse hvt hpid hslots hlit o.sent
  | hangup i =>
    obtain ⟨hlive, hm⟩ := ite_none_right_eq_some.mp hstep
    cases hm
    exact (h.closePipe hlive.2).1
  | enter i sys =>
    obtain ⟨hdead, hm⟩ := ite_none_right_eq_some.mp hstep
    cases hm
    exact (orderly_lasting.finalEnter h hdead.1 sys).1
  | reap shutdown deaths sys =>
    cases hstep
    exact (orderly_lasting.waitPids h shutdown deaths sys).1
  | accept =>
    obtain ⟨-, hm⟩ := ite_none_right_eq_some.mp hstep
    cases hm
    obtain ⟨fds, conns, heq⟩ := acceptCtrl_eq m
    rw [heq] at howned ⊢
    exact h.1.runs howned rfl rfl rfl fun _ _ _ _ _ _ hx => hx
  | drop j =>
    obtain ⟨-, hm⟩ := ite_none_right_eq_some.mp hstep
    cases hm
    obtain ⟨hmdevs, hfiles, hterms, hact⟩ := sysClose_frame m (m.conns.getD j {}).fd
    exact h.1.runs howned hact hfiles hmdevs fun _ _ _ _ _ _ hx => Runs.congr hx hterms
  | clear j =>
    obtain ⟨-, hm⟩ := ite_none_right_eq_some.mp hstep
    cases hm
    obtain ⟨hmdevs, hfiles, hterms, hact⟩ := sysClose_frame m (m.conns.getD j {}).fd
    exact h.1.runs howned hact hfiles hmdevs fun _ _ _ _ _ _ hx => Runs.congr hx hterms
  | lost =>
    obtain ⟨-, hm⟩ := ite_none_right_eq_some.mp hstep
    cases hm
    obtain ⟨hmdevs, hfiles, hterms, hact⟩ := sysClose_frame m m.ctrlfd
    exact h.1.runs howned hact hfiles hmdevs fun _ _ _ _ _ _ hx => Runs.congr hx hterms
  | flush =>
    obtain ⟨-, hm⟩ := ite_none_right_eq_some.mp hstep
    cases hm
    exact (flushMdevs_spec h.1 h.2).runs howned rfl rfl rfl fun _ _ _ _ _ _ hx => hx

lemma orderly_start (h : m.Starts) : m.Orderly := by
  have howned : m.Owned False False := owned_start h
  obtain ⟨activetty, primarytty, pinmask, rfl⟩ := h
  exact ⟨⟨⟨fun fd u => howned.own, nofun, nofun, nofun, nofun⟩, nofun⟩, howned⟩

/-- **Devices are for the foreground** in every run in which no device slips through: every device
that is enabled and was sent to a session was sent to the one on the terminal that is shown. -/
theorem for_foreground (h : Reach Mux.Starts Mux.step Mux.Caught m) : m.Foreground :=
  (h.invariant (fun _ => orderly_start) fun _ _ _ hs hok hstep => hs.step hok hstep).1.foreground

/-- A session is started, asks for the keyboard, and has it. -/
theorem for_foreground_event0 : ∃ m, run [.command (.switch 2) (fine 100 (by decide)),
    .request 0 (device event0)] =
    some m ∧ m.files = [⟨event0, [0], true⟩] ∧ m.activetty = 2 ∧ m.Foreground := by
  have hstart : pinned23.Starts := ⟨1, 1, _, rfl⟩
  have hspawn : pinned23.step (.command (.switch 2) (fine 100 (by decide))) = some _ := rfl
  have hswitch : pinned23.Caught (.command (.switch 2) (fine 100 (by decide))) := trivial
  have hopen : Mux.step (pinned23.dispatchCmd (.switch 2) (fine 100 (by decide)))
    (.request 0 (device event0)) =
    some _ := rfl
  have hcaught : Mux.Caught (pinned23.dispatchCmd (.switch 2) (fine 100 (by decide)))
      (.request 0 (device event0)) := by
    intro _ dev hdev
    obtain rfl : event0 = dev := Except.ok.inj hdev
    exact ⟨by decide, fun _ => by decide⟩
  exact ⟨_, rfl, rfl, rfl, for_foreground
    (((Reach.start hstart).next hswitch hspawn).next hcaught hopen)⟩

instance (m : Mux) : Decidable m.Foreground :=
  inferInstanceAs (Decidable (∀ f ∈ m.files, f.enabled = true → ∀ h ∈ f.holders,
    ∃ vt ∈ m.terms, vt.session = h ∧ vt.tty = m.activetty))

/-- Two sessions are started, the first of which asks for the keyboard, and for something that is
not there; the keyboard is closed, and descriptor zero as well. -/
def cleared : List Event :=
  [.command (.switch 2) (fine 100 pid_100), .request 0 (device event0), .request 0 missing,
    .command (.switch 3) (fine 101 pid_101), .flush]

/-- **A device slips through**: the second session gets the keyboard, at descriptor zero, and keeps
it when the first one is switched to; and so does a session the number of whose device is negative
as an `int`. -/
theorem slips_through :
    (∃ m, run (cleared ++ [.request 1 (device event0),
      .command (.switch 2) (fine 102 (by decide))]) = some m ∧
      ¬m.Foreground) ∧
    ∃ m, run [.command (.switch 2) (fine 100 (by decide)),
      .request 0 (device (DRI_MAJOR * 2 ^ 8 + 2 ^ 31)),
      .command (.switch 3) (fine 101 (by decide))] = some m ∧ ¬m.Foreground :=
  ⟨⟨_, rfl, by decide +kernel⟩, ⟨_, rfl, by decide +kernel⟩⟩

end Mux

end Minibase.Vtmux
