import Minibase.Vtmux.Owned

/-!
# Switching terminals

What is done to all the devices of a terminal when another one is shown: they are disabled before
the switch (`Vtmux.Mux.disengage_spec`), and those of the terminal that is shown then are enabled
(`Vtmux.Mux.engage_spec`), whichever it is. So whether a switch succeeds, fails or ends at another
terminal, it keeps the tables in order and the devices with the foreground
(`Vtmux.Mux.activate_spec`). -/

namespace Minibase.Vtmux

namespace Mux

variable {m : Mux} {s : ℕ} {m' : Mux}

/-- Nothing is enabled, and no device gets into the table. -/
theorem Sound.frame (h : m.Sound) (hkept : m'.Kept) (hact : m'.activetty = m.activetty)
    (hmdevs : ∀ (s : ℕ) (md : Mdev), m'.mdevs[s]? = some md → 0 < md.fd → md.dev ≠ 0 →
      m.mdevs[s]? = some md)
    (hfiles : m'.files = m.files) : m'.Sound := by
  refine ⟨hkept, fun s md f hs hfd hdev hf hen => ?_⟩
  rw [hact]
  exact h.shaded s md f (hmdevs s md hs hfd hdev) hfd hdev (hfiles ▸ hf) hen

lemma Sound.dims (h : m.Sound) (hkept : m'.Kept) (hdims : m.Dims m') : m'.Sound := by
  refine ⟨hkept, fun s => ?_⟩
  rw [hdims.activetty]
  exact hdims.shaded (h.shaded s)

/-! ### All the devices of a terminal -/

/-- Afterwards, no device in the table is for the terminal. -/
theorem disableAllDevsFor_spec (h : m.Kept) (tty : ℤ) :
    (m.disableAllDevsFor tty).Kept ∧ m.Dims (m.disableAllDevsFor tty) ∧
      ∀ (s : ℕ) (md : Mdev), (m.disableAllDevsFor tty).mdevs[s]? = some md → md.dev ≠ 0 →
        md.tty ≠ tty := by
  have hloop : (m.disableAllDevsFor tty).Kept ∧ m.Dims (m.disableAllDevsFor tty) ∧
    ∀ s < m.mdevs.length,
      ∀ md : Mdev, (m.disableAllDevsFor tty).mdevs[s]? = some md → md.dev ≠ 0 → md.tty ≠ tty := by
    refine loop_invariant (P := fun n (m' : Mux) => m'.Kept ∧ m.Dims m' ∧ ∀ s < n, ∀ md : Mdev,
      m'.mdevs[s]? = some md → md.dev ≠ 0 → md.tty ≠ tty) ⟨h, .refl m, nofun⟩ ?_
    rintro n hn m' ⟨hkept, hdims, hall⟩
    split_ifs with htty
    · obtain ⟨hkept', hdims', -, hdrop, -⟩ :=
        disable_spec hkept (by rw [hdims.length]; exact hn) true
      refine ⟨hkept', hdims.trans hdims', fun s hs md hmd hdev => ?_⟩
      rcases Nat.lt_succ_iff_lt_or_eq.mp hs with hlt | rfl
      · exact hall s hlt md (hdims'.mdevs s md hmd hdev) hdev
      · rw [← mdev_eq hmd] at hdev
        exact absurd (hdrop rfl) hdev
    · refine ⟨hkept, hdims, fun s hs md hmd hdev => ?_⟩
      rcases Nat.lt_succ_iff_lt_or_eq.mp hs with hlt | rfl
      · exact hall s hlt md hmd hdev
      · rwa [mdev_eq hmd] at htty
  refine ⟨hloop.1, hloop.2.1, fun s md hmd hdev => hloop.2.2 s ?_ md hmd hdev⟩
  rw [← hloop.2.1.length]
  exact (List.getElem?_eq_some_iff.mp hmd).1

/-- **Disengaging** disables all there is to disable. -/
theorem disengage_spec (h : m.Sound) :
    (m.disengage m.activetty).Kept ∧ m.Dims (m.disengage m.activetty) ∧
      ∀ s tty, (m.disengage m.activetty).Shaded tty s := by
  have hloop : (m.disengage m.activetty).Kept ∧ m.Dims (m.disengage m.activetty) ∧
      ∀ s < m.mdevs.length, ∀ tty, (m.disengage m.activetty).Shaded tty s := by
    refine loop_invariant (P := fun n (m' : Mux) => m'.Kept ∧ m.Dims m' ∧ ∀ s < n, ∀ tty,
      m'.Shaded tty s)
      ⟨h.kept, .refl m, nofun⟩ ?_
    rintro n hn m' ⟨hkept, hdims, hall⟩
    split_ifs with hcond
    · obtain ⟨hkept', hdims', hdark, -⟩ := disable_spec hkept (by rw [hdims.length]; exact hn) false
      refine ⟨hkept', hdims.trans hdims', fun s hs tty => ?_⟩
      rcases Nat.lt_succ_iff_lt_or_eq.mp hs with hlt | rfl
      · exact hdims'.shaded (hall s hlt tty)
      · exact hdark tty
    · refine ⟨hkept, hdims, fun s hs tty => ?_⟩
      rcases Nat.lt_succ_iff_lt_or_eq.mp hs with hlt | rfl
      · exact hall s hlt tty
      · -- a device that is enabled is for the terminal that is shown
        intro md f hmd hfd hdev hf hen
        rw [mdev_eq hmd] at hcond
        exact absurd ⟨hdims.shaded (h.shaded s) md f hmd hfd hdev hf hen, hfd⟩ hcond
  refine ⟨hloop.1, hloop.2.1, fun s tty md f hmd => hloop.2.2 s ?_ tty md f hmd⟩
  rw [← hloop.2.1.length]
  exact (List.getElem?_eq_some_iff.mp hmd).1

/-- **Engaging** enables devices of one terminal. -/
theorem engage_spec {tty : ℤ} (h : m.Kept) (hs : ∀ s, m.Shaded tty s) :
    (m.engage tty).Kept ∧ (∀ s, (m.engage tty).Shaded tty s) ∧ (m.engage tty).terms = m.terms ∧
      (m.engage tty).activetty = m.activetty := by
  have hloop : (m.engage tty).Kept ∧ (∀ s, (m.engage tty).Shaded tty s) ∧
    (m.engage tty).terms = m.terms ∧
      (m.engage tty).activetty = m.activetty ∧ (m.engage tty).mdevs = m.mdevs := by
    refine loop_invariant (P := fun _ (m' : Mux) => m'.Kept ∧ (∀ s, m'.Shaded tty s) ∧
      m'.terms = m.terms ∧
      m'.activetty = m.activetty ∧ m'.mdevs = m.mdevs) ⟨h, hs, rfl, rfl, rfl⟩ ?_
    rintro n hn m' ⟨hkept, hall, hterms, hact, hmdevs⟩
    split_ifs with hcond
    · obtain ⟨htty, hfd, hdri⟩ := hcond
      have hmd : m'.mdevs[n]? = some (m'.mdev n) := by
        rw [mdev, List.getD_eq_getElem?_getD, hmdevs, List.getElem?_eq_getElem hn, Option.getD_some]
      have hdev : (m'.mdev n).dev ≠ 0 := by
        intro hzero
        rw [hzero] at hdri
        exact absurd hdri (by decide)
      have huse := hkept.own _ (.dev n _) hfd ⟨_, hmd, rfl, rfl⟩
      obtain ⟨files, heq, hforth, hback⟩ := setFile_spec m' (m'.mdev n).fd DRI_MAJOR true
      rw [heq]
      have hsame {k : ℕ} (hk : ∃ s, m'.use (m'.mdev n).fd = some (.dev s k)) : (m'.mdev n).file =
        k := by
        obtain ⟨s', hs'⟩ := hk
        rw [huse] at hs'
        injection Option.some.inj hs'
      refine ⟨hkept.setFiles (fun k f hk => ?_) (fun k f hk hen hne => ?_),
        fun s md f hmd' hfd' hdev' hf hen => ?_,
        hterms, hact, hmdevs⟩
      · obtain ⟨f', hf', hdev', hholders, -⟩ := hforth k f hk
        exact ⟨f', hf', hdev', fun x hx => .inl (hholders ▸ hx)⟩
      · obtain ⟨f', hf', hholders, hold | ⟨-, hnew⟩⟩ := hback k f hk
        · exact hkept.held k f' hf' (hold ▸ hen) (hholders ▸ hne)
        · exact ⟨n, _, hmd, hfd, hdev, hsame hnew⟩
      · obtain ⟨f', hf', -, hold | ⟨-, hnew⟩⟩ := hback md.file f hf
        · exact hall s md f' hmd' hfd' hdev' hf' (hold ▸ hen)
        · obtain rfl := hkept.once s n md _ hmd' hmd hfd' hfd (hsame hnew).symm
          obtain rfl : m'.mdev s = md := Option.mem_unique hmd hmd'
          exact htty
    · exact ⟨hkept, hall, hterms, hact, hmdevs⟩
  exact ⟨hloop.1, hloop.2.1, hloop.2.2.1, hloop.2.2.2.1⟩

/-- **Switching**, whatever comes of it, leaves the devices to the foreground. -/
theorem activate_spec (h : m.Sound) (tty : ℤ) (sys : Sys) :
    (m.activate tty sys).2.Sound ∧ (m.activate tty sys).2.terms = m.terms := by
  unfold activate
  split_ifs with hact
  · exact ⟨h, rfl⟩
  obtain ⟨hkept, hdims, hdark⟩ := disengage_spec h
  rcases switchLoop tty (sys.tries tty) 7 0 with ret | ⟨swret, ret⟩
  · exact ⟨h.dims hkept hdims, hdims.terms⟩
  · have hkept' : Kept { m.disengage m.activetty with activetty := ret } :=
      ⟨hkept.own, hkept.proper, hkept.file, hkept.once, hkept.held⟩
    obtain ⟨hengaged, hshaded, hterms, hactive⟩ := engage_spec hkept' fun s => hdark s ret
    refine ⟨⟨hengaged, fun s => ?_⟩, hterms.trans hdims.terms⟩
    rw [hactive]
    exact hshaded s

/-! ### What goes on -/

/-- **Everything remains in order** where no device gets into the table, none is enabled, none goes
away that is in use, and the sessions that have devices go on. -/
theorem Sound.follow (h : m.Sound) (howned : m'.Owned False False)
    (hact : m'.activetty = m.activetty)
    (hfiles : m'.files = m.files)
    (hback : ∀ (s : ℕ) (md : Mdev), m'.mdevs[s]? = some md → 0 < md.fd ∨ md.dev ≠ 0 →
      m.mdevs[s]? = some md)
    (hkeep : ∀ (s : ℕ) (md : Mdev), m.mdevs[s]? = some md → 0 < md.fd → md.dev ≠ 0 →
      m'.mdevs[s]? = some md)
    (hruns : ∀ (s : ℕ) (md : Mdev), m.mdevs[s]? = some md → 0 < md.fd → md.dev ≠ 0 → ∀ x,
      m.Runs x md.tty →
      m'.Runs x md.tty) : m'.Sound := by
  refine h.frame ⟨fun fd u => howned.own,
    fun s md hs hdev => h.kept.proper s md (hback s md hs (.inr hdev)) hdev,
    fun s md hs hfd => ?_, fun s s' md md' hs hs' hfd hfd' =>
      h.kept.once s s' md md' (hback s md hs (.inl hfd)) (hback s' md' hs' (.inl hfd')) hfd hfd',
    fun k f hk hen hne => ?_⟩ hact (fun s md hs hfd _ => hback s md hs (.inl hfd)) hfiles
  · obtain ⟨f, hf, hfile⟩ := h.kept.file s md (hback s md hs (.inl hfd)) hfd
    refine ⟨f, hfiles ▸ hf, fun hdev => ⟨(hfile hdev).1, fun x hx => ?_⟩⟩
    exact hruns s md (hback s md hs (.inl hfd)) hfd hdev x ((hfile hdev).2 x hx)
  · obtain ⟨s, md, hs, hfd, hdev, hfile⟩ := h.kept.held k f (hfiles ▸ hk) hen hne
    exact ⟨s, md, hkeep s md hs hfd hdev, hfd, hdev, hfile⟩

/-- The devices stay as they are, and the sessions that have some go on. -/
theorem Sound.runs (h : m.Sound) (howned : m'.Owned False False) (hact : m'.activetty = m.activetty)
    (hfiles : m'.files = m.files) (hmdevs : m'.mdevs = m.mdevs)
    (hruns : ∀ (s : ℕ) (md : Mdev), m.mdevs[s]? = some md → 0 < md.fd → md.dev ≠ 0 → ∀ x,
      m.Runs x md.tty →
      m'.Runs x md.tty) : m'.Sound :=
  h.follow howned hact hfiles (fun _ _ hs _ => hmdevs ▸ hs)
    (fun _ _ hs _ _ => hmdevs.symm ▸ hs) hruns

/-- A device goes away that is not in use any more. -/
theorem Sound.freeMdevSlot (h : m.Sound) {fds : Table Use}
    (hs : ¬(0 < (m.mdev s).fd ∧ (m.mdev s).dev ≠ 0))
    (howned : Owned False False (Mux.freeMdevSlot { m with fds := fds } s)) :
    (Mux.freeMdevSlot { m with fds := fds } s).Sound := by
  obtain ⟨hback, hforth⟩ := freeSlot_spec Mdev.nonzero {} m.mdevs s
  refine h.follow howned rfl rfl (fun s' md hmd hused => ?_)
    (fun s' md hmd hfd hdev => ?_) fun _ _ _ _ _ _ hx => hx
  · rcases hback s' md hmd with rfl | ⟨-, hmd⟩
    · exact absurd hused (by decide)
    · exact hmd
  · refine hforth s' md hmd (by simp [Mdev.nonzero, hdev]) ?_
    rintro rfl
    rw [mdev_eq hmd] at hs
    exact hs ⟨hfd, hdev⟩

/-- The devices that are not in use any more are closed. -/
theorem flushMdevs_spec (h : m.Sound) (howned : m.Owned False False) : m.flushMdevs.Sound := by
  have hloop : m.flushMdevs.Sound ∧ m.flushMdevs.Owned False False := by
    refine loop_invariant (P := fun _ (m' : Mux) => m'.Sound ∧ m'.Owned False False) ⟨h, howned⟩ ?_
    rintro s - m' ⟨h, howned⟩
    have hnext := howned.flushMdev s False.elim
    refine ⟨?_, hnext⟩
    revert hnext
    unfold flushMdev
    split_ifs with hdev
    · obtain ⟨fds, heq⟩ := sysClose_eq m' (m'.mdev s).fd
      rw [heq]
      exact h.freeMdevSlot fun hin => hin.2 hdev
    · exact fun _ => h
  exact hloop.1

end Mux

end Minibase.Vtmux
